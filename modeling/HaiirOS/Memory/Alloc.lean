import HaiirOS.Memory.Phys

/-!
# What the allocator returns

The nested loops of `pmm_alloc_unmapped_` look at the frames from the cursor on one by one,
so the search is a scan for the first free run. A successful allocation returns the start
of that run and reserves it.
-/

namespace HaiirOS

namespace Pmm

open RunSearch

/-- `pmm_is_free` looks at the 35 low bits of the frame number. -/
lemma pmmIsFree_mod (p : Pmm) (addr : Nat) : p.pmmIsFree addr = p.free (addr / 4096 % 2 ^ 35) := by
  have hblock : addr / 4096 / 8 % 2 ^ 32 = addr / 4096 % 2 ^ 35 / 8 := by omega
  have hbit : 8 - addr / 4096 % 8 - 1 = 7 - addr / 4096 % 2 ^ 35 % 8 := by omega
  simp only [pmmIsFree, frameSize, bitmapBlockSize, hblock, hbit, free, used, PackedBits.member]
  rw [Bool.eq_iff_iff, beq_iff_eq, PackedBits.shift_and_one, Bool.not_eq_true']

lemma pmmIsFree_eq (p : Pmm) {addr : Nat} (h : addr / 4096 < 2 ^ 35) :
    p.pmmIsFree addr = p.free (addr / 4096) := by
  rw [pmmIsFree_mod, Nat.mod_eq_of_lt h]

/-- The bit loop of one block is the scan of its last `k` frames. -/
lemma scanBits_eq (p : Pmm) (count i k len : Nat) (hk : k ≤ 8) :
    scanBits (p.get i) count k len =
      match scan p.free count k (8 * i + 8 - k) len with
      | .found e l => .found (8 * i + 7 - e) l
      | .more l => .more l := by
  induction k generalizing len with
  | zero => rfl
  | succ j ih =>
    have hblock : (8 * i + 8 - (j + 1)) / 8 = i := by omega
    have hbit : 7 - (8 * i + 8 - (j + 1)) % 8 = j := by omega
    have hnext : 8 * i + 8 - (j + 1) + 1 = 8 * i + 8 - j := by omega
    have hlast : 8 * i + 7 - (8 * i + 8 - (j + 1)) = j := by omega
    have hfree : p.free (8 * i + 8 - (j + 1)) = true ↔ (p.get i >>> j) &&& 1#8 = 0#8 := by
      rw [free, used, PackedBits.member, hblock, hbit, PackedBits.shift_and_one, Bool.not_eq_true']
    rw [scanBits, scan, hnext]
    by_cases hf : (p.get i >>> j) &&& 1#8 = 0#8
    · rw [if_pos hf, if_pos (hfree.mpr hf)]
      by_cases hc : count ≤ len + 1
      · rw [if_pos hc, if_pos hc]
        simp only [hlast]
      · rw [if_neg hc, if_neg hc]
        exact ih (len + 1) (by omega)
    · rw [if_neg hf, if_neg (fun h => hf (hfree.mp h))]
      exact ih 0 (by omega)

lemma used_of_full (p : Pmm) {i : Nat} (h : p.get i = 0xff#8) {f : Nat} (hf : f / 8 = i) :
    p.free f = false := by
  rw [free, used, PackedBits.member, hf, h, (by decide : (0xff#8) = BitVec.allOnes 8)]
  simp only [BitVec.getLsbD_allOnes, Bool.not_eq_false', decide_eq_true_eq]
  omega

/-- The position of a run in blocks and bits, as the search returns it. -/
def Located : Scan → Option (Nat × Nat × Nat)
  | .found e l => some (e / 8, 7 - e % 8, l)
  | .more _ => none

/-- The block loop is the scan of the frames from the cursor to the end of the bitmap. -/
lemma scanBlocks_eq (p : Pmm) (count n i bit len : Nat) (hbit : bit ≤ 7) :
    p.scanBlocks count (n + 1) i bit len =
      Located (scan p.free count (bit + 1 + 8 * n) (8 * i + 7 - bit) len) := by
  induction n generalizing i bit len with
  | zero =>
    have hstart : 8 * i + 8 - (bit + 1) = 8 * i + 7 - bit := by omega
    rw [scanBlocks, scan_add]
    split_ifs with hfull
    · rw [scanBits_eq p count i (bit + 1) len (by omega), hstart]
      cases hs : scan p.free count (bit + 1) (8 * i + 7 - bit) len with
      | more l => rfl
      | found e l =>
        have hr := scan_found_range hs
        have h1 : e / 8 = i := by omega
        have h2 : 8 * i + 7 - e = 7 - e % 8 := by omega
        simp only [Located, h1, h2]
    · rw [scan_used (by omega) (fun g h1 h2 => used_of_full p (not_not.mp hfull) (by omega))]
      rfl
  | succ n ih =>
    have hstart : 8 * i + 8 - (bit + 1) = 8 * i + 7 - bit := by omega
    have hnext : 8 * i + 7 - bit + (bit + 1) = 8 * (i + 1) + 7 - 7 := by omega
    have hlen : 8 * (n + 1) = 7 + 1 + 8 * n := by omega
    rw [scanBlocks, scan_add, hnext, hlen]
    split_ifs with hfull
    · rw [scanBits_eq p count i (bit + 1) len (by omega), hstart]
      cases hs : scan p.free count (bit + 1) (8 * i + 7 - bit) len with
      | more l => exact ih (i + 1) 7 l (by omega)
      | found e l =>
        have hr := scan_found_range hs
        have h1 : e / 8 = i := by omega
        have h2 : 8 * i + 7 - e = 7 - e % 8 := by omega
        simp only [Located, h1, h2]
    · rw [scan_used (by omega) (fun g h1 h2 => used_of_full p (not_not.mp hfull) (by omega))]
      exact ih (i + 1) 7 0 (by omega)

/-- The frame that the search looks at first. -/
def cursor (p : Pmm) : Nat := 8 * p.lastIdx + 7 - p.lastIdxBit

/-- The state in which the second search of `pmm_alloc_unmapped` starts. -/
def restart (p : Pmm) : Pmm :=
  { p with lastIdx := 0, lastIdxBit := if p.lastIdx < p.bitmapSize then 7 else p.lastIdxBit }

/-- The state after the run of `n` frames from `s` on has been handed out. -/
def handOut (p : Pmm) (s n : Nat) : Pmm :=
  { p with lastIdx := (s + n - 1) / 8, lastIdxBit := 7 - (s + n - 1) % 8 }.reserveFrames
    (s * 4096) (n * 4096)

/-- No free run of `n` frames starts at frame `lo` or later. -/
def NoRun (p : Pmm) (lo n : Nat) : Prop :=
  ∀ s, lo ≤ s → s + n ≤ 8 * p.bitmapSize → ¬ AllFree p.free s n

/-- One search hands out the first run from the cursor on, if there is one. -/
theorem pmmAllocUnmapped_search (p : Pmm) {count : Nat} (hc : 0 < count) (hbit : p.lastIdxBit ≤ 7) :
    (∃ s, IsFirst p.free count p.cursor (8 * p.bitmapSize) s ∧
      p.pmmAllocUnmapped_ count = (s * 4096, p.handOut s count)) ∨
    p.NoRun p.cursor count ∧ p.pmmAllocUnmapped_ count =
      (0, { p with lastIdxBit := if p.lastIdx < p.bitmapSize then 7 else p.lastIdxBit }) := by
  unfold pmmAllocUnmapped_
  rw [if_neg (by omega)]
  by_cases hlt : p.lastIdx < p.bitmapSize
  · obtain ⟨n, hn⟩ : ∃ n, p.bitmapSize - p.lastIdx = n + 1 := ⟨p.bitmapSize - p.lastIdx - 1, by omega⟩
    have hend : p.cursor + (p.lastIdxBit + 1 + 8 * n) = 8 * p.bitmapSize := by unfold cursor; omega
    have hcur : 8 * p.lastIdx + 7 - p.lastIdxBit = p.cursor := rfl
    rw [hn, scanBlocks_eq p count n p.lastIdx p.lastIdxBit 0 hbit, hcur]
    have hspec := scan_spec (p.lastIdxBit + 1 + 8 * n) (Scanned.init p.free hc p.cursor)
    rw [hend] at hspec
    cases hs : scan p.free count (p.lastIdxBit + 1 + 8 * n) p.cursor 0 with
    | found e l =>
      rw [hs] at hspec
      obtain ⟨rfl, hle, hfirst⟩ := hspec
      have haddr : (e / 8 * 8 + (8 - (7 - e % 8)) - l) * 4096 = (e + 1 - l) * 4096 := by omega
      have hlast : e + 1 - l + l - 1 = e := by omega
      refine Or.inl ⟨e + 1 - l, hfirst, ?_⟩
      simp only [Located, handOut, bitmapBlockSize, frameSize, haddr, hlast]
    | more l =>
      rw [hs] at hspec
      refine Or.inr ⟨fun s h1 h2 => hspec.no_run h1 h2, ?_⟩
      simp only [Located, bitmapBlockSize]
  · have hz : p.bitmapSize - p.lastIdx = 0 := by omega
    refine Or.inr ⟨fun s h1 h2 => ?_, ?_⟩
    · unfold cursor at h1
      omega
    · rw [hz]
      rfl

/-- The run that the next allocation of `count` frames gets: the first one from the cursor on,
or else the first one from the start. -/
def NextRun (p : Pmm) (count s : Nat) : Prop :=
  IsFirst p.free count p.cursor (8 * p.bitmapSize) s ∨
    p.NoRun p.cursor count ∧ IsFirst p.free count p.restart.cursor (8 * p.bitmapSize) s

lemma NextRun.allFree {p : Pmm} {n s : Nat} (h : p.NextRun n s) : AllFree p.free s n := by
  rcases h with h | ⟨-, h⟩
  · exact h.allFree
  · exact h.allFree

lemma NextRun.le_bitmap {p : Pmm} {n s : Nat} (h : p.NextRun n s) : s + n ≤ 8 * p.bitmapSize := by
  rcases h with h | ⟨-, h⟩
  · exact h.le_hi
  · exact h.le_hi

lemma NextRun.unique {p : Pmm} {n s t : Nat} (hs : p.NextRun n s) (ht : p.NextRun n t) : s = t := by
  rcases hs with hs | ⟨hno, hs⟩
  · rcases ht with ht | ⟨hno', -⟩
    · exact hs.unique ht
    · exact (hno' s hs.lo_le hs.le_hi hs.allFree).elim
  · rcases ht with ht | ⟨-, ht⟩
    · exact (hno t ht.lo_le ht.le_hi ht.allFree).elim
    · exact hs.unique ht

/-- `pmm_alloc_unmapped` hands out the next run; it returns 0 exactly when there is none. -/
theorem pmmAllocUnmapped_spec (p : Pmm) {count : Nat} (hc : 0 < count) (hbit : p.lastIdxBit ≤ 7)
    (h0 : p.used 0 = true) :
    (∃ s, 0 < s ∧ p.NextRun count s ∧ p.pmmAllocUnmapped count = (s * 4096, p.handOut s count)) ∨
    p.NoRun p.cursor count ∧ p.NoRun p.restart.cursor count ∧
      p.pmmAllocUnmapped count = (0, { p.restart with
        lastIdxBit := if 0 < p.bitmapSize then 7 else p.restart.lastIdxBit }) := by
  have hpos {s : Nat} (h : AllFree p.free s count) : 0 < s := by
    rcases Nat.eq_zero_or_pos s with rfl | hs
    · have := h 0 (Nat.le_refl 0) (by omega)
      simp [free, h0] at this
    · exact hs
  have hbit' : p.restart.lastIdxBit ≤ 7 := by
    change (if p.lastIdx < p.bitmapSize then 7 else p.lastIdxBit) ≤ 7
    split_ifs <;> omega
  unfold pmmAllocUnmapped
  rcases pmmAllocUnmapped_search p hc hbit with ⟨s, hs, hr⟩ | ⟨hno, hr⟩
  · have hs0 := hpos hs.allFree
    refine Or.inl ⟨s, hs0, Or.inl hs, ?_⟩
    rw [hr]
    exact if_neg (by omega)
  · rw [hr]
    simp only [if_true]
    change _ ∨ _ ∧ _ ∧ p.restart.pmmAllocUnmapped_ count = _
    rcases pmmAllocUnmapped_search p.restart hc hbit' with ⟨s, hs, hr'⟩ | ⟨hno', hr'⟩
    · refine Or.inl ⟨s, hpos hs.allFree, Or.inr ⟨hno, hs⟩, ?_⟩
      exact hr'
    · exact Or.inr ⟨hno, hno', hr'⟩

/-- The second search looks at every frame of the bitmap. -/
lemma restart_cursor (p : Pmm) (hidx : p.lastIdx < p.bitmapSize) : p.restart.cursor = 0 := by
  have hbit : p.restart.lastIdxBit = 7 := if_pos hidx
  rw [cursor, hbit]
  rfl

/-- Wherever the cursor is, `pmm_alloc_unmapped` finds a run of free frames if the bitmap has one,
and what it finds was free and lies in the bitmap. -/
theorem pmmAllocUnmapped_finds (p : Pmm) {count : Nat} (hc : 1 ≤ count) (h0 : p.used 0 = true)
    (hidx : p.lastIdx < p.bitmapSize) (hbit : p.lastIdxBit ≤ 7) :
    ((p.pmmAllocUnmapped count).1 ≠ 0 ↔ ∃ s, s + count ≤ 8 * p.bitmapSize ∧ AllFree p.free s count) ∧
    ((p.pmmAllocUnmapped count).1 ≠ 0 → (p.pmmAllocUnmapped count).1 % 4096 = 0 ∧
      (p.pmmAllocUnmapped count).1 / 4096 + count ≤ 8 * p.bitmapSize ∧
      AllFree p.free ((p.pmmAllocUnmapped count).1 / 4096) count) := by
  rcases p.pmmAllocUnmapped_spec hc hbit h0 with ⟨s, hpos, hs, hr⟩ | ⟨-, hno, hr⟩
  · have hne : s * 4096 ≠ 0 := by omega
    have hdiv : s * 4096 / 4096 = s := by omega
    simp only [hr, hdiv]
    exact ⟨iff_of_true hne ⟨s, hs.le_bitmap, hs.allFree⟩,
      fun _ => ⟨Nat.mul_mod_left s 4096, hs.le_bitmap, hs.allFree⟩⟩
  · rw [restart_cursor p hidx] at hno
    simp only [hr]
    constructor
    · apply iff_of_false (not_not.mpr rfl)
      rintro ⟨s, hle, hfree⟩
      exact hno s (Nat.zero_le s) hle hfree
    · intro h
      exact absurd rfl h

/-- Two blocks with the frames 3 to 10 free and the cursor in the middle of the second block. -/
def twoBlocks : Pmm where
  bytes i := if i = 0 then 0xe0#8 else 0x1f#8
  bitmap := 0
  bitmapSize := 2
  lastIdx := 1
  lastIdxBit := 4

/-- Six frames are found behind the cursor, across the two blocks. -/
theorem twoBlocks_finds : (twoBlocks.pmmAllocUnmapped 6).1 ≠ 0 := by
  apply (pmmAllocUnmapped_finds twoBlocks (by decide) (by decide) (by decide) (by decide)).1.mpr
  have hfree : ∀ i < 6, twoBlocks.free (3 + i) = true := by decide
  refine ⟨3, by decide, fun f h1 h2 => ?_⟩
  rw [← hfree (f - 3) (by omega)]
  congr
  omega

/-- A handed-out run is marked used except for the hole, as far as 32 bits count it. -/
theorem used_handOut (p : Pmm) {s n : Nat} (hfit : s + n % 2 ^ 32 < 2 ^ 35) (f : Nat) :
    (p.handOut s n).used f = if touched s (n % 2 ^ 32) f then true else p.used f := by
  have hcount : pageCount (n * 4096) = n := by unfold pageCount; omega
  have hstart : s * 4096 / 4096 = s := by omega
  have h := used_updateFrames paintsFrames_reserve
    { p with lastIdx := (s + n - 1) / 8, lastIdxBit := 7 - (s + n - 1) % 8 }
    (s * 4096) (n * 4096) (by omega) f
  rw [hcount, hstart] at h
  exact h

/-- Giving back a run of `n` frames marks it free except for the hole. -/
theorem used_freeFrames (p : Pmm) {s n : Nat} (hfit : s + n % 2 ^ 32 < 2 ^ 35) (f : Nat) :
    (p.freeFrames (s * 4096) (n * 4096)).used f =
      if touched s (n % 2 ^ 32) f then false else p.used f := by
  have hcount : pageCount (n * 4096) = n := by unfold pageCount; omega
  have hstart : s * 4096 / 4096 = s := by omega
  have h := used_updateFrames paintsFrames_free p (s * 4096) (n * 4096) (by omega) f
  rw [hcount, hstart] at h
  exact h

/-- Two allocator states over the same bitmap whose cursor points into a block. -/
structure Keeps (p q : Pmm) : Prop where
  bitmap : q.bitmap = p.bitmap
  bitmapSize : q.bitmapSize = p.bitmapSize
  lastIdxBit : q.lastIdxBit ≤ 7

lemma handOut_keeps (p : Pmm) (s n : Nat) : Keeps p (p.handOut s n) := by
  have h := sameCursor_reserveFrames
    { p with lastIdx := (s + n - 1) / 8, lastIdxBit := 7 - (s + n - 1) % 8 } (s * 4096) (n * 4096)
  refine ⟨h.bitmap, h.bitmapSize, ?_⟩
  rw [handOut, h.lastIdxBit]
  exact Nat.sub_le ..

lemma search_keeps (p : Pmm) (count : Nat) (hbit : p.lastIdxBit ≤ 7) : Keeps p (p.pmmAllocUnmapped_ count).2 := by
  rcases Nat.eq_zero_or_pos count with rfl | hc
  · exact ⟨rfl, rfl, hbit⟩
  · rcases p.pmmAllocUnmapped_search hc hbit with ⟨s, -, hr⟩ | ⟨-, hr⟩
    · rw [hr]
      exact p.handOut_keeps s count
    · rw [hr]
      refine ⟨rfl, rfl, ?_⟩
      simp only
      split_ifs <;> omega

/-- An allocation works on the bitmap it finds and leaves the cursor in a block. -/
lemma pmmAllocUnmapped_keeps (p : Pmm) (count : Nat) (hbit : p.lastIdxBit ≤ 7) :
    Keeps p (p.pmmAllocUnmapped count).2 := by
  have h1 := p.search_keeps count hbit
  unfold pmmAllocUnmapped
  simp only
  split_ifs
  · have h2 := search_keeps { (p.pmmAllocUnmapped_ count).2 with lastIdx := 0 } count h1.lastIdxBit
    exact ⟨h2.bitmap.trans h1.bitmap, h2.bitmapSize.trans h1.bitmapSize, h2.lastIdxBit⟩
  · exact h1

/-- An allocator in use: frame 0 is never free and all frame numbers fit 35 bits. -/
structure Valid (p : Pmm) : Prop where
  lastIdxBit : p.lastIdxBit ≤ 7
  zero : p.used 0 = true
  size : p.bitmapSize < 2 ^ 32

variable {p : Pmm}

lemma Valid.alloc_eq (h : p.Valid) {count s : Nat} (hc : 0 < count) (hs : p.NextRun count s) :
    p.pmmAllocUnmapped count = (s * 4096, p.handOut s count) := by
  rcases p.pmmAllocUnmapped_spec hc h.lastIdxBit h.zero with ⟨t, -, ht, hr⟩ | ⟨hno, hno', -⟩
  · rw [hs.unique ht]
    exact hr
  · rcases hs with hs | ⟨-, hs⟩
    · exact (hno s hs.lo_le hs.le_hi hs.allFree).elim
    · exact (hno' s hs.lo_le hs.le_hi hs.allFree).elim

lemma Valid.used_mono (h : p.Valid) (count : Nat) {f : Nat} (hf : p.used f = true) :
    (p.pmmAllocUnmapped count).2.used f = true := by
  rcases Nat.eq_zero_or_pos count with rfl | hc
  · exact hf
  · rcases p.pmmAllocUnmapped_spec hc h.lastIdxBit h.zero with ⟨s, -, hs, hr⟩ | ⟨-, -, hr⟩
    · have hle := hs.le_bitmap
      have hlt := h.size
      have hmod := Nat.mod_le count (2 ^ 32)
      rw [hr, used_handOut p (by omega)]
      split_ifs
      · rfl
      · exact hf
    · rw [hr]
      exact hf

lemma Valid.alloc (h : p.Valid) (count : Nat) : (p.pmmAllocUnmapped count).2.Valid := by
  have hk := p.pmmAllocUnmapped_keeps count h.lastIdxBit
  exact ⟨hk.lastIdxBit, h.used_mono count h.zero, Nat.lt_of_le_of_lt (Nat.le_of_eq hk.bitmapSize) h.size⟩

lemma Valid.handOut (h : p.Valid) {count s : Nat} (hc : 0 < count) (hs : p.NextRun count s) : (p.handOut s count).Valid := by
  have hv := h.alloc count
  rwa [h.alloc_eq hc hs] at hv

/-- One frame is handed out whole. -/
lemma Valid.used_handOut_one (h : p.Valid) {s : Nat} (hs : p.NextRun 1 s) (f : Nat) :
    (p.handOut s 1).used f = true ↔ f = s ∨ p.used f = true := by
  have hle := hs.le_bitmap
  have hlt := h.size
  have ht : touched s (1 % 2 ^ 32) f ↔ f = s := by
    unfold touched hole
    omega
  rw [used_handOut p (by omega)]
  simp only [ht]
  split_ifs with hf
  · simp [hf]
  · simp [hf]

lemma Valid.alloc_aligned (h : p.Valid) (count : Nat) : (p.pmmAllocUnmapped count).1 % 4096 = 0 := by
  rcases Nat.eq_zero_or_pos count with rfl | hc
  · rfl
  · rcases p.pmmAllocUnmapped_spec hc h.lastIdxBit h.zero with ⟨s, -, -, hr⟩ | ⟨-, -, hr⟩
    · rw [hr]
      exact Nat.mul_mod_left s 4096
    · simp only [hr]

end Pmm

end HaiirOS
