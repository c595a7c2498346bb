import HaiirOS.Proofs.BitmapPlacement
import HaiirOS.Proofs.FrameIntervals

/-!
# The stores of `init_pmm`

After `map_bitmap` the initialisation fills the bitmap and makes one free for each usable entry
and four reserves. Where the frames of such a range go past the last frame that the bitmap has a
bit for, so do the stores. They go unnoticed exactly if the memory there already has the marks.
-/

namespace HaiirOS

open PackedBits
open Pmm (frameMasks applyMask)

/-- A call of `reserve_frames` or `free_frames`. -/
structure FrameCall where
  reserve : Bool
  range : MemRange

namespace FrameCall

def masks (c : FrameCall) : List (Nat × Byte) := frameMasks c.range.start c.range.size

end FrameCall

namespace Pmm

def call (p : Pmm) (c : FrameCall) : Pmm :=
  if c.reserve then p.reserveFrames c.range.start c.range.size else p.freeFrames c.range.start c.range.size

/-- Some store of the calls gives byte `i` of the bitmap a new value. -/
def CallsChange (p : Pmm) : List FrameCall → Nat → Prop
  | [], _ => False
  | c :: cs, i => Changes (applyMask c.reserve) p.get c.masks i ∨ CallsChange (p.call c) cs i

lemma used_call (p : Pmm) (c : FrameCall) (f : Nat) :
    (p.call c).used f = if Covered c.masks f then c.reserve else p.used f := by
  unfold call
  split_ifs with hr hc hc
  · rw [used_reserveFrames_masks, hr]
    exact if_pos hc
  · rw [used_reserveFrames_masks]
    exact if_neg hc
  · rw [used_freeFrames_masks, (Bool.not_eq_true _).mp hr]
    exact if_pos hc
  · rw [used_freeFrames_masks]
    exact if_neg hc

/-- Calls change bytes below `n` only, exactly if at every other position under their masks the
bitmap already has the mark. -/
theorem callsChange_lt_iff (p : Pmm) (cs : List FrameCall) (n : Nat) :
    (∀ i, p.CallsChange cs i → i < n) ↔
      ∀ f, 8 * n ≤ f → ∀ c ∈ cs, Covered c.masks f → p.used f = c.reserve := by
  induction cs generalizing p with
  | nil => simp [CallsChange]
  | cons c cs ih =>
    have hfirst : (∀ i, Changes (applyMask c.reserve) p.get c.masks i → i < n) ↔
        ∀ f, 8 * n ≤ f → Covered c.masks f → p.used f = c.reserve := by
      simp only [changes_iff (paints_applyMask c.reserve)]
      constructor
      · intro h f hf hc
        by_contra hne
        have hlt := h (f / 8) ⟨f, rfl, hc, hne⟩
        omega
      · rintro h i ⟨f, rfl, hc, hne⟩
        by_contra hlt
        exact hne (h f (by omega) hc)
    have hkept (h : ∀ f, 8 * n ≤ f → Covered c.masks f → p.used f = c.reserve) (f : Nat) (hf : 8 * n ≤ f) :
        (p.call c).used f = p.used f := by
      rw [used_call]
      split_ifs with hc
      · exact (h f hf hc).symm
      · rfl
    simp only [CallsChange, or_imp, forall_and, List.forall_mem_cons]
    rw [hfirst, ih]
    constructor
    · rintro ⟨h1, h2⟩
      refine ⟨h1, fun f hf c' hc' hcov => ?_⟩
      rw [← hkept h1 f hf]
      exact h2 f hf c' hc' hcov
    · rintro ⟨h1, h2⟩
      refine ⟨h1, fun f hf c' hc' hcov => ?_⟩
      rw [hkept h1 f hf]
      exact h2 f hf c' hc' hcov

end Pmm

/-- A reserve or free of the range gets to frame `f`: for a range that ends below frame `2 ^ 35`, a frame from its
first one on, as many as its size has pages, but for the hole of 8 to 15 pages that start inside of a block. -/
def MemRange.Reaches (r : MemRange) (f : Nat) : Prop :=
  Pmm.blockTouched (r.start / frameSize) (Pmm.pageCount r.size % 2 ^ 32) f

instance (r : MemRange) (f : Nat) : Decidable (r.Reaches f) := inferInstanceAs (Decidable (Pmm.blockTouched ..))

lemma FrameCall.covered_masks (c : FrameCall) (f : Nat) : Covered c.masks f ↔ c.range.Reaches f :=
  Pmm.covered_iff_blockTouched ..

lemma MemRange.Fits.reaches_iff {r : MemRange} (h : r.Fits) (f : Nat) : r.Reaches f ↔ r.Touches f := by
  have hblocks := h.blocks
  have hiff : Pmm.blockTouched (r.start / 4096) (Pmm.pageCount r.size) f ↔ r.Touches f := Pmm.blockTouched_iff hblocks
  rw [← hiff, Reaches, h.count_mod]

lemma MemRange.Reaches.lt {r : MemRange} {f : Nat} (h : r.Reaches f) : f < 2 ^ 35 := Pmm.blockTouched_lt h

namespace MemoryInfo

/-- The calls of `init_pmm` after `init_bitmap`, in order. -/
def calls (info : MemoryInfo) : List FrameCall :=
  (info.map.filter MemoryMapEntry.usable).map (fun e => ⟨false, e.range⟩) ++
    info.reserved.reverse.map fun r => ⟨true, r⟩

/-- The bytes that `init_pmm` stores to: those of the temporary bitmap's page, of the bitmap, and where else its calls
get to. -/
def Stores (info : MemoryInfo) (a : Nat) : Prop :=
  tmpBitmapBase ≤ a ∧ a < tmpBitmapBase + frameSize ∨
    bitmapAddr info ≤ a ∧ a < bitmapAddr info + getBitmapSize info ∨
    ∃ c ∈ info.calls, ∃ s ∈ c.masks, a = bitmapAddr info + s.1

/-- The bitmap has a bit for every frame that a usable entry or a reserved range gets to, or the bit's place behind
its end already has the mark. -/
structure FitsBitmap (info : MemoryInfo) (mark : Nat → Bool) : Prop where
  freed : ∀ e ∈ info.map, e.usable = true → ∀ f, e.range.Reaches f → f < 8 * getBitmapSize info ∨ mark f = false
  reserved : ∀ r ∈ info.reserved, ∀ f, r.Reaches f → f < 8 * getBitmapSize info ∨ mark f = true

variable {info : MemoryInfo} {mark : Nat → Bool}

/-- Ranges that end with the last frame of the bitmap at the latest. -/
lemma fitsBitmap_of_ends (hfits : info.UsableFits) (hsize : getBitmapSize info < 2 ^ 32)
    (hfree : ∀ e ∈ info.map, e.usable = true → e.base.toNat / 4096 + Pmm.pageCount e.len.toNat ≤ 8 * getBitmapSize info)
    (hreserve : ∀ r ∈ info.reserved, r.start / 4096 + Pmm.pageCount r.size ≤ 8 * getBitmapSize info) :
    info.FitsBitmap mark := by
  refine ⟨fun e he hu f hf => Or.inl ?_, fun r hr f hf => Or.inl ?_⟩
  · obtain ⟨-, hlt, -⟩ := ((hfits e he hu).reaches_iff f).mp hf
    exact Nat.lt_of_lt_of_le hlt (hfree e he hu)
  · obtain ⟨-, hlt, -⟩ := ((reserved_fits hsize r hr).reaches_iff f).mp hf
    exact Nat.lt_of_lt_of_le hlt (hreserve r hr)

end MemoryInfo

lemma foldl_call_free (es : List MemoryMapEntry) (p : Pmm) :
    ((es.filter MemoryMapEntry.usable).map fun e => (⟨false, e.range⟩ : FrameCall)).foldl Pmm.call p =
      es.foldl (fun p e => if e.usable then p.freeFrames e.base.toNat e.len.toNat else p) p := by
  induction es generalizing p with
  | nil => rfl
  | cons e es ih =>
    by_cases hu : e.usable = true
    · rw [List.filter_cons_of_pos hu, List.map_cons, List.foldl_cons, List.foldl_cons, ih, if_pos hu]
      rfl
    · rw [List.filter_cons_of_neg hu, List.foldl_cons, if_neg hu, ih]

lemma initFrames_eq_calls (p : Pmm) (info : MemoryInfo) (hb : p.bitmap = bitmapAddr info)
    (hs : p.bitmapSize = getBitmapSize info) : p.initFrames info = info.calls.foldl Pmm.call p := by
  rw [initFrames_eq p info hb hs, MemoryInfo.calls, List.foldl_append, foldl_call_free, List.foldl_map, reserveAll,
    List.foldl_reverse]
  simp only [Pmm.call, if_true]

namespace Machine

/-- `init_bitmap` up to its fill loop. -/
def mappedBitmap (m : Machine) (info : MemoryInfo) : Option Machine :=
  { m with pmm := { m.pmm with bitmapSize := getBitmapSize info, bitmap := bitmapAddr info } }.mapBitmap

/-- The stores of the fill loop. -/
def fillStores (info : MemoryInfo) : List (Nat × Byte) := (List.range (getBitmapSize info)).map fun i => (i, 0xff#8)

/-- Every byte that `init_pmm` gives a new value after `map_bitmap` is in the bitmap. -/
def StoresWithin (m : Machine) (info : MemoryInfo) : Prop :=
  ∀ m1, m.mappedBitmap info = some m1 → ∀ i,
    Changes (fun _ b => b) m1.pmm.get (fillStores info) i ∨
      (m1.pmm.fill 0xff#8 0 (getBitmapSize info)).CallsChange info.calls i → i < getBitmapSize info

/-- The mark at the place of frame `f`: of memory before `init_pmm`, in the page of the temporary bitmap of what
`map_bitmap` leaves there. -/
def markBefore (m m1 : Machine) (info : MemoryInfo) (f : Nat) : Bool :=
  if tmpBitmapBase ≤ bitmapAddr info + f / 8 ∧ bitmapAddr info + f / 8 < tmpBitmapBase + frameSize then m1.pmm.used f
  else { m.pmm with bitmap := bitmapAddr info }.used f

lemma mappedBitmap_pmm {m m1 : Machine} {info : MemoryInfo} (h : m.mappedBitmap info = some m1) :
    m1.pmm.bitmap = bitmapAddr info ∧ m1.pmm.bitmapSize = getBitmapSize info := by
  unfold mappedBitmap mapBitmap at h
  simp only at h
  split_ifs at h
  · simp at h
  · obtain ⟨m2, -, h⟩ := Option.bind_eq_some_iff.mp h
    cases h
    exact ⟨rfl, rfl⟩

end Machine

section

variable {put : Byte → Byte → Byte} {full : Byte} {p : Pmm} {a : Nat}

namespace Pmm

lemma bytes_set {i : Nat} (b : Byte) (h : p.bitmap + i ≠ a) : (p.set i b).bytes a = p.bytes a :=
  Function.update_of_ne h.symm ..

lemma bytes_fill {b : Byte} {first n : Nat} (h : ∀ i ∈ List.range' first n, p.bitmap + i ≠ a) :
    (p.fill b first n).bytes a = p.bytes a := by
  induction n generalizing p first with
  | zero => rfl
  | succ n ih =>
    have hsame := sameCursor_set p first b
    rw [List.range'_succ] at h
    rw [fill, ih fun i hi => by rw [hsame.bitmap]; exact h i (List.mem_cons_of_mem first hi),
      bytes_set b (h first List.mem_cons_self)]

lemma bytes_updateBlocks {startBlock offset blocks endBlock : Nat}
    (h : ∀ s ∈ blockMasks startBlock offset blocks endBlock, p.bitmap + s.1 ≠ a) :
    (p.updateBlocks put full startBlock offset blocks endBlock).bytes a = p.bytes a := by
  unfold updateBlocks
  unfold blockMasks at h
  by_cases h0 : blocks ≠ 0
  · rw [if_pos h0] at h ⊢
    have hfirst (b : Byte) : (p.set startBlock b).bytes a = p.bytes a := bytes_set b (h (startBlock, 0xff#8 >>> offset) (by simp))
    have hfill (b : Byte) : ((p.set startBlock b).fill full ((startBlock + 1) % 2 ^ 32)
        (endBlock - (startBlock + 1) % 2 ^ 32)).bytes a = p.bytes a := by
      refine (bytes_fill fun i hi => ?_).trans (hfirst b)
      exact h (i, 0xff#8) (List.mem_cons_of_mem _ (List.mem_append_left _ (List.mem_map_of_mem hi)))
    simp only
    split_ifs with h1
    · refine (bytes_set _ ?_).trans (hfill _)
      rw [(sameCursor_fill ..).bitmap, (sameCursor_set p startBlock _).bitmap]
      rw [if_pos h1] at h
      exact h (endBlock, 0xff#8 <<< (bitmapBlockSize - offset)) (by simp)
    · exact hfill _
  · rw [if_neg h0]

lemma bytes_updateRest {offset rest endBlock : Nat} (h : ∀ s ∈ restMasks offset rest endBlock, p.bitmap + s.1 ≠ a) :
    (p.updateRest put offset rest endBlock).bytes a = p.bytes a := by
  unfold updateRest
  unfold restMasks at h
  by_cases h0 : rest ≠ 0
  · rw [if_pos h0] at h ⊢
    have hlast : p.bitmap + endBlock ≠ a := h (endBlock, _) List.mem_cons_self
    have hnext : p.bitmap + (endBlock + 1) % 2 ^ 32 ≠ a :=
      h ((endBlock + 1) % 2 ^ 32, _) (List.mem_cons_of_mem _ List.mem_cons_self)
    exact (bytes_set (p := p.set endBlock (put (p.get endBlock) _)) _ hnext).trans (bytes_set _ hlast)
  · rw [if_neg h0]

/-- A reserve or free changes the bytes at its masks only. -/
theorem bytes_updateFrames {startAddr size : Nat} (h : ∀ s ∈ frameMasks startAddr size, p.bitmap + s.1 ≠ a) :
    (p.updateFrames put full startAddr size).bytes a = p.bytes a := by
  unfold updateFrames
  unfold frameMasks at h
  by_cases h0 : size = 0
  · rw [if_pos h0]
  · rw [if_neg h0] at h ⊢
    refine (bytes_updateRest fun s hs => ?_).trans (bytes_updateBlocks fun s hs => h s (List.mem_append_left _ hs))
    rw [(sameCursor_updateBlocks p ..).bitmap]
    exact h s (List.mem_append_right _ hs)

lemma blockMasks_le {startBlock offset blocks endBlock : Nat} (hle : startBlock ≤ endBlock) {s : Nat × Byte}
    (hs : s ∈ blockMasks startBlock offset blocks endBlock) : s.1 ≤ endBlock := by
  unfold blockMasks at hs
  by_cases h0 : blocks ≠ 0
  · rw [if_pos h0] at hs
    rcases List.mem_append.mp hs with hs | hs
    · rcases List.mem_cons.mp hs with rfl | hs
      · exact hle
      · obtain ⟨i, hi, rfl⟩ := List.mem_map.mp hs
        have hlt := List.mem_range'_1.mp hi
        simp only
        omega
    · by_cases h1 : blocks > 1
      · rw [if_pos h1, List.mem_singleton] at hs
        exact Nat.le_of_eq (congrArg Prod.fst hs)
      · rw [if_neg h1] at hs
        cases hs
  · rw [if_neg h0] at hs
    cases hs

lemma restMasks_le {offset rest endBlock : Nat} {s : Nat × Byte} (hs : s ∈ restMasks offset rest endBlock) :
    s.1 ≤ endBlock + 1 := by
  unfold restMasks at hs
  by_cases h0 : rest ≠ 0
  · rw [if_pos h0] at hs
    rcases List.mem_cons.mp hs with rfl | hs
    · exact Nat.le_succ endBlock
    · rw [List.mem_singleton.mp hs]
      exact Nat.mod_le ..
  · rw [if_neg h0] at hs
    cases hs

/-- The masks go as far as the block behind the last one. -/
lemma frameMasks_le {startAddr size n : Nat} (hend : startAddr / 4096 / 8 + pageCount size / 8 + 1 ≤ n) (hn : n < 2 ^ 32)
    {s : Nat × Byte} (hs : s ∈ frameMasks startAddr size) : s.1 ≤ n := by
  unfold frameMasks at hs
  by_cases h0 : size = 0
  · rw [if_pos h0] at hs
    cases hs
  · rw [if_neg h0] at hs
    have hpages : (size - 1) / frameSize + 1 = pageCount size := by
      simp only [pageCount, frameSize]
      omega
    have hmod := Nat.mod_le (pageCount size) (2 ^ 32)
    simp only [hpages, frameSize, bitmapBlockSize] at hs
    rcases List.mem_append.mp hs with hs | hs
    · have hle := blockMasks_le (by omega) hs
      omega
    · have hle := restMasks_le hs
      omega

lemma bytes_reserveFrames {startAddr size n : Nat} (hend : startAddr / 4096 / 8 + pageCount size / 8 + 1 ≤ n)
    (hn : n < 2 ^ 32) (h : a < p.bitmap ∨ p.bitmap + n < a) : (p.reserveFrames startAddr size).bytes a = p.bytes a := by
  refine bytes_updateFrames fun s hs => ?_
  have hle := frameMasks_le hend hn hs
  omega

lemma bytes_freeFrames {startAddr size n : Nat} (hend : startAddr / 4096 / 8 + pageCount size / 8 + 1 ≤ n)
    (hn : n < 2 ^ 32) (h : a < p.bitmap ∨ p.bitmap + n < a) : (p.freeFrames startAddr size).bytes a = p.bytes a := by
  refine bytes_updateFrames fun s hs => ?_
  have hle := frameMasks_le hend hn hs
  omega

lemma sameCursor_call (p : Pmm) (c : FrameCall) : SameCursor p (p.call c) := by
  unfold call
  split_ifs
  · exact sameCursor_reserveFrames p ..
  · exact sameCursor_freeFrames p ..

lemma bytes_calls {cs : List FrameCall} (h : ∀ c ∈ cs, ∀ s ∈ c.masks, p.bitmap + s.1 ≠ a) :
    (cs.foldl call p).bytes a = p.bytes a := by
  induction cs generalizing p with
  | nil => rfl
  | cons c cs ih =>
    obtain ⟨hc, hcs⟩ := List.forall_mem_cons.mp h
    rw [List.foldl_cons, ih (by rw [(sameCursor_call p c).bitmap]; exact hcs)]
    unfold call
    split_ifs
    · exact bytes_updateFrames hc
    · exact bytes_updateFrames hc

end Pmm

end

/-- The temporary allocator works in its own page. -/
structure TmpBytes (bytes : Nat → Byte) (p : Pmm) : Prop where
  tmp : TmpPmm p
  bitmap : p.bitmap = tmpBitmapBase
  bytes : ∀ a, ¬ (tmpBitmapBase ≤ a ∧ a < tmpBitmapBase + frameSize) → p.bytes a = bytes a

lemma TmpBytes.create {p : Pmm} (hbit : p.lastIdxBit ≤ 7) : TmpBytes p.bytes p.createTmpBitmap := by
  let q : Pmm := { p with bitmap := tmpBitmapBase, bitmapSize := tmpBitmapSize }
  have hreserved : (q.reserveFrames 0 tmpBitmapFirstFrame).bitmap = tmpBitmapBase :=
    (Pmm.sameCursor_reserveFrames q 0 tmpBitmapFirstFrame).bitmap
  refine ⟨.create p hbit, (Pmm.sameCursor_freeFrames ..).bitmap.trans hreserved, fun a ha => ?_⟩
  have hout : a < tmpBitmapBase ∨ tmpBitmapBase + 4095 < a := by
    simp only [frameSize] at ha
    omega
  have hfree : ((q.reserveFrames 0 tmpBitmapFirstFrame).freeFrames tmpBitmapFirstFrame (tmpBitmapBase - 1)).bytes a =
      (q.reserveFrames 0 tmpBitmapFirstFrame).bytes a :=
    Pmm.bytes_freeFrames (n := 4095) (by decide) (by decide) (by rw [hreserved]; exact hout)
  have hreserve : (q.reserveFrames 0 tmpBitmapFirstFrame).bytes a = q.bytes a :=
    Pmm.bytes_reserveFrames (n := 4095) (by decide) (by decide) hout
  exact hfree.trans hreserve

lemma TmpBytes.alloc {bytes : Nat → Byte} {p : Pmm} (h : TmpBytes bytes p) : TmpBytes bytes (p.pmmAllocUnmapped 1).2 := by
  refine ⟨h.tmp.alloc, (p.pmmAllocUnmapped_keeps 1 h.tmp.valid.lastIdxBit).bitmap.trans h.bitmap, fun a ha => ?_⟩
  rw [← h.bytes a ha]
  simp only [frameSize] at ha
  rcases p.pmmAllocUnmapped_spec Nat.one_pos h.tmp.valid.lastIdxBit h.tmp.valid.zero with ⟨s, -, hs, hr⟩ | ⟨-, -, hr⟩
  · have hle := hs.le_bitmap
    have hsize : tmpBitmapSize = 125 := by decide
    have hcount : Pmm.pageCount (1 * 4096) / 8 = 0 := by decide
    rw [h.tmp.bitmapSize, hsize] at hle
    rw [hr]
    have hend : s * 4096 / 4096 / 8 + Pmm.pageCount (1 * 4096) / 8 + 1 ≤ 4095 := by
      rw [Nat.mul_div_cancel _ (by decide), hcount]
      omega
    refine Pmm.bytes_reserveFrames hend (by decide) ?_
    change a < p.bitmap ∨ p.bitmap + 4095 < a
    rw [h.bitmap]
    omega
  · rw [hr]
    rfl

namespace Machine

variable {m m1 : Machine} {info : MemoryInfo}

/-- `map_bitmap` leaves memory as it was, but for the page of the temporary bitmap. -/
lemma mappedBitmap_bytes (h : m.mappedBitmap info = some m1) (hbit : m.pmm.lastIdxBit ≤ 7) {a : Nat}
    (ha : ¬ (tmpBitmapBase ≤ a ∧ a < tmpBitmapBase + frameSize)) : m1.pmm.bytes a = m.pmm.bytes a := by
  unfold mappedBitmap mapBitmap at h
  simp only at h
  split_ifs at h
  · simp at h
  · obtain ⟨m2, hloop, h⟩ := Option.bind_eq_some_iff.mp h
    cases h
    have hend := Loop.upTo_invariant (fun _ t => TmpBytes m.pmm.bytes t.pmm) (.create hbit)
      (fun i _ t t' ht hs => map_pmm (Q := TmpBytes m.pmm.bytes) (fun p hp => hp.alloc) hs ht) hloop
    exact hend.bytes a ha

lemma used_mappedBitmap (h : m.mappedBitmap info = some m1) (hbit : m.pmm.lastIdxBit ≤ 7) (f : Nat) :
    m1.pmm.used f = m.markBefore m1 info f := by
  unfold markBefore
  split_ifs with hin
  · rfl
  · have hbyte : m1.pmm.get (f / 8) = m.pmm.bytes (bitmapAddr info + f / 8) := by
      rw [Pmm.get, (mappedBitmap_pmm h).1]
      exact mappedBitmap_bytes h hbit hin
    rw [Pmm.used, PackedBits.member, hbyte]
    rfl

/-- `init_pmm` is `map_bitmap`, the fill and the calls. -/
theorem initPmm_eq_calls (m : Machine) (info : MemoryInfo) : m.initPmm info = (m.mappedBitmap info).map fun m1 =>
    { m1 with pmm := info.calls.foldl Pmm.call (m1.pmm.fill 0xff#8 0 (getBitmapSize info)) } := by
  have hmap : { m with pmm := { m.pmm with bitmapSize := getBitmapSize info, bitmap := bitmapAddr info } }.mapBitmap =
      m.mappedBitmap info := rfl
  unfold initPmm initBitmap
  simp only [hmap, Option.bind_eq_bind]
  cases h : m.mappedBitmap info with
  | none => rfl
  | some m1 =>
    obtain ⟨hb, hs⟩ := mappedBitmap_pmm h
    have hc := Pmm.sameCursor_fill m1.pmm 0xff#8 0 m1.pmm.bitmapSize
    have hcalls := initFrames_eq_calls _ info (hc.bitmap.trans hb) (hc.bitmapSize.trans hs)
    rw [hs] at hcalls
    simp only [Option.bind_some, Option.map_some, pure, hs, hcalls]

/-- All other bytes are as before `init_pmm`. -/
theorem initPmm_bytes {m' : Machine} (h : m.initPmm info = some m') (hbit : m.pmm.lastIdxBit ≤ 7) {a : Nat}
    (ha : ¬ info.Stores a) : m'.pmm.bytes a = m.pmm.bytes a := by
  simp only [MemoryInfo.Stores, not_or] at ha
  obtain ⟨htmp, hbitmap, hcalls⟩ := ha
  rw [initPmm_eq_calls] at h
  obtain ⟨m1, hm1, rfl⟩ := Option.map_eq_some_iff.mp h
  have hb := (mappedBitmap_pmm hm1).1
  have hfilled := (Pmm.sameCursor_fill m1.pmm 0xff#8 0 (getBitmapSize info)).bitmap.trans hb
  have hfill : (m1.pmm.fill 0xff#8 0 (getBitmapSize info)).bytes a = m1.pmm.bytes a := by
    refine Pmm.bytes_fill fun i hi => ?_
    have hlt := List.mem_range'_1.mp hi
    omega
  have hfold : (info.calls.foldl Pmm.call (m1.pmm.fill 0xff#8 0 (getBitmapSize info))).bytes a =
      (m1.pmm.fill 0xff#8 0 (getBitmapSize info)).bytes a := by
    refine Pmm.bytes_calls fun c hc s hs heq => hcalls ⟨c, hc, s, hs, ?_⟩
    rw [← heq, hfilled]
  exact hfold.trans (hfill.trans (mappedBitmap_bytes hm1 hbit htmp))

/-- After `init_pmm` no frame from `2 ^ 35` on is free. -/
theorem initPmm_highReserved {m' : Machine} (h : m.initPmm info = some m') (hbit : m.pmm.lastIdxBit ≤ 7) :
    m'.pmm.HighReserved := by
  have hkept (cs : List FrameCall) (p : Pmm) {f : Nat} (hf : 2 ^ 35 ≤ f) : (cs.foldl Pmm.call p).used f = p.used f := by
    induction cs generalizing p with
    | nil => rfl
    | cons c cs ih =>
      rw [List.foldl_cons, ih, Pmm.used_call, if_neg fun hc => ?_]
      exact absurd ((c.covered_masks f).mp hc).lt (Nat.not_lt.mpr hf)
  intro f hge hlt
  have hsize := (initPmm_initial h hbit).bitmapSize
  rw [initPmm_eq_calls] at h
  obtain ⟨m1, -, rfl⟩ := Option.map_eq_some_iff.mp h
  have hall : ∀ i < 8, (0xff#8).getLsbD i = true := by decide
  rw [hsize] at hlt
  change (info.calls.foldl Pmm.call _).used f = true
  rw [hkept _ _ hge, Pmm.used_fill hall, if_pos (by omega)]

lemma changes_fill_lt {put : Byte → Byte → Byte} {m : Nat → Byte} {l : List Nat} {i : Nat}
    (h : Changes put m (l.map fun i => (i, 0xff#8)) i) : i ∈ l := by
  induction l generalizing m with
  | nil => exact h.elim
  | cons j l ih =>
    rcases h with ⟨rfl, -⟩ | h
    · exact List.mem_cons_self
    · exact List.mem_cons_of_mem j (ih h)

/-- `init_pmm` changes no byte outside the bitmap, exactly if no usable entry and no reserved range goes past the last
frame of the bitmap, but for frames whose marks memory has there already. -/
theorem stores_within_iff (hbit : m.pmm.lastIdxBit ≤ 7) (info : MemoryInfo) :
    m.StoresWithin info ↔ ∀ m1, m.mappedBitmap info = some m1 → info.FitsBitmap (m.markBefore m1 info) := by
  refine forall_congr' fun m1 => forall_congr' fun hm1 => ?_
  have hfill (f : Nat) (hf : 8 * getBitmapSize info ≤ f) :
      (m1.pmm.fill 0xff#8 0 (getBitmapSize info)).used f = m.markBefore m1 info f := by
    have hall : ∀ i < 8, (0xff#8).getLsbD i = true := by decide
    rw [Pmm.used_fill hall, if_neg (by omega), used_mappedBitmap hm1 hbit]
  simp only [or_imp, forall_and, Pmm.callsChange_lt_iff]
  have hin (i : Nat) (hi : Changes (fun _ b => b) m1.pmm.get (fillStores info) i) : i < getBitmapSize info :=
    List.mem_range.mp (changes_fill_lt hi)
  constructor
  · rintro ⟨-, h⟩
    constructor
    · intro e he hu f hr
      refine or_iff_not_imp_left.mpr fun hf => ?_
      rw [← hfill f (Nat.not_lt.mp hf)]
      refine h f (Nat.not_lt.mp hf) ⟨false, e.range⟩ (List.mem_append_left _ (List.mem_map_of_mem ?_))
        ((FrameCall.covered_masks _ f).mpr hr)
      exact List.mem_filter.mpr ⟨he, hu⟩
    · intro r hr f hreach
      refine or_iff_not_imp_left.mpr fun hf => ?_
      rw [← hfill f (Nat.not_lt.mp hf)]
      exact h f (Nat.not_lt.mp hf) ⟨true, r⟩ (List.mem_append_right _ (List.mem_map_of_mem (List.mem_reverse.mpr hr)))
        ((FrameCall.covered_masks _ f).mpr hreach)
  · intro h
    refine ⟨hin, fun f hf c hc hcov => ?_⟩
    rw [hfill f hf]
    have hreach := (c.covered_masks f).mp hcov
    rcases List.mem_append.mp hc with hc | hc
    · obtain ⟨e, he, rfl⟩ := List.mem_map.mp hc
      obtain ⟨he, hu⟩ := List.mem_filter.mp he
      exact (h.freed e he hu f hreach).resolve_left (Nat.not_lt.mpr hf)
    · obtain ⟨r, hr, rfl⟩ := List.mem_map.mp hc
      exact (h.reserved r (List.mem_reverse.mp hr) f hreach).resolve_left (Nat.not_lt.mpr hf)

/-- 16 MiB of memory and a kernel of one page. -/
theorem stores_within_bootInfo : bootMachine.StoresWithin bootInfo := by
  refine (stores_within_iff (by decide) bootInfo).mpr fun m1 _ => ?_
  exact MemoryInfo.fitsBitmap_of_ends bootInfo_usableFits (by decide) (by decide) (by decide)

/-- A framebuffer above the end of memory, as video cards have it. -/
def framebufferInfo : MemoryInfo := { bootInfo with vbeFramebuffer := 0xe0000000#32, vbeFramebufferSize := 0x1000#32 }

/-- The framebuffer's pass stores far behind the 512 bytes of the bitmap. -/
theorem framebuffer_stores_outside : getBitmapSize framebufferInfo = 512 ∧
    ¬ bootMachine.StoresWithin framebufferInfo := by
  have hsize : getBitmapSize framebufferInfo = 512 := by decide
  refine ⟨hsize, fun hwithin => ?_⟩
  have hrun : (bootMachine.mappedBitmap framebufferInfo).map (fun m => m.pmm.used 0xe0000) = some false := by
    decide +kernel
  obtain ⟨m1, hm1, hused⟩ := Option.map_eq_some_iff.mp hrun
  have hcalls := (Pmm.callsChange_lt_iff _ _ _).mp fun i hi => hwithin m1 hm1 i (Or.inr hi)
  have hcovered : Covered (frameMasks 0xe0000000 0x1000) 0xe0000 := by decide
  have hcall : (⟨true, ⟨0xe0000000, 0x1000⟩⟩ : FrameCall) ∈ framebufferInfo.calls := by
    simp [MemoryInfo.calls, MemoryInfo.reserved, framebufferInfo]
  have hmark := hcalls 0xe0000 (by rw [hsize]; decide) _ hcall hcovered
  have hall : ∀ i < 8, (0xff#8).getLsbD i = true := by decide
  rw [Pmm.used_fill hall, if_neg (by rw [hsize]; decide), hused] at hmark
  cases hmark

end Machine

end HaiirOS
