import HaiirOS.Proofs.InitPmm

/-!
# Where the bitmap lies

`init_bitmap` puts the bitmap behind the kernel and maps it with tables from a second allocator
over the frames from 2 MiB on. That allocator hands out frames below its own bitmap only, so the
two stay apart if the bitmap does not reach into this area, and the frames are reserved with the
boot section in the end.
-/

namespace HaiirOS

open AddressWord

/-- No byte lies in both ranges. -/
def MemRange.Apart (r r' : MemRange) : Prop :=
  ∀ a, r.start ≤ a → a < r.start + r.size → ¬ (r'.start ≤ a ∧ a < r'.start + r'.size)

namespace MemoryInfo

/-- The bitmap. -/
def bitmapRange (info : MemoryInfo) : MemRange := ⟨bitmapAddr info, getBitmapSize info⟩

/-- The kernel lies outside of the window page, the temporary bitmap and all between them. -/
def Placed (info : MemoryInfo) : Prop :=
  info.kernelAddr.toNat % frameSize = 0 ∧
    (info.kernelAddr.toNat + info.kernelSize.toNat ≤ tmpAddr.toNat ∨ tmpBitmapBase + frameSize ≤ info.kernelAddr.toNat)

end MemoryInfo

/-- Something that the log has got since `log`. -/
def Since (log log' : List Event) (e : Event) : Prop := ∃ l, log' = l ++ log ∧ e ∈ l

/-! ### The temporary allocator -/

/-- The allocator over the temporary bitmap. -/
structure TmpPmm (p : Pmm) : Prop where
  valid : p.Valid
  bitmapSize : p.bitmapSize = tmpBitmapSize
  low : ∀ f, f < tmpBitmapFirstFrame / frameSize → p.used f = true

/-- An allocation that failed, or got a page of the temporary frames. -/
def TmpAddr (a : Nat) : Prop := a = 0 ∨ a % frameSize = 0 ∧ tmpBitmapFirstFrame ≤ a ∧ a + frameSize ≤ tmpBitmapBase

namespace TmpPmm

variable {p : Pmm}

lemma alloc (h : TmpPmm p) : TmpPmm (p.pmmAllocUnmapped 1).2 :=
  ⟨h.valid.alloc 1, (p.pmmAllocUnmapped_keeps 1 h.valid.lastIdxBit).bitmapSize.trans h.bitmapSize,
    fun f hf => h.valid.used_mono 1 (h.low f hf)⟩

lemma tmpAddr_alloc (h : TmpPmm p) : TmpAddr (p.pmmAllocUnmapped 1).1 := by
  rcases p.pmmAllocUnmapped_spec Nat.one_pos h.valid.lastIdxBit h.valid.zero with ⟨s, -, hs, hr⟩ | ⟨-, -, hr⟩
  · have hfree := hs.allFree s (Nat.le_refl s) (Nat.lt_succ_self s)
    have hlow : tmpBitmapFirstFrame / frameSize ≤ s := by
      by_contra hlt
      rw [Pmm.free, h.low s (by omega)] at hfree
      cases hfree
    have hle := hs.le_bitmap
    rw [h.bitmapSize] at hle
    rw [hr]
    simp only [tmpBitmapFirstFrame, tmpBitmapSize, tmpBitmapBase, frameSize, bitmapBlockSize] at hlow hle
    simp only [TmpAddr, tmpBitmapFirstFrame, tmpBitmapBase, frameSize]
    omega
  · rw [hr]
    exact Or.inl rfl

lemma create (p : Pmm) (hbit : p.lastIdxBit ≤ 7) : TmpPmm p.createTmpBitmap := by
  let p0 : Pmm := { p with bitmap := tmpBitmapBase, bitmapSize := tmpBitmapSize }
  have hcursor : Pmm.SameCursor p0 p.createTmpBitmap := (Pmm.sameCursor_reserveFrames p0 0 tmpBitmapFirstFrame).trans
    (Pmm.sameCursor_freeFrames _ tmpBitmapFirstFrame (tmpBitmapBase - 1))
  have hlow (f : Nat) (hf : f < tmpBitmapFirstFrame / frameSize) : p.createTmpBitmap.used f = true := by
    have hreserve := p0.used_reserve_range (r := ⟨0, tmpBitmapFirstFrame⟩) ⟨by decide, by decide⟩ f
    have hfree := (p0.reserveFrames 0 tmpBitmapFirstFrame).used_free_range
      (r := ⟨tmpBitmapFirstFrame, tmpBitmapBase - 1⟩) ⟨by decide, by decide⟩ f
    simp only [tmpBitmapFirstFrame, frameSize] at hf
    change (p0.reserveFrames 0 tmpBitmapFirstFrame |>.freeFrames tmpBitmapFirstFrame (tmpBitmapBase - 1)).used f = true
    rw [hfree, if_neg, hreserve, if_pos]
    · simp only [MemRange.Touches, Pmm.touched, Pmm.hole, Pmm.pageCount, tmpBitmapFirstFrame]
      omega
    · simp only [MemRange.Touches, Pmm.touched, tmpBitmapFirstFrame]
      omega
  have hsize : tmpBitmapSize < 2 ^ 32 := by decide
  have hvalid : p.createTmpBitmap.Valid :=
    ⟨Nat.le_trans (Nat.le_of_eq hcursor.lastIdxBit) hbit, hlow 0 (by decide),
      Nat.lt_of_le_of_lt (Nat.le_of_eq hcursor.bitmapSize) hsize⟩
  exact ⟨hvalid, hcursor.bitmapSize, hlow⟩

end TmpPmm

/-! ### What `map_bitmap` takes from it -/

/-- What the log gets while the temporary allocator is in place. -/
def TmpEvent : Event → Prop
  | .alloc _ a => TmpAddr a
  | .table f => TmpAddr (f * frameSize)
  | _ => True

/-- All that the log has got since `log` satisfies `P`. -/
def AllSince (P : Event → Prop) (log log' : List Event) : Prop := ∃ l, log' = l ++ log ∧ ∀ e ∈ l, P e

namespace AllSince

variable {P : Event → Prop} {log log' : List Event}

lemma refl (P : Event → Prop) (log : List Event) : AllSince P log log := ⟨[], rfl, fun _ he => by cases he⟩

lemma cons (h : AllSince P log log') {e : Event} (he : P e) : AllSince P log (e :: log') := by
  obtain ⟨l, rfl, hl⟩ := h
  refine ⟨e :: l, rfl, ?_⟩
  rintro e' (_ | ⟨_, he'⟩)
  · exact he
  · exact hl e' he'

lemma of_since (h : AllSince P log log') {e : Event} (he : Since log log' e) : P e := by
  obtain ⟨l, rfl, hl⟩ := h
  obtain ⟨l', heq, he⟩ := he
  obtain rfl := List.append_cancel_right heq
  exact hl e he

end AllSince

namespace Machine

variable {m m' : Machine} {info : MemoryInfo}

/-- The temporary allocator is in place, and so it has been since `log`. -/
structure TmpPhase (log : List Event) (m : Machine) : Prop where
  pmm : TmpPmm m.pmm
  log : AllSince TmpEvent log m.log

lemma stable_tmpPhase (flags : PageFlags) (log : List Event) : Stable flags (TmpPhase log) where
  write h hm := ⟨by rw [write_pmm h]; exact hm.pmm, by rw [write_log h]; exact hm.log⟩
  load h hm := by
    obtain ⟨a, -, h⟩ := Option.map_eq_some_iff.mp h
    cases h
    exact ⟨hm.pmm, hm.log.cons trivial⟩
  store h hm := by
    obtain ⟨a, -, rfl⟩ := Option.map_eq_some_iff.mp h
    exact ⟨hm.pmm, hm.log.cons trivial⟩
  create _ m hm := by
    have haddr := hm.pmm.tmpAddr_alloc
    have halloc : AllSince TmpEvent log (m.pmmAllocUnmapped 1).2.log := hm.log.cons (e := .alloc 1 _) haddr
    refine ⟨hm.pmm.alloc, halloc.cons ?_⟩
    have hframe : frame (m.pmmAllocUnmapped 1).1 * frameSize = (m.pmm.pmmAllocUnmapped 1).1 := by
      have hlt : (m.pmm.pmmAllocUnmapped 1).1 < 2 ^ 52 ∧ (m.pmm.pmmAllocUnmapped 1).1 % 4096 = 0 := by
        simp only [TmpAddr, tmpBitmapFirstFrame, tmpBitmapBase, frameSize] at haddr
        omega
      rw [frame, pmmAllocUnmapped, BitVec.toNat_ofNat]
      simp only [frameSize]
      omega
    change TmpAddr (frame (m.pmmAllocUnmapped 1).1 * frameSize)
    rw [hframe]
    exact haddr

/-- While `map_bitmap` runs, all allocations are of temporary frames. -/
lemma mapBitmap_allSince (h : m.mapBitmap = some m') (hbit : m.pmm.lastIdxBit ≤ 7) :
    AllSince TmpEvent m.log m'.log := by
  unfold mapBitmap at h
  simp only at h
  split_ifs at h
  · simp at h
  · obtain ⟨m1, h1, h⟩ := Option.bind_eq_some_iff.mp h
    cases h
    have hstart : TmpPhase m.log { m with pmm := m.pmm.createTmpBitmap } := ⟨.create m.pmm hbit, .refl _ _⟩
    have hend := Loop.upTo_invariant (fun _ t => TmpPhase m.log t) hstart
      (fun i _ t t' ht hs => (stable_tmpPhase _ m.log).map hs ht) h1
    exact hend.log

lemma initPmm_allSince (h : m.initPmm info = some m') (hbit : m.pmm.lastIdxBit ≤ 7) :
    AllSince TmpEvent m.log m'.log := by
  obtain ⟨m1, h1, h⟩ := Option.bind_eq_some_iff.mp h
  obtain ⟨m2, h2, h1⟩ := Option.bind_eq_some_iff.mp h1
  have hsince := mapBitmap_allSince h2 hbit
  cases h1
  cases h
  exact hsince

end Machine

/-- What the bitmap must stay away from while it is mapped. -/
structure BitmapApart (info : MemoryInfo) (m m' : Machine) : Prop where
  window : info.bitmapRange.Apart ⟨tmpAddr.toNat, frameSize⟩
  tmpBitmap : info.bitmapRange.Apart ⟨tmpBitmapBase, frameSize⟩
  handedOut : ∀ n a, a ≠ 0 → Since m.log m'.log (.alloc n a) → info.bitmapRange.Apart ⟨a, frameSize⟩
  tables : ∀ f, f ≠ 0 → Since m.log m'.log (.table f) → info.bitmapRange.Apart ⟨f * frameSize, frameSize⟩

namespace MemoryInfo

/-- The bitmap is empty or does not reach into the temporary area. -/
def Roomy (info : MemoryInfo) : Prop :=
  getBitmapSize info = 0 ∨ tmpBitmapBase + frameSize ≤ info.kernelAddr.toNat ∨
    bitmapAddr info + getBitmapSize info ≤ tmpAddr.toNat

variable {info : MemoryInfo}

lemma Roomy.apart (h : info.Roomy) {a : Nat} (hlow : tmpAddr.toNat ≤ a) (hhigh : a ≤ tmpBitmapBase) :
    info.bitmapRange.Apart ⟨a, frameSize⟩ := by
  have hbehind : info.kernelAddr.toNat ≤ bitmapAddr info := Nat.le_add_right _ _
  have htmp : tmpAddr.toNat = 0x200000 := rfl
  intro b h1 h2 h3
  simp only [bitmapRange] at h1 h2
  simp only [frameSize] at h3
  simp only [Roomy, tmpBitmapBase, frameSize] at h hhigh
  omega

/-- Behind a kernel below the temporary area a bitmap that reaches into it covers the window page. -/
lemma Placed.roomy_of_apart (h : info.Placed) (hapart : info.bitmapRange.Apart ⟨tmpAddr.toNat, frameSize⟩) :
    info.Roomy := by
  have htmp : tmpAddr.toNat = 0x200000 := rfl
  obtain ⟨haligned, hplace⟩ := h
  by_contra hfull
  have hwindow := hapart tmpAddr.toNat
  simp only [bitmapRange, bitmapAddr, frameSize] at hwindow
  simp only [Roomy, tmpBitmapBase, bitmapAddr, frameSize] at hfull
  simp only [tmpBitmapBase, frameSize] at haligned hplace
  omega

end MemoryInfo

/-- `init_bitmap` puts the bitmap behind the kernel whatever is there. It stays apart from the window page,
the temporary bitmap and the tables made to map it just if it does not reach into the temporary area. The
tables are reserved in any case. -/
theorem bitmap_apart_iff {m m' : Machine} {info : MemoryInfo} (h : m.initPmm info = some m')
    (hbit : m.pmm.lastIdxBit ≤ 7) (hplaced : info.Placed) :
    (m'.pmm.bitmap = info.bitmapRange.start ∧ m'.pmm.bitmapSize = info.bitmapRange.size) ∧
      info.bitmapRange.start = info.kernelAddr.toNat +
        (info.kernelSize.toNat + (frameSize - 1)) % 2 ^ 32 / frameSize * frameSize ∧
      (BitmapApart info m m' ↔ info.Roomy) ∧
      ∀ f, Since m.log m'.log (.table f) → m'.pmm.pmmIsFree (f * frameSize) = false := by
  have hinit := initPmm_initial h hbit
  have hsince := Machine.initPmm_allSince h hbit
  have hboot := hinit.bootSection
  refine ⟨⟨hinit.bitmap, hinit.bitmapSize⟩, rfl, ⟨fun hapart => hplaced.roomy_of_apart hapart.window, fun hroom => ?_⟩, fun f hf => ?_⟩
  · have hapart {a : Nat} (ha : TmpAddr a) (h0 : a ≠ 0) : info.bitmapRange.Apart ⟨a, frameSize⟩ := by
      obtain ⟨-, hlow, hhigh⟩ := ha.resolve_left h0
      exact hroom.apart (Nat.le_trans (by decide) hlow) (Nat.le_trans (Nat.le_add_right _ _) hhigh)
    refine ⟨hroom.apart (Nat.le_refl _) (by decide), hroom.apart (by decide) (Nat.le_refl _), ?_, ?_⟩
    · intro n a h0 ha
      exact hapart (hsince.of_since ha) h0
    · intro f h0 hf
      exact hapart (hsince.of_since hf) (Nat.mul_ne_zero h0 (by decide))
  · have haddr : TmpAddr (f * frameSize) := hsince.of_since hf
    simp only [TmpAddr, tmpBitmapFirstFrame, tmpBitmapBase, frameSize] at haddr
    rw [Pmm.pmmIsFree_eq _ (by simp only [frameSize]; omega), frameSize, Nat.mul_div_cancel _ (by decide), Pmm.free,
      hboot f (by omega)]
    rfl

/-- A kernel that ends with the memory that the boot loader has mapped. -/
def upperInfo : MemoryInfo := { bootInfo with kernelAddr := 0x400000#32, kernelSize := 0x400000#32 }

theorem bitmap_apart_iff_upper : ∃ m', bootMachine.initPmm upperInfo = some m' ∧ m'.pmm.bitmap = 0x800000 ∧
    BitmapApart upperInfo bootMachine m' ∧
      ∀ f, Since bootMachine.log m'.log (.table f) → m'.pmm.pmmIsFree (f * frameSize) = false := by
  have hsome : (bootMachine.initPmm upperInfo).isSome = true := by decide +kernel
  obtain ⟨m', h⟩ := Option.isSome_iff_exists.mp hsome
  have hroomy : upperInfo.Roomy := Or.inr (Or.inl (by decide))
  obtain ⟨⟨hbitmap, -⟩, -, hiff, htables⟩ := bitmap_apart_iff h (by decide) ⟨by decide, by decide⟩
  exact ⟨m', h, hbitmap.trans (by decide), hiff.mpr hroomy, htables⟩

/-- A memory hole of 1 MiB below 16 MiB, and a kernel that ends at it. -/
def holeInfo : MemoryInfo :=
  ⟨[⟨0x100000#64, 0xe00000#64, 1#32⟩, ⟨0xf00000#64, 0x100000#64, 2#32⟩, ⟨0x1000000#64, 0x1000000#64, 1#32⟩],
    0x800000#32, 0x700000#32, 0#32, 0#32⟩

/-- 1 GiB of memory and a kernel of 1008 KiB at 1 MiB. -/
def largeInfo : MemoryInfo := ⟨[⟨0#64, 0x40000000#64, 1#32⟩], 0x100000#32, 0xfc000#32, 0#32, 0#32⟩

/-- The bitmap behind the one kernel lies in no usable entry, the one behind the other covers the window page. -/
theorem bitmap_misplaced :
    ((bootMachine.initPmm holeInfo).isSome ∧ holeInfo.Placed ∧ ¬ ∀ a, holeInfo.bitmapRange.start ≤ a →
      a < holeInfo.bitmapRange.start + holeInfo.bitmapRange.size →
        ∃ e ∈ holeInfo.map, e.usable = true ∧ e.base.toNat ≤ a ∧ a < e.base.toNat + e.len.toNat) ∧
    (bootMachine.initPmm largeInfo).isSome ∧ largeInfo.Placed ∧
      ¬ largeInfo.bitmapRange.Apart ⟨tmpAddr.toNat, frameSize⟩ := by
  refine ⟨⟨by decide +kernel, ⟨by decide, by decide⟩, fun hall => ?_⟩, by decide +kernel, ⟨by decide, by decide⟩,
    fun hapart => hapart 0x200000 (by decide) (by decide) (by decide)⟩
  have hhole : ¬ ∃ e ∈ holeInfo.map,
      e.usable = true ∧ e.base.toNat ≤ 0xf00000 ∧ 0xf00000 < e.base.toNat + e.len.toNat := by decide
  exact hhole (hall 0xf00000 (by decide) (by decide))

end HaiirOS
