import HaiirOS.Memory.Boot
import HaiirOS.Memory.PagingFrame
import Mathlib.Tactic.Set
import Mathlib.Tactic.Tauto
import Mathlib.Tactic.Push

/-!
# The bitmap after `init_pmm`

The free and reserve passes over the filled bitmap compose to a closed form. From it follows
for which memory maps the free frames are those that are wholly usable and outside every
reserved range: the passes leave out single frames of unaligned or one-block ranges, and
they free frames that usable memory covers only partly.
-/

namespace HaiirOS

open Pmm (hole touched pageCount)

/-- A range of physical memory. -/
structure MemRange where
  start : Nat
  size : Nat

namespace MemRange

/-- Frame `f` has a byte in the range. -/
def Meets (r : MemRange) (f : Nat) : Prop :=
  ∃ a, f * 4096 ≤ a ∧ a < f * 4096 + 4096 ∧ r.start ≤ a ∧ a < r.start + r.size

/-- The frames that a reserve or free of the range leaves out: the hole of a one-block range,
and the last frame where an unaligned start pushes it past the page count. -/
def Missed (r : MemRange) (f : Nat) : Prop :=
  hole (r.start / 4096) (pageCount r.size) f ∨ r.start / 4096 + pageCount r.size ≤ f

/-- The range fits the 32-bit page counts and block numbers of the source. -/
structure Fits (r : MemRange) : Prop where
  pages : pageCount r.size < 2 ^ 32
  blocks : r.start / 4096 + pageCount r.size < 2 ^ 35

/-- A reserve or free of the range touches frame `f`. -/
def Touches (r : MemRange) (f : Nat) : Prop := touched (r.start / 4096) (pageCount r.size) f

instance (r : MemRange) (f : Nat) : Decidable (r.Touches f) := inferInstanceAs (Decidable (touched ..))

lemma touches_iff (r : MemRange) (f : Nat) : r.Touches f ↔ r.Meets f ∧ ¬ r.Missed f := by
  unfold Touches Missed touched Meets
  constructor
  · rintro ⟨h1, h2, h3⟩
    refine ⟨⟨max r.start (f * 4096), by omega, by omega, by omega, ?_⟩, fun h => h.elim h3 (by omega)⟩
    unfold pageCount at h2
    omega
  · rintro ⟨⟨a, h1, h2, h3, h4⟩, h5⟩
    exact ⟨by omega, by omega, fun h => h5 (Or.inl h)⟩

lemma Fits.count_mod {r : MemRange} (h : r.Fits) : pageCount r.size % 2 ^ 32 = pageCount r.size :=
  Nat.mod_eq_of_lt h.pages

end MemRange

namespace Pmm

lemma used_free_range (p : Pmm) {r : MemRange} (h : r.Fits) (f : Nat) :
    (p.freeFrames r.start r.size).used f = if r.Touches f then false else p.used f := by
  have hu := used_updateFrames paintsFrames_free p r.start r.size
    (by rw [h.count_mod]; exact h.blocks) f
  rw [h.count_mod] at hu
  exact hu

lemma used_reserve_range (p : Pmm) {r : MemRange} (h : r.Fits) (f : Nat) :
    (p.reserveFrames r.start r.size).used f = if r.Touches f then true else p.used f := by
  have hu := used_updateFrames paintsFrames_reserve p r.start r.size
    (by rw [h.count_mod]; exact h.blocks) f
  rw [h.count_mod] at hu
  exact hu

end Pmm

/-- The memory of an entry. -/
def MemoryMapEntry.range (e : MemoryMapEntry) : MemRange := ⟨e.base.toNat, e.len.toNat⟩

namespace MemoryInfo

/-- The ranges that `init_pmm` reserves, the last one first. -/
def reserved (info : MemoryInfo) : List MemRange :=
  [⟨info.vbeFramebuffer.toNat, info.vbeFramebufferSize.toNat⟩, ⟨bitmapAddr info, getBitmapSize info⟩,
    ⟨info.kernelAddr.toNat, info.kernelSize.toNat⟩, ⟨0, bootSectionSize⟩]

/-- Every byte of frame `f` is in a usable entry. -/
def WhollyUsable (info : MemoryInfo) (f : Nat) : Prop :=
  ∀ a, f * 4096 ≤ a → a < f * 4096 + 4096 →
    ∃ e ∈ info.map, e.usable = true ∧ e.base.toNat ≤ a ∧ a < e.base.toNat + e.len.toNat

/-- The frames that should be free: wholly usable and outside every reserved range. -/
def ShouldBeFree (info : MemoryInfo) (f : Nat) : Prop :=
  info.WhollyUsable f ∧ ∀ r ∈ info.reserved, ¬ r.Meets f

/-- Some usable entry has frame `f` and does not leave it out. -/
def Freed (info : MemoryInfo) (f : Nat) : Prop :=
  ∃ e ∈ info.map, e.usable = true ∧ e.range.Meets f ∧ ¬ e.range.Missed f

/-- Some reserved range has frame `f` and does not leave it out. -/
def Reserved (info : MemoryInfo) (f : Nat) : Prop := ∃ r ∈ info.reserved, r.Meets f ∧ ¬ r.Missed f

/-- The passes of `init_pmm` make no lasting mistake below the end of the bitmap. -/
structure SlipFree (info : MemoryInfo) : Prop where
  /-- A freed frame that is usable only in part is reserved again. -/
  edges : ∀ f < 8 * getBitmapSize info, info.Freed f → ¬ info.WhollyUsable f → info.Reserved f
  /-- A usable frame that every usable entry leaves out lies in a reserved range. -/
  holes : ∀ f < 8 * getBitmapSize info, info.WhollyUsable f → ¬ info.Freed f →
    ∃ r ∈ info.reserved, r.Meets f
  /-- A frame of a reserved range that every reserved range leaves out is not freed. -/
  missed : ∀ f < 8 * getBitmapSize info, (∃ r ∈ info.reserved, r.Meets f) → ¬ info.Reserved f →
    ¬ info.Freed f

/-- The usable entries fit the 32-bit arithmetic of the bitmap routines. -/
def UsableFits (info : MemoryInfo) : Prop := ∀ e ∈ info.map, e.usable = true → e.range.Fits

lemma UsableFits.bitmapSize_lt {info : MemoryInfo} (h : info.UsableFits) : getBitmapSize info < 2 ^ 32 := by
  have hfold : ∀ (es : List MemoryMapEntry) (last : BitVec 64),
      (∀ e ∈ es, e.usable = true → e.range.Fits) → last.toNat < 2 ^ 47 →
      (es.foldl (fun last e => if e.usable then e.base + e.len else last) last).toNat < 2 ^ 47 := by
    intro es
    induction es with
    | nil => exact fun last _ hl => hl
    | cons e es ih =>
      intro last he hl
      refine ih _ (fun e' h' => he e' (List.mem_cons_of_mem e h')) ?_
      simp only
      by_cases hu : e.usable = true
      · have hb := (he e List.mem_cons_self hu).blocks
        simp only [MemoryMapEntry.range, pageCount] at hb
        rw [if_pos hu, BitVec.toNat_add]
        omega
      · rwa [if_neg hu]
  have hb := hfold info.map 0#64 h (by decide)
  simp only [getBitmapSize, frameSize, bitmapBlockSize]
  omega

lemma reserved_fits {info : MemoryInfo} (h : getBitmapSize info < 2 ^ 32) : ∀ r ∈ info.reserved, r.Fits := by
  have hk := info.kernelAddr.isLt
  have hks := info.kernelSize.isLt
  have hv := info.vbeFramebuffer.isLt
  have hvs := info.vbeFramebufferSize.isLt
  simp only [reserved, List.mem_cons, List.not_mem_nil, or_false]
  rintro r (rfl | rfl | rfl | rfl) <;>
    constructor <;> simp only [pageCount, bitmapAddr, bootSectionSize, frameSize] <;> omega

end MemoryInfo

open MemoryInfo

lemma used_foldl_free (es : List MemoryMapEntry) (p : Pmm)
    (h : ∀ e ∈ es, e.usable = true → e.range.Fits) (f : Nat) :
    (es.foldl (fun p e => if e.usable then p.freeFrames e.base.toNat e.len.toNat else p) p).used f = true ↔
      p.used f = true ∧ ∀ e ∈ es, e.usable = true → ¬ e.range.Touches f := by
  induction es generalizing p with
  | nil => simp
  | cons e es ih =>
    rw [List.foldl_cons, ih _ (fun e' h' => h e' (List.mem_cons_of_mem e h'))]
    simp only [List.forall_mem_cons]
    by_cases hu : e.usable = true
    · have hfree := p.used_free_range (h e List.mem_cons_self hu) f
      simp only [MemoryMapEntry.range] at hfree
      rw [if_pos hu, hfree]
      by_cases ht : e.range.Touches f
      · simp only [MemoryMapEntry.range] at ht
        simp [ht, MemoryMapEntry.range, hu]
      · simp only [MemoryMapEntry.range] at ht
        simp [ht, MemoryMapEntry.range]
    · simp [hu]

lemma sameCursor_foldl_free (es : List MemoryMapEntry) (p : Pmm) : Pmm.SameCursor p
    (es.foldl (fun p e => if e.usable then p.freeFrames e.base.toNat e.len.toNat else p) p) := by
  induction es generalizing p with
  | nil => exact .refl p
  | cons e es ih =>
    refine Pmm.SameCursor.trans ?_ (ih _)
    simp only
    split_ifs
    · exact Pmm.sameCursor_updateFrames ..
    · exact .refl p

section

variable {m m' : Machine} {info : MemoryInfo}

/-- The allocator state after the bitmap has been mapped: a new pointer, size and cursor. -/
lemma mapBitmap_pmm (h : m.mapBitmap = some m') (hbit : m.pmm.lastIdxBit ≤ 7) :
    m'.pmm.bitmap = m.pmm.bitmap ∧ m'.pmm.bitmapSize = m.pmm.bitmapSize ∧ m'.pmm.lastIdxBit ≤ 7 := by
  unfold Machine.mapBitmap at h
  simp only at h
  split_ifs at h
  · simp at h
  · obtain ⟨m1, h1, h⟩ := Option.bind_eq_some_iff.mp h
    cases h
    refine ⟨rfl, rfl, ?_⟩
    have htmp : m.pmm.createTmpBitmap.lastIdxBit ≤ 7 := by
      have hc := (Pmm.sameCursor_reserveFrames
        { m.pmm with bitmap := tmpBitmapBase, bitmapSize := tmpBitmapSize } 0 tmpBitmapFirstFrame).trans
        (Pmm.sameCursor_freeFrames _ tmpBitmapFirstFrame (tmpBitmapBase - 1))
      exact Nat.le_trans (Nat.le_of_eq hc.lastIdxBit) hbit
    exact Loop.upTo_invariant (fun _ t => t.pmm.lastIdxBit ≤ 7) htmp
      (fun i _ t t' ht hs => Machine.map_pmm (Q := fun p => p.lastIdxBit ≤ 7)
        (fun p hp => (p.pmmAllocUnmapped_keeps 1 hp).lastIdxBit) hs ht) h1

/-- The allocator state that `init_pmm` leaves, with the bitmap contents as far as the reserve
passes alone decide them and, where the usable entries fit, in full. -/
structure InitialPmm (info : MemoryInfo) (p : Pmm) : Prop where
  bitmap : p.bitmap = bitmapAddr info
  bitmapSize : p.bitmapSize = getBitmapSize info
  lastIdxBit : p.lastIdxBit ≤ 7
  bootSection : ∀ f < 2048, p.used f = true
  used : info.UsableFits → ∀ f < 8 * getBitmapSize info, p.used f = true ↔
    (∃ r ∈ info.reserved, r.Touches f) ∨ ∀ e ∈ info.map, e.usable = true → ¬ e.range.Touches f

/-- A list of ranges reserved one after the other, the last one first. -/
def reserveAll (rs : List MemRange) (p : Pmm) : Pmm := rs.foldr (fun r p => p.reserveFrames r.start r.size) p

lemma sameCursor_reserveAll (rs : List MemRange) (p : Pmm) : Pmm.SameCursor p (reserveAll rs p) := by
  induction rs with
  | nil => exact .refl p
  | cons r rs ih => exact ih.trans (Pmm.sameCursor_updateFrames ..)

lemma used_reserveAll (rs : List MemRange) (p : Pmm) (h : ∀ r ∈ rs, r.Fits) (f : Nat) :
    (reserveAll rs p).used f = true ↔ (∃ r ∈ rs, r.Touches f) ∨ p.used f = true := by
  induction rs with
  | nil => simp [reserveAll]
  | cons r rs ih =>
    have hr := (reserveAll rs p).used_reserve_range (h r List.mem_cons_self) f
    have ih' := ih (fun r' h' => h r' (List.mem_cons_of_mem r h'))
    rw [show reserveAll (r :: rs) p = (reserveAll rs p).reserveFrames r.start r.size from rfl, hr]
    split_ifs with ht
    · simp [ht]
    · simp [ht, ih']

lemma used_reserve_mono {p : Pmm} {start size f : Nat}
    (hfit : start / 4096 + pageCount size % 2 ^ 32 < 2 ^ 35) (h : p.used f = true) :
    (p.reserveFrames start size).used f = true := by
  rw [Pmm.reserveFrames, Pmm.used_updateFrames Pmm.paintsFrames_reserve p _ _ hfit f, h]
  split_ifs <;> rfl

lemma initFrames_eq (p : Pmm) (info : MemoryInfo) (hb : p.bitmap = bitmapAddr info)
    (hs : p.bitmapSize = getBitmapSize info) : p.initFrames info = reserveAll info.reserved
      (info.map.foldl (fun p e => if e.usable then p.freeFrames e.base.toNat e.len.toNat else p) p) := by
  set p1 := info.map.foldl
    (fun p e => if e.usable then p.freeFrames e.base.toNat e.len.toNat else p) p with hp1
  have hc : Pmm.SameCursor p (reserveAll [⟨info.kernelAddr.toNat, info.kernelSize.toNat⟩,
      ⟨0, bootSectionSize⟩] p1) := (sameCursor_foldl_free info.map p).trans (sameCursor_reserveAll _ p1)
  have hb' := hc.bitmap.trans hb
  have hs' := hc.bitmapSize.trans hs
  simp only [reserveAll, List.foldr] at hb' hs'
  simp only [Pmm.initFrames, ← hp1, reserveAll, reserved, List.foldr, hb', hs']

/-- The boot section is reserved whatever the memory map is. -/
lemma used_initFrames_bootSection (p : Pmm) (info : MemoryInfo) (hb : p.bitmap = bitmapAddr info)
    (hs : p.bitmapSize = getBitmapSize info) {f : Nat} (hf : f < 2048) : (p.initFrames info).used f = true := by
  have hk := info.kernelAddr.isLt
  have hks := info.kernelSize.isLt
  have hv := info.vbeFramebuffer.isLt
  have hsize : getBitmapSize info < 2 ^ 49 := by
    have := (info.map.foldl (fun last e => if e.usable then e.base + e.len else last) 0#64).isLt
    simp only [getBitmapSize, frameSize, bitmapBlockSize]
    omega
  rw [initFrames_eq p info hb hs]
  simp only [reserved, reserveAll, List.foldr]
  refine used_reserve_mono (by omega) (used_reserve_mono ?_ (used_reserve_mono (by omega) ?_))
  · simp only [bitmapAddr, frameSize]
    omega
  · have hboot : (⟨0, bootSectionSize⟩ : MemRange).Fits := by
      constructor <;> simp [pageCount, bootSectionSize]
    rw [Pmm.used_reserve_range _ hboot, if_pos]
    simp only [MemRange.Touches, touched, hole, pageCount, bootSectionSize]
    omega

theorem initPmm_initial (h : m.initPmm info = some m') (hbit : m.pmm.lastIdxBit ≤ 7) :
    InitialPmm info m'.pmm := by
  obtain ⟨m1, h1, h⟩ := Option.bind_eq_some_iff.mp h
  obtain ⟨m2, h2, h1⟩ := Option.bind_eq_some_iff.mp h1
  obtain ⟨hb2, hs2, hl2⟩ := mapBitmap_pmm h2 hbit
  cases h1
  cases h
  simp only at hb2 hs2 ⊢
  have hc := Pmm.sameCursor_fill m2.pmm 0xff#8 0 m2.pmm.bitmapSize
  have hb := hc.bitmap.trans hb2
  have hs := hc.bitmapSize.trans hs2
  have hc' := hc.trans ((sameCursor_foldl_free info.map _).trans (sameCursor_reserveAll info.reserved _))
  rw [← initFrames_eq _ info hb hs] at hc'
  refine ⟨hc'.bitmap.trans hb2, hc'.bitmapSize.trans hs2, Nat.le_trans (Nat.le_of_eq hc'.lastIdxBit) hl2,
    fun f hf => used_initFrames_bootSection _ info hb hs hf, fun hfits f hf => ?_⟩
  have hfull : (m2.pmm.fill 0xff#8 0 m2.pmm.bitmapSize).used f = true := by
    rw [Pmm.used_fill (v := true) (by decide), if_pos (by rw [hs2]; omega)]
  rw [initFrames_eq _ info hb hs, used_reserveAll _ _ (reserved_fits hfits.bitmapSize_lt),
    used_foldl_free info.map _ hfits, hfull]
  simp only [true_and]

/-- Where the usable entries fit, the free frames below the end of the bitmap are the ones
that some usable entry frees and no reserved range takes back. -/
lemma initPmm_free_iff_freed (h : InitialPmm info m.pmm) (hfits : info.UsableFits) {f : Nat}
    (hf : f < 8 * getBitmapSize info) :
    m.pmm.pmmIsFree (f * 4096) = true ↔ info.Freed f ∧ ¬ info.Reserved f := by
  have hsize := hfits.bitmapSize_lt
  have hdiv : f * 4096 / 4096 = f := by omega
  have hused := h.used hfits f hf
  rw [Pmm.pmmIsFree_eq _ (by omega), hdiv, Pmm.free, Bool.not_eq_true', ← Bool.not_eq_true, hused]
  simp only [MemRange.touches_iff, Freed, Reserved]
  push Not
  tauto

/-- `init_pmm` leaves exactly the frames free that should be, if and only if the passes make
no lasting mistake on the ranges of the memory map. -/
theorem initPmm_free_iff (hfits : info.UsableFits) (hbit : m.pmm.lastIdxBit ≤ 7)
    (h : m.initPmm info = some m') :
    (∀ f < 8 * m'.pmm.bitmapSize, m'.pmm.pmmIsFree (f * 4096) = true ↔ info.ShouldBeFree f) ↔
      info.SlipFree := by
  have hinit := initPmm_initial h hbit
  have hmeets (f : Nat) (hr : info.Reserved f) : ∃ r ∈ info.reserved, r.Meets f := by
    obtain ⟨r, h1, h2, -⟩ := hr
    exact ⟨r, h1, h2⟩
  rw [hinit.bitmapSize]
  constructor
  · intro hall
    have hall' (f : Nat) (hf : f < 8 * getBitmapSize info) :
        (info.Freed f ∧ ¬ info.Reserved f) ↔ info.WhollyUsable f ∧ ¬ ∃ r ∈ info.reserved, r.Meets f := by
      rw [← initPmm_free_iff_freed hinit hfits hf, hall f hf]
      simp [ShouldBeFree]
    refine ⟨fun f hf h1 h2 => ?_, fun f hf h1 h2 => ?_, fun f hf h1 h2 h3 => ?_⟩
    · by_contra hn
      exact h2 ((hall' f hf).mp ⟨h1, hn⟩).1
    · by_contra hn
      exact h2 ((hall' f hf).mpr ⟨h1, hn⟩).1
    · exact ((hall' f hf).mp ⟨h3, h2⟩).2 h1
  · intro hslip f hf
    rw [initPmm_free_iff_freed hinit hfits hf]
    constructor
    · rintro ⟨h1, h2⟩
      refine ⟨by_contra fun hw => h2 (hslip.edges f hf h1 hw), fun r hr hm => ?_⟩
      exact hslip.missed f hf ⟨r, hr, hm⟩ h2 h1
    · rintro ⟨h1, h2⟩
      refine ⟨by_contra fun hn => ?_, fun hr => ?_⟩
      · obtain ⟨r, hr, hm⟩ := hslip.holes f hf h1 hn
        exact h2 r hr hm
      · obtain ⟨r, hr, hm⟩ := hmeets f hr
        exact h2 r hr hm

end

lemma bootInfo_usableFits : bootInfo.UsableFits := by
  simp only [UsableFits, bootInfo, List.forall_mem_cons, List.not_mem_nil, false_implies, implies_true, and_true]
  intro _
  constructor <;> decide

/-- The frames of the one usable entry. -/
lemma bootInfo_usable {f : Nat} (hf : f < 8 * getBitmapSize bootInfo) : bootInfo.WhollyUsable f ∧ bootInfo.Freed f := by
  have hsize : getBitmapSize bootInfo = 512 := by decide
  have hbase : (0#64).toNat = 0 := rfl
  have hlen : (0x1000000#64).toNat = 0x1000000 := rfl
  rw [hsize] at hf
  refine ⟨fun a _ ha => ⟨_, List.mem_singleton_self _, rfl, ?_, ?_⟩, _, List.mem_singleton_self _, rfl,
    ⟨f * 4096, Nat.le_refl _, by omega, ?_, ?_⟩, ?_⟩
  · simp only [hbase]
    omega
  · simp only [hbase, hlen]
    omega
  · simp only [MemoryMapEntry.range, hbase]
    omega
  · simp only [MemoryMapEntry.range, hbase, hlen]
    omega
  · simp only [MemoryMapEntry.range, hbase, hlen, MemRange.Missed, hole, pageCount]
    omega

/-- All reserved ranges lie in the boot section. -/
lemma bootInfo_reserved {f : Nat} (h : ∃ r ∈ bootInfo.reserved, r.Meets f) : bootInfo.Reserved f := by
  have hend : ∀ r ∈ bootInfo.reserved, r.start + r.size ≤ 0x800000 := by decide
  obtain ⟨r, hr, a, ha, -, -, hlt⟩ := h
  have hle := hend r hr
  have hboot : bootSectionSize = 0x800000 := rfl
  refine ⟨⟨0, bootSectionSize⟩, by simp [reserved], ⟨f * 4096, Nat.le_refl _, by omega, Nat.zero_le _, ?_⟩, ?_⟩
  · simp only [hboot]
    omega
  · simp only [MemRange.Missed, hole, pageCount, hboot]
    omega

theorem initPmm_free_iff_bootInfo : ∃ m', bootMachine.initPmm bootInfo = some m' ∧
    ∀ f < 8 * m'.pmm.bitmapSize, m'.pmm.pmmIsFree (f * 4096) = true ↔ bootInfo.ShouldBeFree f := by
  have hsome : (bootMachine.initPmm bootInfo).isSome = true := by decide +kernel
  obtain ⟨m', h⟩ := Option.isSome_iff_exists.mp hsome
  refine ⟨m', h, (initPmm_free_iff bootInfo_usableFits (by decide) h).mpr ⟨fun f hf _ hnot => ?_, fun f hf _ hnot => ?_,
    fun f _ hmeets hnot => ?_⟩⟩
  · exact absurd (bootInfo_usable hf).1 hnot
  · exact absurd (bootInfo_usable hf).2 hnot
  · exact absurd (bootInfo_reserved hmeets) hnot

/-- Usable memory from the middle of frame `0x900` on. -/
def unalignedInfo : MemoryInfo := { bootInfo with map := [⟨0x900800#64, 0x6ff800#64, 1#32⟩] }

/-- The first half of frame `0x900` is not usable memory, but the frame is free. -/
theorem initPmm_frees_partial_frame : ∃ m', bootMachine.initPmm unalignedInfo = some m' ∧
    ¬ ∀ f < 8 * m'.pmm.bitmapSize,
      m'.pmm.pmmIsFree (f * 4096) = true ↔ unalignedInfo.ShouldBeFree f := by
  have hrun : ((bootMachine.initPmm unalignedInfo).map fun m =>
      (m.pmm.bitmapSize, m.pmm.pmmIsFree (0x900 * 4096))) = some (512, true) := by decide +kernel
  obtain ⟨m', h, hm⟩ := Option.map_eq_some_iff.mp hrun
  simp only [Prod.mk.injEq] at hm
  refine ⟨m', h, fun hall => ?_⟩
  have hfree := ((hall 0x900 (by rw [hm.1]; decide)).mp hm.2).1
  obtain ⟨e, he, -, hbase, -⟩ := hfree 0x900000 (by decide) (by decide)
  simp only [unalignedInfo, List.mem_singleton] at he
  subst he
  exact absurd hbase (by decide)

end HaiirOS
