import HaiirOS.Proofs.Booted
import HaiirOS.Proofs.InitStores

/-!
# From the boot loader to the first session

The page tables of the boot loader map the first 8 MiB one to one. With its tables below 2 MiB and
all stores of `init_pmm` within these 8 MiB and off the tables `init_memory` makes no table: it
writes leaf entries of its own mapping. What it leaves is a first session, from which all sound runs
keep the page tables in order.
-/

namespace HaiirOS

open AddressWord
open Runs

/-- The loader's tables lie below 2 MiB and are in order, whatever allocator is put to use. -/
structure Loaded (w : WindowTables) (pts : Nat → Nat) (m : Machine) : Prop where
  booted : ∀ pmm : Pmm, pmm.Valid → (∀ f, f < 0x800 → pmm.used f = true) →
    Booted w pts { m.initPaging with pmm := pmm }
  below : ∀ t ∈ loaderTables w pts, t < 0x200

namespace Loaded

variable {w : WindowTables} {pts : Nat → Nat} {m m' : Machine} {f : Nat}

lemma first (h : Loaded w pts m) : Booted w pts { m.initPaging with pmm := reservedPmm } :=
  h.booted reservedPmm reservedPmm_valid fun _ hf => reservedPmm_used hf

lemma used (h : Loaded w pts m) (hused : ∀ g, g < 0x200 → m.pmm.used g = true) :
    ∀ t ∈ loaderTables w pts, m.pmm.used t = true := fun t ht => hused t (h.below t ht)

/-- The entries on the way down from the PML4 to the leaf entry of a page below 8 MiB. -/
lemma upper (h : Loaded w pts m) (hused : ∀ g, g < 0x200 → m.pmm.used g = true) {i : Nat} (hi : i < 4) :
    (Pinned w.win m (slot w.pml4 0) ∧ frame (m.mem (slot w.pml4 0)) = w.pdp) ∧
    (Pinned w.win m (slot w.pdp 0) ∧ frame (m.mem (slot w.pdp 0)) = w.pd) ∧
    Pinned w.win m (slot w.pd i) ∧ frame (m.mem (slot w.pd i)) = pts i :=
  h.first.path_pinned (h.used hused) hi

/-- The window works for the low frames in use while an allocator has the first 2 MiB in use. -/
lemma ready (h : Loaded w pts m) (hs : m.sPml4Table = m.cr3) (hv : m.pmm.Valid)
    (hused : ∀ g, g < 0x200 → m.pmm.used g = true) :
    WindowReady w (fun f => lowFrame f ∧ m.pmm.used f = true) m := by
  have hr := h.first.ready_under hv (h.used hused)
  have hm : ({ m.initPaging with pmm := m.pmm } : Machine) = m :=
    congrArg (fun x => ({ m with sPml4Table := x } : Machine)) hs.symm
  change WindowReady w _ { m.initPaging with pmm := m.pmm } at hr
  rwa [hm] at hr

/-- The walk for a page below 8 MiB finds its leaf entry and changes nothing. -/
lemma directEntry_eq (h : Loaded w pts m) (hused : ∀ g, g < 0x200 → m.pmm.used g = true) {v : Word} (hv : v.toNat < 0x800000)
    (flags : PageFlags) : (∃ l, m.directEntry flags v 3 w.pml4 =
      (some (slot (pts (v.toNat / 4096 / 512)) (lvIndex v 1)), { m with log := l })) ∧
      Clear w (fun f => lowFrame f ∧ m.pmm.used f = true) flags v 3 m w.pml4 := by
  have i4 : lvIndex v 4 = 0 := by
    simp only [lvIndex]
    omega
  have i3 : lvIndex v 3 = 0 := by
    simp only [lvIndex]
    omega
  have i2 : lvIndex v 2 = v.toNat / 4096 / 512 := by
    simp only [lvIndex]
    omega
  have henter {a u : Nat} (ha : Pinned w.win m a) (hu : frame (m.mem a) = u) (l : List Event) :
      Machine.enter { m with log := l } a flags = (some u, { m with log := .load a :: .load a :: l }) := by
    have habs : ¬ Machine.Absent { m with log := .load a :: l } (m.mem a) := ha.2.2
    rw [Machine.enter]
    change (if Machine.Absent { m with log := .load a :: l } (m.mem a) then _ else _) = _
    have hlight := Machine.light_of_present (m := { m with log := .load a :: .load a :: l }) ha.2.1 flags
    rw [if_neg habs, ← hu]
    exact congrArg (some (frame (m.mem a)), ·) hlight
  obtain ⟨⟨p4, e4⟩, ⟨p3, e3⟩, p2, e2⟩ := h.upper hused (i := v.toNat / 4096 / 512) (by omega)
  have h4 := henter p4 e4 m.log
  have h3 := henter p3 e3 (.load (slot w.pml4 0) :: .load (slot w.pml4 0) :: m.log)
  have h2 := henter p2 e2 (.load (slot w.pdp 0) :: .load (slot w.pdp 0) :: .load (slot w.pml4 0) ::
    .load (slot w.pml4 0) :: m.log)
  constructor
  · refine ⟨.load (slot w.pd (v.toNat / 4096 / 512)) :: .load (slot w.pd (v.toNat / 4096 / 512)) ::
      .load (slot w.pdp 0) :: .load (slot w.pdp 0) :: .load (slot w.pml4 0) :: .load (slot w.pml4 0) :: m.log, ?_⟩
    rw [Machine.directEntry, i4]
    simp only [h4]
    rw [Machine.directEntry, i3]
    simp only [h3]
    rw [Machine.directEntry, i2]
    simp only [h2]
    rfl
  · have hlow (t : Nat) (ht : t ∈ loaderTables w pts) : lowFrame t ∧ m.pmm.used t = true :=
      ⟨h.first.low t ht, h.used hused t ht⟩
    simp only [Clear, i4, i3, i2]
    refine ⟨p4.1, fun _ _ => by rw [e4]; exact hlow _ (by simp [loaderTables]), ?_⟩
    simp only [h4]
    refine ⟨p3.1, fun _ _ => by rw [e3]; exact hlow _ (by simp [loaderTables]), ?_⟩
    simp only [h3]
    refine ⟨p2.1, fun _ _ => by rw [e2]; exact hlow _ (Booted.pts_mem (by omega)), ?_⟩
    simp only [h2]

/-- A map of a page below 8 MiB to its own frame writes a leaf entry of the loader's. -/
lemma map (h : Loaded w pts m) (hs : m.sPml4Table = m.cr3) (hv : m.pmm.Valid)
    (hused : ∀ g, g < 0x200 → m.pmm.used g = true) (hf : f < 0x800) :
    ∃ m', m.mapFrame (frameAddr f) (frameAddr f) (PageFlags.present ||| PageFlags.writeable) = some m' ∧
      Loaded w pts m' ∧ m'.sPml4Table = m'.cr3 ∧ m'.pmm = m.pmm := by
  have hb := h.first
  have hval : (frameAddr f).toNat = f * 4096 := by
    rw [frameAddr, BitVec.toNat_ofNat]
    omega
  have hno : f * 4096 / 4096 = f := Nat.mul_div_cancel f (by decide)
  have hidx : lvIndex (frameAddr f) 1 = f % 512 := by
    rw [Booted.lvIndex_one, hval, hno]
  have hlt := hb.pml4_low.2.1
  obtain ⟨⟨l, hwalk⟩, hclear⟩ := h.directEntry_eq hused (v := frameAddr f) (by omega)
    (PageFlags.present ||| PageFlags.writeable)
  have hsmall : w.pml4 < 2 ^ 40 := by omega
  obtain ⟨m', hmap, hsim, -⟩ := (h.ready hs hv hused).map_eq hsmall
    (fun _ => ⟨hb.pml4_low, h.used hused _ (by simp [loaderTables])⟩) hclear (frameAddr f)
  rw [Machine.directMap, hwalk, hval, hno, hidx] at hsim
  have hroot : m.sPml4Table = BitVec.ofNat 64 (w.pml4 * 4096) := hs.trans hb.cr3
  refine ⟨m', by rw [Machine.mapFrame, hroot]; exact hmap, ⟨fun pmm hpmm hlow => ?_, h.below⟩, ?_, hsim.pmm⟩
  · have hl := h.booted pmm hpmm hlow
    have hmem {b : Nat} (hwin : b ≠ w.win) (hne : b ≠ slot (pts (f / 512)) (f % 512)) : m'.mem b = m.mem b :=
      (hsim.mem b hwin).trans (Function.update_of_ne hne _ _)
    have hupper {t i : Nat} (ht : t = w.pml4 ∨ t = w.pdp ∨ t = w.pd) (hi : i < 512) :
        m'.mem (slot t i) = m.mem (slot t i) := by
      refine hmem (hb.upper_ne_win ht hi) fun heq => ?_
      exact hb.upper_ne_pts ht (i := f / 512) (by omega) (slot_inj hi (Nat.mod_lt f (by decide)) heq).1
    have hcr3 : m'.cr3 = m.cr3 := hsim.cr3
    refine ⟨hpmm, hlow, hcr3.trans hl.cr3, hcr3.trans hl.cr3, hl.pt, hl.distinct, hl.low, ?_, fun i hi hlt => ?_, ?_,
      fun i hi hlt => ?_, fun i hi => ?_, fun i hi hlt => ?_, fun g hpos hg hne => ?_⟩
    · exact (congrArg (TableEntry · w.pdp) (hupper (Or.inl rfl) (by decide))).mpr hl.pml4_first
    · exact (hupper (Or.inl rfl) hlt).trans (hl.pml4_rest i hi hlt)
    · exact (congrArg (TableEntry · w.pd) (hupper (Or.inr (Or.inl rfl)) (by decide))).mpr hl.pdp_first
    · exact (hupper (Or.inr (Or.inl rfl)) hlt).trans (hl.pdp_rest i hi hlt)
    · exact (congrArg (TableEntry · (pts i)) (hupper (Or.inr (Or.inr rfl)) (by omega))).mpr (hl.pd_first i hi)
    · exact (hupper (Or.inr (Or.inr rfl)) hlt).trans (hl.pd_rest i hi hlt)
    · have hwin := hb.page_ne_win hg hne
      by_cases hgf : g = f
      · -- the leaf entry that has been written
        have hentry : m'.mem (slot (pts (g / 512)) (g % 512)) =
            frameAddr f ||| (PageFlags.present ||| PageFlags.writeable) := by
          rw [hsim.mem _ hwin, hgf]
          exact Function.update_self ..
        have hplain : PlainFlags (PageFlags.present ||| PageFlags.writeable) := ⟨by decide, by decide⟩
        change (m'.mem (slot (pts (g / 512)) (g % 512))).getLsbD 0 = true ∧
          frame (m'.mem (slot (pts (g / 512)) (g % 512))) = g
        rw [hentry, hgf]
        exact ⟨(Tables.flag_word (by omega) (by decide)).trans (by decide), Tables.frame_word (by omega) hplain⟩
      · have hsame : m'.mem (slot (pts (g / 512)) (g % 512)) = m.mem (slot (pts (g / 512)) (g % 512)) := by
          refine hmem hwin fun heq => hgf ?_
          obtain ⟨hpt, hrest⟩ := slot_inj (Nat.mod_lt g (by decide)) (Nat.mod_lt f (by decide)) heq
          have hdiv := hb.pts_inj (i := g / 512) (j := f / 512) (by omega) (by omega) hpt
          omega
        change (m'.mem (slot (pts (g / 512)) (g % 512))).getLsbD 0 = true ∧
          frame (m'.mem (slot (pts (g / 512)) (g % 512))) = g
        rw [hsame]
        exact hl.pages g hpos hg hne
  · rw [hsim.sPml4Table, hsim.cr3]
    exact hs

/-- `map_bitmap` for a bitmap within the first 8 MiB. -/
lemma mapBitmap (h : Loaded w pts m) (hs : m.sPml4Table = m.cr3) (hbit : m.pmm.lastIdxBit ≤ 7)
    (hlow : m.pmm.bitmap + m.pmm.bitmapSize < 0x800000) :
    ∃ m', m.mapBitmap = some m' ∧ Loaded w pts m' ∧ m'.sPml4Table = m'.cr3 := by
  have hstart : Loaded w pts { m with pmm := m.pmm.createTmpBitmap } := ⟨h.booted, h.below⟩
  obtain ⟨m', hloop, hl, hs', -⟩ := @Loop.upTo_total _
    (fun i m1 => m1.mapFrame (toPage (BitVec.ofNat 64 (m.pmm.bitmap + i * frameSize % 2 ^ 32)))
      (toFrame (BitVec.ofNat 64 (m.pmm.bitmap + i * frameSize % 2 ^ 32))) (PageFlags.present ||| PageFlags.writeable))
    (fun _ m1 => Loaded w pts m1 ∧ m1.sPml4Table = m1.cr3 ∧ TmpPmm m1.pmm) (m.pmm.bitmapSize / frameSize + 1) _
    ⟨hstart, hs, .create m.pmm hbit⟩ (by
      rintro i hi m1 ⟨hl, hs1, htmp⟩
      have hpage : base (BitVec.ofNat 64 (m.pmm.bitmap + i * frameSize % 2 ^ 32)) =
          frameAddr ((m.pmm.bitmap + i * 4096) / 4096) := by
        apply BitVec.eq_of_toNat_eq
        rw [base_toNat, frameAddr, BitVec.toNat_ofNat, BitVec.toNat_ofNat]
        simp only [frameSize] at hi ⊢
        omega
      have hused (g : Nat) (hg : g < 0x200) : m1.pmm.used g = true :=
        htmp.low g (by simp only [tmpBitmapFirstFrame, frameSize]; omega)
      simp only [frameSize] at hi
      obtain ⟨m2, hmap, hl2, hs2, hpmm⟩ := hl.map hs1 htmp.valid hused (f := (m.pmm.bitmap + i * 4096) / 4096)
        (by omega)
      exact ⟨m2, by rw [toPage, toFrame, hpage]; exact hmap, hl2, hs2, hpmm ▸ htmp⟩)
  refine ⟨{ m' with pmm := { m'.pmm with bitmap := m.pmm.bitmap, bitmapSize := m.pmm.bitmapSize } }, ?_,
    ⟨hl.booted, hl.below⟩, hs'⟩
  unfold Machine.mapBitmap
  simp only
  rw [if_neg (by simp only [frameSize]; omega), hloop]
  rfl

end Loaded

/-- The bitmap ends within the first 8 MiB, and `init_pmm` stores to frames there that are neither the window's nor those
of the loader's tables. -/
structure BitmapLow (w : WindowTables) (pts : Nat → Nat) (info : MemoryInfo) : Prop where
  below : bitmapAddr info + getBitmapSize info < bootSectionSize
  stores : ∀ a, info.Stores a → lowFrame (a / frameSize) ∧ a / frameSize ∉ loaderTables w pts

/-- No byte of the loader's tables is stored to. -/
lemma BitmapLow.off {w : WindowTables} {pts : Nat → Nat} {info : MemoryInfo} (h : BitmapLow w pts info) {t : Nat}
    (ht : t ∈ loaderTables w pts) {i : Nat} (hi : i < 512) (b : Nat) (hb : b < 8) : ¬ info.Stores (slot t i + b) := by
  intro hs
  have hframe : (slot t i + b) / frameSize = t := by
    simp only [slot, frameSize]
    omega
  exact (h.stores _ hs).2 (by rwa [hframe])

/-- `init_memory` returns. It leaves the frames of the memory map free as far as its passes go. Whatever the words that
hold bytes stored to by the passes are, the first 8 MiB are mapped one to one, and in every sound run from there the page
tables stay in order. -/
theorem init_memory_session {w : WindowTables} {pts : Nat → Nat} {m : Machine} {bootInfo : BootInfo} (h : Loaded w pts m)
    (hbit : m.pmm.lastIdxBit ≤ 7) (hlow : BitmapLow w pts (initMemoryMap bootInfo)) :
    ∃ m', m.initMemory bootInfo = some m' ∧ InitialPmm (initMemoryMap bootInfo) m'.pmm ∧
      ∀ mem, (∀ a, (∀ b < 8, ¬ (initMemoryMap bootInfo).Stores (a + b)) → mem a = m'.mem a) →
        (∀ f, lowFrame f → Tables.Home w { m' with mem := mem } f) ∧
        ∀ ops s, Run Session.step ⟨{ m' with mem := mem }, [w.pml4]⟩ ops s →
          Along Session.Sound Session.step ⟨{ m' with mem := mem }, [w.pml4]⟩ ops → ∃ rank, s.Inv w rank := by
  have hstart : Loaded w pts { m.initPaging with pmm := { m.initPaging.pmm with
      bitmapSize := getBitmapSize (initMemoryMap bootInfo), bitmap := bitmapAddr (initMemoryMap bootInfo) } } :=
    ⟨h.booted, h.below⟩
  obtain ⟨m1, hmap, hl, hs⟩ := hstart.mapBitmap rfl hbit hlow.below
  have hinit : m.initMemory bootInfo = some { m1 with
      pmm := (m1.pmm.fill 0xff#8 0 m1.pmm.bitmapSize).initFrames (initMemoryMap bootInfo) } := by
    rw [Machine.initMemory, Machine.initPmm, Machine.initBitmap]
    simp only [hmap]
    rfl
  have hpmm := initPmm_initial (m := m.initPaging) hinit hbit
  have hsize : getBitmapSize (initMemoryMap bootInfo) < bootSectionSize := Nat.lt_of_le_of_lt (Nat.le_add_left ..) hlow.below
  have hvalid : Pmm.Valid ((m1.pmm.fill 0xff#8 0 m1.pmm.bitmapSize).initFrames (initMemoryMap bootInfo)) :=
    ⟨hpmm.lastIdxBit, hpmm.bootSection 0 (by decide), by rw [hpmm.bitmapSize]; exact Nat.lt_trans hsize (by decide)⟩
  have hbooted := hl.booted _ hvalid hpmm.bootSection
  have hsame : ({ m1.initPaging with pmm := (m1.pmm.fill 0xff#8 0 m1.pmm.bitmapSize).initFrames (initMemoryMap bootInfo) } : Machine) =
      { m1 with pmm := (m1.pmm.fill 0xff#8 0 m1.pmm.bitmapSize).initFrames (initMemoryMap bootInfo) } := by
    rw [Machine.initPaging, ← hs]
  rw [hsame] at hbooted
  refine ⟨_, hinit, hpmm, fun mem hmem => ?_⟩
  have hleft : Booted w pts { m1 with
      mem := mem, pmm := (m1.pmm.fill 0xff#8 0 m1.pmm.bitmapSize).initFrames (initMemoryMap bootInfo) } :=
    hbooted.congr_mem fun t ht i hi => hmem _ (hlow.off ht hi)
  exact ⟨fun f hf => hleft.home hf, fun ops s hrun hok => hleft.inv.run hrun hok⟩

/-- The loader's memory map with a small kernel. -/
def smallKernel : BootInfo := ⟨[⟨0#64, 0x1000000#64, 1#32⟩], 0x100000#64, 0x1000#32, 0#32, 0#16, 0#16, 0#8⟩

lemma loaded_bootMachine : Loaded bootWindow (4 + ·) bootMachine := by
  refine ⟨fun pmm hv hlow => ?_, by decide⟩
  have hb := booted_running (fun _ => 0#64) hv hlow
  have hmem : (runningMachine (fun _ => 0#64) pmm).mem = bootMachine.mem := by
    funext a
    change (if a < 0x800000 then identityTables 1 a else 0#64) = identityTables 1 a
    by_cases ha : a < 0x800000
    · rw [if_pos ha]
    · rw [if_neg ha]
      unfold identityTables slot
      rw [if_neg, if_neg, if_neg, if_neg]
      all_goals omega
  have hsame : ({ bootMachine.initPaging with pmm := pmm } : Machine) = runningMachine (fun _ => 0#64) pmm := by
    change (⟨bootMachine.mem, pmm, 0x1000#64, 0x1000#64, []⟩ : Machine) =
      ⟨(runningMachine (fun _ => 0#64) pmm).mem, pmm, 0x1000#64, 0x1000#64, []⟩
    rw [hmem]
  rw [hsame]
  exact hb

/-- The bitmap lies behind the kernel, and the passes store within its page. -/
lemma smallKernel_bitmapLow : BitmapLow bootWindow (4 + ·) (initMemoryMap smallKernel) := by
  have haddr : bitmapAddr (initMemoryMap smallKernel) = 0x101000 := by decide +kernel
  have hsize : getBitmapSize (initMemoryMap smallKernel) = 512 := by decide +kernel
  have hcalls : ∀ c ∈ (initMemoryMap smallKernel).calls, ∀ s ∈ c.masks, s.1 ≤ 512 := by decide +kernel
  have htables : ∀ t ∈ loaderTables bootWindow (4 + ·), t < 8 := by decide
  have hstores (a : Nat) (ha : (initMemoryMap smallKernel).Stores a) : a / frameSize = 0x3f0 ∨ a / frameSize = 0x101 := by
    simp only [frameSize]
    rcases ha with ha | ha | ⟨c, hc, s, hs, rfl⟩
    · simp only [tmpBitmapBase, frameSize] at ha
      omega
    · omega
    · have hle := hcalls c hc s hs
      omega
  refine ⟨by rw [haddr, hsize]; decide, fun a ha => ?_⟩
  rcases hstores a ha with hframe | hframe
  all_goals
    rw [hframe]
    refine ⟨by decide, fun ht => ?_⟩
    have hlt := htables _ ht
    omega

theorem init_memory_session_small : ∃ m', bootMachine.initMemory smallKernel = some m' ∧
    ∀ ops s, Run Session.step ⟨m', [1]⟩ ops s → Along Session.Sound Session.step ⟨m', [1]⟩ ops →
      ∃ rank, s.Inv bootWindow rank := by
  obtain ⟨m', hinit, -, hmem⟩ := init_memory_session loaded_bootMachine (by decide) smallKernel_bitmapLow
  exact ⟨m', hinit, (hmem m'.mem fun _ _ => rfl).2⟩

end HaiirOS
