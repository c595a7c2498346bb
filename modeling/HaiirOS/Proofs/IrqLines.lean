import HaiirOS.Lib.Runs
import HaiirOS.Proofs.IoApicInit

/-!
# The interrupt lines that drivers use

A line is unmasked by `enable_io_interrupt` on the GSI that the IRQ is wired to, and masked by
`disable_io_interrupt` on the GSI with the IRQ's own number. Runs in which these are the same
keep the lines and the handlers together.
-/

namespace HaiirOS

namespace IoApics

open Runs Checked

variable {H : Type}

/-- The register with the mask bit of a GSI's entry. -/
def lineReg (ioapic : IoApic) (gsi : BitVec 8) : BitVec 8 := ioApicRedtblOffset (entryIdx ioapic gsi)

/-- The redirection entry of the GSI is not masked. -/
def Unmasked (s : IoApics H) (gsi : BitVec 8) : Prop :=
  ∃ ioapic, s.getIoApic gsi = some ioapic ∧ (s.readEntry ioapic (entryIdx ioapic gsi)).getLsbD 16 = false

/-- A driver's handler is in the slot of the IRQ. -/
def Installed (s : IoApics H) (irq : BitVec 8) : Prop := ∃ h, (s.handlers irq).func = some (.driver h)

/-- The IRQ is an ISA interrupt that no other IRQ is overridden to. -/
def Allowed (s : IoApics H) (irq : BitVec 8) : Prop :=
  irq.toNat < isaInterruptCount ∧
    ∀ r o, s.overrides r = some o → r ≠ irq → o.globalSystemInt.setWidth 8 ≠ irq

/-- The IOAPICs have different addresses and cover the ISA interrupts' GSIs; overrides are to such GSIs. -/
structure Layout (s : IoApics H) : Prop where
  covered : s.Covered
  apart : ∀ a ∈ s.ioapics, ∀ b ∈ s.ioapics, a.addr = b.addr → a = b
  isa : ∀ r o, s.overrides r = some o → o.globalSystemInt.toNat < isaInterruptCount

section Lines

variable {s : IoApics H}

lemma readEntry_mask (s : IoApics H) (ioapic : IoApic) (idx : BitVec 8) :
    (s.readEntry ioapic idx).getLsbD 16 = (s.regs ioapic.addr (ioApicRedtblOffset idx)).getLsbD 16 := by
  have hlow := congrArg (fun w => BitVec.getLsbD w 16) (low_of_entry (s.regs ioapic.addr (ioApicRedtblOffset idx + 1#8))
    (s.regs ioapic.addr (ioApicRedtblOffset idx)))
  rw [BitVec.getLsbD_setWidth] at hlow
  exact hlow

lemma getIoApic_bounds {gsi : BitVec 8} {ioapic : IoApic} (h : s.getIoApic gsi = some ioapic) :
    ioapic ∈ s.ioapics ∧ ioapic.gsiBase ≤ gsi.setWidth 32 := by
  have hsome := List.find?_some h
  exact ⟨List.mem_of_find?_eq_some h, (of_decide_eq_true hsome).1⟩

lemma Layout.wired_lt (hs : Layout s) {irq : BitVec 8} (hirq : irq.toNat < isaInterruptCount) :
    (s.wired irq).toNat < isaInterruptCount := by
  have hcount : isaInterruptCount = 16 := rfl
  unfold wired
  rw [if_pos hirq]
  cases ho : s.overrides irq with
  | none => exact hirq
  | some o =>
    have hlt := hs.isa irq o ho
    rw [BitVec.toNat_setWidth]
    omega

/-- The lines of different ISA GSIs have different registers. -/
lemma Layout.lineReg_inj (hs : Layout s) {g g' : BitVec 8} (hg : g.toNat < isaInterruptCount)
    (hg' : g'.toNat < isaInterruptCount) {a b : IoApic} (ha : s.getIoApic g = some a) (hb : s.getIoApic g' = some b)
    (haddr : a.addr = b.addr) (hreg : lineReg a g = lineReg b g') : g = g' := by
  have hcount : isaInterruptCount = 16 := rfl
  obtain ⟨hma, hla⟩ := getIoApic_bounds ha
  obtain ⟨hmb, hlb⟩ := getIoApic_bounds hb
  obtain rfl := hs.apart a hma b hmb haddr
  have hnat := congrArg BitVec.toNat hreg
  rw [BitVec.le_def, BitVec.toNat_setWidth] at hla hlb
  simp only [lineReg, ioApicRedtblOffset, entryIdx, BitVec.toNat_add, BitVec.toNat_mul, BitVec.toNat_setWidth,
    BitVec.toNat_sub, BitVec.toNat_ofNat] at hnat
  apply BitVec.eq_of_toNat_eq
  have := a.gsiBase.isLt
  omega

/-- No other IRQ is wired to the GSI with the number of an allowed IRQ. -/
lemma wired_eq_allowed {irq r : BitVec 8} (hirq : Allowed s irq) (hr : r.toNat < isaInterruptCount)
    (h : s.wired r = irq) : r = irq := by
  by_contra hne
  unfold wired at h
  rw [if_pos hr] at h
  cases ho : s.overrides r with
  | none =>
    rw [ho] at h
    exact hne h
  | some o =>
    rw [ho] at h
    exact hirq.2 r o ho hne h

/-- The unmasked lines are those of the installed handlers, none of which shares its line. -/
structure Lines (s : IoApics H) : Prop where
  unmasked_iff : ∀ g : BitVec 8, g.toNat < isaInterruptCount →
    (Unmasked s g ↔ ∃ irq, Allowed s irq ∧ Installed s irq ∧ s.wired irq = g)
  alone : ∀ irq r, Allowed s irq → Installed s irq → Allowed s r → s.wired r = s.wired irq → r = irq

lemma Lines.unmasked_wired (hs : Lines s) (hl : Layout s) {irq : BitVec 8} (hirq : Allowed s irq) :
    Unmasked s (s.wired irq) ↔ Installed s irq := by
  rw [hs.unmasked_iff _ (hl.wired_lt hirq.1)]
  constructor
  · rintro ⟨r, hr, hinst, hw⟩
    rwa [hs.alone r irq hr hinst hirq hw.symm]
  · intro hinst
    exact ⟨irq, hirq, hinst, rfl⟩

end Lines

section Steps

variable {s : IoApics H} {irq : BitVec 8}

lemma unmasked_writeReg {a : BitVec 32} {r : BitVec 8} {v : BitVec 32} {g : BitVec 8} {ioapic : IoApic}
    (hio : s.getIoApic g = some ioapic) :
    Unmasked (s.writeReg a r v) g ↔
      (if ioapic.addr = a ∧ lineReg ioapic g = r then v.getLsbD 16 = false else Unmasked s g) := by
  have hio' : (s.writeReg a r v).getIoApic g = some ioapic := hio
  unfold Unmasked
  simp only [hio, hio', readEntry_mask, writeReg_regs, Option.some.injEq, exists_eq_left']
  unfold lineReg
  by_cases h : ioapic.addr = a ∧ ioApicRedtblOffset (entryIdx ioapic g) = r
  · rw [if_pos h, if_pos h]
  · rw [if_neg h, if_neg h]

/-- After `unmask` the line is unmasked and the other ISA lines are as before. -/
lemma unmasked_unmask (hl : Layout s) {g : BitVec 8} (hg : g.toNat < isaInterruptCount) {ioapic : IoApic}
    (hio : s.getIoApic g = some ioapic) {g' : BitVec 8} (hg' : g'.toNat < isaInterruptCount) :
    Unmasked (s.unmask ioapic g) g' ↔ g' = g ∨ Unmasked s g' := by
  obtain ⟨b, hb⟩ := Option.isSome_iff_exists.mp (hl.covered g' hg')
  rw [unmask_eq, unmasked_writeReg hb]
  by_cases heq : g' = g
  · subst heq
    obtain rfl := Option.some.inj (hio.symm.trans hb)
    rw [if_pos ⟨rfl, rfl⟩]
    simp
  · rw [if_neg fun h => heq (hl.lineReg_inj hg' hg hb hio h.1 h.2)]
    simp [heq]

/-- After `mask` the line is masked and the other ISA lines are as before. -/
lemma unmasked_mask (hl : Layout s) {g : BitVec 8} (hg : g.toNat < isaInterruptCount) {ioapic : IoApic}
    (hio : s.getIoApic g = some ioapic) {g' : BitVec 8} (hg' : g'.toNat < isaInterruptCount) :
    Unmasked (s.mask ioapic g) g' ↔ g' ≠ g ∧ Unmasked s g' := by
  obtain ⟨b, hb⟩ := Option.isSome_iff_exists.mp (hl.covered g' hg')
  rw [mask_eq, unmasked_writeReg hb]
  by_cases heq : g' = g
  · subst heq
    obtain rfl := Option.some.inj (hio.symm.trans hb)
    rw [if_pos ⟨rfl, rfl⟩]
    simp
  · rw [if_neg fun h => heq (hl.lineReg_inj hg' hg hb hio h.1 h.2)]
    simp [heq]

lemma mask_masked {g : BitVec 8} {ioapic : IoApic} (hio : s.getIoApic g = some ioapic) (h : ¬ Unmasked s g) :
    s.mask ioapic g = s := by
  have hbit : (s.regs ioapic.addr (ioApicRedtblOffset (entryIdx ioapic g))).getLsbD 16 = true := by
    by_contra hbit
    exact h ⟨ioapic, hio, by rw [readEntry_mask]; exact Bool.eq_false_iff.mpr hbit⟩
  have hor : s.regs ioapic.addr (ioApicRedtblOffset (entryIdx ioapic g)) ||| (1#32 <<< 16) =
      s.regs ioapic.addr (ioApicRedtblOffset (entryIdx ioapic g)) := by
    apply BitVec.eq_of_getLsbD_eq
    intro i hi
    rw [BitVec.getLsbD_or]
    by_cases h16 : i = 16
    · subst h16
      rw [hbit]
      rfl
    · have hone : (1#32 <<< 16).getLsbD i = false := by
        rw [BitVec.getLsbD_shiftLeft, BitVec.getLsbD_one]
        simp
        omega
      rw [hone, Bool.or_false]
  rw [mask_eq, hor, writeReg_self]

lemma installed_setHandler (s : IoApics H) (irq : BitVec 8) (handler : IoHandler H) (r : BitVec 8) :
    Installed (s.setHandler irq handler) r ↔ if r = irq then ∃ h, handler.func = some (.driver h) else Installed s r := by
  unfold Installed setHandler
  by_cases hr : r = irq
  · subst hr
    simp
  · simp [hr]

/-- An IRQ that is alone on its line gets a handler. -/
lemma Lines.install (hs : Lines s) (hl : Layout s) (hirq : Allowed s irq) (halone : ∀ r, Allowed s r →
    s.wired r = s.wired irq → r = irq) {ioapic : IoApic} (hio : s.getIoApic (s.wired irq) = some ioapic) (h : H)
    (data : BitVec 64) :
    Lines ((s.setHandler irq ⟨some (.driver h), data, irq⟩).unmask ioapic (s.wired irq)) := by
  let t := s.setHandler irq ⟨some (.driver h), data, irq⟩
  have hinst (r : BitVec 8) : Installed (t.unmask ioapic (s.wired irq)) r ↔ r = irq ∨ Installed s r := by
    have hset := installed_setHandler s irq ⟨some (.driver h), data, irq⟩ r
    refine hset.trans ?_
    by_cases hr : r = irq
    · simp [hr]
    · simp [hr]
  have hlt : Layout t := ⟨hl.covered, hl.apart, hl.isa⟩
  constructor
  · intro g hg
    rw [unmasked_unmask hlt (hl.wired_lt hirq.1) hio hg]
    constructor
    · rintro (rfl | hg)
      · exact ⟨irq, hirq, (hinst irq).mpr (.inl rfl), rfl⟩
      · obtain ⟨r, hr, hri, hw⟩ := (hs.unmasked_iff g ‹_›).mp hg
        exact ⟨r, hr, (hinst r).mpr (.inr hri), hw⟩
    · rintro ⟨r, hr, hri, hw⟩
      rcases (hinst r).mp hri with rfl | hri
      · exact .inl hw.symm
      · exact .inr ((hs.unmasked_iff g hg).mpr ⟨r, hr, hri, hw⟩)
  · intro i r hi hii hr hw
    rcases (hinst i).mp hii with rfl | hii
    · exact halone r hr hw
    · exact hs.alone i r hi hii hr hw

/-- An IRQ on the line with its own number loses its handler, or an IRQ without a handler stays so. -/
lemma Lines.remove (hs : Lines s) (hl : Layout s) (hirq : Allowed s irq) (hown : Installed s irq → s.wired irq = irq)
    {ioapic : IoApic} (hio : s.getIoApic irq = some ioapic) :
    Lines ((s.setHandler irq emptyHandler).mask ioapic irq) := by
  let t := s.setHandler irq emptyHandler
  have hinst (r : BitVec 8) : Installed (t.mask ioapic irq) r ↔ r ≠ irq ∧ Installed s r := by
    have hset := installed_setHandler s irq emptyHandler r
    refine hset.trans ?_
    by_cases hr : r = irq
    · simp [hr, emptyHandler]
    · simp [hr]
  have hlt : Layout t := ⟨hl.covered, hl.apart, hl.isa⟩
  constructor
  · intro g hg
    rw [unmasked_mask hlt hirq.1 hio hg]
    constructor
    · rintro ⟨hne, hg'⟩
      obtain ⟨r, hr, hri, hw⟩ := (hs.unmasked_iff g hg).mp hg'
      refine ⟨r, hr, (hinst r).mpr ⟨?_, hri⟩, hw⟩
      rintro rfl
      exact hne (hw.symm.trans (hown hri))
    · rintro ⟨r, hr, hri, hw⟩
      obtain ⟨hne, hri⟩ := (hinst r).mp hri
      refine ⟨?_, (hs.unmasked_iff g hg).mpr ⟨r, hr, hri, hw⟩⟩
      rintro rfl
      exact hne (wired_eq_allowed hirq hr.1 hw)
  · intro i r hi hii hr hw
    exact hs.alone i r hi ((hinst i).mp hii).2 hr hw

end Steps

section Calls

/-- A driver's call on an IRQ. -/
inductive LineOp (H : Type) where
  | install (irq : BitVec 8) (h : H) (data : BitVec 64)
  | remove (irq : BitVec 8)

def LineOp.irq : LineOp H → BitVec 8
  | .install irq _ _ => irq
  | .remove irq => irq

def LineOp.call (s : IoApics H) : LineOp H → Except Stop (Bool × IoApics H)
  | .install irq h data => s.installIoInterruptHandler irq (some (.driver h)) data
  | .remove irq => s.removeIoInterruptHandler irq

def lineStep (s : IoApics H) (op : LineOp H) (t : IoApics H) : Prop := ∃ r, op.call s = .ok (r, t)

/-- A handler is installed for an IRQ that shares its line with no other, and removed from an IRQ whose
line has its own number. -/
def LineOk (s : IoApics H) : LineOp H → Prop
  | .install irq _ _ => s.SlotEmpty irq → ∀ r, Allowed s r → s.wired r = s.wired irq → r = irq
  | .remove irq => Installed s irq → s.wired irq = irq

/-- What a call on an IRQ that returns `r` does: the lines of the allowed IRQs are unmasked exactly where a
handler is installed, the registers of all other entries keep their values, and a call that
returns -1 changes nothing. -/
structure LinesFollow (s : IoApics H) (irq : BitVec 8) (r : Bool) (t : IoApics H) : Prop where
  lines : ∀ i, Allowed s i → (Unmasked t (s.wired i) ↔ Installed t i)
  others : ∀ a reg, (∀ ioapic, s.getIoApic (s.wired irq) = some ioapic →
    ¬ (a = ioapic.addr ∧ reg = lineReg ioapic (s.wired irq))) → t.regs a reg = s.regs a reg
  failed : r = false → t = s

variable {s : IoApics H}

/-- What an allowed call keeps for the calls after it. -/
structure LineInv (s : IoApics H) : Prop where
  lines : Lines s
  layout : Layout s

lemma LineInv.follow {t : IoApics H} (ht : LineInv t) (hov : t.overrides = s.overrides) {i : BitVec 8}
    (hi : Allowed s i) : Unmasked t (s.wired i) ↔ Installed t i := by
  rw [← wired_congr hov]
  apply ht.lines.unmasked_wired ht.layout
  unfold Allowed
  rw [hov]
  exact hi

/-- The step lemma: an allowed call returns, and does what it should. -/
lemma LineInv.call (hs : LineInv s) {op : LineOp H} (hirq : Allowed s op.irq) (hok : LineOk s op) :
    ∃ r t, op.call s = .ok (r, t) ∧ LineInv t ∧ t.overrides = s.overrides ∧ LinesFollow s op.irq r t := by
  have hcount : isaInterruptCount = 16 := rfl
  have hvec : ioVectorCount = 224 := rfl
  have hlt := hirq.1
  have hvalid : op.irq.toNat < ioVectorCount := by omega
  cases op with
  | install irq h data =>
    by_cases hempty : s.SlotEmpty irq
    · obtain ⟨ioapic, hio⟩ := Option.isSome_iff_exists.mp (hs.layout.covered _ (hs.layout.wired_lt hlt))
      have hlines := hs.lines.install hs.layout hirq (hok hempty) hio h data
      have hinv : LineInv ((s.setHandler irq ⟨some (.driver h), data, irq⟩).unmask ioapic (s.wired irq)) :=
        ⟨hlines, ⟨hs.layout.covered, hs.layout.apart, hs.layout.isa⟩⟩
      refine ⟨true, _, install_empty (some (.driver h)) data hvalid hempty hio, hinv, rfl, ?_⟩
      refine ⟨fun i hi => hinv.follow rfl hi, fun a reg hne => ?_, fun hr => by cases hr⟩
      rw [unmask_eq, writeReg_regs]
      exact if_neg (hne ioapic hio)
    · refine ⟨false, s, install_occupied hempty, hs, rfl, ?_⟩
      exact ⟨fun i hi => hs.follow rfl hi, fun _ _ _ => rfl, fun _ => rfl⟩
  | remove irq =>
    obtain ⟨ioapic, hio⟩ := Option.isSome_iff_exists.mp (hs.layout.covered irq hlt)
    have hlines := hs.lines.remove hs.layout hirq hok hio
    have hinv : LineInv ((s.setHandler irq emptyHandler).mask ioapic irq) :=
      ⟨hlines, ⟨hs.layout.covered, hs.layout.apart, hs.layout.isa⟩⟩
    refine ⟨true, _, remove_valid hvalid hio, hinv, rfl, ?_⟩
    refine ⟨fun i hi => hinv.follow rfl hi, fun a reg hne => ?_, fun hr => by cases hr⟩
    by_cases hinst : Installed s irq
    · have hw : s.wired irq = irq := hok hinst
      have hne := hne ioapic (by rw [LineOp.irq, hw]; exact hio)
      rw [LineOp.irq, hw] at hne
      rw [mask_eq, writeReg_regs]
      exact if_neg hne
    · -- the line with the IRQ's own number is masked already
      have hmasked : ¬ Unmasked s irq := by
        intro hu
        obtain ⟨r, hr, hri, hw⟩ := (hs.lines.unmasked_iff irq hlt).mp hu
        rw [wired_eq_allowed hirq hr.1 hw] at hri
        exact hinst hri
      have hset : ¬ Unmasked (s.setHandler irq emptyHandler) irq := hmasked
      have hmask := mask_masked (s := s.setHandler irq emptyHandler) hio hset
      exact congrArg (fun t => t.regs a reg) hmask

/-- The invariant holds along every run of allowed calls, and the overrides stay. -/
lemma LineInv.run {t : IoApics H} {ops : List (LineOp H)} (hrun : Run lineStep s ops t) (hs : LineInv s)
    (hirq : ∀ op ∈ ops, Allowed s op.irq) (hok : Along LineOk lineStep s ops) :
    LineInv t ∧ t.overrides = s.overrides := by
  induction hrun with
  | nil s => exact ⟨hs, rfl⟩
  | @cons s u t op ops hstep hrun ih =>
    obtain ⟨r, hr⟩ := hstep
    obtain ⟨r', u', hr', hu, hov, -⟩ := hs.call (hirq op List.mem_cons_self) hok.1
    obtain ⟨rfl, rfl⟩ := Prod.mk.inj (Except.ok.inj (hr.symm.trans hr'))
    have hirq' : ∀ op ∈ ops, Allowed u op.irq := by
      intro op hop
      unfold Allowed
      rw [hov]
      exact hirq op (List.mem_cons_of_mem _ hop)
    obtain ⟨ht, hov'⟩ := ih hu hirq' (hok.2 u ⟨r, hr⟩)
    exact ⟨ht, hov'.trans hov⟩

/-- The state after `init_io_apics` satisfies the invariant. -/
lemma LineInv.start {regs : BitVec 32 → BitVec 8 → BitVec 32} {madt : Madt} {localApicId : BitVec 8} {fuel : Nat}
    (h : (blank regs).initIoApics madt localApicId fuel = .ok s) (hcov : s.Covered)
    (hapart : ∀ a ∈ s.ioapics, ∀ b ∈ s.ioapics, a.addr = b.addr → a = b) : LineInv s := by
  obtain ⟨hf, hmasked⟩ := initIoApics_start h
  have hinst (r : BitVec 8) : ¬ Installed s r := fun ⟨d, hd⟩ => hf.handlers r d hd
  have hun (g : BitVec 8) : ¬ Unmasked s g := by
    rintro ⟨ioapic, hio, hbit⟩
    obtain ⟨hmem, hle⟩ := getIoApic_bounds hio
    have hsome := List.find?_some hio
    have hlt := (of_decide_eq_true hsome).2
    have hk : (entryIdx ioapic g).toNat < ioapic.maxEntries.toNat := by
      rw [BitVec.le_def] at hle
      rw [BitVec.lt_def] at hlt
      simp only [entryIdx, BitVec.toNat_add, BitVec.toNat_setWidth, BitVec.toNat_sub] at hle hlt ⊢
      have := ioapic.maxEntries.isLt
      have := ioapic.gsiBase.isLt
      have := g.isLt
      omega
    have hmask := hmasked ioapic hmem _ hk
    rw [BitVec.ofNat_toNat, BitVec.setWidth_eq, ← readEntry_mask] at hmask
    exact absurd (hmask.symm.trans hbit) (by decide)
  refine ⟨⟨fun g _ => ?_, fun i r _ hi => absurd hi (hinst i)⟩, hcov, hapart, hf.overrides⟩
  constructor
  · exact fun hu => absurd hu (hun g)
  · rintro ⟨r, -, hr, -⟩
    exact absurd hr (hinst r)

/-- In every state that a run of allowed calls reaches after `init_io_apics`, every further such call
returns and the lines follow the handlers. -/
theorem lines_follow_handlers {regs : BitVec 32 → BitVec 8 → BitVec 32} {madt : Madt} {localApicId : BitVec 8}
    {fuel : Nat} (h : (blank regs).initIoApics madt localApicId fuel = .ok s) (hcov : s.Covered)
    (hapart : ∀ a ∈ s.ioapics, ∀ b ∈ s.ioapics, a.addr = b.addr → a = b) {ops : List (LineOp H)} {t : IoApics H}
    (hrun : Run lineStep s ops t) (hirq : ∀ op ∈ ops, Allowed s op.irq) (hok : Along LineOk lineStep s ops)
    {op : LineOp H} (hop : Allowed s op.irq) (hopok : LineOk t op) :
    ∃ r u, op.call t = .ok (r, u) ∧ LinesFollow t op.irq r u := by
  obtain ⟨ht, hov⟩ := LineInv.run hrun (.start h hcov hapart) hirq hok
  have hop : Allowed t op.irq := by
    unfold Allowed
    rw [hov]
    exact hop
  obtain ⟨r, u, hcall, -, -, hfollow⟩ := ht.call hop hopok
  exact ⟨r, u, hcall, hfollow⟩

lemma allowed_iff {irq : BitVec 8} : Allowed s irq ↔ irq.toNat < isaInterruptCount ∧
    ∀ r, ∀ o ∈ s.overrides r, r ≠ irq → o.globalSystemInt.setWidth 8 ≠ irq := Iff.rfl

lemma pcInv : LineInv pcState := by
  apply LineInv.start pcState_eq
  · unfold Covered
    decide +kernel
  · decide +kernel

/-- On the PC the keyboard's handler is installed and removed again. -/
theorem pc_keyboard_follows : ∃ t, Run lineStep pcState [.install 1#8 () 0#64] t ∧
    ∃ r u, LineOp.call t (.remove 1#8) = .ok (r, u) ∧ LinesFollow t 1#8 r u := by
  have hirq : Allowed pcState 1#8 := by
    rw [allowed_iff]
    decide +kernel
  have hwired : pcState.wired 1#8 = 1#8 := by decide +kernel
  have hok : LineOk pcState (.install 1#8 () 0#64) := by
    intro _ r hr hw
    rw [hwired] at hw
    exact wired_eq_allowed hirq hr.1 hw
  have hinstall : Allowed pcState (LineOp.irq (.install 1#8 () 0#64)) := hirq
  obtain ⟨r, t, hcall, -, hov, -⟩ := pcInv.call hinstall hok
  have hrun : Run lineStep pcState [.install 1#8 () 0#64] t := .cons ⟨r, hcall⟩ (.nil t)
  refine ⟨t, hrun, ?_⟩
  have hallowed : Allowed pcState (LineOp.irq (.remove 1#8 : LineOp Unit)) := hirq
  have hremove : LineOk t (.remove 1#8) := by
    intro _
    rw [wired_congr hov]
    exact hwired
  refine lines_follow_handlers pcState_eq pcInv.layout.covered pcInv.layout.apart hrun ?_ ?_ hallowed hremove
  · intro op hop
    obtain rfl := List.mem_singleton.mp hop
    exact hirq
  · exact ⟨hok, fun _ _ => trivial⟩

/-- On the PC the timer's line stays unmasked when its handler is removed. -/
theorem pc_timer_stays_unmasked : Allowed pcState 0#8 ∧
    ∃ t u, LineOp.call pcState (.install 0#8 () 0#64) = .ok (true, t) ∧ LineOp.call t (.remove 0#8) = .ok (true, u) ∧
      Unmasked u (pcState.wired 0#8) ∧ ¬ Installed u 0#8 := by
  have hirq : Allowed pcState 0#8 := by
    rw [allowed_iff]
    decide +kernel
  have hwired : pcState.wired 0#8 = 2#8 := by decide +kernel
  have hempty : pcState.SlotEmpty 0#8 := by decide +kernel
  obtain ⟨a, ha⟩ := Option.isSome_iff_exists.mp (pcInv.layout.covered 2#8 (by decide))
  obtain ⟨b, hb⟩ := Option.isSome_iff_exists.mp (pcInv.layout.covered 0#8 (by decide))
  have hinstall := install_empty (some (.driver ())) 0#64 (by decide) hempty (by rw [hwired]; exact ha)
  let t := (pcState.setHandler 0#8 ⟨some (.driver ()), 0#64, 0#8⟩).unmask a (pcState.wired 0#8)
  have ht : Layout t := ⟨pcInv.layout.covered, pcInv.layout.apart, pcInv.layout.isa⟩
  have hset : Layout (t.setHandler 0#8 emptyHandler) := ⟨ht.covered, ht.apart, ht.isa⟩
  have hremove : t.removeIoInterruptHandler 0#8 = .ok (true, (t.setHandler 0#8 emptyHandler).mask b 0#8) :=
    remove_valid (by decide) hb
  refine ⟨hirq, t, _, hinstall, hremove, ?_, ?_⟩
  · rw [hwired, unmasked_mask hset (by decide) hb (by decide)]
    refine ⟨by decide, ?_⟩
    have hu : Unmasked t 2#8 := by
      have hlayout : Layout (pcState.setHandler 0#8 ⟨some (.driver ()), 0#64, 0#8⟩) :=
        ⟨pcInv.layout.covered, pcInv.layout.apart, pcInv.layout.isa⟩
      unfold t
      rw [hwired, unmasked_unmask hlayout (by decide) ha (by decide)]
      exact .inl rfl
    exact hu
  · rintro ⟨h, hfunc⟩
    cases hfunc

end Calls

end IoApics

end HaiirOS
