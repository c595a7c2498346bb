import HaiirOS.Interrupt.IoApic
import HaiirOS.Lib.Checked

/-!
# The operations of the IOAPIC driver

What each operation changes. The operations on a vector agree on the line that it is wired to in
one place only: `enable_io_interrupt` resolves the overrides.
-/

namespace HaiirOS

namespace IoApics

open Checked

variable {H : Type}

/-- The GSI that a vector is wired to. -/
def wired (s : IoApics H) (v : BitVec 8) : BitVec 8 :=
  match (if v.toNat < isaInterruptCount then s.overrides v else none) with
  | some override => override.globalSystemInt.setWidth 8
  | none => v

/-- The index of a GSI's entry in its IOAPIC. -/
def entryIdx (ioapic : IoApic) (gsi : BitVec 8) : BitVec 8 := (gsi.setWidth 32 - ioapic.gsiBase).setWidth 8

/-- Handler slots as they are before and after a driver uses them. -/
def emptyHandler : IoHandler H := ⟨none, 0#64, 0#8⟩

/-- The slot has no handler; this is the test of `install_io_interrupt_handler`. -/
def SlotEmpty (s : IoApics H) (v : BitVec 8) : Prop :=
  (s.handlers v).func.isNone ∧ (s.handlers v).vector = 0#8 ∧ (s.handlers v).data = 0#64

instance (s : IoApics H) (v : BitVec 8) : Decidable (s.SlotEmpty v) := inferInstanceAs (Decidable (_ ∧ _ ∧ _))

section Fields

variable (s : IoApics H) (ioapic : IoApic) (idx : BitVec 8) (entry : BitVec 64)

lemma getIoApic_congr {s t : IoApics H} (h : s.ioapics = t.ioapics) (gsi : BitVec 8) :
    s.getIoApic gsi = t.getIoApic gsi := by
  unfold getIoApic
  rw [h]

lemma wired_congr {s t : IoApics H} (h : s.overrides = t.overrides) (v : BitVec 8) : s.wired v = t.wired v := by
  unfold wired
  rw [h]

end Fields

/-- The entry of a GSI with its mask bit cleared. -/
def unmask (s : IoApics H) (ioapic : IoApic) (gsi : BitVec 8) : IoApics H :=
  s.writeEntry ioapic (entryIdx ioapic gsi) (s.readEntry ioapic (entryIdx ioapic gsi) &&& ~~~ioApicMasked)

/-- The entry of a GSI with its mask bit set. -/
def mask (s : IoApics H) (ioapic : IoApic) (gsi : BitVec 8) : IoApics H :=
  s.writeEntry ioapic (entryIdx ioapic gsi) (s.readEntry ioapic (entryIdx ioapic gsi) ||| ioApicMasked)

lemma enableIoInterrupt_eq (s : IoApics H) (v : BitVec 8) :
    s.enableIoInterrupt v = match s.getIoApic (s.wired v) with
      | none => .error .nullIoApic
      | some ioapic => .ok (s.unmask ioapic (s.wired v)) := rfl

lemma disableIoInterrupt_eq (s : IoApics H) (v : BitVec 8) :
    s.disableIoInterrupt v = match s.getIoApic v with
      | none => .error .nullIoApic
      | some ioapic => .ok (s.mask ioapic v) := rfl

/-- The state with a handler stored. -/
def setHandler (s : IoApics H) (v : BitVec 8) (handler : IoHandler H) : IoApics H :=
  { s with handlers := Function.update s.handlers v handler }

/-- Each ISA interrupt's GSI has an IOAPIC. -/
def Covered (s : IoApics H) : Prop := ∀ g : BitVec 8, g.toNat < isaInterruptCount → (s.getIoApic g).isSome

lemma Covered.congr {s t : IoApics H} (hs : s.Covered) (h : t.ioapics = s.ioapics) : t.Covered := by
  intro g hg
  rw [getIoApic_congr h]
  exact hs g hg

section Registers

lemma low_of_entry (high low : BitVec 32) :
    ((high.setWidth 64 <<< 32) ||| low.setWidth 64 : BitVec 64).setWidth 32 = low := by
  apply BitVec.eq_of_getLsbD_eq
  intro i hi
  simp [hi]

lemma high_of_entry (high low : BitVec 32) :
    (((high.setWidth 64 <<< 32) ||| low.setWidth 64 : BitVec 64) >>> 32).setWidth 32 = high := by
  apply BitVec.eq_of_getLsbD_eq
  intro i hi
  have hlt : i < 64 := by omega
  have hshift : 32 + i < 64 := by omega
  simp [hi, hlt, hshift]

/-- The registers with the low half of an entry are not those with a high half. -/
lemma redtbl_ne_high (i j : BitVec 8) : ioApicRedtblOffset i + 1#8 ≠ ioApicRedtblOffset j := by
  intro h
  have hnat := congrArg BitVec.toNat h
  simp only [ioApicRedtblOffset, BitVec.toNat_add, BitVec.toNat_mul, BitVec.toNat_ofNat] at hnat
  omega

lemma writeReg_self (s : IoApics H) (a : BitVec 32) (r : BitVec 8) : s.writeReg a r (s.regs a r) = s := by
  unfold writeReg
  rw [Function.update_eq_self, Function.update_eq_self]

lemma writeReg_regs (s : IoApics H) (a a' : BitVec 32) (r r' : BitVec 8) (v : BitVec 32) :
    (s.writeReg a r v).regs a' r' = if a' = a ∧ r' = r then v else s.regs a' r' := by
  unfold writeReg
  by_cases ha : a' = a
  · subst ha
    by_cases hr : r' = r
    · subst hr
      simp
    · simp [hr]
  · simp [ha]

/-- An entry written back with other low half changes the low register only. -/
lemma writeEntry_eq (s : IoApics H) (ioapic : IoApic) (idx : BitVec 8) {entry : BitVec 64}
    (h : (entry >>> 32).setWidth 32 = s.regs ioapic.addr (ioApicRedtblOffset idx + 1#8)) :
    s.writeEntry ioapic idx entry = s.writeReg ioapic.addr (ioApicRedtblOffset idx) (entry.setWidth 32) := by
  have hhigh : (s.writeReg ioapic.addr (ioApicRedtblOffset idx) (entry.setWidth 32)).regs ioapic.addr
      (ioApicRedtblOffset idx + 1#8) = s.regs ioapic.addr (ioApicRedtblOffset idx + 1#8) := by
    rw [writeReg_regs, if_neg fun hr => redtbl_ne_high idx idx hr.2]
  unfold writeEntry
  rw [h, ← hhigh, writeReg_self]

lemma unmask_eq (s : IoApics H) (ioapic : IoApic) (gsi : BitVec 8) :
    s.unmask ioapic gsi = s.writeReg ioapic.addr (ioApicRedtblOffset (entryIdx ioapic gsi))
      (s.regs ioapic.addr (ioApicRedtblOffset (entryIdx ioapic gsi)) &&& ~~~(1#32 <<< 16)) := by
  unfold unmask readEntry
  rw [writeEntry_eq]
  · rw [BitVec.setWidth_and, low_of_entry]
    rfl
  · rw [BitVec.ushiftRight_and_distrib, BitVec.setWidth_and, high_of_entry]
    exact BitVec.and_allOnes

lemma mask_eq (s : IoApics H) (ioapic : IoApic) (gsi : BitVec 8) :
    s.mask ioapic gsi = s.writeReg ioapic.addr (ioApicRedtblOffset (entryIdx ioapic gsi))
      (s.regs ioapic.addr (ioApicRedtblOffset (entryIdx ioapic gsi)) ||| (1#32 <<< 16)) := by
  unfold mask readEntry
  rw [writeEntry_eq]
  · rw [BitVec.setWidth_or, low_of_entry]
    rfl
  · rw [BitVec.ushiftRight_or_distrib, BitVec.setWidth_or, high_of_entry]
    exact BitVec.or_zero

end Registers

section Install

variable {s : IoApics H} {v : BitVec 8} {handler : Option (IoFunc H)} {data : BitVec 64}

lemma install_invalid (h : ioVectorCount ≤ v.toNat) : s.installIoInterruptHandler v handler data = .ok (false, s) :=
  if_pos h

lemma install_occupied (h : ¬ s.SlotEmpty v) : s.installIoInterruptHandler v handler data = .ok (false, s) := by
  unfold installIoInterruptHandler
  by_cases hv : v.toNat ≥ ioVectorCount
  · exact if_pos hv
  · rw [if_neg hv]
    exact if_neg h

lemma install_empty (handler : Option (IoFunc H)) (data : BitVec 64) (hv : v.toNat < ioVectorCount) (h : s.SlotEmpty v)
    {ioapic : IoApic} (hio : s.getIoApic (s.wired v) = some ioapic) :
    s.installIoInterruptHandler v handler data =
      .ok (true, (s.setHandler v ⟨handler, data, v⟩).unmask ioapic (s.wired v)) := by
  have hget : (s.setHandler v ⟨handler, data, v⟩).getIoApic ((s.setHandler v ⟨handler, data, v⟩).wired v) = some ioapic :=
    hio
  unfold installIoInterruptHandler
  rw [if_neg (Nat.not_le.mpr hv)]
  refine (if_pos h).trans ?_
  change ((s.setHandler v ⟨handler, data, v⟩).enableIoInterrupt v >>= _) = _
  rw [enableIoInterrupt_eq, hget]
  rfl

lemma install_unbacked (hv : v.toNat < ioVectorCount) (h : s.SlotEmpty v) (hio : s.getIoApic (s.wired v) = none) :
    s.installIoInterruptHandler v handler data = .error .nullIoApic := by
  have hget : (s.setHandler v ⟨handler, data, v⟩).getIoApic ((s.setHandler v ⟨handler, data, v⟩).wired v) = none := hio
  unfold installIoInterruptHandler
  rw [if_neg (Nat.not_le.mpr hv)]
  refine (if_pos h).trans ?_
  change ((s.setHandler v ⟨handler, data, v⟩).enableIoInterrupt v >>= _) = _
  rw [enableIoInterrupt_eq, hget]
  rfl

/-- A handler is installed in no other way. -/
lemma install_cases {r : Bool} {s' : IoApics H} (h : s.installIoInterruptHandler v handler data = .ok (r, s')) :
    (r = false ∧ s' = s ∧ (ioVectorCount ≤ v.toNat ∨ ¬ s.SlotEmpty v)) ∨
    (r = true ∧ v.toNat < ioVectorCount ∧ s.SlotEmpty v ∧ ∃ ioapic, s.getIoApic (s.wired v) = some ioapic ∧
      s' = (s.setHandler v ⟨handler, data, v⟩).unmask ioapic (s.wired v)) := by
  by_cases hv : v.toNat < ioVectorCount
  · by_cases hempty : s.SlotEmpty v
    · cases hio : s.getIoApic (s.wired v) with
      | none =>
        rw [install_unbacked hv hempty hio] at h
        cases h
      | some ioapic =>
        rw [install_empty _ _ hv hempty hio] at h
        cases h
        exact .inr ⟨rfl, hv, hempty, ioapic, rfl, rfl⟩
    · rw [install_occupied hempty] at h
      cases h
      exact .inl ⟨rfl, rfl, .inr hempty⟩
  · rw [install_invalid (Nat.not_lt.mp hv)] at h
    cases h
    exact .inl ⟨rfl, rfl, .inl (Nat.not_lt.mp hv)⟩

lemma remove_invalid (h : ioVectorCount ≤ v.toNat) : s.removeIoInterruptHandler v = .ok (false, s) := if_pos h

lemma remove_valid (hv : v.toNat < ioVectorCount) {ioapic : IoApic} (hio : s.getIoApic v = some ioapic) :
    s.removeIoInterruptHandler v = .ok (true, (s.setHandler v emptyHandler).mask ioapic v) := by
  have hget : (s.setHandler v emptyHandler).getIoApic v = some ioapic := hio
  unfold removeIoInterruptHandler
  rw [if_neg (Nat.not_le.mpr hv)]
  change ((s.setHandler v emptyHandler).disableIoInterrupt v >>= _) = _
  rw [disableIoInterrupt_eq, hget]
  rfl

lemma remove_unbacked (hv : v.toNat < ioVectorCount) (hio : s.getIoApic v = none) :
    s.removeIoInterruptHandler v = .error .nullIoApic := by
  have hget : (s.setHandler v emptyHandler).getIoApic v = none := hio
  unfold removeIoInterruptHandler
  rw [if_neg (Nat.not_le.mpr hv)]
  change ((s.setHandler v emptyHandler).disableIoInterrupt v >>= _) = _
  rw [disableIoInterrupt_eq, hget]
  rfl

end Install

section Dispatch

variable {s : IoApics H} {v : BitVec 8}

lemma exec_driver (hv : v.toNat < ioVectorCount) {h : H} (hfunc : (s.handlers v).func = some (.driver h)) (fuel : Nat) :
    s.execIoHandler (fuel + 1) v = .ok [.call h (s.handlers v).data] := by
  rw [execIoHandler, if_neg (Nat.not_le.mpr hv), hfunc]

lemma exec_forward (hv : v.toNat < ioVectorCount) (hfunc : (s.handlers v).func = some .ioHandlerSourceOverride)
    (fuel : Nat) : s.execIoHandler (fuel + 1) v = s.execIoHandler fuel ((s.handlers v).data.setWidth 8) := by
  rw [execIoHandler, if_neg (Nat.not_le.mpr hv), hfunc]

lemma interrupt_eq {gsi : BitVec 8} (hg : gsi.toNat < ioVectorCount) {fuel : Nat} {events : List (IrqEvent H)}
    (h : s.execIoHandler fuel gsi = .ok events) :
    s.apicInterruptHandler fuel (interruptBase + gsi) = .ok (events ++ [.eoi]) := by
  have hlt : ¬ interruptBase + gsi < interruptBase := by
    have hcount : ioVectorCount = 224 := rfl
    rw [BitVec.lt_def, BitVec.toNat_add]
    simp only [interruptBase, BitVec.toNat_ofNat]
    omega
  rw [apicInterruptHandler, if_neg hlt, BitVec.add_comm, BitVec.add_sub_cancel, h]
  rfl

end Dispatch

end IoApics

end HaiirOS
