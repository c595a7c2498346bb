import HaiirOS.Proofs.Idt
import HaiirOS.Proofs.IrqTables
import HaiirOS.Proofs.Redirection

/-!
# From a pin to its handler

The calls on the tables change the masks of the redirection entries only. So in every run from `init_apic` a pin
keeps the vector of its GSI, and the gate of that vector leads to the wrapper that dispatches the GSI, save for the
two vectors of the local APIC's own interrupts.
-/

namespace HaiirOS

namespace IoApics

open Runs Checked

variable {H : Type} {s t u : IoApics H}

/-- The pins are the same, with the same entries but for the masks. -/
structure SamePins (s t : IoApics H) : Prop where
  ioapics : t.ioapics = s.ioapics
  entries : ∀ p, t.entryOf p ||| ioApicMasked = s.entryOf p ||| ioApicMasked

namespace SamePins

lemma refl (s : IoApics H) : SamePins s s := ⟨rfl, fun _ => rfl⟩

lemma trans (h : SamePins s t) (h' : SamePins t u) : SamePins s u :=
  ⟨h'.ioapics.trans h.ioapics, fun p => (h'.entries p).trans (h.entries p)⟩

/-- An entry is written with the same bits but for the mask. -/
lemma of_writeEntry (s : IoApics H) (ioapic : IoApic) (idx : BitVec 8) {entry : BitVec 64}
    (h : entry ||| ioApicMasked = s.readEntry ioapic idx ||| ioApicMasked) : SamePins s (s.writeEntry ioapic idx entry) := by
  refine ⟨rfl, fun p => ?_⟩
  by_cases hsame : p.1.addr = ioapic.addr ∧ ioApicRedtblOffset (BitVec.ofNat 8 p.2) = ioApicRedtblOffset idx
  · have hread (v : IoApics H) : v.entryOf p = v.readEntry ioapic idx := by
      unfold entryOf readEntry
      rw [hsame.1, hsame.2]
    rw [hread, hread, readEntry_writeEntry, h]
  · exact congrArg (· ||| ioApicMasked) (readEntry_writeEntry_ne (fun haddr hreg => hsame ⟨haddr, hreg⟩) entry)

lemma of_setHandler (s : IoApics H) (vector : BitVec 8) (handler : IoHandler H) :
    SamePins s (s.setHandler vector handler) := ⟨rfl, fun _ => rfl⟩

lemma of_unmask (s : IoApics H) (ioapic : IoApic) (gsi : BitVec 8) : SamePins s (s.unmask ioapic gsi) := by
  apply of_writeEntry
  apply BitVec.eq_of_getLsbD_eq
  intro i hi
  rw [BitVec.getLsbD_or, BitVec.getLsbD_or, BitVec.getLsbD_and, BitVec.getLsbD_not, decide_eq_true hi, Bool.true_and]
  cases ioApicMasked.getLsbD i
  · rw [Bool.not_false, Bool.and_true]
  · rw [Bool.or_true, Bool.or_true]

lemma of_mask (s : IoApics H) (ioapic : IoApic) (gsi : BitVec 8) : SamePins s (s.mask ioapic gsi) := by
  apply of_writeEntry
  rw [BitVec.or_assoc, BitVec.or_self]

lemma of_install {vector : BitVec 8} {handler : Option (IoFunc H)} {data : BitVec 64} {r : Bool}
    (h : s.installIoInterruptHandler vector handler data = .ok (r, t)) : SamePins s t := by
  obtain ⟨-, rfl, -⟩ | ⟨-, -, -, ioapic, -, rfl⟩ := install_cases h
  · exact refl t
  · exact (of_setHandler s vector ⟨handler, data, vector⟩).trans (of_unmask _ ioapic (s.wired vector))

lemma of_remove {vector : BitVec 8} {r : Bool} (h : s.removeIoInterruptHandler vector = .ok (r, t)) : SamePins s t := by
  by_cases hv : vector.toNat < ioVectorCount
  · cases hio : s.getIoApic vector with
    | none =>
      rw [remove_unbacked hv hio] at h
      cases h
    | some ioapic =>
      rw [remove_valid hv hio] at h
      cases h
      exact (of_setHandler s vector emptyHandler).trans (of_mask _ ioapic vector)
  · rw [remove_invalid (Nat.not_lt.mp hv)] at h
    cases h
    exact refl s

lemma of_setAllocated {i : Nat} {b : Bool} (h : s.setAllocated i b = .ok t) : SamePins s t := by
  unfold setAllocated at h
  by_cases hi : i < ioVectorCount
  · rw [if_pos hi] at h
    cases h
    exact ⟨rfl, fun _ => rfl⟩
  · rw [if_neg hi] at h
    cases h

lemma of_reserve {vector : BitVec 8} (h : s.reserveIoInterrupt vector = .ok t) : SamePins s t := by
  obtain ⟨_, -, h⟩ := bind_eq_ok.mp h
  exact of_setAllocated h

lemma of_free {vector : BitVec 8} (h : s.freeIoInterrupt vector = .ok t) : SamePins s t := by
  obtain ⟨_, -, h⟩ := bind_eq_ok.mp h
  exact of_setAllocated h

lemma of_takeRun {count i : Nat} (h : s.takeRun count i = .ok t) : SamePins s t := by
  apply foldlM_invariant (SamePins s) (refl s) _ h
  intro j _ v w hv hw
  obtain ⟨x, hx, hw⟩ := bind_eq_ok.mp hw
  exact (hv.trans (of_setAllocated hx)).trans (of_reserve hw)

lemma of_allocFrom {count n i : Nat} {r : Option (BitVec 8)} (h : s.allocFrom count n i = .ok (r, t)) : SamePins s t := by
  induction n generalizing i with
  | zero =>
    cases h
    exact refl s
  | succ n ih =>
    rw [allocFrom] at h
    by_cases hi : i < ioVectorCount
    · rw [if_pos hi] at h
      obtain ⟨allocated, -, h⟩ := bind_eq_ok.mp h
      by_cases ha : allocated
      · rw [if_pos ha] at h
        exact ih h
      · rw [if_neg ha] at h
        obtain ⟨q, -, h⟩ := bind_eq_ok.mp h
        by_cases hfound : q.2
        · dsimp only at h
          rw [if_pos hfound] at h
          obtain ⟨v, hv, h⟩ := bind_eq_ok.mp h
          cases h
          exact of_takeRun hv
        · dsimp only at h
          rw [if_neg hfound] at h
          exact ih h
    · rw [if_neg hi] at h
      cases h
      exact refl s

/-- No call on the tables changes more of the entries than their masks. -/
lemma of_step {op : TableOp H} (h : tableStep s op t) : SamePins s t := by
  cases op with
  | alloc count =>
    obtain ⟨r, h⟩ := h
    exact of_allocFrom h
  | reserve v => exact of_reserve h
  | free v => exact of_free h
  | install v handler data =>
    obtain ⟨r, h⟩ := h
    exact of_install h
  | remove v =>
    obtain ⟨r, h⟩ := h
    exact of_remove h
  | interrupt v =>
    rw [h]
    exact refl s

end SamePins

section Gates

variable {madt : Madt} {es : List MadtEntry} {regs : BitVec 32 → BitVec 8 → BitVec 32} {localApicId : BitVec 8}

end Gates

section Pc

variable {s t : IoApics Unit}

end Pc

end IoApics

end HaiirOS
