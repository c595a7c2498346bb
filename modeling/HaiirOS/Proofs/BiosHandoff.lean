import HaiirOS.Driver.BiosHandoff
import HaiirOS.Lib.Words
import Mathlib.Tactic.SplitIfs

/-!
# When the controllers are handed over

The AHCI driver waits for the BIOS to own the controller where it means to wait for it not to, and
then takes the bit that it has set itself for a failure: it never takes a controller over from a BIOS that
plays by the rules. The xHCI driver follows a list in the registers from the low half of their
address on, also where there is no list.
-/

namespace HaiirOS

/-! ### AHCI -/

/-- The reads of BOHC under a conforming BIOS: the OS-owned bit stays as the driver has set it, the BIOS owns the controller
until it releases it for good at read `n`, and two reads later it is not busy any more. -/
structure ConformingBios (bohc : Nat → BitVec 32) : Prop where
  osOwned : ∀ k, 1 ≤ k → (bohc k).getLsbD 1 = true
  released : ∃ n, (∀ k, 1 ≤ k → ((bohc k).getLsbD 0 = true ↔ k < n)) ∧ ∀ k, n + 2 ≤ k → (bohc k).getLsbD 4 = false

/-- The controller is taken over from a conforming BIOS; and whenever it is, the two reads of the final check show
it owned by the OS, not by the BIOS and not busy. -/
def AhciHandoffRight (cap2 : BitVec 32) (bohc : Nat → BitVec 32) : Prop :=
  (cap2.getLsbD 0 = true → ConformingBios bohc → ∃ fuel r, ahciBiosHandoff fuel cap2 bohc = some r ∧ r.handedOff = true) ∧
    ∀ fuel r, ahciBiosHandoff fuel cap2 bohc = some r → r.handedOff = true → ∀ k, r.reads ≤ k → k ≤ r.reads + 1 →
      (bohc k).getLsbD 1 = true ∧ (bohc k).getLsbD 0 = false ∧ (bohc k).getLsbD 4 = false

/-- The BIOS is seen to own the controller for the first time at read `k`, the read after the next one finds the bits 0, 1 and 3
clear, and the one after that finds bit 1 set. -/
def Flickers (cap2 : BitVec 32) (bohc : Nat → BitVec 32) : Prop :=
  cap2.getLsbD 0 = true ∧ ∃ k, 1 ≤ k ∧ (∀ j, 1 ≤ j → j < k → (bohc j).getLsbD 0 = false) ∧ (bohc k).getLsbD 0 = true ∧
    bohc (k + 2) &&& 11#32 = 0#32 ∧ (bohc (k + 3)).getLsbD 1 = true

section Ahci

variable {cap2 : BitVec 32} {bohc : Nat → BitVec 32} {fuel k n : Nat}

lemma and_one_eq_zero_iff (v : BitVec 32) : v &&& 1#32 = 0#32 ↔ v.getLsbD 0 = false := by
  rw [BitVec.and_one_eq_setWidth_ofBool_getLsbD]
  cases v.getLsbD 0 <;> decide

lemma and_two_eq_zero_iff (v : BitVec 32) : v &&& (1#32 <<< 1) = 0#32 ↔ v.getLsbD 1 = false := by
  have hmask : (1#32 <<< 1) = BitVec.twoPow 32 1 := by decide
  rw [hmask, BitVec.and_twoPow]
  cases v.getLsbD 1 <;> decide

/-- The loop ends at the first read that shows the BIOS as the owner. -/
lemma pollBohc_eq_some (h : pollBohc bohc fuel k = some n) : k < n ∧
    (∀ j, k ≤ j → j + 1 < n → (bohc j).getLsbD 0 = false) ∧ (bohc (n - 1)).getLsbD 0 = true := by
  induction fuel generalizing k with
  | zero => cases h
  | succ fuel ih =>
    rw [pollBohc] at h
    simp only [and_one_eq_zero_iff] at h
    split_ifs at h with h0
    · obtain ⟨hlt, hbefore, hlast⟩ := ih h
      refine ⟨by omega, fun j hj hjn => ?_, hlast⟩
      by_cases hjk : j = k
      · rw [hjk]
        exact h0
      · exact hbefore j (by omega) hjn
    · obtain rfl : k + 1 = n := Option.some.inj h
      refine ⟨Nat.lt_succ_self k, fun j hj hjn => by omega, ?_⟩
      rw [Nat.add_sub_cancel]
      exact (Bool.not_eq_false _).mp h0

lemma pollBohc_of_first (hbefore : ∀ j, k ≤ j → j < k + n → (bohc j).getLsbD 0 = false)
    (hfirst : (bohc (k + n)).getLsbD 0 = true) : pollBohc bohc (n + 1) k = some (k + n + 1) := by
  induction n generalizing k with
  | zero =>
    have hset : ¬ bohc k &&& 1#32 = 0#32 := by
      rw [and_one_eq_zero_iff]
      exact fun h => Bool.noConfusion (h.symm.trans hfirst)
    rw [pollBohc, if_neg hset]
  | succ n ih =>
    rw [pollBohc, if_pos ((and_one_eq_zero_iff _).mpr (hbefore k (Nat.le_refl k) (by omega)))]
    have hshift : k + 1 + n = k + (n + 1) := by omega
    rw [← hshift]
    exact ih (fun j hj hjn => hbefore j (by omega) (by omega)) (by rwa [hshift])

/-- The driver takes the controller over exactly if the OS-owned bit that it has set is gone at the first read of
its final check. -/
lemma ahciBiosHandoff_true_iff :
    (∃ fuel r, ahciBiosHandoff fuel cap2 bohc = some r ∧ r.handedOff = true) ↔ Flickers cap2 bohc := by
  constructor
  · rintro ⟨fuel, r, hrun, htrue⟩
    rw [ahciBiosHandoff] at hrun
    simp only [and_one_eq_zero_iff] at hrun
    split_ifs at hrun with hcap
    · cases hrun
      cases htrue
    · obtain ⟨n, hpoll, hr⟩ := Option.bind_eq_some_iff.mp hrun
      obtain ⟨hn, hbefore, hlast⟩ := pollBohc_eq_some hpoll
      cases hr
      simp only [Bool.not_eq_eq_eq_not, Bool.not_true, decide_eq_false_iff_not, not_or, not_not, ne_eq,
        and_two_eq_zero_iff, Bool.not_eq_false] at htrue
      have h2 : n - 1 + 2 = n + 1 := by omega
      have h3 : n - 1 + 3 = n + 1 + 1 := by omega
      refine ⟨(Bool.not_eq_false _).mp hcap, n - 1, by omega, fun j hj hjn => hbefore j hj (by omega), hlast, ?_⟩
      rw [h2, h3]
      exact htrue
  · rintro ⟨hcap, k, hk, hbefore, hfirst, hclear, hset⟩
    have hsum : 1 + (k - 1) = k := by omega
    have hpoll := @pollBohc_of_first bohc 1 (k - 1) (fun j hj hjk => hbefore j hj (by omega)) (by rwa [hsum])
    rw [hsum] at hpoll
    have hcap' : ¬ cap2 &&& 1#32 = 0#32 := by
      rw [and_one_eq_zero_iff, hcap]
      decide
    have hset' : ¬ bohc (k + 1 + 1 + 1) &&& (1#32 <<< 1) = 0#32 := by
      rw [and_two_eq_zero_iff]
      exact fun h => Bool.noConfusion (h.symm.trans hset)
    refine ⟨k - 1 + 1, ⟨true, [bohc 0 ||| (1#32 <<< 1)], k + 2⟩, ?_, rfl⟩
    rw [ahciBiosHandoff, if_neg hcap']
    simp only [hpoll, Option.bind_eq_bind, Option.bind_some, hclear, ne_eq, not_true_eq_false, false_or, hset', decide_false,
      Bool.not_false]
    rfl

lemma Flickers.not_conforming (h : Flickers cap2 bohc) : ¬ ConformingBios bohc := by
  obtain ⟨-, k, hk, -, -, hclear, -⟩ := h
  intro hbios
  have hbit := congrArg (fun v => v.getLsbD 1) hclear
  have hmask : (11#32).getLsbD 1 = true := by decide
  simp only [BitVec.getLsbD_and, hbios.osOwned (k + 2) (by omega), hmask, Bool.and_self, BitVec.getLsbD_zero] at hbit
  cases hbit

/-- The hand-off is right exactly where there is no conforming BIOS to hand it off, and the OS-owned bit does not go and come
back while it is checked. -/
theorem ahciHandoffRight_iff (cap2 : BitVec 32) (bohc : Nat → BitVec 32) : AhciHandoffRight cap2 bohc ↔
    ¬ (cap2.getLsbD 0 = true ∧ ConformingBios bohc) ∧ ¬ Flickers cap2 bohc := by
  constructor
  · rintro ⟨htakes, honly⟩
    refine ⟨fun ⟨hcap, hbios⟩ => ?_, fun hflicker => ?_⟩
    · exact (ahciBiosHandoff_true_iff.mp (htakes hcap hbios)).not_conforming hbios
    · obtain ⟨fuel, r, hrun, htrue⟩ := ahciBiosHandoff_true_iff.mpr hflicker
      have hset := (honly fuel r hrun htrue r.reads (Nat.le_refl _) (Nat.le_succ _)).1
      rw [ahciBiosHandoff] at hrun
      split_ifs at hrun
      · cases hrun
        cases htrue
      · obtain ⟨n, -, hr⟩ := Option.bind_eq_some_iff.mp hrun
        cases hr
        simp only [Bool.not_eq_eq_eq_not, Bool.not_true, decide_eq_false_iff_not, not_or, not_not, ne_eq] at htrue
        have hbit := congrArg (fun v => v.getLsbD 1) htrue.1
        have hmask : (11#32).getLsbD 1 = true := by decide
        simp only [BitVec.getLsbD_and, hset, hmask, Bool.and_self, BitVec.getLsbD_zero] at hbit
        cases hbit
  · rintro ⟨hbios, hflicker⟩
    refine ⟨fun hcap hconform => (hbios ⟨hcap, hconform⟩).elim, fun fuel r hrun htrue => ?_⟩
    exact (hflicker (ahciBiosHandoff_true_iff.mp ⟨fuel, r, hrun, htrue⟩)).elim

/-- A BIOS that does not own the controller conforms, and the driver waits for it for ever. -/
theorem not_ahciHandoffRight : ¬ AhciHandoffRight 1#32 fun _ => 2#32 := by
  intro h
  have hbios : ConformingBios fun _ => 2#32 := by
    refine ⟨fun _ _ => by decide, 0, fun k hk => iff_of_false (by decide) (by omega), fun _ _ => by decide⟩
  have htakes := ahciBiosHandoff_true_iff.mp (h.1 (by decide) hbios)
  exact htakes.not_conforming hbios

end Ahci

/-! ### xHCI -/

/-- The dword at `a` lies in the register BAR. -/
def PciBar.Has (bar : PciBar) (a : BitVec 64) : Prop :=
  bar.base.toNat ≤ a.toNat ∧ a.toNat + 4 ≤ bar.base.toNat + bar.size.toNat

/-- The list from one capability on has another. -/
inductive Listed (mem : BitVec 64 → BitVec 32) : BitVec 64 → BitVec 64 → Prop where
  | here (a : BitVec 64) : Listed mem a a
  | next {a b : BitVec 64} : xecpNext (mem a) ≠ 0#32 → Listed mem (nextXecp mem a) b → Listed mem a b

/-- The other is not behind the first legacy support capability. -/
inductive Visited (mem : BitVec 64 → BitVec 32) : BitVec 64 → BitVec 64 → Prop where
  | here (a : BitVec 64) : Visited mem a a
  | next {a b : BitVec 64} : xecpId (mem a) ≠ xecpLegsupId → xecpNext (mem a) ≠ 0#32 →
      Visited mem (nextXecp mem a) b → Visited mem a b

namespace PciBar

variable (bar : PciBar) (mem : BitVec 64 → BitVec 32)

/-- The dword offset of the first extended capability, 0 for none. -/
def xecp : BitVec 32 := hccXecp (mem (bar.base + 0x10#64))

end PciBar

section Xhci

variable {bar : PciBar} {mem : BitVec 64 → BitVec 32} {legsup : Nat → BitVec 32} {fuel n k : Nat} {a b c : BitVec 64}
  {found : Option (BitVec 64)} {trace : List DwordAccess}

lemma Visited.listed (h : Visited mem a b) : Listed mem a b := by
  induction h with
  | here a => exact .here a
  | next _ hnext _ ih => exact .next hnext ih

end Xhci

end HaiirOS
