import Mathlib.Data.Nat.Find
import Mathlib.Tactic.ByContra

/-!
# The local APIC of a processor

Fixed interrupts: of the vectors that are requested the highest one is next, as long as its class, the upper four
bits, is above those of all vectors in service.
-/

namespace X86

structure LocalApic where
  irr : BitVec 8 → Bool
  isr : BitVec 8 → Bool

namespace LocalApic

/-- The class of a vector. -/
def level (v : BitVec 8) : Nat := v.toNat / 16

def request (a : LocalApic) (v : BitVec 8) : LocalApic := { a with irr := fun w => a.irr w || decide (w = v) }

/-- The vector that the processor is interrupted with. -/
structure Next (a : LocalApic) (v : BitVec 8) : Prop where
  requested : a.irr v = true
  above : ∀ w, a.isr w = true → level w < level v
  highest : ∀ w, a.irr w = true → w ≤ v

/-- The processor takes the interrupt. -/
def take (a : LocalApic) (v : BitVec 8) : LocalApic where
  irr w := a.irr w && !decide (w = v)
  isr w := a.isr w || decide (w = v)

/-- A write to the EOI register ends the highest interrupt in service. -/
def eoi (a : LocalApic) : LocalApic := { a with isr := fun w => a.isr w && decide (∃ j, a.isr j = true ∧ w < j) }

variable {a : LocalApic} {v : BitVec 8}

lemma level_mono {w : BitVec 8} (h : w ≤ v) : level w ≤ level v := Nat.div_le_div_right h

lemma Next.free (h : a.Next v) : a.isr v = false := by
  cases hv : a.isr v with
  | true => exact absurd (h.above v hv) (Nat.lt_irrefl _)
  | false => rfl

/-- The end of the interrupt that was taken last. -/
lemma take_eoi (h : a.Next v) : (a.take v).eoi.isr = a.isr := by
  funext w
  unfold eoi take
  dsimp only
  by_cases hw : w = v
  · have hnone : ¬ ∃ j, (a.isr j || decide (j = v)) = true ∧ w < j := by
      rintro ⟨j, hj, hlt⟩
      rw [Bool.or_eq_true, decide_eq_true_eq] at hj
      obtain hj | rfl := hj
      · have hle := level_mono (BitVec.le_of_lt hlt)
        have hlevel := h.above j hj
        rw [hw] at hle
        exact absurd hlevel (Nat.not_lt.mpr hle)
      · exact BitVec.lt_irrefl w (hw ▸ hlt)
    rw [decide_eq_false hnone, Bool.and_false, hw, h.free]
  · rw [decide_eq_false hw, Bool.or_false]
    cases hisr : a.isr w with
    | false => rfl
    | true =>
      have hlt : w < v := by
        have hlevel := h.above w hisr
        by_contra hge
        exact absurd hlevel (Nat.not_lt.mpr (level_mono (BitVec.not_lt.mp hge)))
      have hbelow : ∃ j, (a.isr j || decide (j = v)) = true ∧ w < j := ⟨v, by rw [decide_eq_true rfl, Bool.or_true], hlt⟩
      rw [decide_eq_true hbelow, Bool.true_and]

/-- With nothing in service some request is next. -/
lemma exists_next (hidle : ∀ w, a.isr w = false) (h : ∃ w, a.irr w = true) : ∃ v, a.Next v := by
  obtain ⟨w, hw⟩ := h
  let P (n : Nat) : Prop := a.irr (BitVec.ofNat 8 n) = true
  have hof (v : BitVec 8) : BitVec.ofNat 8 v.toNat = v := by rw [BitVec.ofNat_toNat, BitVec.setWidth_eq]
  have hle (v : BitVec 8) : v.toNat ≤ 255 := Nat.le_of_lt_succ v.isLt
  have hP : P w.toNat := by
    change a.irr _ = true
    rw [hof, hw]
  have hgreatest := Nat.findGreatest_le (P := P) 255
  refine ⟨BitVec.ofNat 8 (Nat.findGreatest P 255), Nat.findGreatest_spec (hle w) hP, fun v hv => ?_, fun v hv => ?_⟩
  · exact absurd hv (Bool.eq_false_iff.mp (hidle v))
  · have hPv : P v.toNat := by
      change a.irr _ = true
      rw [hof, hv]
    rw [BitVec.le_def, BitVec.toNat_ofNat, Nat.mod_eq_of_lt (by omega)]
    exact Nat.le_findGreatest (hle v) hPv

end LocalApic

end X86
