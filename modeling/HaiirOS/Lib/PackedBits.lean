import Mathlib.Algebra.Group.Nat.Defs
import Mathlib.Logic.Function.Basic
import Mathlib.Tactic.SplitIfs
import Mathlib.Tactic.Push

/-!
# Packed bit sets

A set of natural numbers kept eight to a byte, the smallest number of each byte in its
most significant bit. Single bytes are rewritten under a mask; a mask that covers a run
of positions is one of the three shifted patterns below.
-/

namespace PackedBits

/-- Position `f` is bit `7 - f % 8` of byte `f / 8`. -/
def member (m : Nat → BitVec 8) (f : Nat) : Bool := (m (f / 8)).getLsbD (7 - f % 8)

/-- `put` gives the bits under its mask the value `v` and keeps the others. -/
def Paints (put : BitVec 8 → BitVec 8 → BitVec 8) (v : Bool) : Prop :=
  ∀ b mask i, (put b mask).getLsbD i = if mask.getLsbD i then v else b.getLsbD i

lemma paints_or : Paints (fun b mask => b ||| mask) true := by
  intro b mask i
  cases h : mask.getLsbD i <;> simp [h]

lemma paints_and_not : Paints (fun b mask => b &&& ~~~mask) false := by
  intro b mask i
  by_cases hi : i < 8
  · cases h : mask.getLsbD i <;> simp only [BitVec.getLsbD_and, BitVec.getLsbD_not, h, hi] <;> simp
  · simp [BitVec.getLsbD_of_ge b i (by omega)]

lemma member_update (m : Nat → BitVec 8) (i : Nat) (b : BitVec 8) (f : Nat) :
    member (Function.update m i b) f = if f / 8 = i then b.getLsbD (7 - f % 8) else member m f := by
  unfold member
  by_cases h : f / 8 = i
  · rw [if_pos h, h, Function.update_self]
  · rw [if_neg h, Function.update_of_ne h]

/-- Painting one byte changes exactly the positions of that byte under the mask. -/
lemma member_paint {put : BitVec 8 → BitVec 8 → BitVec 8} {v : Bool} (hp : Paints put v)
    (m : Nat → BitVec 8) (i : Nat) (mask : BitVec 8) (f : Nat) :
    member (Function.update m i (put (m i) mask)) f =
      if f / 8 = i ∧ mask.getLsbD (7 - f % 8) = true then v else member m f := by
  rw [member_update]
  by_cases h : f / 8 = i
  · simp only [h, hp (m i), true_and, if_true, member]
  · simp only [h, false_and, if_false]

/-- Shifting a bit down to the lowest place and masking it tests it. -/
lemma shift_and_one (b : BitVec 8) (j : Nat) : (b >>> j) &&& 1#8 = 0#8 ↔ b.getLsbD j = false := by
  rw [BitVec.and_one_eq_setWidth_ofBool_getLsbD, BitVec.getLsbD_ushiftRight, Nat.add_zero]
  cases b.getLsbD j <;> decide

/-! ### Lists of masked updates -/

/-- The updates `m[i] = put(m[i], mask)` of a list of pairs `(i, mask)`, in order. -/
def paintAll (put : BitVec 8 → BitVec 8 → BitVec 8) (m : Nat → BitVec 8) : List (Nat × BitVec 8) → Nat → BitVec 8
  | [] => m
  | s :: l => paintAll put (Function.update m s.1 (put (m s.1) s.2)) l

/-- Some update of the list stores a new value in byte `i`. -/
def Changes (put : BitVec 8 → BitVec 8 → BitVec 8) (m : Nat → BitVec 8) : List (Nat × BitVec 8) → Nat → Prop
  | [], _ => False
  | s :: l, i => i = s.1 ∧ put (m i) s.2 ≠ m i ∨ Changes put (Function.update m s.1 (put (m s.1) s.2)) l i

/-- Position `f` is under one of the masks. -/
def Covered (l : List (Nat × BitVec 8)) (f : Nat) : Prop :=
  ∃ s ∈ l, f / 8 = s.1 ∧ s.2.getLsbD (7 - f % 8) = true

instance (l : List (Nat × BitVec 8)) (f : Nat) : Decidable (Covered l f) := inferInstanceAs (Decidable (∃ _ ∈ _, _))

@[simp] lemma covered_nil (f : Nat) : ¬ Covered [] f := by
  simp [Covered]

@[simp] lemma covered_cons (s : Nat × BitVec 8) (l : List (Nat × BitVec 8)) (f : Nat) :
    Covered (s :: l) f ↔ (f / 8 = s.1 ∧ s.2.getLsbD (7 - f % 8) = true) ∨ Covered l f := by
  simp [Covered]

section

variable {put : BitVec 8 → BitVec 8 → BitVec 8} {v : Bool}

lemma paintAll_append (m : Nat → BitVec 8) (l l' : List (Nat × BitVec 8)) :
    paintAll put m (l ++ l') = paintAll put (paintAll put m l) l' := by
  induction l generalizing m with
  | nil => rfl
  | cons s l ih => exact ih _

/-- A list of updates changes exactly the positions under its masks. -/
theorem member_paintAll (hp : Paints put v) (m : Nat → BitVec 8) (l : List (Nat × BitVec 8)) (f : Nat) :
    member (paintAll put m l) f = if Covered l f then v else member m f := by
  induction l generalizing m with
  | nil => rw [paintAll, if_neg (covered_nil f)]
  | cons s l ih =>
    rw [paintAll, ih, member_paint hp]
    by_cases hl : Covered l f
    · rw [if_pos hl, if_pos ((covered_cons s l f).mpr (Or.inr hl))]
    · rw [if_neg hl]
      simp only [covered_cons, hl, or_false]

lemma ext_member {m m' : Nat → BitVec 8} (h : ∀ f, member m f = member m' f) : m = m' := by
  funext i
  apply BitVec.eq_of_getLsbD_eq
  intro j hj
  have hf := h (8 * i + (7 - j))
  have hdiv : (8 * i + (7 - j)) / 8 = i := by omega
  have hmod : 7 - (8 * i + (7 - j)) % 8 = j := by omega
  rwa [member, member, hdiv, hmod] at hf

/-- One update stores a new value exactly if a position under its mask has the other mark. -/
lemma paint_ne_iff (hp : Paints put v) (m : Nat → BitVec 8) (i : Nat) (mask : BitVec 8) :
    put (m i) mask ≠ m i ↔ ∃ f, f / 8 = i ∧ mask.getLsbD (7 - f % 8) = true ∧ member m f ≠ v := by
  constructor
  · intro hne
    by_contra hno
    push Not at hno
    apply hne
    apply BitVec.eq_of_getLsbD_eq
    intro j hj
    have hdiv : (8 * i + (7 - j)) / 8 = i := by omega
    have hmod : 7 - (8 * i + (7 - j)) % 8 = j := by omega
    have hf := hno (8 * i + (7 - j)) hdiv
    rw [member, hdiv, hmod] at hf
    rw [hp]
    split_ifs with hmask
    · exact (hf hmask).symm
    · rfl
  · rintro ⟨f, rfl, hmask, hne⟩ heq
    have hbit := hp (m (f / 8)) mask (7 - f % 8)
    rw [heq, if_pos hmask] at hbit
    exact hne hbit

/-- The stores of a list of updates change byte `i` exactly if a covered position of it had the
other mark at the start. -/
theorem changes_iff (hp : Paints put v) (m : Nat → BitVec 8) (l : List (Nat × BitVec 8)) (i : Nat) :
    Changes put m l i ↔ ∃ f, f / 8 = i ∧ Covered l f ∧ member m f ≠ v := by
  induction l generalizing m with
  | nil => simp [Changes]
  | cons s l ih =>
    rw [Changes, ih]
    simp only [covered_cons, member_paint hp]
    constructor
    · rintro (⟨rfl, hne⟩ | ⟨f, hf, hl, hne⟩)
      · obtain ⟨f, hf, hmask, hv⟩ := (paint_ne_iff hp m s.1 s.2).mp hne
        exact ⟨f, hf, Or.inl ⟨hf, hmask⟩, hv⟩
      · split_ifs at hne with hs
        · exact absurd rfl hne
        · exact ⟨f, hf, Or.inr hl, hne⟩
    · rintro ⟨f, hf, hs, hne⟩
      by_cases hmask : f / 8 = s.1 ∧ s.2.getLsbD (7 - f % 8) = true
      · left
        have hi : i = s.1 := hf.symm.trans hmask.1
        rw [hi]
        exact ⟨rfl, (paint_ne_iff hp m s.1 s.2).mpr ⟨f, hmask.1, hmask.2, hne⟩⟩
      · right
        refine ⟨f, hf, hs.resolve_left hmask, ?_⟩
        rwa [if_neg hmask]

end

/-! ### Masks of runs inside a byte -/

/-- The last `8 - o` positions of a byte. -/
lemma tailMask_bit {o k : Nat} (ho : o ≤ 8) (hk : k < 8) :
    ((0xff#8) >>> o).getLsbD (7 - k) = decide (o ≤ k) := by
  have h : ∀ o : Fin 9, ∀ k : Fin 8,
      ((0xff#8) >>> o.val).getLsbD (7 - k.val) = decide (o.val ≤ k.val) := by decide
  exact h ⟨o, by omega⟩ ⟨k, hk⟩

/-- The first `o` positions of a byte. -/
lemma headMask_bit {o k : Nat} (ho : o ≤ 8) (hk : k < 8) :
    ((0xff#8) <<< (8 - o)).getLsbD (7 - k) = decide (k < o) := by
  have h : ∀ o : Fin 9, ∀ k : Fin 8,
      ((0xff#8) <<< (8 - o.val)).getLsbD (7 - k.val) = decide (k.val < o.val) := by decide
  exact h ⟨o, by omega⟩ ⟨k, hk⟩

/-- `r` positions of a byte from position `o` on, as far as they fit. -/
lemma runMask_bit {o r k : Nat} (ho : o < 8) (hr : r < 8) (hk : k < 8) :
    ((((0xff#8) >>> (8 - r)) <<< (8 - r)) >>> o).getLsbD (7 - k) = decide (o ≤ k ∧ k < o + r) := by
  have h : ∀ o r k : Fin 8, ((((0xff#8) >>> (8 - r.val)) <<< (8 - r.val)) >>> o.val).getLsbD (7 - k.val) =
      decide (o.val ≤ k.val ∧ k.val < o.val + r.val) := by decide
  exact h ⟨o, ho⟩ ⟨r, hr⟩ ⟨k, hk⟩

/-- What is left of `r` positions from position `o` on, in the next byte. -/
lemma spillMask_bit {o r k : Nat} (ho : o < 8) (hr : r < 8) (hk : k < 8) :
    ((((0xff#8) >>> (8 - r)) <<< (8 - r)) <<< (8 - o)).getLsbD (7 - k) = decide (k + 8 < o + r) := by
  have h : ∀ o r k : Fin 8, ((((0xff#8) >>> (8 - r.val)) <<< (8 - r.val)) <<< (8 - o.val)).getLsbD
      (7 - k.val) = decide (k.val + 8 < o.val + r.val) := by decide
  exact h ⟨o, ho⟩ ⟨r, hr⟩ ⟨k, hk⟩

end PackedBits
