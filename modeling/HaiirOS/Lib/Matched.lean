import Mathlib.Logic.Basic

/-!
# Matched computations

A computation that may fail is matched by another one if wherever the first has a result the
second has a corresponding one. The rules follow the shape of the two computations.
-/

namespace Forward

variable {α β γ δ : Type}

/-- Where `x` has a result, `y` has one that `R` relates to it. -/
def Matched (R : α → β → Prop) (x : Option α) (y : Option β) : Prop := ∀ a, x = some a → ∃ b, y = some b ∧ R a b

namespace Matched

variable {R : α → β → Prop} {S : γ → δ → Prop} {x : Option α} {y : Option β}

lemma some {a : α} {b : β} (h : R a b) : Matched R (some a) (some b) := by
  rintro a' ⟨⟩
  exact ⟨b, rfl, h⟩

lemma bind {f : α → Option γ} {g : β → Option δ} (h : Matched R x y)
    (hf : ∀ a b, x = .some a → R a b → Matched S (f a) (g b)) : Matched S (x >>= f) (y >>= g) := by
  intro c hc
  obtain ⟨a, ha, hfa⟩ := Option.bind_eq_some_iff.mp hc
  obtain ⟨b, hb, hab⟩ := h a ha
  obtain ⟨d, hd, hcd⟩ := hf a b ha hab c hfa
  exact ⟨d, Option.bind_eq_some_iff.mpr ⟨b, hb, hd⟩, hcd⟩

lemma after {g : β → γ} {S : α → γ → Prop} (h : Matched R x y) (hg : ∀ a b, R a b → S a (g b)) :
    Matched S x (y >>= fun b => .some (g b)) := by
  intro a ha
  obtain ⟨b, hb, hab⟩ := h a ha
  exact ⟨g b, Option.bind_eq_some_iff.mpr ⟨b, hb, rfl⟩, hg a b hab⟩

lemma ite {p q : Prop} [Decidable p] [Decidable q] (hpq : p ↔ q) {x' : Option α} {y' : Option β}
    (h : p → Matched R x y) (h' : ¬ p → Matched R x' y') : Matched R (if p then x else x') (if q then y else y') := by
  by_cases hp : p
  · rw [if_pos hp, if_pos (hpq.mp hp)]
    exact h hp
  · rw [if_neg hp, if_neg (hpq.not.mp hp)]
    exact h' hp

end Matched

end Forward
