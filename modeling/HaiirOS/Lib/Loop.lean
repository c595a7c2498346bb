import Mathlib.Logic.Function.Basic

/-!
# Counting loops of partial steps

A loop that runs a body for `0, 1, …, n - 1` and stops at the first failing step, with the
two invariant rules for it.
-/

namespace Loop

variable {σ : Type}

/-- `for (i = 0; i < n; i++) body(i)` -/
def upTo (body : Nat → σ → Option σ) : Nat → σ → Option σ
  | 0, s => some s
  | n + 1, s => (upTo body n s).bind (body n)

lemma upTo_succ_left (body : Nat → σ → Option σ) (n : Nat) (s : σ) :
    upTo body (n + 1) s = (body 0 s).bind (upTo (fun i => body (i + 1)) n) := by
  induction n with
  | zero =>
    cases h : body 0 s <;> simp [upTo, h]
  | succ n ih =>
    rw [upTo, ih, Option.bind_assoc]
    rfl

lemma upTo_congr {body body' : Nat → σ → Option σ} {n : Nat} (h : ∀ i < n, ∀ s, body i s = body' i s) (s : σ) :
    upTo body n s = upTo body' n s := by
  induction n with
  | zero => rfl
  | succ n ih =>
    rw [upTo, upTo, ih fun i hi => h i (Nat.lt_succ_of_lt hi)]
    congr 1
    funext t
    exact h n (Nat.lt_succ_self n) t

/-- What each iteration preserves holds after the loop, if the loop returns. -/
theorem upTo_invariant {body : Nat → σ → Option σ} (P : Nat → σ → Prop) {n : Nat} {s s' : σ}
    (h0 : P 0 s) (step : ∀ i < n, ∀ t t', P i t → body i t = some t' → P (i + 1) t')
    (h : upTo body n s = some s') : P n s' := by
  induction n generalizing s' with
  | zero =>
    obtain rfl : s = s' := Option.some.inj h
    exact h0
  | succ n ih =>
    obtain ⟨t, ht, hb⟩ := Option.bind_eq_some_iff.mp h
    exact step n (by omega) t s' (ih (fun i hi => step i (by omega)) ht) hb

/-- A loop whose iterations all return under the invariant returns. -/
theorem upTo_total {body : Nat → σ → Option σ} (P : Nat → σ → Prop) {n : Nat} {s : σ}
    (h0 : P 0 s) (step : ∀ i < n, ∀ t, P i t → ∃ t', body i t = some t' ∧ P (i + 1) t') :
    ∃ s', upTo body n s = some s' ∧ P n s' := by
  induction n with
  | zero => exact ⟨s, rfl, h0⟩
  | succ n ih =>
    obtain ⟨t, ht, hp⟩ := ih (fun i hi => step i (by omega))
    obtain ⟨t', hb, hp'⟩ := step n (by omega) t hp
    exact ⟨t', by rw [upTo, ht]; exact hb, hp'⟩

end Loop
