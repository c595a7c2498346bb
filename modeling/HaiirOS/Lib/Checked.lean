import Mathlib.Data.List.Basic

/-!
# Loops of checked steps

Rules for loops over lists whose steps may fail with an error: what an iteration preserves, and
when a loop succeeds whose steps fail on a test of their element.
-/

namespace Checked

variable {ε σ α β : Type}

lemma bind_eq_ok {x : Except ε α} {f : α → Except ε β} {b : β} :
    x >>= f = .ok b ↔ ∃ a, x = .ok a ∧ f a = .ok b := by
  constructor
  · intro h
    cases x with
    | error e => cases h
    | ok a => exact ⟨a, rfl, h⟩
  · rintro ⟨a, rfl, h⟩
    exact h

/-- What every iteration preserves holds after the loop, if the loop returns. -/
theorem foldlM_invariant {f : σ → α → Except ε σ} {l : List α} {s s' : σ} (P : σ → Prop) (h0 : P s)
    (hstep : ∀ a ∈ l, ∀ t t', P t → f t a = .ok t' → P t') (h : l.foldlM f s = .ok s') : P s' := by
  induction l generalizing s with
  | nil =>
    cases h
    exact h0
  | cons a l ih =>
    rw [List.foldlM_cons] at h
    obtain ⟨t, ht, h⟩ := bind_eq_ok.mp h
    exact ih (hstep a List.mem_cons_self s t h0 ht) (fun b hb => hstep b (List.mem_cons_of_mem a hb)) h

/-- What the iteration for one element establishes and every iteration preserves holds after the loop. -/
theorem foldlM_establish {f : σ → α → Except ε σ} {l : List α} {s s' : σ} (P : σ → Prop) {x : α} (hx : x ∈ l)
    (hset : ∀ t t', f t x = .ok t' → P t') (hstep : ∀ a ∈ l, ∀ t t', P t → f t a = .ok t' → P t')
    (h : l.foldlM f s = .ok s') : P s' := by
  induction l generalizing s with
  | nil => exact absurd hx List.not_mem_nil
  | cons a l ih =>
    rw [List.foldlM_cons] at h
    obtain ⟨t, ht, hl⟩ := bind_eq_ok.mp h
    have hstep' := fun b hb => hstep b (List.mem_cons_of_mem a hb)
    rcases List.mem_cons.mp hx with rfl | hx
    · exact foldlM_invariant P (hset s t ht) hstep' hl
    · exact ih hx hstep' hl

/-- A loop whose steps succeed exactly on the elements with `p`, while the invariant holds, succeeds
exactly if all its elements have `p`. -/
theorem foldlM_ok_iff {f : σ → α → Except ε σ} {p : α → Prop} {l : List α} {s : σ} (P : σ → Prop) (h0 : P s)
    (hok : ∀ a ∈ l, ∀ t, P t → p a → ∃ t', f t a = .ok t' ∧ P t')
    (hfail : ∀ a ∈ l, ∀ t t', P t → f t a = .ok t' → p a) :
    (∃ s', l.foldlM f s = .ok s') ↔ ∀ a ∈ l, p a := by
  induction l generalizing s with
  | nil => exact ⟨fun _ a ha => absurd ha List.not_mem_nil, fun _ => ⟨s, rfl⟩⟩
  | cons a l ih =>
    have hok' := fun b hb => hok b (List.mem_cons_of_mem a hb)
    have hfail' := fun b hb => hfail b (List.mem_cons_of_mem a hb)
    rw [List.foldlM_cons]
    constructor
    · rintro ⟨s', h⟩
      obtain ⟨t, ht, h⟩ := bind_eq_ok.mp h
      have ha := hfail a List.mem_cons_self s t h0 ht
      obtain ⟨t', ht', hP⟩ := hok a List.mem_cons_self s h0 ha
      obtain rfl := Except.ok.inj (ht.symm.trans ht')
      intro b hb
      rcases List.mem_cons.mp hb with rfl | hb
      · exact ha
      · exact (ih hP hok' hfail').mp ⟨s', h⟩ b hb
    · intro hall
      obtain ⟨t, ht, hP⟩ := hok a List.mem_cons_self s h0 (hall a List.mem_cons_self)
      obtain ⟨s', h⟩ := (ih hP hok' hfail').mpr fun b hb => hall b (List.mem_cons_of_mem a hb)
      exact ⟨s', bind_eq_ok.mpr ⟨t, ht, h⟩⟩

/-- A loop whose steps do what those of another loop do, with a test of the element in front. -/
theorem foldlM_guarded {f g : σ → α → Except ε σ} {p : α → Prop} (hstep : ∀ s a t, f s a = .ok t ↔ p a ∧ g s a = .ok t)
    {l : List α} {s t : σ} : l.foldlM f s = .ok t ↔ (∀ a ∈ l, p a) ∧ l.foldlM g s = .ok t := by
  induction l generalizing s with
  | nil => exact ⟨fun h => ⟨fun a ha => absurd ha List.not_mem_nil, h⟩, fun h => h.2⟩
  | cons a l ih =>
    rw [List.foldlM_cons, List.foldlM_cons, bind_eq_ok, bind_eq_ok, List.forall_mem_cons]
    simp only [hstep, ih]
    constructor
    · rintro ⟨u, ⟨ha, hu⟩, hl, ht⟩
      exact ⟨⟨ha, hl⟩, u, hu, ht⟩
    · rintro ⟨⟨ha, hl⟩, u, hu, ht⟩
      exact ⟨u, ⟨ha, hu⟩, hl, ht⟩

end Checked
