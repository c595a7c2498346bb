import Mathlib.Logic.Function.Basic

/-!
# Runs of a transition system

Runs over a list of labels, the condition that every step along every such run is allowed,
and the rules that carry an invariant through a run.
-/

namespace Runs

variable {σ α : Type}

/-- `s'` is reached from `s` by steps with the given labels. -/
inductive Run (step : σ → α → σ → Prop) : σ → List α → σ → Prop where
  | nil (s : σ) : Run step s [] s
  | cons {s t u : σ} {a : α} {as : List α} : step s a t → Run step t as u → Run step s (a :: as) u

/-- Every step with these labels from `s` on is allowed in the state it is taken in. -/
def Along (ok : σ → α → Prop) (step : σ → α → σ → Prop) : σ → List α → Prop
  | _, [] => True
  | s, a :: as => ok s a ∧ ∀ t, step s a t → Along ok step t as

variable {ok : σ → α → Prop} {step : σ → α → σ → Prop}

lemma Along.initial {s : σ} {as pre : List α} (h : Along ok step s as) (hpre : pre <+: as) : Along ok step s pre := by
  induction pre generalizing s as with
  | nil => trivial
  | cons a pre ih =>
    obtain ⟨post, rfl⟩ := hpre
    exact ⟨h.1, fun t ht => ih (h.2 t ht) ⟨post, rfl⟩⟩

/-- Steps are allowed along every run exactly if each is allowed wherever a run of the steps before it ends. -/
theorem along_iff {s : σ} {as : List α} :
    Along ok step s as ↔ ∀ pre a post t, as = pre ++ a :: post → Run step s pre t → ok t a := by
  induction as generalizing s with
  | nil => exact iff_of_true trivial fun pre a post t h => absurd h.symm (by simp)
  | cons b as ih =>
    constructor
    · rintro ⟨hb, hrest⟩ pre a post t has hrun
      cases hrun with
      | nil =>
        obtain ⟨rfl, -⟩ := List.cons.inj has
        exact hb
      | cons ht hrun =>
        obtain ⟨rfl, rfl⟩ := List.cons.inj has
        exact ih.mp (hrest _ ht) _ a post t rfl hrun
    · intro h
      refine ⟨h [] b as s rfl (.nil s), fun u hu => ih.mpr fun pre a post t has hrun => ?_⟩
      exact h (b :: pre) a post t (by rw [has, List.cons_append]) (.cons hu hrun)

/-- Two conditions that say the same where the invariant holds allow the same runs. -/
theorem along_congr {ok' : σ → α → Prop} (inv : σ → Prop) (hiff : ∀ s a, inv s → (ok s a ↔ ok' s a))
    (hstep : ∀ s a t, inv s → ok s a → step s a t → inv t) {s : σ} {as : List α} (h0 : inv s) :
    Along ok step s as ↔ Along ok' step s as := by
  induction as generalizing s with
  | nil => exact Iff.rfl
  | cons a as ih =>
    constructor
    · rintro ⟨ha, hrest⟩
      exact ⟨(hiff s a h0).mp ha, fun t ht => (ih (hstep s a t h0 ha ht)).mp (hrest t ht)⟩
    · rintro ⟨ha, hrest⟩
      have ha' := (hiff s a h0).mpr ha
      exact ⟨ha', fun t ht => (ih (hstep s a t h0 ha' ht)).mpr (hrest t ht)⟩

/-- What every allowed step preserves holds at the end of a run of allowed steps. -/
theorem Run.invariant {s s' : σ} {as : List α} (h : Run step s as s') (inv : σ → Prop)
    (hok : Along ok step s as) (h0 : inv s)
    (hstep : ∀ s a t, inv s → ok s a → step s a t → inv t) : inv s' := by
  induction h with
  | nil s => exact h0
  | cons ht _ ih => exact ih (hok.2 _ ht) (hstep _ _ _ h0 hok.1 ht)

lemma Run.of_exec (exec : σ → α → σ) (s : σ) (as : List α) :
    Run (fun s a s' => s' = exec s a) s as (as.foldl exec s) := by
  induction as generalizing s with
  | nil => exact .nil s
  | cons a as ih => exact .cons rfl (ih (exec s a))

/-- What every step preserves holds at the end of every run. -/
theorem Run.preserved {s s' : σ} {as : List α} (h : Run step s as s') (inv : σ → Prop) (h0 : inv s)
    (hstep : ∀ s a t, inv s → step s a t → inv t) : inv s' := by
  induction h with
  | nil s => exact h0
  | cons ht _ ih => exact ih (hstep _ _ _ h0 ht)

/-- A relation that every allowed step keeps, with a step of the other system for it, turns a run into a run of the
other system. -/
theorem Run.simulated {τ β : Type} {step' : τ → β → τ → Prop} {s s' : σ} {t : τ} {as : List α} (h : Run step s as s')
    (rel : σ → τ → Prop) (label : α → β) (hok : Along ok step s as) (h0 : rel s t)
    (hstep : ∀ s a s' t, rel s t → ok s a → step s a s' → ∃ t', step' t (label a) t' ∧ rel s' t') :
    ∃ t', Run step' t (as.map label) t' ∧ rel s' t' := by
  induction h generalizing t with
  | nil s => exact ⟨t, .nil t, h0⟩
  | cons ht _ ih =>
    obtain ⟨t1, ht1, h1⟩ := hstep _ _ _ _ h0 hok.1 ht
    obtain ⟨t', hrun, h'⟩ := ih (hok.2 _ ht) h1
    exact ⟨t', .cons ht1 hrun, h'⟩

/-- If a step that is not allowed spoils `good` at once, a run all of whose states are good has
allowed steps only. -/
theorem along_of_good {s : σ} {as : List α} (inv good : σ → Prop) (h0 : inv s)
    (hstep : ∀ s a t, inv s → ok s a → step s a t → inv t)
    (hspoil : ∀ s a, inv s → ¬ ok s a → ∃ t, step s a t ∧ ¬ good t)
    (hgood : ∀ pre s', pre <+: as → Run step s pre s' → good s') : Along ok step s as := by
  induction as generalizing s with
  | nil => trivial
  | cons a as ih =>
    have hok : ok s a := by
      by_contra hn
      obtain ⟨t, ht, hbad⟩ := hspoil s a h0 hn
      exact hbad (hgood [a] t ⟨as, rfl⟩ (.cons ht (.nil t)))
    refine ⟨hok, fun t ht => ih (hstep s a t h0 hok ht) fun pre s' hpre hrun => ?_⟩
    exact hgood (a :: pre) s' (List.cons_prefix_cons.mpr ⟨rfl, hpre⟩) (.cons ht hrun)

end Runs
