import Mathlib.Logic.Function.Basic

/-!
# Descent in a leveled forest

Nodes with children under indices, the walk that an index for each level selects, and a rank
that falls by one on every edge. Where a node has one parent edge, up to tops that share a
child, a walk can be read off from the node it ends at.
-/

namespace Descent

variable {ν ι : Type}

/-- The node that the indices `idx n, …, idx 1` lead to. -/
def walk (child : ν → ι → Option ν) (idx : Nat → ι) : Nat → ν → Option ν
  | 0, t => some t
  | n + 1, t => (child t (idx (n + 1))).bind (walk child idx n)

/-- Every inner node, a node of rank 2 or more, has children of the next rank. Nodes that share a child
have rank `top` and hold it under the same index, one in `shared`. -/
structure Forest (child : ν → ι → Option ν) (rank : ν → Nat) (top : Nat) (shared : ι → Prop) : Prop where
  rank_child : ∀ t i u, 2 ≤ rank t → child t i = some u → rank u + 1 = rank t
  le_top : ∀ t, rank t ≤ top
  parent : ∀ t i t' i' u, 2 ≤ rank t → 2 ≤ rank t' → child t i = some u → child t' i' = some u →
    i = i' ∧ (t = t' ∨ rank t = top ∧ shared i)

variable {child child' : ν → ι → Option ν} {rank : ν → Nat} {top n : Nat} {shared : ι → Prop} {idx idx' : Nat → ι} {t t' u : ν}

lemma Forest.rank_walk (h : Forest child rank top shared) (ht : rank t = n + 1) (hw : walk child idx n t = some u) :
    rank u = 1 := by
  induction n generalizing t with
  | zero =>
    obtain rfl : t = u := Option.some.inj hw
    exact ht
  | succ n ih =>
    obtain ⟨c, hc, hw⟩ := Option.bind_eq_some_iff.mp hw
    have hr := h.rank_child t _ c (by omega) hc
    exact ih (by omega) hw

/-- A walk keeps its end where no child it follows is lost. -/
lemma Forest.walk_mono (h : Forest child rank top shared)
    (hsub : ∀ t i u, 2 ≤ rank t → child t i = some u → child' t i = some u) (ht : rank t = n + 1)
    (hw : walk child idx n t = some u) : walk child' idx n t = some u := by
  induction n generalizing t with
  | zero => exact hw
  | succ n ih =>
    obtain ⟨c, hc, hw⟩ := Option.bind_eq_some_iff.mp hw
    have hr := h.rank_child t _ c (by omega) hc
    rw [walk, hsub t _ c (by omega) hc]
    exact ih (by omega) hw

/-- Walks that end at one node of rank 1 took the same indices, from one node or from two tops. -/
theorem Forest.walk_inj (h : Forest child rank top shared) (ht : rank t = n + 1) (ht' : rank t' = n + 1)
    (hw : walk child idx n t = some u) (hw' : walk child idx' n t' = some u) :
    (∀ k, 0 < k → k ≤ n → idx k = idx' k) ∧ (t = t' ∨ rank t = top ∧ shared (idx n)) := by
  induction n generalizing t t' with
  | zero =>
    obtain rfl : t = u := Option.some.inj hw
    obtain rfl : t' = t := Option.some.inj hw'
    exact ⟨fun k h1 h2 => by omega, Or.inl rfl⟩
  | succ n ih =>
    obtain ⟨c, hc, hw⟩ := Option.bind_eq_some_iff.mp hw
    obtain ⟨c', hc', hw'⟩ := Option.bind_eq_some_iff.mp hw'
    have hr := h.rank_child t _ c (by omega) hc
    have hr' := h.rank_child t' _ c' (by omega) hc'
    obtain ⟨hidx, hcc⟩ := ih (by omega) (by omega) hw hw'
    -- a child is no top, so the two walks have met already
    have hle := h.le_top t
    obtain rfl : c = c' := by
      rcases hcc with hcc | ⟨htop, -⟩
      · exact hcc
      · omega
    obtain ⟨hi, htt⟩ := h.parent t _ t' _ c (by omega) (by omega) hc hc'
    refine ⟨fun k h1 h2 => ?_, htt⟩
    rcases Nat.lt_or_ge n k with hk | hk
    · obtain rfl : k = n + 1 := by omega
      exact hi
    · exact hidx k h1 hk

end Descent
