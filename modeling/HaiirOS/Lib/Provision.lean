import Mathlib.Data.Set.Insert

/-!
# Uses after what they need

A trace of events that provide something and events that use what was provided before them. A
use is in order if what is provided so far allows it.
-/

namespace Provision

variable {α β ι : Type*}

inductive Event (α β : Type*) where
  | provide (a : α)
  | use (b : β)

/-- What a trace provides. -/
def provided (es : List (Event α β)) : Set α := {a | Event.provide a ∈ es}

/-- After `S`, each use comes after what allows it. -/
def Ordered (ok : Set α → β → Prop) : Set α → List (Event α β) → Prop
  | _, [] => True
  | S, .provide a :: es => Ordered ok (S ∪ {a}) es
  | S, .use b :: es => ok S b ∧ Ordered ok S es

variable {ok : Set α → β → Prop} {S T : Set α} {es fs : List (Event α β)}

@[simp] lemma provided_nil : provided ([] : List (Event α β)) = ∅ := by
  ext a
  simp [provided]

@[simp] lemma provided_provide (a : α) : provided (Event.provide a :: es) = {a} ∪ provided es := by
  ext b
  simp [provided]

@[simp] lemma provided_use (b : β) : provided (Event.use b :: es) = provided es := by
  ext a
  simp [provided]

@[simp] lemma provided_append : provided (es ++ fs) = provided es ∪ provided fs := by
  ext a
  simp [provided]

lemma provided_flatMap {l : List ι} {f : ι → List (Event α β)} {a : α} :
    a ∈ provided (l.flatMap f) ↔ ∃ i ∈ l, a ∈ provided (f i) := List.mem_flatMap

theorem ordered_append : Ordered ok S (es ++ fs) ↔ Ordered ok S es ∧ Ordered ok (S ∪ provided es) fs := by
  induction es generalizing S with
  | nil => simp [Ordered]
  | cons e es ih =>
    cases e with
    | provide a =>
      rw [List.cons_append, Ordered, Ordered, ih, provided_provide, Set.union_assoc]
    | use b =>
      rw [List.cons_append, Ordered, Ordered, ih, provided_use, and_assoc]

/-- What is allowed stays allowed when more is provided. -/
def Persistent (ok : Set α → β → Prop) : Prop := ∀ S T b, S ⊆ T → ok S b → ok T b

theorem Ordered.mono (hm : Persistent ok) (hs : S ⊆ T) (h : Ordered ok S es) : Ordered ok T es := by
  induction es generalizing S T with
  | nil => trivial
  | cons e es ih =>
    cases e with
    | provide a => exact ih (Set.union_subset_union_left {a} hs) h
    | use b => exact ⟨hm S T b hs h.1, ih hs h.2⟩

/-- A loop is in order if each iteration is, after the iterations before it. -/
theorem ordered_range {f : Nat → List (Event α β)} {n : Nat} : Ordered ok S ((List.range n).flatMap f) ↔
    ∀ i < n, Ordered ok (S ∪ provided ((List.range i).flatMap f)) (f i) := by
  induction n with
  | zero => simp [Ordered]
  | succ n ih =>
    rw [List.range_succ, List.flatMap_append, ordered_append, ih, Nat.forall_lt_succ_right, List.flatMap_cons,
      List.flatMap_nil, List.append_nil]

/-- Order is about every use in the trace, and what the events before it provide. -/
theorem ordered_iff : Ordered ok S es ↔ ∀ pre b post, es = pre ++ .use b :: post → ok (S ∪ provided pre) b := by
  constructor
  · intro h pre b post hes
    rw [hes, ordered_append] at h
    exact h.2.1
  · intro h
    induction es generalizing S with
    | nil => trivial
    | cons e es ih =>
      cases e with
      | provide a =>
        apply ih
        intro pre b post hes
        have hok := h (.provide a :: pre) b post (by rw [hes, List.cons_append])
        rwa [provided_provide, ← Set.union_assoc] at hok
      | use b =>
        refine ⟨?_, ?_⟩
        · have hok := h [] b es rfl
          rwa [provided_nil, Set.union_empty] at hok
        · apply ih
          intro pre b' post hes
          have hok := h (.use b :: pre) b' post (by rw [hes, List.cons_append])
          rwa [provided_use] at hok

end Provision
