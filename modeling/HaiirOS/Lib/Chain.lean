import Mathlib.Logic.Relation

/-!
# Searching a linked chain

A chain is a partial successor function on its nodes; it may run into a cycle. The search takes
fuel. With enough fuel it finds exactly the first node with `hit`, or the end of a chain without one.
-/

namespace Chain

variable {α : Type*}

/-- The first node with `hit` on the chain from the first argument is the second one. -/
inductive First (next : α → Option α) (hit : α → Prop) : α → α → Prop
  | here {a : α} (ha : hit a) : First next hit a a
  | there {a b c : α} (ha : ¬ hit a) (hn : next a = some b) (hb : First next hit b c) : First next hit a c

/-- The chain ends, and none of its nodes has `hit`. -/
inductive Misses (next : α → Option α) (hit : α → Prop) : α → Prop
  | last {a : α} (ha : ¬ hit a) (hn : next a = none) : Misses next hit a
  | skip {a b : α} (ha : ¬ hit a) (hn : next a = some b) (hb : Misses next hit b) : Misses next hit a

/-- The chain ends. -/
def Ends (next : α → Option α) (a : α) : Prop := Misses next (fun _ => False) a

/-- The nodes of the chain. -/
def Node (next : α → Option α) (a b : α) : Prop := Relation.ReflTransGen (fun x y => next x = some y) a b

/-- The search, with `none` where the fuel runs out and `some none` at the end of the chain. -/
def search (next : α → Option α) (hit : α → Prop) [DecidablePred hit] : Nat → α → Option (Option α)
  | 0, _ => none
  | fuel + 1, a =>
    if hit a then some (some a)
    else
      match next a with
      | none => some none
      | some b => search next hit fuel b

variable {next next' : α → Option α} {hit hit' : α → Prop} {a b c : α}

lemma First.hit_found (h : First next hit a b) : hit b := by
  induction h with
  | here ha => exact ha
  | there _ _ _ ih => exact ih

lemma First.node (h : First next hit a b) : Node next a b := by
  induction h with
  | here _ => exact Relation.ReflTransGen.refl
  | there _ hn _ ih => exact Relation.ReflTransGen.head hn ih

lemma First.unique (hb : First next hit a b) (hc : First next hit a c) : b = c := by
  induction hb with
  | here ha =>
    cases hc with
    | here _ => rfl
    | there hna _ _ => exact absurd ha hna
  | there hna hn _ ih =>
    cases hc with
    | here ha => exact absurd ha hna
    | there _ hn' hc =>
      obtain rfl := Option.some.inj (hn.symm.trans hn')
      exact ih hc

lemma Misses.not_first (hm : Misses next hit a) : ¬ First next hit a b := by
  induction hm with
  | last ha hn =>
    intro hf
    cases hf with
    | here hit => exact ha hit
    | there _ hn' _ => exact Option.some_ne_none _ (hn'.symm.trans hn)
  | skip ha hn _ ih =>
    intro hf
    cases hf with
    | here hit => exact ha hit
    | there _ hn' hf =>
      obtain rfl := Option.some.inj (hn.symm.trans hn')
      exact ih hf

lemma Misses.not_hit (hm : Misses next hit a) (hc : Node next a c) : ¬ hit c := by
  induction hm with
  | last ha hn =>
    cases hc.cases_head with
    | inl h => exact h ▸ ha
    | inr h =>
      obtain ⟨b, hb, _⟩ := h
      exact absurd (hb.symm.trans hn) (Option.some_ne_none b)
  | skip ha hn _ ih =>
    cases hc.cases_head with
    | inl h => exact h ▸ ha
    | inr h =>
      obtain ⟨b, hb, hbc⟩ := h
      obtain rfl := Option.some.inj (hn.symm.trans hb)
      exact ih hbc

/-- A chain that ends has a first node with `hit` or none at all. -/
lemma Ends.misses_or_first (he : Ends next a) : Misses next hit a ∨ ∃ b, First next hit a b := by
  induction he with
  | @last a _ hn =>
    by_cases ha : hit a
    · exact Or.inr ⟨a, First.here ha⟩
    · exact Or.inl (Misses.last ha hn)
  | @skip a b _ hn _ ih =>
    by_cases ha : hit a
    · exact Or.inr ⟨a, First.here ha⟩
    · cases ih with
      | inl hm => exact Or.inl (Misses.skip ha hn hm)
      | inr hf =>
        obtain ⟨c, hc⟩ := hf
        exact Or.inr ⟨c, First.there ha hn hc⟩

/-- On the nodes of the chain from `a` both pairs have the same successors and the same hits. -/
def Agree (next next' : α → Option α) (hit hit' : α → Prop) (a : α) : Prop :=
  ∀ x, Node next a x → next' x = next x ∧ (hit' x ↔ hit x)

lemma Agree.tail (h : Agree next next' hit hit' a) (hn : next a = some b) : Agree next next' hit hit' b :=
  fun x hx => h x (Relation.ReflTransGen.head hn hx)

lemma Agree.symm (h : Agree next next' hit hit' a) : Agree next' next hit' hit a := by
  have hnode {b : α} (hb : Node next' a b) : Node next a b := by
    induction hb with
    | refl => exact Relation.ReflTransGen.refl
    | @tail x y _ hxy ih => exact Relation.ReflTransGen.tail ih ((h x ih).1.symm.trans hxy)
  intro x hx
  have ⟨hn, hh⟩ := h x (hnode hx)
  exact ⟨hn.symm, hh.symm⟩

lemma First.congr (h : Agree next next' hit hit' a) (hf : First next hit a b) : First next' hit' a b := by
  induction hf with
  | here ha => exact First.here ((h _ Relation.ReflTransGen.refl).2.mpr ha)
  | there ha hn _ ih =>
    have ⟨hnext, hhit⟩ := h _ Relation.ReflTransGen.refl
    exact First.there (fun hc => ha (hhit.mp hc)) (hnext.trans hn) (ih (h.tail hn))

lemma Misses.congr (h : Agree next next' hit hit' a) (hm : Misses next hit a) : Misses next' hit' a := by
  induction hm with
  | last ha hn =>
    have ⟨hnext, hhit⟩ := h _ Relation.ReflTransGen.refl
    exact Misses.last (fun hc => ha (hhit.mp hc)) (hnext.trans hn)
  | skip ha hn _ ih =>
    have ⟨hnext, hhit⟩ := h _ Relation.ReflTransGen.refl
    exact Misses.skip (fun hc => ha (hhit.mp hc)) (hnext.trans hn) (ih (h.tail hn))

lemma Agree.first_iff (h : Agree next next' hit hit' a) : First next' hit' a b ↔ First next hit a b :=
  ⟨fun hf => hf.congr h.symm, fun hf => hf.congr h⟩

lemma Agree.misses_iff (h : Agree next next' hit hit' a) : Misses next' hit' a ↔ Misses next hit a :=
  ⟨fun hm => hm.congr h.symm, fun hm => hm.congr h⟩

variable [DecidablePred hit]

/-- The search finds a node, with enough fuel, exactly if it is the first one with `hit`. -/
theorem search_found_iff : (∃ fuel, search next hit fuel a = some (some b)) ↔ First next hit a b := by
  constructor
  · rintro ⟨fuel, h⟩
    induction fuel generalizing a with
    | zero => cases h
    | succ fuel ih =>
      rw [search] at h
      by_cases ha : hit a
      · rw [if_pos ha] at h
        obtain rfl : a = b := Option.some.inj (Option.some.inj h)
        exact First.here ha
      · rw [if_neg ha] at h
        cases hn : next a with
        | none => simp [hn] at h
        | some c =>
          rw [hn] at h
          exact First.there ha hn (ih h)
  · intro h
    induction h with
    | here ha => exact ⟨1, by rw [search, if_pos ha]⟩
    | there ha hn _ ih =>
      obtain ⟨fuel, ih⟩ := ih
      refine ⟨fuel + 1, ?_⟩
      rw [search, if_neg ha, hn]
      exact ih

/-- The search comes to the end, with enough fuel, exactly if the chain ends without `hit`. -/
theorem search_missed_iff : (∃ fuel, search next hit fuel a = some none) ↔ Misses next hit a := by
  constructor
  · rintro ⟨fuel, h⟩
    induction fuel generalizing a with
    | zero => cases h
    | succ fuel ih =>
      rw [search] at h
      by_cases ha : hit a
      · simp [ha] at h
      · rw [if_neg ha] at h
        cases hn : next a with
        | none => exact Misses.last ha hn
        | some c =>
          rw [hn] at h
          exact Misses.skip ha hn (ih h)
  · intro h
    induction h with
    | last ha hn => exact ⟨1, by rw [search, if_neg ha, hn]⟩
    | skip ha hn _ ih =>
      obtain ⟨fuel, ih⟩ := ih
      refine ⟨fuel + 1, ?_⟩
      rw [search, if_neg ha, hn]
      exact ih

end Chain
