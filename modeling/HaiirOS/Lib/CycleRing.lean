import Mathlib.Logic.Function.Basic
import Mathlib.Tactic.SplitIfs

/-!
# Rings with a cycle bit

A producer writes entries to the slots `0, 1, …, n - 1, 0, …` of a ring. There is no shared
counter: each entry has a cycle bit that the producer sets on even laps and clears on odd
ones, and a consumer that knows its own lap sees from it whether a slot is filled. Slots are
blank, with a clear bit, before the first lap.
-/

namespace CycleRing

variable {ε : Type} {n : Nat}

/-- The cycle state on the lap of position `k`. -/
def cycleAt (n k : Nat) : Bool := k / n % 2 == 0

lemma succ_mod (hn : 0 < n) (k : Nat) : (k + 1) % n = if k % n + 1 = n then 0 else k % n + 1 := by
  have hlt := Nat.mod_lt k hn
  have hk : k + 1 = k % n + 1 + n * (k / n) := by
    have := Nat.div_add_mod k n
    omega
  rw [hk, Nat.add_mul_mod_self_left]
  split_ifs with h
  · rw [h, Nat.mod_self]
  · exact Nat.mod_eq_of_lt (by omega)

lemma cycleAt_succ (hn : 0 < n) (k : Nat) :
    cycleAt n (k + 1) = if k % n + 1 = n then !cycleAt n k else cycleAt n k := by
  have hlt := Nat.mod_lt k hn
  have hk : k + 1 = k % n + 1 + n * (k / n) := by
    have := Nat.div_add_mod k n
    omega
  have hdiv : (k + 1) / n = (k % n + 1) / n + k / n := by
    rw [hk, Nat.add_mul_div_left _ _ hn]
  unfold cycleAt
  rw [hdiv]
  split_ifs with h
  · rw [h, Nat.div_self hn, Bool.eq_iff_iff]
    simp only [beq_iff_eq, Bool.not_eq_true', beq_eq_false_iff_ne]
    omega
  · rw [Nat.div_eq_of_lt (by omega), Nat.zero_add]

/-- One lap later the bit has the other meaning. -/
lemma cycleAt_add (hn : 0 < n) (k : Nat) : cycleAt n (k + n) = !cycleAt n k := by
  unfold cycleAt
  rw [Nat.add_div_right k hn, Bool.eq_iff_iff]
  simp only [beq_iff_eq, Bool.not_eq_true', beq_eq_false_iff_ne]
  omega

lemma cycleAt_first (k : Nat) (hk : k < n) : cycleAt n k = true := by
  unfold cycleAt
  rw [Nat.div_eq_of_lt hk]
  rfl

/-- The ring after the entries of `log`: each slot has its newest entry, with the cycle state of its
lap, or is blank. -/
structure Holds (n : Nat) (cycle : ε → Bool) (ring : Nat → ε) (log : List ε) : Prop where
  entry : ∀ k (h : k < log.length), log.length ≤ k + n → ring (k % n) = log[k]
  lap : ∀ k (h : k < log.length), cycle log[k] = cycleAt n k
  blank : ∀ i, log.length ≤ i → i < n → cycle (ring i) = false

variable {cycle : ε → Bool} {ring : Nat → ε} {log : List ε}

lemma Holds.init (h : ∀ i < n, cycle (ring i) = false) : Holds n cycle ring [] where
  entry := fun k hk => absurd hk (Nat.not_lt_zero k)
  lap := fun k hk => absurd hk (Nat.not_lt_zero k)
  blank := fun i _ hi => h i hi

lemma Holds.congr (h : Holds n cycle ring log) (hn : 0 < n) {ring' : Nat → ε} (hring : ∀ i < n, ring' i = ring i) :
    Holds n cycle ring' log where
  entry := fun k hk hnew => (hring _ (Nat.mod_lt k hn)).trans (h.entry k hk hnew)
  lap := h.lap
  blank := fun i hlen hi => (congrArg cycle (hring i hi)).trans (h.blank i hlen hi)

/-- The producer writes the next entry with the cycle state of its lap. -/
theorem Holds.push (h : Holds n cycle ring log) (hn : 0 < n) {e : ε} (he : cycle e = cycleAt n log.length)
    {ring' : Nat → ε} (hring : ∀ i < n, ring' i = if i = log.length % n then e else ring i) :
    Holds n cycle ring' (log ++ [e]) where
  entry := by
    intro k hk hnew
    simp only [List.length_append, List.length_singleton] at hk hnew
    rw [hring _ (Nat.mod_lt k hn)]
    by_cases hlast : k = log.length
    · subst hlast
      rw [if_pos rfl, List.getElem_concat_length rfl]
    · have hold : k < log.length := by omega
      rw [if_neg, h.entry k hold (by omega), List.getElem_append_left hold]
      -- fewer than `n` positions apart
      intro hmod
      have hsub : (log.length - k) % n = 0 := Nat.sub_mod_eq_zero_of_mod_eq hmod.symm
      rw [Nat.mod_eq_of_lt (by omega)] at hsub
      omega
  lap := by
    intro k hk
    simp only [List.length_append, List.length_singleton] at hk
    by_cases hlast : k = log.length
    · subst hlast
      rw [List.getElem_concat_length rfl, he]
    · have hold : k < log.length := by omega
      rw [List.getElem_append_left hold, h.lap k hold]
  blank := by
    intro i hlen hi
    simp only [List.length_append, List.length_singleton] at hlen
    rw [hring i hi, Nat.mod_eq_of_lt (by omega), if_neg (by omega)]
    exact h.blank i (by omega) hi

/-- A consumer at most one lap behind sees from the cycle bit whether the next entry is there. -/
theorem Holds.ready_iff (h : Holds n cycle ring log) (hn : 0 < n) {c : Nat} (hc : c ≤ log.length)
    (hlap : log.length ≤ c + n) : cycle (ring (c % n)) = cycleAt n c ↔ c < log.length := by
  constructor
  · intro hcycle
    by_contra hge
    obtain rfl : c = log.length := by omega
    rcases Nat.lt_or_ge log.length n with hfirst | hlater
    · -- the slot is blank, and a set bit is expected
      rw [Nat.mod_eq_of_lt hfirst, h.blank _ (Nat.le_refl _) hfirst, cycleAt_first _ hfirst] at hcycle
      cases hcycle
    · -- the slot has the entry of the lap before
      have hold : log.length - n < log.length := by omega
      have hmod : log.length % n = (log.length - n) % n := Nat.mod_eq_sub_mod hlater
      rw [hmod, h.entry _ hold (by omega), h.lap _ hold] at hcycle
      have hadd := cycleAt_add hn (log.length - n)
      rw [Nat.sub_add_cancel hlater] at hadd
      rw [hadd] at hcycle
      cases hb : cycleAt n (log.length - n) <;> rw [hb] at hcycle <;> cases hcycle
  · intro hlt
    rw [h.entry c hlt hlap, h.lap c hlt]

end CycleRing
