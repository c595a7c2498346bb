import Mathlib.Data.List.Chain
import Mathlib.Tactic.SplitIfs

/-!
# Segments of a sequence of bits

A sequence of bits is cut where its value changes. The tracker keeps the segment that it is in and
the ones before it, and is fed one bit after the other; equal bits can be fed at once.
-/

namespace Segments

/-- The positions from `first` on and before `stop`, with their value. -/
structure Segment where
  value : Bool
  first : Nat
  stop : Nat

/-- The segment before `t` ends where `t` begins, and has the other value. -/
def Follows (s t : Segment) : Prop := t.value = !s.value ∧ t.first = s.stop

/-- The segments of the positions below `n`. -/
structure Segmentation (f : Nat → Bool) (n : Nat) (l : List Segment) : Prop where
  chain : l.IsChain Follows
  first : ∃ s, l.head? = some s ∧ s.first = 0
  stop : ∃ s, l.getLast? = some s ∧ s.stop = n
  value : ∀ s ∈ l, ∀ k, s.first ≤ k → k < s.stop → f k = s.value

variable {f : Nat → Bool} {n k : Nat} {l : List Segment}

lemma exists_segment {s : Segment} (hchain : (s :: l).IsChain Follows)
    (hlast : ∃ t, (s :: l).getLast? = some t ∧ t.stop = n) (hfirst : s.first ≤ k) (hk : k < n) :
    ∃ t ∈ s :: l, t.first ≤ k ∧ k < t.stop := by
  induction l generalizing s with
  | nil =>
    obtain ⟨t, ht, rfl⟩ := hlast
    obtain rfl : s = t := Option.some.inj ht
    exact ⟨s, List.mem_cons_self, hfirst, hk⟩
  | cons t l ih =>
    by_cases hstop : k < s.stop
    · exact ⟨s, List.mem_cons_self, hfirst, hstop⟩
    · obtain ⟨hfollows, hrest⟩ := List.isChain_cons_cons.mp hchain
      have hnext : t.first ≤ k := by
        rw [hfollows.2]
        omega
      rw [List.getLast?_cons_cons] at hlast
      obtain ⟨u, hu, hin⟩ := ih hrest hlast hnext
      exact ⟨u, List.mem_cons_of_mem s hu, hin⟩

/-- A position has the value of the segment that it is in. -/
theorem Segmentation.value_iff (h : Segmentation f n l) (hk : k < n) (v : Bool) :
    f k = v ↔ ∃ s ∈ l, s.value = v ∧ s.first ≤ k ∧ k < s.stop := by
  constructor
  · intro hv
    obtain ⟨s, hhead, h0⟩ := h.first
    cases l with
    | nil => cases hhead
    | cons t l =>
      obtain rfl : t = s := Option.some.inj hhead
      obtain ⟨u, hu, hfirst, hstop⟩ := exists_segment h.chain h.stop (by omega) hk
      exact ⟨u, hu, (h.value u hu k hfirst hstop).symm.trans hv, hfirst, hstop⟩
  · rintro ⟨s, hs, rfl, hfirst, hstop⟩
    exact h.value s hs k hfirst hstop

/-- The segments done with, and the one the tracker is in. -/
structure Tracker where
  done : List Segment
  value : Bool
  start : Nat
  next : Nat

namespace Tracker

/-- All the segments. -/
def segments (t : Tracker) : List Segment := t.done ++ [⟨t.value, t.start, t.next⟩]

/-- `n` bits of value `v`. -/
def feed (t : Tracker) (v : Bool) (n : Nat) : Tracker :=
  if v = t.value then { t with next := t.next + n } else ⟨t.segments, v, t.next, t.next + n⟩

/-- The next `n` bits of `f`, one by one. -/
def run (f : Nat → Bool) : Nat → Tracker → Tracker
  | 0, t => t
  | n + 1, t => run f n (t.feed (f t.next) 1)

variable {t : Tracker} {v : Bool} {m : Nat}

@[simp] lemma feed_next (t : Tracker) (v : Bool) (n : Nat) : (t.feed v n).next = t.next + n := by
  unfold feed
  split_ifs <;> rfl

lemma feed_feed : (t.feed v n).feed v m = t.feed v (n + m) := by
  unfold feed
  by_cases hv : v = t.value
  · rw [if_pos hv, if_pos hv, if_pos hv, Nat.add_assoc]
  · rw [if_neg hv, if_neg hv, if_pos rfl, Nat.add_assoc]

lemma run_next : (t.run f n).next = t.next + n := by
  induction n generalizing t with
  | zero => rfl
  | succ n ih =>
    rw [run, ih, feed_next]
    omega

lemma run_add : t.run f (n + m) = (t.run f n).run f m := by
  induction n generalizing t with
  | zero => rw [Nat.zero_add, run]
  | succ n ih =>
    rw [Nat.succ_add, run, run, ih]

/-- Equal bits can be fed at once. -/
theorem run_eq_feed (hv : ∀ k, k < n + 1 → f (t.next + k) = v) : t.run f (n + 1) = t.feed v (n + 1) := by
  induction n generalizing t with
  | zero =>
    rw [run, run, ← hv 0 (Nat.lt_succ_self 0)]
    rfl
  | succ n ih =>
    have hhead : f t.next = v := hv 0 (Nat.succ_pos _)
    rw [run, hhead, ih]
    · rw [feed_feed, Nat.add_comm 1]
    · intro k hk
      rw [feed_next, Nat.add_assoc, Nat.add_comm 1]
      exact hv (k + 1) (Nat.succ_lt_succ hk)

/-- The segments of the bits fed so far stay the segments when another bit is fed. -/
lemma segmentation_feed (h : Segmentation f t.next t.segments) :
    Segmentation f (t.next + 1) (t.feed (f t.next) 1).segments := by
  unfold feed
  split_ifs with hv
  · have hchain := List.isChain_append.mp h.chain
    refine ⟨List.isChain_append.mpr ⟨hchain.1, .singleton _, fun s hs u hu => ?_⟩, ?_, ?_, fun s hs k hfirst hstop => ?_⟩
    · obtain rfl := Option.some.inj hu
      exact hchain.2.2 s hs ⟨t.value, t.start, t.next⟩ rfl
    · obtain ⟨s, hhead, h0⟩ := h.first
      unfold segments at hhead ⊢
      cases hdone : t.done with
      | nil =>
        rw [hdone] at hhead
        obtain rfl := Option.some.inj hhead
        exact ⟨_, rfl, h0⟩
      | cons u l =>
        rw [hdone] at hhead
        exact ⟨s, hhead, h0⟩
    · exact ⟨_, List.getLast?_concat, rfl⟩
    · rcases List.mem_append.mp hs with hs | hs
      · exact h.value s (List.mem_append_left _ hs) k hfirst hstop
      · obtain rfl := List.mem_singleton.mp hs
        by_cases hk : k = t.next
        · rw [hk]
          exact hv
        · refine h.value ⟨t.value, t.start, t.next⟩ (List.mem_append_right _ (List.mem_singleton_self _)) k hfirst ?_
          change k < t.next
          change k < t.next + 1 at hstop
          omega
  · refine ⟨List.isChain_append.mpr ⟨h.chain, .singleton _, fun s hs u hu => ?_⟩, ?_, ?_, fun s hs k hfirst hstop => ?_⟩
    · obtain rfl := Option.some.inj hu
      have hlast : t.segments.getLast? = some ⟨t.value, t.start, t.next⟩ := List.getLast?_concat
      rw [hlast] at hs
      obtain rfl := Option.some.inj hs
      exact ⟨Bool.eq_not_of_ne hv, rfl⟩
    · obtain ⟨s, hhead, h0⟩ := h.first
      refine ⟨s, ?_, h0⟩
      change (t.segments ++ _).head? = some s
      rw [List.head?_append, hhead]
      rfl
    · exact ⟨_, List.getLast?_concat, rfl⟩
    · rcases List.mem_append.mp hs with hs | hs
      · exact h.value s hs k hfirst hstop
      · obtain rfl := List.mem_singleton.mp hs
        change t.next ≤ k at hfirst
        change k < t.next + 1 at hstop
        obtain rfl : k = t.next := by omega
        rfl

/-- The tracker keeps the segments of what it is fed. -/
theorem segmentation_run (h : Segmentation f t.next t.segments) :
    Segmentation f (t.next + n) (t.run f n).segments := by
  induction n generalizing t with
  | zero => exact h
  | succ n ih =>
    have hnext := ih (t := t.feed (f t.next) 1) (by rw [feed_next]; exact segmentation_feed h)
    rw [feed_next, Nat.add_assoc, Nat.add_comm 1] at hnext
    exact hnext

/-- No segment is empty, and none goes beyond the bits fed. -/
def Proper (t : Tracker) : Prop := ∀ s ∈ t.segments, s.first < s.stop ∧ s.stop ≤ t.next

lemma proper_feed (h : t.Proper) : (t.feed v 1).Proper := by
  intro s hs
  rw [feed_next]
  unfold feed at hs
  split_ifs at hs
  · rcases List.mem_append.mp hs with hs | hs
    · have hdone := h s (List.mem_append_left _ hs)
      omega
    · obtain rfl := List.mem_singleton.mp hs
      have hcurrent := (h ⟨t.value, t.start, t.next⟩ (List.mem_append_right _ (List.mem_singleton_self _))).1
      change t.start < t.next at hcurrent
      change t.start < t.next + 1 ∧ t.next + 1 ≤ t.next + 1
      omega
  · rcases List.mem_append.mp hs with hs | hs
    · have hdone := h s hs
      omega
    · obtain rfl := List.mem_singleton.mp hs
      exact ⟨Nat.lt_succ_self t.next, Nat.le_refl _⟩

lemma proper_run (h : t.Proper) : (t.run f n).Proper := by
  induction n generalizing t with
  | zero => exact h
  | succ n ih => exact ih (proper_feed h)

/-- What the tracker is done with stays. -/
lemma done_run : t.done <+: (t.run f n).done := by
  induction n generalizing t with
  | zero => exact List.prefix_refl _
  | succ n ih =>
    refine List.IsPrefix.trans ?_ (ih (t := t.feed (f t.next) 1))
    unfold feed
    split_ifs
    · exact List.prefix_refl _
    · exact List.prefix_append _ _

end Tracker

end Segments
