import Mathlib.Logic.Function.Basic
import Mathlib.Tactic.SplitIfs

/-!
# Searching a run of free positions

A scan over positions that counts how many in a row are free and stops as soon as the
count is large enough. The scan finds the first run, and it can be cut into pieces.
-/

namespace RunSearch

/-- What a scan returns: the last position of the run and its length, or how many free
positions in a row it had seen at the end. -/
inductive Scan where
  | found (last len : Nat)
  | more (len : Nat)
deriving DecidableEq

section

variable (free : Nat → Bool) (count : Nat)

/-- Looks at the `n` positions from `f` on, `len` free ones directly before `f` counted. -/
def scan : Nat → Nat → Nat → Scan
  | 0, _, len => .more len
  | n + 1, f, len =>
    if free f then
      if count ≤ len + 1 then .found f (len + 1) else scan n (f + 1) (len + 1)
    else scan n (f + 1) 0

/-- All `n` positions from `s` on are free. -/
def AllFree (s n : Nat) : Prop := ∀ f, s ≤ f → f < s + n → free f = true

/-- `s` is the first position from `lo` on where a free run of `count` positions that ends
below `hi` starts. -/
structure IsFirst (lo hi s : Nat) : Prop where
  lo_le : lo ≤ s
  le_hi : s + count ≤ hi
  allFree : AllFree free s count
  first : ∀ t, lo ≤ t → t < s → ¬ AllFree free t count

end

variable {free : Nat → Bool} {count : Nat}

lemma scan_add (m n f len : Nat) : scan free count (m + n) f len =
    match scan free count m f len with
    | .found e c => .found e c
    | .more c => scan free count n (f + m) c := by
  induction m generalizing f len with
  | zero => simp [scan]
  | succ m ih =>
    have hs : f + (m + 1) = f + 1 + m := by omega
    rw [show m + 1 + n = m + n + 1 by omega, scan, scan, hs]
    split_ifs with hf hc
    · rfl
    · exact ih (f + 1) (len + 1)
    · exact ih (f + 1) 0

lemma scan_used {n f : Nat} (hn : 0 < n) (h : ∀ g, f ≤ g → g < f + n → free g = false) (len : Nat) :
    scan free count n f len = .more 0 := by
  induction n generalizing f len with
  | zero => omega
  | succ n ih =>
    rw [scan, if_neg (by simp [h f (Nat.le_refl f) (by omega)])]
    cases n with
    | zero => rfl
    | succ n => exact ih (by omega) (fun g h1 h2 => h g (by omega) (by omega)) 0

lemma scan_found_range {n f len e l : Nat}
    (h : scan free count n f len = .found e l) : f ≤ e ∧ e < f + n := by
  induction n generalizing f len with
  | zero => simp [scan] at h
  | succ n ih =>
    rw [scan] at h
    split_ifs at h with h1 h2
    · simp only [Scan.found.injEq] at h
      omega
    · have := ih h
      omega
    · have := ih h
      omega

/-- The state of a scan that started at `lo` and has reached `f`. -/
structure Scanned (free : Nat → Bool) (count lo f len : Nat) : Prop where
  short : len < count
  start : lo + len ≤ f
  allFree : AllFree free (f - len) len
  first : ∀ t, lo ≤ t → t < f - len → ¬ AllFree free t count

lemma Scanned.init (free : Nat → Bool) (hc : 0 < count) (lo : Nat) : Scanned free count lo lo 0 where
  short := hc
  start := Nat.le_refl lo
  allFree := fun f h1 h2 => by omega
  first := fun t h1 h2 => by omega

lemma Scanned.grow {lo f len : Nat} (h : Scanned free count lo f len) (hf : free f = true) :
    AllFree free (f - len) (len + 1) := by
  have hs := h.start
  intro g h1 h2
  by_cases hg : g = f
  · rwa [hg]
  · exact h.allFree g h1 (by omega)

lemma Scanned.skip {lo f len : Nat} (h : Scanned free count lo f len) (hf : free f = false) :
    Scanned free count lo (f + 1) 0 where
  short := by have := h.short; omega
  start := by have := h.start; omega
  allFree := fun g h1 h2 => by omega
  first := by
    intro t h1 h2 hall
    have hs := h.short
    have hl := h.start
    by_cases ht : t < f - len
    · exact h.first t h1 ht hall
    · -- a run that starts after the last used position would contain `f`
      rw [hall f (by omega) (by omega)] at hf
      cases hf

/-- A scan stops at the first run, or has passed every start of one. -/
theorem scan_spec {lo f len : Nat} (n : Nat) (h : Scanned free count lo f len) :
    match scan free count n f len with
    | .found e c => c = count ∧ count ≤ e + 1 ∧ IsFirst free count lo (f + n) (e + 1 - count)
    | .more c => Scanned free count lo (f + n) c := by
  induction n generalizing f len with
  | zero => exact h
  | succ n ih =>
    have hs := h.short
    have hl := h.start
    rw [show f + (n + 1) = f + 1 + n by omega, scan]
    cases hf : free f with
    | false =>
      rw [if_neg (by simp)]
      exact ih (h.skip hf)
    | true =>
      have hall := h.grow hf
      rw [if_pos rfl]
      by_cases hc : count ≤ len + 1
      · rw [if_pos hc]
        have hlen : len + 1 = count := by omega
        have hstart : f + 1 - count = f - len := by omega
        refine ⟨hlen, by omega, ?_⟩
        rw [hstart]
        exact ⟨by omega, by omega, hlen ▸ hall, h.first⟩
      · rw [if_neg hc]
        have hstart : f + 1 - (len + 1) = f - len := by omega
        exact ih ⟨by omega, by omega, hstart ▸ hall, fun t h1 h2 => h.first t h1 (by omega)⟩

/-- A scan that has passed `f` without stopping rules out every run that ends by `f`. -/
lemma Scanned.no_run {lo f len s : Nat} (h : Scanned free count lo f len) (h1 : lo ≤ s)
    (h2 : s + count ≤ f) : ¬ AllFree free s count := by
  have hs := h.short
  exact h.first s h1 (by omega)

lemma IsFirst.unique {lo hi s t : Nat} (hs : IsFirst free count lo hi s)
    (ht : IsFirst free count lo hi t) : s = t := by
  rcases Nat.lt_trichotomy s t with h | h | h
  · exact (ht.first s hs.lo_le h hs.allFree).elim
  · exact h
  · exact (hs.first t ht.lo_le h ht.allFree).elim

end RunSearch
