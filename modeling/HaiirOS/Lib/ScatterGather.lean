import Mathlib.Algebra.Group.Nat.Defs
import Mathlib.Logic.Function.Basic

/-!
# Scatter and gather lists

Bytes that are stored one after the other at the addresses of a list of regions. Regions that follow each other
are one run of addresses.
-/

namespace ScatterGather

variable {β : Type}

structure Region where
  addr : Nat
  size : Nat

/-- The addresses of the regions, in order. -/
def addresses (rs : List Region) : List Nat := rs.flatMap fun r => List.range' r.addr r.size

/-- The memory after the values of `f` are stored at the addresses in order. -/
def store (as : List Nat) (f : Nat → β) (mem : Nat → β) : Nat → β :=
  (List.range as.length).foldl (fun mem i => Function.update mem (as.getD i 0) (f i)) mem

lemma getD_range' {base n i : Nat} (hi : i < n) : (List.range' base n).getD i 0 = base + i := by
  rw [List.getD_eq_getElem?_getD, List.getElem?_range' hi, Option.getD_some, Nat.one_mul]

/-- A run of addresses. -/
lemma store_range' (base n : Nat) (f : Nat → β) (mem : Nat → β) (a : Nat) :
    store (List.range' base n) f mem a = if base ≤ a ∧ a < base + n then f (a - base) else mem a := by
  have hprefix (k : Nat) (hk : k ≤ n) :
      (List.range k).foldl (fun mem i => Function.update mem ((List.range' base n).getD i 0) (f i)) mem a =
        if base ≤ a ∧ a < base + k then f (a - base) else mem a := by
    induction k with
    | zero => exact (if_neg (by omega)).symm
    | succ k ih =>
      rw [List.range_succ, List.foldl_append, List.foldl_cons, List.foldl_nil, getD_range' (by omega)]
      by_cases ha : a = base + k
      · rw [ha, Function.update_self, if_pos (by omega), Nat.add_sub_cancel_left]
      · have hiff : (base ≤ a ∧ a < base + (k + 1)) ↔ (base ≤ a ∧ a < base + k) := by omega
        rw [Function.update_of_ne ha, ih (by omega)]
        simp only [hiff]
  unfold store
  rw [List.length_range']
  exact hprefix n (Nat.le_refl n)

/-- Byte after byte is copied from one run of addresses to another. -/
def copy (dst src n : Nat) (mem : Nat → β) : Nat → β :=
  (List.range n).foldl (fun mem i => Function.update mem (dst + i) (mem (src + i))) mem

/-- A copy between runs apart. -/
lemma copy_apart {dst src n : Nat} (h : dst + n ≤ src ∨ src + n ≤ dst) (mem : Nat → β) (a : Nat) :
    copy dst src n mem a = if dst ≤ a ∧ a < dst + n then mem (src + (a - dst)) else mem a := by
  have hprefix (k : Nat) (hk : k ≤ n) (a : Nat) :
      (List.range k).foldl (fun mem i => Function.update mem (dst + i) (mem (src + i))) mem a =
        if dst ≤ a ∧ a < dst + k then mem (src + (a - dst)) else mem a := by
    induction k generalizing a with
    | zero => exact (if_neg (by omega)).symm
    | succ k ih =>
      rw [List.range_succ, List.foldl_append, List.foldl_cons, List.foldl_nil]
      by_cases ha : a = dst + k
      · -- the byte that is read has not been written before
        rw [ha, Function.update_self, ih (by omega), if_neg (by omega), if_pos (by omega), Nat.add_sub_cancel_left]
      · have hiff : (dst ≤ a ∧ a < dst + (k + 1)) ↔ (dst ≤ a ∧ a < dst + k) := by omega
        rw [Function.update_of_ne ha, ih (by omega)]
        simp only [hiff]
  exact hprefix n (Nat.le_refl n) a

end ScatterGather
