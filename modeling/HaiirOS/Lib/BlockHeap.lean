import HaiirOS.Lib.Runs

/-!
# A heap of blocks

An allocator hands out blocks of addresses that hold a known value and takes none back, and values are
stored in the blocks handed out. Blocks do not overlap, and an address keeps what was stored there last.
-/

namespace BlockHeap

open Runs

structure Block where
  base : Nat
  size : Nat

def Block.Has (b : Block) (a : Nat) : Prop := b.base ≤ a ∧ a < b.base + b.size

lemma Block.has_base {base size : Nat} (h : 0 < size) : Block.Has ⟨base, size⟩ base :=
  ⟨Nat.le_refl _, Nat.lt_add_of_pos_right h⟩

/-- No address lies in both blocks. -/
def Block.Apart (b b' : Block) : Prop := ∀ a, b.Has a → ¬ b'.Has a

/-- The blocks handed out, the newest first, and what the addresses hold. -/
structure Heap (V : Type) where
  blocks : List Block
  contents : Nat → V

inductive Op (V : Type) where
  | alloc (b : Block)
  | store (a : Nat) (v : V)

variable {V : Type}

namespace Heap

/-- The heap with a new block, which holds `fresh`. -/
def alloc (fresh : V) (s : Heap V) (b : Block) : Heap V :=
  ⟨b :: s.blocks, fun a => if b.base ≤ a ∧ a < b.base + b.size then fresh else s.contents a⟩

def store (s : Heap V) (a : Nat) (v : V) : Heap V := ⟨s.blocks, fun k => if k = a then v else s.contents k⟩

def step (fresh : V) (s : Heap V) (op : Op V) (t : Heap V) : Prop :=
  match op with
  | .alloc b => (∀ b' ∈ s.blocks, b.Apart b') ∧ t = s.alloc fresh b
  | .store a v => (∃ b ∈ s.blocks, b.Has a) ∧ t = s.store a v

end Heap

/-- What is at address `a` after the stores, if it was `v` before them. -/
def lastStored (a : Nat) (v : V) (ops : List (Op V)) : V :=
  ops.foldl (fun v op => match op with
    | .alloc _ => v
    | .store k x => if k = a then x else v) v

section Runs

variable {fresh : V} {s t : Heap V} {ops : List (Op V)} {b : Block} {a : Nat}

/-- Blocks stay, and new ones do not overlap. -/
lemma blocks_run (hrun : Run (Heap.step fresh) s ops t) (h : s.blocks.Pairwise Block.Apart) :
    s.blocks <:+ t.blocks ∧ t.blocks.Pairwise Block.Apart := by
  induction hrun with
  | nil s => exact ⟨List.suffix_rfl, h⟩
  | @cons s u t op ops hstep _ ih =>
    cases op with
    | alloc b =>
      obtain ⟨hapart, rfl⟩ := hstep
      obtain ⟨hsub, hpair⟩ := ih (List.pairwise_cons.mpr ⟨hapart, h⟩)
      exact ⟨(List.suffix_cons b s.blocks).trans hsub, hpair⟩
    | store k x =>
      obtain ⟨-, rfl⟩ := hstep
      exact ih h

/-- An address of a block keeps what was stored there last. -/
theorem contents_run (hrun : Run (Heap.step fresh) s ops t) (hb : b ∈ s.blocks) (ha : b.Has a) :
    t.contents a = lastStored a (s.contents a) ops := by
  induction hrun with
  | nil s => rfl
  | @cons s u t op ops hstep _ ih =>
    cases op with
    | alloc b' =>
      obtain ⟨hapart, rfl⟩ := hstep
      have hsame : (s.alloc fresh b').contents a = s.contents a := if_neg fun h => hapart b hb a h ha
      rw [ih (List.mem_cons_of_mem b' hb), hsame]
      rfl
    | store k x =>
      obtain ⟨-, rfl⟩ := hstep
      have hsame : (s.store k x).contents a = if k = a then x else s.contents a := by
        change (if a = k then x else s.contents a) = _
        simp only [eq_comm]
      rw [ih hb, hsame]
      rfl

/-- An address of a block that was handed out on the way holds what was stored there last. -/
theorem contents_since (hrun : Run (Heap.step fresh) s ops t) (hnone : ∀ b ∈ s.blocks, ¬ b.Has a) (hb : b ∈ t.blocks)
    (ha : b.Has a) : t.contents a = lastStored a fresh ops := by
  induction hrun with
  | nil s => exact (hnone b hb ha).elim
  | @cons s u t op ops hstep hrest ih =>
    cases op with
    | alloc b' =>
      obtain ⟨-, rfl⟩ := hstep
      by_cases hin : b'.Has a
      · have hfresh : (s.alloc fresh b').contents a = fresh := if_pos hin
        rw [contents_run hrest List.mem_cons_self hin, hfresh]
        rfl
      · refine ih (fun c hc => ?_) hb
        rcases List.mem_cons.mp hc with rfl | hc
        · exact hin
        · exact hnone c hc
    | store k x =>
      obtain ⟨⟨c, hc, hk⟩, rfl⟩ := hstep
      have hne : k ≠ a := by
        rintro rfl
        exact hnone c hc hk
      have hskip : lastStored a fresh (.store k x :: ops) = lastStored a fresh ops :=
        congrArg (List.foldl _ · ops) (if_neg hne)
      rw [hskip]
      exact ih hnone hb

end Runs

end BlockHeap
