import HaiirOS.Proofs.MapSpec
import Mathlib.Data.Finset.Card

/-!
# The stock of free frames

How many frames are free, and what an allocation takes from them. With enough free frames
that all hold zeros every table that a map needs can be made.
-/

namespace HaiirOS

open RunSearch

namespace Pmm

/-- The frames that the bitmap has as free. -/
def freeSet (p : Pmm) : Finset Nat := (Finset.range (8 * p.bitmapSize)).filter fun f => p.free f = true

variable {p : Pmm} {s n : Nat}

lemma mem_freeSet {f : Nat} : f ∈ p.freeSet ↔ f < 8 * p.bitmapSize ∧ p.free f = true := by
  rw [freeSet, Finset.mem_filter, Finset.mem_range]

lemma free_iff (p : Pmm) (f : Nat) : p.free f = true ↔ p.used f = false := by
  rw [free, Bool.not_eq_true']

lemma Valid.freeSet_handOut_one (h : p.Valid) (hs : p.NextRun 1 s) :
    (p.handOut s 1).freeSet = p.freeSet.erase s := by
  have hsize : (p.handOut s 1).bitmapSize = p.bitmapSize := (p.handOut_keeps s 1).bitmapSize
  ext f
  rw [mem_freeSet, Finset.mem_erase, mem_freeSet, hsize, free_iff, free_iff, ← Bool.not_eq_true,
    h.used_handOut_one hs, not_or, Bool.not_eq_true]
  exact and_left_comm

lemma Valid.card_handOut_one (h : p.Valid) (hs : p.NextRun 1 s) :
    (p.handOut s 1).freeSet.card + 1 = p.freeSet.card := by
  have hmem : s ∈ p.freeSet :=
    mem_freeSet.mpr ⟨Nat.lt_of_succ_le hs.le_bitmap, hs.allFree s (Nat.le_refl s) (Nat.lt_succ_self s)⟩
  rw [h.freeSet_handOut_one hs]
  exact Finset.card_erase_add_one hmem

lemma Valid.card_handOut (h : p.Valid) (hs : p.NextRun n s) :
    p.freeSet.card ≤ (p.handOut s n).freeSet.card + n := by
  have hsize : (p.handOut s n).bitmapSize = p.bitmapSize := (p.handOut_keeps s n).bitmapSize
  have hle := hs.le_bitmap
  have hlt := h.size
  have hmod := Nat.mod_le n (2 ^ 32)
  have hsub : p.freeSet ⊆ (p.handOut s n).freeSet ∪ (Finset.range n).image (s + ·) := by
    intro f hf
    rw [mem_freeSet, free_iff] at hf
    rw [Finset.mem_union, mem_freeSet, free_iff, hsize, used_handOut p (by omega), Finset.mem_image]
    split_ifs with ht
    · obtain ⟨h1, h2, -⟩ := ht
      refine Or.inr ⟨f - s, Finset.mem_range.mpr (by omega), by omega⟩
    · exact Or.inl hf
  calc p.freeSet.card ≤ ((p.handOut s n).freeSet ∪ (Finset.range n).image (s + ·)).card := Finset.card_le_card hsub
    _ ≤ (p.handOut s n).freeSet.card + ((Finset.range n).image (s + ·)).card := Finset.card_union_le ..
    _ ≤ (p.handOut s n).freeSet.card + n := by
      have himage := Finset.card_image_le (s := Finset.range n) (f := (s + ·))
      rw [Finset.card_range] at himage
      omega

/-- A single frame is handed out as long as one is free: the second search starts below frame 8. -/
lemma Valid.exists_nextRun (h : p.Valid) (hlow : ∀ f, f < 8 → p.used f = true) (hpos : 0 < p.freeSet.card) :
    ∃ s, p.NextRun 1 s := by
  obtain ⟨f, hf⟩ := Finset.card_pos.mp hpos
  rw [mem_freeSet] at hf
  have hge : 8 ≤ f := by
    by_contra hlt
    rw [free_iff, hlow f (by omega)] at hf
    cases hf.2
  rcases p.pmmAllocUnmapped_spec (by decide : 0 < 1) h.lastIdxBit h.zero with ⟨s, -, hs, -⟩ | ⟨-, hno, -⟩
  · exact ⟨s, hs⟩
  · have hcursor : p.restart.cursor ≤ f := by
      simp only [cursor, restart]
      omega
    refine (hno f hcursor hf.1 fun g h1 h2 => ?_).elim
    obtain rfl : g = f := by omega
    exact hf.2

/-- An allocation, even a failing one, frees nothing and takes no more frames than it is asked for. -/
lemma Valid.freeSet_alloc (h : p.Valid) (n : Nat) :
    (p.pmmAllocUnmapped n).2.freeSet ⊆ p.freeSet ∧ p.freeSet.card ≤ (p.pmmAllocUnmapped n).2.freeSet.card + n := by
  rcases Nat.eq_zero_or_pos n with rfl | hn
  · exact ⟨subset_rfl, Nat.le_refl _⟩
  · rcases p.pmmAllocUnmapped_spec hn h.lastIdxBit h.zero with ⟨s, -, hs, hr⟩ | ⟨-, -, hr⟩
    · have hsize : (p.handOut s n).bitmapSize = p.bitmapSize := (p.handOut_keeps s n).bitmapSize
      have hcard := h.card_handOut hs
      have hmono (f : Nat) (hf : p.used f = true) := h.used_mono n hf
      rw [hr] at hmono
      rw [hr]
      refine ⟨fun f hf => ?_, hcard⟩
      rw [mem_freeSet, hsize, free_iff] at hf
      rw [mem_freeSet, free_iff]
      refine ⟨hf.1, ?_⟩
      by_contra hu
      rw [Bool.not_eq_false] at hu
      rw [hmono f hu] at hf
      cases hf.2
    · rw [hr]
      exact ⟨subset_rfl, Nat.le_add_right ..⟩

end Pmm

/-- All free frames hold zeros in `mem`, and there are at least `n` of them. -/
structure Stocked (mem : Mem) (n : Nat) (p : Pmm) : Prop where
  clean : ∀ f ∈ p.freeSet, ∀ i : Fin 512, mem (slot f i) = 0#64
  enough : n ≤ p.freeSet.card

lemma Stocked.le {mem : Mem} {n k : Nat} {p : Pmm} (h : Stocked mem n p) (hk : k ≤ n) : Stocked mem k p :=
  ⟨h.clean, hk.trans h.enough⟩

lemma Stocked.supplied {mem : Mem} {n : Nat} {p : Pmm} (h : Stocked mem n p) (hv : p.Valid)
    (hlow : ∀ f, f < 8 → p.used f = true) : Supplied mem n p := by
  induction n generalizing p with
  | zero => trivial
  | succ n ih =>
    have hcard := h.enough
    obtain ⟨s, hs⟩ := hv.exists_nextRun hlow (by omega)
    have halloc := hv.alloc_eq (by decide : 0 < 1) hs
    have hv' := hv.handOut (by decide) hs
    have hmono (f : Nat) (hf : p.used f = true) := hv.used_mono 1 hf
    rw [halloc] at hmono
    have hsub := hv.freeSet_handOut_one hs
    have htake := hv.card_handOut_one hs
    refine ⟨s, hs, h.clean s ?_, ih ⟨?_, by omega⟩ hv' fun f hf => hmono f (hlow f hf)⟩
    · exact Pmm.mem_freeSet.mpr ⟨Nat.lt_of_succ_le hs.le_bitmap, hs.allFree s (Nat.le_refl s) (Nat.lt_succ_self s)⟩
    · intro f hf
      rw [hsub] at hf
      exact h.clean f (Finset.mem_of_mem_erase hf)

lemma Supplied.card_singles {mem : Mem} {n : Nat} {p : Pmm} (h : Supplied mem n p) (hv : p.Valid) :
    (p.singles n).freeSet.card + n = p.freeSet.card ∧ (p.singles n).freeSet ⊆ p.freeSet := by
  induction n generalizing p with
  | zero => exact ⟨rfl, subset_rfl⟩
  | succ n ih =>
    obtain ⟨s, hs, -, hrest⟩ := h
    have hv' := hv.handOut (by decide) hs
    obtain ⟨hcard, hsub⟩ := ih hrest hv'
    have htake := hv.card_handOut_one hs
    rw [hv.freeSet_handOut_one hs] at hsub
    rw [Pmm.singles, hv.alloc_eq (by decide) hs]
    change (Pmm.singles n (p.handOut s 1)).freeSet.card + _ = _ ∧ _
    exact ⟨by omega, hsub.trans (Finset.erase_subset ..)⟩

lemma Pmm.Valid.singles {p : Pmm} (h : p.Valid) (n : Nat) : (p.singles n).Valid := by
  induction n generalizing p with
  | zero => exact h
  | succ n ih => exact ih (h.alloc 1)

lemma Pmm.Valid.used_singles {p : Pmm} (h : p.Valid) (n : Nat) {f : Nat} (hf : p.used f = true) :
    (p.singles n).used f = true := by
  induction n generalizing p with
  | zero => exact hf
  | succ n ih => exact ih (h.alloc 1) (h.used_mono 1 hf)

/-- Single-frame allocations, even failing ones, free nothing and take no more frames than they are asked for. -/
lemma Pmm.Valid.freeSet_singles {p : Pmm} (h : p.Valid) (n : Nat) :
    (p.singles n).freeSet ⊆ p.freeSet ∧ p.freeSet.card ≤ (p.singles n).freeSet.card + n := by
  induction n generalizing p with
  | zero => exact ⟨subset_rfl, Nat.le_refl _⟩
  | succ n ih =>
    obtain ⟨hsub, hcard⟩ := h.freeSet_alloc 1
    obtain ⟨hsub', hcard'⟩ := ih (h.alloc 1)
    refine ⟨hsub'.trans hsub, ?_⟩
    rw [Pmm.singles]
    omega

lemma Pmm.singles_add (p : Pmm) (a b : Nat) : p.singles (a + b) = (p.singles a).singles b := by
  induction a generalizing p with
  | zero => rw [Nat.zero_add, Pmm.singles]
  | succ a ih => rw [Nat.succ_add, Pmm.singles, Pmm.singles, ih]

lemma Supplied.drop {mem : Mem} {a b : Nat} {p : Pmm} (hv : p.Valid) (h : Supplied mem (a + b) p) :
    Supplied mem b (p.singles a) := by
  induction a generalizing p with
  | zero => rwa [Nat.zero_add] at h
  | succ a ih =>
    rw [Nat.succ_add] at h
    obtain ⟨s, hs, -, hrest⟩ := h
    rw [Pmm.singles, hv.alloc_eq (by decide) hs]
    exact ih (hv.handOut (by decide) hs) hrest

lemma Supplied.take {mem : Mem} {a b : Nat} {p : Pmm} (h : Supplied mem (a + b) p) : Supplied mem a p := by
  induction a generalizing p with
  | zero => trivial
  | succ a ih =>
    rw [Nat.succ_add] at h
    obtain ⟨s, hs, hz, hrest⟩ := h
    exact ⟨s, hs, hz, ih hrest⟩

namespace Mapped

variable {w : WindowTables} {rank rank' : Nat → Nat} {root p k : Nat} {page e : Word} {m m' : Machine}

lemma free_data (h : Mapped w rank rank' root page e p m m') {f : Nat} (hf : m'.pmm.used f = false) (i : Fin 512) :
    m'.mem (slot f i) = m.mem (slot f i) :=
  h.data (h.tables.rank_of_free hf) i

/-- A map leaves free frames empty, and takes one for each missing table. -/
lemma stocked (h : Mapped w rank rank' root page e p m m') (ht : Tables rank w m)
    (hs : Stocked m.mem (missing m.mem page 3 root + k) m.pmm) : Stocked m'.mem k m'.pmm := by
  have hsup := (hs.le (Nat.le_add_right _ k)).supplied ht.valid fun f hf => ht.low_used f (by omega)
  obtain ⟨hcard, hsub⟩ := hsup.card_singles ht.valid
  rw [← h.pmm] at hcard hsub
  have henough := hs.enough
  refine ⟨fun f hf i => ?_, by omega⟩
  rw [h.free_data ((Pmm.free_iff _ f).mp (Pmm.mem_freeSet.mp hf).2), hs.clean f (hsub hf) i]

/-- A map uses up as much of a supply as it makes tables. -/
lemma supplied (h : Mapped w rank rank' root page e p m m') (ht : Tables rank w m)
    (hs : Supplied m.mem (missing m.mem page 3 root + k) m.pmm) : Supplied m'.mem k m'.pmm := by
  apply Supplied.mono h.tables.valid (fun f hf i => h.free_data hf i)
  rw [h.pmm]
  exact hs.drop ht.valid

end Mapped

end HaiirOS
