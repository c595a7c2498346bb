import HaiirOS.Proofs.FrameIntervals
import HaiirOS.Proofs.FrameRuns

/-!
# The balance of the frame bitmap

An allocation contributes the marks under the masks of its reserve, and giving it back takes the
marks under the same masks away. The masks of a run of free frames lie inside of the run, so the
contributions of the live ranges stay apart, and the bitmap is the initial one again when all
ranges are given back.
-/

namespace HaiirOS

open PackedBits RunSearch Runs
open Pmm (frameMasks)

/-- Bit `f` is under the masks of the allocation. -/
def Contributes (a : Nat × Nat) (f : Nat) : Prop := Covered (frameMasks a.1 (a.2 * frameSize)) f

namespace Ledger

/-- The bitmap is the bitmap of `p` and the disjoint contributions of the live ranges. -/
structure Balanced (p : Pmm) (l : Ledger) : Prop where
  used : ∀ f, l.pmm.used f = true ↔ p.used f = true ∨ ∃ a ∈ l.live, Contributes a f
  fresh : ∀ a ∈ l.live, ∀ f, Contributes a f → p.used f = false
  disjoint : l.live.Pairwise fun a b => ∀ f, Contributes a f → ¬ Contributes b f

variable {p : Pmm} {l l' : Ledger}

/-- With nothing live the bitmap is the initial one, bit for bit. -/
theorem Balanced.restored (h : Balanced p l) (hlive : l.live = []) : l.pmm.get = p.get := by
  apply ext_member
  intro f
  have hf := h.used f
  simp only [hlive, List.not_mem_nil, false_and, exists_false, or_false] at hf
  exact Bool.eq_iff_iff.mpr hf

lemma used_handOut_masks (p : Pmm) (s n f : Nat) :
    (p.handOut s n).used f = true ↔ Contributes (s * 4096, n) f ∨ p.used f = true := by
  have h := Pmm.used_reserveFrames_masks
    { p with lastIdx := (s + n - 1) / 8, lastIdxBit := 7 - (s + n - 1) % 8 } (s * 4096) (n * 4096) f
  rw [Pmm.handOut, h]
  by_cases hc : Covered (frameMasks (s * 4096) (n * 4096)) f
  · rw [if_pos hc]
    exact iff_of_true rfl (Or.inl hc)
  · rw [if_neg hc]
    exact (or_iff_right hc).symm

lemma used_freeFrames_contributes (p : Pmm) (addr count f : Nat) :
    (p.freeFrames addr (count * frameSize)).used f = true ↔ ¬ Contributes (addr, count) f ∧ p.used f = true := by
  rw [Pmm.used_freeFrames_masks]
  by_cases hc : Covered (frameMasks addr (count * frameSize)) f
  · rw [if_pos hc]
    exact iff_of_false Bool.false_ne_true fun h => h.1 hc
  · rw [if_neg hc]
    exact (and_iff_right hc).symm

/-- What allocations and frees preserve. -/
structure BalancedInv (p : Pmm) (l : Ledger) : Prop where
  lastIdxBit : l.pmm.lastIdxBit ≤ 7
  bitmapSize : l.pmm.bitmapSize = p.bitmapSize
  zero : p.used 0 = true
  high : p.HighReserved
  balanced : Balanced p l

lemma BalancedInv.used_zero (h : BalancedInv p l) : l.pmm.used 0 = true :=
  (h.balanced.used 0).mpr (Or.inl h.zero)

/-- A free run ends at frame `2 ^ 35` at the latest, and the masks of its reserve lie inside of it. -/
lemma BalancedInv.free_masks (h : BalancedInv p l) {count s : Nat} (hc : 0 < count) (hnext : l.pmm.NextRun count s) {f : Nat}
    (hf : Contributes (s * 4096, count) f) : l.pmm.used f = false := by
  have hend : s + count ≤ 2 ^ 35 := by
    by_contra hlt
    have hle := hnext.le_bitmap
    have hfree := hnext.allFree (s + count - 1) (by omega) (by omega)
    have hused := h.high (s + count - 1) (by omega) (by rw [← h.bitmapSize]; omega)
    rw [Pmm.free, (h.balanced.used _).mpr (Or.inl hused)] at hfree
    cases hfree
  have hcount : Pmm.pageCount (count * 4096) = count := by
    unfold Pmm.pageCount
    omega
  have hblock := (Pmm.covered_iff_blockTouched (s * 4096) (count * 4096) f).mp hf
  have hmod := Nat.mod_le count (2 ^ 32)
  rw [hcount, Nat.mul_div_cancel _ (by decide)] at hblock
  obtain ⟨h1, h2, -⟩ := Pmm.touched_of_blockTouched hblock (by omega)
  have hfree := hnext.allFree f h1 (by omega)
  rwa [Pmm.free, Bool.not_eq_true'] at hfree

lemma BalancedInv.alloc (h : BalancedInv p l) (count : Nat) : BalancedInv p (l.exec (.alloc count)) := by
  have hkeeps := l.pmm.pmmAllocUnmapped_keeps count h.lastIdxBit
  refine ⟨hkeeps.lastIdxBit, hkeeps.bitmapSize.trans h.bitmapSize, h.zero, h.high, ?_⟩
  by_cases hc : count = 0
  · subst hc
    exact ⟨h.balanced.used, h.balanced.fresh, h.balanced.disjoint⟩
  rcases l.pmm.pmmAllocUnmapped_spec (by omega : 0 < count) h.lastIdxBit h.used_zero with
    ⟨s, hpos, hnext, hr⟩ | ⟨-, -, hr⟩
  · have hfree (f : Nat) (hf : Contributes (s * 4096, count) f) := h.free_masks (by omega) hnext hf
    have hne : s * 4096 ≠ 0 := by omega
    have hb := h.balanced
    simp only [exec, hr, if_neg hne]
    refine ⟨fun f => ?_, fun a ha f hf => ?_, List.pairwise_cons.mpr ⟨fun b hmem f h1 h2 => ?_, hb.disjoint⟩⟩
    · simp only [used_handOut_masks, List.mem_cons, exists_eq_or_imp, hb.used f]
      exact or_left_comm
    · rcases List.mem_cons.mp ha with rfl | ha
      · -- a bit of the initial bitmap is still marked
        by_contra hp
        have hu := (hb.used f).mpr (Or.inl (Bool.not_eq_false _ ▸ hp))
        rw [hfree f hf] at hu
        cases hu
      · exact hb.fresh a ha f hf
    · have hu := (hb.used f).mpr (Or.inr ⟨b, hmem, h2⟩)
      rw [hfree f h1] at hu
      cases hu
  · simp only [exec, hr, if_true]
    exact ⟨h.balanced.used, h.balanced.fresh, h.balanced.disjoint⟩

lemma BalancedInv.free (h : BalancedInv p l) (addr count : Nat) : BalancedInv p (l.exec (.free addr count)) := by
  simp only [exec]
  split_ifs with hmem
  · have hcursor := Pmm.sameCursor_freeFrames l.pmm addr (count * frameSize)
    have hb := h.balanced
    have hpair := hb.disjoint.perm (List.perm_cons_erase hmem) (fun hab f h1 h2 => hab f h2 h1)
    have hdis := (List.pairwise_cons.mp hpair).1
    refine ⟨Nat.le_trans (Nat.le_of_eq hcursor.lastIdxBit) h.lastIdxBit, hcursor.bitmapSize.trans h.bitmapSize, h.zero,
      h.high, fun f => ?_, fun a ha => hb.fresh a (List.mem_of_mem_erase ha), hb.disjoint.sublist List.erase_sublist⟩
    rw [used_freeFrames_contributes, hb.used f]
    constructor
    · rintro ⟨hc, hp | ⟨a, ha, hf⟩⟩
      · exact Or.inl hp
      · refine Or.inr ⟨a, (List.mem_erase_of_ne ?_).mpr ha, hf⟩
        rintro rfl
        exact hc hf
    · -- a bit of the range is neither an initial one nor another live range's
      rintro (hp | ⟨a, ha, hf⟩)
      · refine ⟨fun hc => ?_, Or.inl hp⟩
        rw [hb.fresh _ hmem f hc] at hp
        cases hp
      · exact ⟨fun hc => hdis a ha f hc hf, Or.inr ⟨a, List.mem_of_mem_erase ha, hf⟩⟩
  · exact h

lemma BalancedInv.step {op : FrameOp} (h : BalancedInv p l) (ht : l.step op l') : BalancedInv p l' := by
  rw [ht]
  cases op with
  | alloc count => exact h.alloc count
  | free addr count => exact h.free addr count

lemma balancedInv_initial (hbit : p.lastIdxBit ≤ 7) (h0 : p.used 0 = true) (hhigh : p.HighReserved) :
    BalancedInv p ⟨p, []⟩ := by
  refine ⟨hbit, rfl, h0, hhigh, fun f => ?_, fun a ha => ?_, .nil⟩
  · simp
  · simp at ha

end Ledger

open Ledger

/-- In every run the bitmap stays the initial one plus the disjoint contributions of the live ranges, and is
the initial one whenever nothing is live. -/
theorem frames_balance {p : Pmm} (hbit : p.lastIdxBit ≤ 7) (h0 : p.used 0 = true) (hhigh : p.HighReserved)
    {ops : List FrameOp} {l : Ledger} (hrun : Run Ledger.step ⟨p, []⟩ ops l) :
    Balanced p l ∧ (l.live = [] → l.pmm.get = p.get) := by
  have hinv := hrun.preserved (BalancedInv p) (balancedInv_initial hbit h0 hhigh) fun _ _ _ hs ht => hs.step ht
  exact ⟨hinv.balanced, hinv.balanced.restored⟩

/-- Two allocations, one of them with a hole, and both given back. -/
theorem frames_balance_reserved : ∃ l,
    Run Ledger.step ⟨reservedPmm, []⟩ [.alloc 1, .alloc 8, .free 0x800000 1, .free 0x801000 8] l ∧
      l.live = [] ∧ l.pmm.get = reservedPmm.get := by
  have hempty : (((((⟨reservedPmm, []⟩ : Ledger).exec (.alloc 1)).exec (.alloc 8)).exec (.free 0x800000 1)).exec
      (.free 0x801000 8)).live = [] := by decide +kernel
  have hrun : Run Ledger.step ⟨reservedPmm, []⟩ [.alloc 1, .alloc 8, .free 0x800000 1, .free 0x801000 8]
      (((((⟨reservedPmm, []⟩ : Ledger).exec (.alloc 1)).exec (.alloc 8)).exec (.free 0x800000 1)).exec
        (.free 0x801000 8)) := .cons rfl (.cons rfl (.cons rfl (.cons rfl (.nil _))))
  have hhigh : reservedPmm.HighReserved := by
    intro f hge hlt
    have hsize : reservedPmm.bitmapSize = 512 := rfl
    omega
  exact ⟨_, hrun, hempty, (frames_balance (by decide) (by decide) hhigh hrun).2 hempty⟩

end HaiirOS
