import HaiirOS.Lib.Runs
import HaiirOS.Proofs.InitPmm

/-!
# Runs of the frame allocator

Clients allocate runs of frames and give them back. The ledger pairs the allocator with the
allocations that are live. A reserve skips the hole of a one-block range, so the frames of
live allocations stay disjoint and reserved exactly while no allocation has such a hole.
-/

namespace HaiirOS

open Pmm (hole touched)
open RunSearch Runs

/-- A call of a client of the allocator. -/
inductive FrameOp where
  /-- `pmm_alloc_unmapped(count)` -/
  | alloc (count : Nat)
  /-- `free_frames(addr, count * FRAME_SIZE)` -/
  | free (addr count : Nat)

/-- The allocator with the address and frame count of each live allocation. -/
structure Ledger where
  pmm : Pmm
  live : List (Nat × Nat)

/-- Frame `f` belongs to an allocation. -/
def InAllocation (a : Nat × Nat) (f : Nat) : Prop := a.1 / 4096 ≤ f ∧ f < a.1 / 4096 + a.2

namespace Ledger

/-- One call; only a live allocation is given back. -/
def exec (l : Ledger) : FrameOp → Ledger
  | .alloc count =>
    let r := l.pmm.pmmAllocUnmapped count
    ⟨r.2, if r.1 = 0 then l.live else (r.1, count) :: l.live⟩
  | .free addr count =>
    if (addr, count) ∈ l.live then
      ⟨l.pmm.freeFrames addr (count * frameSize), l.live.erase (addr, count)⟩
    else l

def step (l : Ledger) (op : FrameOp) (l' : Ledger) : Prop := l' = l.exec op

/-- Live allocations are disjoint, and all their frames are reported as not free. -/
structure Good (l : Ledger) : Prop where
  disjoint : l.live.Pairwise fun a b => ∀ f, InAllocation a f → ¬ InAllocation b f
  reserved : ∀ a ∈ l.live, ∀ f, InAllocation a f → l.pmm.pmmIsFree (f * 4096) = false

/-- The run of frames an allocation is about to get can be reserved: its numbers fit 32 bits,
and a run of 8 to 15 frames starts at a block. -/
def Sound (l : Ledger) : FrameOp → Prop
  | .alloc count => 0 < count → ∀ s, l.pmm.NextRun count s →
      count < 2 ^ 32 ∧ s + count < 2 ^ 35 ∧ (count / 8 = 1 → s % 8 = 0)
  | .free _ _ => True

/-- What sound calls preserve. -/
structure Inv (l : Ledger) : Prop where
  lastIdxBit : l.pmm.lastIdxBit ≤ 7
  zero : l.pmm.used 0 = true
  disjoint : l.live.Pairwise fun a b => ∀ f, InAllocation a f → ¬ InAllocation b f
  live : ∀ a ∈ l.live, ∃ s, 0 < s ∧ a.1 = s * 4096 ∧ a.2 < 2 ^ 32 ∧ s + a.2 < 2 ^ 35 ∧
    (a.2 / 8 = 1 → s % 8 = 0) ∧ ∀ f, InAllocation a f → l.pmm.used f = true

lemma Inv.good {l : Ledger} (h : l.Inv) : l.Good where
  disjoint := h.disjoint
  reserved := by
    intro a ha f hf
    obtain ⟨s, -, hs, -, hfit, -, hused⟩ := h.live a ha
    have hlt : f < 2 ^ 35 := by
      unfold InAllocation at hf
      omega
    have hdiv : f * 4096 / 4096 = f := by omega
    rw [Pmm.pmmIsFree_eq _ (by omega), hdiv, Pmm.free, hused f hf]
    rfl

lemma not_hole {s n f : Nat} (h : n / 8 = 1 → s % 8 = 0) : ¬ hole s n f := by
  unfold hole
  omega

/-- A sound allocation reserves its whole run. -/
lemma used_handOut_of_sound (p : Pmm) {s n : Nat} (hn : n < 2 ^ 32) (hfit : s + n < 2 ^ 35)
    (hblock : n / 8 = 1 → s % 8 = 0) (f : Nat) :
    (p.handOut s n).used f = true ↔ (s ≤ f ∧ f < s + n) ∨ p.used f = true := by
  have hmod : n % 2 ^ 32 = n := Nat.mod_eq_of_lt hn
  have hu := p.used_handOut (s := s) (n := n) (by omega) f
  rw [hmod] at hu
  have ht : touched s n f ↔ s ≤ f ∧ f < s + n := by
    have := not_hole (f := f) hblock
    unfold touched
    tauto
  rw [hu, ← ht]
  split_ifs with h <;> simp [h]

lemma Inv.alloc {l : Ledger} (h : l.Inv) {count : Nat} (hs : l.Sound (.alloc count)) :
    (l.exec (.alloc count)).Inv := by
  by_cases hc : count = 0
  · subst hc
    exact ⟨h.lastIdxBit, h.zero, h.disjoint, h.live⟩
  rcases l.pmm.pmmAllocUnmapped_spec (by omega : 0 < count) h.lastIdxBit h.zero with
    ⟨s, hpos, hnext, hr⟩ | ⟨-, -, hr⟩
  · obtain ⟨hn, hfit, hblock⟩ := hs (by omega) s hnext
    have hused := used_handOut_of_sound l.pmm hn hfit hblock
    have hne : s * 4096 ≠ 0 := by omega
    have hstart : s * 4096 / 4096 = s := by omega
    simp only [exec, hr, if_neg hne]
    refine ⟨(l.pmm.handOut_keeps s count).lastIdxBit, (hused 0).mpr (Or.inr h.zero), ?_, ?_⟩
    · refine List.pairwise_cons.mpr ⟨fun b hb f h1 h2 => ?_, h.disjoint⟩
      -- the new run was free, the frames of older allocations are not
      obtain ⟨-, -, -, -, -, -, hub⟩ := h.live b hb
      have hfree := hnext.allFree f (by simp only [InAllocation, hstart] at h1; omega)
        (by simp only [InAllocation, hstart] at h1; omega)
      rw [Pmm.free, hub f h2] at hfree
      cases hfree
    · intro a ha
      rcases List.mem_cons.mp ha with rfl | ha
      · refine ⟨s, hpos, rfl, hn, hfit, hblock, fun f hf => (hused f).mpr (Or.inl ?_)⟩
        simp only [InAllocation, hstart] at hf
        exact hf
      · obtain ⟨s', h1, h2, h3, h4, h5, h6⟩ := h.live a ha
        exact ⟨s', h1, h2, h3, h4, h5, fun f hf => (hused f).mpr (Or.inr (h6 f hf))⟩
  · have hbit : (if 0 < l.pmm.bitmapSize then 7 else l.pmm.restart.lastIdxBit) ≤ 7 := by
      have hb := h.lastIdxBit
      simp only [Pmm.restart]
      split_ifs <;> omega
    simp only [exec, hr, if_true]
    exact ⟨hbit, h.zero, h.disjoint, h.live⟩

lemma Inv.free {l : Ledger} (h : l.Inv) (addr count : Nat) : (l.exec (.free addr count)).Inv := by
  simp only [exec]
  split_ifs with hmem
  · obtain ⟨s, hpos, rfl, hn, hfit, hblock, -⟩ := h.live _ hmem
    simp only at hn hfit hblock
    have hstart : s * 4096 / 4096 = s := by omega
    have hmod : count % 2 ^ 32 = count := Nat.mod_eq_of_lt hn
    have hused (f : Nat) := l.pmm.used_freeFrames (s := s) (n := count) (by omega) f
    simp only [hmod] at hused
    have hcursor := Pmm.sameCursor_freeFrames l.pmm (s * 4096) (count * 4096)
    refine ⟨Nat.le_trans (Nat.le_of_eq hcursor.lastIdxBit) h.lastIdxBit, ?_,
      h.disjoint.sublist List.erase_sublist, ?_⟩
    · rw [hused 0, if_neg (by unfold touched; omega)]
      exact h.zero
    · intro a ha
      obtain ⟨s', h1, h2, h3, h4, h5, h6⟩ := h.live a (List.mem_of_mem_erase ha)
      refine ⟨s', h1, h2, h3, h4, h5, fun f hf => ?_⟩
      -- an allocation that stays live is disjoint from the one given back
      have hpair := h.disjoint.perm (List.perm_cons_erase hmem) (fun hab f h1 h2 => hab f h2 h1)
      have hdis := (List.pairwise_cons.mp hpair).1 a ha f
      rw [hused f, if_neg]
      · exact h6 f hf
      · rintro ⟨h7, h8, -⟩
        refine hdis ?_ hf
        simp only [InAllocation, hstart]
        exact ⟨h7, h8⟩
  · exact h

lemma Inv.step {l l' : Ledger} {op : FrameOp} (h : l.Inv) (hs : l.Sound op) (ht : l.step op l') : l'.Inv := by
  rw [ht]
  cases op with
  | alloc count => exact h.alloc hs
  | free addr count => exact h.free addr count

/-- An unsound allocation leaves a frame free that it has handed out. -/
lemma Inv.spoil {l : Ledger} (h : l.Inv) (hsize : l.pmm.bitmapSize < 2 ^ 32) {op : FrameOp}
    (hs : ¬ l.Sound op) : ¬ (l.exec op).Good := by
  cases op with
  | free addr count => exact (hs trivial).elim
  | alloc count =>
    simp only [Sound] at hs
    push Not at hs
    obtain ⟨hc, s, hnext, hbad⟩ := hs
    have hle := hnext.le_bitmap
    rcases l.pmm.pmmAllocUnmapped_spec hc h.lastIdxBit h.zero with ⟨t, hpos, ht, hr⟩ | ⟨hno, hno', -⟩
    · obtain rfl := hnext.unique ht
      have hne : s * 4096 ≠ 0 := by omega
      have hstart : s * 4096 / 4096 = s := by omega
      have hused := l.pmm.used_handOut (s := s) (n := count) (by omega)
      -- the last frame of a run of 2^32 frames or more, or the first frame of the hole
      obtain ⟨f, h1, h2, h3⟩ : ∃ f, s ≤ f ∧ f < s + count ∧ ¬ touched s (count % 2 ^ 32) f := by
        by_cases hn : count < 2 ^ 32
        · have hmod : count % 2 ^ 32 = count := Nat.mod_eq_of_lt hn
          obtain ⟨h8, hs8⟩ := hbad hn (by omega)
          rw [hmod]
          refine ⟨8 * (s / 8 + 1), by omega, by omega, fun ht => ht.2.2 ⟨h8, ?_, ?_⟩⟩ <;> omega
        · refine ⟨s + count - 1, by omega, by omega, fun ht => ?_⟩
          have := ht.2.1
          omega
      intro hgood
      have hlive : (s * 4096, count) ∈ (l.exec (.alloc count)).live := by
        rw [exec, hr]
        simp only [if_neg hne, List.mem_cons, true_or]
      have hrep := hgood.reserved _ hlive f (by simp only [InAllocation, hstart]; exact ⟨h1, h2⟩)
      have hdiv : f * 4096 / 4096 = f := Nat.mul_div_cancel f (by decide)
      have hpmm : (l.exec (.alloc count)).pmm = l.pmm.handOut s count := by
        rw [exec, hr]
      rw [Pmm.pmmIsFree_eq _ (by omega), hdiv, hpmm, Pmm.free, hused f, if_neg h3] at hrep
      have hfree := hnext.allFree f h1 h2
      rw [Pmm.free, hrep] at hfree
      cases hfree
    · rcases hnext with hn | ⟨-, hn⟩
      · exact (hno s hn.lo_le hn.le_hi hn.allFree).elim
      · exact (hno' s hn.lo_le hn.le_hi hn.allFree).elim

lemma bitmapSize_exec (l : Ledger) (op : FrameOp) (h : l.pmm.lastIdxBit ≤ 7) :
    (l.exec op).pmm.bitmapSize = l.pmm.bitmapSize := by
  cases op with
  | alloc count => exact (l.pmm.pmmAllocUnmapped_keeps count h).bitmapSize
  | free addr count =>
    simp only [exec]
    split_ifs
    · exact (Pmm.sameCursor_freeFrames ..).bitmapSize
    · rfl

/-- The ledger right after `init_pmm`. -/
def initial (m : Machine) : Ledger := ⟨m.pmm, []⟩

lemma inv_initial {m : Machine} {info : MemoryInfo} (h : InitialPmm info m.pmm) : (initial m).Inv where
  lastIdxBit := h.lastIdxBit
  zero := h.bootSection 0 (by decide)
  disjoint := .nil
  live := fun a ha => by simp [initial] at ha

end Ledger

open Ledger

/-- From the state that `init_pmm` leaves, a run of sound calls keeps all live allocations disjoint
and reserved. Conversely a run in which they are so throughout makes sound calls only, unless
the bitmap is too large for 32-bit block numbers. -/
theorem live_allocations_reserved {m m' : Machine} {info : MemoryInfo} (hbit : m.pmm.lastIdxBit ≤ 7)
    (h : m.initPmm info = some m') (ops : List FrameOp) :
    (∀ l, Run Ledger.step (initial m') ops l → Along Sound Ledger.step (initial m') ops → l.Good) ∧
    (getBitmapSize info < 2 ^ 32 →
      (∀ pre l, pre <+: ops → Run Ledger.step (initial m') pre l → l.Good) →
      Along Sound Ledger.step (initial m') ops) := by
  have hinit := initPmm_initial h hbit
  have h0 := inv_initial hinit
  constructor
  · intro l hrun hok
    exact (hrun.invariant Ledger.Inv hok h0 fun s op t hs ho ht => hs.step ho ht).good
  · intro hsize hgood
    have hsize0 : (initial m').pmm.bitmapSize < 2 ^ 32 := by rwa [initial, hinit.bitmapSize]
    refine along_of_good (fun l => l.Inv ∧ l.pmm.bitmapSize < 2 ^ 32) Good ⟨h0, hsize0⟩ ?_ ?_ hgood
    · rintro s op t ⟨hs, hlt⟩ ho ht
      refine ⟨hs.step ho ht, ?_⟩
      rwa [ht, bitmapSize_exec s op hs.lastIdxBit]
    · rintro s op ⟨hs, hlt⟩ ho
      exact ⟨s.exec op, rfl, hs.spoil hlt ho⟩

/-- One frame and then sixteen from the first boot state: a sound run. -/
theorem live_allocations_reserved_boot : ∃ m' l, bootMachine.initPmm bootInfo = some m' ∧
    Run Ledger.step (initial m') [.alloc 1, .alloc 16] l ∧ l.Good := by
  have hsome : (bootMachine.initPmm bootInfo).isSome = true := by decide +kernel
  obtain ⟨m', h⟩ := Option.isSome_iff_exists.mp hsome
  have hinit := initPmm_initial h (by decide)
  have hsize : (initial m').pmm.bitmapSize = 512 := hinit.bitmapSize.trans (by decide)
  have hok : Along Sound Ledger.step (initial m') [.alloc 1, .alloc 16] := by
    refine ⟨fun _ s hs => ?_, fun t ht => ⟨fun _ s hs => ?_, fun _ _ => trivial⟩⟩
    · have hle := hs.le_bitmap
      omega
    · have hle := hs.le_bitmap
      rw [ht, bitmapSize_exec _ _ hinit.lastIdxBit] at hle
      omega
  have hrun : Run Ledger.step (initial m') [.alloc 1, .alloc 16]
      (((initial m').exec (.alloc 1)).exec (.alloc 16)) := .cons rfl (.cons rfl (.nil _))
  exact ⟨m', _, h, hrun, (live_allocations_reserved (by decide) h _).1 _ hrun hok⟩

/-- Eight frames from an odd frame on are handed out again in part by the next allocation. -/
theorem live_allocations_overlap : ∃ m' l, bootMachine.initPmm bootInfo = some m' ∧
    Run Ledger.step (initial m') [.alloc 1, .alloc 8, .alloc 1] l ∧ ¬ l.Good := by
  have hlive : ((bootMachine.initPmm bootInfo).map fun m =>
      ((((initial m).exec (.alloc 1)).exec (.alloc 8)).exec (.alloc 1)).live) =
      some [(2056 * 4096, 1), (2049 * 4096, 8), (2048 * 4096, 1)] := by decide +kernel
  obtain ⟨m', h, hl⟩ := Option.map_eq_some_iff.mp hlive
  refine ⟨m', _, h, .cons rfl (.cons rfl (.cons rfl (.nil _))), fun hgood => ?_⟩
  have hd := hgood.disjoint
  rw [hl] at hd
  refine (List.pairwise_cons.mp hd).1 (2049 * 4096, 8) (by simp) 2056 ?_ ?_ <;>
    simp [InAllocation]

end HaiirOS
