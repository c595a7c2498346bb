import HaiirOS.Lib.Descent
import HaiirOS.Proofs.Window

/-!
# Page tables

The invariant of the page tables. Every table frame has a level, entries of upper tables are
zero or name a table one level down, each table but the first one of the PML4s' shared slot
has one parent entry, and below an entry that is not present nothing is present. Under it
the MMU and the software walk see the same leaf entries.
-/

namespace HaiirOS

open AddressWord
open Descent (Forest)

/-- The index of an address into a table of level `lvl`. -/
def index (v : Word) (lvl : Nat) : Fin 512 := ⟨lvIndex v lvl, lvIndex_lt v lvl⟩

/-- The table that an entry of an upper table names. -/
def childOf (mem : Mem) (t : Nat) (i : Fin 512) : Option Nat :=
  if mem (slot t i) = 0#64 then none else some (frame (mem (slot t i)))

/-- The level 1 table for `v` below the table in frame `t` of level `n + 1`. -/
def leafTable (mem : Mem) (v : Word) (n t : Nat) : Option Nat :=
  Descent.walk (childOf mem) (fun k => index v (k + 1)) n t

/-- Entry `e` is present and names the table in frame `t`, without high bits. -/
def Names (e : Word) (t : Nat) : Prop := base e = BitVec.ofNat 64 (t * 4096) ∧ e.getLsbD 0 = true

lemma Names.frame_eq {e : Word} {t : Nat} (h : Names e t) (ht : t < 0x800) : frame e = t := by
  rw [← frame_base, h.1, frame_ofNat (by omega)]

/-- The page tables are in order: `rank` is the level of each table frame and 0 elsewhere. -/
structure Tables (rank : Nat → Nat) (w : WindowTables) (m : Machine) : Prop where
  valid : m.pmm.Valid
  low_used : ∀ f, f < 0x800 → m.pmm.used f = true
  rank_le : ∀ t, rank t ≤ 4
  frame_ok : ∀ t, rank t ≠ 0 → t ≠ 0 ∧ t ≠ 0x200 ∧ t < 2 ^ 35 ∧ m.pmm.used t = true
  child : ∀ t (i : Fin 512), 2 ≤ rank t → m.mem (slot t i) ≠ 0#64 →
    rank (frame (m.mem (slot t i))) + 1 = rank t ∧ (m.mem (slot t i)).getLsbD 7 = false
  parent : ∀ t (i : Fin 512) t' (i' : Fin 512), 2 ≤ rank t → 2 ≤ rank t' → m.mem (slot t i) ≠ 0#64 →
    m.mem (slot t' i') ≠ 0#64 → frame (m.mem (slot t i)) = frame (m.mem (slot t' i')) →
    i = i' ∧ (t = t' ∨ rank t = 4 ∧ i = 0)
  dark : ∀ t (i : Fin 512), 2 ≤ rank t → m.mem (slot t i) ≠ 0#64 → (m.mem (slot t i)).getLsbD 0 = false →
    ∀ j : Fin 512, (m.mem (slot (frame (m.mem (slot t i))) j)).getLsbD 0 = false
  shared : ∀ t t', rank t = 4 → rank t' = 4 → m.mem (slot t 0) = m.mem (slot t' 0)
  pml4 : m.sPml4Table = BitVec.ofNat 64 (w.pml4 * 4096)
  cr3 : rank (frame m.cr3) = 4
  top : rank w.pml4 = 4
  low : w.pml4 < 0x800 ∧ w.pdp < 0x800 ∧ w.pd < 0x800 ∧ w.pt < 0x800
  path : Names (m.mem (slot w.pml4 0)) w.pdp ∧ Names (m.mem (slot w.pdp 0)) w.pd ∧
    Names (m.mem (slot w.pd 1)) w.pt
  home : ∀ t, t < 0x800 → rank t ≠ 0 → ∃ p, leafTable m.mem (BitVec.ofNat 64 (t * 4096)) 3 w.pml4 = some p ∧
    (m.mem (slot p (index (BitVec.ofNat 64 (t * 4096)) 1))).getLsbD 0 = true ∧
    frame (m.mem (slot p (index (BitVec.ofNat 64 (t * 4096)) 1))) = t

@[simp] lemma index_val (v : Word) (lvl : Nat) : (index v lvl : Nat) = lvIndex v lvl := rfl

lemma leafTable_succ (mem : Mem) (v : Word) (n t : Nat) : leafTable mem v (n + 1) t =
    if mem (slot t (lvIndex v (n + 2))) = 0#64 then none
    else leafTable mem v n (frame (mem (slot t (lvIndex v (n + 2))))) := by
  change (if mem (slot t (lvIndex v (n + 2))) = 0#64 then none
    else some (frame (mem (slot t (lvIndex v (n + 2)))))).bind (leafTable mem v n) = _
  split_ifs <;> rfl

lemma leafTable_congr {mem : Mem} {v v' : Word} {n t : Nat}
    (h : ∀ k, 2 ≤ k → k ≤ n + 1 → lvIndex v k = lvIndex v' k) : leafTable mem v n t = leafTable mem v' n t := by
  induction n generalizing t with
  | zero => rfl
  | succ n ih =>
    rw [leafTable_succ, leafTable_succ, h (n + 2) (by omega) (by omega)]
    split_ifs
    · rfl
    · exact ih fun k h2 hk => h k h2 (by omega)

lemma childOf_eq_some {mem : Mem} {t u : Nat} {i : Fin 512} :
    childOf mem t i = some u ↔ mem (slot t i) ≠ 0#64 ∧ frame (mem (slot t i)) = u := by
  unfold childOf
  split_ifs with h <;> simp [h]

lemma not_present_zero : (0#64).getLsbD 0 = false := by decide

lemma ne_zero_of_present {e : Word} (h : e.getLsbD 0 = true) : e ≠ 0#64 := by
  rintro rfl
  cases h

lemma pageNo_eq {v v' : Word} (h : ∀ k, 0 < k → k ≤ 4 → lvIndex v k = lvIndex v' k) : pageNo v = pageNo v' := by
  have h1 := h 1 (by decide) (by decide)
  have h2 := h 2 (by decide) (by decide)
  have h3 := h 3 (by decide) (by decide)
  have h4 := h 4 (by decide) (by decide)
  simp only [lvIndex] at h1 h2 h3 h4
  unfold pageNo
  omega

lemma lvIndex_eq_of_pageNo {v v' : Word} (h : pageNo v = pageNo v') {k : Nat} (hk : 0 < k) (hk4 : k ≤ 4) :
    lvIndex v k = lvIndex v' k := by
  unfold pageNo at h
  unfold lvIndex
  obtain rfl | rfl | rfl | rfl : k = 1 ∨ k = 2 ∨ k = 3 ∨ k = 4 := by omega
  all_goals omega

namespace Tables

variable {rank : Nat → Nat} {w : WindowTables} {m : Machine} {v : Word} {n t p : Nat}

lemma forest (h : Tables rank w m) : Forest (childOf m.mem) rank 4 (fun i => i = 0) where
  rank_child := by
    intro t i u ht hu
    obtain ⟨hne, rfl⟩ := childOf_eq_some.mp hu
    exact (h.child t i ht hne).1
  le_top := h.rank_le
  parent := by
    intro t i t' i' u ht ht' hu hu'
    obtain ⟨hne, rfl⟩ := childOf_eq_some.mp hu
    obtain ⟨hne', hf⟩ := childOf_eq_some.mp hu'
    exact h.parent t i t' i' ht ht' hne hne' hf.symm

lemma absent_iff (h : Tables rank w m) (ht : 2 ≤ rank t) (i : Fin 512) :
    m.Absent (m.mem (slot t i)) ↔ m.mem (slot t i) = 0#64 := by
  constructor
  · intro habs
    by_contra hne
    have hr := (h.child t i ht hne).1
    obtain ⟨h0, -, hlt, hu⟩ := h.frame_ok (frame (m.mem (slot t i))) (by omega)
    rcases habs with hb | hf
    · rw [← frame_base, hb] at h0
      exact h0 rfl
    · have haddr : (base (m.mem (slot t i))).toNat / 4096 % 2 ^ 35 = frame (m.mem (slot t i)) := by
        rw [base_toNat]
        unfold frame at hlt ⊢
        omega
      rw [Pmm.pmmIsFree_mod, haddr, Pmm.free, hu] at hf
      cases hf
  · intro h0
    left
    rw [h0]
    decide

/-- A free frame is no table. -/
lemma rank_of_free (h : Tables rank w m) {f : Nat} (hf : m.pmm.used f = false) : rank f = 0 := by
  by_contra h0
  rw [(h.frame_ok f h0).2.2.2] at hf
  cases hf

lemma child_index (h : Tables rank w m) {lvl : Nat} (ht : 2 ≤ rank t)
    (h0 : m.mem (slot t (lvIndex v lvl)) ≠ 0#64) :
    rank (frame (m.mem (slot t (lvIndex v lvl)))) + 1 = rank t ∧
      (m.mem (slot t (lvIndex v lvl))).getLsbD 7 = false := h.child t (index v lvl) ht h0

lemma dark_index (h : Tables rank w m) {lvl : Nat} (ht : 2 ≤ rank t)
    (h0 : m.mem (slot t (lvIndex v lvl)) ≠ 0#64) (hp : (m.mem (slot t (lvIndex v lvl))).getLsbD 0 = false) :
    ∀ j : Fin 512, (m.mem (slot (frame (m.mem (slot t (lvIndex v lvl)))) j)).getLsbD 0 = false :=
  h.dark t (index v lvl) ht h0 hp

/-- Below a table without present entries no leaf entry is present. -/
lemma dark_walk (h : Tables rank w m) (ht : rank t = n + 1)
    (hd : ∀ j : Fin 512, (m.mem (slot t j)).getLsbD 0 = false) (hp : leafTable m.mem v n t = some p) :
    ∀ j : Fin 512, (m.mem (slot p j)).getLsbD 0 = false := by
  induction n generalizing t with
  | zero =>
    obtain rfl : t = p := Option.some.inj hp
    exact hd
  | succ n ih =>
    rw [leafTable_succ] at hp
    split_ifs at hp with h0
    have hc := (h.child_index (by omega) h0).1
    exact ih (by omega) (h.dark_index (by omega) h0 (hd (index v (n + 2)))) hp

/-- The MMU maps an address to what its leaf entry names, if that is present. -/
theorem phys_mmuWalk (h : Tables rank w m) (ht : rank t = n + 1) (r : Rights) :
    (mmuWalk m.mem v (n + 1) t r).map Translation.phys = (leafTable m.mem v n t).bind fun p =>
      if (m.mem (slot p (lvIndex v 1))).getLsbD 0 = true then
        some (frame (m.mem (slot p (lvIndex v 1))) * 4096 + v.toNat % 4096) else none := by
  induction n generalizing t r with
  | zero =>
    change _ = if _ then _ else _
    split_ifs with hp
    · rw [mmuWalk_leaf _ hp]
      rfl
    · rw [mmuWalk_absent _ (Bool.eq_false_iff.mpr hp)]
      rfl
  | succ n ih =>
    rw [leafTable_succ]
    by_cases h0 : m.mem (slot t (lvIndex v (n + 2))) = 0#64
    · rw [mmuWalk_absent _ (by rw [h0]; decide), if_pos h0]
      rfl
    · obtain ⟨hc, hsmall⟩ := h.child_index (by omega) h0
      rw [if_neg h0]
      by_cases hp : (m.mem (slot t (lvIndex v (n + 2)))).getLsbD 0 = true
      · rw [mmuWalk_table _ hp hsmall]
        exact ih (by omega) _
      · rw [Bool.not_eq_true] at hp
        rw [mmuWalk_absent _ hp]
        cases hl : leafTable m.mem v n (frame (m.mem (slot t (lvIndex v (n + 2))))) with
        | none => rfl
        | some p =>
          have hd := h.dark_walk (by omega) (h.dark_index (by omega) h0 hp) hl (index v 1)
          rw [index_val] at hd
          simp only [hd, Option.map_none, Option.bind_some, Bool.false_eq_true, if_false]

lemma rank_leafTable (h : Tables rank w m) (ht : rank t = n + 1) (hp : leafTable m.mem v n t = some p) :
    rank p = 1 := h.forest.rank_walk ht hp

/-- Pages of one leaf entry are the same page, of one address space or in the shared slot. -/
theorem leafTable_inj (h : Tables rank w m) {root root' : Nat} (hr : rank root = 4) (hr' : rank root' = 4)
    {v' : Word} (hp : leafTable m.mem v 3 root = some p) (hp' : leafTable m.mem v' 3 root' = some p)
    (h1 : lvIndex v 1 = lvIndex v' 1) : pageNo v = pageNo v' ∧ (root = root' ∨ lvIndex v 4 = 0) := by
  obtain ⟨hidx, hroot⟩ := h.forest.walk_inj hr hr' hp hp'
  refine ⟨pageNo_eq fun k h0 h4 => ?_, hroot.imp_right fun hs => congrArg Fin.val hs.2⟩
  by_cases hk : k = 1
  · rw [hk]
    exact h1
  · have hi := hidx (k - 1) (by omega) (by omega)
    obtain ⟨j, rfl⟩ : ∃ j, k = j + 1 := ⟨k - 1, by omega⟩
    exact congrArg Fin.val hi

/-! ### The tables of the window -/

lemma rank_pdp (h : Tables rank w m) : rank w.pdp = 3 := by
  have hc := (h.child w.pml4 0 (by rw [h.top]; decide) (ne_zero_of_present h.path.1.2)).1
  change rank (frame (m.mem (slot w.pml4 0))) + 1 = rank w.pml4 at hc
  rw [h.path.1.frame_eq h.low.2.1, h.top] at hc
  omega

lemma rank_pd (h : Tables rank w m) : rank w.pd = 2 := by
  have hc := (h.child w.pdp 0 (by rw [h.rank_pdp]; decide) (ne_zero_of_present h.path.2.1.2)).1
  change rank (frame (m.mem (slot w.pdp 0))) + 1 = rank w.pdp at hc
  rw [h.path.2.1.frame_eq h.low.2.2.1, h.rank_pdp] at hc
  omega

lemma rank_pt (h : Tables rank w m) : rank w.pt = 1 := by
  have hc := (h.child w.pd 1 (Nat.le_of_eq h.rank_pd.symm) (ne_zero_of_present h.path.2.2.2)).1
  change rank (frame (m.mem (slot w.pd 1))) + 1 = rank w.pd at hc
  rw [h.path.2.2.frame_eq h.low.2.2.2, h.rank_pd] at hc
  omega

lemma slot_ne_win (h : Tables rank w m) (ht : 2 ≤ rank t) {i : Nat} (hi : i < 512) : slot t i ≠ w.win := by
  intro heq
  obtain ⟨rfl, -⟩ := slot_inj hi (by decide) heq
  have hr := h.rank_pt
  omega

lemma leafTable_window (h : Tables rank w m) (hv : pageNo v = 0x200) : leafTable m.mem v 3 w.pml4 = some w.pt := by
  have hv' : pageNo v = pageNo tmpAddr := hv
  have i4 : lvIndex v 4 = 0 := lvIndex_eq_of_pageNo hv' (by decide) (by decide)
  have i3 : lvIndex v 3 = 0 := lvIndex_eq_of_pageNo hv' (by decide) (by decide)
  have i2 : lvIndex v 2 = 1 := lvIndex_eq_of_pageNo hv' (by decide) (by decide)
  rw [leafTable_succ, i4, if_neg (ne_zero_of_present h.path.1.2), h.path.1.frame_eq h.low.2.1,
    leafTable_succ, i3, if_neg (ne_zero_of_present h.path.2.1.2), h.path.2.1.frame_eq h.low.2.2.1,
    leafTable_succ, i2, if_neg (ne_zero_of_present h.path.2.2.2), h.path.2.2.frame_eq h.low.2.2.2]
  rfl

/-- Only the window page is mapped by the window's entry. -/
lemma leaf_ne_win (h : Tables rank w m) {root : Nat} (hr : rank root = 4) (hp : leafTable m.mem v 3 root = some p)
    (hv : pageNo v ≠ 0x200) : slot p (lvIndex v 1) ≠ w.win := by
  intro heq
  obtain ⟨rfl, hi⟩ := slot_inj (lvIndex_lt v 1) (by decide) heq
  exact hv (h.leafTable_inj hr h.top hp (h.leafTable_window (v := tmpAddr) rfl) hi).1

/-- The first slot of all PML4s leads to the same tables. -/
lemma leafTable_shared (h : Tables rank w m) {root root' : Nat} (hr : rank root = 4) (hr' : rank root' = 4)
    (hv : lvIndex v 4 = 0) : leafTable m.mem v 3 root = leafTable m.mem v 3 root' := by
  rw [leafTable_succ _ _ 2 root, leafTable_succ _ _ 2 root', hv, h.shared root root' hr hr']

lemma settled (h : Tables rank w m) (ht : rank t = n + 1) (hp : leafTable m.mem v n t = some p)
    (hleaf : Pinned w.win m (slot p (lvIndex v 1))) : Settled (Pinned w.win m) m.mem v (n + 1) t := by
  induction n generalizing t with
  | zero =>
    obtain rfl : t = p := Option.some.inj hp
    exact ⟨hleaf, fun hl => (hl rfl).elim⟩
  | succ n ih =>
    rw [leafTable_succ] at hp
    split_ifs at hp with h0
    have hc := (h.child_index (by omega) h0).1
    have hrec := ih (t := frame (m.mem (slot t (lvIndex v (n + 2))))) (by omega) hp
    refine ⟨⟨h.slot_ne_win (by omega) (lvIndex_lt v (n + 2)), ?_, ?_⟩, fun _ _ => hrec⟩
    · by_contra hdark
      rw [Bool.not_eq_true] at hdark
      have hd := h.dark_walk (by omega) (h.dark_index (by omega) h0 hdark) hp (index v 1)
      have hl := hleaf.2.1
      rw [index_val, hl] at hd
      cases hd
    · exact (h.absent_iff (by omega) (index v (n + 2))).not.mpr h0

lemma not_absent_of_used {e : Word} (h0 : frame e ≠ 0) (hlt : frame e < 2 ^ 35)
    (hu : m.pmm.used (frame e) = true) : ¬ m.Absent e := by
  rintro (hb | hf)
  · rw [← frame_base, hb] at h0
    exact h0 rfl
  · have haddr : (base e).toNat / 4096 % 2 ^ 35 = frame e := by
      rw [base_toNat]
      unfold frame at hlt ⊢
      omega
    rw [Pmm.pmmIsFree_mod, haddr, Pmm.free, hu] at hf
    cases hf

/-- Frame `f` below 8 MiB is mapped one to one, not through the window's entry. -/
structure Home (w : WindowTables) (m : Machine) (f : Nat) : Prop where
  pos : 0 < f
  lt : f < 0x800
  ne_window : f ≠ 0x200
  mapped : ∃ p, leafTable m.mem (BitVec.ofNat 64 (f * 4096)) 3 w.pml4 = some p ∧
    (m.mem (slot p (index (BitVec.ofNat 64 (f * 4096)) 1))).getLsbD 0 = true ∧
    frame (m.mem (slot p (index (BitVec.ofNat 64 (f * 4096)) 1))) = f

/-- The window is ready for any walk if the frames that walks meet below 8 MiB are mapped one to one. -/
theorem ready_of_home (h : Tables rank w m) {low : Nat → Prop} (hhome : ∀ f, low f → Home w m f)
    (htables : low w.pml4 ∧ low w.pdp ∧ low w.pd ∧ low w.pt) : WindowReady w low m := by
  have hpage (f o : Nat) (hf : f < 0x800) (ho : o < 4096) (k : Nat) (hk : 0 < k) (hk4 : k ≤ 4) :
      lvIndex (BitVec.ofNat 64 (f * 4096 + o)) k = lvIndex (BitVec.ofNat 64 (f * 4096)) k := by
    refine lvIndex_eq_of_pageNo ?_ hk hk4
    simp only [pageNo, BitVec.toNat_ofNat]
    omega
  have hleaf (f o : Nat) (hf : low f) (ho : o < 4096) : ∃ p,
      leafTable m.mem (BitVec.ofNat 64 (f * 4096 + o)) 3 (frame m.cr3) = some p ∧
      Pinned w.win m (slot p (lvIndex (BitVec.ofNat 64 (f * 4096 + o)) 1)) ∧
      frame (m.mem (slot p (lvIndex (BitVec.ofNat 64 (f * 4096 + o)) 1))) = f := by
    obtain ⟨hpos, hlt, h200, p, hp, hpres, hframe⟩ := hhome f hf
    have hu := h.low_used f hlt
    have h4 : lvIndex (BitVec.ofNat 64 (f * 4096)) 4 = 0 := by
      simp only [lvIndex, BitVec.toNat_ofNat]
      omega
    have hv : pageNo (BitVec.ofNat 64 (f * 4096)) ≠ 0x200 := by
      simp only [pageNo, BitVec.toNat_ofNat]
      omega
    have hp' : leafTable m.mem (BitVec.ofNat 64 (f * 4096 + o)) 3 (frame m.cr3) = some p := by
      rw [← hp, ← h.leafTable_shared h.cr3 h.top h4]
      exact leafTable_congr fun k hk hk4 => hpage f o hlt ho k (by omega) (by omega)
    rw [index_val] at hpres hframe
    rw [hpage f o hlt ho 1 (by decide) (by decide)]
    refine ⟨p, hp', ⟨h.leaf_ne_win h.top hp hv, hpres, ?_⟩, hframe⟩
    refine not_absent_of_used (by omega) (by omega) (by rwa [hframe])
  have hupper (t : Nat) (i : Fin 512) (ht : 2 ≤ rank t) (hp : (m.mem (slot t i)).getLsbD 0 = true) :
      Pinned w.win m (slot t i) :=
    ⟨h.slot_ne_win ht i.isLt, hp, (h.absent_iff ht i).not.mpr (ne_zero_of_present hp)⟩
  have hroot : m.mem (slot (frame m.cr3) 0) = m.mem (slot w.pml4 0) := h.shared _ _ h.cr3 h.top
  have htop := h.top
  have hcr3 := h.cr3
  have hpdp := h.rank_pdp
  have hpd := h.rank_pd
  refine ⟨h.valid, fun f hf => ⟨(hhome f hf).pos, (hhome f hf).lt⟩, ?_, ?_, htables, ?_, h.pml4, h.path.1.1,
    h.path.2.1.1, h.path.2.2.1, ?_, ?_⟩
  · intro f o hf ho
    obtain ⟨p, hp, hpin, -⟩ := hleaf f o hf ho
    exact h.settled h.cr3 hp hpin
  · intro f o hf ho
    obtain ⟨p, hp, hpin, hframe⟩ := hleaf f o hf ho
    have hlt := (hhome f hf).lt
    have hoff : (BitVec.ofNat 64 (f * 4096 + o)).toNat % 4096 = o := by
      rw [BitVec.toNat_ofNat]
      omega
    rw [mmu, h.phys_mmuWalk h.cr3, hp, Option.bind_some, if_pos hpin.2.1, hframe, hoff]
  · refine ⟨hupper w.pml4 0 (by omega) h.path.1.2, hupper w.pdp 0 (by omega) h.path.2.1.2,
      hupper w.pd 1 (by omega) h.path.2.2.2, hupper (frame m.cr3) 0 (by omega) ?_⟩
    exact (congrArg (fun e => e.getLsbD 0) hroot).trans h.path.1.2
  · rw [hroot]
    exact h.path.1.frame_eq h.low.2.1
  · rw [hroot]
    exact ⟨(h.child w.pml4 0 (by omega) (ne_zero_of_present h.path.1.2)).2,
      (h.child w.pdp 0 (by omega) (ne_zero_of_present h.path.2.1.2)).2,
      (h.child w.pd 1 (by omega) (ne_zero_of_present h.path.2.2.2)).2⟩

/-- The window is ready for any walk over the tables. -/
theorem ready (h : Tables rank w m) : WindowReady w (fun f => f < 0x800 ∧ rank f ≠ 0) m := by
  have htop := h.top
  have hpdp := h.rank_pdp
  have hpd := h.rank_pd
  have hpt := h.rank_pt
  obtain ⟨l4, l3, l2, l1⟩ := h.low
  refine h.ready_of_home (fun f hf => ?_) ⟨⟨l4, ?_⟩, ⟨l3, ?_⟩, ⟨l2, ?_⟩, ⟨l1, ?_⟩⟩
  · obtain ⟨h0, h200, -, -⟩ := h.frame_ok f hf.2
    exact ⟨Nat.pos_of_ne_zero h0, hf.1, h200, h.home f hf.1 hf.2⟩
  all_goals omega

end Tables

end HaiirOS
