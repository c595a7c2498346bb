import HaiirOS.Proofs.Tables

/-!
# Changes to page tables

The four ways in which the page tables change: words elsewhere, a new empty table, an upper
entry that starts to name a dark table, and a leaf entry. The first three change no
translation, the last one that of one page.
-/

namespace HaiirOS

open AddressWord

/-- Every entry that names the table in frame `t` is present. -/
def Lit (rank : Nat → Nat) (m : Machine) (t : Nat) : Prop :=
  ∀ u (i : Fin 512), 2 ≤ rank u → m.mem (slot u i) ≠ 0#64 → frame (m.mem (slot u i)) = t →
    (m.mem (slot u i)).getLsbD 0 = true

namespace Tables

variable {rank : Nat → Nat} {w : WindowTables} {m m' : Machine} {v : Word} {n t p : Nat}

lemma slot_ne {rank : Nat → Nat} {t u : Nat} (h : rank t ≠ rank u) (i j : Fin 512) : slot t i ≠ slot u j := by
  intro heq
  obtain ⟨rfl, -⟩ := slot_inj i.isLt j.isLt heq
  exact h rfl

lemma leafTable_eq (h : Tables rank w m) {mem' : Mem}
    (hmem : ∀ t (i : Fin 512), 2 ≤ rank t → mem' (slot t i) = m.mem (slot t i)) (ht : rank t = n + 1) :
    leafTable mem' v n t = leafTable m.mem v n t := by
  induction n generalizing t with
  | zero => rfl
  | succ n ih =>
    have he : mem' (slot t (lvIndex v (n + 2))) = m.mem (slot t (lvIndex v (n + 2))) :=
      hmem t (index v (n + 2)) (by omega)
    rw [leafTable_succ, leafTable_succ, he]
    split_ifs with h0
    · rfl
    · have hc := (h.child_index (by omega) h0).1
      exact ih (by omega)

/-- A translation stays if the upper entries and its leaf entry do. -/
theorem mmuWalk_eq (h : Tables rank w m) {mem' : Mem}
    (hmem : ∀ t (i : Fin 512), 2 ≤ rank t → mem' (slot t i) = m.mem (slot t i)) (ht : rank t = n + 1)
    (hleaf : ∀ p, leafTable m.mem v n t = some p → mem' (slot p (lvIndex v 1)) = m.mem (slot p (lvIndex v 1)))
    (r : Rights) : mmuWalk mem' v (n + 1) t r = mmuWalk m.mem v (n + 1) t r := by
  induction n generalizing t r with
  | zero =>
    have he := hleaf t rfl
    by_cases hp : (m.mem (slot t (lvIndex v 1))).getLsbD 0 = true
    · rw [mmuWalk_leaf _ hp, mmuWalk_leaf _ (by rw [he]; exact hp), he]
    · rw [Bool.not_eq_true] at hp
      rw [mmuWalk_absent _ hp, mmuWalk_absent _ (by rw [he]; exact hp)]
  | succ n ih =>
    have he : mem' (slot t (lvIndex v (n + 2))) = m.mem (slot t (lvIndex v (n + 2))) :=
      hmem t (index v (n + 2)) (by omega)
    by_cases hp : (m.mem (slot t (lvIndex v (n + 2)))).getLsbD 0 = true
    · have h0 := ne_zero_of_present hp
      obtain ⟨hc, hsmall⟩ := h.child_index (by omega) h0
      rw [mmuWalk_table _ hp hsmall, mmuWalk_table _ (by rw [he]; exact hp) (by rw [he]; exact hsmall), he]
      refine ih (by omega) (fun p hl => hleaf p ?_) _
      rw [leafTable_succ, if_neg h0]
      exact hl
    · rw [Bool.not_eq_true] at hp
      rw [mmuWalk_absent _ hp, mmuWalk_absent _ (by rw [he]; exact hp)]

/-- The invariant is about the table frames, the allocator's marks and the registers. -/
lemma congr (h : Tables rank w m)
    (hmem : ∀ t (i : Fin 512), rank t ≠ 0 → slot t i ≠ w.win → m'.mem (slot t i) = m.mem (slot t i))
    (hv : m'.pmm.Valid) (hlow : ∀ f, f < 0x800 → m'.pmm.used f = true)
    (hused : ∀ t, rank t ≠ 0 → m'.pmm.used t = true) (hs : m'.sPml4Table = m.sPml4Table)
    (hc : rank (frame m'.cr3) = 4) : Tables rank w m' := by
  have hup (t : Nat) (i : Fin 512) (ht : 2 ≤ rank t) : m'.mem (slot t i) = m.mem (slot t i) :=
    hmem t i (by omega) (h.slot_ne_win ht i.isLt)
  have hpdp := h.rank_pdp
  have hpd := h.rank_pd
  have htop := h.top
  refine ⟨hv, hlow, h.rank_le, ?_, ?_, ?_, ?_, ?_, hs.trans h.pml4, hc, h.top, h.low, ?_, ?_⟩
  · intro t ht
    obtain ⟨h0, h1, h2, -⟩ := h.frame_ok t ht
    exact ⟨h0, h1, h2, hused t ht⟩
  · intro t i ht
    rw [hup t i ht]
    exact h.child t i ht
  · intro t i t' i' ht ht'
    rw [hup t i ht, hup t' i' ht']
    exact h.parent t i t' i' ht ht'
  · intro t i ht h0 hp j
    rw [hup t i ht] at h0 hp ⊢
    have hd := h.dark t i ht h0 hp j
    have hr := (h.child t i ht h0).1
    -- the window's entry is below present entries only
    have hwin : slot (frame (m.mem (slot t i))) j ≠ w.win := by
      intro heq
      obtain ⟨hf, -⟩ := slot_inj j.isLt (by decide) heq
      have hpt : frame (m.mem (slot w.pd (1 : Fin 512))) = w.pt := h.path.2.2.frame_eq h.low.2.2.2
      obtain ⟨rfl, hpar⟩ := h.parent t i w.pd 1 ht (Nat.le_of_eq hpd.symm) h0
        (ne_zero_of_present h.path.2.2.2) (hf.trans hpt.symm)
      obtain rfl : t = w.pd := by
        rcases hpar with hpar | ⟨-, hpar⟩
        · exact hpar
        · exact absurd hpar (by decide)
      have hpres : (m.mem (slot w.pd (1 : Fin 512))).getLsbD 0 = true := h.path.2.2.2
      rw [hpres] at hp
      cases hp
    rw [hmem _ j (by omega) hwin]
    exact hd
  · intro t t' ht ht'
    have e := hup t 0 (by omega)
    have e' := hup t' 0 (by omega)
    exact e.trans ((h.shared t t' ht ht').trans e'.symm)
  · have e4 := hup w.pml4 0 (by omega)
    have e3 := hup w.pdp 0 (by omega)
    have e2 := hup w.pd 1 (by omega)
    exact ⟨(congrArg (Names · _) e4).mpr h.path.1, (congrArg (Names · _) e3).mpr h.path.2.1,
      (congrArg (Names · _) e2).mpr h.path.2.2⟩
  · intro t hlt ht
    obtain ⟨p, hp, hpres, hframe⟩ := h.home t hlt ht
    have h200 := (h.frame_ok t ht).2.1
    have hv : pageNo (BitVec.ofNat 64 (t * 4096)) ≠ 0x200 := by
      simp only [pageNo, BitVec.toNat_ofNat]
      omega
    have hr := h.rank_leafTable h.top hp
    have e := hmem p (index (BitVec.ofNat 64 (t * 4096)) 1) (by omega) (h.leaf_ne_win h.top hp hv)
    refine ⟨p, ?_, ?_, ?_⟩
    · rw [h.leafTable_eq hup h.top]
      exact hp
    · rw [e]
      exact hpres
    · rw [e]
      exact hframe

/-- What differs in the window only has the same tables and, but for the window page, the same
translations. -/
lemma of_sim (h : Tables rank w m) (hs : Sim w.win m m') : Tables rank w m' := by
  refine h.congr (fun t i _ hne => hs.mem _ hne) ?_ ?_ ?_ hs.sPml4Table ?_
  · rw [hs.pmm]
    exact h.valid
  · rw [hs.pmm]
    exact h.low_used
  · rw [hs.pmm]
    exact fun t ht => (h.frame_ok t ht).2.2.2
  · rw [hs.cr3]
    exact h.cr3

lemma mmu_of_sim (h : Tables rank w m) (hs : Sim w.win m m') {root : Nat} (hr : rank root = 4)
    (hv : pageNo v ≠ 0x200) : mmu m'.mem root v = mmu m.mem root v :=
  h.mmuWalk_eq (fun _ i ht => hs.mem _ (h.slot_ne_win ht i.isLt)) hr
    (fun _ hp => hs.mem _ (h.leaf_ne_win hr hp hv)) _

/-! ### A leaf entry -/

lemma put_mem_ne {a b : Nat} (hne : b ≠ a) (e : Word) : (m.put a e).mem b = m.mem b := Function.update_of_ne hne ..

lemma put_mem_self (a : Nat) (e : Word) : (m.put a e).mem a = e := Function.update_self ..

lemma put_leaf_upper (hp : rank p = 1) (i : Fin 512) (e : Word) {t : Nat} (ht : 2 ≤ rank t) (j : Fin 512) :
    (m.put (slot p i) e).mem (slot t j) = m.mem (slot t j) :=
  put_mem_ne (slot_ne (by omega : rank t ≠ rank p) j i) e

/-- A new leaf entry keeps the tables in order if it is not present below an upper entry that is
not, and maps no page of a low table. -/
theorem put_leaf (h : Tables rank w m) (hp : rank p = 1) (i : Fin 512) {e : Word}
    (hlit : e.getLsbD 0 = true → Lit rank m p)
    (hhome : ∀ t, t < 0x800 → rank t ≠ 0 → ∀ q, leafTable m.mem (BitVec.ofNat 64 (t * 4096)) 3 w.pml4 = some q →
      slot q (index (BitVec.ofNat 64 (t * 4096)) 1) ≠ slot p i) : Tables rank w (m.put (slot p i) e) := by
  have hup {t : Nat} (ht : 2 ≤ rank t) (j : Fin 512) := put_leaf_upper (m := m) hp i e ht j
  have hpdp := h.rank_pdp
  have hpd := h.rank_pd
  have htop := h.top
  refine ⟨h.valid, h.low_used, h.rank_le, h.frame_ok, ?_, ?_, ?_, ?_, h.pml4, h.cr3, h.top, h.low, ?_, ?_⟩
  · intro t j ht
    rw [hup ht]
    exact h.child t j ht
  · intro t j t' j' ht ht'
    rw [hup ht, hup ht']
    exact h.parent t j t' j' ht ht'
  · intro t j ht h0 hdark k
    rw [hup ht] at h0 hdark ⊢
    by_cases heq : slot (frame (m.mem (slot t j))) k = slot p i
    · obtain ⟨hf, -⟩ := slot_inj k.isLt i.isLt heq
      rw [heq, put_mem_self]
      by_contra hpres
      rw [Bool.not_eq_false] at hpres
      rw [hlit hpres t j ht h0 hf] at hdark
      cases hdark
    · rw [put_mem_ne heq]
      exact h.dark t j ht h0 hdark k
  · intro t t' ht ht'
    exact (hup (by omega) 0).trans ((h.shared t t' ht ht').trans (hup (by omega) 0).symm)
  · exact ⟨(congrArg (Names · _) (hup (by omega) 0)).mpr h.path.1,
      (congrArg (Names · _) (hup (by omega) 0)).mpr h.path.2.1,
      (congrArg (Names · _) (hup (by omega) 1)).mpr h.path.2.2⟩
  · intro t hlt ht
    obtain ⟨q, hq, hpres, hframe⟩ := h.home t hlt ht
    have hne := put_mem_ne (m := m) (hhome t hlt ht q hq) e
    refine ⟨q, ?_, ?_, ?_⟩
    · rw [h.leafTable_eq (fun t j ht => hup ht j) h.top]
      exact hq
    · rw [hne]
      exact hpres
    · rw [hne]
      exact hframe

/-- A new leaf entry changes one translation at most. -/
lemma mmu_put_leaf (h : Tables rank w m) (hp : rank p = 1) (i : Fin 512) (e : Word) {root : Nat}
    (hr : rank root = 4) (hne : ∀ q, leafTable m.mem v 3 root = some q → slot q (lvIndex v 1) ≠ slot p i) :
    mmu (m.put (slot p i) e).mem root v = mmu m.mem root v :=
  h.mmuWalk_eq (fun _ j ht => put_leaf_upper hp i e ht j) hr (fun q hq => put_mem_ne (hne q hq) e) _

/-! ### An upper entry -/

/-- What a walk writes into an upper entry: it starts to name, or goes on naming, a table without
present entries that no other entry names. -/
structure Opens (rank : Nat → Nat) (m : Machine) (t : Nat) (i : Fin 512) (e : Word) : Prop where
  upper : 2 ≤ rank t
  not_present : (m.mem (slot t i)).getLsbD 0 = false
  keeps : m.mem (slot t i) = 0#64 ∨ frame (m.mem (slot t i)) = frame e
  ne_zero : e ≠ 0#64
  rank_frame : rank (frame e) + 1 = rank t
  small : e.getLsbD 7 = false
  dark : ∀ j : Fin 512, (m.mem (slot (frame e) j)).getLsbD 0 = false
  orphan : ∀ u (j : Fin 512), 2 ≤ rank u → m.mem (slot u j) ≠ 0#64 → frame (m.mem (slot u j)) = frame e →
    u = t ∧ j = i
  lit : e.getLsbD 0 = true → Lit rank m t

lemma Opens.mem_frame {i : Fin 512} {e : Word} (ho : Opens rank m t i e) (j : Fin 512) :
    (m.put (slot t i) e).mem (slot (frame e) j) = m.mem (slot (frame e) j) := by
  have hframe := ho.rank_frame
  exact put_mem_ne (slot_ne (by omega : rank (frame e) ≠ rank t) j i) e

lemma Opens.of_mem {i : Fin 512} {e : Word} (ho : Opens rank m t i e) (hmem : m'.mem = m.mem) :
    Opens rank m' t i e := by
  refine ⟨ho.upper, ?_, ?_, ho.ne_zero, ho.rank_frame, ho.small, ?_, ?_, ?_⟩
  · rw [hmem]
    exact ho.not_present
  · rw [hmem]
    exact ho.keeps
  · rw [hmem]
    exact ho.dark
  · rw [hmem]
    exact ho.orphan
  · rw [Lit, hmem]
    exact ho.lit

lemma put_mem_cases (t : Nat) (i : Fin 512) (e : Word) (u : Nat) (j : Fin 512) :
    (u = t ∧ j = i ∧ (m.put (slot t i) e).mem (slot u j) = e) ∨
      (m.put (slot t i) e).mem (slot u j) = m.mem (slot u j) := by
  by_cases heq : slot u j = slot t i
  · obtain ⟨rfl, hj⟩ := slot_inj j.isLt i.isLt heq
    refine Or.inl ⟨rfl, Fin.ext hj, ?_⟩
    rw [heq]
    exact put_mem_self _ e
  · exact Or.inr (put_mem_ne heq e)

lemma Opens.mem_present {i : Fin 512} {e : Word} (ho : Opens rank m t i e) {u : Nat} {j : Fin 512}
    (hp : (m.mem (slot u j)).getLsbD 0 = true) : (m.put (slot t i) e).mem (slot u j) = m.mem (slot u j) := by
  refine put_mem_ne (fun heq => ?_) e
  rw [heq, ho.not_present] at hp
  cases hp

theorem put_upper (h : Tables rank w m) {i : Fin 512} {e : Word} (ho : Opens rank m t i e) :
    Tables rank w (m.put (slot t i) e) := by
  have hkeep {u : Nat} {j : Fin 512} (hp : (m.mem (slot u j)).getLsbD 0 = true) :
      (m.put (slot t i) e).mem (slot u j) = m.mem (slot u j) := ho.mem_present hp
  have hframe := ho.rank_frame
  have hchild (u : Nat) (j : Fin 512) (hu : 2 ≤ rank u) (hne : (m.put (slot t i) e).mem (slot u j) ≠ 0#64) :
      rank (frame ((m.put (slot t i) e).mem (slot u j))) + 1 = rank u ∧
        ((m.put (slot t i) e).mem (slot u j)).getLsbD 7 = false := by
    rcases put_mem_cases (m := m) t i e u j with ⟨rfl, rfl, he⟩ | he
    · rw [he]
      exact ⟨hframe, ho.small⟩
    · rw [he] at hne ⊢
      exact h.child u j hu hne
  have hfirst {u : Nat} (hu : rank u = 4) : (m.put (slot t i) e).mem (slot u 0) = m.mem (slot u 0) := by
    refine hkeep (j := 0) ?_
    rw [show m.mem (slot u (0 : Fin 512)) = _ from h.shared u w.pml4 hu h.top]
    exact h.path.1.2
  refine ⟨h.valid, h.low_used, h.rank_le, h.frame_ok, hchild, ?_, ?_, ?_, h.pml4, h.cr3, h.top, h.low, ?_, ?_⟩
  · intro u j u' j' hu hu' hne hne' hf
    have hcases := put_mem_cases (m := m) t i e u j
    have hcases' := put_mem_cases (m := m) t i e u' j'
    rcases hcases with ⟨rfl, rfl, he⟩ | he <;> rcases hcases' with ⟨rfl, rfl, he'⟩ | he'
    · exact ⟨rfl, Or.inl rfl⟩
    · rw [he, he'] at hf
      rw [he'] at hne'
      obtain ⟨rfl, rfl⟩ := ho.orphan u' j' hu' hne' hf.symm
      exact ⟨rfl, Or.inl rfl⟩
    · rw [he, he'] at hf
      rw [he] at hne
      obtain ⟨rfl, rfl⟩ := ho.orphan u j hu hne hf
      exact ⟨rfl, Or.inl rfl⟩
    · rw [he, he'] at hf
      rw [he] at hne
      rw [he'] at hne'
      exact h.parent u j u' j' hu hu' hne hne' hf
  · intro u j hu hne hp k
    rcases put_mem_cases (m := m) t i e u j with ⟨rfl, rfl, he⟩ | he
    · rw [he, ho.mem_frame]
      exact ho.dark k
    · rw [he] at hne hp ⊢
      have hd := h.dark u j hu hne hp k
      rcases put_mem_cases (m := m) t i e (frame (m.mem (slot u j))) k with ⟨hft, -, he'⟩ | he'
      · rw [he']
        by_contra hpres
        rw [Bool.not_eq_false] at hpres
        rw [ho.lit hpres u j hu hne hft] at hp
        cases hp
      · rw [he']
        exact hd
  · intro u u' hu hu'
    rw [hfirst hu, hfirst hu']
    exact h.shared u u' hu hu'
  · exact ⟨(congrArg (Names · _) (hkeep (j := 0) h.path.1.2)).mpr h.path.1,
      (congrArg (Names · _) (hkeep (j := 0) h.path.2.1.2)).mpr h.path.2.1,
      (congrArg (Names · _) (hkeep (j := 1) h.path.2.2.2)).mpr h.path.2.2⟩
  · intro u hlt hu
    obtain ⟨q, hq, hpres, hfq⟩ := h.home u hlt hu
    refine ⟨q, h.forest.walk_mono (fun t' j c ht' hc => ?_) h.top hq, ?_, ?_⟩
    · obtain ⟨hne, rfl⟩ := childOf_eq_some.mp hc
      rcases put_mem_cases (m := m) t i e t' j with ⟨rfl, rfl, he⟩ | he
      · exact childOf_eq_some.mpr ⟨by rw [he]; exact ho.ne_zero,
          by rw [he]; exact (ho.keeps.resolve_left hne).symm⟩
      · exact childOf_eq_some.mpr ⟨by rw [he]; exact hne, by rw [he]⟩
    · rw [hkeep hpres]
      exact hpres
    · rw [hkeep hpres]
      exact hfq

/-- A table without present entries is found by no translation, so a new way to it changes none. -/
theorem mmuWalk_put_upper (h : Tables rank w m) {i : Fin 512} {e : Word} (ho : Opens rank m t i e) {u : Nat}
    (hu : rank u = n + 1) (r : Rights) : mmuWalk (m.put (slot t i) e).mem v (n + 1) u r = mmuWalk m.mem v (n + 1) u r := by
  have hupper := ho.upper
  have hframe := ho.rank_frame
  induction n generalizing u r with
  | zero =>
    have he := put_mem_ne (m := m) (slot_ne (by omega : rank u ≠ rank t) (index v 1) i) e
    rw [index_val] at he
    by_cases hp : (m.mem (slot u (lvIndex v 1))).getLsbD 0 = true
    · rw [mmuWalk_leaf _ hp, mmuWalk_leaf _ (by rw [he]; exact hp), he]
    · rw [Bool.not_eq_true] at hp
      rw [mmuWalk_absent _ hp, mmuWalk_absent _ (by rw [he]; exact hp)]
  | succ n ih =>
    rcases put_mem_cases (m := m) t i e u (index v (n + 2)) with ⟨rfl, rfl, he⟩ | he
    · have hold := ho.not_present
      simp only [index_val] at he hold ⊢
      rw [mmuWalk_absent _ hold]
      by_cases hp : e.getLsbD 0 = true
      · rw [mmuWalk_table _ (by rw [he]; exact hp) (by rw [he]; exact ho.small), he]
        refine mmuWalk_absent _ ?_
        have hd := ho.mem_frame (index v (n + 1))
        simp only [index_val] at hd
        rw [hd]
        exact ho.dark (index v (n + 1))
      · rw [Bool.not_eq_true] at hp
        exact mmuWalk_absent _ (by rw [he]; exact hp)
    · rw [index_val] at he
      by_cases hp : (m.mem (slot u (lvIndex v (n + 2)))).getLsbD 0 = true
      · obtain ⟨hc, hsmall⟩ := h.child_index (by omega) (ne_zero_of_present hp)
        rw [mmuWalk_table _ hp hsmall, mmuWalk_table _ (by rw [he]; exact hp) (by rw [he]; exact hsmall), he]
        exact ih (by omega) _
      · rw [Bool.not_eq_true] at hp
        rw [mmuWalk_absent _ hp, mmuWalk_absent _ (by rw [he]; exact hp)]

/-! ### A new table -/

/-- A frame in use without entries, or with the shared entry of the PML4s only, can become a table. -/
theorem adopt (h : Tables rank w m) {s k : Nat} (hs : rank s = 0) (hk0 : k ≠ 0) (hk : k ≤ 4) (hlow : 0x800 ≤ s)
    (hlt : s < 2 ^ 35) (hused : m.pmm.used s = true)
    (hentries : ∀ j : Fin 512, m.mem (slot s j) = 0#64 ∨ k = 4 ∧ j = 0)
    (hfirst : k = 4 → m.mem (slot s 0) = m.mem (slot w.pml4 0)) : Tables (Function.update rank s k) w m := by
  have hne {u : Nat} (hu : rank u ≠ 0) : u ≠ s := by
    rintro rfl
    exact hu hs
  have hrank {u : Nat} (hu : rank u ≠ 0) : Function.update rank s k u = rank u := Function.update_of_ne (hne hu) ..
  -- an entry of the new table is one of the kernel's PML4
  have htwin (u : Nat) (j : Fin 512) (hu : 2 ≤ Function.update rank s k u) (h0 : m.mem (slot u j) ≠ 0#64) :
      ∃ u0, 2 ≤ rank u0 ∧ m.mem (slot u j) = m.mem (slot u0 j) ∧ rank u0 = Function.update rank s k u ∧
        (u = u0 ∨ rank u0 = 4 ∧ j = 0) := by
    by_cases hus : u = s
    · subst hus
      rw [Function.update_self] at hu ⊢
      obtain ⟨rfl, rfl⟩ := (hentries j).resolve_left h0
      exact ⟨w.pml4, by rw [h.top]; decide, hfirst rfl, h.top, Or.inr ⟨h.top, rfl⟩⟩
    · rw [Function.update_of_ne hus] at hu ⊢
      exact ⟨u, hu, rfl, rfl, Or.inl rfl⟩
  refine ⟨h.valid, h.low_used, ?_, ?_, ?_, ?_, ?_, ?_, h.pml4, ?_, ?_, h.low, h.path, ?_⟩
  · intro u
    by_cases hus : u = s
    · rw [hus, Function.update_self]
      exact hk
    · rw [Function.update_of_ne hus]
      exact h.rank_le u
  · intro u hu
    by_cases hus : u = s
    · subst hus
      exact ⟨by omega, by omega, hlt, hused⟩
    · rw [Function.update_of_ne hus] at hu
      exact h.frame_ok u hu
  · intro u j hu h0
    obtain ⟨u0, hu0, he, hr, -⟩ := htwin u j hu h0
    rw [he] at h0 ⊢
    obtain ⟨hc, hsmall⟩ := h.child u0 j hu0 h0
    refine ⟨?_, hsmall⟩
    rw [hrank (by omega), ← hr]
    exact hc
  · intro u j u' j' hu hu' h0 h0' hf
    obtain ⟨u0, hu0, he, hr, hsame⟩ := htwin u j hu h0
    obtain ⟨u0', hu0', he', hr', hsame'⟩ := htwin u' j' hu' h0'
    rw [he] at h0 hf
    rw [he'] at h0' hf
    obtain ⟨rfl, hpar⟩ := h.parent u0 j u0' j' hu0 hu0' h0 h0' hf
    refine ⟨rfl, ?_⟩
    rw [← hr]
    rcases hsame with rfl | ⟨h4, h00⟩
    · rcases hpar with rfl | ⟨h4, h00⟩
      · rcases hsame' with rfl | ⟨h4, h00⟩
        · exact Or.inl rfl
        · exact Or.inr ⟨h4, h00⟩
      · exact Or.inr ⟨h4, h00⟩
    · exact Or.inr ⟨h4, h00⟩
  · intro u j hu h0
    obtain ⟨u0, hu0, he, -, -⟩ := htwin u j hu h0
    rw [he] at h0 ⊢
    exact h.dark u0 j hu0 h0
  · have hzero (u : Nat) (hu : Function.update rank s k u = 4) : m.mem (slot u 0) = m.mem (slot w.pml4 0) := by
      by_cases hus : u = s
      · subst hus
        rw [Function.update_self] at hu
        exact hfirst hu
      · rw [Function.update_of_ne hus] at hu
        exact h.shared u w.pml4 hu h.top
    intro u u' hu hu'
    rw [hzero u hu, hzero u' hu']
  · rw [hrank (by rw [h.cr3]; decide)]
    exact h.cr3
  · rw [hrank (by rw [h.top]; decide)]
    exact h.top
  · intro u hu hr
    refine h.home u hu ?_
    rwa [Function.update_of_ne (by omega)] at hr

end Tables

end HaiirOS
