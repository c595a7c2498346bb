import HaiirOS.Proofs.FreeFrames
import HaiirOS.Proofs.PagingRuns

/-!
# Loops of maps

A loop that maps page after page in one address space, as `mmap_syscall` and `add_task` run
them: the leaf entry of each of its pages is written with the frame for that page, and nothing
but its pages is mapped differently.
-/

namespace HaiirOS

open AddressWord

/-- What `n` maps of `page i` to frame `f i` achieve. -/
structure MapLoop (w : WindowTables) (rank rank' : Nat → Nat) (roots : List Nat) (root : Nat) (page : Nat → Word)
    (f : Nat → Nat) (flags : PageFlags) (n : Nat) (m m' : Machine) : Prop where
  inv : Session.Inv w rank' ⟨m', roots⟩
  ranks : ∀ t, rank t ≠ 0 → rank' t = rank t
  fresh : ∀ t, rank t = 0 → rank' t ≠ 0 → 0x800 ≤ t ∧ rank' t < 4 ∧ m.pmm.used t = false
  used : ∀ g, m.pmm.used g = true → m'.pmm.used g = true
  child : ∀ t (i : Fin 512), 2 ≤ rank t → m.mem (slot t i) ≠ 0#64 →
    m'.mem (slot t i) ≠ 0#64 ∧ frame (m'.mem (slot t i)) = frame (m.mem (slot t i))
  cr3 : m'.cr3 = m.cr3
  others : ∀ r v, rank r = 4 → pageNo v ≠ 0x200 →
    (∀ i < n, pageNo v ≠ pageNo (page i) ∨ r ≠ root ∧ lvIndex (page i) 4 ≠ 0) → mmu m'.mem r v = mmu m.mem r v
  leaves : ∀ i < n, ∃ p, leafTable m'.mem (page i) 3 root = some p ∧
    m'.mem (slot p (lvIndex (page i) 1)) = frameAddr (f i) ||| flags
  written : ∃ l, m'.log = l ++ m.log ∧
    (∀ i < n, ∃ p, leafTable m'.mem (page i) 3 root = some p ∧ .store (slot p (lvIndex (page i) 1)) ∈ l) ∧
    ∀ a, .store a ∈ l → (∃ i < n, ∃ p, leafTable m'.mem (page i) 3 root = some p ∧
      a = slot p (lvIndex (page i) 1)) ∨ ∃ u, ∃ j : Fin 512, a = slot u j ∧ 2 ≤ rank' u

section

variable {w : WindowTables} {rank rank' : Nat → Nat} {m m' : Machine} {v : Word} {n t p : Nat}

lemma missing_le (mem : Mem) (v : Word) (n t : Nat) : missing mem v n t ≤ n := by
  induction n generalizing t with
  | zero => exact Nat.le_refl 0
  | succ n ih =>
    rw [missing]
    split_ifs
    · exact Nat.le_refl _
    · exact (ih _).trans (Nat.le_succ n)

lemma Tables.leafTable_mono (h : Tables rank w m) {mem' : Mem}
    (hc : ∀ t (i : Fin 512), 2 ≤ rank t → m.mem (slot t i) ≠ 0#64 →
      mem' (slot t i) ≠ 0#64 ∧ frame (mem' (slot t i)) = frame (m.mem (slot t i)))
    (ht : rank t = n + 1) (hp : leafTable m.mem v n t = some p) : leafTable mem' v n t = some p := by
  induction n generalizing t with
  | zero => exact hp
  | succ n ih =>
    rw [leafTable_succ] at hp ⊢
    split_ifs at hp with h0
    obtain ⟨h0', hf⟩ := hc t (index v (n + 2)) (by omega) h0
    have hr := (h.child_index (by omega) h0).1
    rw [index_val] at h0' hf
    rw [if_neg h0', hf]
    exact ih (by omega) hp

lemma Mapped.leaf_other {root r q : Nat} {page e : Word} (hm : Mapped w rank rank' root page e p m m')
    (h : Tables rank w m) (hroot : rank root = 4) (hr : rank r = 4) (hq : leafTable m.mem v 3 r = some q)
    (hv : pageNo v ≠ 0x200) (hne : pageNo v ≠ pageNo page) :
    m'.mem (slot q (lvIndex v 1)) = m.mem (slot q (lvIndex v 1)) := by
  have hroot' : rank' root = 4 := by rw [hm.ranks root (by omega), hroot]
  have hr' : rank' r = 4 := by rw [hm.ranks r (by omega), hr]
  have hq' := h.leafTable_mono hm.child hr hq
  obtain ⟨l, -, hchanged, -, hstores, -⟩ := hm.written
  by_contra hch
  rcases hstores _ (hchanged _ (h.leaf_ne_win hr hq hv) hch) with heq | ⟨u, j, heq, hu, -⟩
  · obtain ⟨rfl, hi⟩ := slot_inj (lvIndex_lt v 1) (lvIndex_lt page 1) heq
    exact hne (hm.tables.leafTable_inj hr' hroot' hq' hm.leaf hi).1
  · obtain ⟨rfl, -⟩ := slot_inj (lvIndex_lt v 1) j.isLt heq
    have hrq := hm.tables.rank_leafTable hr' hq'
    omega

end

namespace MapLoop

variable {w : WindowTables} {rank rank' rank'' : Nat → Nat} {roots : List Nat} {root : Nat} {page : Nat → Word}
  {f : Nat → Nat} {flags : PageFlags} {n : Nat} {m m' m'' : Machine}

lemma zero (h : Session.Inv w rank ⟨m, roots⟩) : MapLoop w rank rank roots root page f flags 0 m m := by
  refine ⟨h, fun _ _ => rfl, fun t h0 h1 => (h1 h0).elim, fun _ hg => hg, fun _ _ _ h0 => ⟨h0, rfl⟩, rfl,
    fun _ _ _ _ _ => rfl, fun i hi => by omega, [], rfl, fun i hi => by omega, fun a ha => by cases ha⟩

lemma succ (h : MapLoop w rank rank' roots root page f flags n m m') (hroot : rank root = 4)
    (hinv : Session.Inv w rank'' ⟨m'', roots⟩) {p : Nat}
    (hm : Mapped w rank' rank'' root (page n) (frameAddr (f n) ||| flags) p m' m'')
    (hwin : ∀ i < n, pageNo (page i) ≠ 0x200)
    (hsame : ∀ i < n, pageNo (page i) = pageNo (page n) → f i = f n) :
    MapLoop w rank rank'' roots root page f flags (n + 1) m m'' := by
  have ht := h.inv.tables
  have hroot' : rank' root = 4 := by rw [h.ranks root (by omega), hroot]
  have hroot'' : rank'' root = 4 := by rw [hm.ranks root (by omega), hroot']
  have hmono {v : Word} {q : Nat} (hq : leafTable m'.mem v 3 root = some q) : leafTable m''.mem v 3 root = some q :=
    ht.leafTable_mono hm.child hroot' hq
  refine ⟨hinv, ?_, ?_, fun g hg => hm.used g (h.used g hg), ?_, hm.cr3.trans h.cr3, ?_, ?_, ?_⟩
  · intro t h0
    have h1 := h.ranks t h0
    rw [hm.ranks t (by omega), h1]
  · intro t h0 h2
    by_cases h1 : rank' t = 0
    · obtain ⟨hge, hlt, hfree⟩ := hm.fresh t h1 h2
      refine ⟨hge, hlt, ?_⟩
      by_contra hu
      rw [Bool.not_eq_false] at hu
      rw [h.used t hu] at hfree
      cases hfree
    · obtain ⟨hge, hlt, hfree⟩ := h.fresh t h0 h1
      exact ⟨hge, by rw [hm.ranks t h1]; exact hlt, hfree⟩
  · intro t i h2 h0
    obtain ⟨h1, hf1⟩ := h.child t i h2 h0
    obtain ⟨h1', hf1'⟩ := hm.child t i (by rw [h.ranks t (by omega)]; exact h2) h1
    exact ⟨h1', hf1'.trans hf1⟩
  · intro r v hr hv hpages
    rw [hm.others r v (by rw [h.ranks r (by omega), hr]) hv (hpages n (Nat.lt_succ_self n))]
    exact h.others r v hr hv fun i hi => hpages i (by omega)
  · intro i hi
    by_cases hin : i = n
    · subst hin
      exact ⟨p, hm.leaf, hm.entry⟩
    · obtain ⟨q, hq, he⟩ := h.leaves i (by omega)
      refine ⟨q, hmono hq, ?_⟩
      by_cases hno : pageNo (page i) = pageNo (page n)
      · -- the same page once more, with the same frame
        have hqp : q = p := by
          have heq := hmono hq
          rw [leafTable_congr fun k h2 hk => lvIndex_eq_of_pageNo hno (by omega) (by omega), hm.leaf] at heq
          exact (Option.some.inj heq).symm
        rw [hqp, lvIndex_eq_of_pageNo hno (by decide) (by decide), hm.entry, hsame i (by omega) hno]
      · rw [hm.leaf_other ht hroot' hroot' hq (hwin i (by omega)) hno, he]
  · obtain ⟨l, hlog, hset, hstores⟩ := h.written
    obtain ⟨l', hlog', -, hset', hstores', -⟩ := hm.written
    refine ⟨l' ++ l, by rw [hlog', hlog, List.append_assoc], fun i hi => ?_, fun a ha => ?_⟩
    · by_cases hin : i = n
      · subst hin
        exact ⟨p, hm.leaf, List.mem_append_left _ hset'⟩
      · obtain ⟨q, hq, hstore⟩ := hset i (by omega)
        exact ⟨q, hmono hq, List.mem_append_right _ hstore⟩
    · rcases List.mem_append.mp ha with ha | ha
      · rcases hstores' a ha with rfl | ⟨u, j, rfl, hu, -⟩
        · exact Or.inl ⟨n, Nat.lt_succ_self n, p, hm.leaf, rfl⟩
        · exact Or.inr ⟨u, j, rfl, hu⟩
      · rcases hstores a ha with ⟨i, hi, q, hq, rfl⟩ | ⟨u, j, rfl, hu⟩
        · exact Or.inl ⟨i, by omega, q, hmono hq, rfl⟩
        · exact Or.inr ⟨u, j, rfl, by rw [hm.ranks u (by omega)]; exact hu⟩

end MapLoop

end HaiirOS
