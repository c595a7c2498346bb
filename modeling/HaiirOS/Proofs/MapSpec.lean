import HaiirOS.Proofs.TableWalk

/-!
# What map and unmap do

`map`, `unmap` and the lookups of the paging code under the page-table invariant. A call
returns, keeps the tables in order and changes the translation of its page only; the rights
of the page are those of the entries on the way and of the flags together.
-/

namespace HaiirOS

open AddressWord

/-- What a call that writes `e` as the leaf entry for `page` in the table in frame `p` achieves. -/
structure Mapped (w : WindowTables) (rank rank' : Nat → Nat) (root : Nat) (page e : Word) (p : Nat)
    (m m' : Machine) : Prop where
  tables : Tables rank' w m'
  ranks : ∀ t, rank t ≠ 0 → rank' t = rank t
  fresh : ∀ t, rank t = 0 → rank' t ≠ 0 → 0x800 ≤ t ∧ rank' t < 4 ∧ m.pmm.used t = false
  used : ∀ f, m.pmm.used f = true → m'.pmm.used f = true
  child : ∀ t (i : Fin 512), 2 ≤ rank t → m.mem (slot t i) ≠ 0#64 →
    m'.mem (slot t i) ≠ 0#64 ∧ frame (m'.mem (slot t i)) = frame (m.mem (slot t i))
  hangs : ∀ x, rank x = 0 → rank' x ≠ 0 → Below m'.mem 3 root x
  cr3 : m'.cr3 = m.cr3
  others : ∀ r v, rank r = 4 → pageNo v ≠ 0x200 →
    pageNo v ≠ pageNo page ∨ r ≠ root ∧ lvIndex page 4 ≠ 0 → mmu m'.mem r v = mmu m.mem r v
  leaf : leafTable m'.mem page 3 root = some p
  rank_leaf : rank' p = 1
  entry : m'.mem (slot p (lvIndex page 1)) = e
  tree : rank p = 0 ∨ Below m.mem 3 root p
  pmm : m'.pmm = m.pmm.singles (missing m.mem page 3 root)
  written : ∃ l, m'.log = l ++ m.log ∧ (∀ a, a ≠ w.win → m'.mem a ≠ m.mem a → .store a ∈ l) ∧
    .store (slot p (lvIndex page 1)) ∈ l ∧
    (∀ a, .store a ∈ l → a = slot p (lvIndex page 1) ∨
      ∃ u, ∃ i : Fin 512, a = slot u i ∧ 2 ≤ rank' u ∧ (rank u = 0 ∨ Below m.mem 3 root u)) ∧
    (∀ u, rank u = 0 → rank' u ≠ 0 → .alloc 1 (u * 4096) ∈ l)

/-- A map leaves the frames that are no page tables alone. -/
lemma Mapped.data {w : WindowTables} {rank rank' : Nat → Nat} {root p : Nat} {page e : Word} {m m' : Machine}
    (h : Mapped w rank rank' root page e p m m') {f : Nat} (hf : rank' f = 0) (i : Fin 512) :
    m'.mem (slot f i) = m.mem (slot f i) := by
  obtain ⟨l, -, hchanged, -, hstores, -⟩ := h.written
  -- what the map writes are entries of tables
  have hne (u : Nat) (j : Fin 512) (hu : rank' u ≠ 0) : slot f i ≠ slot u j := by
    intro heq
    obtain ⟨rfl, -⟩ := slot_inj i.isLt j.isLt heq
    exact hu hf
  by_contra hch
  have hpt := h.tables.rank_pt
  have hstore := hchanged (slot f i) (hne w.pt 0 (by omega)) hch
  rcases hstores _ hstore with heq | ⟨u, j, heq, hu, -⟩
  · exact hne p (index page 1) (h.rank_leaf.trans_ne (by decide)) heq
  · exact hne u j (by omega) heq

namespace Tables

variable {rank : Nat → Nat} {w : WindowTables} {m : Machine} {v : Word} {n t root : Nat} {flags : PageFlags}

/-- Under the invariant a lookup finds the leaf entry and changes the log only. -/
lemma directEntry_lookup (h : Tables rank w m) (ht : rank t = n + 1) :
    ∃ l, (∀ a, .store a ∉ l) ∧ m.directEntry lookupOnly v n t =
      ((leafTable m.mem v n t).map fun p => slot p (lvIndex v 1), { m with log := l ++ m.log }) := by
  induction n generalizing m t with
  | zero =>
    refine ⟨[], fun a ha => ?_, rfl⟩
    cases ha
  | succ n ih =>
    rw [leafTable_succ, Machine.directEntry, Machine.enter]
    by_cases h0 : m.mem (slot t (lvIndex v (n + 2))) = 0#64
    · have habs : (m.fetch (slot t (lvIndex v (n + 2)))).Absent (m.mem (slot t (lvIndex v (n + 2)))) :=
        (h.absent_iff (by omega) (index v (n + 2))).mpr h0
      refine ⟨[.load (slot t (lvIndex v (n + 2)))], fun a ha => by simp at ha, ?_⟩
      simp only [if_pos habs, ne_eq, not_true_eq_false, if_false, if_pos h0]
      rfl
    · have habs : ¬ (m.fetch (slot t (lvIndex v (n + 2)))).Absent (m.mem (slot t (lvIndex v (n + 2)))) :=
        (h.absent_iff (by omega) (index v (n + 2))).not.mpr h0
      have hc := (h.child_index (by omega) h0).1
      have h1 : Tables rank w ((m.fetch (slot t (lvIndex v (n + 2)))).fetch (slot t (lvIndex v (n + 2)))) :=
        h.of_eq rfl rfl rfl rfl
      obtain ⟨l, hl, hwalk⟩ := ih h1 (t := frame (m.mem (slot t (lvIndex v (n + 2))))) (by omega)
      refine ⟨l ++ [.load (slot t (lvIndex v (n + 2))), .load (slot t (lvIndex v (n + 2)))], fun a ha => ?_, ?_⟩
      · rcases List.mem_append.mp ha with ha | ha
        · exact hl a ha
        · simp at ha
      · simp only [if_neg habs, if_neg h0, Machine.light_lookupOnly, hwalk, List.append_assoc]
        rfl

lemma clear_lookup (h : Tables rank w m) {low : Nat → Prop} (ht : rank t = n + 1)
    (hlow : ∀ f, f < 0x800 → rank f ≠ 0 → low f) : Clear w low lookupOnly v n m t := by
  induction n generalizing m t with
  | zero => trivial
  | succ n ih =>
    refine ⟨h.slot_ne_win (by omega) (lvIndex_lt v (n + 2)), fun habs hlt => ?_, ?_⟩
    · have h0 := (h.absent_iff (by omega) (index v (n + 2))).not.mp habs
      have hc := (h.child_index (by omega) h0).1
      refine hlow _ ?_ (by omega)
      rw [base_toNat, identityEnd] at hlt
      unfold frame
      omega
    · by_cases h0 : m.mem (slot t (lvIndex v (n + 2))) = 0#64
      · have habs : (m.fetch (slot t (lvIndex v (n + 2)))).Absent (m.mem (slot t (lvIndex v (n + 2)))) :=
          (h.absent_iff (by omega) (index v (n + 2))).mpr h0
        rw [Machine.enter]
        simp only [if_pos habs, ne_eq, not_true_eq_false, if_false]
      · have habs : ¬ (m.fetch (slot t (lvIndex v (n + 2)))).Absent (m.mem (slot t (lvIndex v (n + 2)))) :=
          (h.absent_iff (by omega) (index v (n + 2))).not.mpr h0
        have hc := (h.child_index (by omega) h0).1
        rw [Machine.enter]
        simp only [if_neg habs, Machine.light_lookupOnly]
        exact ih (h.of_eq rfl rfl rfl rfl) (by omega)

/-- The entries above a present leaf entry are present. -/
lemma lit_index (h : Tables rank w m) (ht : rank t = n + 2) (h0 : m.mem (slot t (lvIndex v (n + 2))) ≠ 0#64) {p : Nat}
    (hp : leafTable m.mem v n (frame (m.mem (slot t (lvIndex v (n + 2))))) = some p)
    (hpres : (m.mem (slot p (lvIndex v 1))).getLsbD 0 = true) : (m.mem (slot t (lvIndex v (n + 2)))).getLsbD 0 = true := by
  by_contra hdark
  rw [Bool.not_eq_true] at hdark
  have hc := (h.child_index (by omega) h0).1
  have hd := h.dark_walk (by omega) (h.dark_index (by omega) h0 hdark) hp (index v 1)
  rw [index_val, hpres] at hd
  cases hd

/-- A present leaf entry is mapped with the rights of the whole way. -/
theorem mmuWalk_present (h : Tables rank w m) (ht : rank t = n + 1) {p : Nat} (hp : leafTable m.mem v n t = some p)
    (hpres : (m.mem (slot p (lvIndex v 1))).getLsbD 0 = true) (r : Rights) :
    mmuWalk m.mem v (n + 1) t r = some ⟨frame (m.mem (slot p (lvIndex v 1))) * 4096 + v.toNat % 4096,
      (pathRights m.mem v n t r).meet (m.mem (slot p (lvIndex v 1)))⟩ := by
  induction n generalizing t r with
  | zero =>
    obtain rfl : t = p := Option.some.inj hp
    exact mmuWalk_leaf r hpres
  | succ n ih =>
    rw [leafTable_succ] at hp
    split_ifs at hp with h0
    obtain ⟨hc, hsmall⟩ := h.child_index (by omega) h0
    rw [mmuWalk_table _ (h.lit_index ht h0 hp hpres) hsmall]
    exact ih (by omega) hp _

/-- A low page that is not a table's. -/
def OffTables (rank : Nat → Nat) (page : Word) : Prop := ∀ t, t < 0x800 → rank t ≠ 0 → pageNo page ≠ t

/-- The write of a leaf entry at the end of a walk, seen through the window. -/
lemma mapped_of_sim {rank' : Nat → Nat} {m' d : Machine} {page e : Word} {p : Nat} (hr : rank root = 4)
    (hpage : OffTables rank page)
    (ho : Reached w rank rank' flags page 3 root p m d) (he : e.getLsbD 0 = true → flags.getLsbD 0 = true)
    (hs : Sim w.win (d.put (slot p (lvIndex page 1)) e) m') (hentry : m'.mem (slot p (lvIndex page 1)) = e) :
    Mapped w rank rank' root page e p m m' := by
  have hroot : rank' root = 4 := by rw [ho.grown.ranks root (by omega), hr]
  have hput : Tables rank' w (d.put (slot p (index page 1)) e) := by
    refine ho.tables.put_leaf ho.rank_leaf _ (fun hbit => ho.lit (he hbit)) fun t hlt ht q hq heq => ?_
    have ht0 : rank t ≠ 0 := fun h0 => by
      have hge := (ho.grown.fresh t h0 ht).1
      omega
    obtain ⟨rfl, hi⟩ := slot_inj (index (BitVec.ofNat 64 (t * 4096)) 1).isLt (index page 1).isLt heq
    have hno := (ho.tables.leafTable_inj ho.tables.top hroot hq ho.leaf hi).1
    refine hpage t hlt ht0 (hno.symm.trans ?_)
    simp only [pageNo, BitVec.toNat_ofNat]
    omega
  have hupper (t : Nat) (i : Fin 512) (ht : 2 ≤ rank' t) : m'.mem (slot t i) = d.mem (slot t i) := by
    rw [hs.mem _ (hput.slot_ne_win ht i.isLt)]
    exact put_leaf_upper ho.rank_leaf (index page 1) e ht i
  have hleaf : leafTable m'.mem page 3 root = some p := by
    rw [ho.tables.leafTable_eq hupper hroot]
    exact ho.leaf
  refine ⟨hput.of_sim hs, ho.grown.ranks, ho.grown.fresh, ?_, ?_, ?_, hs.cr3.trans ho.grown.cr3, ?_, hleaf, ho.rank_leaf, hentry,
    ho.tree, hs.pmm.trans ho.pmm, ?_⟩
  · intro f hf
    rw [hs.pmm]
    exact ho.grown.used f hf
  · intro t i ht h0
    rw [hupper t i (by rw [ho.grown.ranks t (by omega)]; exact ht)]
    exact ho.grown.child t i ht h0
  · intro x hx hx'
    exact (ho.tables.below_congr hroot (fun y i _ hy => hupper y i hy) x).mpr (ho.hangs x hx hx')
  · intro r v hrv hv hor
    have hr4 : rank' r = 4 := by rw [ho.grown.ranks r (by omega), hrv]
    rw [hput.mmu_of_sim hs hr4 hv, mmu, mmu, ← ho.grown.same 3 r v _ hrv]
    refine ho.tables.mmu_put_leaf ho.rank_leaf (index page 1) e hr4 fun q hq heq => ?_
    obtain ⟨rfl, hi⟩ := slot_inj (lvIndex_lt v 1) (index page 1).isLt heq
    obtain ⟨hno, hor'⟩ := ho.tables.leafTable_inj hr4 hroot hq ho.leaf hi
    rcases hor with hne | ⟨hne, h4⟩
    · exact hne hno
    · rcases hor' with rfl | h0
      · exact hne rfl
      · rw [lvIndex_eq_of_pageNo hno (by decide) (by decide)] at h0
        exact h4 h0
  · obtain ⟨l, hl, hch, hst, hal⟩ := ho.written
    refine ⟨.store (slot p (lvIndex page 1)) :: l, ?_, ?_, List.mem_cons_self, ?_, ?_⟩
    · rw [hs.log, List.cons_append, ← hl]
      rfl
    · intro a hwin ha
      rw [hs.mem a hwin] at ha
      by_cases hap : a = slot p (lvIndex page 1)
      · rw [hap]
        exact List.mem_cons_self
      · rw [put_mem_ne hap] at ha
        exact List.mem_cons_of_mem _ (hch a ha)
    · intro a ha
      rcases List.mem_cons.mp ha with ha | ha
      · cases ha
        exact Or.inl rfl
      · exact Or.inr (hst a ha)
    · intro u hu hu'
      exact List.mem_cons_of_mem _ (hal u hu hu')

lemma pathRights_congr (h : Tables rank w m) {mem' : Mem} (ht : rank t = n + 1)
    (hmem : ∀ x (i : Fin 512), 2 ≤ rank x → mem' (slot x i) = m.mem (slot x i)) {p : Nat}
    (hp : leafTable m.mem v n t = some p) (r : Rights) : pathRights mem' v n t r = pathRights m.mem v n t r := by
  induction n generalizing t r with
  | zero => rfl
  | succ n ih =>
    have he : mem' (slot t (lvIndex v (n + 2))) = m.mem (slot t (lvIndex v (n + 2))) :=
      hmem t (index v (n + 2)) (by omega)
    rw [leafTable_succ] at hp
    split_ifs at hp with h0
    have hc := (h.child_index (by omega) h0).1
    simp only [pathRights, he]
    exact ih (by omega) hp _

lemma lit_root (h : Tables rank w m) (hr : rank root = 4) : Lit rank m root := by
  intro u i hu h0 hf
  have hc := (h.child u i hu h0).1
  have hle := h.rank_le u
  rw [hf] at hc
  omega

lemma root_ok (h : Tables rank w m) (hr : rank root = 4) :
    root < 2 ^ 40 ∧ (root < 0x800 → root < 0x800 ∧ rank root ≠ 0) := by
  have hlt := (h.frame_ok root (by omega)).2.2.1
  exact ⟨by omega, fun hlow => ⟨hlow, by omega⟩⟩

lemma frame_word {f : Nat} (hf : f < 2 ^ 40) (hflags : PlainFlags flags) :
    frame (BitVec.ofNat 64 (f * 4096) ||| flags) = f := by
  rw [frame_or_of_zero _ hflags.frame, frame_ofNat hf]

lemma flag_word {f i : Nat} (hf : f < 2 ^ 40) (hi : i < 12 ∨ 52 ≤ i) :
    (BitVec.ofNat 64 (f * 4096) ||| flags).getLsbD i = flags.getLsbD i := by
  rw [BitVec.getLsbD_or, getLsbD_ofNat_frame hf hi, Bool.false_or]

/-- `map` returns, and what it achieves. -/
theorem map_spec (h : Tables rank w m) (hr : rank root = 4) (hflags : PlainFlags flags) {f : Nat} (hf : f < 2 ^ 40)
    {page : Word} (hpage : OffTables rank page) (hsup : Supplied m.mem (missing m.mem page 3 root) m.pmm) :
    ∃ m' rank' p, m.map (BitVec.ofNat 64 (root * 4096)) page (BitVec.ofNat 64 (f * 4096)) flags = some m' ∧
      Mapped w rank rank' root page (BitVec.ofNat 64 (f * 4096) ||| flags) p m m' ∧
      ∀ r, Grants (pathRights m'.mem page 3 root r) flags ↔ Grants r flags ∧ Permits m.mem flags page 3 root := by
  have hlow : ∀ f, f < 0x800 → rank f ≠ 0 → f < 0x800 ∧ rank f ≠ 0 := fun f hlt h0 => ⟨hlt, h0⟩
  obtain ⟨hclear, p, d, rank', hwalk, ho⟩ := h.directEntry_create hr hlow hflags (fun _ => h.lit_root hr) hsup
  obtain ⟨m', hmap, hs, hentry⟩ := h.ready.map_eq (h.root_ok hr).1 (h.root_ok hr).2 hclear (BitVec.ofNat 64 (f * 4096))
  rw [Machine.directMap, hwalk] at hs
  rw [hwalk] at hentry
  have hmapped := mapped_of_sim hr hpage ho.toReached
    (fun hbit => by rwa [flag_word hf (by decide)] at hbit) hs (hentry _ rfl)
  have hroot : rank' root = 4 := by rw [ho.grown.ranks root (by omega), hr]
  refine ⟨m', rank', p, hmap, hmapped, fun r => ?_⟩
  rw [← ho.rights, ho.tables.pathRights_congr hroot (fun x i hx => ?_) ho.leaf]
  rw [hs.mem _ (hmapped.tables.slot_ne_win hx i.isLt)]
  exact put_leaf_upper ho.rank_leaf (index page 1) _ hx i

/-- `lookup_entry` finds the leaf entry. -/
theorem lookup_spec (h : Tables rank w m) (hr : rank root = 4) (v : Word) :
    ∃ q m' l, m.lookupEntry (BitVec.ofNat 64 (root * 4096)) v = some (q, m') ∧ (∀ a, .store a ∉ l) ∧
      Sim w.win { m with log := l ++ m.log } m' ∧
      Found m' q ((leafTable m.mem v 3 root).map fun p => slot p (lvIndex v 1)) := by
  have hlow : ∀ f, f < 0x800 → rank f ≠ 0 → f < 0x800 ∧ rank f ≠ 0 := fun f hlt h0 => ⟨hlt, h0⟩
  have hclear := h.clear_lookup (v := v) hr hlow
  obtain ⟨l, hl, hwalk⟩ := h.directEntry_lookup (v := v) hr
  obtain ⟨q, m', hget, -, hs, hfound⟩ := h.ready.getEntry_eq (.refl _ _) (h.root_ok hr).1
    (h.root_ok hr).2 hclear
  rw [hwalk] at hs hfound
  exact ⟨q, m', l, hget, hl, hs, hfound⟩

/-- `unmap` returns; it clears the leaf entry if there is one. -/
theorem unmap_spec (h : Tables rank w m) (hr : rank root = 4) {page : Word} (hpage : OffTables rank page) :
    ∃ m', m.unmap (BitVec.ofNat 64 (root * 4096)) page = some m' ∧
      ((leafTable m.mem page 3 root = none ∧ ∃ l, (∀ a, .store a ∉ l) ∧ Sim w.win { m with log := l ++ m.log } m') ∨
        ∃ p, Mapped w rank rank root page 0#64 p m m') := by
  have hlow : ∀ f, f < 0x800 → rank f ≠ 0 → f < 0x800 ∧ rank f ≠ 0 := fun f hlt h0 => ⟨hlt, h0⟩
  have hclear := h.clear_lookup (v := page) hr hlow
  obtain ⟨l, hl, hwalk⟩ := h.directEntry_lookup (v := page) hr
  obtain ⟨m', hunmap, hs, hentry⟩ := h.ready.unmap_eq (h.root_ok hr).1 (h.root_ok hr).2 hclear
  refine ⟨m', hunmap, ?_⟩
  rw [Machine.directUnmap, hwalk] at hs
  cases hp : leafTable m.mem page 3 root with
  | none =>
    rw [hp] at hs
    exact Or.inl ⟨rfl, l, hl, hs⟩
  | some p =>
    rw [hp] at hs
    rw [hwalk, hp] at hentry
    refine Or.inr ⟨p, mapped_of_sim hr hpage ?_ (fun hbit => hbit) hs (hentry _ rfl)⟩
    exact h.reached_of_log hr hp (fun hbit => by cases hbit) rfl hl

end Tables

end HaiirOS
