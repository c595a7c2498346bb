import HaiirOS.Memory.PagingFrame
import HaiirOS.Proofs.MissingTables

/-!
# Running out of frames

`create_table` does not look at what the allocator returns. If no frame is left it links the
frame 0 as a page table, so a walk that lacks more tables than there are frames ends up there.
-/

namespace HaiirOS

open AddressWord

/-- Since the log was `l` the frame 0 has become a page table. -/
def LinksZero (l : List Event) (m : Machine) : Prop := ∃ l', l <:+ l' ∧ Event.table 0 :: l' <:+ m.log

lemma LinksZero.mono {l l' : List Event} {m : Machine} (hl : l <:+ l') (h : LinksZero l' m) : LinksZero l m := by
  obtain ⟨l'', hsub, hlog⟩ := h
  exact ⟨l'', hl.trans hsub, hlog⟩

/-- What a log has gained since it was `l`. -/
lemma mem_of_suffix {l l' L L' : List Event} {x : Event} (hsub : l <:+ l') (hx : x :: l' <:+ L') (hL : L' = L ++ l) :
    x ∈ L := by
  obtain ⟨k', rfl⟩ := hsub
  obtain ⟨k, hk⟩ := hx
  have happ : (k ++ x :: k') ++ l = L ++ l := by
    rw [← hL, ← hk, List.append_assoc]
    rfl
  rw [← List.append_cancel_right happ]
  exact List.mem_append_right k List.mem_cons_self

namespace Machine

variable {m m' : Machine} {flags : PageFlags}

lemma stable_suffix (flags : PageFlags) (l : List Event) : Stable flags fun m => l <:+ m.log where
  write h hm := by
    obtain ⟨a, -, rfl⟩ := Option.map_eq_some_iff.mp h
    exact hm
  load h hm := by
    obtain ⟨a, -, h⟩ := Option.map_eq_some_iff.mp h
    cases h
    exact hm.trans (List.suffix_cons ..)
  store h hm := by
    obtain ⟨a, -, rfl⟩ := Option.map_eq_some_iff.mp h
    exact hm.trans (List.suffix_cons ..)
  create _ _ hm := hm.trans ((List.suffix_cons ..).trans (List.suffix_cons ..))

lemma Stable.entryBelow {P : Machine → Prop} (hP : Stable flags P) {v q q' : Word} {n : Nat}
    (h : m.entryBelow flags v n q = some (q', m')) (hm : P m) : P m' := by
  induction n generalizing m q with
  | zero =>
    cases h
    exact hm
  | succ n ih =>
    obtain ⟨⟨p, m1⟩, h1, h⟩ := Option.bind_eq_some_iff.mp h
    have hm1 := hP.getTableFromEntry h1 hm
    simp only at h
    split_ifs at h
    · cases h
      exact hm1
    · exact ih h hm1

/-- Once linked, the frame 0 stays in the log. -/
lemma stable_linksZero (flags : PageFlags) (l : List Event) : Stable flags (LinksZero l) where
  write h := fun ⟨l', hsub, hlog⟩ => ⟨l', hsub, (stable_suffix flags _).write h hlog⟩
  load h := fun ⟨l', hsub, hlog⟩ => ⟨l', hsub, (stable_suffix flags _).load h hlog⟩
  store h := fun ⟨l', hsub, hlog⟩ => ⟨l', hsub, (stable_suffix flags _).store h hlog⟩
  create hf _ := fun ⟨l', hsub, hlog⟩ => ⟨l', hsub, (stable_suffix flags _).create hf hlog⟩

/-- The tables that one level of a walk notes are the ones it goes on to. -/
lemma enter_log {a u : Nat} (h : m.enter a flags = (some u, m')) :
    ∃ l, m'.log = l ++ m.log ∧ ∀ x, Event.table x ∈ l → x = u := by
  rw [enter] at h
  by_cases habs : (m.fetch a).Absent (m.mem a)
  · simp only [if_pos habs] at h
    split_ifs at h
    · cases h
      refine ⟨[.store a, .table _, .alloc 1 _, .load a], rfl, fun x hx => ?_⟩
      simp at hx
      exact hx
    · cases h
  · simp only [if_neg habs] at h
    cases h
    unfold light
    split_ifs
    · refine ⟨[.store a, .load a, .load a, .load a], rfl, fun x hx => ?_⟩
      simp at hx
    · refine ⟨[.load a, .load a], rfl, fun x hx => ?_⟩
      simp at hx

end Machine

namespace Pmm

variable {p : Pmm}

lemma Valid.alloc_exhausted (h : p.Valid) (hnone : p.freeSet.card = 0) : (p.pmmAllocUnmapped 1).1 = 0 := by
  rcases p.pmmAllocUnmapped_spec (by decide : 0 < 1) h.lastIdxBit h.zero with ⟨s, -, hs, -⟩ | ⟨-, -, hr⟩
  · have hmem : s ∈ p.freeSet :=
      mem_freeSet.mpr ⟨Nat.lt_of_succ_le hs.le_bitmap, hs.allFree s (Nat.le_refl s) (Nat.lt_succ_self s)⟩
    rw [Finset.card_eq_zero.mp hnone] at hmem
    exact (Finset.notMem_empty s hmem).elim
  · rw [hr]

end Pmm

/-- All free frames hold zeros. -/
def Clean (m : Machine) : Prop := ∀ f ∈ m.pmm.freeSet, ∀ i : Fin 512, m.mem (slot f i) = 0#64

namespace Tables

variable {rank : Nat → Nat} {w : WindowTables} {m m1 m' : Machine} {v q q' p : Word} {n t root : Nat} {flags : PageFlags}

/-- One level of a creating walk, with a frame for the table if it is missing. -/
lemma enter_clean (h : Tables rank w m) (ht : rank t = n + 2) (hf : PlainFlags flags)
    (hlit : flags.getLsbD 0 = true → Lit rank m t) (hclean : Clean m)
    (hstock : m.mem (slot t (index v (n + 2))) = 0#64 → 0 < m.pmm.freeSet.card) :
    ∃ u d rank1, m.enter (slot t (index v (n + 2))) flags = (some u, d) ∧
      Entered w rank rank1 flags t (index v (n + 2)) u m d ∧ Clean d ∧
      missing m.mem v (n + 1) t + d.pmm.freeSet.card = missing d.mem v n u + m.pmm.freeSet.card := by
  have hfree {d : Machine} (hm : ∀ a, a ≠ slot t (index v (n + 2)) → d.mem a = m.mem a) (s : Nat)
      (hs : s ∈ m.pmm.freeSet) (i : Fin 512) : d.mem (slot s i) = m.mem (slot s i) := by
    refine hm _ fun heq => ?_
    obtain ⟨rfl, -⟩ := slot_inj i.isLt (index v (n + 2)).isLt heq
    rw [Pmm.mem_freeSet, Pmm.free_iff, (h.frame_ok s (by omega)).2.2.2] at hs
    cases hs.2
  by_cases h0 : m.mem (slot t (index v (n + 2))) = 0#64
  · obtain ⟨s, hs⟩ := h.valid.exists_nextRun (fun f hf => h.low_used f (by omega)) (hstock h0)
    have hmem : s ∈ m.pmm.freeSet :=
      Pmm.mem_freeSet.mpr ⟨Nat.lt_of_succ_le hs.le_bitmap, hs.allFree s (Nat.le_refl s) (Nat.lt_succ_self s)⟩
    obtain ⟨d, henter, h1⟩ := h.enter_made (by omega) h0 hf hlit hs (hclean s hmem)
    have hpmm := (h1.made h0).2.2.1
    refine ⟨s, d, _, henter, h1, fun f hf i => ?_, ?_⟩
    · rw [hpmm, h.valid.freeSet_handOut_one hs] at hf
      rw [hfree h1.mem f (Finset.mem_of_mem_erase hf)]
      exact hclean f (Finset.mem_of_mem_erase hf) i
    · have hz (i : Fin 512) : d.mem (slot s i) = 0#64 := (hfree h1.mem s hmem i).trans (hclean s hmem i)
      have hbefore : missing m.mem v (n + 1) t = n + 1 := if_pos h0
      have hcard := h.valid.card_handOut_one hs
      rw [missing_of_zero hz, hbefore, hpmm]
      omega
  · obtain ⟨u, d, henter, h1⟩ := h.enter_named (by omega) h0 hf hlit
    obtain ⟨-, hpmm, rfl, -⟩ := h1.named h0
    have hru := h1.rank_child
    refine ⟨_, d, rank, henter, h1, fun f hf i => ?_, ?_⟩
    · rw [hpmm] at hf
      rw [hfree h1.mem f hf]
      exact hclean f hf i
    · rw [hpmm, h.missing_congr (by omega) fun x i hx _ => h1.mem _ (slot_ne (by omega : rank x ≠ rank t) i _)]
      rw [index_val] at h0 ⊢
      simp only [missing, if_neg h0]

/-- Frames that are not in use are clean in whatever differs in the window only. -/
lemma clean_of_sim (h : Tables rank w m) (hs : Sim w.win m m') (hclean : Clean m) : Clean m' := by
  intro f hf i
  rw [hs.pmm] at hf
  rw [hs.mem _ fun heq => ?_]
  · exact hclean f hf i
  · obtain ⟨rfl, -⟩ := slot_inj i.isLt (by decide) heq
    have hpt := h.rank_pt
    rw [Pmm.mem_freeSet, Pmm.free_iff, (h.frame_ok w.pt (by omega)).2.2.2] at hf
    cases hf.2

lemma lit_of_sim (h : Tables rank w m) (hs : Sim w.win m m') (hlit : Lit rank m t) : Lit rank m' t := by
  intro u i hu h0 hf
  rw [hs.mem _ (h.slot_ne_win hu i.isLt)] at h0 hf ⊢
  exact hlit u i hu h0 hf

/-- One level of a walk with too few frames: it links the frame 0, or goes on with too few. -/
lemma exhausted_step (h : Tables rank w m) (ht : rank t = n + 2) (hd : m.deref q = some (slot t (lvIndex v (n + 2))))
    (hlt : q.toNat < identityEnd) (hf : PlainFlags flags) (hlit : flags.getLsbD 0 = true → Lit rank m t)
    (hclean : Clean m) (hfew : m.pmm.freeSet.card < missing m.mem v (n + 1) t)
    (hstep : m.getTableFromEntry q flags = some (p, m1)) :
    LinksZero m.log m1 ∨ ∃ u rank1, p ≠ 0#64 ∧ Tables rank1 w m1 ∧ rank1 u = n + 1 ∧
      Points w (fun f => f < 0x800 ∧ rank1 f ≠ 0) m1 p u ∧ (flags.getLsbD 0 = true → Lit rank1 m1 u) ∧ Clean m1 ∧
      m1.pmm.freeSet.card < missing m1.mem v n u := by
  have hne : slot t (lvIndex v (n + 2)) ≠ w.win := h.slot_ne_win (by omega) (lvIndex_lt v (n + 2))
  have hrefl : Sim w.win m m := .refl w.win m
  have hlow : ¬ m.Absent (m.mem (slot t (lvIndex v (n + 2)))) →
      (base (m.mem (slot t (lvIndex v (n + 2))))).toNat < identityEnd →
      frame (m.mem (slot t (lvIndex v (n + 2)))) < 0x800 ∧ rank (frame (m.mem (slot t (lvIndex v (n + 2))))) ≠ 0 := by
    intro habs hbase
    have h0 := (h.absent_iff (by omega) (index v (n + 2))).not.mp habs
    have hc := (h.child_index (by omega) h0).1
    rw [base_toNat, identityEnd] at hbase
    exact ⟨by unfold frame; omega, by omega⟩
  obtain ⟨p', m1', hstep', hr, hs, hu⟩ := h.ready.getTableFromEntry_eq hrefl hd hlt hne flags hlow
  obtain ⟨rfl, rfl⟩ : p = p' ∧ m1 = m1' := by
    rw [hstep'] at hstep
    cases hstep
    exact ⟨rfl, rfl⟩
  by_cases hcase : m.mem (slot t (index v (n + 2))) = 0#64 ∧ m.pmm.freeSet.card = 0
  · -- no frame for a table that is missing
    left
    have habs : (m.fetch (slot t (lvIndex v (n + 2)))).Absent (m.mem (slot t (lvIndex v (n + 2)))) :=
      (h.absent_iff (by omega) (index v (n + 2))).mpr hcase.1
    have hzero : frame ((m.fetch (slot t (lvIndex v (n + 2)))).pmmAllocUnmapped 1).1 = 0 := by
      have halloc := h.valid.alloc_exhausted hcase.2
      change frame (BitVec.ofNat 64 (m.pmm.pmmAllocUnmapped 1).1) = 0
      rw [halloc]
      decide
    rw [Machine.enter] at hs
    simp only [if_pos habs, if_pos hf.ne_lookupOnly, Machine.attach, hzero] at hs
    refine ⟨.alloc 1 (m.pmm.pmmAllocUnmapped 1).1 :: .load (slot t (lvIndex v (n + 2))) :: m.log, ?_, ?_⟩
    · exact (List.suffix_cons ..).trans (List.suffix_cons ..)
    · rw [hs.log]
      exact List.suffix_cons ..
  · right
    obtain ⟨u, d, rank1, henter, h1, hclean1, hcount⟩ := h.enter_clean (v := v) ht hf hlit hclean fun h0 =>
      Nat.pos_of_ne_zero fun hc => hcase ⟨h0, hc⟩
    rw [index_val] at henter
    rw [henter] at hs hu
    have hpmm : m1.pmm = d.pmm := hs.pmm
    have hru := h1.rank_child
    have hp : Points w (fun f => f < 0x800 ∧ rank1 f ≠ 0) m1 p u := by
      cases (hu : Points w _ m1 p u) with
      | window he => exact .window he
      | low hl => exact .low ⟨hl.1, by rw [h1.grown.ranks _ hl.2]; exact hl.2⟩
    have htab := h1.tables.of_sim hs
    refine ⟨u, rank1, (hp.entryPtr htab.ready (by decide : 0 < 512)).2.2.1, htab, by omega, hp,
      fun hbit => h1.tables.lit_of_sim hs (h1.lit hbit), h1.tables.clean_of_sim hs hclean1, ?_⟩
    rw [hpmm, h1.tables.missing_congr (by omega) fun x i _ hx => hs.mem _ (h1.tables.slot_ne_win hx i.isLt)]
    omega

/-- A walk that lacks more tables than there are free frames ends up with the frame 0 as a table. -/
lemma walk_exhausted (h : Tables rank w m) (ht : rank t = n + 2) (hd : m.deref q = some (slot t (lvIndex v (n + 2))))
    (hlt : q.toNat < identityEnd) (hf : PlainFlags flags) (hlit : flags.getLsbD 0 = true → Lit rank m t)
    (hclean : Clean m) (hfew : m.pmm.freeSet.card < missing m.mem v (n + 1) t)
    (hstep : m.getTableFromEntry q flags = some (p, m1))
    (hrest : (if p = 0#64 then some (0#64, m1) else m1.entryBelow flags v n p) = some (q', m')) :
    LinksZero m.log m' := by
  induction n generalizing rank m t q p m1 with
  | zero =>
    rcases h.exhausted_step ht hd hlt hf hlit hclean hfew hstep with hzero | ⟨u, rank1, -, -, -, -, -, -, hfew1⟩
    · split_ifs at hrest
      · cases hrest
        exact hzero
      · exact (Machine.stable_linksZero flags m.log).entryBelow hrest hzero
    · exact (Nat.not_lt_zero _ hfew1).elim
  | succ n ih =>
    have hsub : m.log <:+ m1.log := (Machine.stable_suffix flags m.log).getTableFromEntry hstep (List.suffix_refl _)
    rcases h.exhausted_step ht hd hlt hf hlit hclean hfew hstep with
      hzero | ⟨u, rank1, hp, h1, hru, hpoints, hlit1, hclean1, hfew1⟩
    · split_ifs at hrest
      · cases hrest
        exact hzero
      · exact (Machine.stable_linksZero flags m.log).entryBelow hrest hzero
    · rw [if_neg hp] at hrest
      obtain ⟨⟨p2, m2⟩, hstep2, hrest2⟩ := Option.bind_eq_some_iff.mp hrest
      obtain ⟨hd1, hlt1, -, -⟩ := hpoints.entryPtr h1.ready (lvIndex_lt v (n + 2))
      rw [getLvIndex_eq] at hstep2
      exact (ih h1 hru hd1 hlt1 hlit1 hclean1 hfew1 hstep2 hrest2).mono hsub

theorem map_exhausted (h : Tables rank w m) (hr : rank root = 4) (hf : PlainFlags flags) (hclean : Clean m) {f : Word}
    (hfew : m.pmm.freeSet.card < missing m.mem v 3 root) (hmap : m.map (frameAddr root) v f flags = some m') :
    LinksZero m.log m' := by
  have hrefl : Sim w.win m m := .refl w.win m
  obtain ⟨⟨q', m2⟩, hget, hput⟩ := Option.bind_eq_some_iff.mp hmap
  have hzero : LinksZero m.log m2 := by
    rw [getEntry_eq_entryBelow] at hget
    obtain ⟨⟨p, m1⟩, hstep, hrest⟩ := Option.bind_eq_some_iff.mp hget
    obtain ⟨q, m0, hvalid, hd, hlt, -, hs⟩ := h.ready.root_step hrefl (h.root_ok hr).1 (h.root_ok hr).2
      (lvIndex_lt v 4)
    have hroot : entryPtr (frameAddr root) (lvIndex v 4) = entryPtr (BitVec.ofNat 64 (root * 4096)) (lvIndex v 4) := rfl
    rw [getLvIndex_eq, hroot, getTableFromEntry_congr hvalid hlt] at hstep
    rw [← hs.log]
    refine (h.of_sim hs).walk_exhausted hr hd hlt hf (fun _ => (h.of_sim hs).lit_root hr) (h.clean_of_sim hs hclean)
      ?_ hstep hrest
    rw [hs.pmm, h.missing_congr hr fun x i _ hx => hs.mem _ (h.slot_ne_win hx i.isLt)]
    exact hfew
  simp only at hput
  split_ifs at hput
  · exact (Machine.stable_linksZero flags m.log).store hput hzero
  · cases hput
    exact hzero

/-! ### With enough frames -/

lemma directEntry_log (h : Tables rank w m) (ht : rank t = n + 1) (hf : PlainFlags flags)
    (hlit : flags.getLsbD 0 = true → Lit rank m t) (hsup : Supplied m.mem (missing m.mem v n t) m.pmm)
    {r : Option Nat} (hwalk : m.directEntry flags v n t = (r, m')) :
    ∃ l, m'.log = l ++ m.log ∧ .table 0 ∉ l := by
  induction n generalizing rank m t with
  | zero =>
    cases hwalk
    exact ⟨[], rfl, List.not_mem_nil⟩
  | succ n ih =>
    obtain ⟨u, d, rank1, henter, h1, -, hsup1⟩ := h.enter_create ht hf hlit hsup
    have hru := h1.rank_child
    obtain ⟨l1, hlog1, htable⟩ := Machine.enter_log henter
    rw [index_val] at henter
    rw [Machine.directEntry] at hwalk
    simp only [henter] at hwalk
    obtain ⟨l2, hlog2, hzero⟩ := ih h1.tables (by omega) h1.lit hsup1 hwalk
    refine ⟨l2 ++ l1, by rw [hlog2, hlog1, List.append_assoc], fun hmem => ?_⟩
    rcases List.mem_append.mp hmem with hmem | hmem
    · exact hzero hmem
    · obtain rfl := htable 0 hmem
      exact (h1.tables.frame_ok 0 (by omega)).1 rfl

lemma present_of_lit (h : Tables rank w m) (ht : rank t = n + 2) {u : Nat} (hp : leafTable m.mem v (n + 1) t = some u)
    (hlit : Lit rank m u) : (m.mem (slot t (lvIndex v (n + 2)))).getLsbD 0 = true := by
  induction n generalizing t with
  | zero =>
    rw [leafTable_succ] at hp
    split_ifs at hp with h0
    exact hlit t (index v 2) (by omega) h0 (Option.some.inj hp)
  | succ n ih =>
    rw [leafTable_succ] at hp
    split_ifs at hp with h0
    have hc := (h.child_index (by omega) h0).1
    by_contra hdark
    rw [Bool.not_eq_true] at hdark
    have hd := h.dark_index (by omega) h0 hdark (index v (n + 2))
    rw [index_val, ih (by omega) hp] at hd
    cases hd

/-- A present leaf entry in a lit table is found by the MMU, whatever else has changed in leaf entries. -/
lemma phys_of_lit (h : Tables rank w m) (ht : rank t = n + 1) {u : Nat} (hp : leafTable m.mem v n t = some u)
    (hlit : Lit rank m u) {mem' : Mem} (hmem : ∀ x (i : Fin 512), 2 ≤ rank x → mem' (slot x i) = m.mem (slot x i))
    (hpres : (mem' (slot u (lvIndex v 1))).getLsbD 0 = true) (r : Rights) :
    (mmuWalk mem' v (n + 1) t r).map Translation.phys =
      some (frame (mem' (slot u (lvIndex v 1))) * 4096 + v.toNat % 4096) := by
  induction n generalizing t r with
  | zero =>
    obtain rfl : t = u := Option.some.inj hp
    rw [mmuWalk_leaf r hpres]
    rfl
  | succ n ih =>
    have he : mem' (slot t (lvIndex v (n + 2))) = m.mem (slot t (lvIndex v (n + 2))) := hmem t (index v (n + 2)) (by omega)
    have hlit' := h.present_of_lit ht hp hlit
    rw [leafTable_succ] at hp
    split_ifs at hp with h0
    obtain ⟨hc, hsmall⟩ := h.child_index (by omega) h0
    rw [mmuWalk_table _ (by rw [he]; exact hlit') (by rw [he]; exact hsmall), he]
    exact ih (by omega) hp _

end Tables

/-- Page `page` of the address space is mapped to frame `f`: its leaf entry holds the frame and the flags, and
if the flags make it present the MMU finds the frame. -/
structure Maps (mem : Mem) (root : Nat) (page : Word) (f : Nat) (flags : PageFlags) : Prop where
  entry : ∃ p, leafTable mem page 3 root = some p ∧ mem (slot p (lvIndex page 1)) = frameAddr f ||| flags
  found : flags.getLsbD 0 = true → (mmu mem root page).map Translation.phys = some (f * 4096 + page.toNat % 4096)

namespace Tables

variable {rank : Nat → Nat} {w : WindowTables} {m : Machine} {root f : Nat} {page : Word} {flags : PageFlags}

/-- With enough frames a map is established, for any page. -/
theorem map_established (h : Tables rank w m) (hr : rank root = 4) (hf : PlainFlags flags) (hfit : f < 2 ^ 40)
    (hsup : Supplied m.mem (missing m.mem page 3 root) m.pmm) :
    ∃ m' l, m.map (frameAddr root) page (frameAddr f) flags = some m' ∧ m'.log = l ++ m.log ∧ .table 0 ∉ l ∧
      Maps m'.mem root page f flags := by
  have hlow : ∀ f, f < 0x800 → rank f ≠ 0 → f < 0x800 ∧ rank f ≠ 0 := fun f hlt h0 => ⟨hlt, h0⟩
  obtain ⟨hclear, p, d, rank', hwalk, ho⟩ := h.directEntry_create hr hlow hf (fun _ => h.lit_root hr) hsup
  obtain ⟨m', hmap, hs, hentry⟩ := h.ready.map_eq (h.root_ok hr).1 (h.root_ok hr).2 hclear (frameAddr f)
  obtain ⟨l, hlog, hzero⟩ := h.directEntry_log hr hf (fun _ => h.lit_root hr) hsup hwalk
  rw [Machine.directMap, hwalk] at hs
  rw [hwalk] at hentry
  have hroot : rank' root = 4 := by rw [ho.grown.ranks root (by omega), hr]
  have hupper (x : Nat) (i : Fin 512) (hx : 2 ≤ rank' x) : m'.mem (slot x i) = d.mem (slot x i) := by
    rw [hs.mem _ (ho.tables.slot_ne_win hx i.isLt)]
    exact put_leaf_upper ho.rank_leaf (index page 1) _ hx i
  have hleaf := hentry _ rfl
  refine ⟨m', .store (slot p (lvIndex page 1)) :: l, hmap, ?_, ?_, ⟨p, ?_, hleaf⟩, fun hbit => ?_⟩
  · rw [hs.log, List.cons_append, ← hlog]
    rfl
  · simpa using hzero
  · rw [ho.tables.leafTable_eq hupper hroot]
    exact ho.leaf
  · have hpres : (m'.mem (slot p (lvIndex page 1))).getLsbD 0 = true := by
      rw [hleaf]
      exact (flag_word hfit (by decide)).trans hbit
    rw [mmu, ho.tables.phys_of_lit hroot ho.leaf (ho.lit hbit) hupper hpres, hleaf]
    rw [frameAddr, frame_word hfit hf]

end Tables

end HaiirOS
