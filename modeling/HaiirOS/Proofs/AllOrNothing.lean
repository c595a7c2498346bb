import HaiirOS.Memory.Pages
import HaiirOS.Proofs.Exhaustion
import HaiirOS.Proofs.MmapEffects

/-!
# Maps are all or nothing with enough frames only

`map_frame`, `map_user_frame` and `pmm_alloc_custom` do not undo what they have done, and they take
the failure value of the allocator for an address. They establish their mapping, and leave the
frame 0 alone, exactly if there are frames for all tables that their pages lack.
-/

namespace HaiirOS

open AddressWord

/-- A call that maps pages. -/
inductive MapCall where
  | mapFrame (page : Word) (f : Nat) (flags : PageFlags)
  | mapUserFrame (root : Nat) (page : Word) (f : Nat) (flags : PageFlags)
  | pmmAllocCustom (count : Nat) (flags : PageFlags)

/-- The call, with the address that it returns. -/
def MapCall.run (m : Machine) : MapCall → Option (Option Word × Machine)
  | .mapFrame page f flags => (m.mapFrame page (frameAddr f) flags).map (none, ·)
  | .mapUserFrame root page f flags => (m.mapUserFrame (frameAddr root) page (frameAddr f) flags).map (none, ·)
  | .pmmAllocCustom count flags => (m.pmmAllocCustom count flags).map fun r => (some r.1, r.2)

namespace Session

/-- Well-formed arguments: a known address space, frame numbers and flags as they are. -/
def Asked (s : Session) : MapCall → Prop
  | .mapFrame _ f flags => PlainFlags flags ∧ f < 2 ^ 40
  | .mapUserFrame root _ f flags => root ∈ s.roots ∧ PlainFlags flags ∧ f < 2 ^ 40
  | .pmmAllocCustom _ flags => PlainFlags flags

/-- The call has established its mapping. `pmm_alloc_custom` has mapped frames that were free. -/
def Established (s : Session) (m' : Machine) (r : Option Word) : MapCall → Prop
  | .mapFrame page f flags => Maps m'.mem s.kernelRoot page f flags
  | .mapUserFrame root page f flags => Maps m'.mem root page f flags
  | .pmmAllocCustom count flags => ∃ g, r = some (frameAddr g) ∧
      ∀ i < count, s.machine.pmm.free (g + i) = true ∧ Maps m'.mem s.kernelRoot (frameAddr (g + i)) (g + i) flags

/-- Every translation, every page-table entry and the bitmap are as before; the window is left out. -/
structure Unchanged (w : WindowTables) (s : Session) (m' : Machine) : Prop where
  translations : ∀ r ∈ s.roots, ∀ v, pageNo v ≠ 0x200 → mmu m'.mem r v = mmu s.machine.mem r v
  entries : ∀ t (i : Fin 512), s.IsTable t → slot t i ≠ w.win → m'.mem (slot t i) = s.machine.mem (slot t i)
  marks : ∀ f, m'.pmm.used f = s.machine.pmm.used f

/-- The call returns; it has established its mapping or changed nothing; the frame 0 has not become a page
table, and if the call returns the address 0 no entry has been written. -/
def AllOrNothing (w : WindowTables) (s : Session) (c : MapCall) : Prop :=
  ∃ r m' l, c.run s.machine = some (r, m') ∧ m'.log = l ++ s.machine.log ∧
    (s.Established m' r c ∨ s.Unchanged w m') ∧ .table 0 ∉ l ∧ (r = some 0#64 → ∀ a, .store a ∉ l)

/-- There is a frame for each table that the pages of the call lack, and for `pmm_alloc_custom` a run of free
frames besides. -/
def EnoughFrames (s : Session) : MapCall → Prop
  | .mapFrame page _ _ => missing s.machine.mem page 3 s.kernelRoot ≤ s.machine.pmm.freeSet.card
  | .mapUserFrame root page _ _ => missing s.machine.mem page 3 root ≤ s.machine.pmm.freeSet.card
  | .pmmAllocCustom count _ => count = 0 ∨ ∃ g, s.machine.pmm.NextRun count g ∧
      (missingRange s.machine.mem s.kernelRoot (fun i => frameAddr (g + i)) 0 count).card ≤
        (s.machine.pmm.handOut g count).freeSet.card

end Session

lemma MapLoop.maps {w : WindowTables} {rank rank' : Nat → Nat} {roots : List Nat} {root : Nat} {page : Nat → Word}
    {f : Nat → Nat} {flags : PageFlags} {n i : Nat} {m m' : Machine} (h : MapLoop w rank rank' roots root page f flags n m m')
    (hr : rank root = 4) (hplain : PlainFlags flags) (hfit : f i < 2 ^ 40) (hi : i < n) :
    Maps m'.mem root (page i) (f i) flags := by
  obtain ⟨p, hp, he⟩ := h.leaves i hi
  have hr' : rank' root = 4 := by rw [h.ranks root (by omega), hr]
  refine ⟨⟨p, hp, he⟩, fun hbit => ?_⟩
  have hpres : (m'.mem (slot p (lvIndex (page i) 1))).getLsbD 0 = true := by
    rw [he]
    exact (Tables.flag_word hfit (by decide)).trans hbit
  rw [mmu, h.inv.tables.phys_mmuWalk hr', hp, Option.bind_some, if_pos hpres, he, frameAddr,
    Tables.frame_word hfit hplain]

namespace Session.Inv

variable {w : WindowTables} {rank : Nat → Nat} {s : Session} {root f : Nat} {page : Word} {flags : PageFlags}

/-- A map of a page above the tables, with a clean frame for each table that it lacks. -/
lemma map_clean (h : s.Inv w rank) (hroot : root ∈ s.roots) (hplain : PlainFlags flags) (hfit : f < 2 ^ 40)
    (hpage : 0x800 ≤ pageNo page) (hclean : Clean s.machine)
    (hle : missing s.machine.mem page 3 root ≤ s.machine.pmm.freeSet.card) :
    ∃ m' rank' p l, s.machine.map (frameAddr root) page (frameAddr f) flags = some m' ∧
      Session.Inv w rank' ⟨m', s.roots⟩ ∧ Mapped w rank rank' root page (frameAddr f ||| flags) p s.machine m' ∧
      Clean m' ∧ m'.pmm.freeSet.card + missing s.machine.mem page 3 root = s.machine.pmm.freeSet.card ∧
      m'.log = l ++ s.machine.log ∧ .table 0 ∉ l := by
  have hr := (h.roots root).mp hroot
  have hstock : Stocked s.machine.mem (missing s.machine.mem page 3 root) s.machine.pmm := ⟨hclean, hle⟩
  have hsup := hstock.supplied h.tables.valid fun g hg => h.tables.low_used g (by omega)
  obtain ⟨m', rank', p, hmap, hinv, hm, -⟩ := h.map ⟨hroot, hplain, hfit, pageOk_of_le _ hpage, hsup⟩
  obtain ⟨m'', l, hmap', hlog, hzero, -⟩ := h.tables.map_established hr hplain hfit hsup
  obtain rfl : m' = m'' := Option.some.inj (hmap.symm.trans hmap')
  have hcard := (hsup.card_singles h.tables.valid).1
  rw [← hm.pmm] at hcard
  have hstock' := hm.stocked (k := 0) h.tables hstock
  exact ⟨m', rank', p, l, hmap, hinv, hm, hstock'.clean, hcard, hlog, hzero⟩

/-- A loop that maps a run of frames one to one. -/
def mapRun (g : Nat) (flags : PageFlags) : Nat → Machine → Option Machine :=
  Loop.upTo fun i m => m.mapFrame (frameAddr (g + i)) (frameAddr (g + i)) flags

variable {g n : Nat} {m' : Machine}

/-- The loop as far as it is established: `i` pages are mapped, and the walks were clear of frame 0. -/
def Reaches (w : WindowTables) (rank : Nat → Nat) (s : Session) (g : Nat) (flags : PageFlags) (i : Nat) (m : Machine) : Prop :=
  ∃ rank' l, MapLoop w rank rank' s.roots w.pml4 (fun j => frameAddr (g + j)) (g + ·) flags i s.machine m ∧ Clean m ∧
    m.log = l ++ s.machine.log ∧ .table 0 ∉ l

lemma reaches_succ (h : s.Inv w rank) (hplain : PlainFlags flags) (hlow : 0x800 ≤ g) (hfit : g + n ≤ 2 ^ 35) {i : Nat}
    (hi : i < n) {m : Machine} (hm : Reaches w rank s g flags i m)
    (hle : missing m.mem (frameAddr (g + i)) 3 w.pml4 ≤ m.pmm.freeSet.card) :
    ∃ m1, m.mapFrame (frameAddr (g + i)) (frameAddr (g + i)) flags = some m1 ∧ Reaches w rank s g flags (i + 1) m1 ∧
      m1.pmm.freeSet.card + (missingRange m.mem w.pml4 (fun j => frameAddr (g + j)) i n).card =
        m.pmm.freeSet.card + (missingRange m1.mem w.pml4 (fun j => frameAddr (g + j)) (i + 1) n).card ∧
      m1.pmm = m.pmm.singles (missing m.mem (frameAddr (g + i)) 3 w.pml4) ∧
      (missingRange m.mem w.pml4 (fun j => frameAddr (g + j)) i n).card =
        missing m.mem (frameAddr (g + i)) 3 w.pml4 +
          (missingRange m1.mem w.pml4 (fun j => frameAddr (g + j)) (i + 1) n).card := by
  obtain ⟨rank1, l, hl, hclean, hlog, hzero⟩ := hm
  have hno (j : Nat) (hj : j < n) : pageNo (frameAddr (g + j)) = g + j := pageNo_ofNat (by omega)
  have hroot : w.pml4 ∈ s.roots := (h.roots _).mpr h.tables.top
  obtain ⟨m1, rank2, p, l', hmap, hinv, hm, hclean1, hcard, hlog1, hzero1⟩ := hl.inv.map_clean (f := g + i)
    hroot hplain (by omega) (by rw [hno i hi]; omega) hclean hle
  have hsup := (Stocked.supplied ⟨hclean, hle⟩ hl.inv.tables.valid fun f hf => hl.inv.tables.low_used f (by omega))
  have hrange : (missingRange m.mem w.pml4 (fun j => frameAddr (g + j)) i n).card =
      missing m.mem (frameAddr (g + i)) 3 w.pml4 + (missingRange m1.mem w.pml4 (fun j => frameAddr (g + j)) (i + 1) n).card :=
    hl.inv.tables.card_missingRange hl.inv.tables.top hplain hi hsup hmap
  refine ⟨m1, ?_, ⟨rank2, l' ++ l, hl.succ h.tables.top hinv hm (fun j hj => ?_) (fun j hj heq => ?_), hclean1, ?_, ?_⟩,
    ?_, hm.pmm, hrange⟩
  · rw [Machine.mapFrame, hl.inv.tables.pml4]
    exact hmap
  · rw [hno j (by omega)]
    omega
  · rw [hno j (by omega), hno i hi] at heq
    exact heq
  · rw [hlog1, hlog, List.append_assoc]
  · intro hmem
    rcases List.mem_append.mp hmem with hmem | hmem
    · exact hzero1 hmem
    · exact hzero hmem
  · change m1.pmm.freeSet.card + missing m.mem (frameAddr (g + i)) 3 w.pml4 = m.pmm.freeSet.card at hcard
    rw [hrange]
    omega

/-- With a frame for each table that the run lacks the loop maps it. -/
lemma mapRun_enough (h : s.Inv w rank) (hplain : PlainFlags flags) (hlow : 0x800 ≤ g) (hfit : g + n ≤ 2 ^ 35)
    (hclean : Clean s.machine)
    (hle : (missingRange s.machine.mem w.pml4 (fun j => frameAddr (g + j)) 0 n).card ≤ s.machine.pmm.freeSet.card) :
    ∃ m', mapRun g flags n s.machine = some m' ∧ Reaches w rank s g flags n m' ∧
      m'.pmm = s.machine.pmm.singles (missingRange s.machine.mem w.pml4 (fun j => frameAddr (g + j)) 0 n).card := by
  obtain ⟨m', hloop, hm, -, k, hpmm, hk⟩ := Loop.upTo_total
    (fun i m => Reaches w rank s g flags i m ∧
      (missingRange m.mem w.pml4 (fun j => frameAddr (g + j)) i n).card ≤ m.pmm.freeSet.card ∧
      ∃ k, m.pmm = s.machine.pmm.singles k ∧ k + (missingRange m.mem w.pml4 (fun j => frameAddr (g + j)) i n).card =
        (missingRange s.machine.mem w.pml4 (fun j => frameAddr (g + j)) 0 n).card)
    ⟨⟨rank, [], .zero h, hclean, rfl, List.not_mem_nil⟩, hle, 0, rfl, Nat.zero_add _⟩
    (fun i hi m ⟨hm, hcard, k, hpmm, hk⟩ => by
      have hfirst : missing m.mem (frameAddr (g + i)) 3 w.pml4 ≤
          (missingRange m.mem w.pml4 (fun j => frameAddr (g + j)) i n).card := by
        rw [← card_missingTables]
        exact Finset.card_le_card (Finset.subset_biUnion_of_mem (fun j => missingTables m.mem w.pml4 (frameAddr (g + j)))
          (Finset.mem_Ico.mpr ⟨Nat.le_refl i, hi⟩))
      obtain ⟨m1, hmap, hm1, hcount, hpmm1, hrange⟩ := h.reaches_succ hplain hlow hfit hi hm (hfirst.trans hcard)
      exact ⟨m1, hmap, hm1, by omega, k + _, by rw [hpmm1, hpmm, ← Pmm.singles_add], by omega⟩)
  refine ⟨m', hloop, hm, ?_⟩
  rw [missingRange, Finset.Ico_self] at hk
  rw [hpmm, ← hk]
  rfl

/-- With fewer frames it links the frame 0, if it returns. -/
lemma mapRun_exhausted (h : s.Inv w rank) (hplain : PlainFlags flags) (hlow : 0x800 ≤ g) (hfit : g + n ≤ 2 ^ 35)
    (hclean : Clean s.machine)
    (hfew : s.machine.pmm.freeSet.card < (missingRange s.machine.mem w.pml4 (fun j => frameAddr (g + j)) 0 n).card)
    (hloop : mapRun g flags n s.machine = some m') : LinksZero s.machine.log m' := by
  have hend := Loop.upTo_invariant
    (fun i m => LinksZero s.machine.log m ∨ Reaches w rank s g flags i m ∧
      m.pmm.freeSet.card < (missingRange m.mem w.pml4 (fun j => frameAddr (g + j)) i n).card)
    (Or.inr ⟨⟨rank, [], .zero h, hclean, rfl, List.not_mem_nil⟩, hfew⟩)
    (fun i hi m m1 hor hmap => by
      rcases hor with hzero | ⟨hm, hcard⟩
      · exact Or.inl ((Machine.stable_linksZero flags _).map hmap hzero)
      · by_cases hle : missing m.mem (frameAddr (g + i)) 3 w.pml4 ≤ m.pmm.freeSet.card
        · obtain ⟨m2, hmap2, hm2, hcount, -⟩ := h.reaches_succ hplain hlow hfit hi hm hle
          obtain rfl : m2 = m1 := Option.some.inj (hmap2.symm.trans hmap)
          exact Or.inr ⟨hm2, by omega⟩
        · obtain ⟨rank1, l, hl, hclean1, hlog, -⟩ := hm
          rw [Machine.mapFrame, hl.inv.tables.pml4] at hmap
          have hzero := hl.inv.tables.map_exhausted hl.inv.tables.top hplain hclean1 (Nat.lt_of_not_le hle) hmap
          exact Or.inl (hzero.mono (hlog ▸ List.suffix_append ..)))
    hloop
  rcases hend with hzero | ⟨-, hcard⟩
  · exact hzero
  · rw [missingRange, Finset.Ico_self] at hcard
    exact (Nat.not_lt_zero _ hcard).elim

/-- One map is all or nothing exactly with a frame for each table that is missing. -/
lemma map_iff (h : s.Inv w rank) (hroot : root ∈ s.roots) (hplain : PlainFlags flags) (hfit : f < 2 ^ 40)
    (hclean : Clean s.machine) :
    (∃ m' l, s.machine.map (frameAddr root) page (frameAddr f) flags = some m' ∧ m'.log = l ++ s.machine.log ∧
      (Maps m'.mem root page f flags ∨ s.Unchanged w m') ∧ .table 0 ∉ l) ↔
      missing s.machine.mem page 3 root ≤ s.machine.pmm.freeSet.card := by
  have hr := (h.roots root).mp hroot
  constructor
  · rintro ⟨m', l, hmap, hlog, -, hzero⟩
    by_contra hfew
    obtain ⟨l', hsub, htable⟩ := h.tables.map_exhausted hr hplain hclean (Nat.lt_of_not_le hfew) hmap
    exact hzero (mem_of_suffix hsub htable hlog)
  · intro hle
    have hsup := Stocked.supplied ⟨hclean, hle⟩ h.tables.valid fun g hg => h.tables.low_used g (by omega)
    obtain ⟨m', l, hmap, hlog, hzero, hm⟩ := h.tables.map_established hr hplain hfit hsup
    exact ⟨m', l, hmap, hlog, Or.inl hm, hzero⟩

lemma frameAddr_add (g i : Nat) : frameAddr g + BitVec.ofNat 64 (i * frameSize) = frameAddr (g + i) := by
  rw [frameAddr, frameAddr, frameSize, ← BitVec.ofNat_add, ← Nat.add_mul]

lemma base_frameAddr (g : Nat) : base (frameAddr g) = frameAddr g := by
  apply BitVec.eq_of_toNat_eq
  rw [base_toNat, frameAddr, BitVec.toNat_ofNat]
  omega

/-- `pmm_alloc_custom` maps the run that it got one to one. -/
lemma pmmAllocCustom_eq (m : Machine) {count : Nat} (haddr : (m.pmm.pmmAllocUnmapped count).1 = g * 4096) :
    m.pmmAllocCustom count flags = (mapRun g flags count (m.pmmAllocUnmapped count).2).map (frameAddr g, ·) := by
  have hr : (m.pmmAllocUnmapped count).1 = frameAddr g := by
    rw [Machine.pmmAllocUnmapped, haddr]
    rfl
  have hbody : mapRun g flags count (m.pmmAllocUnmapped count).2 =
      Loop.upTo (fun i m => m.mapFrame (toFrame (frameAddr g + BitVec.ofNat 64 (i * frameSize)))
        (toPage (frameAddr g + BitVec.ofNat 64 (i * frameSize))) flags) count (m.pmmAllocUnmapped count).2 := by
    refine Loop.upTo_congr (fun i hi t => ?_) _
    rw [frameAddr_add, toFrame, toPage, base_frameAddr]
  rw [hbody, Machine.pmmAllocCustom]
  simp only [hr]
  cases Loop.upTo (fun i m => Machine.mapFrame m (toFrame (frameAddr g + BitVec.ofNat 64 (i * frameSize)))
    (toPage (frameAddr g + BitVec.ofNat 64 (i * frameSize))) flags) count (m.pmmAllocUnmapped count).2 <;> rfl

/-- A failed allocation has `pmm_alloc_custom` map page 0: it writes an entry, or runs out of tables. -/
lemma alloc_failed (h : s.Inv w rank) (hplain : PlainFlags flags) (hclean : Clean s.machine) {count : Nat} (hc : 0 < count)
    (hfail : (s.machine.pmm.pmmAllocUnmapped count).1 = 0) {r : Word}
    (hrun : s.machine.pmmAllocCustom count flags = some (r, m')) :
    r = 0#64 ∧ ∃ e l, s.machine.log <:+ l ∧ e :: l <:+ m'.log ∧ (e = .table 0 ∨ ∃ a, e = .store a) := by
  obtain ⟨c, rfl⟩ : ∃ c, count = c + 1 := ⟨count - 1, by omega⟩
  have hr : (s.machine.pmmAllocUnmapped (c + 1)).1 = 0#64 := by
    rw [Machine.pmmAllocUnmapped, hfail]
  rw [Machine.pmmAllocCustom] at hrun
  simp only [hr] at hrun
  obtain ⟨t, hloop, hret⟩ := Option.bind_eq_some_iff.mp hrun
  cases hret
  rw [Loop.upTo_succ_left] at hloop
  obtain ⟨t1, hfirst, hrest⟩ := Option.bind_eq_some_iff.mp hloop
  have hpage : toPage (0#64 + BitVec.ofNat 64 (0 * frameSize)) = frameAddr 0 := by decide
  have hframe : toFrame (0#64 + BitVec.ofNat 64 (0 * frameSize)) = frameAddr 0 := by decide
  have h1 := h.alloc (c + 1)
  have hsub : s.machine.log <:+ (s.machine.pmmAllocUnmapped (c + 1)).2.log := List.suffix_cons ..
  have hclean1 : Clean (s.machine.pmmAllocUnmapped (c + 1)).2 :=
    fun f hf => hclean f ((h.tables.valid.freeSet_alloc (c + 1)).1 hf)
  rw [Machine.mapFrame, hpage, hframe, h1.tables.pml4] at hfirst
  refine ⟨rfl, ?_⟩
  obtain ⟨e, l, hl, he, hkind⟩ : ∃ e l, s.machine.log <:+ l ∧ e :: l <:+ t1.log ∧ (e = .table 0 ∨ ∃ a, e = .store a) := by
    by_cases hle : missing (s.machine.pmmAllocUnmapped (c + 1)).2.mem (frameAddr 0) 3 w.pml4 ≤
        (s.machine.pmmAllocUnmapped (c + 1)).2.pmm.freeSet.card
    · have hoff : Tables.OffTables rank (frameAddr 0) := by
        intro x _ hx heq
        exact (h.tables.frame_ok x hx).1 (heq.symm.trans (by decide))
      have hsup := Stocked.supplied ⟨hclean1, hle⟩ h1.tables.valid fun f hf => h1.tables.low_used f (by omega)
      obtain ⟨t2, rank', p, hmap, hm, -⟩ := h1.tables.map_spec h1.tables.top hplain (by decide : 0 < 2 ^ 40) hoff hsup
      obtain rfl : t2 = t1 := Option.some.inj (hmap.symm.trans hfirst)
      obtain ⟨l, hlog, -, hstore, -⟩ := hm.written
      obtain ⟨l1, l2, rfl⟩ := List.append_of_mem hstore
      refine ⟨.store (slot p (lvIndex (frameAddr 0) 1)), l2 ++ (s.machine.pmmAllocUnmapped (c + 1)).2.log,
        hsub.trans (List.suffix_append ..), ?_, Or.inr ⟨_, rfl⟩⟩
      rw [hlog, List.append_assoc]
      exact List.suffix_append ..
    · obtain ⟨l, hl, htable⟩ := h1.tables.map_exhausted h1.tables.top hplain hclean1 (Nat.lt_of_not_le hle) hfirst
      exact ⟨_, l, hsub.trans hl, htable, Or.inl rfl⟩
  exact ⟨e, l, hl, Loop.upTo_invariant (fun _ m => e :: l <:+ m.log) he
    (fun i _ m m1 hm hmap => (Machine.stable_suffix flags _).map hmap hm) hrest, hkind⟩

/-- The run that an allocation gets lies above the first 8 MiB. -/
lemma nextRun_high (h : s.Inv w rank) {count : Nat} (hc : 0 < count) (hnext : s.machine.pmm.NextRun count g) :
    0x800 ≤ g ∧ g + count ≤ 2 ^ 35 := by
  have hle := hnext.le_bitmap
  have hsize := h.tables.valid.size
  refine ⟨?_, by omega⟩
  by_contra hlt
  have hfree := hnext.allFree g (Nat.le_refl g) (by omega)
  rw [Pmm.free_iff, h.tables.low_used g (by omega)] at hfree
  cases hfree

/-- `pmm_alloc_custom` with a run of free frames. -/
lemma alloc_iff (h : s.Inv w rank) (hplain : PlainFlags flags) (hclean : Clean s.machine) {count : Nat} (hc : 0 < count)
    (hnext : s.machine.pmm.NextRun count g) : s.AllOrNothing w (.pmmAllocCustom count flags) ↔
      (missingRange s.machine.mem w.pml4 (fun j => frameAddr (g + j)) 0 count).card ≤
        (s.machine.pmm.handOut g count).freeSet.card := by
  obtain ⟨hlow, hfit⟩ := h.nextRun_high hc hnext
  have halloc := h.tables.valid.alloc_eq hc hnext
  have hcustom : s.machine.pmmAllocCustom count flags = _ := pmmAllocCustom_eq s.machine (congrArg Prod.fst halloc)
  have hpmm : (s.machine.pmmAllocUnmapped count).2.pmm = s.machine.pmm.handOut g count := congrArg Prod.snd halloc
  have h1 := h.alloc count
  have hsub : s.machine.log <:+ (s.machine.pmmAllocUnmapped count).2.log := List.suffix_cons ..
  have hclean1 : Clean (s.machine.pmmAllocUnmapped count).2 :=
    fun f hf => hclean f ((h.tables.valid.freeSet_alloc count).1 hf)
  rw [← hpmm]
  constructor
  · rintro ⟨r, m', l, hrun, hlog, -, hzero, -⟩
    by_contra hfew
    rw [MapCall.run, hcustom, Option.map_map] at hrun
    obtain ⟨m1, hloop, heq⟩ := Option.map_eq_some_iff.mp hrun
    cases heq
    obtain ⟨l', hl', htable⟩ := h1.mapRun_exhausted hplain hlow hfit hclean1 (Nat.lt_of_not_le hfew) hloop
    exact hzero (mem_of_suffix (hsub.trans hl') htable hlog)
  · intro hle
    obtain ⟨m', hloop, ⟨rank', l, hl, -, hlog, hzero⟩, -⟩ := h1.mapRun_enough hplain hlow hfit hclean1 hle
    refine ⟨some (frameAddr g), m', l ++ [.alloc count (g * 4096)], ?_, ?_, Or.inl ⟨g, rfl, fun i hi => ⟨?_, ?_⟩⟩, ?_, ?_⟩
    · rw [MapCall.run, hcustom, hloop]
      rfl
    · rw [hlog, List.append_assoc]
      have haddr : (s.machine.pmm.pmmAllocUnmapped count).1 = g * 4096 := congrArg Prod.fst halloc
      rw [← haddr]
      rfl
    · exact hnext.allFree (g + i) (Nat.le_add_right g i) (by omega)
    · rw [h.kernelRoot_eq]
      exact hl.maps h.tables.top hplain (by omega) hi
    · simpa using hzero
    · intro hr
      have hval := congrArg BitVec.toNat (Option.some.inj hr)
      rw [frameAddr, BitVec.toNat_ofNat] at hval
      simp at hval
      omega

lemma pmmAllocCustom_iff (h : s.Inv w rank) (hplain : PlainFlags flags) (hclean : Clean s.machine) (count : Nat) :
    s.AllOrNothing w (.pmmAllocCustom count flags) ↔ s.EnoughFrames (.pmmAllocCustom count flags) := by
  rcases Nat.eq_zero_or_pos count with rfl | hc
  · refine iff_of_true ?_ (Or.inl rfl)
    refine ⟨some 0#64, (s.machine.pmmAllocUnmapped 0).2, [.alloc 0 0], rfl, rfl,
      Or.inl ⟨0, rfl, fun i hi => (Nat.not_lt_zero i hi).elim⟩, by simp, fun _ a => by simp⟩
  rcases s.machine.pmm.pmmAllocUnmapped_spec hc h.tables.valid.lastIdxBit h.tables.valid.zero with
    ⟨g, -, hnext, -⟩ | ⟨-, -, hfail⟩
  · rw [h.alloc_iff hplain hclean hc hnext, ← h.kernelRoot_eq]
    constructor
    · intro hle
      exact Or.inr ⟨g, hnext, hle⟩
    · rintro (h0 | ⟨g', hnext', hle⟩)
      · omega
      · rw [hnext.unique hnext']
        exact hle
  · have haddr := congrArg Prod.fst hfail
    refine iff_of_false ?_ ?_
    · rintro ⟨r, m', l, hrun, hlog, -, hzero, hnone⟩
      rw [MapCall.run] at hrun
      obtain ⟨⟨r', m1⟩, hcustom, heq⟩ := Option.map_eq_some_iff.mp hrun
      cases heq
      obtain ⟨rfl, e, l', hsub, hevent, rfl | ⟨a, rfl⟩⟩ := h.alloc_failed hplain hclean hc haddr hcustom
      · exact hzero (mem_of_suffix hsub hevent hlog)
      · exact hnone rfl a (mem_of_suffix hsub hevent hlog)
    · rintro (h0 | ⟨g, hnext, -⟩)
      · omega
      · have hlow := (h.nextRun_high hc hnext).1
        rw [h.tables.valid.alloc_eq hc hnext] at haddr
        simp only at haddr
        omega

/-- The calls that map pages are all or nothing exactly with enough free frames. -/
theorem all_or_nothing_iff (h : s.Inv w rank) {c : MapCall} (hask : s.Asked c) (hclean : Clean s.machine) :
    s.AllOrNothing w c ↔ s.EnoughFrames c := by
  cases c with
  | mapFrame page f flags =>
    rw [EnoughFrames, ← h.map_iff h.kernelRoot_mem hask.1 hask.2 hclean]
    simp only [AllOrNothing, MapCall.run, Machine.mapFrame, h.kernel_pointer, Option.map_eq_some_iff]
    constructor
    · rintro ⟨r, m', l, ⟨m1, hmap, heq⟩, hlog, hdone, hzero, -⟩
      cases heq
      exact ⟨m', l, hmap, hlog, hdone, hzero⟩
    · rintro ⟨m', l, hmap, hlog, hdone, hzero⟩
      exact ⟨none, m', l, ⟨m', hmap, rfl⟩, hlog, hdone, hzero, fun hr => by cases hr⟩
  | mapUserFrame root page f flags =>
    rw [EnoughFrames, ← h.map_iff hask.1 hask.2.1 hask.2.2 hclean]
    simp only [AllOrNothing, MapCall.run, Machine.mapUserFrame, Option.map_eq_some_iff]
    constructor
    · rintro ⟨r, m', l, ⟨m1, hmap, heq⟩, hlog, hdone, hzero, -⟩
      cases heq
      exact ⟨m', l, hmap, hlog, hdone, hzero⟩
    · rintro ⟨m', l, hmap, hlog, hdone, hzero⟩
      exact ⟨none, m', l, ⟨m', hmap, rfl⟩, hlog, hdone, hzero, fun hr => by cases hr⟩
  | pmmAllocCustom count flags => exact h.pmmAllocCustom_iff hask hclean count

end Session.Inv

/-- The session right after boot, with any allocator. -/
def runningSession (pmm : Pmm) : Session := ⟨runningMachine (fun _ => 0#64) pmm, [1]⟩

lemma runningSession_inv : (runningSession reservedPmm).Inv bootWindow (bootRank bootWindow (4 + ·)) :=
  (booted_running (fun _ => 0#64) reservedPmm_valid fun _ hf => reservedPmm_used hf).inv

lemma runningSession_clean : Clean (runningSession reservedPmm).machine := (stocked_running (Nat.zero_le _)).clean

lemma runningSession_enough : (runningSession reservedPmm).EnoughFrames (.pmmAllocCustom 1 3#64) := by
  have hnext : reservedPmm.NextRun 1 0x800 := reservedPmm_valid.nextRun_of_alloc (by decide +kernel) (by decide)
  have hcard := reservedPmm_valid.card_handOut_one hnext
  have hmany := (stocked_running (Nat.le_refl 0x100)).enough
  have hroot : (runningSession reservedPmm).kernelRoot = 1 := by decide
  refine Or.inr ⟨0x800, hnext, ?_⟩
  have hrange : missingRange (runningSession reservedPmm).machine.mem 1 (fun i => frameAddr (0x800 + i)) 0 1 =
      missingTables (runningSession reservedPmm).machine.mem 1 (frameAddr 0x800) := Finset.singleton_biUnion
  have hle := missing_le (runningSession reservedPmm).machine.mem (frameAddr 0x800) 3 1
  change _ ≤ (reservedPmm.handOut 0x800 1).freeSet.card
  rw [hroot, hrange, card_missingTables]
  omega

/-- Right after boot there are frames for one page and its tables. -/
theorem all_or_nothing_running : (runningSession reservedPmm).AllOrNothing bootWindow (.pmmAllocCustom 1 3#64) := by
  have hplain : PlainFlags 3#64 := ⟨by decide, by decide⟩
  exact (@Session.Inv.all_or_nothing_iff _ _ (runningSession reservedPmm) runningSession_inv (.pmmAllocCustom 1 3#64)
    hplain runningSession_clean).mpr runningSession_enough

/-- With no free frame a map goes through the frame 0, and `pmm_alloc_custom` maps page 0 and returns 0. -/
theorem exhausted_links_zero : ¬ ((runningSession Kernel.fullPmm).AllOrNothing bootWindow (.mapFrame 0x8000000000#64 0x800 3#64) ∨
    (runningSession Kernel.fullPmm).AllOrNothing bootWindow (.pmmAllocCustom 1 3#64)) := by
  have hmap : (MapCall.run (runningSession Kernel.fullPmm).machine (.mapFrame 0x8000000000#64 0x800 3#64)).map
      (fun r => decide (.table 0 ∈ r.2.log)) = some true := by decide +kernel
  have halloc : (MapCall.run (runningSession Kernel.fullPmm).machine (.pmmAllocCustom 1 3#64)).map
      (fun r => (r.1, decide (.store (slot 4 0) ∈ r.2.log))) = some (some 0#64, true) := by decide +kernel
  rintro (⟨r, m', l, hrun, hlog, -, hzero, -⟩ | ⟨r, m', l, hrun, hlog, -, -, hnone⟩)
  · rw [hrun, Option.map_some, Option.some.injEq, decide_eq_true_eq, hlog] at hmap
    exact hzero (by simpa [runningSession, runningMachine] using hmap)
  · rw [hrun, Option.map_some, Option.some.injEq, Prod.mk.injEq, decide_eq_true_eq, hlog] at halloc
    exact hnone halloc.1 _ (by simpa [runningSession, runningMachine] using halloc.2)

end HaiirOS
