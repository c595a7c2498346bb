import HaiirOS.Proofs.MapSpec

/-!
# A new PML4

`create_user_pml4` maps the frame of the new table to itself in the kernel's address space and
fills it through that page: all entries are zero but the first, which it takes from the kernel.
-/

namespace HaiirOS

open AddressWord

/-- Frame `s`, no table yet, is mapped to itself. -/
structure OwnPage (w : WindowTables) (rank : Nat → Nat) (s : Nat) (m : Machine) : Prop where
  tables : Tables rank w m
  no_table : rank s = 0
  high : 0x800 ≤ s
  fits : s < 2 ^ 35
  way : ∃ p, leafTable m.mem (BitVec.ofNat 64 (s * 4096)) 3 w.pml4 = some p ∧
    (m.mem (slot p (lvIndex (BitVec.ofNat 64 (s * 4096)) 1))).getLsbD 0 = true ∧
    frame (m.mem (slot p (lvIndex (BitVec.ofNat 64 (s * 4096)) 1))) = s
  near : frame m.cr3 = w.pml4 ∨ s < 2 ^ 27

namespace OwnPage

variable {w : WindowTables} {rank : Nat → Nat} {s : Nat} {m : Machine}

lemma deref (h : OwnPage w rank s m) {i : Nat} (hi : i < 512) :
    m.deref (BitVec.ofNat 64 (slot s i)) = some (slot s i) := by
  have hfits := h.fits
  have hval : (BitVec.ofNat 64 (slot s i)).toNat = slot s i := by
    rw [BitVec.toNat_ofNat, slot]
    omega
  have hval0 : (BitVec.ofNat 64 (s * 4096)).toNat = s * 4096 := by
    rw [BitVec.toNat_ofNat]
    omega
  have hcan : Canonical (BitVec.ofNat 64 (slot s i)) := by
    left
    rw [hval, slot]
    omega
  have hpage : pageNo (BitVec.ofNat 64 (slot s i)) = pageNo (BitVec.ofNat 64 (s * 4096)) := by
    rw [pageNo, pageNo, hval, hval0, slot]
    omega
  have hoff : (BitVec.ofNat 64 (slot s i)).toNat % 4096 = 8 * i := by
    rw [hval, slot]
    omega
  obtain ⟨p, hp, hpres, hframe⟩ := h.way
  have hp' : leafTable m.mem (BitVec.ofNat 64 (slot s i)) 3 (frame m.cr3) = some p := by
    rw [leafTable_congr fun k h2 hk => lvIndex_eq_of_pageNo hpage (by omega) (by omega), ← hp]
    rcases h.near with hcr3 | hlt
    · rw [hcr3]
    · refine h.tables.leafTable_shared h.tables.cr3 h.tables.top ?_
      simp only [lvIndex, hval0]
      omega
  rw [Machine.deref, if_pos hcan, mmu, h.tables.phys_mmuWalk h.tables.cr3, hp', Option.bind_some,
    lvIndex_eq_of_pageNo hpage (by decide) (by decide), if_pos hpres, hframe, hoff]
  rfl

/-- A write into the frame leaves the tables and the page as they are. -/
lemma update (h : OwnPage w rank s m) (i : Fin 512) (e : Word) :
    OwnPage w rank s { m with mem := Function.update m.mem (slot s i) e } := by
  have hmem (t : Nat) (j : Fin 512) (ht : rank t ≠ 0) :
      Function.update m.mem (slot s i) e (slot t j) = m.mem (slot t j) :=
    Function.update_of_ne (Tables.slot_ne (by rw [h.no_table]; exact ht : rank t ≠ rank s) j i) ..
  have hvalid := h.tables.valid
  obtain ⟨p, hp, hpres, hframe⟩ := h.way
  have hr := h.tables.rank_leafTable h.tables.top hp
  have he := hmem p (index (BitVec.ofNat 64 (s * 4096)) 1) (by omega)
  rw [index_val] at he
  refine ⟨?_, h.no_table, h.high, h.fits, ⟨p, ?_, ?_, ?_⟩, h.near⟩
  · exact h.tables.congr (fun t j ht _ => hmem t j ht) hvalid h.tables.low_used
      (fun t ht => (h.tables.frame_ok t ht).2.2.2) rfl h.tables.cr3
  · rw [h.tables.leafTable_eq (fun t j ht => hmem t j (by omega)) h.tables.top]
    exact hp
  · simp only [he]
    exact hpres
  · simp only [he]
    exact hframe

lemma write_eq (h : OwnPage w rank s m) (i : Fin 512) (e : Word) :
    m.write (entryPtr (BitVec.ofNat 64 (s * 4096)) i) e =
      some { m with mem := Function.update m.mem (slot s i) e } := by
  rw [entryPtr_ofNat, Machine.write, h.deref i.isLt]
  rfl

lemma clearEntries_eq (h : OwnPage w rank s m) {first n : Nat} (hn : first + n ≤ 512) :
    ∃ mem', m.clearEntries (BitVec.ofNat 64 (s * 4096)) first n = some { m with mem := mem' } ∧
      OwnPage w rank s { m with mem := mem' } ∧
      (∀ i : Fin 512, first ≤ i → i < first + n → mem' (slot s i) = 0#64) ∧
      (∀ a, (∀ i : Fin 512, first ≤ i → a ≠ slot s i) → mem' a = m.mem a) := by
  induction n generalizing m first with
  | zero => exact ⟨m.mem, rfl, h, fun i h1 h2 => by omega, fun _ _ => rfl⟩
  | succ n ih =>
    have hstep := h.write_eq ⟨first, by omega⟩ 0#64
    have hnext : first + 1 + n ≤ 512 := by omega
    obtain ⟨mem', hloop, hown, hzero, hsame⟩ := ih (h.update ⟨first, by omega⟩ 0#64) hnext
    refine ⟨mem', ?_, hown, fun i h1 h2 => ?_, fun a ha => ?_⟩
    · rw [Machine.clearEntries]
      simp only [hstep, Option.bind_eq_bind, Option.bind_some]
      exact hloop
    · by_cases hi : (i : Nat) = first
      · rw [hsame _ fun j hj heq => ?_]
        · simp only [hi, Function.update_self]
        · obtain ⟨-, hij⟩ := slot_inj i.isLt j.isLt heq
          omega
      · exact hzero i (by omega) (by omega)
    · rw [hsame a fun i hi => ha i (by omega)]
      exact Function.update_of_ne (ha ⟨first, by omega⟩ (Nat.le_refl first)) ..

end OwnPage

/-- What `create_user_pml4` achieves when it gets frame `s`. -/
structure NewPml4 (w : WindowTables) (rank rank' : Nat → Nat) (s : Nat) (m m' : Machine) : Prop where
  tables : Tables rank' w m'
  rank_new : rank' s = 4
  rank_old : rank s = 0
  ranks : ∀ t, rank t ≠ 0 → rank' t = rank t
  fresh : ∀ t, rank t = 0 → rank' t ≠ 0 → t ≠ s → 0x800 ≤ t ∧ rank' t < 4 ∧ m.pmm.used t = false
  used : ∀ f, m.pmm.used f = true → m'.pmm.used f = true
  child : ∀ t (i : Fin 512), 2 ≤ rank t → m.mem (slot t i) ≠ 0#64 →
    m'.mem (slot t i) ≠ 0#64 ∧ frame (m'.mem (slot t i)) = frame (m.mem (slot t i))
  hangs : ∀ x, rank x = 0 → rank' x ≠ 0 → x ≠ s → Below m'.mem 3 w.pml4 x
  cr3 : m'.cr3 = m.cr3
  others : ∀ r v, rank r = 4 → pageNo v ≠ 0x200 →
    pageNo v ≠ s ∨ r ≠ w.pml4 ∧ lvIndex (BitVec.ofNat 64 (s * 4096)) 4 ≠ 0 → mmu m'.mem r v = mmu m.mem r v
  entries : ∀ i : Fin 512, i ≠ 0 → m'.mem (slot s i) = 0#64

lemma base_ofNat (s : Nat) : base (BitVec.ofNat 64 (s * 4096)) = BitVec.ofNat 64 (s * 4096) := by
  apply BitVec.eq_of_toNat_eq
  rw [base_toNat, BitVec.toNat_ofNat]
  omega

lemma pageNo_ofNat {s : Nat} (hs : s < 2 ^ 36) : pageNo (BitVec.ofNat 64 (s * 4096)) = s := by
  rw [pageNo, BitVec.toNat_ofNat]
  omega

namespace Tables

variable {rank : Nat → Nat} {w : WindowTables} {m : Machine} {s : Nat}

/-- Words outside the tables play no part in translation. -/
lemma mmu_of_tables (h : Tables rank w m) {mem' : Mem}
    (hmem : ∀ t (i : Fin 512), rank t ≠ 0 → mem' (slot t i) = m.mem (slot t i)) {r : Nat} (hr : rank r = 4) (v : Word) :
    mmu mem' r v = mmu m.mem r v :=
  h.mmuWalk_eq (fun t i ht => hmem t i (by omega)) hr
    (fun p hp => hmem p (index v 1) (by rw [h.rank_leafTable hr hp]; decide)) _

lemma read_pml4 (h : Tables rank w m) : m.read (entryPtr m.sPml4Table 0) = some (m.mem (slot w.pml4 0)) := by
  have htop := h.top
  have hd : m.deref (BitVec.ofNat 64 (slot w.pml4 0)) = some (slot w.pml4 0) :=
    h.ready.deref_slot ⟨h.low.1, by omega⟩ (by decide)
  rw [h.pml4, entryPtr_ofNat, Machine.read, hd]
  rfl

/-- A frame that has just been allocated becomes a page of its own. -/
lemma mapOwnPage (h : Tables rank w m) (hs : m.pmm.NextRun 1 s)
    (hsup : Supplied m.mem (missing m.mem (BitVec.ofNat 64 (s * 4096)) 3 w.pml4) (m.pmm.handOut s 1))
    (hnear : frame m.cr3 = w.pml4 ∨ s < 2 ^ 27) : ∃ m2 rank1 p e,
    (m.pmmAllocUnmapped 1).2.mapFrame (BitVec.ofNat 64 (s * 4096)) (BitVec.ofNat 64 (s * 4096))
      (PageFlags.present ||| PageFlags.writeable ||| PageFlags.user) = some m2 ∧
    Mapped w rank rank1 w.pml4 (BitVec.ofNat 64 (s * 4096)) e p (m.pmmAllocUnmapped 1).2 m2 ∧ OwnPage w rank1 s m2 ∧
    m2.pmm.used s = true := by
  obtain ⟨hrs, hlow, hlt, -⟩ := h.next_frame hs
  have hflags : PlainFlags (PageFlags.present ||| PageFlags.writeable ||| PageFlags.user) := ⟨by decide, by decide⟩
  have hno : pageNo (BitVec.ofNat 64 (s * 4096)) = s := pageNo_ofNat (by omega)
  have hpmm : (m.pmmAllocUnmapped 1).2.pmm = m.pmm.handOut s 1 := congrArg Prod.snd (h.valid.alloc_eq (by decide) hs)
  have h1 : Tables rank w (m.pmmAllocUnmapped 1).2 := h.alloc 1
  have hoff : OffTables rank (BitVec.ofNat 64 (s * 4096)) := fun t ht _ heq => by omega
  obtain ⟨m2, rank1, p, hmap, hmapped, -⟩ := h1.map_spec h.top hflags (f := s) (by omega) hoff
    (by rw [hpmm]; exact hsup)
  have hused : (m.pmmAllocUnmapped 1).2.pmm.used s = true := by
    rw [hpmm]
    exact (h.valid.used_handOut_one hs s).mpr (Or.inl rfl)
  have hrs1 : rank1 s = 0 := by
    by_contra h0
    have hu := (hmapped.fresh s hrs h0).2.2
    rw [hused] at hu
    cases hu
  have hentry := hmapped.entry
  refine ⟨m2, rank1, p, _, ?_, hmapped, ⟨hmapped.tables, hrs1, hlow, hlt, ⟨p, hmapped.leaf, ?_, ?_⟩, ?_⟩,
    hmapped.used s hused⟩
  · rw [Machine.mapFrame, h1.pml4]
    exact hmap
  · rw [hentry, flag_word (by omega) (by decide)]
    decide
  · rw [hentry]
    exact frame_word (by omega) hflags
  · rw [hmapped.cr3]
    exact hnear

end Tables

/-- Frame `s` holds the kernel's first entry and zeros behind it, and no other word has changed. -/
structure Filled (w : WindowTables) (s : Nat) (m : Machine) (mem' : Mem) : Prop where
  first : mem' (slot s 0) = mem' (slot w.pml4 0)
  zero : ∀ i : Fin 512, i ≠ 0 → mem' (slot s i) = 0#64
  rest : ∀ f, f ≠ s → ∀ i : Fin 512, mem' (slot f i) = m.mem (slot f i)

section Filling

variable {w : WindowTables} {rank rank1 : Nat → Nat} {s p : Nat} {e : Word} {m m1 m2 : Machine} {mem' : Mem}

lemma OwnPage.fill (h : OwnPage w rank s m) : ∃ m3 e mem',
    m.clearEntries (BitVec.ofNat 64 (s * 4096)) 1 511 = some m3 ∧ m3.read (entryPtr m3.sPml4Table 0) = some e ∧
    m3.write (entryPtr (BitVec.ofNat 64 (s * 4096)) 0) e = some { m with mem := mem' } ∧
    OwnPage w rank s { m with mem := mem' } ∧ Filled w s m mem' := by
  obtain ⟨mem3, hclear, hown, hzero, hsame⟩ := h.clearEntries_eq (show 1 + 511 ≤ 512 by decide)
  have hne : slot w.pml4 0 ≠ slot s 0 := by
    have htop := h.tables.top
    exact Tables.slot_ne (by rw [h.no_table, htop]; decide : rank w.pml4 ≠ rank s) 0 0
  refine ⟨_, _, Function.update mem3 (slot s 0) (mem3 (slot w.pml4 0)), hclear, hown.tables.read_pml4,
    hown.write_eq 0 (mem3 (slot w.pml4 0)), hown.update 0 _, ?_, fun i hi => ?_, fun f hf i => ?_⟩
  · rw [Function.update_self, Function.update_of_ne hne]
  · have hpos : 1 ≤ (i : Nat) := Nat.one_le_iff_ne_zero.mpr fun h0 => hi (Fin.ext h0)
    have hne0 : slot s i ≠ slot s 0 := fun heq => hi (Fin.ext (slot_inj i.isLt (by decide) heq).2)
    rw [Function.update_of_ne hne0]
    exact hzero i hpos (by omega)
  · have hst (j : Fin 512) : slot f i ≠ slot s j := fun heq => hf (slot_inj i.isLt j.isLt heq).1
    have hst0 : slot f i ≠ slot s 0 := hst 0
    rw [Function.update_of_ne hst0, hsame _ fun j _ => hst j]

lemma Filled.tables (hfill : Filled w s m2 mem') (h : OwnPage w rank1 s { m2 with mem := mem' })
    (hused : m2.pmm.used s = true) :
    Tables (Function.update rank1 s 4) w (({ m2 with mem := mem' } : Machine).noteTable (frame (BitVec.ofNat 64 (s * 4096)))) := by
  have hadopt := h.tables.adopt (k := 4) h.no_table (by decide) (by decide) h.high h.fits hused
    (fun i => by
      by_cases hi : i = 0
      · exact Or.inr ⟨rfl, hi⟩
      · exact Or.inl (hfill.zero i hi))
    (fun _ => hfill.first)
  exact hadopt.of_eq rfl rfl rfl rfl

/-- What the map of the own page and the fill come to. -/
lemma NewPml4.of_filled (h : Tables rank w m) (hs : m.pmm.NextRun 1 s)
    (hmapped : Mapped w rank rank1 w.pml4 (BitVec.ofNat 64 (s * 4096)) e p (m.pmmAllocUnmapped 1).2 m2)
    (hown : OwnPage w rank1 s { m2 with mem := mem' }) (hused : m2.pmm.used s = true) (hfill : Filled w s m2 mem') :
    NewPml4 w rank (Function.update rank1 s 4) s m
      (({ m2 with mem := mem' } : Machine).noteTable (frame (BitVec.ofNat 64 (s * 4096)))) := by
  obtain ⟨hrs, -, hlt, -⟩ := h.next_frame hs
  have hno : pageNo (BitVec.ofNat 64 (s * 4096)) = s := pageNo_ofNat (by omega)
  have hrank {t : Nat} (ht : t ≠ s) : Function.update rank1 s 4 t = rank1 t := Function.update_of_ne ht ..
  have hns {t : Nat} (ht : rank t ≠ 0) : t ≠ s := by
    rintro rfl
    exact ht hrs
  have hrest (t : Nat) (i : Fin 512) (ht : rank1 t ≠ 0) : mem' (slot t i) = m2.mem (slot t i) := by
    refine hfill.rest t ?_ i
    rintro rfl
    exact ht hown.no_table
  refine ⟨hfill.tables hown hused, Function.update_self .., hrs, fun t ht => ?_, fun t ht ht' hts => ?_, fun f hf => ?_,
    fun t i ht h0 => ?_, fun x hx hx' hxs => ?_, hmapped.cr3, fun r v hr hv hor => ?_, hfill.zero⟩
  · rw [hrank (hns ht)]
    exact hmapped.ranks t ht
  · rw [hrank hts] at ht' ⊢
    obtain ⟨hge, h4, hu⟩ := hmapped.fresh t ht ht'
    refine ⟨hge, h4, ?_⟩
    by_contra hold
    rw [Bool.not_eq_false] at hold
    have hu1 : (m.pmmAllocUnmapped 1).2.pmm.used t = true := h.valid.used_mono 1 hold
    rw [hu] at hu1
    cases hu1
  · exact hmapped.used f (h.valid.used_mono 1 hf)
  · have ht1 : rank1 t ≠ 0 := by rw [hmapped.ranks t (by omega)]; omega
    have hc := hmapped.child t i ht h0
    rw [← hrest t i ht1] at hc
    exact hc
  · rw [hrank hxs] at hx'
    have htop : rank1 w.pml4 = 4 := hmapped.tables.top
    exact (hmapped.tables.below_congr htop (fun y i _ hy => hrest y i (by omega)) x).mpr (hmapped.hangs x hx hx')
  · have hr1 : rank1 r = 4 := by rw [hmapped.ranks r (by omega), hr]
    rw [← hno] at hor
    exact (hmapped.tables.mmu_of_tables hrest hr1 v).trans (hmapped.others r v hr hv (by rwa [hno] at hor ⊢))

end Filling

/-- The new table is made, and no frame is touched that is not a table. -/
theorem Tables.createUserPml4_effect {rank : Nat → Nat} {w : WindowTables} {m : Machine} (h : Tables rank w m) {s : Nat}
    (hs : m.pmm.NextRun 1 s)
    (hsup : Supplied m.mem (missing m.mem (BitVec.ofNat 64 (s * 4096)) 3 w.pml4) (m.pmm.handOut s 1))
    (hnear : frame m.cr3 = w.pml4 ∨ s < 2 ^ 27) :
    ∃ m' rank', m.createUserPml4 = some (BitVec.ofNat 64 (s * 4096), m') ∧ NewPml4 w rank rank' s m m' ∧
      m'.pmm = (m.pmm.handOut s 1).singles (missing m.mem (BitVec.ofNat 64 (s * 4096)) 3 w.pml4) ∧
      ∀ f, rank' f = 0 → ∀ i : Fin 512, m'.mem (slot f i) = m.mem (slot f i) := by
  have halloc := h.valid.alloc_eq (by decide : 0 < 1) hs
  have haddr : (m.pmmAllocUnmapped 1).1 = BitVec.ofNat 64 (s * 4096) := by
    rw [Machine.pmmAllocUnmapped, halloc]
  have hpmm : (m.pmmAllocUnmapped 1).2.pmm = m.pmm.handOut s 1 := congrArg Prod.snd halloc
  obtain ⟨m2, rank1, p, e, hmap, hmapped, hown, hused⟩ := h.mapOwnPage hs hsup hnear
  obtain ⟨m3, first, mem', hclear, hread, hwrite, hown', hfill⟩ := hown.fill
  refine ⟨_, Function.update rank1 s 4, ?_, .of_filled h hs hmapped hown' hused hfill, ?_, fun f hf i => ?_⟩
  · rw [Machine.createUserPml4]
    simp only [haddr, toPage, toFrame, base_ofNat, hmap, hclear, hread, hwrite, Option.bind_eq_bind, Option.bind_some]
    rfl
  · rw [← hpmm]
    exact hmapped.pmm
  · have hfs : f ≠ s := by
      rintro rfl
      rw [Function.update_self] at hf
      omega
    rw [Function.update_of_ne hfs] at hf
    exact (hfill.rest f hfs i).trans (hmapped.data hf i)

end HaiirOS
