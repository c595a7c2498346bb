import HaiirOS.Memory.Pages
import HaiirOS.Memory.PagingFrame
import HaiirOS.Proofs.MmapRange
import HaiirOS.Proofs.SoftwareWalk

/-!
# Giving pages back

`pmm_free` translates its first page and frees as many frames from there on as it has pages to
unmap. The frames that it frees are those of its pages exactly if the pages map to such a run.
-/

namespace HaiirOS

open AddressWord

namespace Machine

/-- The frame that the kernel's tables map `page` to. -/
def pageFrame (m : Machine) (page : Word) : Option Nat :=
  (mmu m.mem (frame m.sPml4Table) page).map fun t => t.phys / 4096

/-- One of the `count` pages from `page` on is mapped to frame `f`. -/
def MapsTo (m : Machine) (page : Word) (count f : Nat) : Prop :=
  ∃ i < count, m.pageFrame (page + BitVec.ofNat 64 (i * frameSize)) = some f

/-- The machine with other marks in the frame bitmap. -/
def marked (m : Machine) (p : Pmm) : Machine := { m with pmm := p }

variable {m m' : Machine} {p : Pmm}

lemma marked_tmpMap (a : Word) : (m.marked p).tmpMap a = (m.tmpMap a).map fun r => (r.1, r.2.marked p) := by
  have htemp : (m.marked p).getTempEntry = m.getTempEntry := rfl
  simp only [tmpMap, htemp, write]
  cases m.getTempEntry with
  | none => rfl
  | some q =>
    have hd : (m.marked p).deref q = m.deref q := rfl
    simp only [Option.bind_eq_bind, Option.bind_some, hd]
    cases m.deref q <;> rfl

lemma marked_validPointer (a : Word) :
    (m.marked p).validPointer a = (m.validPointer a).map fun r => (r.1, r.2.marked p) := by
  simp only [validPointer]
  split_ifs
  · exact marked_tmpMap a
  · rfl

lemma marked_store (a e : Word) : (m.marked p).store a e = (m.store a e).map (·.marked p) := by
  have hd : (m.marked p).deref a = m.deref a := rfl
  simp only [store, hd]
  cases m.deref a <;> rfl

end Machine

namespace Tables

variable {rank : Nat → Nat} {w : WindowTables} {m : Machine} {p : Pmm} {v q : Word} {n t : Nat}

lemma fetch (h : Tables rank w m) (a : Nat) : Tables rank w (m.fetch a) := h.of_eq rfl rfl rfl rfl

/-- One level of a lookup under marks that take more frames for free. -/
lemma getTableFromEntry_marked (h : Tables rank w m) {i : Fin 512} (ht : 2 ≤ rank t) (hd : m.deref q = some (slot t i))
    (hlt : q.toNat < identityEnd) (hfree : ∀ a, m.pmm.pmmIsFree a = true → p.pmmIsFree a = true) :
    (m.marked p).getTableFromEntry q lookupOnly = some (0#64, (m.fetch (slot t i)).marked p) ∨
    ∃ u m', m.getTableFromEntry q lookupOnly = some (u, m') ∧
      (m.marked p).getTableFromEntry q lookupOnly = some (u, m'.marked p) ∧ Tables rank w m' ∧ m'.pmm = m.pmm ∧ u ≠ 0#64 ∧
      rank (frame (m.mem (slot t i))) + 1 = rank t ∧
      Points w (fun f => f < 0x800 ∧ rank f ≠ 0) m' u (frame (m.mem (slot t i))) := by
  have hvalid (m : Machine) : m.validPointer q = some (q, m) := if_neg (by omega)
  have hload := load_eq hd
  have hload' : (m.marked p).load q = some (m.mem (slot t i), (m.fetch (slot t i)).marked p) := load_eq (m := m.marked p) hd
  by_cases habs : base (m.mem (slot t i)) = 0#64 ∨ p.pmmIsFree (base (m.mem (slot t i))).toNat = true
  · left
    have habs' : base (m.mem (slot t i)) = 0#64 ∨
        ((m.fetch (slot t i)).marked p).pmm.pmmIsFree (base (m.mem (slot t i))).toNat = true := habs
    simp only [Machine.getTableFromEntry, hvalid, hload', Option.bind_eq_bind, Option.bind_some, if_pos habs', ne_eq,
      not_true_eq_false, if_false]
    rfl
  · have hnot : ¬ m.Absent (m.mem (slot t i)) := fun h0 => habs (h0.imp_right (hfree _))
    have hc := (h.child t i ht ((h.absent_iff ht i).not.mp hnot)).1
    have h2 := (h.fetch (slot t i)).fetch (slot t i)
    obtain ⟨u, m', hu, -, hs, hp⟩ := h2.ready.validPointer_table (.refl _ _) (m.mem (slot t i))
      fun hlow => by
        rw [base_toNat, identityEnd] at hlow
        exact ⟨by unfold frame; omega, by omega⟩
    have h3 := h2.of_sim hs
    have hadd := addFlags_eq (m := m.fetch (slot t i)) hd lookupOnly
    have hadd' := addFlags_eq (m := (m.fetch (slot t i)).marked p) hd lookupOnly
    rw [Machine.light_lookupOnly] at hadd hadd'
    have hmark : ((m.fetch (slot t i)).marked p).fetch (slot t i) = ((m.fetch (slot t i)).fetch (slot t i)).marked p := rfl
    refine Or.inr ⟨u, m', ?_, ?_, h3, hs.pmm, (hp.entryPtr h3.ready (by decide : 0 < 512)).2.2.1, hc, hp⟩
    · have habs' : ¬ (base (m.mem (slot t i)) = 0#64 ∨
          (m.fetch (slot t i)).pmm.pmmIsFree (base (m.mem (slot t i))).toNat = true) := hnot
      simp only [Machine.getTableFromEntry, hvalid, hload, Option.bind_eq_bind, Option.bind_some, if_neg habs', hadd, hu]
    · have habs' : ¬ (base (m.mem (slot t i)) = 0#64 ∨
          ((m.fetch (slot t i)).marked p).pmm.pmmIsFree (base (m.mem (slot t i))).toNat = true) := habs
      simp only [Machine.getTableFromEntry, hvalid, hload', Option.bind_eq_bind, Option.bind_some, if_neg habs', hadd',
        hmark, Machine.marked_validPointer, hu, Option.map_some]

/-- A lookup under such marks stops on its way, or finds the same entry. -/
lemma entryBelow_marked (h : Tables rank w m) (ht : rank t = n + 1)
    (hq : Points w (fun f => f < 0x800 ∧ rank f ≠ 0) m q t)
    (hfree : ∀ a, m.pmm.pmmIsFree a = true → p.pmmIsFree a = true) :
    ∃ q' m', (m.marked p).entryBelow lookupOnly v n q = some (q', m'.marked p) ∧ Tables rank w m' ∧ m'.pmm = m.pmm ∧
      (q' = 0#64 ∨ m.entryBelow lookupOnly v n q = some (q', m')) := by
  induction n generalizing m q t with
  | zero => exact ⟨_, m, rfl, h, rfl, Or.inr rfl⟩
  | succ n ih =>
    obtain ⟨hd, hlt, -, -⟩ := hq.entryPtr h.ready (lvIndex_lt v (n + 2))
    rw [← getLvIndex_eq] at hlt
    rcases h.getTableFromEntry_marked (i := index v (n + 2)) (by omega) hd (by rwa [getLvIndex_eq] at hlt) hfree with
      hstop | ⟨u, m1, hstep, hstep', h1, hpmm, hu, hc, hp⟩
    · refine ⟨0#64, m.fetch (slot t (index v (n + 2))), ?_, h.fetch _, rfl, Or.inl rfl⟩
      rw [Machine.entryBelow, getLvIndex_eq, hstop]
      rfl
    · obtain ⟨q', m', hwalk, htab, hpmm', hor⟩ := ih h1 (by omega) hp (by rw [hpmm]; exact hfree)
      refine ⟨q', m', ?_, htab, hpmm'.trans hpmm, hor.imp_right fun hsame => ?_⟩
      · rw [Machine.entryBelow, getLvIndex_eq, hstep']
        simp only [Option.bind_eq_bind, Option.bind_some, if_neg hu]
        exact hwalk
      · rw [Machine.entryBelow, getLvIndex_eq, hstep]
        simp only [Option.bind_eq_bind, Option.bind_some, if_neg hu]
        exact hsame

/-- An unmap under such marks returns and keeps the tables in order. -/
lemma unmapPage_marked (h : Tables rank w m) (hpage : OffTables rank v)
    (hfree : ∀ a, m.pmm.pmmIsFree a = true → p.pmmIsFree a = true) :
    ∃ m', (m.marked p).unmapPage v = some (m'.marked p) ∧ Tables rank w m' ∧ m'.pmm = m.pmm := by
  have hlow : w.pml4 < 0x800 ∧ rank w.pml4 ≠ 0 := ⟨h.low.1, by rw [h.top]; decide⟩
  obtain ⟨q, m1, hwalk, htab, hpmm, hor⟩ := h.entryBelow_marked (v := v) (n := 3) h.top (.low hlow) hfree
  have hpml4 : (m.marked p).sPml4Table = BitVec.ofNat 64 (w.pml4 * 4096) := h.pml4
  have hunmap : (m.marked p).unmapPage v = if q ≠ 0#64 then (m1.marked p).store q 0#64 else some (m1.marked p) := by
    rw [Machine.unmapPage, Machine.unmap, Machine.lookupEntry, hpml4, getEntry_eq_entryBelow, hwalk]
    rfl
  rw [hunmap]
  split_ifs with hq
  · obtain ⟨m', hm', hcases⟩ := h.unmap_spec h.top hpage
    have hsame := hor.resolve_left hq
    have hstore : m1.store q 0#64 = some m' := by
      rw [← hm', Machine.unmap, Machine.lookupEntry, getEntry_eq_entryBelow, hsame]
      exact (if_pos hq).symm
    refine ⟨m', by rw [Machine.marked_store, hstore]; rfl, ?_, (Machine.store_pmm hstore).trans hpmm⟩
    rcases hcases with ⟨-, l, -, hs⟩ | ⟨t, hm⟩
    · have hlog : Tables rank w { m with log := l ++ m.log } := h.of_eq rfl rfl rfl rfl
      exact hlog.of_sim hs
    · exact hm.tables
  · exact ⟨m1, rfl, htab, hpmm⟩

/-- One level of a lookup on low tables, which needs no window. -/
lemma getTableFromEntry_low (h : Tables rank w m) {i : Fin 512} {u : Nat} (ht : 2 ≤ rank t) (htl : t < 0x800)
    (hn : Names (m.mem (slot t i)) u) (hu : u < 0x800) :
    m.getTableFromEntry (BitVec.ofNat 64 (slot t i)) lookupOnly =
      some (BitVec.ofNat 64 (u * 4096), (m.fetch (slot t i)).fetch (slot t i)) := by
  have hd : m.deref (BitVec.ofNat 64 (slot t i)) = some (slot t i) := h.ready.deref_slot ⟨htl, by omega⟩ i.isLt
  have hval : (BitVec.ofNat 64 (slot t i)).toNat = slot t i := by
    rw [BitVec.toNat_ofNat, slot]
    omega
  have hvalid (m : Machine) : m.validPointer (BitVec.ofNat 64 (slot t i)) = some (BitVec.ofNat 64 (slot t i), m) := by
    apply if_neg
    rw [hval, identityEnd, slot]
    omega
  have hvalid' (m : Machine) : m.validPointer (BitVec.ofNat 64 (u * 4096)) = some (BitVec.ofNat 64 (u * 4096), m) := by
    apply if_neg
    rw [BitVec.toNat_ofNat, identityEnd]
    omega
  have habs : ¬ (base (m.mem (slot t i)) = 0#64 ∨
      (m.fetch (slot t i)).pmm.pmmIsFree (base (m.mem (slot t i))).toNat = true) :=
    (h.absent_iff ht i).not.mpr (ne_zero_of_present hn.2)
  rw [hn.1] at habs
  have hadd := addFlags_eq (m := m.fetch (slot t i)) hd lookupOnly
  rw [Machine.light_lookupOnly] at hadd
  simp only [Machine.getTableFromEntry, hvalid, load_eq hd, Option.bind_eq_bind, Option.bind_some, hn.1, if_neg habs, hadd,
    hvalid']

/-- The lookup of the window page finds the window's entry as it is. -/
lemma lookup_window (h : Tables rank w m) (hv : pageNo v = 0x200) :
    ∃ m', m.lookupEntry m.sPml4Table v = some (BitVec.ofNat 64 w.win, m') ∧ m'.mem = m.mem ∧ m'.pmm = m.pmm ∧
      m'.sPml4Table = m.sPml4Table ∧ m'.cr3 = m.cr3 := by
  have hv' : pageNo v = pageNo tmpAddr := hv
  have i4 : lvIndex v 4 = (0 : Fin 512) := lvIndex_eq_of_pageNo hv' (by decide) (by decide)
  have i3 : lvIndex v 3 = (0 : Fin 512) := lvIndex_eq_of_pageNo hv' (by decide) (by decide)
  have i2 : lvIndex v 2 = (1 : Fin 512) := lvIndex_eq_of_pageNo hv' (by decide) (by decide)
  have i1 : lvIndex v 1 = 0 := lvIndex_eq_of_pageNo hv' (by decide) (by decide)
  have hpdp := h.rank_pdp
  have hpd := h.rank_pd
  obtain ⟨l4, l3, l2, l1⟩ := h.low
  have hne {t : Nat} (ht : t < 0x800) (h0 : rank t ≠ 0) : BitVec.ofNat 64 (t * 4096) ≠ 0#64 := by
    have hp : Points w (fun f => f < 0x800 ∧ rank f ≠ 0) m (BitVec.ofNat 64 (t * 4096)) t := .low ⟨ht, h0⟩
    exact (hp.entryPtr h.ready (by decide : 0 < 512)).2.2.1
  have s4 := h.getTableFromEntry_low (i := 0) (by rw [h.top]; decide) l4 h.path.1 l3
  have h1 := (h.fetch (slot w.pml4 (0 : Fin 512))).fetch (slot w.pml4 (0 : Fin 512))
  have s3 := h1.getTableFromEntry_low (i := 0) (by omega) l3 h.path.2.1 l2
  have h2 := (h1.fetch (slot w.pdp (0 : Fin 512))).fetch (slot w.pdp (0 : Fin 512))
  have s2 := h2.getTableFromEntry_low (i := 1) (by omega) l2 h.path.2.2 l1
  refine ⟨(((((m.fetch (slot w.pml4 (0 : Fin 512))).fetch (slot w.pml4 (0 : Fin 512))).fetch (slot w.pdp (0 : Fin 512))).fetch
    (slot w.pdp (0 : Fin 512))).fetch (slot w.pd (1 : Fin 512))).fetch (slot w.pd (1 : Fin 512)), ?_, rfl, rfl, rfl, rfl⟩
  · rw [Machine.lookupEntry, h.pml4, getEntry_eq_entryBelow, Machine.entryBelow, getLvIndex_eq, i4, entryPtr_ofNat, s4]
    simp only [Option.bind_eq_bind, Option.bind_some, if_neg (hne l3 (by omega))]
    rw [Machine.entryBelow, getLvIndex_eq, i3, entryPtr_ofNat, s3]
    simp only [Option.bind_eq_bind, Option.bind_some, if_neg (hne l2 (by omega))]
    rw [Machine.entryBelow, getLvIndex_eq, i2, entryPtr_ofNat, s2]
    simp only [Option.bind_eq_bind, Option.bind_some, if_neg (hne l1 (by rw [h.rank_pt]; decide))]
    rw [Machine.entryBelow, getLvIndex_eq, i1, entryPtr_ofNat]
    rfl

lemma frame_pml4 (h : Tables rank w m) : frame m.sPml4Table = w.pml4 := by
  have hlow := h.low.1
  rw [h.pml4, frame_ofNat (by omega)]

lemma pageFrame_eq (h : Tables rank w m) (page : Word) : m.pageFrame page =
    (leafTable m.mem page 3 w.pml4).bind fun p => if (m.mem (slot p (lvIndex page 1))).getLsbD 0 = true then
      some (frame (m.mem (slot p (lvIndex page 1)))) else none := by
  have hwalk := h.phys_mmuWalk (v := page) h.top .all
  have hmap : m.pageFrame page = ((mmuWalk m.mem page 4 w.pml4 .all).map Translation.phys).map fun a => a / 4096 := by
    rw [Machine.pageFrame, h.frame_pml4, mmu, Option.map_map]
    rfl
  rw [hmap, hwalk]
  cases leafTable m.mem page 3 w.pml4 with
  | none => rfl
  | some p =>
    simp only [Option.bind_some]
    split_ifs
    · rw [Option.map_some, Option.some.injEq]
      omega
    · rfl

/-- What `to_phys` makes of the entry that a lookup found. -/
lemma toPhys_entry {e : Word} {m' : Machine} {a : Nat} (hlookup : m.lookupEntry m.sPml4Table v = some (q, m'))
    (hq : q ≠ 0#64) (hd : m'.deref q = some a) (he : m'.mem a = e) :
    ∃ addr m'', m.toPhys v = some (addr, m'') ∧ m''.mem = m'.mem ∧ m''.pmm = m'.pmm ∧ m''.sPml4Table = m'.sPml4Table ∧
      m''.cr3 = m'.cr3 ∧ addr.toNat / 4096 % 2 ^ 40 = (if e.getLsbD 0 = true then some (frame e) else none).getD 0 := by
  have hd' : (m'.fetch a).deref q = some a := hd
  have he' : (m'.fetch a).mem a = e := he
  rw [Machine.toPhys, Machine.toUsrPhys, hlookup]
  simp only [Option.bind_eq_bind, Option.bind_some, if_neg hq, load_eq hd, load_eq hd', he, he', isEntryPresent_eq]
  by_cases hp : e.getLsbD 0 = true
  · refine ⟨base e + (v &&& 0xfff#64), (m'.fetch a).fetch a, ?_, rfl, rfl, rfl, rfl, ?_⟩
    · rw [hp]
      rfl
    · have := e.isLt
      rw [base_add_toNat, if_pos hp, Option.getD_some, frame]
      omega
  · refine ⟨0#64, m'.fetch a, ?_, rfl, rfl, rfl, rfl, ?_⟩
    · rw [Bool.not_eq_true] at hp
      rw [hp]
      rfl
    · rw [if_neg hp]
      rfl

/-- `to_phys` returns the address of the frame that a page is mapped to, 0 if there is none. -/
lemma toPhys_spec (h : Tables rank w m) (page : Word) : ∃ addr m', m.toPhys page = some (addr, m') ∧ Tables rank w m' ∧
    m'.pmm = m.pmm ∧ addr.toNat / 4096 % 2 ^ 40 = (m.pageFrame page).getD 0 := by
  rw [h.pageFrame_eq]
  by_cases hv : pageNo page = 0x200
  · obtain ⟨m', hlookup, hmem, hpmm, hs, hc⟩ := h.lookup_window hv
    have h' : Tables rank w m' := h.of_eq hmem hpmm hs hc
    have hlow : w.pt < 0x800 ∧ rank w.pt ≠ 0 := ⟨h.low.2.2.2, by rw [h.rank_pt]; decide⟩
    have hentry := (Points.low (m := m') hlow).entryPtr h'.ready (by decide : 0 < 512)
    rw [entryPtr_ofNat] at hentry
    obtain ⟨addr, m'', hphys, hmem', hpmm', hs', hc', haddr⟩ := toPhys_entry hlookup hentry.2.2.2 hentry.1 rfl
    refine ⟨addr, m'', hphys, h'.of_eq hmem' hpmm' hs' hc', hpmm'.trans hpmm, haddr.trans ?_⟩
    have hv' : pageNo page = pageNo tmpAddr := hv
    rw [hmem, h.leafTable_window hv, lvIndex_eq_of_pageNo hv' (by decide) (by decide)]
    rfl
  · obtain ⟨q, m', l, hlookup, -, hs, hfound⟩ := h.lookup_spec h.top page
    rw [← h.pml4] at hlookup
    have hlog : Tables rank w { m with log := l ++ m.log } := h.of_eq rfl rfl rfl rfl
    have h' := hlog.of_sim hs
    cases hp : leafTable m.mem page 3 w.pml4 with
    | none =>
      rw [hp] at hfound
      have hq : q = 0#64 := hfound
      refine ⟨0#64, m', ?_, h', hs.pmm, rfl⟩
      rw [Machine.toPhys, Machine.toUsrPhys, hlookup]
      simp only [Option.bind_eq_bind, Option.bind_some, if_pos hq]
      rfl
    | some p =>
      rw [hp] at hfound
      obtain ⟨hq, hd⟩ : q ≠ 0#64 ∧ m'.deref q = some (slot p (lvIndex page 1)) := hfound
      have hmem := hs.mem _ (h.leaf_ne_win h.top hp hv)
      obtain ⟨addr, m'', hphys, hmem', hpmm', hs', hc', haddr⟩ := toPhys_entry hlookup hq hd hmem
      exact ⟨addr, m'', hphys, h'.of_eq hmem' hpmm' hs' hc', hpmm'.trans hs.pmm, haddr⟩

end Tables

/-! ### What is freed -/

lemma blockTouched_mod (s n f : Nat) : Pmm.blockTouched (s % 2 ^ 40) n f ↔ Pmm.blockTouched s n f := by
  have hblock : s % 2 ^ 40 / 8 % 2 ^ 32 = s / 8 % 2 ^ 32 := by omega
  have hbit : s % 2 ^ 40 % 8 = s % 8 := by omega
  simp only [Pmm.blockTouched, hblock, hbit]

/-- Where a free from address 0 on frees anything, it frees frame 0. -/
lemma blockTouched_zero {n : Nat} (hn : n ≠ 0) : Pmm.blockTouched 0 n 0 := by
  by_cases h8 : n / 8 = 0
  · left
    simp only [h8, Nat.zero_div, Nat.zero_mod, Nat.add_zero]
    exact ⟨by omega, Or.inl ⟨trivial, Nat.le_refl 0, by omega⟩⟩
  · right
    exact ⟨h8, Or.inl ⟨rfl, Nat.le_refl _⟩⟩

/-- The effect of the free in `pmm_free`, by the frame of the first page. -/
lemma Machine.used_freeFrames (m : Machine) {addr : Word} {count t : Nat} (ht : addr.toNat / 4096 % 2 ^ 40 = t) (f : Nat) :
    (m.freeFrames addr count).pmm.used f =
      if Pmm.blockTouched t (count % 2 ^ 32) f then false else m.pmm.used f := by
  have hcount : Pmm.pageCount (count * frameSize % 2 ^ 64) % 2 ^ 32 = count % 2 ^ 32 := by
    simp only [Pmm.pageCount, frameSize]
    omega
  have h := Pmm.used_updateFrames_blocks Pmm.paintsFrames_free m.pmm addr.toNat (count * frameSize % 2 ^ 64) f
  rw [hcount] at h
  simp only [← ht, blockTouched_mod]
  exact h

/-- `pmm_free` of `count` pages from `page` on, from `m` to `m'`, clears the marks of exactly the frames
that the pages are mapped to, none of them reserved. -/
structure FreesPages (reserved : Nat → Prop) (page : Word) (count : Nat) (m m' : Machine) : Prop where
  exact : ∀ f, m'.pmm.used f = true ↔ m.pmm.used f = true ∧ ¬ m.MapsTo page count f
  kept : ∀ f, reserved f → m.pmm.used f = true → m'.pmm.used f = true

/-- The first page is mapped, and the frames in use that the pages are mapped to are those in use of the
run that `free_frames` counts from its frame on, none of them reserved. -/
structure MapsRun (reserved : Nat → Prop) (page : Word) (count : Nat) (m : Machine) : Prop where
  mapped : count % 2 ^ 32 ≠ 0 → (m.pageFrame page).isSome
  inside : ∀ f, m.MapsTo page count f → m.pmm.used f = true →
    ¬ reserved f ∧ Pmm.blockTouched ((m.pageFrame page).getD 0) (count % 2 ^ 32) f
  onto : ∀ f, Pmm.blockTouched ((m.pageFrame page).getD 0) (count % 2 ^ 32) f → m.pmm.used f = true →
    m.MapsTo page count f

namespace Tables

variable {rank : Nat → Nat} {w : WindowTables} {m : Machine} {reserved : Nat → Prop} {page : Word} {count : Nat}

lemma pageFrame_home (h : Tables rank w m) {t : Nat} (ht : t < 0x800) (hr : rank t ≠ 0) (hp : pageNo page = t) :
    m.pageFrame page = some t := by
  obtain ⟨p, hleaf, hpres, hframe⟩ := h.home t ht hr
  have hno : pageNo (BitVec.ofNat 64 (t * 4096)) = pageNo page := (pageNo_ofNat (by omega)).trans hp.symm
  rw [leafTable_congr fun k hk hk4 => lvIndex_eq_of_pageNo hno (by omega) (by omega)] at hleaf
  rw [index_val, lvIndex_eq_of_pageNo hno (by decide) (by decide)] at hpres hframe
  rw [h.pageFrame_eq, hleaf, Option.bind_some, if_pos hpres, hframe]

/-- The pages whose frames `pmm_free` frees. -/
lemma pmmFree_pages_iff (h : Tables rank w m) (hboot : ∀ f, f < 0x800 → reserved f) (page : Word) (count : Nat) :
    (∃ m', m.pmmFree page count = some m' ∧ FreesPages reserved page count m m') ↔ MapsRun reserved page count m := by
  obtain ⟨addr, m1, hphys, h1, hpmm, haddr⟩ := h.toPhys_spec page
  have hused (f : Nat) := @Machine.used_freeFrames m1 addr count _ haddr f
  rw [hpmm] at hused
  have hfree : m.pmmFree page count = Loop.upTo (fun i m => m.unmapPage (page + BitVec.ofNat 64 (i * frameSize))) count
      (m1.freeFrames addr count) := by
    rw [Machine.pmmFree, hphys]
    rfl
  rw [hfree]
  constructor
  · rintro ⟨m', hloop, hf⟩
    have hmarks : m'.pmm = (m1.freeFrames addr count).pmm :=
      Loop.upTo_invariant (fun _ m => m.pmm = (m1.freeFrames addr count).pmm) rfl
        (fun i _ t t' ht hu => (Machine.unmap_pmm hu).trans ht) hloop
    have hexact := hf.exact
    have hkept := hf.kept
    rw [hmarks] at hexact hkept
    refine ⟨fun hn => ?_, fun f hm hu => ⟨fun hr => ?_, ?_⟩, fun f ht hu => ?_⟩
    · by_contra hnone
      rw [Bool.not_eq_true, Option.isSome_eq_false_iff, Option.isNone_iff_eq_none] at hnone
      have h0 := hkept 0 (hboot 0 (by decide)) (h.low_used 0 (by decide))
      rw [hused, hnone, if_pos] at h0
      · cases h0
      · exact blockTouched_zero hn
    · exact ((hexact f).mp (hkept f hr hu)).2 hm
    · by_contra hnot
      have hstill := hused f
      rw [if_neg hnot, hu] at hstill
      exact ((hexact f).mp hstill).2 hm
    · by_contra hnot
      have hstill := (hexact f).mpr ⟨hu, hnot⟩
      rw [hused, if_pos ht] at hstill
      cases hstill
  · intro hrun
    have hmore (a : Nat) (ha : m1.pmm.pmmIsFree a = true) : (m1.freeFrames addr count).pmm.pmmIsFree a = true := by
      rw [Pmm.pmmIsFree_mod, Pmm.free, hpmm] at ha
      rw [Pmm.pmmIsFree_mod, Pmm.free, hused]
      split_ifs
      · rfl
      · exact ha
    have hoff (i : Nat) (hi : i < count) : OffTables rank (page + BitVec.ofNat 64 (i * frameSize)) := by
      intro t ht hr hp
      have hin := hrun.inside t ⟨i, hi, h.pageFrame_home ht hr hp⟩ (h.low_used t ht)
      exact hin.1 (hboot t ht)
    obtain ⟨m', hloop, m2, rfl, -, -⟩ := @Loop.upTo_total Machine
      (fun i m => m.unmapPage (page + BitVec.ofNat 64 (i * frameSize)))
      (fun _ t => ∃ m2, t = m2.marked (m1.freeFrames addr count).pmm ∧ Tables rank w m2 ∧ m2.pmm = m1.pmm)
      count (m1.freeFrames addr count) ⟨m1, rfl, h1, rfl⟩ fun i hi t ht => by
        obtain ⟨m2, rfl, h2, hp2⟩ := ht
        obtain ⟨m3, hunmap, h3, hp3⟩ := h2.unmapPage_marked (hoff i hi) (by rw [hp2]; exact hmore)
        exact ⟨_, hunmap, m3, rfl, h3, hp3.trans hp2⟩
    refine ⟨_, hloop, fun f => ?_, fun f hr hu => ?_⟩
    · change (m1.freeFrames addr count).pmm.used f = true ↔ _
      rw [hused]
      split_ifs with ht
      · exact iff_of_false id fun hand => hand.2 (hrun.onto f ht hand.1)
      · exact ⟨fun hu => ⟨hu, fun hm => ht (hrun.inside f hm hu).2⟩, fun hand => hand.1⟩
    · change (m1.freeFrames addr count).pmm.used f = true
      rw [hused, if_neg fun ht => (hrun.inside f (hrun.onto f ht hu) hu).1 hr]
      exact hu

/-- `pmm_free` clears exactly the marks of its pages' frames if and only if the pages map to the run
of frames that it frees. -/
theorem pmmFree_frees_iff (h : Tables rank w m) (hboot : ∀ f, f < 0x800 → reserved f) (page : Word) (count : Nat) :
    (∃ m', m.pmmFree page count = some m' ∧ FreesPages reserved page count m m') ↔ MapsRun reserved page count m :=
  h.pmmFree_pages_iff hboot page count

end Tables

lemma taskPmm_used {f : Nat} (hf : f < 0x800) : taskPmm.used f = true := by
  rw [taskPmm, Pmm.used_set, if_neg (by omega)]
  exact reservedPmm_used hf

lemma taskPmm_valid : taskPmm.Valid := ⟨by decide, taskPmm_used (by decide), by decide⟩

/-- A frame in use that is mapped right after boot is freed by its page. -/
theorem mapped_frame_freed : ∃ m m', (runningMachine (fun _ => 0#64) taskPmm).map (frameAddr 1) 0x8000000000#64
      (frameAddr 0x800) 3#64 = some m ∧
    m.pmmFree 0x8000000000#64 1 = some m' ∧ FreesPages (· < 0x800) 0x8000000000#64 1 m m' := by
  have hboot := booted_running (fun _ => 0#64) taskPmm_valid fun _ hf => taskPmm_used hf
  have hslot : (runningMachine (fun _ => 0#64) taskPmm).mem (slot 1 (lvIndex 0x8000000000#64 4)) = 0#64 :=
    hboot.pml4_rest _ (by decide) (lvIndex_lt _ 4)
  have hmissing : missing (runningMachine (fun _ => 0#64) taskPmm).mem 0x8000000000#64 3 1 = 3 := by
    rw [missing]
    exact if_pos hslot
  have hsup : Supplied (runningMachine (fun _ => 0#64) taskPmm).mem
      (missing (runningMachine (fun _ => 0#64) taskPmm).mem 0x8000000000#64 3 1) taskPmm := by
    rw [hmissing]
    exact supplied_running taskPmm_valid (by decide +kernel) (fun _ _ _ => rfl) taskPmm
  have hoff : Tables.OffTables (bootRank bootWindow (4 + ·)) 0x8000000000#64 := by
    intro t ht _ hp
    have hno : pageNo 0x8000000000#64 = 0x8000000 := by decide
    omega
  obtain ⟨m, rank', p, hmap, hm, -⟩ := hboot.tables.map_spec (f := 0x800) Booted.rank_pml4
    (⟨by decide, by decide⟩ : PlainFlags 3#64) (by decide) hoff hsup
  have hframe : m.pageFrame 0x8000000000#64 = some 0x800 := by
    have hpres : (3#64).getLsbD 0 = true := by decide
    rw [hm.tables.pageFrame_eq, hm.leaf, Option.bind_some, hm.entry, Tables.flag_word (by decide) (by decide),
      if_pos hpres, Tables.frame_word (by decide) ⟨by decide, by decide⟩]
  have hmaps (f : Nat) : m.MapsTo 0x8000000000#64 1 f ↔ f = 0x800 := by
    have hpage : 0x8000000000#64 + BitVec.ofNat 64 (0 * frameSize) = 0x8000000000#64 := by decide
    constructor
    · rintro ⟨i, hi, hf⟩
      obtain rfl : i = 0 := by omega
      rw [hpage, hframe] at hf
      exact (Option.some.inj hf).symm
    · rintro rfl
      exact ⟨0, Nat.one_pos, by rw [hpage, hframe]⟩
  have htouched (f : Nat) : Pmm.blockTouched 0x800 (1 % 2 ^ 32) f ↔ f = 0x800 := by
    rw [Pmm.blockTouched_iff (by decide), Pmm.touched, Pmm.hole]
    omega
  obtain ⟨m', hfree, hpages⟩ := (hm.tables.pmmFree_frees_iff (fun _ hf => hf) 0x8000000000#64 1).mpr
    ⟨fun _ => by rw [hframe]; rfl,
      fun f hf _ => by
        rw [hframe, Option.getD_some, htouched]
        rw [hmaps] at hf
        exact ⟨by omega, hf⟩,
      fun f hf _ => by
        rw [hframe, Option.getD_some, htouched] at hf
        exact (hmaps f).mpr hf⟩
  exact ⟨m, m', hmap, hfree, hpages⟩

/-- A page that is not mapped frees frame 0. -/
theorem unmapped_page_frees_zero : ¬ ∃ m', (runningMachine (fun _ => 0#64) reservedPmm).pmmFree 0x8000000000#64 1 = some m' ∧
    FreesPages (· < 0x800) 0x8000000000#64 1 (runningMachine (fun _ => 0#64) reservedPmm) m' := by
  have hrun : ((runningMachine (fun _ => 0#64) reservedPmm).pmmFree 0x8000000000#64 1).map (fun m => m.pmm.used 0) =
      some false := by decide +kernel
  rintro ⟨m', hfree, hpages⟩
  have hkept : m'.pmm.used 0 = true := hpages.kept 0 (by decide) (reservedPmm_used (by decide))
  rw [hfree, Option.map_some, hkept] at hrun
  cases hrun

end HaiirOS
