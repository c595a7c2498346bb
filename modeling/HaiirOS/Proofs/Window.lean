import HaiirOS.Memory.Direct
import Mathlib.Tactic.Set

/-!
# The temporary window

The paging code reaches a table above 8 MiB through the window page, whose own entry it
rewrites on the way. Along a walk the low tables stay mapped one to one whatever the window
holds, and every pointer of the walk points to the table that the walk on physical memory
is at. So the two walks touch the same words.
-/

namespace HaiirOS

open AddressWord

/-- Every entry that the MMU reads on its way from the table in frame `t` of level `lvl` satisfies `P`. -/
def Settled (P : Nat → Prop) (mem : Mem) (v : Word) : Nat → Nat → Prop
  | 0, _ => True
  | lvl + 1, t =>
    let a := slot t (lvIndex v (lvl + 1))
    P a ∧ (lvl ≠ 0 → (mem a).getLsbD 7 = false → Settled P mem v lvl (frame (mem a)))

lemma Settled.mono {P Q : Nat → Prop} {mem mem' : Mem} {v : Word} {lvl t : Nat} (h : Settled P mem v lvl t)
    (hpq : ∀ a, P a → Q a ∧ mem' a = mem a) : Settled Q mem' v lvl t := by
  induction lvl generalizing t with
  | zero => trivial
  | succ lvl ih =>
    obtain ⟨hq, hmem⟩ := hpq _ h.1
    refine ⟨hq, fun hl hb => ?_⟩
    rw [hmem] at hb ⊢
    exact ih (h.2 hl hb)

/-- A translation depends on the entries that the MMU reads only. -/
lemma Settled.mmuWalk_eq {P : Nat → Prop} {mem mem' : Mem} {v : Word} {lvl t : Nat}
    (h : Settled P mem v lvl t) (hp : ∀ a, P a → mem' a = mem a) (r : Rights) :
    mmuWalk mem' v lvl t r = mmuWalk mem v lvl t r := by
  induction lvl generalizing t r with
  | zero => rfl
  | succ lvl ih =>
    have hmem := hp _ h.1
    simp only [mmuWalk, hmem]
    split_ifs with h0 h1 h2 h3
    · rfl
    · rfl
    · rfl
    · rfl
    · exact ih (h.2 h1 (Bool.eq_false_iff.mpr h2)) _

/-- The tables on the path that `get_temp_entry` takes. -/
structure WindowTables where
  pml4 : Nat
  pdp : Nat
  pd : Nat
  pt : Nat

/-- The window's own entry. -/
def WindowTables.win (w : WindowTables) : Nat := slot w.pt 0

/-- The window shows the frame that `e` names. -/
def Machine.setWindow (m : Machine) (win : Nat) (e : Word) : Machine :=
  { m with mem := Function.update m.mem win e }

/-- An entry, other than the window's, that a walk never writes: it is present and names a frame in use. -/
def Pinned (win : Nat) (m : Machine) (a : Nat) : Prop :=
  a ≠ win ∧ (m.mem a).getLsbD 0 = true ∧ ¬ m.Absent (m.mem a)

/-- The frames in `low` lie below 8 MiB and are mapped one to one whatever the window holds, and the
path to the window's entry goes through such frames. -/
structure WindowReady (w : WindowTables) (low : Nat → Prop) (m : Machine) : Prop where
  valid : m.pmm.Valid
  below : ∀ f, low f → 0 < f ∧ f < 0x800
  settled : ∀ f o, low f → o < 4096 →
    Settled (Pinned w.win m) m.mem (BitVec.ofNat 64 (f * 4096 + o)) 4 (frame m.cr3)
  identity : ∀ f o, low f → o < 4096 →
    (mmu m.mem (frame m.cr3) (BitVec.ofNat 64 (f * 4096 + o))).map Translation.phys = some (f * 4096 + o)
  tables : low w.pml4 ∧ low w.pdp ∧ low w.pd ∧ low w.pt
  pinned : Pinned w.win m (slot w.pml4 0) ∧ Pinned w.win m (slot w.pdp 0) ∧ Pinned w.win m (slot w.pd 1) ∧
    Pinned w.win m (slot (frame m.cr3) 0)
  pml4 : m.sPml4Table = BitVec.ofNat 64 (w.pml4 * 4096)
  pdp : base (m.mem (slot w.pml4 0)) = BitVec.ofNat 64 (w.pdp * 4096)
  pd : base (m.mem (slot w.pdp 0)) = BitVec.ofNat 64 (w.pd * 4096)
  pt : base (m.mem (slot w.pd 1)) = BitVec.ofNat 64 (w.pt * 4096)
  cr3 : frame (m.mem (slot (frame m.cr3) 0)) = w.pdp
  small : (m.mem (slot (frame m.cr3) 0)).getLsbD 7 = false ∧ (m.mem (slot w.pdp 0)).getLsbD 7 = false ∧
    (m.mem (slot w.pd 1)).getLsbD 7 = false

/-- Two machines that differ in the window's entry at most. -/
structure Sim (win : Nat) (d m : Machine) : Prop where
  mem : ∀ a, a ≠ win → m.mem a = d.mem a
  pmm : m.pmm = d.pmm
  sPml4Table : m.sPml4Table = d.sPml4Table
  cr3 : m.cr3 = d.cr3
  log : m.log = d.log

/-- A pointer to the table in frame `t`: the window, or the table's own address. -/
inductive Points (w : WindowTables) (low : Nat → Prop) (m : Machine) : Word → Nat → Prop where
  | window : (m.mem w.win).getLsbD 0 = true → Points w low m tmpAddr (frame (m.mem w.win))
  | low {t : Nat} : low t → Points w low m (BitVec.ofNat 64 (t * 4096)) t

lemma entryPtr_ofNat (t i : Nat) : entryPtr (BitVec.ofNat 64 (t * 4096)) i = BitVec.ofNat 64 (slot t i) := by
  rw [entryPtr, slot, BitVec.ofNat_add]

namespace WindowReady

variable {w : WindowTables} {low : Nat → Prop} {m : Machine}

/-- Readiness depends on the pinned entries and the registers only. -/
lemma congr {m' : Machine} (h : WindowReady w low m) (hv : m'.pmm.Valid)
    (hp : ∀ a, Pinned w.win m a → m'.mem a = m.mem a ∧ ¬ m'.Absent (m.mem a))
    (hs : m'.sPml4Table = m.sPml4Table) (hc : m'.cr3 = m.cr3) : WindowReady w low m' := by
  have hpin (a : Nat) (ha : Pinned w.win m a) : Pinned w.win m' a ∧ m'.mem a = m.mem a := by
    obtain ⟨hmem, habs⟩ := hp a ha
    exact ⟨⟨ha.1, by rw [hmem]; exact ha.2.1, by rw [hmem]; exact habs⟩, hmem⟩
  obtain ⟨h1, h2, h3, h4⟩ := h.pinned
  obtain ⟨p1, e1⟩ := hpin _ h1
  obtain ⟨p2, e2⟩ := hpin _ h2
  obtain ⟨p3, e3⟩ := hpin _ h3
  obtain ⟨p4, e4⟩ := hpin _ h4
  refine ⟨hv, h.below, ?_, ?_, h.tables, ?_, hs.trans h.pml4, ?_, ?_, ?_, ?_, ?_⟩
  · intro f o hf ho
    rw [hc]
    exact (h.settled f o hf ho).mono hpin
  · intro f o hf ho
    rw [hc, mmu, (h.settled f o hf ho).mmuWalk_eq fun a ha => (hp a ha).1]
    exact h.identity f o hf ho
  · rw [hc]
    exact ⟨p1, p2, p3, p4⟩
  · rw [e1]
    exact h.pdp
  · rw [e2]
    exact h.pd
  · rw [e3]
    exact h.pt
  · rw [hc, e4]
    exact h.cr3
  · rw [hc, e4, e2, e3]
    exact h.small

lemma deref_low (h : WindowReady w low m) {f o : Nat} (hf : low f) (ho : o < 4096) :
    m.deref (BitVec.ofNat 64 (f * 4096 + o)) = some (f * 4096 + o) := by
  have hb := h.below f hf
  have hcan : Canonical (BitVec.ofNat 64 (f * 4096 + o)) := by
    left
    rw [BitVec.toNat_ofNat]
    omega
  rw [Machine.deref, if_pos hcan]
  exact h.identity f o hf ho

lemma deref_slot (h : WindowReady w low m) {t i : Nat} (ht : low t) (hi : i < 512) :
    m.deref (BitVec.ofNat 64 (slot t i)) = some (slot t i) := h.deref_low ht (by omega)

lemma getTempEntry_eq (h : WindowReady w low m) : m.getTempEntry = some (BitVec.ofNat 64 w.win) := by
  obtain ⟨h1, h2, h3, -⟩ := h.tables
  have i4 : getLv4Index tmpAddr = 0 := by decide
  have i3 : getLv3Index tmpAddr = 0 := by decide
  have i2 : getLv2Index tmpAddr = 1 := by decide
  have i1 : getLv1Index tmpAddr = 0 := by decide
  simp only [Machine.getTempEntry, Machine.read, i4, i3, i2, i1, h.pml4, entryPtr_ofNat,
    h.deref_slot h1 (by decide : 0 < 512), h.deref_slot h2 (by decide : 0 < 512),
    h.deref_slot h3 (by decide : 1 < 512), h.pdp, h.pd, h.pt, Option.map_some, Option.bind_eq_bind,
    Option.bind_some]
  rfl

/-- `tmp_map` writes the window's entry and nothing else. -/
lemma tmpMap_eq (h : WindowReady w low m) (p : Word) :
    m.tmpMap p = some (tmpAddr + (p &&& 0xfff#64),
      m.setWindow w.win (toFrame p ||| PageFlags.present ||| PageFlags.writeable)) := by
  obtain ⟨-, -, -, h4⟩ := h.tables
  have hd : m.deref (BitVec.ofNat 64 w.win) = some w.win := h.deref_slot h4 (by decide)
  simp only [Machine.tmpMap, h.getTempEntry_eq, Machine.write, hd, Option.bind_eq_bind,
    Option.bind_some, Option.map_some]
  rfl

lemma setWindow (h : WindowReady w low m) (e : Word) : WindowReady w low (m.setWindow w.win e) :=
  h.congr h.valid (fun _ ha => ⟨Function.update_of_ne ha.1 .., ha.2.2⟩) rfl rfl

/-- The window page is mapped to whatever frame the window's entry names. -/
lemma deref_window (h : WindowReady w low m) (he : (m.mem w.win).getLsbD 0 = true) {o : Nat} (ho : o < 4096) :
    m.deref (tmpAddr + BitVec.ofNat 64 o) = some (frame (m.mem w.win) * 4096 + o) := by
  obtain ⟨-, ⟨-, p3, -⟩, ⟨-, p2, -⟩, ⟨-, p4, -⟩⟩ := h.pinned
  obtain ⟨s4, s3, s2⟩ := h.small
  have e3 : frame (m.mem (slot w.pdp 0)) = w.pd := by
    have hb := h.below _ h.tables.2.2.1
    rw [← frame_base, h.pd, frame_ofNat (by omega)]
  have e2 : frame (m.mem (slot w.pd 1)) = w.pt := by
    have hb := h.below _ h.tables.2.2.2
    rw [← frame_base, h.pt, frame_ofNat (by omega)]
  have hv : (tmpAddr + BitVec.ofNat 64 o).toNat = 0x200000 + o := by
    rw [BitVec.toNat_add, BitVec.toNat_ofNat]
    change (2097152 + _) % _ = _
    omega
  have i4 : lvIndex (tmpAddr + BitVec.ofNat 64 o) 4 = 0 := by
    simp only [lvIndex, hv]
    omega
  have i3 : lvIndex (tmpAddr + BitVec.ofNat 64 o) 3 = 0 := by
    simp only [lvIndex, hv]
    omega
  have i2 : lvIndex (tmpAddr + BitVec.ofNat 64 o) 2 = 1 := by
    simp only [lvIndex, hv]
    omega
  have i1 : lvIndex (tmpAddr + BitVec.ofNat 64 o) 1 = 0 := by
    simp only [lvIndex, hv]
    omega
  have hoff : (0x200000 + o) % 4096 = o := by omega
  have hcan : Canonical (tmpAddr + BitVec.ofNat 64 o) := by
    left
    omega
  rw [Machine.deref, if_pos hcan, mmu]
  rw [mmuWalk_table _ (by rw [i4]; exact p4) (by rw [i4]; exact s4), i4, h.cr3]
  rw [mmuWalk_table _ (by rw [i3]; exact p3) (by rw [i3]; exact s3), i3, e3]
  rw [mmuWalk_table _ (by rw [i2]; exact p2) (by rw [i2]; exact s2), i2, e2]
  rw [mmuWalk_leaf _ (by rw [i1]; exact he), i1, Option.map_some, hv, hoff]
  rfl

end WindowReady

lemma frame_tmpMap (p : Word) : frame (toFrame p ||| PageFlags.present ||| PageFlags.writeable) = frame p := by
  rw [frame_or_of_zero _ (by decide), frame_or_of_zero _ (by decide), toFrame, frame_base]

lemma present_tmpMap (p : Word) :
    (toFrame p ||| PageFlags.present ||| PageFlags.writeable).getLsbD 0 = true := by
  simp [PageFlags.present]

/-- What the pointers of a walk are good for. -/
lemma Points.entryPtr {w : WindowTables} {low : Nat → Prop} {m : Machine} {p : Word} {t i : Nat}
    (hp : Points w low m p t) (h : WindowReady w low m) (hi : i < 512) :
    m.deref (entryPtr p i) = some (slot t i) ∧ (HaiirOS.entryPtr p i).toNat < identityEnd ∧
      p ≠ 0#64 ∧ HaiirOS.entryPtr p i ≠ 0#64 := by
  cases hp with
  | window he =>
    have hv : (HaiirOS.entryPtr tmpAddr i).toNat = 0x200000 + 8 * i := by
      rw [HaiirOS.entryPtr, BitVec.toNat_add, BitVec.toNat_ofNat]
      change (2097152 + _) % _ = _
      omega
    refine ⟨h.deref_window he (by omega), ?_, by decide, fun h0 => ?_⟩
    · rw [hv, identityEnd]
      omega
    · rw [h0] at hv
      simp at hv
      omega
  | low ht =>
    have hb := h.below t ht
    have hv : (BitVec.ofNat 64 (slot t i)).toNat = slot t i := by
      rw [BitVec.toNat_ofNat, slot]
      omega
    rw [entryPtr_ofNat]
    refine ⟨h.deref_slot ht hi, ?_, fun h0 => ?_, fun h0 => ?_⟩
    · rw [hv, identityEnd, slot]
      omega
    · have := congrArg BitVec.toNat h0
      rw [BitVec.toNat_ofNat] at this
      simp at this
      omega
    · rw [h0, slot] at hv
      simp at hv
      omega

/-! ### One level of the walk -/

section

variable {win : Nat} {d m : Machine}

lemma Sim.refl (win : Nat) (m : Machine) : Sim win m m := ⟨fun _ _ => rfl, rfl, rfl, rfl, rfl⟩

lemma Sim.fetch (h : Sim win d m) (a : Nat) : Sim win (d.fetch a) (m.fetch a) := by
  refine ⟨h.mem, h.pmm, h.sPml4Table, h.cr3, ?_⟩
  rw [Machine.fetch, Machine.fetch, h.log]

lemma Sim.put (h : Sim win d m) (a : Nat) (e : Word) : Sim win (d.put a e) (m.put a e) := by
  refine ⟨fun b hb => ?_, h.pmm, h.sPml4Table, h.cr3, ?_⟩
  · by_cases hba : b = a
    · subst hba
      simp [Machine.put]
    · simp [Machine.put, Function.update_of_ne hba, h.mem b hb]
  · rw [Machine.put, Machine.put, h.log]

lemma Sim.setWindow (h : Sim win d m) (e : Word) : Sim win d (m.setWindow win e) :=
  ⟨fun b hb => (Function.update_of_ne hb ..).trans (h.mem b hb), h.pmm, h.sPml4Table, h.cr3, h.log⟩

lemma Sim.attach (h : Sim win d m) (a : Nat) (flags : PageFlags) :
    (m.attach a flags).1 = (d.attach a flags).1 ∧ Sim win (d.attach a flags).2 (m.attach a flags).2 := by
  have halloc : (m.pmmAllocUnmapped 1).1 = (d.pmmAllocUnmapped 1).1 := by
    rw [Machine.pmmAllocUnmapped, Machine.pmmAllocUnmapped, h.pmm]
  have hsim : Sim win ((d.pmmAllocUnmapped 1).2.noteTable (frame (d.pmmAllocUnmapped 1).1))
      ((m.pmmAllocUnmapped 1).2.noteTable (frame (d.pmmAllocUnmapped 1).1)) := by
    refine ⟨h.mem, ?_, h.sPml4Table, h.cr3, ?_⟩ <;>
      simp only [Machine.noteTable, Machine.pmmAllocUnmapped, h.pmm, h.log]
  simp only [Machine.attach, halloc]
  exact ⟨trivial, hsim.put a _⟩

lemma Sim.absent_iff (h : Sim win d m) (e : Word) : m.Absent e ↔ d.Absent e := by
  rw [Machine.Absent, Machine.Absent, h.pmm]

variable {w : WindowTables} {low : Nat → Prop}

lemma WindowReady.fetch (h : WindowReady w low m) (a : Nat) : WindowReady w low (m.fetch a) :=
  h.congr h.valid (fun _ hb => ⟨rfl, hb.2.2⟩) rfl rfl

lemma WindowReady.put (h : WindowReady w low m) {a : Nat} (ha : ¬ Pinned w.win m a) (e : Word) :
    WindowReady w low (m.put a e) := by
  refine h.congr h.valid (fun b hb => ⟨Function.update_of_ne ?_ .., hb.2.2⟩) rfl rfl
  rintro rfl
  exact ha hb

/-- An allocation takes no pinned entry for absent. -/
lemma absent_alloc (h : m.pmm.Valid) (count : Nat) {e : Word} (he : ¬ m.Absent e) :
    ¬ (m.pmmAllocUnmapped count).2.Absent e := by
  rintro (h0 | hf)
  · exact he (Or.inl h0)
  · refine he (Or.inr ?_)
    rw [Pmm.pmmIsFree_mod, Pmm.free] at hf ⊢
    by_contra hn
    rw [Bool.not_eq_true, Bool.not_eq_false'] at hn
    have hu : (m.pmmAllocUnmapped count).2.pmm.used _ = true := h.used_mono count hn
    rw [hu] at hf
    cases hf

lemma WindowReady.attach (h : WindowReady w low m) {a : Nat} (ha : m.Absent (m.mem a)) (flags : PageFlags) :
    WindowReady w low (m.attach a flags).2 := by
  have h1 : WindowReady w low (m.fetch a) := h.fetch a
  have hv := h.valid.alloc 1
  refine h.congr hv (fun b hb => ⟨Function.update_of_ne ?_ .., absent_alloc h.valid 1 hb.2.2⟩) rfl rfl
  rintro rfl
  exact hb.2.2 ha

lemma load_eq {q : Word} {a : Nat} (hq : m.deref q = some a) : m.load q = some (m.mem a, m.fetch a) := by
  rw [Machine.load, hq]
  rfl

lemma store_eq {q : Word} {a : Nat} (hq : m.deref q = some a) (e : Word) : m.store q e = some (m.put a e) := by
  rw [Machine.store, hq]
  rfl

/-- `tmp_map` leaves a pointer to the frame, and all but the window as it is. -/
lemma WindowReady.tmpMap_points (h : WindowReady w low m) (hs : Sim w.win d m) (p : Word) :
    ∃ m', m.tmpMap p = some (tmpAddr + (p &&& 0xfff#64), m') ∧ WindowReady w low m' ∧ Sim w.win d m' ∧
      Points w low m' tmpAddr (frame p) := by
  refine ⟨_, h.tmpMap_eq p, h.setWindow _, hs.setWindow _, ?_⟩
  have hp : Points w low (m.setWindow w.win (toFrame p ||| PageFlags.present ||| PageFlags.writeable))
      tmpAddr _ := .window (by
    simp only [Machine.setWindow, Function.update_self]
    exact present_tmpMap p)
  simp only [Machine.setWindow, Function.update_self, frame_tmpMap] at hp
  exact hp

/-- `create_table` attaches the table that the walk on physical memory attaches, and leaves a
pointer to it. -/
lemma WindowReady.createTable_eq (h : WindowReady w low m) (hs : Sim w.win d m) {q : Word} {a : Nat}
    (hq : m.deref q = some a) (ha : m.Absent (m.mem a)) (flags : PageFlags) :
    ∃ m', m.createTable q flags = some (tmpAddr, m') ∧ WindowReady w low m' ∧
      Sim w.win (d.attach a flags).2 m' ∧ Points w low m' tmpAddr (d.attach a flags).1 := by
  have hoff : (m.pmmAllocUnmapped 1).1 &&& 0xfff#64 = 0#64 := by
    apply BitVec.eq_of_toNat_eq
    have hal := h.valid.alloc_aligned 1
    rw [low_toNat, Machine.pmmAllocUnmapped, BitVec.toNat_ofNat, BitVec.toNat_ofNat]
    omega
  have hstore := store_eq (m := (m.pmmAllocUnmapped 1).2.noteTable (frame (m.pmmAllocUnmapped 1).1)) hq
    ((m.pmmAllocUnmapped 1).1 ||| flags)
  obtain ⟨htable, hsim⟩ := hs.attach a flags
  obtain ⟨m', htmp, hr, hs', hp⟩ := (h.attach ha flags).tmpMap_points hsim (m.pmmAllocUnmapped 1).1
  refine ⟨m', ?_, hr, hs', ?_⟩
  · rw [hoff] at htmp
    rw [Machine.createTable]
    simp only [hstore, Option.bind_eq_bind, Option.bind_some]
    exact htmp
  · rw [← htable]
    exact hp

lemma addFlags_eq {q : Word} {a : Nat} (hq : m.deref q = some a) (flags : PageFlags) :
    m.addFlags q flags = some ((m.fetch a).light a flags) := by
  have h1 := load_eq hq
  have h2 := load_eq (m := m.fetch a) hq
  have h3 := store_eq (m := (m.fetch a).fetch a) hq (m.mem a ||| flags)
  have hmem : (m.fetch a).mem a = m.mem a := rfl
  rw [Machine.addFlags, Machine.light, hmem]
  simp only [h1, Option.bind_eq_bind, Option.bind_some]
  split_ifs
  · simp only [h2, Option.bind_some]
    exact h3
  · rfl

lemma Sim.light (h : Sim win d m) {a : Nat} (ha : a ≠ win) (flags : PageFlags) :
    Sim win (d.light a flags) (m.light a flags) := by
  rw [Machine.light, Machine.light, h.mem a ha]
  split_ifs
  · exact (h.fetch a).put a _
  · exact h

lemma Sim.enter (h : Sim win d m) {a : Nat} (ha : a ≠ win) (flags : PageFlags) :
    Sim win (d.enter a flags).2 (m.enter a flags).2 := by
  have hf := h.fetch a
  rw [Machine.enter, Machine.enter, h.mem a ha]
  by_cases habs : (d.fetch a).Absent (d.mem a)
  · rw [if_pos habs, if_pos ((hf.absent_iff _).mpr habs)]
    split_ifs
    · exact (hf.attach a flags).2
    · exact hf
  · rw [if_neg habs, if_neg ((hf.absent_iff _).not.mpr habs)]
    exact (hf.fetch a).light ha flags

lemma WindowReady.light (h : WindowReady w low m) (a : Nat) (flags : PageFlags) :
    WindowReady w low (m.light a flags) := by
  rw [Machine.light]
  split_ifs with hc
  · refine (h.fetch a).put (fun hp => ?_) _
    rw [isEntryPresent_eq, Bool.and_eq_true, Bool.not_eq_true'] at hc
    have h1 : (m.mem a).getLsbD 0 = true := hp.2.1
    rw [hc.1] at h1
    cases h1
  · exact h

/-- `valid_pointer` leaves a pointer to the table that an entry names. -/
lemma WindowReady.validPointer_table (h : WindowReady w low m) (hs : Sim w.win d m) (e : Word)
    (hlow : (base e).toNat < identityEnd → low (frame e)) :
    ∃ p m', m.validPointer (base e) = some (p, m') ∧ WindowReady w low m' ∧ Sim w.win d m' ∧
      Points w low m' p (frame e) := by
  rw [Machine.validPointer]
  split_ifs with hge
  · obtain ⟨m', htmp, hr, hs', hp⟩ := h.tmpMap_points hs (base e)
    have hoff : base e &&& 0xfff#64 = 0#64 := by
      apply BitVec.eq_of_toNat_eq
      rw [low_toNat, base_toNat, BitVec.toNat_ofNat]
      omega
    rw [hoff] at htmp
    rw [frame_base] at hp
    exact ⟨_, m', htmp, hr, hs', hp⟩
  · refine ⟨_, m, rfl, h, hs, ?_⟩
    have hbase : base e = BitVec.ofNat 64 (frame e * 4096) := by
      apply BitVec.eq_of_toNat_eq
      rw [base_toNat, identityEnd] at hge
      rw [base_toNat, BitVec.toNat_ofNat, frame]
      omega
    have hp : Points w low m (BitVec.ofNat 64 (frame e * 4096)) (frame e) := .low (hlow (by omega))
    rw [← hbase] at hp
    exact hp

lemma validPointer_low {q : Word} (hlt : q.toNat < identityEnd) : m.validPointer q = some (q, m) := by
  rw [Machine.validPointer, if_neg (by omega)]

/-- `get_table_from_entry` depends on where its pointer leads only. -/
lemma getTableFromEntry_congr {p q : Word} {m' : Machine} (hp : m.validPointer p = some (q, m'))
    (hlt : q.toNat < identityEnd) (flags : PageFlags) : m.getTableFromEntry p flags = m'.getTableFromEntry q flags := by
  rw [Machine.getTableFromEntry, Machine.getTableFromEntry, hp, validPointer_low hlt]

/-- `get_table_from_entry` takes the step of the walk on physical memory. -/
lemma WindowReady.getTableFromEntry_eq (h : WindowReady w low m) (hs : Sim w.win d m) {q : Word} {a : Nat}
    (hq : m.deref q = some a) (hlt : q.toNat < identityEnd) (ha : a ≠ w.win) (flags : PageFlags)
    (hlow : ¬ d.Absent (d.mem a) → (base (d.mem a)).toNat < identityEnd → low (frame (d.mem a))) :
    ∃ p m', m.getTableFromEntry q flags = some (p, m') ∧ WindowReady w low m' ∧
      Sim w.win (d.enter a flags).2 m' ∧
      match (d.enter a flags).1 with
      | none => p = 0#64
      | some u => Points w low m' p u := by
  have hmem : m.mem a = d.mem a := hs.mem a ha
  have hvalid := validPointer_low (m := m) hlt
  have hload := load_eq hq
  have hf := h.fetch a
  have hsf := hs.fetch a
  have habs : (base (m.mem a) = 0#64 ∨ (m.fetch a).pmm.pmmIsFree (base (m.mem a)).toNat = true) ↔
      (d.fetch a).Absent (d.mem a) := by
    rw [hmem]
    exact hsf.absent_iff _
  rw [Machine.getTableFromEntry, Machine.enter]
  simp only [hvalid, hload, Option.bind_eq_bind, Option.bind_some]
  by_cases hab : (d.fetch a).Absent (d.mem a)
  · have hab' := habs.mpr hab
    by_cases hmode : flags = lookupOnly
    · refine ⟨0#64, m.fetch a, ?_, hf, ?_⟩
      · rw [if_pos hab', if_neg (not_not.mpr hmode)]
        rfl
      · simp only [if_pos hab, ne_eq, hmode, not_true_eq_false, if_false]
        exact ⟨hsf, trivial⟩
    · obtain ⟨m', hc, hr, hs', hp⟩ := hf.createTable_eq hsf (q := q) (a := a) hq hab' flags
      refine ⟨tmpAddr, m', ?_, hr, ?_⟩
      · rw [if_pos hab', if_pos hmode]
        exact hc
      · simp only [if_pos hab, ne_eq, hmode, not_false_eq_true, if_true]
        exact ⟨hs', hp⟩
  · have hadd := addFlags_eq (m := m.fetch a) hq flags
    have hr1 := (hf.fetch a).light a flags
    have hs1 := (hsf.fetch a).light ha flags
    obtain ⟨p, m', hp, hr, hs', hu⟩ := hr1.validPointer_table hs1 (d.mem a) (hlow hab)
    refine ⟨p, m', ?_, hr, ?_⟩
    · rw [if_neg (habs.not.mpr hab), hadd, Option.bind_some, hmem]
      exact hp
    · simp only [if_neg hab]
      exact ⟨hs', hu⟩

/-! ### The whole walk -/

/-- On its way down from the table in frame `t` of level `n + 1` the walk on physical memory
does not pass the window's entry, and the tables it meets below 8 MiB are mapped one to one. -/
def Clear (w : WindowTables) (low : Nat → Prop) (flags : PageFlags) (v : Word) : Nat → Machine → Nat → Prop
  | 0, _, _ => True
  | n + 1, d, t =>
    let a := slot t (lvIndex v (n + 2))
    a ≠ w.win ∧
    (¬ d.Absent (d.mem a) → (base (d.mem a)).toNat < identityEnd → low (frame (d.mem a))) ∧
    match d.enter a flags with
    | (some u, d') => Clear w low flags v n d' u
    | (none, _) => True

instance instDecidableClear (w : WindowTables) (low : Nat → Prop) [DecidablePred low] (flags : PageFlags) (v : Word) :
    (n : Nat) → (d : Machine) → (t : Nat) → Decidable (Clear w low flags v n d t)
  | 0, _, _ => isTrue trivial
  | n + 1, d, t =>
    have : Decidable (match d.enter (slot t (lvIndex v (n + 2))) flags with
        | (some u, d') => Clear w low flags v n d' u
        | (none, _) => True) :=
      match d.enter (slot t (lvIndex v (n + 2))) flags with
      | (some u, d') => instDecidableClear w low flags v n d' u
      | (none, _) => isTrue trivial
    inferInstanceAs (Decidable (_ ∧ _ ∧ _))

lemma getLvIndex_eq (v : Word) (lvl : Nat) : getLvIndex (9 * lvl + 3) v = lvIndex v lvl := index_toNat v _

/-- The levels of `get_entry` below a table of level `n + 1`. -/
def Machine.entryBelow (m : Machine) (flags : PageFlags) (v : Word) : Nat → Word → Option (Word × Machine)
  | 0, table => some (HaiirOS.entryPtr table (getLvIndex (9 * 1 + 3) v), m)
  | n + 1, table => do
    let (next, m) ← m.getTableFromEntry (HaiirOS.entryPtr table (getLvIndex (9 * (n + 2) + 3) v)) flags
    if next = 0#64 then return (0#64, m)
    m.entryBelow flags v n next

lemma getEntry_eq_entryBelow (m : Machine) (pml4 : Word) (flags : PageFlags) (v : Word) :
    m.getEntry pml4 flags v = m.entryBelow flags v 3 pml4 := rfl

/-- A pointer to what the walk on physical memory found. -/
def Found (m : Machine) (p : Word) : Option Nat → Prop
  | none => p = 0#64
  | some a => p ≠ 0#64 ∧ m.deref p = some a

lemma WindowReady.entryBelow_succ {flags : PageFlags} {v : Word} {n t : Nat} {q p : Word} {m' : Machine}
    (hstep : m.getTableFromEntry (entryPtr q (getLvIndex (9 * (n + 2) + 3) v)) flags = some (p, m'))
    (hr : WindowReady w low m') (hs : Sim w.win (d.enter (slot t (lvIndex v (n + 2))) flags).2 m')
    (hu : match (d.enter (slot t (lvIndex v (n + 2))) flags).1 with
      | none => p = 0#64
      | some u => Points w low m' p u)
    (hbelow : ∀ u d', d.enter (slot t (lvIndex v (n + 2))) flags = (some u, d') → Sim w.win d' m' →
      Points w low m' p u → ∃ p' m'', m'.entryBelow flags v n p = some (p', m'') ∧ WindowReady w low m'' ∧
        Sim w.win (d'.directEntry flags v n u).2 m'' ∧ Found m'' p' (d'.directEntry flags v n u).1) :
    ∃ p' m'', m.entryBelow flags v (n + 1) q = some (p', m'') ∧ WindowReady w low m'' ∧
      Sim w.win (d.directEntry flags v (n + 1) t).2 m'' ∧ Found m'' p' (d.directEntry flags v (n + 1) t).1 := by
  rw [Machine.entryBelow, Machine.directEntry]
  simp only [hstep, Option.bind_eq_bind, Option.bind_some]
  rcases hd : d.enter (slot t (lvIndex v (n + 2))) flags with ⟨u, d'⟩
  rw [hd] at hs hu
  cases u with
  | none =>
    have hp : p = 0#64 := hu
    refine ⟨0#64, m', ?_, hr, hs, rfl⟩
    rw [if_pos hp]
    rfl
  | some u =>
    have hp : Points w low m' p u := hu
    obtain ⟨-, -, hne, -⟩ := hp.entryPtr hr (by decide : 0 < 512)
    rw [if_neg hne]
    exact hbelow u d' hd hs hp

lemma WindowReady.entryBelow_eq (h : WindowReady w low m) (hs : Sim w.win d m) {flags : PageFlags} {v : Word}
    {n t : Nat} {q : Word} (hq : Points w low m q t) (hc : Clear w low flags v n d t) :
    ∃ p m', m.entryBelow flags v n q = some (p, m') ∧ WindowReady w low m' ∧
      Sim w.win (d.directEntry flags v n t).2 m' ∧ Found m' p (d.directEntry flags v n t).1 := by
  induction n generalizing m d t q with
  | zero =>
    obtain ⟨hd, -, -, hne⟩ := hq.entryPtr h (lvIndex_lt v 1)
    rw [← getLvIndex_eq] at hd hne
    refine ⟨_, m, rfl, h, hs, hne, ?_⟩
    rw [hd, getLvIndex_eq]
  | succ n ih =>
    obtain ⟨hwin, hlow, hrest⟩ := hc
    obtain ⟨hd, hlt, -, -⟩ := hq.entryPtr h (lvIndex_lt v (n + 2))
    rw [← getLvIndex_eq] at hd hlt
    obtain ⟨p, m', hstep, hr, hs', hu⟩ := h.getTableFromEntry_eq hs hd hlt (by rwa [getLvIndex_eq]) flags
      (by rwa [getLvIndex_eq])
    rw [getLvIndex_eq v (n + 2)] at hs' hu
    refine entryBelow_succ hstep hr hs' hu fun u d' hd' hsim hp => ih hr hsim hp ?_
    rw [hd'] at hrest
    exact hrest

/-- The PML4 itself is reached like the entry of a table, if it is one that the code can reach. -/
lemma WindowReady.root_step (h : WindowReady w low m) (hs : Sim w.win d m) {root i : Nat}
    (hroot : root < 2 ^ 40) (hlow : root < 0x800 → low root) (hi : i < 512) :
    ∃ q m', m.validPointer (entryPtr (BitVec.ofNat 64 (root * 4096)) i) = some (q, m') ∧
      m'.deref q = some (slot root i) ∧ q.toNat < identityEnd ∧ WindowReady w low m' ∧ Sim w.win d m' := by
  by_cases hlt : root < 0x800
  · obtain ⟨hd, hq, -, -⟩ := (Points.low (w := w) (m := m) (hlow hlt)).entryPtr h hi
    exact ⟨_, m, validPointer_low hq, hd, hq, h, hs⟩
  · have htoNat : (entryPtr (BitVec.ofNat 64 (root * 4096)) i).toNat = slot root i := by
      rw [entryPtr_ofNat, BitVec.toNat_ofNat, slot]
      omega
    obtain ⟨m', htmp, hr, hs', hp⟩ := h.tmpMap_points hs (entryPtr (BitVec.ofNat 64 (root * 4096)) i)
    have hframe : frame (entryPtr (BitVec.ofNat 64 (root * 4096)) i) = root := by
      rw [frame, htoNat, slot]
      omega
    have hoff : entryPtr (BitVec.ofNat 64 (root * 4096)) i &&& 0xfff#64 = BitVec.ofNat 64 (8 * i) := by
      apply BitVec.eq_of_toNat_eq
      rw [low_toNat, htoNat, BitVec.toNat_ofNat, slot]
      omega
    rw [hframe] at hp
    obtain ⟨hd, hq, -, -⟩ := hp.entryPtr hr hi
    refine ⟨entryPtr tmpAddr i, m', ?_, hd, hq, hr, hs'⟩
    rw [Machine.validPointer, if_pos (by rw [htoNat, identityEnd, slot]; omega), htmp, hoff]
    rfl

/-- `get_entry` finds the entry that the walk on physical memory finds, and leaves the same words. -/
theorem WindowReady.getEntry_eq (h : WindowReady w low m) (hs : Sim w.win d m) {root : Nat}
    (hroot : root < 2 ^ 40) (hlow : root < 0x800 → low root) {flags : PageFlags} {v : Word}
    (hc : Clear w low flags v 3 d root) :
    ∃ p m', m.getEntry (BitVec.ofNat 64 (root * 4096)) flags v = some (p, m') ∧ WindowReady w low m' ∧
      Sim w.win (d.directEntry flags v 3 root).2 m' ∧ Found m' p (d.directEntry flags v 3 root).1 := by
  obtain ⟨hwin, hlow', hrest⟩ := hc
  obtain ⟨q, m1, hvalid, hd, hlt, hr1, hs1⟩ := h.root_step hs hroot hlow (lvIndex_lt v 4)
  obtain ⟨p, m', hstep, hr, hs', hu⟩ := hr1.getTableFromEntry_eq hs1 hd hlt hwin flags hlow'
  rw [← getTableFromEntry_congr hvalid hlt, ← getLvIndex_eq v 4] at hstep
  rw [getEntry_eq_entryBelow]
  refine entryBelow_succ (n := 2) hstep hr hs' hu fun u d' hd' hsim hp => hr.entryBelow_eq hsim hp ?_
  rw [hd'] at hrest
  exact hrest

lemma Found.putEntry {p e : Word} {r : Option Nat × Machine} (hf : Found m p r.1) (hs : Sim win r.2 m) :
    ∃ m', (if p ≠ 0#64 then m.store p e else some m) = some m' ∧ Sim win (Machine.putEntry r e) m' ∧
      ∀ a, r.1 = some a → m'.mem a = e := by
  obtain ⟨a, d⟩ := r
  cases a with
  | none =>
    have hp : p = 0#64 := hf
    refine ⟨m, if_neg (not_not.mpr hp), hs, fun a ha => ?_⟩
    cases ha
  | some a =>
    obtain ⟨hp, hd⟩ : p ≠ 0#64 ∧ m.deref p = some a := hf
    refine ⟨m.put a e, ?_, hs.put a e, fun b hb => ?_⟩
    · rw [if_pos hp]
      exact store_eq hd e
    · cases hb
      exact Function.update_self ..

theorem WindowReady.map_eq (h : WindowReady w low m) {root : Nat} (hroot : root < 2 ^ 40)
    (hlow : root < 0x800 → low root) {flags : PageFlags} {page : Word} (hc : Clear w low flags page 3 m root)
    (frame : Word) : ∃ m', m.map (BitVec.ofNat 64 (root * 4096)) page frame flags = some m' ∧
      Sim w.win (m.directMap root page frame flags) m' ∧
      ∀ a, (m.directEntry flags page 3 root).1 = some a → m'.mem a = frame ||| flags := by
  obtain ⟨p, m1, hget, -, hs, hf⟩ := h.getEntry_eq (.refl w.win m) hroot hlow hc
  obtain ⟨m', hm', hs'⟩ := hf.putEntry hs (e := frame ||| flags)
  refine ⟨m', ?_, hs'⟩
  rw [Machine.map]
  simp only [hget, Option.bind_eq_bind, Option.bind_some]
  exact hm'

theorem WindowReady.unmap_eq (h : WindowReady w low m) {root : Nat} (hroot : root < 2 ^ 40)
    (hlow : root < 0x800 → low root) {page : Word} (hc : Clear w low lookupOnly page 3 m root) :
    ∃ m', m.unmap (BitVec.ofNat 64 (root * 4096)) page = some m' ∧
      Sim w.win (m.directUnmap root page) m' ∧
      ∀ a, (m.directEntry lookupOnly page 3 root).1 = some a → m'.mem a = 0#64 := by
  obtain ⟨p, m1, hget, -, hs, hf⟩ := h.getEntry_eq (.refl w.win m) hroot hlow hc
  obtain ⟨m', hm', hs'⟩ := hf.putEntry hs (e := 0#64)
  refine ⟨m', ?_, hs'⟩
  rw [Machine.unmap, Machine.lookupEntry]
  simp only [hget, Option.bind_eq_bind, Option.bind_some]
  exact hm'

end

end HaiirOS
