import HaiirOS.Proofs.IoApicSpec
import HaiirOS.Proofs.MadtWalk
import Mathlib.Tactic.SplitIfs

/-!
# The initialisation of the IOAPIC driver

What `init_io_apics` does with a well-formed MADT: the IOAPICs are entered in order, every
override is entered and gets a forwarding handler, and the entries are written, which stays in
the tables as long as no pin has a GSI of 224 or more.
-/

namespace HaiirOS

namespace IoApics

open Checked

variable {H : Type}

section IoApicEntries

/-- The IOAPIC that an entry of the MADT makes known, with what its version register says. -/
def ioApicOf (regs : BitVec 32 → BitVec 8 → BitVec 32) (e : MadtEntry) : IoApic where
  addr := e.ioApic.addr
  gsiBase := e.ioApic.gsiBase
  id := e.ioApic.id
  maxEntries := (((regs e.ioApic.addr ioApicVerOffset >>> 16) + 1#32) &&& 0xff#32).setWidth 8
  version := (regs e.ioApic.addr ioApicVerOffset &&& 0xff#32).setWidth 8

/-- The IOAPICs of a list of entries. -/
def ioApicsOf (regs : BitVec 32 → BitVec 8 → BitVec 32) (es : List MadtEntry) : List IoApic :=
  (es.filter fun e => decide (e.type = madtEntryIoApic)).map (ioApicOf regs)

lemma ioApicsOf_congr {regs regs' : BitVec 32 → BitVec 8 → BitVec 32}
    (h : ∀ a, regs a ioApicVerOffset = regs' a ioApicVerOffset) : ioApicsOf regs = ioApicsOf regs' := by
  funext es
  unfold ioApicsOf ioApicOf
  simp only [h]

/-- What `get_io_apics` does with an entry. -/
def addIoApic (s : IoApics H) (e : MadtEntry) : Except Stop (IoApics H) :=
  if e.type = madtEntryIoApic then
    if s.ioapics.length < maxIoApics then
      .ok { s.writeReg e.ioApic.addr ioApicIdOffset (e.ioApic.id.setWidth 32) with
        ioapics := s.ioapics ++ [ioApicOf s.regs e] }
    else .error .outOfTable
  else .ok s

lemma getIoApics_eq {madt : Madt} {es : List MadtEntry} (h : madt.Lists es) (hne : es ≠ [])
    (hwf : ∀ e ∈ es, e.WellFormed) {fuel : Nat} (hfuel : es.length < fuel) (s : IoApics H) :
    s.getIoApics madt fuel = es.foldlM addIoApic s := by
  apply Madt.walk_lists h hne _ hfuel
  intro pre e post hes s
  have hver : (s.writeReg e.ioApic.addr ioApicIdOffset (e.ioApic.id.setWidth 32)).regs e.ioApic.addr ioApicVerOffset =
      s.regs e.ioApic.addr ioApicVerOffset := by
    have hne : ioApicVerOffset ≠ ioApicIdOffset := by decide
    simp only [writeReg, Function.update_self, Function.update_of_ne hne]
  unfold addIoApic
  by_cases ht : e.type = madtEntryIoApic
  · have he : e ∈ es := hes ▸ List.mem_append_right pre List.mem_cons_self
    have hat : madt.ioApicAt (Madt.offset pre) = .ok e.ioApic := Madt.Lists.ioApicAt (hes ▸ h) ((hwf e he).1 ht)
    rw [if_pos ht, if_pos ht, hat]
    change (if _ then _ else _) = _
    simp only [hver]
    rfl
  · rw [if_neg ht, if_neg ht]

/-- The IOAPICs are entered in order; nothing else changes but the ID registers. -/
lemma foldlM_addIoApic {es : List MadtEntry} {s s' : IoApics H} (h : es.foldlM addIoApic s = .ok s') :
    s'.ioapics = s.ioapics ++ ioApicsOf s.regs es ∧ s'.overrides = s.overrides ∧ s'.handlers = s.handlers ∧
      s'.allocated = s.allocated ∧ (s.ioapics.length ≤ maxIoApics → s'.ioapics.length ≤ maxIoApics) := by
  induction es generalizing s with
  | nil =>
    cases h
    exact ⟨(List.append_nil _).symm, rfl, rfl, rfl, id⟩
  | cons e es ih =>
    rw [List.foldlM_cons] at h
    obtain ⟨t, ht, h⟩ := bind_eq_ok.mp h
    obtain ⟨hio, hov, hha, hal, hlen⟩ := ih h
    unfold addIoApic at ht
    by_cases htype : e.type = madtEntryIoApic
    · rw [if_pos htype] at ht
      by_cases hlt : s.ioapics.length < maxIoApics
      · rw [if_pos hlt] at ht
        cases ht
        have hregs : ioApicsOf (s.writeReg e.ioApic.addr ioApicIdOffset (e.ioApic.id.setWidth 32)).regs =
            ioApicsOf s.regs := by
          apply ioApicsOf_congr
          intro a
          have hne : ioApicVerOffset ≠ ioApicIdOffset := by decide
          by_cases ha : a = e.ioApic.addr
          · subst ha
            simp only [writeReg, Function.update_self, Function.update_of_ne hne]
          · simp only [writeReg, Function.update_of_ne ha]
        refine ⟨?_, hov, hha, hal, fun _ => hlen ?_⟩
        · rw [hio]
          simp only [hregs]
          simp [ioApicsOf, htype]
        · simpa [Nat.succ_le_iff] using hlt
      · rw [if_neg hlt] at ht
        cases ht
    · rw [if_neg htype] at ht
      cases ht
      refine ⟨?_, hov, hha, hal, hlen⟩
      rw [hio]
      simp [ioApicsOf, htype]

lemma foldlM_addIoApic_ok {es : List MadtEntry} {s : IoApics H}
    (h : s.ioapics.length + (ioApicsOf s.regs es).length ≤ maxIoApics) : ∃ s', es.foldlM addIoApic s = .ok s' := by
  induction es generalizing s with
  | nil => exact ⟨s, rfl⟩
  | cons e es ih =>
    rw [List.foldlM_cons]
    have hlen (regs regs' : BitVec 32 → BitVec 8 → BitVec 32) (es : List MadtEntry) :
        (ioApicsOf regs es).length = (ioApicsOf regs' es).length := by
      unfold ioApicsOf
      rw [List.length_map, List.length_map]
    by_cases htype : e.type = madtEntryIoApic
    · have hcons : (ioApicsOf s.regs (e :: es)).length = (ioApicsOf s.regs es).length + 1 := by
        simp [ioApicsOf, htype]
      rw [hcons] at h
      have hlt : s.ioapics.length < maxIoApics := by omega
      rw [addIoApic, if_pos htype, if_pos hlt]
      apply ih
      rw [hlen _ s.regs, List.length_append, List.length_singleton]
      omega
    · have hcons : ioApicsOf s.regs (e :: es) = ioApicsOf s.regs es := by simp [ioApicsOf, htype]
      rw [hcons] at h
      rw [addIoApic, if_neg htype]
      exact ih h

end IoApicEntries

section Entries

lemma reserve_eq (s : IoApics H) (v : BitVec 8) : s.reserveIoInterrupt v =
    if v.toNat < ioVectorCount then .ok { s with allocated := Function.update s.allocated v.toNat true }
    else .error .outOfTable := by
  unfold reserveIoInterrupt isAllocated setAllocated
  by_cases h : v.toNat < ioVectorCount
  · rw [if_pos h, if_pos h]
    rfl
  · rw [if_neg h, if_neg h]
    rfl

/-- The GSI of a pin, as `init_io_apics` counts it. -/
def pinGsi (ioapic : IoApic) (k : Nat) : BitVec 8 := ioapic.gsiBase.setWidth 8 + BitVec.ofNat 8 k

/-- No pin of the IOAPIC has a GSI at or above `IO_VECTOR_COUNT`. -/
def PinsFit (ioapic : IoApic) : Prop := ∀ k < ioapic.maxEntries.toNat, (pinGsi ioapic k).toNat < ioVectorCount

/-- Both tables that the override entries and the drivers use are as before. -/
structure SameTables (s t : IoApics H) : Prop where
  ioapics : t.ioapics = s.ioapics
  overrides : t.overrides = s.overrides
  handlers : t.handlers = s.handlers

lemma SameTables.refl (s : IoApics H) : SameTables s s := ⟨rfl, rfl, rfl⟩

lemma SameTables.trans {s t u : IoApics H} (h : SameTables s t) (h' : SameTables t u) : SameTables s u :=
  ⟨h'.ioapics.trans h.ioapics, h'.overrides.trans h.overrides, h'.handlers.trans h.handlers⟩

lemma initEntry_ok_iff (s : IoApics H) (localApicId : BitVec 8) (ioapic : IoApic) (k : Nat) (t : IoApics H) :
    (s.writeEntry ioapic (BitVec.ofNat 8 k) (s.initialEntry localApicId (pinGsi ioapic k))).reserveIoInterrupt
        (pinGsi ioapic k) = .ok t ↔
      (pinGsi ioapic k).toNat < ioVectorCount ∧
      t = { s.writeEntry ioapic (BitVec.ofNat 8 k) (s.initialEntry localApicId (pinGsi ioapic k)) with
        allocated := Function.update s.allocated (pinGsi ioapic k).toNat true } := by
  rw [reserve_eq]
  by_cases h : (pinGsi ioapic k).toNat < ioVectorCount
  · rw [if_pos h]
    constructor
    · intro heq
      cases heq
      exact ⟨h, rfl⟩
    · rintro ⟨-, rfl⟩
      rfl
  · rw [if_neg h]
    constructor
    · intro heq
      cases heq
    · rintro ⟨hlt, -⟩
      exact absurd hlt h

lemma initEntries_sameTables {s s' : IoApics H} {localApicId : BitVec 8} {ioapic : IoApic}
    (h : s.initEntries localApicId ioapic = .ok s') : SameTables s s' := by
  apply foldlM_invariant (SameTables s) (.refl s) _ h
  intro k _ t t' ht hstep
  obtain ⟨-, rfl⟩ := (initEntry_ok_iff t localApicId ioapic k t').mp hstep
  exact ⟨ht.ioapics, ht.overrides, ht.handlers⟩

lemma initEntries_ok_iff (s : IoApics H) (localApicId : BitVec 8) (ioapic : IoApic) :
    (∃ s', s.initEntries localApicId ioapic = .ok s') ↔ PinsFit ioapic := by
  have hiff := foldlM_ok_iff (ε := Stop) (l := List.range ioapic.maxEntries.toNat) (s := s)
    (p := fun k => (pinGsi ioapic k).toNat < ioVectorCount) (f := fun s k =>
      (s.writeEntry ioapic (BitVec.ofNat 8 k) (s.initialEntry localApicId (pinGsi ioapic k))).reserveIoInterrupt
        (pinGsi ioapic k)) (fun _ => True) trivial
    (fun k _ t _ hk => ⟨_, (initEntry_ok_iff t localApicId ioapic k _).mpr ⟨hk, rfl⟩, trivial⟩)
    (fun k _ t t' _ h => ((initEntry_ok_iff t localApicId ioapic k t').mp h).1)
  unfold PinsFit initEntries
  simp only [List.mem_range] at hiff
  exact hiff

/-- The loop of `init_io_apics` returns exactly if all pins fit, and leaves the tables. -/
lemma foldlM_initEntries_ok_iff (s : IoApics H) (localApicId : BitVec 8) (l : List IoApic) :
    (∃ s', l.foldlM (fun s ioapic => s.initEntries localApicId ioapic) s = .ok s') ↔ ∀ ioapic ∈ l, PinsFit ioapic := by
  apply foldlM_ok_iff (fun _ => True) trivial
  · intro ioapic _ t _ hp
    obtain ⟨t', ht⟩ := (t.initEntries_ok_iff localApicId ioapic).mpr hp
    exact ⟨t', ht, trivial⟩
  · intro ioapic _ t t' _ h
    exact (t.initEntries_ok_iff localApicId ioapic).mp ⟨t', h⟩

lemma foldlM_initEntries_sameTables {s s' : IoApics H} {localApicId : BitVec 8} {l : List IoApic}
    (h : l.foldlM (fun s ioapic => s.initEntries localApicId ioapic) s = .ok s') : SameTables s s' :=
  foldlM_invariant (SameTables s) (.refl s) (fun _ _ _ _ ht hstep => ht.trans (initEntries_sameTables hstep)) h

lemma overrideEntry_mask (s : IoApics H) (entry : BitVec 64) (srcIrq : BitVec 8) :
    (s.overrideEntry entry srcIrq).getLsbD 16 = entry.getLsbD 16 := by
  unfold overrideEntry
  cases s.overrides srcIrq with
  | none => rfl
  | some o =>
    simp only
    split_ifs <;> simp

lemma initialEntry_mask (s : IoApics H) (localApicId gsi : BitVec 8) :
    (s.initialEntry localApicId gsi).getLsbD 16 = true := by
  have hmask : ioApicMasked.getLsbD 16 = true := by decide
  unfold initialEntry
  simp only
  split_ifs
  · simp only [BitVec.getLsbD_or, hmask, Bool.or_true, Bool.true_or]
  · simp only [overrideEntry_mask, BitVec.getLsbD_or, hmask, Bool.or_true, Bool.true_or]
  · simp only [BitVec.getLsbD_or, hmask, Bool.or_true, Bool.true_or]

lemma writeEntry_mask (s : IoApics H) (ioapic : IoApic) (idx j : BitVec 8) {entry : BitVec 64}
    (he : entry.getLsbD 16 = true) (a : BitVec 32) :
    ((s.writeEntry ioapic idx entry).regs a (ioApicRedtblOffset j)).getLsbD 16 = true ↔
      (a = ioapic.addr ∧ ioApicRedtblOffset j = ioApicRedtblOffset idx) ∨
        (s.regs a (ioApicRedtblOffset j)).getLsbD 16 = true := by
  unfold writeEntry
  rw [writeReg_regs, if_neg fun h => redtbl_ne_high idx j h.2.symm, writeReg_regs]
  by_cases h : a = ioapic.addr ∧ ioApicRedtblOffset j = ioApicRedtblOffset idx
  · rw [if_pos h, BitVec.getLsbD_setWidth, he]
    simp [h]
  · rw [if_neg h]
    simp [h]

/-- After the loop of `init_io_apics` every entry of every IOAPIC is masked. -/
lemma foldlM_initEntries_masked {s s' : IoApics H} {localApicId : BitVec 8} {l : List IoApic}
    (h : l.foldlM (fun s ioapic => s.initEntries localApicId ioapic) s = .ok s') {ioapic : IoApic} (hio : ioapic ∈ l)
    {k : Nat} (hk : k < ioapic.maxEntries.toNat) :
    (s'.regs ioapic.addr (ioApicRedtblOffset (BitVec.ofNat 8 k))).getLsbD 16 = true := by
  have hwrite (t t' : IoApics H) (b : IoApic) (i : Nat)
      (hi : (t.writeEntry b (BitVec.ofNat 8 i) (t.initialEntry localApicId (pinGsi b i))).reserveIoInterrupt
        (pinGsi b i) = .ok t') :
      (t'.regs ioapic.addr (ioApicRedtblOffset (BitVec.ofNat 8 k))).getLsbD 16 = true ↔
        (ioapic.addr = b.addr ∧ ioApicRedtblOffset (BitVec.ofNat 8 k) = ioApicRedtblOffset (BitVec.ofNat 8 i)) ∨
          (t.regs ioapic.addr (ioApicRedtblOffset (BitVec.ofNat 8 k))).getLsbD 16 = true := by
    obtain ⟨-, rfl⟩ := (initEntry_ok_iff t localApicId b i t').mp hi
    exact t.writeEntry_mask b (BitVec.ofNat 8 i) (BitVec.ofNat 8 k) (t.initialEntry_mask localApicId _) ioapic.addr
  let P (t : IoApics H) : Prop := (t.regs ioapic.addr (ioApicRedtblOffset (BitVec.ofNat 8 k))).getLsbD 16 = true
  apply foldlM_establish P hio _ _ h
  · intro t t' ht
    apply foldlM_establish P (List.mem_range.mpr hk) _ _ ht
    · intro u u' hu
      exact (hwrite u u' ioapic k hu).mpr (.inl ⟨rfl, rfl⟩)
    · intro i _ u u' hP hu
      exact (hwrite u u' ioapic i hu).mpr (.inr hP)
  · intro b _ t t' hP ht
    apply foldlM_invariant P hP _ ht
    intro i _ u u' hP hu
    exact (hwrite u u' b i hu).mpr (.inr hP)

lemma initIoApics_mono {s s' : IoApics H} {madt : Madt} {localApicId : BitVec 8} {fuel fuel' : Nat}
    (h : s.initIoApics madt localApicId fuel = .ok s') (hle : fuel ≤ fuel') :
    s.initIoApics madt localApicId fuel' = .ok s' := by
  obtain ⟨t, ht, h⟩ := bind_eq_ok.mp h
  obtain ⟨u, hu, h⟩ := bind_eq_ok.mp h
  have ht' : s.getIoApics madt fuel' = .ok t := Madt.walk_mono ht hle
  have hu' : t.initOverrides madt fuel' = .ok u := Madt.walk_mono hu hle
  rw [initIoApics, ht']
  change (t.initOverrides madt fuel' >>= _) = _
  rw [hu']
  exact h

end Entries

section Overrides

/-- Only forwarding handlers are in the slots, and overrides are of and to ISA interrupts. -/
structure Forwards (s : IoApics H) : Prop where
  handlers : ∀ v h, (s.handlers v).func ≠ some (.driver h)
  overrides : ∀ r o, s.overrides r = some o → o.globalSystemInt.toNat < isaInterruptCount

lemma SameTables.forwards {s t : IoApics H} (h : SameTables s t) (hs : Forwards s) : Forwards t := by
  constructor
  · rw [h.handlers]
    exact hs.handlers
  · rw [h.overrides]
    exact hs.overrides

lemma getIoApics_tables {s s' : IoApics H} {madt : Madt} {fuel : Nat} (h : s.getIoApics madt fuel = .ok s') :
    s'.overrides = s.overrides ∧ s'.handlers = s.handlers := by
  apply Madt.walk_invariant (fun t => t.overrides = s.overrides ∧ t.handlers = s.handlers) ⟨rfl, rfl⟩ _ h
  intro type i t t' ht hvisit
  by_cases htype : type = madtEntryIoApic
  · rw [if_pos htype] at hvisit
    obtain ⟨ioapic, -, hvisit⟩ := bind_eq_ok.mp hvisit
    by_cases hlen : t.ioapics.length < maxIoApics
    · obtain rfl := Except.ok.inj ((if_pos hlen).symm.trans hvisit)
      exact ht
    · have hnot := (if_neg hlen).symm.trans hvisit
      cases hnot
  · rw [if_neg htype] at hvisit
    cases hvisit
    exact ht

lemma initOverrides_forwards {s s' : IoApics H} {madt : Madt} {fuel : Nat} (hs : Forwards s)
    (h : s.initOverrides madt fuel = .ok s') : Forwards s' ∧ s'.ioapics = s.ioapics := by
  apply Madt.walk_invariant (fun t => Forwards t ∧ t.ioapics = s.ioapics) ⟨hs, rfl⟩ _ h
  intro type i t t' ht hvisit
  obtain ⟨hf, hio⟩ := ht
  by_cases htype : type = madtEntryIntSrcOverride
  · rw [if_pos htype] at hvisit
    obtain ⟨o, -, hvisit⟩ := bind_eq_ok.mp hvisit
    by_cases hg : o.globalSystemInt.toNat ≥ isaInterruptCount
    · rw [if_pos hg] at hvisit
      cases hvisit
      exact ⟨hf, hio⟩
    · rw [if_neg hg] at hvisit
      by_cases hr : o.irqSrc.toNat ≥ isaInterruptCount
      · rw [if_pos hr] at hvisit
        cases hvisit
      · rw [if_neg hr] at hvisit
        obtain ⟨⟨r, u⟩, hu, hvisit⟩ := bind_eq_ok.mp hvisit
        cases hvisit
        have hov : ∀ q p, Function.update t.overrides o.irqSrc (some o) q = some p →
            p.globalSystemInt.toNat < isaInterruptCount := by
          intro q p hp
          by_cases hq : q = o.irqSrc
          · subst hq
            rw [Function.update_self] at hp
            cases hp
            exact Nat.lt_of_not_le hg
          · rw [Function.update_of_ne hq] at hp
            exact hf.overrides q p hp
        obtain ⟨-, rfl, -⟩ | ⟨-, -, -, ioapic, -, rfl⟩ := install_cases hu
        · exact ⟨⟨hf.handlers, hov⟩, hio⟩
        · refine ⟨⟨?_, hov⟩, hio⟩
          intro v h
          change (Function.update t.handlers _ _ v).func ≠ _
          by_cases hv : v = o.globalSystemInt.setWidth 8
          · subst hv
            simp
          · rw [Function.update_of_ne hv]
            exact hf.handlers v h
  · rw [if_neg htype] at hvisit
    cases hvisit
    exact ⟨hf, hio⟩

/-- After `init_io_apics` there are forwarding handlers only, and all entries are masked. -/
theorem initIoApics_start {s : IoApics H} {regs : BitVec 32 → BitVec 8 → BitVec 32} {madt : Madt}
    {localApicId : BitVec 8} {fuel : Nat} (h : (blank regs).initIoApics madt localApicId fuel = .ok s) :
    Forwards s ∧ ∀ ioapic ∈ s.ioapics, ∀ k < ioapic.maxEntries.toNat,
      (s.regs ioapic.addr (ioApicRedtblOffset (BitVec.ofNat 8 k))).getLsbD 16 = true := by
  obtain ⟨t, ht, h⟩ := bind_eq_ok.mp h
  obtain ⟨u, hu, h⟩ := bind_eq_ok.mp h
  obtain ⟨hov, hha⟩ := getIoApics_tables ht
  have hblank : Forwards t := by
    constructor
    · intro v h
      rw [hha]
      exact Option.some_ne_none _ ∘ Eq.symm
    · intro r o ho
      rw [hov] at ho
      cases ho
  obtain ⟨hfu, -⟩ := initOverrides_forwards hblank hu
  have hsame := foldlM_initEntries_sameTables h
  refine ⟨hsame.forwards hfu, fun ioapic hio k hk => ?_⟩
  rw [hsame.ioapics] at hio
  exact foldlM_initEntries_masked h hio hk

end Overrides

section Pc

/-- A PC's table: one IOAPIC for GSIs 0 to 23, the timer's override 0 to 2, and an override of IRQ 9 to
itself that gives its trigger mode. -/
def pcEntries : List MadtEntry :=
  [⟨madtEntryIoApic, [0#8, 0#8, 0#8, 0#8, 0xc0#8, 0xfe#8, 0#8, 0#8, 0#8, 0#8], by decide⟩,
    ⟨madtEntryIntSrcOverride, [0#8, 0#8, 2#8, 0#8, 0#8, 0#8, 0#8, 0#8], by decide⟩,
    ⟨madtEntryIntSrcOverride, [0#8, 9#8, 9#8, 0#8, 0#8, 0#8, 0xd#8, 0#8], by decide⟩]

def pcMadt : Madt := ⟨pcEntries.flatMap MadtEntry.bytes, by decide⟩

/-- The version registers say 24 entries. -/
def pcRegs : BitVec 32 → BitVec 8 → BitVec 32 := fun _ offset => if offset = 1#8 then 0x170011#32 else 0#32

/-- The tables after `init_io_apics` on the PC. -/
@[irreducible] def pcState : IoApics Unit :=
  match (blank pcRegs).initIoApics pcMadt 0#8 4 with
  | .ok s => s
  | .error _ => blank pcRegs

lemma pcState_eq : (blank pcRegs).initIoApics pcMadt 0#8 4 = .ok pcState := by
  have hok : ((blank pcRegs : IoApics Unit).initIoApics pcMadt 0#8 4).toBool = true := by decide +kernel
  unfold pcState
  cases h : (blank pcRegs : IoApics Unit).initIoApics pcMadt 0#8 4 with
  | ok s => rfl
  | error e =>
    rw [h] at hok
    cases hok

end Pc

end IoApics

end HaiirOS
