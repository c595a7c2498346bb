import HaiirOS.Proofs.IoApicInit

/-!
# Routing of the ISA interrupts

An override of the MADT becomes a forwarding handler at its GSI, in the table in which the drivers
install theirs. Dispatch follows the forwarding handlers to the slot of the overridden IRQ; only an
override of an IRQ to itself occupies the slot that it forwards to.
-/

namespace HaiirOS

namespace IoApics

open Checked

variable {H : Type}

/-- The overrides of a list of entries. -/
def overridesOf (es : List MadtEntry) : List MadtOverride :=
  (es.filter fun e => decide (e.type = madtEntryIntSrcOverride)).map MadtEntry.override

/-- What `init_overrides` does with an override. -/
def addOverride (s : IoApics H) (o : MadtOverride) : Except Stop (IoApics H) :=
  if o.globalSystemInt.toNat ≥ isaInterruptCount then .ok s
  else if o.irqSrc.toNat ≥ isaInterruptCount then .error .outOfTable
  else do
    let s := { s with overrides := Function.update s.overrides o.irqSrc (some o) }
    let (_, s) ← s.installIoInterruptHandler (o.globalSystemInt.setWidth 8) (some .ioHandlerSourceOverride)
      (o.irqSrc.setWidth 64)
    return s

lemma initOverrides_eq {madt : Madt} {es : List MadtEntry} (h : madt.Lists es) (hne : es ≠ [])
    (hwf : ∀ e ∈ es, e.WellFormed) {fuel : Nat} (hfuel : es.length < fuel) (s : IoApics H) :
    s.initOverrides madt fuel = (overridesOf es).foldlM addOverride s := by
  unfold overridesOf
  rw [List.foldlM_map, List.foldlM_filter]
  apply Madt.walk_lists h hne _ hfuel
  intro pre e post hes s
  by_cases ht : e.type = madtEntryIntSrcOverride
  · have he : e ∈ es := hes ▸ List.mem_append_right pre List.mem_cons_self
    have hat : madt.overrideAt (Madt.offset pre) = .ok e.override := Madt.Lists.overrideAt (hes ▸ h) ((hwf e he).2 ht)
    rw [if_pos ht, if_pos (decide_eq_true ht), hat]
    rfl
  · rw [if_neg ht, if_neg (by simpa using ht)]
    rfl

/-- The override of an IRQ to a GSI, and the forwarding handler for it. -/
def forwarder (o : MadtOverride) : IoHandler H :=
  ⟨some .ioHandlerSourceOverride, o.irqSrc.setWidth 64, o.globalSystemInt.setWidth 8⟩

/-- The tables hold these overrides and their forwarding handlers, and nothing else. -/
structure Routed (s : IoApics H) (os : List MadtOverride) : Prop where
  override : ∀ o ∈ os, s.overrides o.irqSrc = some o
  noOverride : ∀ r, (∀ o ∈ os, o.irqSrc ≠ r) → s.overrides r = none
  handler : ∀ o ∈ os, s.handlers (o.globalSystemInt.setWidth 8) = forwarder o
  noHandler : ∀ v, (∀ o ∈ os, o.globalSystemInt.setWidth 8 ≠ v) → s.handlers v = emptyHandler

lemma SameTables.routed {s t : IoApics H} (h : SameTables s t) {os : List MadtOverride} (hs : Routed s os) :
    Routed t os := by
  constructor
  · rw [h.overrides]
    exact hs.override
  · rw [h.overrides]
    exact hs.noOverride
  · rw [h.handlers]
    exact hs.handler
  · rw [h.handlers]
    exact hs.noHandler

/-- The source and the target of an override are ISA interrupts. -/
def IsIsa (o : MadtOverride) : Prop := o.irqSrc.toNat < isaInterruptCount ∧ o.globalSystemInt.toNat < isaInterruptCount

lemma gsi_toNat {o : MadtOverride} (h : IsIsa o) :
    (o.globalSystemInt.setWidth 8).toNat = o.globalSystemInt.toNat := by
  have hlt := h.2
  have hcount : isaInterruptCount = 16 := rfl
  rw [BitVec.toNat_setWidth]
  omega

lemma gsi_ne {o p : MadtOverride} (ho : IsIsa o) (hp : IsIsa p) (h : o.globalSystemInt ≠ p.globalSystemInt) :
    o.globalSystemInt.setWidth 8 ≠ p.globalSystemInt.setWidth 8 := by
  intro heq
  have hnat := congrArg BitVec.toNat heq
  rw [gsi_toNat ho, gsi_toNat hp] at hnat
  exact h (BitVec.eq_of_toNat_eq hnat)

/-- The tables with an override written down whose line is not installed yet. -/
def setOverride (s : IoApics H) (o : MadtOverride) : IoApics H :=
  { s with overrides := Function.update s.overrides o.irqSrc (some o) }

lemma addOverride_eq (s : IoApics H) {o : MadtOverride} (ho : IsIsa o) : addOverride s o =
    ((setOverride s o).installIoInterruptHandler (o.globalSystemInt.setWidth 8) (some .ioHandlerSourceOverride)
      (o.irqSrc.setWidth 64)).map Prod.snd := by
  rw [addOverride, if_neg (Nat.not_le.mpr ho.2), if_neg (Nat.not_le.mpr ho.1)]
  change ((setOverride s o).installIoInterruptHandler _ (some .ioHandlerSourceOverride) _ >>= fun r => pure r.2) = _
  cases (setOverride s o).installIoInterruptHandler (o.globalSystemInt.setWidth 8) (some .ioHandlerSourceOverride)
    (o.irqSrc.setWidth 64) <;> rfl

namespace Routed

variable {s : IoApics H} {os : List MadtOverride} {o : MadtOverride}

/-- The line of an override is wired to an ISA interrupt. -/
lemma wired_isa (hs : Routed s os) (hos : ∀ p ∈ os, IsIsa p) (ho : IsIsa o) :
    ((setOverride s o).wired (o.globalSystemInt.setWidth 8)).toNat < isaInterruptCount := by
  unfold wired
  rw [if_pos (by rw [gsi_toNat ho]; exact ho.2)]
  by_cases heq : o.globalSystemInt.setWidth 8 = o.irqSrc
  · have hov : (setOverride s o).overrides (o.globalSystemInt.setWidth 8) = some o := by
      rw [heq]
      exact Function.update_self ..
    rw [hov, gsi_toNat ho]
    exact ho.2
  · have hov : (setOverride s o).overrides (o.globalSystemInt.setWidth 8) = s.overrides (o.globalSystemInt.setWidth 8) :=
      Function.update_of_ne heq ..
    rw [hov]
    by_cases hp : ∃ p ∈ os, p.irqSrc = o.globalSystemInt.setWidth 8
    · obtain ⟨p, hp, hsrc⟩ := hp
      rw [← hsrc, hs.override p hp, gsi_toNat (hos p hp)]
      exact (hos p hp).2
    · push Not at hp
      rw [hs.noOverride _ hp, gsi_toNat ho]
      exact ho.2

/-- An override with a new source and a new line, and its handler. -/
lemma installed (hs : Routed s os) (hsrc : ∀ p ∈ os, p.irqSrc ≠ o.irqSrc)
    (hnew : ∀ p ∈ os, p.globalSystemInt.setWidth 8 ≠ o.globalSystemInt.setWidth 8) (ioapic : IoApic) (g : BitVec 8) :
    Routed (((setOverride s o).setHandler (o.globalSystemInt.setWidth 8) (forwarder o)).unmask ioapic g) (os ++ [o]) := by
  constructor
  · intro p hp
    rcases List.mem_append.mp hp with hp | hp
    · exact (Function.update_of_ne (hsrc p hp) _ _).trans (hs.override p hp)
    · obtain rfl := List.mem_singleton.mp hp
      exact Function.update_self ..
  · intro r hr
    have hne := hr o (List.mem_append_right os (List.mem_singleton_self o))
    have hold := hs.noOverride r fun p hp => hr p (List.mem_append_left _ hp)
    exact (Function.update_of_ne hne.symm _ _).trans hold
  · intro p hp
    rcases List.mem_append.mp hp with hp | hp
    · exact (Function.update_of_ne (hnew p hp) _ _).trans (hs.handler p hp)
    · obtain rfl := List.mem_singleton.mp hp
      exact Function.update_self ..
  · intro v hv
    have hne := hv o (List.mem_append_right os (List.mem_singleton_self o))
    have hold := hs.noHandler v fun p hp => hv p (List.mem_append_left _ hp)
    exact (Function.update_of_ne hne.symm _ _).trans hold

end Routed

lemma addOverride_routed {s : IoApics H} {os : List MadtOverride} {o : MadtOverride} (hs : Routed s os)
    (hcov : s.Covered) (hos : ∀ p ∈ os, IsIsa p) (ho : IsIsa o) (hsrc : ∀ p ∈ os, p.irqSrc ≠ o.irqSrc)
    (hgsi : ∀ p ∈ os, p.globalSystemInt ≠ o.globalSystemInt) :
    ∃ s', addOverride s o = .ok s' ∧ Routed s' (os ++ [o]) ∧ s'.ioapics = s.ioapics := by
  have hnew (p : MadtOverride) (hp : p ∈ os) := gsi_ne (hos p hp) ho (hgsi p hp)
  have hslot : (setOverride s o).handlers (o.globalSystemInt.setWidth 8) = emptyHandler := hs.noHandler _ hnew
  have hempty : (setOverride s o).SlotEmpty (o.globalSystemInt.setWidth 8) := by
    unfold SlotEmpty
    rw [hslot]
    exact ⟨rfl, rfl, rfl⟩
  obtain ⟨ioapic, hio⟩ := Option.isSome_iff_exists.mp ((hcov.congr (t := setOverride s o) rfl) _ (hs.wired_isa hos ho))
  have hv : (o.globalSystemInt.setWidth 8).toNat < ioVectorCount := by
    have hlt : o.globalSystemInt.toNat < 16 := ho.2
    have hvec : ioVectorCount = 224 := rfl
    rw [gsi_toNat ho]
    omega
  refine ⟨_, ?_, hs.installed hsrc hnew ioapic ((setOverride s o).wired (o.globalSystemInt.setWidth 8)), rfl⟩
  rw [addOverride_eq s ho, install_empty (some .ioHandlerSourceOverride) (o.irqSrc.setWidth 64) hv hempty hio]
  rfl

lemma foldlM_addOverride {os pre : List MadtOverride} {s : IoApics H} (hs : Routed s pre) (hcov : s.Covered)
    (hisa : ∀ o ∈ pre ++ os, IsIsa o) (hsrc : ((pre ++ os).map MadtOverride.irqSrc).Nodup)
    (hgsi : ((pre ++ os).map MadtOverride.globalSystemInt).Nodup) :
    ∃ s', os.foldlM addOverride s = .ok s' ∧ Routed s' (pre ++ os) ∧ s'.ioapics = s.ioapics := by
  induction os generalizing pre s with
  | nil => exact ⟨s, rfl, by rwa [List.append_nil], rfl⟩
  | cons o os ih =>
    have happ : pre ++ o :: os = pre ++ [o] ++ os := by rw [List.append_assoc, List.singleton_append]
    have hne {β : Type} (f : MadtOverride → β) (h : ((pre ++ o :: os).map f).Nodup) : ∀ p ∈ pre, f p ≠ f o := by
      intro p hp heq
      rw [List.map_append, List.map_cons] at h
      have hdisjoint := (List.nodup_append.mp h).2.2
      exact hdisjoint _ (List.mem_map_of_mem hp) _ List.mem_cons_self heq
    obtain ⟨t, ht, hrouted, hio⟩ := addOverride_routed hs hcov (fun p hp => hisa p (List.mem_append_left _ hp))
      (hisa o (List.mem_append_right pre List.mem_cons_self)) (hne _ hsrc) (hne _ hgsi)
    rw [happ] at hisa hsrc hgsi ⊢
    obtain ⟨s', hs', hrouted', hio'⟩ := ih hrouted (hcov.congr hio) hisa hsrc hgsi
    exact ⟨s', by rw [List.foldlM_cons, ht]; exact hs', hrouted', hio'.trans hio⟩

section Drivers

/-- A driver's call of `install_io_interrupt_handler`. -/
structure DriverCall (H : Type) where
  irq : BitVec 8
  handler : H
  data : BitVec 64

/-- The drivers' calls in order; the result says if all of them succeeded. -/
def installAll (s : IoApics H) : List (DriverCall H) → Except Stop (Bool × IoApics H)
  | [] => .ok (true, s)
  | c :: cs => do
    let (b, s) ← s.installIoInterruptHandler c.irq (some (.driver c.handler)) c.data
    let (bs, s) ← s.installAll cs
    return (b && bs, s)

/-- The slot that a driver's call fills. -/
def driverSlot (c : DriverCall H) : IoHandler H := ⟨some (.driver c.handler), c.data, c.irq⟩

/-- Calls that all succeed fill the slots of their IRQs and leave all others; the slots were empty. -/
lemma installAll_ok {cs : List (DriverCall H)} {s s' : IoApics H} (h : s.installAll cs = .ok (true, s'))
    (hnodup : (cs.map DriverCall.irq).Nodup) :
    (∀ c ∈ cs, s.SlotEmpty c.irq ∧ s'.handlers c.irq = driverSlot c) ∧
      (∀ v, (∀ c ∈ cs, c.irq ≠ v) → s'.handlers v = s.handlers v) := by
  induction cs generalizing s with
  | nil =>
    cases h
    exact ⟨fun c hc => absurd hc List.not_mem_nil, fun _ _ => rfl⟩
  | cons c cs ih =>
    rw [List.map_cons, List.nodup_cons] at hnodup
    obtain ⟨⟨b, t⟩, ht, h⟩ := bind_eq_ok.mp h
    obtain ⟨⟨bs, u⟩, hu, h⟩ := bind_eq_ok.mp h
    obtain ⟨hb, rfl⟩ := Prod.mk.inj (Except.ok.inj h)
    obtain ⟨rfl, rfl⟩ := Bool.and_eq_true_iff.mp hb
    obtain ⟨hr, -⟩ | ⟨-, hv, hempty, ioapic, hio, rfl⟩ := install_cases ht
    · cases hr
    obtain ⟨hslots, hothers⟩ := ih hu hnodup.2
    have hne (d : DriverCall H) (hd : d ∈ cs) : d.irq ≠ c.irq :=
      fun heq => hnodup.1 (heq ▸ List.mem_map_of_mem hd)
    have hkeep (v : BitVec 8) (hvc : v ≠ c.irq) :
        ((s.setHandler c.irq (driverSlot c)).unmask ioapic (s.wired c.irq)).handlers v = s.handlers v :=
      Function.update_of_ne hvc ..
    constructor
    · intro d hd
      rcases List.mem_cons.mp hd with rfl | hd
      · refine ⟨hempty, (hothers _ fun e he => hne e he).trans ?_⟩
        exact Function.update_self ..
      · obtain ⟨hd1, hd2⟩ := hslots d hd
        refine ⟨?_, hd2⟩
        have hslot := hkeep d.irq (hne d hd)
        unfold SlotEmpty at hd1 ⊢
        rw [← hslot]
        exact hd1
    · intro v hv
      exact (hothers v fun d hd => hv d (List.mem_cons_of_mem c hd)).trans (hkeep v (hv c List.mem_cons_self).symm)

lemma installAll_succeeds {cs : List (DriverCall H)} {s : IoApics H} (hnodup : (cs.map DriverCall.irq).Nodup)
    (hslot : ∀ c ∈ cs, c.irq.toNat < ioVectorCount ∧ s.SlotEmpty c.irq ∧ (s.getIoApic (s.wired c.irq)).isSome) :
    ∃ s', s.installAll cs = .ok (true, s') := by
  induction cs generalizing s with
  | nil => exact ⟨s, rfl⟩
  | cons c cs ih =>
    rw [List.map_cons, List.nodup_cons] at hnodup
    obtain ⟨hv, hempty, hio⟩ := hslot c List.mem_cons_self
    obtain ⟨ioapic, hio⟩ := Option.isSome_iff_exists.mp hio
    have hinstall := install_empty (some (.driver c.handler)) c.data hv hempty hio
    have hrest : ∀ d ∈ cs, d.irq.toNat < ioVectorCount ∧
        ((s.setHandler c.irq (driverSlot c)).unmask ioapic (s.wired c.irq)).SlotEmpty d.irq ∧
        (((s.setHandler c.irq (driverSlot c)).unmask ioapic (s.wired c.irq)).getIoApic
          (((s.setHandler c.irq (driverSlot c)).unmask ioapic (s.wired c.irq)).wired d.irq)).isSome := by
      intro d hd
      obtain ⟨hdv, hdempty, hdio⟩ := hslot d (List.mem_cons_of_mem c hd)
      have hne : d.irq ≠ c.irq := fun heq => hnodup.1 (heq ▸ List.mem_map_of_mem hd)
      have hkeep : ((s.setHandler c.irq (driverSlot c)).unmask ioapic (s.wired c.irq)).handlers d.irq =
          s.handlers d.irq := Function.update_of_ne hne ..
      refine ⟨hdv, ?_, hdio⟩
      unfold SlotEmpty at hdempty ⊢
      rw [hkeep]
      exact hdempty
    obtain ⟨s', hs'⟩ := ih hnodup.2 hrest
    refine ⟨s', ?_⟩
    change (s.installIoInterruptHandler _ _ _ >>= _) = _
    rw [hinstall]
    change (IoApics.installAll _ cs >>= _) = _
    have hagain : ((s.setHandler c.irq ⟨some (.driver c.handler), c.data, c.irq⟩).unmask ioapic (s.wired c.irq)).installAll
        cs = .ok (true, s') := hs'
    rw [hagain]
    rfl

end Drivers

section Delivery

/-- The GSI that the overrides wire an IRQ to. -/
def gsiOf (os : List MadtOverride) (irq : BitVec 8) : BitVec 8 :=
  match os.find? fun o => decide (o.irqSrc = irq) with
  | some o => o.globalSystemInt.setWidth 8
  | none => irq

/-- A well-formed table whose overrides of ISA interrupts have distinct sources and distinct targets,
with an IOAPIC for each ISA interrupt's GSI. -/
structure IsaTable (madt : Madt) (es : List MadtEntry) (regs : BitVec 32 → BitVec 8 → BitVec 32) : Prop where
  lists : madt.Lists es
  wellFormed : ∀ e ∈ es, e.WellFormed
  isa : ∀ o ∈ overridesOf es, IsIsa o
  sources : ((overridesOf es).map MadtOverride.irqSrc).Nodup
  targets : ((overridesOf es).map MadtOverride.globalSystemInt).Nodup
  covered : ∀ g : BitVec 8, g.toNat < isaInterruptCount → ∃ ioapic ∈ ioApicsOf regs es,
    ioapic.gsiBase ≤ g.setWidth 32 ∧ g.setWidth 32 < ioapic.maxEntries.setWidth 32 + ioapic.gsiBase

/-- The drivers' calls after `init_io_apics` succeed, and an interrupt on the line of each of their IRQs
runs its handler once. -/
def Delivered (madt : Madt) (es : List MadtEntry) (regs : BitVec 32 → BitVec 8 → BitVec 32) (localApicId : BitVec 8)
    (cs : List (DriverCall H)) : Prop :=
  ∃ fuel s t, (blank regs : IoApics H).initIoApics madt localApicId fuel = .ok s ∧ s.installAll cs = .ok (true, t) ∧
    ∀ c ∈ cs, ∃ fuel, t.apicInterruptHandler fuel (interruptBase + gsiOf (overridesOf es) c.irq) =
      .ok [.call c.handler c.data, .eoi]

variable {madt : Madt} {es : List MadtEntry} {regs : BitVec 32 → BitVec 8 → BitVec 32}

lemma IsaTable.ne_nil (h : IsaTable madt es regs) : es ≠ [] := by
  rintro rfl
  obtain ⟨ioapic, hmem, -⟩ := h.covered 0#8 (by decide)
  exact absurd hmem List.not_mem_nil

/-- The tables after the walks over the MADT. -/
lemma IsaTable.overrides_entered (h : IsaTable madt es regs) {s : IoApics H} {fuel : Nat} (hfuel : es.length < fuel)
    (hs : (blank regs : IoApics H).getIoApics madt fuel = .ok s) :
    s.ioapics = ioApicsOf regs es ∧ s.ioapics.length ≤ maxIoApics ∧ s.Covered ∧
      ∃ t, s.initOverrides madt fuel = .ok t ∧ Routed t (overridesOf es) ∧ t.ioapics = s.ioapics := by
  rw [getIoApics_eq h.lists h.ne_nil h.wellFormed hfuel] at hs
  obtain ⟨hio, hov, hha, -, hlen⟩ := foldlM_addIoApic hs
  have hio : s.ioapics = ioApicsOf regs es := hio
  have hcov : s.Covered := by
    intro g hg
    obtain ⟨ioapic, hmem, hin⟩ := h.covered g hg
    unfold getIoApic
    rw [hio, List.find?_isSome]
    exact ⟨ioapic, hmem, decide_eq_true hin⟩
  have hrouted : Routed s [] := by
    constructor
    · exact fun o ho => absurd ho List.not_mem_nil
    · intro r _
      rw [hov]
      rfl
    · exact fun o ho => absurd ho List.not_mem_nil
    · intro v _
      rw [hha]
      rfl
  obtain ⟨t, ht, hrouted, hiot⟩ := foldlM_addOverride hrouted hcov h.isa h.sources h.targets
  rw [initOverrides_eq h.lists h.ne_nil h.wellFormed hfuel]
  exact ⟨hio, hlen (Nat.zero_le _), hcov, t, ht, hrouted, hiot⟩

/-- An IRQ is wired to its own line, or to the target of its override. -/
lemma gsiOf_cases (os : List MadtOverride) (irq : BitVec 8) :
    (gsiOf os irq = irq ∧ ∀ o ∈ os, o.irqSrc ≠ irq) ∨
      ∃ o ∈ os, o.irqSrc = irq ∧ gsiOf os irq = o.globalSystemInt.setWidth 8 := by
  unfold gsiOf
  cases hfind : os.find? fun o => decide (o.irqSrc = irq) with
  | none =>
    refine .inl ⟨rfl, fun o ho heq => ?_⟩
    have hnone := List.find?_eq_none.mp hfind o ho
    exact hnone (decide_eq_true heq)
  | some o =>
    have hsome := List.find?_some hfind
    exact .inr ⟨o, List.mem_of_find?_eq_some hfind, of_decide_eq_true hsome, rfl⟩

lemma Routed.wired_eq {s : IoApics H} {os : List MadtOverride} (hs : Routed s os) {irq : BitVec 8}
    (hirq : irq.toNat < isaInterruptCount) : s.wired irq = gsiOf os irq := by
  unfold wired
  rw [if_pos hirq]
  obtain ⟨heq, hnone⟩ | ⟨o, ho, hsrc, heq⟩ := gsiOf_cases os irq
  · rw [hs.noOverride irq hnone, heq]
  · rw [← hsrc, hs.override o ho, hsrc, heq]

lemma gsiOf_lt {os : List MadtOverride} (hos : ∀ o ∈ os, IsIsa o) {irq : BitVec 8}
    (hirq : irq.toNat < isaInterruptCount) : (gsiOf os irq).toNat < isaInterruptCount := by
  obtain ⟨heq, -⟩ | ⟨o, ho, -, heq⟩ := gsiOf_cases os irq
  · rwa [heq]
  · rw [heq, gsi_toNat (hos o ho)]
    exact (hos o ho).2

/-- Where no IRQ of the calls is the target of an override, a dispatch ends in its driver's slot. -/
lemma dispatch_driver {s t : IoApics H} {os : List MadtOverride} {cs : List (DriverCall H)} (hs : Routed s os)
    (hos : ∀ o ∈ os, IsIsa o) (hfree : ∀ c ∈ cs, ∀ o ∈ os, o.globalSystemInt.setWidth 8 ≠ c.irq)
    (hirq : ∀ c ∈ cs, c.irq.toNat < isaInterruptCount) (hslots : ∀ c ∈ cs, t.handlers c.irq = driverSlot c)
    (hothers : ∀ v, (∀ c ∈ cs, c.irq ≠ v) → t.handlers v = s.handlers v) {c : DriverCall H} (hc : c ∈ cs) :
    t.apicInterruptHandler 2 (interruptBase + gsiOf os c.irq) = .ok [.call c.handler c.data, .eoi] := by
  have hcount : isaInterruptCount = 16 := rfl
  have hvec : ioVectorCount = 224 := rfl
  have hlt := gsiOf_lt hos (hirq c hc)
  have hvalid : c.irq.toNat < ioVectorCount := by
    have := hirq c hc
    omega
  have hown (fuel : Nat) : t.execIoHandler (fuel + 1) c.irq = .ok [.call c.handler c.data] := by
    have hfunc : (t.handlers c.irq).func = some (.driver c.handler) := by
      rw [hslots c hc]
      rfl
    rw [exec_driver hvalid hfunc, hslots c hc]
    rfl
  suffices hexec : t.execIoHandler 2 (gsiOf os c.irq) = .ok [.call c.handler c.data] from
    interrupt_eq (by omega) hexec
  obtain ⟨heq, -⟩ | ⟨o, ho, hsrc, heq⟩ := gsiOf_cases os c.irq
  · rw [heq]
    exact hown 1
  · have hslot : t.handlers (gsiOf os c.irq) = forwarder o := by
      rw [heq, hothers _ fun d hd h => hfree d hd o ho h.symm]
      exact hs.handler o ho
    have hfunc : (t.handlers (gsiOf os c.irq)).func = some .ioHandlerSourceOverride := by
      rw [hslot]
      rfl
    have hdata : (t.handlers (gsiOf os c.irq)).data.setWidth 8 = c.irq := by
      rw [hslot, ← hsrc]
      exact BitVec.setWidth_setWidth_of_le _ (by decide)
    rw [exec_forward (by omega) hfunc, hdata]
    exact hown 0

/-- If all calls succeed, the tables held everything and the slots were free. -/
lemma Delivered.fits (h : IsaTable madt es regs) {localApicId : BitVec 8} {cs : List (DriverCall H)}
    (hnodup : (cs.map DriverCall.irq).Nodup) (hd : Delivered madt es regs localApicId cs) :
    (ioApicsOf regs es).length ≤ maxIoApics ∧ (∀ ioapic ∈ ioApicsOf regs es, PinsFit ioapic) ∧
      ∀ c ∈ cs, ∀ o ∈ overridesOf es, o.globalSystemInt.setWidth 8 ≠ c.irq := by
  obtain ⟨fuel, s, t, hinit, hall, -⟩ := hd
  have hinit := initIoApics_mono hinit (Nat.le_max_left fuel (es.length + 1))
  obtain ⟨u, hu, hinit⟩ := bind_eq_ok.mp hinit
  obtain ⟨v, hv, hinit⟩ := bind_eq_ok.mp hinit
  obtain ⟨hio, hlen, -, v', hv', hrouted, hiov⟩ := h.overrides_entered (by omega) hu
  obtain rfl := Except.ok.inj (hv.symm.trans hv')
  have hfit := (foldlM_initEntries_ok_iff v localApicId v.ioapics).mp ⟨s, hinit⟩
  have hrouted := (foldlM_initEntries_sameTables hinit).routed hrouted
  refine ⟨hio ▸ hlen, ?_, fun c hc o ho heq => ?_⟩
  · rwa [hiov, hio] at hfit
  · -- the slot of the IRQ holds the forwarding handler
    have hempty := ((installAll_ok hall hnodup).1 c hc).1.1
    rw [← heq, hrouted.handler o ho] at hempty
    cases hempty

/-- The drivers' calls succeed and their interrupts are delivered exactly if the tables hold all
IOAPICs and pins and no IRQ of a call is overridden to itself. -/
theorem delivered_iff (h : IsaTable madt es regs) (localApicId : BitVec 8) {cs : List (DriverCall H)}
    (hnodup : (cs.map DriverCall.irq).Nodup) (hirq : ∀ c ∈ cs, c.irq.toNat < isaInterruptCount ∧
      ∀ o ∈ overridesOf es, o.irqSrc ≠ c.irq → o.globalSystemInt.setWidth 8 ≠ c.irq) :
    Delivered madt es regs localApicId cs ↔
      (ioApicsOf regs es).length ≤ maxIoApics ∧ (∀ ioapic ∈ ioApicsOf regs es, PinsFit ioapic) ∧
      ∀ c ∈ cs, ∀ o ∈ overridesOf es, o.irqSrc = c.irq → o.globalSystemInt.setWidth 8 ≠ c.irq := by
  have hcount : isaInterruptCount = 16 := rfl
  have hvec : ioVectorCount = 224 := rfl
  constructor
  · intro hd
    obtain ⟨hlen, hfit, hself⟩ := hd.fits h hnodup
    exact ⟨hlen, hfit, fun c hc o ho _ => hself c hc o ho⟩
  · rintro ⟨hlen, hfit, hself⟩
    have hfuel : es.length < es.length + 1 := Nat.lt_succ_self _
    obtain ⟨u, hu⟩ : ∃ u, (blank regs : IoApics H).getIoApics madt (es.length + 1) = .ok u := by
      rw [getIoApics_eq h.lists h.ne_nil h.wellFormed hfuel]
      apply foldlM_addIoApic_ok
      exact Nat.le_trans (Nat.le_of_eq (Nat.zero_add _)) hlen
    obtain ⟨hio, -, hcov, v, hv, hrouted, hiov⟩ := h.overrides_entered hfuel hu
    obtain ⟨s, hs⟩ := (foldlM_initEntries_ok_iff v localApicId v.ioapics).mpr (by rw [hiov, hio]; exact hfit)
    have hsame := foldlM_initEntries_sameTables hs
    have hrouted := hsame.routed hrouted
    have hcov : s.Covered := hcov.congr (hsame.ioapics.trans hiov)
    have hfree : ∀ c ∈ cs, ∀ o ∈ overridesOf es, o.globalSystemInt.setWidth 8 ≠ c.irq := by
      intro c hc o ho
      by_cases hsrc : o.irqSrc = c.irq
      · exact hself c hc o ho hsrc
      · exact (hirq c hc).2 o ho hsrc
    have hinit : (blank regs : IoApics H).initIoApics madt localApicId (es.length + 1) = .ok s := by
      rw [initIoApics, hu]
      change (u.initOverrides madt (es.length + 1) >>= _) = _
      rw [hv]
      exact hs
    obtain ⟨t, ht⟩ := installAll_succeeds (s := s) hnodup fun c hc => by
      have hlt := (hirq c hc).1
      refine ⟨by omega, ?_, ?_⟩
      · unfold SlotEmpty
        rw [hrouted.noHandler c.irq (hfree c hc)]
        exact ⟨rfl, rfl, rfl⟩
      · rw [hrouted.wired_eq hlt]
        exact hcov _ (gsiOf_lt h.isa hlt)
    obtain ⟨hslots, hothers⟩ := installAll_ok ht hnodup
    refine ⟨es.length + 1, s, t, hinit, ht, fun c hc => ⟨2, ?_⟩⟩
    exact dispatch_driver hrouted h.isa hfree (fun c hc => (hirq c hc).1) (fun c hc => (hslots c hc).2) hothers hc

lemma pcTable : IsaTable pcMadt pcEntries pcRegs where
  lists := rfl
  wellFormed := by unfold MadtEntry.WellFormed; decide
  isa := by unfold IsIsa; decide
  sources := by decide
  targets := by decide
  covered := by decide +kernel

/-- The timer and the keyboard are delivered. -/
theorem pc_timer_keyboard_delivered :
    Delivered pcMadt pcEntries pcRegs 0#8 [⟨0#8, true, 7#64⟩, ⟨1#8, false, 0#64⟩] := by
  apply (delivered_iff pcTable 0#8 (by decide) (by decide)).mpr
  refine ⟨by decide, ?_, by decide⟩
  unfold PinsFit
  decide +kernel

/-- A driver for IRQ 9, which no other IRQ is overridden to, gets no handler. -/
theorem pc_irq9_not_delivered : IsaTable pcMadt pcEntries pcRegs ∧
    (∀ o ∈ overridesOf pcEntries, o.irqSrc ≠ 9#8 → o.globalSystemInt.setWidth 8 ≠ 9#8) ∧
    ¬ Delivered pcMadt pcEntries pcRegs 0#8 [⟨9#8, (), 0#64⟩] := by
  refine ⟨pcTable, by decide, fun hd => ?_⟩
  obtain ⟨-, -, hself⟩ := hd.fits pcTable (by decide)
  exact absurd hself (by decide)

end Delivery

end IoApics

end HaiirOS
