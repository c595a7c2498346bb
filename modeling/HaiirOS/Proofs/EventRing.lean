import HaiirOS.Lib.CycleRing
import HaiirOS.Lib.Runs
import HaiirOS.Proofs.TrbRing
import Mathlib.Tactic.Set

/-!
# The event ring

The host controller posts events to the one segment of the ring, and `process_event` takes them.
The two share the memory of the segment and the dequeue pointer register. The controller is the
one of the xHCI specification: it stamps an event with its cycle state, and it stops where the
entry after the one to write is the one that the register points to.
-/

namespace HaiirOS

open Runs CycleRing

/-- The pointer in `ERDP`. -/
def XhciController.erdp (x : XhciController) : BitVec 64 :=
  x.runtimeRegs (runtimeRegErdp 0 + 4) ++ x.runtimeRegs (runtimeRegErdp 0)

/-- Where the driver's entry has the other cycle bit, an iteration does nothing. -/
lemma processEvent_idle {x : XhciController} {b : Bool} (hccs : x.eventCcs = cycleByte b)
    (hslot : (x.slots x.erst.baseAddr x.eventIdx).cycle ≠ b) : x.processEvent = (none, x) := by
  unfold XhciController.processEvent
  simp only
  have hbit : (if (x.trbs (trbAddr x.erst.baseAddr x.eventIdx)).flags &&& trbCycleBit ≠ 0#32 then 1#8 else 0#8) =
      cycleByte (x.slots x.erst.baseAddr x.eventIdx).cycle := by
    simp only [Trb.cycle_eq]
    rfl
  rw [if_pos]
  rw [hbit, hccs, ne_eq, cycleByte_inj]
  exact hslot

lemma processEvent_take {x : XhciController} {b : Bool} (hccs : x.eventCcs = cycleByte b) (hidx : x.eventIdx < 32)
    (hslot : (x.slots x.erst.baseAddr x.eventIdx).cycle = b) :
    ∃ regs, x.processEvent = (some (x.slots x.erst.baseAddr x.eventIdx), { x with
      eventIdx := if x.eventIdx + 1 = 32 then 0 else x.eventIdx + 1
      eventCcs := cycleByte (if x.eventIdx + 1 = 32 then !b else b)
      runtimeRegs := regs }) ∧
    regs (runtimeRegErdp 0 + 4) ++ regs (runtimeRegErdp 0) =
      trbAddr x.erst.baseAddr (if x.eventIdx + 1 = 32 then 0 else x.eventIdx + 1) := by
  have hbit : (if (x.trbs (trbAddr x.erst.baseAddr x.eventIdx)).flags &&& trbCycleBit ≠ 0#32 then 1#8 else 0#8) =
      cycleByte (x.slots x.erst.baseAddr x.eventIdx).cycle := by
    simp only [Trb.cycle_eq]
    rfl
  have hmod : (x.eventIdx + 1) % 2 ^ 32 = x.eventIdx + 1 := by omega
  have hne : runtimeRegErdp 0 ≠ runtimeRegErdp 0 + 4 := by decide
  have hregs (f : Nat → BitVec 32) (i : Nat) : ∃ regs, regs = Function.update (Function.update f (runtimeRegErdp 0)
      ((trbAddr x.erst.baseAddr i).setWidth 32)) (runtimeRegErdp 0 + 4) (highHalf (trbAddr x.erst.baseAddr i)) ∧
      regs (runtimeRegErdp 0 + 4) ++ regs (runtimeRegErdp 0) = trbAddr x.erst.baseAddr i := by
    refine ⟨_, rfl, ?_⟩
    rw [Function.update_self, Function.update_of_ne hne, Function.update_self, append_halves]
  obtain ⟨regs, hregs, happ⟩ := hregs x.runtimeRegs (if x.eventIdx + 1 = 32 then 0 else x.eventIdx + 1)
  refine ⟨regs, ?_, happ⟩
  unfold XhciController.processEvent
  simp only
  rw [if_neg]
  · simp only [hmod, xhciMaxEvents, XhciController.writeRuntime]
    by_cases hwrap : x.eventIdx + 1 = 32
    · simp only [hwrap, if_true] at hregs ⊢
      rw [hccs, cycleByte_toggle, hregs]
      rfl
    · simp only [hwrap, if_false] at hregs ⊢
      rw [hccs, hregs]
      rfl
  · rw [hbit, hccs, hslot]
    exact fun h => h rfl

/-- The driver, the state of the host controller as a producer, and the history of both. -/
structure EventRing where
  driver : XhciController
  enqueue : Nat
  producerCycle : Bool
  posted : List Trb
  consumed : List Trb

/-- What happens on the ring. -/
inductive EventOp where
  /-- the host controller has an event -/
  | post (event : Trb)
  /-- an iteration of `process_event` -/
  | process

namespace EventRing

/-- The entry after the next one to write. -/
def next (s : EventRing) : Nat := if s.enqueue + 1 = s.driver.erst.size.toNat then 0 else s.enqueue + 1

/-- The host controller writes an event, unless the ring is full. -/
def post (s : EventRing) (event : Trb) : EventRing :=
  if trbAddr s.driver.erst.baseAddr s.next = pointerBits s.driver.erdp then s else
    let event := event.stamp s.producerCycle
    { s with
      driver := s.driver.store (trbAddr s.driver.erst.baseAddr s.enqueue) event
      enqueue := s.next
      producerCycle := if s.next = 0 then !s.producerCycle else s.producerCycle
      posted := s.posted ++ [event] }

/-- An iteration of `process_event`, whose event goes to the end of the consumed ones. -/
def process (s : EventRing) : EventRing :=
  { s with driver := s.driver.processEvent.2, consumed := s.consumed ++ s.driver.processEvent.1.toList }

def exec (s : EventRing) : EventOp → EventRing
  | .post event => s.post event
  | .process => s.process

def step (s : EventRing) (op : EventOp) (s' : EventRing) : Prop := s' = s.exec op

/-- The rings after `init_event_ring_seg_table`, with the table in frame `f` and the segment in
frame `g`, and the driver's index and cycle state as `init_xhci_controller` sets them. -/
def start (x : XhciController) (f g : Nat) : EventRing :=
  ⟨{ x with eventIdx := 0, eventCcs := 1#8 }.initEventRingSegTable (BitVec.ofNat 64 (f * 4096))
    (BitVec.ofNat 64 (g * 4096)), 0, true, [], []⟩

/-- Events are consumed once and in the order they were posted; an iteration takes the next event
that is there and nothing else. `ERDP` points to the driver's entry. -/
structure Good (s : EventRing) : Prop where
  order : s.consumed <+: s.posted
  next : s.driver.processEvent.1 = s.posted[s.consumed.length]?
  erdp : s.driver.erdp = trbAddr s.driver.erst.baseAddr s.driver.eventIdx
  index : s.driver.eventIdx < xhciMaxEvents

/-- Both sides are where their counts of events say, and the consumer is less than a lap behind. -/
structure Inv (base : BitVec 64) (s : EventRing) : Prop where
  aligned : base.toNat % 16 = 0
  erst : s.driver.erst = ⟨base, 32#16⟩
  enqueue : s.enqueue = s.posted.length % 32
  producerCycle : s.producerCycle = cycleAt 32 s.posted.length
  eventIdx : s.driver.eventIdx = s.consumed.length % 32
  eventCcs : s.driver.eventCcs = cycleByte (cycleAt 32 s.consumed.length)
  erdp : s.driver.erdp = trbAddr base (s.consumed.length % 32)
  ring : Holds 32 Trb.cycle (s.driver.slots base) s.posted
  order : s.consumed <+: s.posted
  behind : s.posted.length < s.consumed.length + 32

variable {base : BitVec 64} {s s' : EventRing}

/-- The next entry is there exactly if an event has been posted and not consumed. -/
lemma Inv.ready_iff (h : Inv base s) : (s.driver.slots s.driver.erst.baseAddr s.driver.eventIdx).cycle =
    cycleAt 32 s.consumed.length ↔ s.consumed.length < s.posted.length := by
  rw [h.erst, h.eventIdx]
  exact h.ring.ready_iff (by decide) h.order.length_le (Nat.le_of_lt h.behind)

lemma Inv.eventIdx_lt (h : Inv base s) : s.driver.eventIdx < 32 := by
  rw [h.eventIdx]
  exact Nat.mod_lt _ (by decide)

lemma Inv.good (h : Inv base s) : s.Good where
  order := h.order
  next := by
    by_cases hnew : s.consumed.length < s.posted.length
    · obtain ⟨regs, htake, -⟩ := processEvent_take h.eventCcs h.eventIdx_lt (h.ready_iff.mpr hnew)
      rw [htake, h.erst, h.eventIdx, h.ring.entry _ hnew (Nat.le_of_lt h.behind), List.getElem?_eq_getElem hnew]
    · rw [processEvent_idle h.eventCcs (h.ready_iff.not.mpr hnew), List.getElem?_eq_none (by omega)]
  erdp := by rw [h.erdp, h.erst, h.eventIdx]
  index := h.eventIdx_lt

lemma Inv.next_eq (h : Inv base s) : s.next = (s.posted.length + 1) % 32 := by
  rw [next, h.erst, h.enqueue, succ_mod (by decide)]
  rfl

lemma Inv.post (h : Inv base s) (event : Trb) : Inv base (s.post event) := by
  unfold EventRing.post
  by_cases hfull : trbAddr s.driver.erst.baseAddr s.next = pointerBits s.driver.erdp
  · rw [if_pos hfull]
    exact h
  · rw [if_neg hfull]
    have hlt := Nat.mod_lt s.posted.length (by decide : 0 < 32)
    rw [h.erdp, pointerBits_of_aligned (trbAddr_aligned h.aligned _), h.erst, h.next_eq] at hfull
    have hroom : s.posted.length + 1 < s.consumed.length + 32 := by
      have hne : (s.posted.length + 1) % 32 ≠ s.consumed.length % 32 := fun heq => hfull (by rw [heq])
      have hbehind := h.behind
      omega
    have hwrap : s.posted.length % 32 + 1 = 32 ↔ (s.posted.length + 1) % 32 = 0 := by omega
    simp only [h.next_eq, h.erst]
    refine ⟨h.aligned, h.erst, ?_, ?_, h.eventIdx, h.eventCcs, h.erdp, ?_, ?_, ?_⟩
    · rw [List.length_append, List.length_singleton]
    · rw [List.length_append, List.length_singleton, cycleAt_succ (by decide), h.producerCycle]
      simp only [hwrap]
    · refine h.ring.push (by decide) ?_ fun i hi => ?_
      · rw [Trb.cycle_stamp, h.producerCycle]
      · rw [h.enqueue]
        exact slots_store _ _ (by omega) (by omega) _
    · exact h.order.trans (List.prefix_append ..)
    · rw [List.length_append, List.length_singleton]
      exact hroom

lemma Inv.process (h : Inv base s) : Inv base s.process := by
  unfold EventRing.process
  by_cases hnew : s.consumed.length < s.posted.length
  · obtain ⟨regs, htake, herdp⟩ := processEvent_take h.eventCcs h.eventIdx_lt (h.ready_iff.mpr hnew)
    have hentry := h.ring.entry _ hnew (Nat.le_of_lt h.behind)
    have hidx := succ_mod (by decide : 0 < 32) s.consumed.length
    have hcycle := cycleAt_succ (by decide : 0 < 32) s.consumed.length
    have hlen : (s.consumed ++ [s.posted[s.consumed.length]]).length = s.consumed.length + 1 := List.length_append
    have hprefix := prefix_concat h.order hnew
    rw [h.eventIdx, h.erst] at herdp
    simp only at herdp
    rw [htake, h.eventIdx, h.erst]
    simp only [hentry, Option.toList_some]
    refine ⟨h.aligned, rfl, h.enqueue, h.producerCycle, ?_, ?_, ?_, h.ring, hprefix, ?_⟩
    · rw [hlen, hidx]
    · rw [hlen, hcycle]
    · rw [hlen, hidx]
      exact herdp
    · have hbehind := h.behind
      rw [hlen]
      change s.posted.length < s.consumed.length + 1 + 32
      omega
  · rw [processEvent_idle h.eventCcs (h.ready_iff.not.mpr hnew), Option.toList_none, List.append_nil]
    exact h

/-- An event goes into the ring if that is not full, and in a full ring there is something to consume. -/
lemma Inv.post_cases (h : Inv base s) (event : Trb) :
    (s.consumed.length < s.posted.length ∧ s.post event = s) ∨
      (s.post event).driver = s.driver.store (trbAddr base s.enqueue) (event.stamp s.producerCycle) ∧
      (s.post event).posted = s.posted ++ [event.stamp s.producerCycle] ∧ (s.post event).consumed = s.consumed := by
  unfold EventRing.post
  by_cases hfull : trbAddr s.driver.erst.baseAddr s.next = pointerBits s.driver.erdp
  · rw [if_pos hfull]
    refine Or.inl ⟨?_, rfl⟩
    rw [h.erdp, pointerBits_of_aligned (trbAddr_aligned h.aligned _), h.erst, h.next_eq] at hfull
    have hidx := trbAddr_inj (by omega) (by omega) hfull
    have hle := h.order.length_le
    have hbehind := h.behind
    omega
  · rw [if_neg hfull, h.erst]
    exact Or.inr ⟨rfl, rfl, rfl⟩

lemma Inv.process_consumes (h : Inv base s) (hnew : s.consumed.length < s.posted.length) :
    s.process.consumed.length = s.consumed.length + 1 := by
  have hnext := h.good.next
  rw [List.getElem?_eq_getElem hnew] at hnext
  rw [EventRing.process, hnext]
  exact List.length_append

lemma Inv.step {op : EventOp} (h : Inv base s) (ht : s.step op s') : Inv base s' := by
  rw [ht]
  cases op with
  | post event => exact h.post event
  | process => exact h.process

/-- Setting up the event ring sets the table, clears the segment and writes runtime registers. -/
lemma initEventRingSegTable_spec (x : XhciController) (addr eventRing : BitVec 64) : ∃ mem regs,
    x.initEventRingSegTable addr eventRing =
      { x with erst := ⟨eventRing, 32#16⟩, trbs := mem, runtimeRegs := regs } ∧
    (∀ i < 32, mem (trbAddr eventRing i) = ⟨0#64, 0#32, 0#32⟩) ∧
    regs (runtimeRegErdp 0 + 4) ++ regs (runtimeRegErdp 0) = eventRing := by
  obtain ⟨mem, hmem, hzero⟩ := clearRing_spec x eventRing (by decide : xhciMaxEvents ≤ 2 ^ 32)
  refine ⟨mem, (x.initEventRingSegTable addr eventRing).runtimeRegs, ?_, hzero, ?_⟩
  · simp only [XhciController.initEventRingSegTable, XhciController.createEventRingSeg, hmem,
      XhciController.writeRuntime]
    rfl
  · have h := append_halves eventRing
    simp [XhciController.initEventRingSegTable, XhciController.createEventRingSeg, XhciController.writeRuntime,
      runtimeRegErdp, runtimeRegErstba, Function.update, h]

lemma inv_start (x : XhciController) (f g : Nat) : Inv (BitVec.ofNat 64 (g * 4096)) (start x f g) := by
  have haligned : (BitVec.ofNat 64 (g * 4096)).toNat % 16 = 0 := by
    rw [BitVec.toNat_ofNat]
    omega
  have hcycle : cycleAt 32 0 = true := cycleAt_first 0 (by decide)
  have hlen : (0 : Nat) < 0 + 32 := by decide
  obtain ⟨mem, regs, hinit, hzero, herdp⟩ := initEventRingSegTable_spec { x with eventIdx := 0, eventCcs := 1#8 }
    (BitVec.ofNat 64 (f * 4096)) (BitVec.ofNat 64 (g * 4096))
  rw [start, hinit]
  refine ⟨haligned, rfl, rfl, hcycle.symm, rfl, ?_, ?_, .init fun i hi => ?_, List.prefix_rfl, hlen⟩
  · rw [List.length_nil, hcycle]
    rfl
  · exact herdp.trans (BitVec.add_zero _).symm
  · change (mem (trbAddr (BitVec.ofNat 64 (g * 4096)) i)).cycle = false
    rw [hzero i hi]
    rfl

/-- An event that the driver takes at once. -/
lemma Inv.round (h : Inv base s) (hall : s.consumed.length = s.posted.length) (event : Trb) :
    Inv base (s.post event).process ∧ (s.post event).process.consumed.length = s.consumed.length + 1 ∧
      (s.post event).process.posted.length = s.posted.length + 1 := by
  rcases h.post_cases event with ⟨hless, -⟩ | ⟨-, hposted, hconsumed⟩
  · exact absurd hall (Nat.ne_of_lt hless)
  · have hlen : (s.post event).posted.length = s.posted.length + 1 := by
      rw [hposted]
      exact List.length_append
    have hnext := (h.post event).process_consumes (by rw [hlen, hconsumed]; omega)
    rw [hconsumed] at hnext
    exact ⟨(h.post event).process, hnext, hlen⟩

/-- A driver that takes each event before the next one comes gets all of them. -/
lemma Inv.rounds (h : Inv base s) (hall : s.consumed.length = s.posted.length) (events : List Trb) :
    ((events.flatMap fun event => [.post event, .process]).foldl exec s).consumed.length =
      s.consumed.length + events.length := by
  induction events generalizing s with
  | nil => rfl
  | cons event events ih =>
    obtain ⟨hinv, hconsumed, hposted⟩ := h.round hall event
    rw [List.flatMap_cons, List.foldl_append, List.length_cons]
    have hrest := ih hinv (by omega)
    rw [hconsumed] at hrest
    exact hrest.trans (by omega)

end EventRing

open EventRing

/-- Whatever the host controller posts and however it alternates with the driver, the driver consumes
every event once and in order, and `ERDP` follows it. -/
theorem events_consumed_in_order (x : XhciController) (f g : Nat) (ops : List EventOp) (s : EventRing)
    (h : Run EventRing.step (start x f g) ops s) : s.Good := by
  have hinv := h.preserved (Inv (BitVec.ofNat 64 (g * 4096))) (inv_start x f g) fun _ _ _ hs ht => hs.step ht
  exact hinv.good

/-- The events of a whole lap and more, each taken before the next one comes. -/
theorem events_consumed_around : ∃ s,
    Run EventRing.step (start blankXhci 0x900 0x901)
      ((List.replicate 40 ⟨0#64, 1#32, 0x8400#32⟩).flatMap fun event => [.post event, .process]) s ∧
    s.Good ∧ s.consumed.length = 40 := by
  have hrun := Run.of_exec EventRing.exec (start blankXhci 0x900 0x901)
    ((List.replicate 40 ⟨0#64, 1#32, 0x8400#32⟩).flatMap fun event => [.post event, .process])
  have hall := (inv_start blankXhci 0x900 0x901).rounds rfl (List.replicate 40 ⟨0#64, 1#32, 0x8400#32⟩)
  rw [List.length_replicate] at hall
  exact ⟨_, hrun, events_consumed_in_order blankXhci 0x900 0x901 _ _ hrun, hall⟩

end HaiirOS
