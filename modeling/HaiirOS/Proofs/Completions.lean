import HaiirOS.Proofs.CmdRing
import HaiirOS.Proofs.DriverMemory
import HaiirOS.Proofs.EventRing

/-!
# Commands and their completions

Both rings of an xHCI controller at once. The host controller reports each command that it executes with
an event that names the command's address, some time later and among events of other kinds, and holds
events back while the event ring is full. The rings share memory and lie in different frames, since the
allocator gave them to the driver as different blocks. So neither side overwrites what the other ring
holds, and the driver gets the completions of its commands in the order in which it queued them.
-/

namespace HaiirOS

open AddressWord
open BlockHeap CycleRing Runs

def trbTypeCmdComplEvent : BitVec 32 := 33#32 <<< 10

/-- The type field of an event is that of a command completion. -/
def Trb.isCompletion (trb : Trb) : Bool := (trb.flags >>> 10) &&& 0x3f#32 == 33#32

@[simp] lemma Trb.isCompletion_stamp (trb : Trb) (cycle : Bool) : (trb.stamp cycle).isCompletion = trb.isCompletion := by
  have hmask : (~~~trbCycleBit) >>> 10 &&& 0x3f#32 = 0x3f#32 := by decide
  have hcycle : (if cycle then trbCycleBit else 0#32) >>> 10 = 0#32 := by cases cycle <;> decide
  simp only [Trb.isCompletion, Trb.stamp, BitVec.ushiftRight_or_distrib, BitVec.ushiftRight_and_distrib, hcycle,
    BitVec.or_zero, BitVec.and_assoc, hmask]

@[simp] lemma Trb.addr_stamp (trb : Trb) (cycle : Bool) : (trb.stamp cycle).addr = trb.addr := rfl

/-- The driver, the state of the host controller, and the histories of both rings. -/
structure XhciSystem where
  driver : XhciController
  dequeue : BitVec 64
  consumerCycle : Bool
  queued : List Command
  executed : List Trb
  enqueue : Nat
  producerCycle : Bool
  posted : List Trb
  consumed : List Trb
  /-- The events that the host controller has not posted yet. -/
  pending : List Trb

/-- What the driver and the host controller do. -/
inductive XhciOp where
  /-- `queue_cmd(command)` -/
  | queue (command : Command)
  /-- an iteration of `process_event` -/
  | process
  /-- the host controller looks at its next command -/
  | execute (result : BitVec 32)
  /-- it has something else to tell -/
  | notice (event : { trb : Trb // trb.isCompletion = false })
  /-- it posts its oldest event -/
  | report

namespace XhciSystem

def cmdRing (s : XhciSystem) : CmdRing := ⟨s.driver, s.dequeue, s.consumerCycle, s.queued, s.executed⟩

def eventRing (s : XhciSystem) : EventRing := ⟨s.driver, s.enqueue, s.producerCycle, s.posted, s.consumed⟩

def withCmdRing (s : XhciSystem) (r : CmdRing) : XhciSystem :=
  { s with
    driver := r.driver
    dequeue := r.dequeue
    consumerCycle := r.consumerCycle
    queued := r.queued
    executed := r.executed }

def withEventRing (s : XhciSystem) (r : EventRing) : XhciSystem :=
  { s with
    driver := r.driver
    enqueue := r.enqueue
    producerCycle := r.producerCycle
    posted := r.posted
    consumed := r.consumed }

/-- A command that has been executed is to be reported with its address. -/
def execute (s : XhciSystem) (result : BitVec 32) : XhciSystem :=
  let r := s.cmdRing.fetch
  { s.withCmdRing r with
    pending := if r.executed.length = s.executed.length then s.pending
      else s.pending ++ [⟨s.dequeue, result, trbTypeCmdComplEvent⟩] }

/-- An event is pending until it has been posted. -/
def report (s : XhciSystem) : XhciSystem :=
  match s.pending with
  | [] => s
  | event :: rest =>
    let r := s.eventRing.post event
    { s.withEventRing r with pending := if r.posted.length = s.posted.length then s.pending else rest }

def exec (s : XhciSystem) : XhciOp → XhciSystem
  | .queue command => s.withCmdRing (s.cmdRing.queue command)
  | .process => s.withEventRing s.eventRing.process
  | .execute result => s.execute result
  | .notice event => { s with pending := s.pending ++ [event.val] }
  | .report => s.report

def step (s : XhciSystem) (op : XhciOp) (s' : XhciSystem) : Prop := s' = s.exec op

/-- The controller behind `init_cmd_ring` and `init_event_ring_seg_table` with the addresses that they got, from the
driver's state as `init_xhci_controller` sets it. -/
def init (x : XhciController) (cmdRing erst eventRing : BitVec 64) : XhciController :=
  ({ x with cmdRingIdx := 0, cmdPcs := 1#8, eventIdx := 0, eventCcs := 1#8 }.initCmdRing cmdRing).initEventRingSegTable
    erst eventRing

/-- The host controller takes its dequeue pointer and cycle state from `CRCR`. -/
def start (x : XhciController) (cmdRing erst eventRing : BitVec 64) : XhciSystem :=
  let driver := init x cmdRing erst eventRing
  ⟨driver, (CmdRing.crcr driver >>> 6) <<< 6, (CmdRing.crcr driver).getLsbD 0, [], [], 0, true, [], [], []⟩

/-- The driver's index is before the link. -/
def BeforeLink (s : XhciSystem) : XhciOp → Prop
  | .queue _ => s.driver.cmdRingIdx < 31
  | _ => True

/-- The addresses of the commands whose completions the driver has got. -/
def completions (s : XhciSystem) : List (BitVec 64) := (s.consumed.filter Trb.isCompletion).map Trb.addr

/-- How far both sides are. -/
def progress (s : XhciSystem) : Nat := s.executed.length + s.posted.length + s.consumed.length

/-- Commands are executed in order, and the driver has got the completions of the first of them, each once and in the
order of the commands. Where a completion is missing, the host controller or the driver can go on. -/
structure Good (s : XhciSystem) : Prop where
  executes : s.executed.map (fun c => c.stamp false) <+: s.queued.map fun c => c.val.stamp false
  commands : ∀ i (hi : i < s.queued.length), s.driver.slots s.driver.cmdRing i = (s.queued[i]).val.stamp true
  completes : s.completions <+: (List.range s.executed.length).map (trbAddr s.driver.cmdRing)
  live : s.completions.length < s.queued.length →
    s.progress < (s.execute 0#32).progress ∨ s.progress < s.report.progress ∨
      s.progress < (s.exec .process).progress

end XhciSystem

section Congruence

lemma CmdRing.Inv.congr {base : BitVec 64} {s : CmdRing} (h : CmdRing.Inv base s) {x : XhciController}
    (hring : x.cmdRing = s.driver.cmdRing) (hidx : x.cmdRingIdx = s.driver.cmdRingIdx) (hpcs : x.cmdPcs = s.driver.cmdPcs)
    (hslots : ∀ i < 32, x.slots base i = s.driver.slots base i) : CmdRing.Inv base { s with driver := x } :=
  ⟨h.aligned, hring.trans h.cmdRing, hidx.trans h.cmdRingIdx, hpcs.trans h.cmdPcs, h.lap, h.ring.congr (by decide) hslots,
    (hslots 31 (by decide)).trans h.link, h.dequeue, h.consumerCycle, h.order⟩

lemma EventRing.Inv.congr {base : BitVec 64} {s : EventRing} (h : EventRing.Inv base s) {x : XhciController}
    (herst : x.erst = s.driver.erst) (hidx : x.eventIdx = s.driver.eventIdx) (hccs : x.eventCcs = s.driver.eventCcs)
    (hregs : x.runtimeRegs = s.driver.runtimeRegs) (hslots : ∀ i < 32, x.slots base i = s.driver.slots base i) :
    EventRing.Inv base { s with driver := x } := by
  have herdp : x.erdp = s.driver.erdp := by
    simp only [XhciController.erdp, hregs]
  exact ⟨h.aligned, herst.trans h.erst, h.enqueue, h.producerCycle, hidx.trans h.eventIdx, hccs.trans h.eventCcs,
    herdp.trans h.erdp, h.ring.congr (by decide) hslots, h.order, h.behind⟩

/-- No block lies in both rings. -/
def RingsApart (base seg : BitVec 64) : Prop := ∀ i < 32, ∀ j < 32, trbAddr base i ≠ trbAddr seg j

lemma RingsApart.symm {base seg : BitVec 64} (h : RingsApart base seg) : RingsApart seg base :=
  fun i hi j hj heq => h j hj i hi heq.symm

lemma ringsApart {base seg : BitVec 64} (hbase : base.toNat % 4096 = 0) (hseg : seg.toNat % 4096 = 0) (hne : base ≠ seg) :
    RingsApart base seg := by
  intro i hi j hj heq
  have hnat := congrArg BitVec.toNat heq
  simp only [trbAddr, BitVec.toNat_add, BitVec.toNat_ofNat] at hnat
  have hlt := base.isLt
  have hlt' := seg.isLt
  apply hne
  apply BitVec.eq_of_toNat_eq
  omega

lemma slots_apart {base seg : BitVec 64} (h : RingsApart base seg) (x : XhciController) (trb : Trb) {i j : Nat}
    (hi : i < 32) (hj : j < 32) : (x.store (trbAddr seg j) trb).slots base i = x.slots base i :=
  Function.update_of_ne (h i hi j hj) ..

lemma clearRing_apart {base seg : BitVec 64} (h : RingsApart base seg) (x : XhciController) {len i : Nat} (hlen : len ≤ 32)
    (hi : i < 32) : (x.clearRing seg len).slots base i = x.slots base i := by
  induction len with
  | zero => rfl
  | succ len ih =>
    rw [XhciController.clearRing, slots_apart h _ _ hi (by omega)]
    exact ih (by omega)

/-- An iteration of `process_event` leaves memory and the command ring alone. -/
lemma processEvent_keeps (x : XhciController) : x.processEvent.2.trbs = x.trbs ∧ x.processEvent.2.cmdRing = x.cmdRing ∧
    x.processEvent.2.cmdRingIdx = x.cmdRingIdx ∧ x.processEvent.2.cmdPcs = x.cmdPcs := by
  unfold XhciController.processEvent
  simp only
  split_ifs <;> exact ⟨rfl, rfl, rfl, rfl⟩

end Congruence

namespace XhciSystem

/-- Both rings are in order, they lie apart, and the completions posted or pending are those of the executed commands. -/
structure Inv (base seg : BitVec 64) (s : XhciSystem) : Prop where
  cmd : CmdRing.Inv base s.cmdRing
  events : EventRing.Inv seg s.eventRing
  reports : ((s.posted ++ s.pending).filter Trb.isCompletion).map Trb.addr =
    (List.range s.executed.length).map (trbAddr base)

namespace Inv

variable {base seg : BitVec 64} {s s' : XhciSystem}

lemma queue (h : Inv base seg s) (hapart : RingsApart base seg) {command : Command} (hs : s.driver.cmdRingIdx < 31) :
    Inv base seg (s.exec (.queue command)) := by
  refine ⟨h.cmd.queue hs, ?_, h.reports⟩
  have hidx : s.driver.cmdRingIdx = s.queued.length := h.cmd.cmdRingIdx
  have hqueue : s.driver.queueCmd command.val = _ := CmdRing.queueCmd_first h.cmd.cmdPcs hs command.val
  refine h.events.congr (x := s.driver.queueCmd command.val) ?_ ?_ ?_ ?_ fun i hi => ?_
  all_goals rw [hqueue]
  · rfl
  · rfl
  · rfl
  · rfl
  · have hbase : s.driver.cmdRing = base := h.cmd.cmdRing
    change (s.driver.store (trbAddr s.driver.cmdRing s.driver.cmdRingIdx) (command.val.stamp true)).slots seg i = _
    rw [hbase]
    exact slots_apart hapart.symm _ _ hi (by omega)

lemma process (h : Inv base seg s) : Inv base seg (s.exec .process) := by
  obtain ⟨htrbs, hring, hidx, hpcs⟩ := processEvent_keeps s.driver
  refine ⟨h.cmd.congr hring hidx hpcs fun i _ => ?_, h.events.process, h.reports⟩
  exact congrFun htrbs _

lemma execute (h : Inv base seg s) (result : BitVec 32) : Inv base seg (s.execute result) := by
  have hfetch := h.cmd.fetch_eq
  have hdequeue : s.dequeue = trbAddr base s.executed.length := h.cmd.dequeue
  have hdriver : s.cmdRing.fetch.driver = s.driver := by
    rw [hfetch]
    split_ifs <;> rfl
  refine ⟨h.cmd.fetch, ?_, ?_⟩
  · change EventRing.Inv seg { s.eventRing with driver := s.cmdRing.fetch.driver }
    rw [hdriver]
    exact h.events
  · have hreports := h.reports
    change ((s.posted ++ if s.cmdRing.fetch.executed.length = s.executed.length then s.pending
      else s.pending ++ [⟨s.dequeue, result, trbTypeCmdComplEvent⟩]).filter Trb.isCompletion).map Trb.addr =
        (List.range s.cmdRing.fetch.executed.length).map (trbAddr base)
    by_cases hlt : s.cmdRing.executed.length < s.cmdRing.queued.length
    · have hlen : s.cmdRing.fetch.executed.length = s.executed.length + 1 := by
        rw [hfetch, dif_pos hlt]
        exact List.length_append
      have htype : (⟨s.dequeue, result, trbTypeCmdComplEvent⟩ : Trb).isCompletion = true := by
        change (trbTypeCmdComplEvent >>> 10 &&& 0x3f#32 == 33#32) = true
        decide
      rw [hlen, if_neg (by omega), List.range_succ, List.map_append, ← hreports, ← List.append_assoc, List.filter_append,
        List.map_append, List.filter_cons_of_pos htype, hdequeue]
      rfl
    · have hsame : s.cmdRing.fetch.executed = s.executed := by
        rw [hfetch, dif_neg hlt]
        rfl
      rw [hsame, if_pos rfl]
      exact hreports

lemma notice (h : Inv base seg s) (event : { trb : Trb // trb.isCompletion = false }) :
    Inv base seg (s.exec (.notice event)) := by
  refine ⟨h.cmd, h.events, ?_⟩
  change ((s.posted ++ (s.pending ++ [event.val])).filter Trb.isCompletion).map Trb.addr = _
  rw [← List.append_assoc, List.filter_append, List.filter_cons_of_neg (by rw [event.property]; decide), List.filter_nil,
    List.append_nil]
  exact h.reports

lemma report (h : Inv base seg s) (hapart : RingsApart base seg) : Inv base seg s.report := by
  unfold XhciSystem.report
  cases hpending : s.pending with
  | nil => exact h
  | cons event rest =>
    have hpost := h.events.post event
    have hreports := h.reports
    rcases h.events.post_cases event with ⟨-, hsame⟩ | ⟨hdriver, hposted, hconsumed⟩
    · simp only [hsame]
      refine ⟨h.cmd, h.events, ?_⟩
      have hlen : s.eventRing.posted.length = s.posted.length := rfl
      rw [if_pos hlen, ← hpending]
      exact hreports
    · have hdriver' : (s.eventRing.post event).driver =
          s.driver.store (trbAddr seg s.enqueue) (event.stamp s.producerCycle) := hdriver
      have henqueue : s.enqueue < 32 := by
        have heq : s.enqueue = s.posted.length % 32 := h.events.enqueue
        omega
      refine ⟨?_, hpost, ?_⟩
      · have hcmd := h.cmd.congr (x := (s.eventRing.post event).driver) (by rw [hdriver']; rfl) (by rw [hdriver']; rfl)
          (by rw [hdriver']; rfl) fun i hi => by
            rw [hdriver']
            exact slots_apart hapart _ _ hi henqueue
        exact hcmd
      · have hposted' : (s.eventRing.post event).posted = s.posted ++ [event.stamp s.producerCycle] := hposted
        have hlen : (s.eventRing.post event).posted.length ≠ s.posted.length := by
          rw [hposted', List.length_append, List.length_singleton]
          omega
        change (((s.eventRing.post event).posted ++ if (s.eventRing.post event).posted.length = s.posted.length then _
          else rest).filter Trb.isCompletion).map Trb.addr = (List.range s.executed.length).map (trbAddr base)
        rw [if_neg hlen, hposted', ← hreports, hpending]
        simp only [List.filter_append, List.map_append, List.append_assoc, List.singleton_append, List.filter_cons,
          Trb.isCompletion_stamp]
        split_ifs <;> simp

theorem step (h : Inv base seg s) (hapart : RingsApart base seg) {op : XhciOp} (hs : s.BeforeLink op)
    (ht : s.step op s') : Inv base seg s' := by
  rw [ht]
  cases op with
  | queue command => exact h.queue hapart hs
  | process => exact h.process
  | execute result => exact h.execute result
  | notice event => exact h.notice event
  | report => exact h.report hapart

/-- Where a completion is missing, one of the two can go on. -/
lemma live (h : Inv base seg s) (hfew : s.completions.length < s.queued.length) :
    s.progress < (s.execute 0#32).progress ∨ s.progress < s.report.progress ∨
      s.progress < (s.exec .process).progress := by
  have hconsumed : s.consumed <+: s.posted := h.events.order
  by_cases hlt : s.cmdRing.executed.length < s.cmdRing.queued.length
  · -- the host controller has a command to execute
    left
    have hlen : s.cmdRing.fetch.executed.length = s.executed.length + 1 := by
      rw [h.cmd.fetch_eq, dif_pos hlt]
      exact List.length_append
    change s.executed.length + s.posted.length + s.consumed.length <
      s.cmdRing.fetch.executed.length + s.posted.length + s.consumed.length
    omega
  · right
    by_cases hnew : s.consumed.length < s.posted.length
    · -- the driver has an event to consume
      right
      have hlen : s.eventRing.process.consumed.length = s.consumed.length + 1 := h.events.process_consumes hnew
      change s.executed.length + s.posted.length + s.consumed.length <
        s.executed.length + s.posted.length + s.eventRing.process.consumed.length
      omega
    · -- so the completion is pending, and the ring has room for it
      left
      have hall : s.consumed = s.posted := hconsumed.eq_of_length_le (by omega)
      have hreports := congrArg List.length h.reports
      have hqueued : s.queued.length ≤ s.executed.length := Nat.not_lt.mp hlt
      unfold XhciSystem.report
      cases hpending : s.pending with
      | nil =>
        rw [hpending, List.append_nil, ← hall, @List.length_map _ _ (List.range _), List.length_range] at hreports
        unfold completions at hfew
        omega
      | cons event rest =>
        rcases h.events.post_cases event with ⟨hless, -⟩ | ⟨-, hposted, hsame⟩
        · exact absurd hless hnew
        · have hlen : (s.eventRing.post event).posted.length = s.posted.length + 1 := by
            rw [hposted]
            exact List.length_append
          have hkept : (s.eventRing.post event).consumed = s.consumed := hsame
          change s.executed.length + s.posted.length + s.consumed.length <
            s.executed.length + (s.eventRing.post event).posted.length + (s.eventRing.post event).consumed.length
          rw [hlen, hkept]
          omega

lemma good (h : Inv base seg s) : s.Good := by
  have hbase : s.driver.cmdRing = base := h.cmd.cmdRing
  refine ⟨h.cmd.good.order, fun i hi => ?_, ?_, h.live⟩
  · have hlap := h.cmd.lap
    have hi' : i < s.cmdRing.queued.length := hi
    have hentry := h.cmd.ring.entry i (by rw [List.length_map]; exact hi) (by rw [List.length_map]; omega)
    rw [Nat.mod_eq_of_lt (by omega), List.getElem_map] at hentry
    rw [hbase]
    exact hentry
  · have hpre : s.consumed <+: s.posted ++ s.pending := h.events.order.trans (List.prefix_append ..)
    have hmap := (hpre.filter Trb.isCompletion).map Trb.addr
    rw [h.reports] at hmap
    rw [hbase]
    exact hmap

lemma start (x : XhciController) {base erst seg : BitVec 64} (hbase : base.toNat % 4096 = 0) (herst : erst.toNat % 4096 = 0)
    (hseg : seg.toNat % 4096 = 0) (hne : base ≠ seg) : Inv base seg (start x base erst seg) := by
  have hpage (v : BitVec 64) (hv : v.toNat % 4096 = 0) : BitVec.ofNat 64 (v.toNat / 4096 * 4096) = v := by
    apply BitVec.eq_of_toNat_eq
    rw [BitVec.toNat_ofNat]
    have hlt := v.isLt
    omega
  let x1 : XhciController := { x with cmdRingIdx := 0, cmdPcs := 1#8, eventIdx := 0, eventCcs := 1#8 }
  obtain ⟨mem, regs, hcmdRing, -⟩ := CmdRing.initCmdRing_spec x1 (base.toNat / 4096)
  have hcmd := CmdRing.inv_start { x with eventIdx := 0, eventCcs := 1#8 } (base.toNat / 4096)
  change x1.initCmdRing _ = _ at hcmdRing
  rw [hpage base hbase] at hcmdRing
  let x2 : XhciController := { x1 with cmdRing := base, trbs := mem, opRegs := regs }
  change CmdRing.Inv _ ⟨x1.initCmdRing _, (CmdRing.crcr (x1.initCmdRing _) >>> 6) <<< 6,
    (CmdRing.crcr (x1.initCmdRing _)).getLsbD 0, [], []⟩ at hcmd
  rw [hpage base hbase, hcmdRing] at hcmd
  -- the event ring is set up in what `init_cmd_ring` left, and its pages are others
  have hevents := EventRing.inv_start x2 (erst.toNat / 4096) (seg.toNat / 4096)
  rw [EventRing.start, hpage erst herst, hpage seg hseg] at hevents
  obtain ⟨mem', regs', htable, -⟩ := EventRing.initEventRingSegTable_spec x2 erst seg
  have hmem : mem' = (x2.clearRing seg xhciMaxEvents).trbs := (congrArg XhciController.trbs htable).symm
  have hinit : init x base erst seg = x2.initEventRingSegTable erst seg :=
    congrArg (fun y => XhciController.initEventRingSegTable y erst seg) hcmdRing
  rw [XhciSystem.start, hinit]
  refine ⟨?_, hevents, rfl⟩
  rw [htable]
  refine hcmd.congr rfl rfl rfl fun i hi => ?_
  have hkept := clearRing_apart (ringsApart hbase hseg hne) x2 (by decide : xhciMaxEvents ≤ 32) hi
  rw [XhciController.slots, ← hmem] at hkept
  exact hkept

end Inv

/-- `Present | Writeable | DisableCache` -/
def ringFlags : PageFlags := PageFlags.present ||| PageFlags.writeable ||| 1#64 <<< 4

/-- The allocations of `init_cmd_ring` and `init_event_ring_seg_table`, one frame each. -/
def ringAllocs (cmdRing erst eventRing : Word) : List DriverOp :=
  [.alloc 1 ringFlags cmdRing, .alloc 1 ringFlags erst, .alloc 1 ringFlags eventRing]

lemma blocks_ringAllocs {pre : List DriverOp} {cmdRing erst eventRing : Word} {d d' : Driver}
    (hrun : Run Driver.step d (pre ++ ringAllocs cmdRing erst eventRing) d') : ∃ bs, d'.blocks =
      ⟨eventRing.toNat, 1 * frameSize⟩ :: ⟨erst.toNat, 1 * frameSize⟩ :: ⟨cmdRing.toNat, 1 * frameSize⟩ :: bs := by
  induction pre generalizing d with
  | nil =>
    cases hrun with
    | cons h1 hrun =>
      cases hrun with
      | cons h2 hrun =>
        cases hrun with
        | cons h3 hrun =>
          cases hrun
          obtain ⟨m1, -, rfl⟩ := h1
          obtain ⟨m2, -, rfl⟩ := h2
          obtain ⟨m3, -, rfl⟩ := h3
          exact ⟨_, rfl⟩
  | cons op pre ih =>
    cases hrun with
    | cons _ hrun => exact ih hrun

section

variable {w : WindowTables} {rank : Nat → Nat} {s : Session} {pre : List DriverOp} {cmdRing erst eventRing : Word} {d : Driver}

/-- What the rings get from the allocator are pages, and the two rings get different ones. -/
lemma ringAllocs_apart (h : s.Inv w rank) (hclean : Clean s.machine) (hcr3 : frame s.machine.cr3 = w.pml4)
    (hrun : Run Driver.step ⟨s, []⟩ (pre ++ ringAllocs cmdRing erst eventRing) d)
    (hok : Along Driver.Sound Driver.step ⟨s, []⟩ (pre ++ ringAllocs cmdRing erst eventRing)) :
    cmdRing.toNat % 4096 = 0 ∧ erst.toNat % 4096 = 0 ∧ eventRing.toNat % 4096 = 0 ∧ cmdRing ≠ eventRing := by
  obtain ⟨heap, hheap, rank', hend⟩ := Driver.shows_run h hclean hcr3 hrun hok
  obtain ⟨bs, hblocks⟩ := blocks_ringAllocs hrun
  have hplaced := hend.placed
  have hapart := (blocks_run hheap .nil).2
  rw [hend.blocks, hblocks, List.pairwise_cons] at hapart
  rw [hblocks] at hplaced
  have hlast : (⟨cmdRing.toNat, 1 * frameSize⟩ : Block) ∈
      [⟨erst.toNat, 1 * frameSize⟩, ⟨cmdRing.toNat, 1 * frameSize⟩] ++ bs :=
    List.mem_cons_of_mem _ List.mem_cons_self
  refine ⟨(hplaced _ (List.mem_cons_of_mem _ hlast)).base, (hplaced _ (List.mem_cons_of_mem _ List.mem_cons_self)).base,
    (hplaced _ List.mem_cons_self).base, ?_⟩
  rintro rfl
  have hhas : Block.Has ⟨cmdRing.toNat, 1 * frameSize⟩ cmdRing.toNat :=
    ⟨Nat.le_refl _, Nat.lt_add_of_pos_right (by simp [frameSize])⟩
  exact hapart.1 _ hlast _ hhas hhas

/-- Let the rings get their frames from the allocator, behind any other allocations and stores of the driver. Then in every
run of driver and host controller whose commands are queued before the link, the commands are executed in order and the
driver gets their completions, each once and in the order of the commands; and where one is missing, one of the two can
go on. -/
theorem completions_in_order (h : s.Inv w rank) (hclean : Clean s.machine) (hcr3 : frame s.machine.cr3 = w.pml4)
    (hrun : Run Driver.step ⟨s, []⟩ (pre ++ ringAllocs cmdRing erst eventRing) d)
    (hok : Along Driver.Sound Driver.step ⟨s, []⟩ (pre ++ ringAllocs cmdRing erst eventRing)) (x : XhciController)
    {ops : List XhciOp} {t : XhciSystem} (hops : Run XhciSystem.step (start x cmdRing erst eventRing) ops t)
    (hlink : Along BeforeLink XhciSystem.step (start x cmdRing erst eventRing) ops) : t.Good := by
  obtain ⟨hcmd, herst, hevent, hne⟩ := ringAllocs_apart h hclean hcr3 hrun hok
  exact (hops.invariant (Inv cmdRing eventRing) hlink (.start x hcmd herst hevent hne)
    fun _ _ _ hs ho ht => hs.step (ringsApart hcmd hevent hne) ho ht).good

end

/-- What happens to a command on a controller that is not busy. -/
def round (command : Command) : List XhciOp := [.queue command, .execute 0x1000000#32, .report, .process]

/-- All of `n` commands have been executed and reported, and the driver has taken all events. -/
structure Settled (base seg : BitVec 64) (n : Nat) (s : XhciSystem) : Prop where
  inv : Inv base seg s
  queued : s.queued.length = n
  executed : s.executed.length = n
  pending : s.pending = []
  consumed : s.consumed.length = s.posted.length

namespace Settled

variable {base seg : BitVec 64} {n : Nat} {s : XhciSystem}

lemma execute (h : Inv base seg s) (hqueued : s.queued.length = n + 1) (hexecuted : s.executed.length = n)
    (hpending : s.pending = []) (result : BitVec 32) : (s.execute result).executed.length = n + 1 ∧
      (s.execute result).queued = s.queued ∧ (∃ event, (s.execute result).pending = [event]) ∧
      (s.execute result).consumed = s.consumed ∧ (s.execute result).posted = s.posted := by
  have hlt : s.cmdRing.executed.length < s.cmdRing.queued.length := by
    change s.executed.length < s.queued.length
    omega
  have hfetch := h.cmd.fetch_eq
  rw [dif_pos hlt] at hfetch
  have hlen : s.cmdRing.fetch.executed.length = s.executed.length + 1 := by
    rw [hfetch]
    exact List.length_append
  refine ⟨hlen.trans (congrArg (· + 1) hexecuted), ?_, ⟨⟨s.dequeue, result, trbTypeCmdComplEvent⟩, ?_⟩, rfl, rfl⟩
  · change s.cmdRing.fetch.queued = s.queued
    rw [hfetch]
    rfl
  · change (if s.cmdRing.fetch.executed.length = s.executed.length then s.pending else s.pending ++ _) = _
    rw [if_neg (by omega), hpending]
    rfl

lemma report (h : Inv base seg s) {event : Trb} (hpending : s.pending = [event])
    (hconsumed : s.consumed.length = s.posted.length) : s.report.queued = s.queued ∧ s.report.executed = s.executed ∧
      s.report.pending = [] ∧ s.report.consumed = s.consumed ∧ s.report.posted.length = s.posted.length + 1 := by
  rcases h.events.post_cases event with ⟨hless, -⟩ | ⟨-, hposted, hkept⟩
  · exact absurd hconsumed (Nat.ne_of_lt hless)
  · have hlen : (s.eventRing.post event).posted.length = s.posted.length + 1 := by
      rw [hposted]
      exact List.length_append
    unfold XhciSystem.report
    rw [hpending]
    exact ⟨rfl, rfl, if_neg (by omega), hkept, hlen⟩

lemma round (h : Settled base seg n s) (hapart : RingsApart base seg) (hn : n < 31) (command : Command) :
    Settled base seg (n + 1) ((XhciSystem.round command).foldl exec s) := by
  have hidx : s.driver.cmdRingIdx = s.queued.length := h.inv.cmd.cmdRingIdx
  have h1 : Inv base seg (s.exec (.queue command)) := h.inv.queue hapart (by rw [hidx, h.queued]; exact hn)
  have hqueued : (s.exec (.queue command)).queued.length = n + 1 := List.length_append.trans (congrArg (· + 1) h.queued)
  obtain ⟨hexecuted, hqueued2, ⟨event, hpending⟩, hconsumed2, hposted2⟩ :=
    execute h1 hqueued h.executed h.pending 0x1000000#32
  have h2 := h1.execute 0x1000000#32
  have hsame : ((s.exec (.queue command)).execute 0x1000000#32).consumed.length =
      ((s.exec (.queue command)).execute 0x1000000#32).posted.length := by
    rw [hconsumed2, hposted2]
    exact h.consumed
  obtain ⟨hqueued3, hexecuted3, hpending3, hconsumed3, hposted3⟩ := report h2 hpending hsame
  have h3 := h2.report hapart
  have hnew : ((s.exec (.queue command)).execute 0x1000000#32).report.eventRing.consumed.length <
      ((s.exec (.queue command)).execute 0x1000000#32).report.eventRing.posted.length := by
    change ((s.exec (.queue command)).execute 0x1000000#32).report.consumed.length <
      ((s.exec (.queue command)).execute 0x1000000#32).report.posted.length
    rw [hposted3, hconsumed3, hsame]
    exact Nat.lt_succ_self _
  have hconsumes := h3.events.process_consumes hnew
  refine ⟨h3.process, ?_, ?_, hpending3, ?_⟩
  · exact (congrArg List.length (hqueued3.trans hqueued2)).trans hqueued
  · exact (congrArg List.length hexecuted3).trans hexecuted
  · refine hconsumes.trans ?_
    change ((s.exec (.queue command)).execute 0x1000000#32).report.consumed.length + 1 =
      ((s.exec (.queue command)).execute 0x1000000#32).report.posted.length
    rw [hposted3, hconsumed3, hsame]

/-- As many commands as the ring has room for before its link. -/
theorem rounds (h : Settled base seg n s) (hapart : RingsApart base seg) {commands : List Command}
    (hroom : n + commands.length ≤ 31) : Along BeforeLink XhciSystem.step s (commands.flatMap XhciSystem.round) ∧
      Settled base seg (n + commands.length) ((commands.flatMap XhciSystem.round).foldl exec s) := by
  induction commands generalizing n s with
  | nil => exact ⟨trivial, h⟩
  | cons command commands ih =>
    have hlen : (command :: commands).length = commands.length + 1 := List.length_cons
    have hidx : s.driver.cmdRingIdx = s.queued.length := h.inv.cmd.cmdRingIdx
    have hnext := h.round hapart (by omega) command
    obtain ⟨hlink, hend⟩ := ih hnext (by omega)
    have hbefore : s.driver.cmdRingIdx < 31 := by
      rw [hidx, h.queued]
      omega
    rw [List.flatMap_cons, List.foldl_append, hlen, Nat.add_comm commands.length, ← Nat.add_assoc]
    refine ⟨⟨hbefore, ?_⟩, hend⟩
    rintro _ rfl
    refine ⟨trivial, ?_⟩
    rintro _ rfl
    refine ⟨trivial, ?_⟩
    rintro _ rfl
    refine ⟨trivial, ?_⟩
    rintro _ rfl
    exact hlink

/-- The driver has the completions of all commands. -/
lemma completions (h : Settled base seg n s) : s.completions = (List.range n).map (trbAddr base) := by
  have hall : s.consumed = s.posted := h.inv.events.order.eq_of_length h.consumed
  have hreports := h.inv.reports
  rw [h.pending, List.append_nil, h.executed, ← hall] at hreports
  exact hreports

end Settled

/-- Right after boot the rings get their frames, and the completions of all commands up to the link reach the driver. -/
theorem completions_in_order_running : ∃ cmdRing erst eventRing t,
    Run XhciSystem.step (start blankXhci cmdRing erst eventRing) ((List.replicate 31 noOpCommand).flatMap round) t ∧
      t.Good ∧ t.completions = (List.range 31).map (trbAddr cmdRing) := by
  have hplain : PlainFlags ringFlags := ⟨by decide, by decide⟩
  have hfree : 0x100 ≤ (runningSession reservedPmm).machine.pmm.freeSet.card := (stocked_running (Nat.le_refl _)).enough
  have hcr3 : frame (runningSession reservedPmm).machine.cr3 = bootWindow.pml4 := by decide
  obtain ⟨heap, -, rank, h0⟩ := Driver.shows_run runningSession_inv runningSession_clean hcr3 (.nil _) trivial
  obtain ⟨cmdRing, d1, hs1, hstep1, -, hleft1⟩ := h0.alloc_one hplain (by decide) (by simp only; omega)
  obtain ⟨heap1, -, rank1, h1⟩ := h0.step hs1 hstep1
  simp only at hleft1
  obtain ⟨erst, d2, hs2, hstep2, -, hleft2⟩ := h1.alloc_one hplain (by decide) (by omega)
  obtain ⟨heap2, -, rank2, h2⟩ := h1.step hs2 hstep2
  obtain ⟨eventRing, d3, hs3, hstep3, -, -⟩ := h2.alloc_one hplain (by decide) (by omega)
  have hrun : Run Driver.step ⟨runningSession reservedPmm, []⟩ ([] ++ ringAllocs cmdRing erst eventRing) d3 :=
    .cons hstep1 (.cons hstep2 (.cons hstep3 (.nil _)))
  have hok : Along Driver.Sound Driver.step ⟨runningSession reservedPmm, []⟩ ([] ++ ringAllocs cmdRing erst eventRing) :=
    Driver.along_cons hs1 hstep1 (Driver.along_cons hs2 hstep2 (Driver.along_cons hs3 hstep3 trivial))
  obtain ⟨hcmd, herst, hevent, hne⟩ := ringAllocs_apart runningSession_inv runningSession_clean hcr3 hrun hok
  have hstart : Settled cmdRing eventRing 0 (start blankXhci cmdRing erst eventRing) :=
    ⟨.start blankXhci hcmd herst hevent hne, rfl, rfl, rfl, rfl⟩
  obtain ⟨hlink, hend⟩ := hstart.rounds (ringsApart hcmd hevent hne) (by
    rw [List.length_replicate] : 0 + (List.replicate 31 noOpCommand).length ≤ 31)
  have hops := Run.of_exec XhciSystem.exec (start blankXhci cmdRing erst eventRing)
    ((List.replicate 31 noOpCommand).flatMap round)
  rw [List.length_replicate, Nat.zero_add] at hend
  exact ⟨cmdRing, erst, eventRing, _, hops,
    completions_in_order runningSession_inv runningSession_clean hcr3 hrun hok blankXhci hops hlink, hend.completions⟩

end XhciSystem

end HaiirOS
