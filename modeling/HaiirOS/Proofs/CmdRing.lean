import HaiirOS.Lib.CycleRing
import HaiirOS.Lib.Runs
import HaiirOS.Proofs.TrbRing
import Mathlib.Logic.Function.Iterate
import Mathlib.Tactic.Push

/-!
# The command ring

`queue_cmd` writes commands and the host controller executes them. The controller is the one
of the xHCI specification: it takes the block at its dequeue pointer while that has its cycle
state, and follows links. On the first lap this works; the 32nd command is written over the
link at the end of the ring.
-/

namespace HaiirOS

open Runs CycleRing

/-- A block that is a command, not a link. -/
abbrev Command := { trb : Trb // trb.isLink = false }

/-- The driver, the state of the host controller as a consumer, and the history of both. -/
structure CmdRing where
  driver : XhciController
  dequeue : BitVec 64
  consumerCycle : Bool
  queued : List Command
  executed : List Trb

/-- What happens on the ring. -/
inductive CmdOp where
  /-- `queue_cmd(command)` -/
  | queue (command : Command)
  /-- the host controller looks at its next block -/
  | fetch

namespace CmdRing

def queue (s : CmdRing) (command : Command) : CmdRing :=
  { s with driver := s.driver.queueCmd command, queued := s.queued ++ [command] }

/-- One step of the host controller. -/
def fetch (s : CmdRing) : CmdRing :=
  let trb := s.driver.trbs s.dequeue
  if trb.cycle ≠ s.consumerCycle then s
  else if trb.isLink then
    { s with
      dequeue := pointerBits trb.addr
      consumerCycle := if trb.flags.getLsbD 1 then !s.consumerCycle else s.consumerCycle }
  else { s with dequeue := s.dequeue + 16#64, executed := s.executed ++ [trb] }

def exec (s : CmdRing) : CmdOp → CmdRing
  | .queue command => s.queue command
  | .fetch => s.fetch

def step (s : CmdRing) (op : CmdOp) (s' : CmdRing) : Prop := s' = s.exec op

/-- The register pair `CRCR`. -/
def crcr (x : XhciController) : BitVec 64 := x.opRegs (opRegCrcr + 4) ++ x.opRegs opRegCrcr

/-- The ring after `init_cmd_ring`, in frame `f`. The host controller takes its dequeue pointer and
its cycle state from `CRCR`, and the driver has its index and cycle state from `init_xhci_controller`. -/
def start (x : XhciController) (f : Nat) : CmdRing :=
  let driver := { x with cmdRingIdx := 0, cmdPcs := 1#8 }.initCmdRing (BitVec.ofNat 64 (f * 4096))
  ⟨driver, (crcr driver >>> 6) <<< 6, (crcr driver).getLsbD 0, [], []⟩

/-- The commands as such, whatever their cycle bits are. -/
def commands (s : CmdRing) : List Trb := s.queued.map fun c => c.val.stamp false

def executedCommands (s : CmdRing) : List Trb := s.executed.map fun c => c.stamp false

/-- The controller executes the queued commands in order and nothing else, goes on while there are
any, and stays in the ring, whose last entry links to the first. -/
structure Good (s : CmdRing) : Prop where
  order : s.executedCommands <+: s.commands
  next : s.executed.length < s.queued.length → ∃ k ≤ 2, (fetch^[k] s).executed.length = s.executed.length + 1
  inside : ∃ i < xhciMaxCommands, s.dequeue = trbAddr s.driver.cmdRing i
  link : (s.driver.slots s.driver.cmdRing 31).isLink = true ∧
    pointerBits (s.driver.slots s.driver.cmdRing 31).addr = s.driver.cmdRing

/-- The driver's index is before the link. -/
def BeforeLink (s : CmdRing) : CmdOp → Prop
  | .queue _ => s.driver.cmdRingIdx < 31
  | .fetch => True

/-- The first lap: the driver has written its commands in a row with the cycle bit set, the link at the
end is as it was set up, and the controller is somewhere on the commands. -/
structure Inv (base : BitVec 64) (s : CmdRing) : Prop where
  aligned : base.toNat % 4096 = 0
  cmdRing : s.driver.cmdRing = base
  cmdRingIdx : s.driver.cmdRingIdx = s.queued.length
  cmdPcs : s.driver.cmdPcs = 1#8
  lap : s.queued.length ≤ 31
  ring : Holds 32 Trb.cycle (s.driver.slots base) (s.queued.map fun c => c.val.stamp true)
  link : s.driver.slots base 31 = ⟨base, 0#32, trbTypeLink⟩
  dequeue : s.dequeue = trbAddr base s.executed.length
  consumerCycle : s.consumerCycle = true
  order : s.executed <+: s.queued.map fun c => c.val.stamp true

variable {base : BitVec 64} {s s' : CmdRing}

lemma Inv.executed_le (h : Inv base s) : s.executed.length ≤ s.queued.length := by
  have hle := h.order.length_le
  rwa [List.length_map] at hle

lemma Inv.slot_eq (h : Inv base s) : s.driver.trbs s.dequeue = s.driver.slots base (s.executed.length % 32) := by
  have hle := h.executed_le
  have hlap := h.lap
  rw [h.dequeue, Nat.mod_eq_of_lt (by omega)]
  rfl

lemma Inv.ready_iff (h : Inv base s) :
    (s.driver.trbs s.dequeue).cycle = s.consumerCycle ↔ s.executed.length < s.queued.length := by
  have hle := h.order.length_le
  have hlap := h.lap
  have hready := h.ring.ready_iff (by decide) hle (by rw [List.length_map]; omega)
  rw [List.length_map] at hle hready
  rw [h.slot_eq, h.consumerCycle, ← hready, cycleAt_first _ (by omega)]

/-- Where a command is queued that has not been executed, the controller executes the next one. -/
lemma Inv.fetch_eq (h : Inv base s) : s.fetch =
    if hlt : s.executed.length < s.queued.length then
      { s with
        dequeue := trbAddr base (s.executed.length + 1)
        executed := s.executed ++ [s.queued[s.executed.length].val.stamp true] }
    else s := by
  have hlap := h.lap
  unfold fetch
  split_ifs with hlt
  · have hentry := h.ring.entry s.executed.length (by rw [List.length_map]; exact hlt) (by rw [List.length_map]; omega)
    rw [List.getElem_map] at hentry
    have hnext : trbAddr base s.executed.length + 16#64 = trbAddr base (s.executed.length + 1) := by
      rw [trbAddr, trbAddr, BitVec.add_assoc, Nat.mul_add, BitVec.ofNat_add]
    have hcmd := s.queued[s.executed.length].property
    simp only
    rw [if_neg (not_not.mpr (h.ready_iff.mpr hlt)), h.slot_eq, hentry, Trb.isLink_stamp, hcmd, h.dequeue, hnext]
    rfl
  · simp only
    rw [if_pos (h.ready_iff.not.mpr hlt)]

lemma Inv.good (h : Inv base s) : s.Good where
  order := by
    have hmap : s.commands = (s.queued.map fun c => c.val.stamp true).map fun c => c.stamp false := by
      rw [commands, List.map_map]
      apply List.map_congr_left
      intro c _
      exact (Trb.stamp_stamp ..).symm
    rw [hmap]
    exact h.order.map _
  next := by
    intro hlt
    refine ⟨1, by decide, ?_⟩
    rw [Function.iterate_one, h.fetch_eq, dif_pos hlt, List.length_append, List.length_singleton]
  inside := by
    have hle := h.executed_le
    have hlap := h.lap
    refine ⟨s.executed.length, ?_, ?_⟩
    · change s.executed.length < 32
      omega
    · rw [h.dequeue, h.cmdRing]
  link := by
    have haligned := h.aligned
    have hlow : base.toNat % 16 = 0 := by omega
    have htype : trbTypeLink >>> 10 &&& 0x3f#32 = 6#32 := by decide
    rw [h.cmdRing, h.link]
    exact ⟨beq_iff_eq.mpr htype, pointerBits_of_aligned hlow⟩

/-- On the first lap a command goes into the next block. -/
lemma queueCmd_first {x : XhciController} (hpcs : x.cmdPcs = 1#8) (hidx : x.cmdRingIdx < 31) (trb : Trb) :
    x.queueCmd trb =
      { x.store (trbAddr x.cmdRing x.cmdRingIdx) (trb.stamp true) with cmdRingIdx := x.cmdRingIdx + 1 } := by
  have hset : x.cmdPcs ≠ 0#8 := by
    rw [hpcs]
    decide
  have hmod : (x.cmdRingIdx + 1) % 2 ^ 32 = x.cmdRingIdx + 1 := by omega
  have hlast : ¬ x.cmdRingIdx + 1 ≥ xhciMaxCommands := by
    change ¬ x.cmdRingIdx + 1 ≥ 32
    omega
  unfold XhciController.queueCmd
  simp only [if_pos hset, ← Trb.stamp_true]
  simp only [XhciController.store, hmod, if_neg hlast]

/-- The command after the first lap's 31 is written over the link. -/
lemma queueCmd_last {x : XhciController} (hpcs : x.cmdPcs = 1#8) (hidx : x.cmdRingIdx = 31) (trb : Trb) :
    (x.queueCmd trb).cmdRing = x.cmdRing ∧ ((x.queueCmd trb).slots x.cmdRing 31).isLink = trb.isLink := by
  have hset : x.cmdPcs ≠ 0#8 := by
    rw [hpcs]
    decide
  have hmod : (31 + 1) % 2 ^ 32 = 32 := by decide
  have hlast : 32 ≥ xhciMaxCommands := by decide
  have hsub : xhciMaxCommands - 1 = 31 := rfl
  have htc : trbTcBit >>> 10 = 0#32 := by decide
  have hcycle : trbCycleBit >>> 10 = 0#32 := by decide
  have hqueue : x.queueCmd trb = { x with
      trbs := (x.queueCmd trb).trbs, cmdRingIdx := 0, cmdPcs := x.cmdPcs ^^^ 1#8 } := by
    unfold XhciController.queueCmd
    simp only [if_pos hset, hidx, XhciController.store, hmod, if_pos hlast]
  have hblock : (x.queueCmd trb).trbs (trbAddr x.cmdRing 31) =
      ⟨trb.addr, trb.status, trb.flags ||| trbCycleBit ||| trbTcBit ||| trbCycleBit⟩ := by
    unfold XhciController.queueCmd
    simp only [if_pos hset, hidx, XhciController.store, hmod, if_pos hlast, hsub, Function.update_self]
  refine ⟨by rw [hqueue], ?_⟩
  rw [XhciController.slots, hblock]
  simp only [Trb.isLink, BitVec.ushiftRight_or_distrib, hcycle, htc, BitVec.or_zero]

lemma Inv.queue (h : Inv base s) {command : Command} (hs : s.BeforeLink (.queue command)) :
    Inv base (s.queue command) := by
  have hidx : s.driver.cmdRingIdx < 31 := hs
  have hlen := h.cmdRingIdx
  unfold CmdRing.queue
  rw [queueCmd_first h.cmdPcs hidx, h.cmdRing, hlen]
  rw [hlen] at hidx
  have hlast : 31 ≠ s.queued.length := by omega
  have hslot (i : Nat) (hi : i < 32) := slots_store s.driver base (by omega : i < 2 ^ 32)
    (by omega : s.queued.length < 2 ^ 32) (command.val.stamp true)
  refine ⟨h.aligned, h.cmdRing, ?_, h.cmdPcs, ?_, ?_, ?_, h.dequeue, h.consumerCycle, ?_⟩
  · rw [List.length_append, List.length_singleton]
  · rw [List.length_append, List.length_singleton]
    exact hidx
  · rw [List.map_append, List.map_singleton]
    refine h.ring.push (by decide) ?_ fun i hi => ?_
    · rw [Trb.cycle_stamp, List.length_map, cycleAt_first _ (by omega)]
    · rw [List.length_map, Nat.mod_eq_of_lt (by omega : s.queued.length < 32)]
      exact hslot i hi
  · have hkept := hslot 31 (by decide)
    rw [if_neg hlast, h.link] at hkept
    simpa only [XhciController.slots] using hkept
  · rw [List.map_append]
    exact h.order.trans (List.prefix_append ..)

lemma Inv.fetch (h : Inv base s) : Inv base s.fetch := by
  rw [h.fetch_eq]
  split_ifs with hlt
  · refine ⟨h.aligned, h.cmdRing, h.cmdRingIdx, h.cmdPcs, h.lap, h.ring, h.link, ?_, h.consumerCycle, ?_⟩
    · rw [List.length_append, List.length_singleton]
    · have hlt' : s.executed.length < (s.queued.map fun c => c.val.stamp true).length := by
        rwa [List.length_map]
      have hprefix := prefix_concat h.order hlt'
      rwa [List.getElem_map] at hprefix
  · exact h

lemma Inv.step {op : CmdOp} (h : Inv base s) (hs : s.BeforeLink op) (ht : s.step op s') : Inv base s' := by
  rw [ht]
  cases op with
  | queue command => exact h.queue hs
  | fetch => exact h.fetch

lemma Inv.spoil (h : Inv base s) {op : CmdOp} (hs : ¬ s.BeforeLink op) : ¬ (s.exec op).Good := by
  cases op with
  | fetch => exact (hs trivial).elim
  | queue command =>
    have hlap := h.lap
    have hidx : s.driver.cmdRingIdx = 31 := by
      have hge : ¬ s.driver.cmdRingIdx < 31 := hs
      have hlen := h.cmdRingIdx
      omega
    obtain ⟨hring, hlink⟩ := queueCmd_last h.cmdPcs hidx command
    intro hgood
    have hgoodLink := hgood.link.1
    change ((s.driver.queueCmd command).slots (s.driver.queueCmd command).cmdRing 31).isLink = true at hgoodLink
    rw [hring, hlink, command.property] at hgoodLink
    cases hgoodLink

/-- Setting up the command ring clears it, puts the link at its end and writes `CRCR`. -/
lemma initCmdRing_spec (x : XhciController) (f : Nat) : ∃ mem regs,
    x.initCmdRing (BitVec.ofNat 64 (f * 4096)) =
      { x with cmdRing := BitVec.ofNat 64 (f * 4096), trbs := mem, opRegs := regs } ∧
    (∀ i < 31, mem (trbAddr (BitVec.ofNat 64 (f * 4096)) i) = ⟨0#64, 0#32, 0#32⟩) ∧
    mem (trbAddr (BitVec.ofNat 64 (f * 4096)) 31) = ⟨BitVec.ofNat 64 (f * 4096), 0#32, trbTypeLink⟩ ∧
    regs (opRegCrcr + 4) ++ regs opRegCrcr = BitVec.ofNat 64 (f * 4096) ||| 1#64 := by
  generalize BitVec.ofNat 64 (f * 4096) = base
  obtain ⟨mem, hmem, hzero⟩ := clearRing_spec { x with cmdRing := base } base (by decide : xhciMaxCommands ≤ 2 ^ 32)
  refine ⟨Function.update mem (trbAddr base 31) ⟨base, 0#32, trbTypeLink⟩, (x.initCmdRing base).opRegs, ?_,
    fun i hi => ?_, Function.update_self .., ?_⟩
  · simp only [XhciController.initCmdRing, hmem, XhciController.store, XhciController.writeOpReg]
    rfl
  · rw [Function.update_of_ne]
    · refine hzero i ?_
      change i < 32
      omega
    · intro heq
      have hi31 := trbAddr_inj (by omega) (by decide) heq
      omega
  · have hlow : highHalf base ++ (base.setWidth 32 ||| crcrHcs) = base ||| 1#64 := by
      have hbase : highHalf base ++ base.setWidth 32 = base := append_halves base
      have hone : 0#32 ++ crcrHcs = 1#64 := by decide
      rw [← hone, ← hbase, BitVec.or_append, BitVec.or_zero, hbase]
    simp [XhciController.initCmdRing, XhciController.writeOpReg, opRegCrcr, Function.update, hlow]

lemma inv_start (x : XhciController) (f : Nat) : Inv (BitVec.ofNat 64 (f * 4096)) (start x f) := by
  have haligned : (BitVec.ofNat 64 (f * 4096)).toNat % 4096 = 0 := by
    rw [BitVec.toNat_ofNat]
    omega
  have hlow : (BitVec.ofNat 64 (f * 4096)).toNat % 2 ^ 6 = 0 := by omega
  obtain ⟨mem, regs, hinit, hzero, hlink, hcrcr⟩ := initCmdRing_spec { x with cmdRingIdx := 0, cmdPcs := 1#8 } f
  rw [start, hinit]
  simp only [crcr, hcrcr]
  refine ⟨haligned, rfl, rfl, rfl, Nat.zero_le _, .init fun i hi => ?_, hlink, ?_, ?_, List.prefix_rfl⟩
  · change (mem (trbAddr (BitVec.ofNat 64 (f * 4096)) i)).cycle = false
    by_cases hlast : i = 31
    · have hbit : trbTypeLink.getLsbD 0 = false := by decide
      rw [hlast, hlink]
      exact hbit
    · rw [hzero i (by omega)]
      rfl
  · have hone : (1#64) >>> 6 = 0#64 := by decide
    rw [BitVec.ushiftRight_or_distrib, hone, BitVec.or_zero, shift_back hlow]
    exact (BitVec.add_zero _).symm
  · rw [BitVec.getLsbD_or]
    exact Bool.or_true _

end CmdRing

open CmdRing

/-- While the driver's index is before the link, the controller executes the queued commands in order
and the ring stays as it is meant to be. Conversely, if it does so throughout a run, every command of
the run is queued before the link, so there are 31 of them at most. -/
theorem commands_executed_iff (x : XhciController) (f : Nat) (ops : List CmdOp) :
    (∀ pre s, pre <+: ops → Run CmdRing.step (start x f) pre s → s.Good) ↔
      Along BeforeLink CmdRing.step (start x f) ops := by
  have h0 := inv_start x f
  constructor
  · intro hgood
    refine along_of_good (Inv (BitVec.ofNat 64 (f * 4096))) Good h0 (fun s op t hs ho ht => hs.step ho ht) ?_ hgood
    intro s op hs ho
    exact ⟨s.exec op, rfl, hs.spoil ho⟩
  · intro hok pre s hpre hrun
    exact (hrun.invariant (Inv (BitVec.ofNat 64 (f * 4096))) (hok.initial hpre) h0
      fun s op t hs ho ht => hs.step ho ht).good

/-- The block of `no_op_cmd`. -/
def noOpCommand : Command := ⟨⟨0#64, 0#32, trbTypeNoOpCmd⟩, rfl⟩

/-- The 32nd command is written over the link, and the controller leaves the ring behind it. -/
theorem command_overwrites_link : ∃ s,
    Run CmdRing.step (start blankXhci 0x900) (List.replicate 32 [.queue noOpCommand, .fetch]).flatten s ∧
      (s.driver.slots s.driver.cmdRing 31).isLink = false ∧
      s.dequeue = trbAddr s.driver.cmdRing 32 ∧ ¬ s.Good := by
  refine ⟨_, .of_exec CmdRing.exec _ _, ?_, ?_, fun hgood => ?_⟩
  · decide +kernel
  · decide +kernel
  · have hlink := hgood.link.1
    revert hlink
    decide +kernel

end HaiirOS
