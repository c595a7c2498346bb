import HaiirOS.Lib.Words

/-!
# The xHCI driver's rings

The command and event ring routines of `xhci.c`. A ring is an array of transfer request
blocks in memory; memory is kept as the block at each address of one, since the driver only
reads and writes whole blocks. The physical addresses of the rings are arguments of the
init functions, in place of the calls of `pmm_alloc_custom`.
-/

namespace HaiirOS

/-- `xhci_trb_t` -/
structure Trb where
  addr : BitVec 64
  status : BitVec 32
  flags : BitVec 32
deriving DecidableEq

/-- `xhci_erst_entry_t` -/
structure ErstEntry where
  baseAddr : BitVec 64
  size : BitVec 16

/-- The fields of `xhci_controller_t` that the rings need, the memory and the registers behind
its pointers. The table `erst` has one entry. -/
structure XhciController where
  erst : ErstEntry
  cmdRing : BitVec 64
  cmdRingIdx : Nat
  cmdPcs : BitVec 8
  eventIdx : Nat
  eventCcs : BitVec 8
  trbs : BitVec 64 → Trb
  opRegs : Nat → BitVec 32
  runtimeRegs : Nat → BitVec 32
  doorbell : BitVec 32

def xhciMaxEvents : Nat := 16 * 2
def xhciMaxCommands : Nat := 16 * 2

def crcrHcs : BitVec 32 := 1#32
def opRegCrcr : Nat := 0x18

/-- `RUNTIME_REG_ERSTSZ(interrupter)` -/
def runtimeRegErstsz (interrupter : Nat) : Nat := 0x28 + interrupter * 32

/-- `RUNTIME_REG_ERSTBA(interrupter)` -/
def runtimeRegErstba (interrupter : Nat) : Nat := 0x30 + interrupter * 32

/-- `RUNTIME_REG_ERDP(interrupter)` -/
def runtimeRegErdp (interrupter : Nat) : Nat := 0x38 + interrupter * 32

def trbCycleBit : BitVec 32 := 1#32
def trbTcBit : BitVec 32 := 2#32
def trbTypeLink : BitVec 32 := 6#32 <<< 10
def trbTypeEnableSlotCmd : BitVec 32 := 9#32 <<< 10
def trbTypeNoOpCmd : BitVec 32 := 23#32 <<< 10

/-- `&ring[i]`; a block has 16 bytes. -/
def trbAddr (ring : BitVec 64) (i : Nat) : BitVec 64 := ring + BitVec.ofNat 64 (16 * i)

/-- The upper half of a 64-bit value, as it is written to the second register of a pair. -/
def highHalf (v : BitVec 64) : BitVec 32 := (v >>> 32).setWidth 32

namespace XhciController

def store (x : XhciController) (a : BitVec 64) (trb : Trb) : XhciController :=
  { x with trbs := Function.update x.trbs a trb }

def writeOpReg (x : XhciController) (regOff : Nat) (value : BitVec 32) : XhciController :=
  { x with opRegs := Function.update x.opRegs regOff value }

def writeRuntime (x : XhciController) (regOff : Nat) (value : BitVec 32) : XhciController :=
  { x with runtimeRegs := Function.update x.runtimeRegs regOff value }

def ring (x : XhciController) (taskId : BitVec 16) (target : BitVec 8) : XhciController :=
  { x with doorbell := (taskId.setWidth 32 <<< 16) ||| target.setWidth 32 }

def clearRing (x : XhciController) (ring : BitVec 64) : Nat → XhciController
  | 0 => x
  | len + 1 => (x.clearRing ring len).store (trbAddr ring len) ⟨0#64, 0#32, 0#32⟩

def initCmdRing (x : XhciController) (cmdRingAddr : BitVec 64) : XhciController :=
  let x := { x with cmdRing := cmdRingAddr }
  let x := x.clearRing x.cmdRing xhciMaxCommands
  let x := x.store (trbAddr x.cmdRing (xhciMaxCommands - 1)) ⟨cmdRingAddr, 0#32, trbTypeLink⟩
  let x := x.writeOpReg opRegCrcr (cmdRingAddr.setWidth 32 ||| crcrHcs)
  x.writeOpReg (opRegCrcr + 4) (highHalf cmdRingAddr)

def createEventRingSeg (x : XhciController) (eventRing : BitVec 64) : ErstEntry × XhciController :=
  (⟨eventRing, BitVec.ofNat 16 xhciMaxEvents⟩, x.clearRing eventRing xhciMaxEvents)

def initEventRingSegTable (x : XhciController) (addr eventRing : BitVec 64) : XhciController :=
  let r := x.createEventRingSeg eventRing
  let x := { r.2 with erst := r.1 }
  let erdp := x.erst.baseAddr
  let x := x.writeRuntime (runtimeRegErstsz 0) 1#32
  let x := x.writeRuntime (runtimeRegErdp 0) (erdp.setWidth 32)
  let x := x.writeRuntime (runtimeRegErdp 0 + 4) (highHalf erdp)
  let x := x.writeRuntime (runtimeRegErstba 0) (addr.setWidth 32)
  x.writeRuntime (runtimeRegErstba 0 + 4) (highHalf addr)

def queueCmd (x : XhciController) (trb : Trb) : XhciController :=
  let trb := if x.cmdPcs ≠ 0#8 then { trb with flags := trb.flags ||| trbCycleBit }
    else { trb with flags := trb.flags &&& ~~~trbCycleBit }
  let x := x.store (trbAddr x.cmdRing x.cmdRingIdx) trb
  let x := { x with cmdRingIdx := (x.cmdRingIdx + 1) % 2 ^ 32 }
  if x.cmdRingIdx ≥ xhciMaxCommands then
    let last := trbAddr x.cmdRing (xhciMaxCommands - 1)
    let x := x.store last { x.trbs last with flags := (x.trbs last).flags ||| trbTcBit }
    let x := if x.cmdPcs ≠ 0#8 then
        x.store last { x.trbs last with flags := (x.trbs last).flags ||| trbCycleBit }
      else x
    { x with cmdRingIdx := 0, cmdPcs := x.cmdPcs ^^^ 1#8 }
  else x

/-- One iteration of the loop of `process_event`, with the event that it takes, if any. -/
def processEvent (x : XhciController) : Option Trb × XhciController :=
  let erdp := x.erst.baseAddr
  let cycleBit := (x.trbs (trbAddr erdp x.eventIdx)).flags &&& trbCycleBit ≠ 0#32
  if (if cycleBit then 1#8 else 0#8) ≠ x.eventCcs then (none, x) else
    let trb := x.trbs (trbAddr erdp x.eventIdx)
    let x := { x with eventIdx := (x.eventIdx + 1) % 2 ^ 32 }
    let x := if x.eventIdx = xhciMaxEvents then { x with eventIdx := 0, eventCcs := x.eventCcs ^^^ 1#8 } else x
    let x := x.writeRuntime (runtimeRegErdp 0) ((trbAddr erdp x.eventIdx).setWidth 32)
    let x := x.writeRuntime (runtimeRegErdp 0 + 4) (highHalf (trbAddr erdp x.eventIdx))
    (some trb, x)

def noOpCmd (x : XhciController) : XhciController :=
  (x.queueCmd ⟨0#64, 0#32, 0#32 ||| trbTypeNoOpCmd⟩).ring 0#16 0#8

def enableSlotCmd (x : XhciController) : XhciController :=
  (x.queueCmd ⟨0#64, 0#32, 0#32 ||| trbTypeEnableSlotCmd⟩).ring 0#16 0#8

end XhciController

end HaiirOS
