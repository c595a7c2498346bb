import HaiirOS.Lib.Gates

/-!
# The interrupt descriptor table

`init_gate` and `init_interrupts` of `idt.c`, with the gates that `init_exceptions`, `apic_init_irq_handlers` and
`init_irq_handlers` fill in.
-/

namespace HaiirOS

/-- `struct IDT_descr` -/
structure IdtDescr where
  offset1 : BitVec 16
  selector : BitVec 16
  ist : BitVec 8
  type : BitVec 8
  offset2 : BitVec 16
  offset3 : BitVec 32
  zero : BitVec 32

/-- The sixteen bytes of a descriptor, the lowest address last. -/
def IdtDescr.image (d : IdtDescr) : BitVec 128 :=
  d.zero ++ d.offset3 ++ d.offset2 ++ d.type ++ d.ist ++ d.selector ++ d.offset1

/-- The static variable `idt` -/
abbrev Idt := BitVec 8 → IdtDescr

def codeSeg : BitVec 16 := 0x08#16
def istNone : BitVec 8 := 0#8
def istNoMaskableInt : BitVec 8 := 1#8
def istDoubleFault : BitVec 8 := 2#8
def interruptGate : BitVec 8 := 0xe#8
def gatePresent : BitVec 8 := 1#8 <<< 7

/-- The functions that the gates lead to. -/
inductive IdtHandler where
  /-- `exc0` to `exc19` -/
  | exc (n : BitVec 8)
  /-- `apic_interrupt_handler_wrapper32` to `apic_interrupt_handler_wrapper253` -/
  | apicInterruptHandlerWrapper (vector : BitVec 8)
  | apicErrHandler
  | apicSpuriousInterruptHandler
  | timerHandler
  | keyboardHandler
  | interruptHandler
deriving DecidableEq

/-- The handlers that are declared with an error code. -/
def IdtHandler.takesErrCode : IdtHandler → Bool
  | .exc n => [8#8, 10#8, 11#8, 12#8, 13#8, 14#8, 17#8].contains n
  | _ => false

namespace Idt

/-- The table before any call. -/
def zero : Idt := fun _ => ⟨0#16, 0#16, 0#8, 0#8, 0#16, 0#32, 0#32⟩

def initGate (idt : Idt) (idtIndex : BitVec 8) (base : BitVec 64) (selector : BitVec 16) (type ist : BitVec 8) : Idt :=
  fun i => if i = idtIndex then
    { offset1 := base.setWidth 16
      selector := selector
      ist := ist
      type := type
      offset2 := (base >>> 16).setWidth 16
      offset3 := (base >>> 32).setWidth 32
      zero := 0#32 }
  else idt i

/-- A call of `init_gate` in the three functions below, which differ in these arguments. -/
structure GateCall where
  idtIndex : BitVec 8
  handler : IdtHandler
  ist : BitVec 8
deriving DecidableEq

/-- Calls of `init_gate` with the addresses of the handlers. -/
def initGates (addr : IdtHandler → BitVec 64) (calls : List GateCall) (idt : Idt) : Idt :=
  calls.foldl (fun idt c => idt.initGate c.idtIndex (addr c.handler) codeSeg (gatePresent ||| interruptGate) c.ist) idt

/-- The calls of `init_exceptions`. -/
def exceptionGates : List GateCall :=
  [⟨0#8, .exc 0#8, istNone⟩, ⟨1#8, .exc 1#8, istNone⟩, ⟨2#8, .exc 2#8, istNoMaskableInt⟩, ⟨3#8, .exc 3#8, istNone⟩,
    ⟨4#8, .exc 4#8, istNone⟩, ⟨5#8, .exc 5#8, istNone⟩, ⟨6#8, .exc 6#8, istNone⟩, ⟨7#8, .exc 7#8, istNone⟩,
    ⟨8#8, .exc 8#8, istDoubleFault⟩, ⟨9#8, .exc 9#8, istNone⟩, ⟨10#8, .exc 10#8, istNone⟩, ⟨11#8, .exc 11#8, istNone⟩,
    ⟨12#8, .exc 12#8, istNone⟩, ⟨13#8, .exc 13#8, istNone⟩, ⟨14#8, .exc 14#8, istNone⟩, ⟨15#8, .exc 15#8, istNone⟩,
    ⟨16#8, .exc 16#8, istNone⟩, ⟨17#8, .exc 17#8, istNone⟩, ⟨18#8, .exc 18#8, istNone⟩, ⟨19#8, .exc 19#8, istNone⟩]

def initExceptions (addr : IdtHandler → BitVec 64) : Idt → Idt := initGates addr exceptionGates

/-- The calls of `apic_init_irq_handlers`. -/
def apicGates : List GateCall :=
  ⟨254#8, .apicErrHandler, istNone⟩ :: ⟨255#8, .apicSpuriousInterruptHandler, istNone⟩ ::
    (List.range 222).map fun k => ⟨32#8 + BitVec.ofNat 8 k, .apicInterruptHandlerWrapper (32#8 + BitVec.ofNat 8 k), istNone⟩

def apicInitIrqHandlers (addr : IdtHandler → BitVec 64) : Idt → Idt := initGates addr apicGates

/-- The calls of `init_irq_handlers`. -/
def irqGates : List GateCall :=
  ⟨32#8, .timerHandler, istNone⟩ :: ⟨33#8, .keyboardHandler, istNone⟩ ::
    (List.range 221).map fun k => ⟨35#8 + BitVec.ofNat 8 k, .interruptHandler, istNone⟩

def initIrqHandlers (addr : IdtHandler → BitVec 64) : Idt → Idt := initGates addr irqGates

/-- `init_interrupts`: with an APIC `init_apic` fills in the gates, without one `init_pic`. -/
def initInterrupts (apicAvailable : Bool) (addr : IdtHandler → BitVec 64) (idt : Idt) : Idt :=
  if apicAvailable then (idt.initExceptions addr).apicInitIrqHandlers addr
  else (idt.initIrqHandlers addr).initExceptions addr

end Idt

end HaiirOS
