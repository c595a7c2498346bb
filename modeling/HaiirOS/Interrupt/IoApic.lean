import HaiirOS.Boot.Madt
import Mathlib.Logic.Function.Basic

/-!
# The IOAPIC driver

The functions of `ioapic.c`, with the dispatch of `irq.c` and the calls that `init_apic` makes.
The registers of an IOAPIC are those behind the window at its address. A driver's handler is an
element of `H`; what it does when it runs is not part of the model, only that it runs.
-/

namespace HaiirOS

def isaInterruptCount : Nat := 0x10
def interruptBase : BitVec 8 := 0x20#8
def ioVectorCount : Nat := 256 - interruptBase.toNat
def maxIoApics : Nat := 0xff

def ioApicMasked : BitVec 64 := 1#64 <<< 16
def ioApicIdOffset : BitVec 8 := 0#8
def ioApicVerOffset : BitVec 8 := 1#8

/-- `IOAPICREDTBL_OFFSET(idx)`, as the `uint8_t` that it is passed as -/
def ioApicRedtblOffset (idx : BitVec 8) : BitVec 8 := 0x10#8 + 2#8 * idx

/-- `ioapic_t` -/
structure IoApic where
  addr : BitVec 32
  gsiBase : BitVec 32
  id : BitVec 8
  maxEntries : BitVec 8
  version : BitVec 8
deriving DecidableEq

/-- What an `interrupt_handler_t` that is not null points to. -/
inductive IoFunc (H : Type) where
  | ioHandlerSourceOverride
  | driver (h : H)
deriving DecidableEq

/-- `io_handler_t` -/
structure IoHandler (H : Type) where
  func : Option (IoFunc H)
  data : BitVec 64
  vector : BitVec 8
deriving DecidableEq

/-- What an interrupt makes happen: a driver's handler runs, or the interrupt is acknowledged. -/
inductive IrqEvent (H : Type) where
  | call (h : H) (data : BitVec 64)
  | eoi
deriving DecidableEq

/-- The tables of `ioapic.c`, with `ioapics` up to `ioapics_len`, and the registers of the IOAPICs. -/
structure IoApics (H : Type) where
  ioapics : List IoApic
  overrides : BitVec 8 → Option MadtOverride
  allocated : Nat → Bool
  handlers : BitVec 8 → IoHandler H
  regs : BitVec 32 → BitVec 8 → BitVec 32

namespace IoApics

variable {H : Type}

/-- `ioapic_write_reg` -/
def writeReg (s : IoApics H) (base : BitVec 32) (offset : BitVec 8) (value : BitVec 32) : IoApics H :=
  { s with regs := Function.update s.regs base (Function.update (s.regs base) offset value) }

/-- `ioapic_write_entry` -/
def writeEntry (s : IoApics H) (ioapic : IoApic) (entryIdx : BitVec 8) (entry : BitVec 64) : IoApics H :=
  (s.writeReg ioapic.addr (ioApicRedtblOffset entryIdx) (entry.setWidth 32)).writeReg ioapic.addr
    (ioApicRedtblOffset entryIdx + 1#8) ((entry >>> 32).setWidth 32)

/-- `ioapic_read_entry` -/
def readEntry (s : IoApics H) (ioapic : IoApic) (entryIdx : BitVec 8) : BitVec 64 :=
  let low := (s.regs ioapic.addr (ioApicRedtblOffset entryIdx)).setWidth 64
  let high := (s.regs ioapic.addr (ioApicRedtblOffset entryIdx + 1#8)).setWidth 64
  (high <<< 32) ||| low

def getIoApic (s : IoApics H) (gsi : BitVec 8) : Option IoApic :=
  s.ioapics.find? fun ioapic =>
    ioapic.gsiBase ≤ gsi.setWidth 32 ∧ gsi.setWidth 32 < ioapic.maxEntries.setWidth 32 + ioapic.gsiBase

def enableIoInterrupt (s : IoApics H) (gsi : BitVec 8) : Except Stop (IoApics H) :=
  let gsi := match (if gsi.toNat < isaInterruptCount then s.overrides gsi else none) with
    | some override => override.globalSystemInt.setWidth 8
    | none => gsi
  match s.getIoApic gsi with
  | none => .error .nullIoApic
  | some ioapic =>
    let entryIdx := (gsi.setWidth 32 - ioapic.gsiBase).setWidth 8
    let entry := s.readEntry ioapic entryIdx
    .ok (s.writeEntry ioapic entryIdx (entry &&& ~~~ioApicMasked))

def disableIoInterrupt (s : IoApics H) (gsi : BitVec 8) : Except Stop (IoApics H) :=
  match s.getIoApic gsi with
  | none => .error .nullIoApic
  | some ioapic =>
    let entryIdx := (gsi.setWidth 32 - ioapic.gsiBase).setWidth 8
    let entry := s.readEntry ioapic entryIdx
    .ok (s.writeEntry ioapic entryIdx (entry ||| ioApicMasked))

/-- `allocated_io_interrupts[i]`, read -/
def isAllocated (s : IoApics H) (i : Nat) : Except Stop Bool :=
  if i < ioVectorCount then .ok (s.allocated i) else .error .outOfTable

/-- `allocated_io_interrupts[i]`, written -/
def setAllocated (s : IoApics H) (i : Nat) (b : Bool) : Except Stop (IoApics H) :=
  if i < ioVectorCount then .ok { s with allocated := Function.update s.allocated i b } else .error .outOfTable

/-- `reserve_io_interrupt`; for an invalid vector it prints an error and goes on. -/
def reserveIoInterrupt (s : IoApics H) (vector : BitVec 8) : Except Stop (IoApics H) := do
  let _ ← s.isAllocated vector.toNat
  s.setAllocated vector.toNat true

def freeIoInterrupt (s : IoApics H) (vector : BitVec 8) : Except Stop (IoApics H) := do
  let _ ← s.isAllocated vector.toNat
  s.setAllocated vector.toNat false

/-- The loop of `alloc_io_interrupts` that looks for `count` vectors from `i` on. It moves `i` while it
goes; the result is where it leaves it and `found`. -/
def scanRun (s : IoApics H) (count i : Nat) : Except Stop (Nat × Bool) :=
  (List.range count).foldlM (fun (i, found) j => do
    let allocated ← s.isAllocated (i + j)
    return if allocated then (i + j, false) else (i, found)) (i, true)

/-- The loop of `alloc_io_interrupts` that takes the vectors it found. -/
def takeRun (s : IoApics H) (count i : Nat) : Except Stop (IoApics H) :=
  (List.range count).foldlM (fun s j => do
    let s ← s.setAllocated (i + j) true
    s.reserveIoInterrupt (BitVec.ofNat 8 (i + j))) s

/-- The outer loop of `alloc_io_interrupts` from `i` on, for at most the given number of iterations. -/
def allocFrom (s : IoApics H) (count : Nat) : Nat → Nat → Except Stop (Option (BitVec 8) × IoApics H)
  | 0, _ => .ok (none, s)
  | n + 1, i =>
    if i < ioVectorCount then do
      let allocated ← s.isAllocated i
      if allocated then s.allocFrom count n (i + 1)
      else
        let (i, found) ← s.scanRun count i
        if found then
          let s ← s.takeRun count i
          return (some (BitVec.ofNat 8 i), s)
        else s.allocFrom count n (i + 1)
    else .ok (none, s)

/-- `alloc_io_interrupts`; the result is `*firstVector` where it returns 0, none where it returns -1. -/
def allocIoInterrupts (s : IoApics H) (count : BitVec 8) : Except Stop (Option (BitVec 8) × IoApics H) :=
  s.allocFrom count.toNat ioVectorCount 0

/-- `install_io_interrupt_handler`; the result is true where it returns 0, false where it returns -1. -/
def installIoInterruptHandler (s : IoApics H) (vector : BitVec 8) (handler : Option (IoFunc H)) (data : BitVec 64) :
    Except Stop (Bool × IoApics H) :=
  if vector.toNat ≥ ioVectorCount then .ok (false, s)
  else if (s.handlers vector).func.isNone ∧ (s.handlers vector).vector = 0#8 ∧ (s.handlers vector).data = 0#64 then do
    let s := { s with handlers := Function.update s.handlers vector ⟨handler, data, vector⟩ }
    let s ← s.enableIoInterrupt vector
    return (true, s)
  else .ok (false, s)

def removeIoInterruptHandler (s : IoApics H) (vector : BitVec 8) : Except Stop (Bool × IoApics H) :=
  if vector.toNat ≥ ioVectorCount then .ok (false, s)
  else do
    let s := { s with handlers := Function.update s.handlers vector ⟨none, 0#64, 0#8⟩ }
    let s ← s.disableIoInterrupt vector
    return (true, s)

/-- `exec_io_handler` with the handler that it calls, where a forwarding handler calls `exec_io_handler`
again; for an undefined handler it prints an error and goes on. -/
def execIoHandler (s : IoApics H) : Nat → BitVec 8 → Except Stop (List (IrqEvent H))
  | 0, _ => .error .fuel
  | fuel + 1, vector =>
    if vector.toNat ≥ ioVectorCount then .error .outOfTable
    else match (s.handlers vector).func with
      | none => .error .nullHandler
      | some .ioHandlerSourceOverride => s.execIoHandler fuel ((s.handlers vector).data.setWidth 8)
      | some (.driver h) => .ok [.call h (s.handlers vector).data]

def apicInterruptHandler (s : IoApics H) (fuel : Nat) (vector : BitVec 8) : Except Stop (List (IrqEvent H)) :=
  if vector < interruptBase then .ok [.eoi]
  else do
    let events ← s.execIoHandler fuel (vector - interruptBase)
    return events ++ [.eoi]

/-- `get_io_apics`, without the mapping of the registers -/
def getIoApics (s : IoApics H) (madt : Madt) (fuel : Nat) : Except Stop (IoApics H) :=
  madt.walk (fun type i s =>
    if type = madtEntryIoApic then do
      let ioapic ← madt.ioApicAt i
      let s := s.writeReg ioapic.addr ioApicIdOffset (ioapic.id.setWidth 32)
      let version := (s.regs ioapic.addr ioApicVerOffset &&& 0xff#32).setWidth 8
      let maxEntries := (((s.regs ioapic.addr ioApicVerOffset >>> 16) + 1#32) &&& 0xff#32).setWidth 8
      if s.ioapics.length < maxIoApics then
        return { s with ioapics := s.ioapics ++ [⟨ioapic.addr, ioapic.gsiBase, ioapic.id, maxEntries, version⟩] }
      else .error .outOfTable
    else .ok s) fuel 0#32 s

def initOverrides (s : IoApics H) (madt : Madt) (fuel : Nat) : Except Stop (IoApics H) :=
  madt.walk (fun type i s =>
    if type = madtEntryIntSrcOverride then do
      let override ← madt.overrideAt i
      if override.globalSystemInt.toNat ≥ isaInterruptCount then .ok s
      else if override.irqSrc.toNat ≥ isaInterruptCount then .error .outOfTable
      else
        let s := { s with overrides := Function.update s.overrides override.irqSrc (some override) }
        let (_, s) ← s.installIoInterruptHandler (override.globalSystemInt.setWidth 8) (some .ioHandlerSourceOverride)
          (override.irqSrc.setWidth 64)
        return s
    else .ok s) fuel 0#32 s

def overrideEntry (s : IoApics H) (entry : BitVec 64) (srcIrq : BitVec 8) : BitVec 64 :=
  match s.overrides srcIrq with
  | none => entry
  | some override =>
    let polarity := override.flags &&& 3#16
    let entry :=
      if polarity = 3#16 then (entry &&& ~~~(1#64 <<< 13)) ||| (1#64 <<< 13)
      else if polarity = 0#16 then (entry &&& ~~~(1#64 <<< 13)) ||| 0#64
      else entry
    let triggerMode := (override.flags >>> 2) &&& 3#16
    if triggerMode = 3#16 then (entry &&& ~~~(1#64 <<< 15)) ||| (1#64 <<< 15)
    else if triggerMode = 0#16 then (entry &&& ~~~(1#64 <<< 15)) ||| 0#64
    else entry

/-- The entry that `init_io_apics` writes for a GSI. -/
def initialEntry (s : IoApics H) (localApicId : BitVec 8) (gsi : BitVec 8) : BitVec 64 :=
  let entry := (localApicId.setWidth 64 <<< 56) ||| ioApicMasked ||| 0#64 ||| (gsi.setWidth 64 + interruptBase.setWidth 64)
  if gsi = 0#8 then entry ||| (0#64 ||| 0#64 ||| (7#64 <<< 8))
  else if gsi.toNat < isaInterruptCount then s.overrideEntry (entry ||| (0#64 ||| 0#64 ||| 0#64)) gsi
  else entry ||| ((1#64 <<< 15) ||| (1#64 <<< 13) ||| 0#64)

/-- The loop of `init_io_apics` over the entries of an IOAPIC. -/
def initEntries (s : IoApics H) (localApicId : BitVec 8) (ioapic : IoApic) : Except Stop (IoApics H) :=
  (List.range ioapic.maxEntries.toNat).foldlM (fun s entryIdx =>
    let gsi := ioapic.gsiBase.setWidth 8 + BitVec.ofNat 8 entryIdx
    (s.writeEntry ioapic (BitVec.ofNat 8 entryIdx) (s.initialEntry localApicId gsi)).reserveIoInterrupt gsi) s

def initIoApics (s : IoApics H) (madt : Madt) (localApicId : BitVec 8) (fuel : Nat) : Except Stop (IoApics H) := do
  let s ← s.getIoApics madt fuel
  let s ← s.initOverrides madt fuel
  s.ioapics.foldlM (fun s ioapic => s.initEntries localApicId ioapic) s

/-- `init_apic`, the calls that concern the IOAPICs: the vectors of the local APIC's own interrupts are
reserved, and the keyboard's handler is installed. -/
def initApic (s : IoApics H) (madt : Madt) (localApicId : BitVec 8) (keyboard : H) (fuel : Nat) :
    Except Stop (IoApics H) := do
  let s ← s.initIoApics madt localApicId fuel
  let s ← s.reserveIoInterrupt (0xff#8 - interruptBase)
  let s ← s.reserveIoInterrupt (0xfe#8 - interruptBase)
  let (_, s) ← s.installIoInterruptHandler 1#8 (some (.driver keyboard)) 0#64
  return s

/-- The tables before `init_apic`; the registers are as the hardware has them. -/
def blank (regs : BitVec 32 → BitVec 8 → BitVec 32) : IoApics H :=
  ⟨[], fun _ => none, fun _ => false, fun _ => ⟨none, 0#64, 0#8⟩, regs⟩

end IoApics

end HaiirOS
