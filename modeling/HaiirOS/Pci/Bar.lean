import HaiirOS.Pci.Enumerate

/-!
# Base address registers

`get_bar` of `pci.c` over the configuration registers of a device: each dword has a value and a
mask of the bits that a write changes. Below it what a register of each kind holds.
-/

namespace HaiirOS

/-- `pci_bar_t` -/
structure PciBar where
  base : BitVec 64
  size : BitVec 64
  is64bits : Bool
  isPrefetchable : Bool
  isMmio : Bool
deriving DecidableEq

/-- The configuration dwords and their writable bits, by the word written to the address port. -/
structure PciRegs where
  value : PciConfig
  writable : BitVec 32 → BitVec 32

/-- The word that selects a dword of the configuration space. -/
def pciAddr (bus slot func offset : BitVec 8) : BitVec 32 :=
  (bus.setWidth 32 <<< 16) ||| (slot.setWidth 32 <<< 11) ||| (func.setWidth 32 <<< 8) |||
    (1#32 <<< 31) ||| (offset &&& 0xfc#8).setWidth 32

namespace PciRegs

/-- `pci_writed`, at an offset that is a multiple of four. -/
def pciWrited (regs : PciRegs) (bus slot func offset : BitVec 8) (value : BitVec 32) : PciRegs :=
  let addr := pciAddr bus slot func offset
  let mask := regs.writable addr
  { regs with value := fun a => if a = addr then (regs.value addr &&& ~~~mask) ||| (value &&& mask) else regs.value a }

/-- `get_bar`, with the registers as it leaves them. -/
def getBar (regs : PciRegs) (dev : PciDev) (bar : BitVec 8) : PciBar × PciRegs :=
  let offset : BitVec 32 := 0x10#32 + bar.setWidth 32 * 4#32
  let baseLow := regs.value.pciReadd dev.bus dev.slot dev.func (offset.setWidth 8)
  let isMmio := baseLow &&& 1#32 == 0#32
  let isPrefetchable := isMmio && baseLow &&& (1#32 <<< 3) != 0#32
  let is64bits := isMmio && baseLow &&& 6#32 == 2#32
  let baseHigh :=
    if is64bits then regs.value.pciReadd dev.bus dev.slot dev.func ((offset + 4#32).setWidth 8) else 0#32
  let base : BitVec 64 := (baseHigh.setWidth 64 <<< 32) ||| baseLow.setWidth 64
  let base := if isMmio then base &&& ~~~0xf#64 else base &&& ~~~0xd#64
  let regs := regs.pciWrited dev.bus dev.slot dev.func (offset.setWidth 8) (-1#32)
  let sizeLow := regs.value.pciReadd dev.bus dev.slot dev.func (offset.setWidth 8)
  let regs := regs.pciWrited dev.bus dev.slot dev.func (offset.setWidth 8) baseLow
  let (sizeHigh, regs) :=
    if is64bits then
      let regs := regs.pciWrited dev.bus dev.slot dev.func ((offset + 4#32).setWidth 8) (-1#32)
      let sizeHigh := regs.value.pciReadd dev.bus dev.slot dev.func ((offset + 4#32).setWidth 8)
      (sizeHigh, regs.pciWrited dev.bus dev.slot dev.func ((offset + 4#32).setWidth 8) baseHigh)
    else (-1#32, regs)
  let size : BitVec 64 := (sizeHigh.setWidth 64 <<< 32) ||| sizeLow.setWidth 64
  let size := if isMmio then size &&& ~~~0xf#64 else size &&& ~~~0xd#64
  let size := ~~~size + 1#64
  (⟨base, size, is64bits, isPrefetchable, isMmio⟩, regs)

end PciRegs

/-! ### What the registers of a BAR hold -/

inductive BarKind
  | mem32
  | mem64
  | io
deriving DecidableEq

def BarKind.width : BarKind → Nat
  | mem32 => 32
  | mem64 => 64
  | io => 32

/-- The number of low bits that tell the type, none of them part of the address. -/
def BarKind.typeBits : BarKind → Nat
  | mem32 => 4
  | mem64 => 4
  | io => 2

/-- A BAR of `2 ^ sizeBits` bytes: its base is a multiple of its size. -/
structure Bar where
  kind : BarKind
  prefetchable : Bool
  sizeBits : Nat
  base : BitVec 64
  typeBits_le : kind.typeBits ≤ sizeBits
  sizeBits_lt : sizeBits < kind.width
  base_mod : base.toNat % 2 ^ sizeBits = 0
  base_lt : base.toNat < 2 ^ kind.width
  io_not_prefetchable : kind = BarKind.io → prefetchable = false

namespace Bar

/-- The type bits of the register. -/
def flags (b : Bar) : BitVec 32 :=
  match b.kind with
  | .mem32 => if b.prefetchable then 8#32 else 0#32
  | .mem64 => if b.prefetchable then 0xc#32 else 4#32
  | .io => 1#32

/-- The address bits that software sets. -/
def addressBits (b : Bar) : BitVec 64 := BitVec.allOnes 64 <<< b.sizeBits

/-- The BAR as `pci_bar_t`. -/
def described (b : Bar) : PciBar :=
  ⟨b.base, BitVec.twoPow 64 b.sizeBits, b.kind == BarKind.mem64, b.prefetchable, b.kind != BarKind.io⟩

end Bar

/-- The BAR is in the slot `bar` of the device: the bits of its registers below its size are read-only. -/
structure PciRegs.HasBar (regs : PciRegs) (dev : PciDev) (bar : BitVec 8) (b : Bar) : Prop where
  low : regs.value (pciAddr dev.bus dev.slot dev.func (0x10#8 + bar * 4#8)) = b.base.setWidth 32 ||| b.flags
  lowWritable : regs.writable (pciAddr dev.bus dev.slot dev.func (0x10#8 + bar * 4#8)) = b.addressBits.setWidth 32
  high : b.kind = BarKind.mem64 →
    regs.value (pciAddr dev.bus dev.slot dev.func (0x14#8 + bar * 4#8)) = (b.base >>> 32).setWidth 32
  highWritable : b.kind = BarKind.mem64 →
    regs.writable (pciAddr dev.bus dev.slot dev.func (0x14#8 + bar * 4#8)) = (b.addressBits >>> 32).setWidth 32

end HaiirOS
