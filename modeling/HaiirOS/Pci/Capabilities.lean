import HaiirOS.Lib.Chain
import HaiirOS.Pci.Space

/-!
# The capability list of a PCI device

`find_cap` and `pci_msi_vec_count` of `pci.c`. The walk follows the device's pointers with no
bound of its own, so it takes fuel and returns `none` where the fuel runs out. Below them the
list itself, read byte by byte from the configuration space.
-/

namespace HaiirOS

/-- The function that a `pci_dev_t` names. -/
def PciDev.pciFunc (dev : PciDev) : PciFunc := ⟨dev.bus, dev.slot, dev.func⟩

namespace PciConfig

/-- The loop of `find_cap` -/
def findCapLoop (cfg : PciConfig) (dev : PciDev) (id : BitVec 8) : Nat → BitVec 8 → Option (BitVec 8)
  | 0, _ => none
  | fuel + 1, capOffset =>
    let curId := (cfg.pciReadw dev.bus dev.slot dev.func capOffset &&& 0xff#16).setWidth 8
    if curId ≠ id then
      let capOffset := (cfg.pciReadw dev.bus dev.slot dev.func capOffset >>> 8).setWidth 8
      if capOffset = 0#8 then some 0#8 else findCapLoop cfg dev id fuel capOffset
    else some capOffset

def findCap (cfg : PciConfig) (dev : PciDev) (id : BitVec 8) (fuel : Nat) : Option (BitVec 8) :=
  let capOffset := (cfg.pciReadw dev.bus dev.slot dev.func 0x34#8 &&& 0xfc#16).setWidth 8
  cfg.findCapLoop dev id fuel capOffset

def pciMsiVecCount (cfg : PciConfig) (dev : PciDev) (fuel : Nat) : Option (BitVec 8) :=
  if cfg.pciReadw dev.bus dev.slot dev.func 0x6#8 &&& (1#16 <<< 4) = 0#16 then some 0xff#8
  else
    (cfg.findCap dev 0x5#8 fuel).map fun msiCapOffset =>
      if msiCapOffset = 0#8 then 0xff#8
      else
        let msiCap := cfg.pciReadw dev.bus dev.slot dev.func msiCapOffset
        (1#32 <<< ((msiCap >>> 1) &&& 7#16).toNat).setWidth 8

/-! ### The list in the device's bytes -/

/-- A pointer of the list: its two low bits are reserved, and zero ends the list. -/
def capPointer (b : BitVec 8) : Option (BitVec 8) :=
  if b &&& 0xfc#8 = 0#8 then none else some (b &&& 0xfc#8)

/-- The pointer of a capability to the next one. -/
def nextCap (cfg : PciConfig) (dev : PciDev) (a : BitVec 8) : Option (BitVec 8) :=
  capPointer (cfg.byte dev.pciFunc (a + 1#8))

/-- The first capability of the list with the identifier `id` is at offset `a`. -/
def FirstCap (cfg : PciConfig) (dev : PciDev) (id a : BitVec 8) : Prop :=
  ∃ h, capPointer (cfg.byte dev.pciFunc 0x34#8) = some h ∧
    Chain.First (cfg.nextCap dev) (fun c => cfg.byte dev.pciFunc c = id) h a

/-- There is a capability of the list at offset `a`. -/
def HasCap (cfg : PciConfig) (dev : PciDev) (a : BitVec 8) : Prop :=
  ∃ h, capPointer (cfg.byte dev.pciFunc 0x34#8) = some h ∧ Chain.Node (cfg.nextCap dev) h a

/-- What a search for `id` in the list should return. -/
def IsFirstCap (cfg : PciConfig) (dev : PciDev) (id r : BitVec 8) : Prop :=
  cfg.FirstCap dev id r ∨ r = 0#8 ∧ ∀ a, ¬ cfg.FirstCap dev id a

/-! ### The same bytes with the reserved bits kept -/

/-- The next pointer with its reserved bits, at the odd offset of the word that holds `a`. -/
def looseNext (cfg : PciConfig) (dev : PciDev) (a : BitVec 8) : Option (BitVec 8) :=
  if cfg.byte dev.pciFunc (a ||| 1#8) = 0#8 then none else some (cfg.byte dev.pciFunc (a ||| 1#8))

/-- The identifier at the even offset of the word that holds `a`. -/
def looseId (cfg : PciConfig) (dev : PciDev) (a : BitVec 8) : BitVec 8 := cfg.byte dev.pciFunc (a &&& 0xfe#8)

/-- The offset that the head pointer holds, also where it is zero. -/
def headOffset (cfg : PciConfig) (dev : PciDev) : BitVec 8 := cfg.byte dev.pciFunc 0x34#8 &&& 0xfc#8

/-- With the reserved bits kept, and a zero head pointer taken for a capability, the first offset with
the identifier `id` is `a`. -/
def LooseFirst (cfg : PciConfig) (dev : PciDev) (id a : BitVec 8) : Prop :=
  Chain.First (cfg.looseNext dev) (fun c => cfg.looseId dev c = id) (cfg.headOffset dev) a

/-- With the reserved bits kept, the pointers lead to the end and never to the identifier `id`. -/
def LooseMisses (cfg : PciConfig) (dev : PciDev) (id : BitVec 8) : Prop :=
  Chain.Misses (cfg.looseNext dev) (fun c => cfg.looseId dev c = id) (cfg.headOffset dev)

end PciConfig

end HaiirOS
