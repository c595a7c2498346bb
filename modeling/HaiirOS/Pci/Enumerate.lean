import Mathlib.Algebra.Group.Nat.Defs

/-!
# Enumerating the PCI bus

The configuration reads and the recursive walk of `pci.c`. Configuration space is a function
of the word written to the address port. The walk has no bound of its own, so it takes fuel
for its nested calls of `check_bus`; it returns `none` where the fuel runs out.
-/

namespace HaiirOS

/-- `pci_dev_t` -/
structure PciDev where
  bus : BitVec 8
  slot : BitVec 8
  func : BitVec 8
  baseClass : BitVec 8
  subclass : BitVec 8
  progIf : BitVec 8
deriving DecidableEq

def pciMaxFuncs : Nat := 8
def pciMaxDevs : Nat := 32
def pciMaxBuses : Nat := 256
def maxPciDevices : Nat := pciMaxBuses * pciMaxDevs

/-- What the data port reads after a write to the address port. -/
abbrev PciConfig := BitVec 32 → BitVec 32

namespace PciConfig

def pciReadd (cfg : PciConfig) (bus slot func offset : BitVec 8) : BitVec 32 :=
  let addr := (bus.setWidth 32 <<< 16) ||| (slot.setWidth 32 <<< 11) ||| (func.setWidth 32 <<< 8) |||
    (1#32 <<< 31) ||| (offset &&& 0xfc#8).setWidth 32
  cfg addr >>> ((offset &&& 2#8) * 8#8).toNat

def pciReadw (cfg : PciConfig) (bus slot func offset : BitVec 8) : BitVec 16 :=
  (cfg.pciReadd bus slot func offset &&& 0xffff#32).setWidth 16

/-- `check_func`, with the function that it calls for a bridge. The result is the contents of
`pci_devs` up to `pci_devs_len`. -/
def checkFunc (cfg : PciConfig) (checkBus : BitVec 8 → List PciDev → Option (List PciDev)) (bus slot func : BitVec 8)
    (devs : List PciDev) : Option (List PciDev) :=
  let class' := cfg.pciReadw bus slot func 0xa#8
  let baseClass := ((class' >>> 8) &&& 0xff#16).setWidth 8
  let subClass := (class' &&& 0xff#16).setWidth 8
  let progIf := ((cfg.pciReadw bus slot func 0x8#8 >>> 8) &&& 0xff#16).setWidth 8
  if baseClass = 0x6#8 ∧ subClass = 0x4#8 then
    let secondaryBus := ((cfg.pciReadw bus slot func 0x18#8 >>> 8) &&& 0xff#16).setWidth 8
    checkBus secondaryBus devs
  else some (devs ++ [⟨bus, slot, func, baseClass, subClass, progIf⟩])

def checkBus (cfg : PciConfig) : Nat → BitVec 8 → List PciDev → Option (List PciDev)
  | 0, _, _ => none
  | fuel + 1, bus, devs =>
    (List.range pciMaxDevs).foldlM (fun devs dev =>
      (List.range pciMaxFuncs).foldlM (fun devs func =>
        let dev := BitVec.ofNat 8 dev
        let func := BitVec.ofNat 8 func
        if cfg.pciReadw bus dev func 0#8 &&& 0xffff#16 ≠ 0xffff#16 then
          cfg.checkFunc (checkBus cfg fuel) bus dev func devs
        else some devs) devs) devs

/-- `init_pci`, from an empty `pci_devs` -/
def initPci (cfg : PciConfig) (fuel : Nat) : Option (List PciDev) :=
  let headerType := cfg.pciReadw 0#8 0#8 0#8 0xc#8
  if headerType &&& 0x80#16 = 0#16 then cfg.checkBus fuel 0#8 []
  else (List.range pciMaxFuncs).foldlM (fun devs func => cfg.checkBus fuel (BitVec.ofNat 8 func) devs) []

end PciConfig

end HaiirOS
