import HaiirOS.Pci.Enumerate
import Mathlib.Tactic.IntervalCases

/-!
# The bytes of the configuration space

The configuration space of a function byte by byte, and the halves of the words that `pci_readw`
reads as bytes.
-/

namespace HaiirOS

/-- A function on a bus. -/
structure PciFunc where
  bus : BitVec 8
  slot : BitVec 8
  func : BitVec 8
deriving DecidableEq

namespace PciConfig

variable (cfg : PciConfig)

/-- The byte of the function's configuration space at the offset. -/
def byte (f : PciFunc) (offset : BitVec 8) : BitVec 8 :=
  let addr := (f.bus.setWidth 32 <<< 16) ||| (f.slot.setWidth 32 <<< 11) ||| (f.func.setWidth 32 <<< 8) |||
    (1#32 <<< 31) ||| (offset &&& 0xfc#8).setWidth 32
  (cfg addr >>> (8 * (offset.toNat % 4))).setWidth 8

lemma low_byte (w : BitVec 32) (k : Nat) :
    (((w >>> k &&& 0xffff#32).setWidth 16 &&& 0xff#16).setWidth 8 : BitVec 8) = (w >>> k).setWidth 8 := by
  apply BitVec.eq_of_getLsbD_eq
  intro i hi
  interval_cases i <;> simp

lemma high_byte (w : BitVec 32) (k : Nat) :
    (((w >>> k &&& 0xffff#32).setWidth 16 >>> 8 &&& 0xff#16).setWidth 8 : BitVec 8) = (w >>> (8 + k)).setWidth 8 := by
  apply BitVec.eq_of_getLsbD_eq
  intro i hi
  interval_cases i <;> simp [← Nat.add_assoc, Nat.add_comm]

lemma readw_low (f : PciFunc) {o p : BitVec 8} (hd : p &&& 0xfc#8 = o &&& 0xfc#8)
    (hs : 8 * (p.toNat % 4) = ((o &&& 2#8) * 8#8).toNat) :
    (cfg.pciReadw f.bus f.slot f.func o &&& 0xff#16).setWidth 8 = cfg.byte f p := by
  unfold pciReadw pciReadd byte
  rw [low_byte, hd, hs]

lemma readw_high (f : PciFunc) {o p : BitVec 8} (hd : p &&& 0xfc#8 = o &&& 0xfc#8)
    (hs : 8 * (p.toNat % 4) = 8 + ((o &&& 2#8) * 8#8).toNat) :
    ((cfg.pciReadw f.bus f.slot f.func o >>> 8) &&& 0xff#16).setWidth 8 = cfg.byte f p := by
  unfold pciReadw pciReadd byte
  rw [high_byte, hd, hs]

end PciConfig

end HaiirOS
