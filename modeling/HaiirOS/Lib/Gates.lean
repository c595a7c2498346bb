import Mathlib.Init

/-!
# Interrupt gates of x86-64

How the processor reads a descriptor of 16 bytes of the interrupt descriptor table.
-/

namespace X86

/-- An interrupt or a trap gate that is present. -/
structure Gate where
  offset : BitVec 64
  selector : BitVec 16
  ist : BitVec 3
  dpl : BitVec 2
  trap : Bool
deriving DecidableEq

/-- The gate that a descriptor stands for, none where the processor raises a fault instead: the gate is not present or
of another type. -/
def Gate.decode (d : BitVec 128) : Option Gate :=
  if d.getLsbD 47 ∧ (d.extractLsb' 40 5 = 0xe#5 ∨ d.extractLsb' 40 5 = 0xf#5) then
    some
      { offset := d.extractLsb' 64 32 ++ d.extractLsb' 48 16 ++ d.extractLsb' 0 16
        selector := d.extractLsb' 16 16
        ist := d.extractLsb' 32 3
        dpl := d.extractLsb' 45 2
        trap := d.getLsbD 40 }
  else none

/-- The exceptions for which the processor pushes an error code. -/
def pushesErrorCode (vector : BitVec 8) : Bool :=
  vector ∈ [8#8, 10#8, 11#8, 12#8, 13#8, 14#8, 17#8, 21#8]

end X86
