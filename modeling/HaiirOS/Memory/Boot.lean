import HaiirOS.Memory.Init

/-!
# A machine as the boot loader leaves it

The loader hands over page tables that map the first 8 MiB one to one with 4 KiB pages. The
state below has them in the seven frames from a given low frame on, and the static variables
of the allocator at their initial values.
-/

namespace HaiirOS

/-- Page tables for the first 8 MiB: PML4, PDPT and PD in frames `t`, `t + 1` and `t + 2`, the
page tables in the four frames after them. -/
def identityTables (t : Nat) : Mem := fun a =>
  if a = slot t 0 then BitVec.ofNat 64 ((t + 1) * 4096 + 3)
  else if a = slot (t + 1) 0 then BitVec.ofNat 64 ((t + 2) * 4096 + 3)
  else if slot (t + 2) 0 ≤ a ∧ a < slot (t + 2) 4 then
    BitVec.ofNat 64 ((t + 3 + (a - slot (t + 2) 0) / 8) * 4096 + 3)
  else if slot (t + 3) 0 ≤ a ∧ a < slot (t + 7) 0 then
    BitVec.ofNat 64 ((a - slot (t + 3) 0) / 8 * 4096 + 3)
  else 0#64

/-- The static variables of `phys.c` before any call. -/
def staticPmm : Pmm := ⟨fun _ => 0#8, 0, 0, 0, bitmapBlockSize - 1⟩

/-- The machine with boot tables from frame 1 on and zeroed memory elsewhere. -/
def bootMachine : Machine :=
  ⟨identityTables 1, staticPmm, 0x1000#64, 0x1000#64, []⟩

/-- An allocator over 16 MiB that has the first 8 MiB reserved. -/
def reservedPmm : Pmm := ⟨fun i => if i < 256 then 0xff#8 else 0#8, 0, 512, 0, bitmapBlockSize - 1⟩

/-- The machine with boot tables from frame 1 on, `mem` from 8 MiB on and the allocator in use. -/
def runningMachine (mem : Mem) (pmm : Pmm) : Machine :=
  ⟨fun a => if a < 0x800000 then identityTables 1 a else mem a, pmm, 0x1000#64, 0x1000#64, []⟩

/-- One usable entry of 16 MiB, a small kernel at 1 MiB and no framebuffer. -/
def bootInfo : MemoryInfo := ⟨[⟨0#64, 0x1000000#64, 1#32⟩], 0x100000#32, 0x1000#32, 0#32, 0#32⟩

end HaiirOS
