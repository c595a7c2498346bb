import HaiirOS.Lib.Loop
import HaiirOS.Memory.Paging

/-!
# Mapped allocations

The routines of `phys.c` for the drivers: frames that are mapped one to one in the kernel's
address space, and the way back from a page to its frame.
-/

namespace HaiirOS

namespace Machine

def pmmAllocCustom (m : Machine) (count : Nat) (flags : PageFlags) : Option (Word × Machine) := do
  let (addr, m) := m.pmmAllocUnmapped count
  let m ← Loop.upTo (fun i m =>
    let page := addr + BitVec.ofNat 64 (i * frameSize)
    m.mapFrame (toFrame page) (toPage page) flags) count m
  return (addr, m)

def pmmAlloc (m : Machine) (count : Nat) : Option (Word × Machine) :=
  m.pmmAllocCustom count (PageFlags.present ||| PageFlags.writeable)

/-- The part of `pmm_free` that `pmm_free_unmapped` has too; the size is a 64-bit product. -/
def freeFrames (m : Machine) (firstFrame : Word) (count : Nat) : Machine :=
  { m with pmm := m.pmm.freeFrames firstFrame.toNat (count * frameSize % 2 ^ 64) }

def pmmFree (m : Machine) (firstPage : Word) (count : Nat) : Option Machine := do
  let (firstFrame, m) ← m.toPhys firstPage
  Loop.upTo (fun i m => m.unmapPage (firstPage + BitVec.ofNat 64 (i * frameSize))) count
    (m.freeFrames firstFrame count)

def pmmFreeUnmapped (m : Machine) (firstPage : Word) (count : Nat) : Option Machine := do
  let (firstFrame, m) ← m.toPhys firstPage
  return m.freeFrames firstFrame count

end Machine

end HaiirOS
