import HaiirOS.Memory.Phys

/-!
# The frame map

`print_frame_map` of `phys.c`, by the lines that it prints.
-/

namespace HaiirOS

/-- A line `free: first last` or `used: first last`. -/
structure MapLine where
  free : Bool
  first : Nat
  last : Nat
deriving DecidableEq

/-- The local variables of `print_frame_map` and the lines printed. -/
structure MapState where
  lastVal : Byte
  size : Nat
  base : Nat
  lines : List MapLine

namespace MapState

/-- Print the run and begin one of the other kind with `size` bytes. -/
def newRun (s : MapState) (free : Bool) (size : Nat) : MapState where
  lastVal := ~~~s.lastVal
  size := size
  base := s.base + s.size
  lines := s.lines ++ [⟨free, s.base, (s.base + s.size + 2 ^ 64 - 1) % 2 ^ 64⟩]

/-- The loop of `print_bitmap_block` over the bits `i - 1, …, 0`. -/
def printBits (block : Byte) : Nat → MapState → MapState
  | 0, s => s
  | i + 1, s =>
    let b := (block >>> i) &&& 1#8
    printBits block i
      (if s.lastVal &&& 1#8 ≠ b then
        if b = 1#8 then s.newRun true frameSize else s.newRun false frameSize
      else { s with size := s.size + frameSize })

def printBitmapBlock (s : MapState) (block : Byte) : MapState :=
  if block = 0xff#8 then s.newRun true (bitmapBlockSize * frameSize)
  else if block = 0#8 then s.newRun false (bitmapBlockSize * frameSize)
  else printBits block bitmapBlockSize s

/-- The body of the loop of `print_frame_map`. -/
def printBlock (s : MapState) (block : Byte) : MapState :=
  if block ≠ s.lastVal then s.printBitmapBlock block
  else { s with size := s.size + bitmapBlockSize * frameSize }

end MapState

namespace Pmm

/-- The loop of `print_frame_map`, from block `i` on. -/
def printBlocks (p : Pmm) : Nat → Nat → MapState → MapState
  | 0, _, s => s
  | n + 1, i, s => printBlocks p n (i + 1) (s.printBlock (p.get i))

def printFrameMap (p : Pmm) : List MapLine :=
  let s := p.printBlocks p.bitmapSize 0 ⟨0xff#8, 0, 0, []⟩
  s.lines ++ [⟨s.lastVal == 0#8, s.base, (s.base + s.size + frameSize - 1) % 2 ^ 64⟩]

end Pmm

end HaiirOS
