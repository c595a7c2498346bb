import HaiirOS.Lib.Loop
import HaiirOS.Memory.Paging

/-!
# Setting up memory management

`init_memory` and what it calls in `memory.c` and `phys.c`. The map comes from the boot
loader; its entry count is 16-bit, which bounds the loops over it.
-/

namespace HaiirOS

def memoryRangeUsable : BitVec 32 := 1#32

/-- `memory_map_entry_t` -/
structure MemoryMapEntry where
  base : BitVec 64
  len : BitVec 64
  type : BitVec 32

/-- The fields of `memory_info_t` that the allocator reads. -/
structure MemoryInfo where
  map : List MemoryMapEntry
  kernelAddr : BitVec 32
  kernelSize : BitVec 32
  vbeFramebuffer : BitVec 32
  vbeFramebufferSize : BitVec 32

/-- The fields of `bloader_boot_info_t` and its `vbe_mode` that `init_memory_map` keeps for
the allocator. -/
structure BootInfo where
  memoryMap : List MemoryMapEntry
  kernelAddr : BitVec 64
  kernelSize : BitVec 32
  framebuffer : BitVec 32
  width : BitVec 16
  height : BitVec 16
  bpp : BitVec 8

/-- `init_memory_map`; the kernel address is cut to 32 bits, the size product is one of `int`s. -/
def initMemoryMap (bootInfo : BootInfo) : MemoryInfo where
  map := bootInfo.memoryMap
  kernelAddr := bootInfo.kernelAddr.setWidth 32
  kernelSize := bootInfo.kernelSize
  vbeFramebuffer := bootInfo.framebuffer
  vbeFramebufferSize :=
    bootInfo.width.setWidth 32 * bootInfo.height.setWidth 32 * bootInfo.bpp.setWidth 32

def MemoryMapEntry.usable (e : MemoryMapEntry) : Bool := e.type == memoryRangeUsable

def bootSectionSize : Nat := 8 * 1024 * 1024

def tmpBitmapBase : Nat := 0x3f0000
def tmpBitmapFirstFrame : Nat := 0x201000

def tmpBitmapSize : Nat := tmpBitmapBase / frameSize / bitmapBlockSize - 1

def Pmm.createTmpBitmap (p : Pmm) : Pmm :=
  let p := { p with bitmap := tmpBitmapBase, bitmapSize := tmpBitmapSize }
  let p := p.reserveFrames 0x0 tmpBitmapFirstFrame
  p.freeFrames tmpBitmapFirstFrame (tmpBitmapBase - 1)

/-- `get_bitmap_size`: the end of the last usable entry counts. -/
def getBitmapSize (memoryInfo : MemoryInfo) : Nat :=
  let lastUsableAddr := memoryInfo.map.foldl
    (fun last e => if e.usable then e.base + e.len else last) 0#64
  lastUsableAddr.toNat / frameSize / bitmapBlockSize

/-- The address that `init_bitmap` puts the bitmap at; the kernel size is rounded up in 32 bits. -/
def bitmapAddr (memoryInfo : MemoryInfo) : Nat :=
  memoryInfo.kernelAddr.toNat + (memoryInfo.kernelSize.toNat + (frameSize - 1)) % 2 ^ 32 / frameSize * frameSize

/-- The part of `init_pmm` after `init_bitmap`. -/
def Pmm.initFrames (p : Pmm) (memoryInfo : MemoryInfo) : Pmm :=
  let p := memoryInfo.map.foldl
    (fun p e => if e.usable then p.freeFrames e.base.toNat e.len.toNat else p) p
  let p := p.reserveFrames 0x0 bootSectionSize
  let p := p.reserveFrames memoryInfo.kernelAddr.toNat memoryInfo.kernelSize.toNat
  let p := p.reserveFrames p.bitmap p.bitmapSize
  p.reserveFrames memoryInfo.vbeFramebuffer.toNat memoryInfo.vbeFramebufferSize.toNat

namespace Machine

/-- `map_bitmap`. The loop counter is 32-bit: from `2 ^ 32` pages on the loop does not
end. -/
def mapBitmap (m : Machine) : Option Machine := do
  let start := m.pmm.bitmap
  let size := m.pmm.bitmapSize
  let m := { m with pmm := m.pmm.createTmpBitmap }
  if size / frameSize + 1 ≥ 2 ^ 32 then none
  let m ← Loop.upTo (fun i m =>
    let addr := BitVec.ofNat 64 (start + i * frameSize % 2 ^ 32)
    m.mapFrame (toPage addr) (toFrame addr) (PageFlags.present ||| PageFlags.writeable))
    (size / frameSize + 1) m
  return { m with pmm := { m.pmm with bitmap := start, bitmapSize := size } }

def initBitmap (m : Machine) (memoryInfo : MemoryInfo) : Option Machine := do
  let m := { m with pmm := { m.pmm with
    bitmapSize := getBitmapSize memoryInfo, bitmap := bitmapAddr memoryInfo } }
  let m ← m.mapBitmap
  return { m with pmm := m.pmm.fill 0xff#8 0 m.pmm.bitmapSize }

def initPmm (m : Machine) (memoryInfo : MemoryInfo) : Option Machine := do
  let m ← m.initBitmap memoryInfo
  return { m with pmm := m.pmm.initFrames memoryInfo }

def initMemory (m : Machine) (bootInfo : BootInfo) : Option Machine :=
  m.initPaging.initPmm (initMemoryMap bootInfo)

end Machine

end HaiirOS
