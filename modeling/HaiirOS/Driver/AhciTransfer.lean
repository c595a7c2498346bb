import HaiirOS.Driver.Ahci
import HaiirOS.Memory.Pages

/-!
# Reads and writes of an AHCI device

`ahci_read` and `ahci_write`, which transfer whole sectors by way of a buffer of their own. The
copies between the two buffers are listed with their size; what the transfers and the copies leave
in memory is the argument `moved`. `send_rw_cmds` reports no error, so that the branch for one is
never taken.
-/

namespace HaiirOS

/-- `for (i = 0; i < size; i++) dst[i] = src[i]` -/
structure AhciCopy where
  dst : BitVec 64
  src : BitVec 64
  size : BitVec 64
deriving DecidableEq

/-- The returned value and what the call leaves behind. -/
structure AhciReturn where
  ret : BitVec 64
  dev : AhciDev
  machine : Machine
  copies : List AhciCopy

/-- The size up to the end of the device that a request is cut to first. -/
def clampSize (sectorCount start size : BitVec 64) : BitVec 64 :=
  if start + size ≥ sectorCount * ahciSectorSize then sectorCount * ahciSectorSize - start else size

def alignedBufSize (size : BitVec 64) : BitVec 64 := (size + 0x1000#64 - 1#64) &&& ~~~(0x1000#64 - 1#64)

/-- The memory after data has been moved. -/
def Machine.move (m : Machine) (moved : Mem → Mem) : Machine := { m with mem := moved m.mem }

/-- `ahci_read`; `sectorCount` is that of the device, `busy` holds the reads of `find_cmd_slot`. -/
def ahciRead (fuel : Nat) (busy : Nat → Nat → BitVec 32) (moved : Mem → Mem) (sectorCount start size buffer : BitVec 64)
    (dev : AhciDev) (m : Machine) : Option AhciReturn :=
  let size := clampSize sectorCount start size
  if start % ahciSectorSize ≠ 0#64 ∨ size % ahciSectorSize ≠ 0#64 then some ⟨0#64, dev, m, []⟩ else do
    let lba := start / ahciSectorSize
    let sectorCount := size / ahciSectorSize
    let (alignedBuf, m) ← m.pmmAlloc (alignedBufSize size / 0x1000#64).toNat
    let dev ← sendRwCmds fuel busy lba sectorCount alignedBuf false dev
    let m := m.move moved
    let m ← m.pmmFree (toFrame alignedBuf) (alignedBufSize size / 0x1000#64).toNat
    return ⟨size, dev, m, [⟨buffer, alignedBuf, size⟩]⟩

/-- `ahci_write`, which asks for as many frames as the read has bytes -/
def ahciWrite (fuel : Nat) (busy : Nat → Nat → BitVec 32) (moved : Mem → Mem) (sectorCount start size buffer : BitVec 64)
    (dev : AhciDev) (m : Machine) : Option AhciReturn :=
  let size := clampSize sectorCount start size
  if start % ahciSectorSize ≠ 0#64 ∨ size % ahciSectorSize ≠ 0#64 then some ⟨0#64, dev, m, []⟩ else do
    let lba := start / ahciSectorSize
    let sectorCount := size / ahciSectorSize
    let (alignedBuf, m) ← m.pmmAlloc (alignedBufSize size).toNat
    let m := m.move moved
    let dev ← sendRwCmds fuel busy lba sectorCount alignedBuf true dev
    let m ← m.pmmFree (toFrame alignedBuf) (alignedBufSize size).toNat
    return ⟨size, dev, m, [⟨alignedBuf, buffer, size⟩]⟩

end HaiirOS
