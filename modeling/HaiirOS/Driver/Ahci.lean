/-!
# Read and write commands of the AHCI driver

The part of `ahci.c` that splits a transfer into commands. The port is seen through the values
that its `ci | sact` registers have when `find_cmd_slot` reads them; a command that is issued
completes, and is kept in the list of issued commands with the range it was given.
-/

namespace HaiirOS

def bytesPerPrdt : BitVec 64 := 0x200000#64
def maxPrdts : BitVec 64 := 1024#64
def ahciSectorSize : BitVec 64 := 0x200#64
def ahciReadCmd : BitVec 8 := 0x25#8
def ahciWriteCmd : BitVec 8 := 0x35#8
def fisTypeRegH2d : BitVec 8 := 0x27#8

structure AhciPrdtEntry where
  dba : BitVec 32
  dbau : BitVec 32
  dbc : BitVec 22
  i : Bool
deriving DecidableEq

/-- `ahci_fis_h2d`, the fields that `send_rw_cmd` sets; it clears the others. -/
structure AhciFisH2d where
  type : BitVec 8
  c : Bool
  cmd : BitVec 8
  lba0 : BitVec 8
  lba1 : BitVec 8
  lba2 : BitVec 8
  device : BitVec 8
  lba3 : BitVec 8
  lba4 : BitVec 8
  lba5 : BitVec 8
  countl : BitVec 8
  counth : BitVec 8
deriving DecidableEq

/-- `ahci_cmd_header` with the command table that it points to. The table's entries are indexed
from `entries`, so that index -1 is the memory before it. -/
structure AhciCmd where
  cfl : BitVec 5
  w : Bool
  prdtl : BitVec 16
  cfis : AhciFisH2d
  entries : Int → AhciPrdtEntry

/-- The sectors and the memory that a command was issued for. -/
structure AhciRange where
  lba : BitVec 64
  sectorCount : BitVec 64
  buffer : BitVec 64
deriving DecidableEq

/-- `ahci_dev_t`: the command slots, with the commands issued so far. -/
structure AhciDev where
  cmdSlots : Nat
  cmds : Nat → AhciCmd
  issued : List (AhciCmd × AhciRange)

def setPrdts (cmd : AhciCmd) (buffer : BitVec 64) (size : BitVec 32) (interrupt : Bool) : AhciCmd :=
  let setEntry (entries : Int → AhciPrdtEntry) (i : Int) (dbc : BitVec 32) (buffer : BitVec 64) :=
    fun k => if k = i then
      (⟨buffer.setWidth 32, (buffer >>> 32).setWidth 32, dbc.setWidth 22, interrupt⟩ : AhciPrdtEntry)
    else entries k
  let (entries, buffer, size) := (List.range (cmd.prdtl.toNat - 1)).foldl (fun (entries, buffer, size) i =>
      (setEntry entries i (bytesPerPrdt.setWidth 32 - 1#32) buffer, buffer + bytesPerPrdt,
        size - bytesPerPrdt.setWidth 32))
    (cmd.entries, buffer, size)
  { cmd with entries := setEntry entries (cmd.prdtl.toNat - 1) (size - 1#32) buffer }

/-- `find_cmd_slot`, with the values of `ci | sact` that it reads -/
def findCmdSlot (cmdSlots : Nat) (busy : Nat → BitVec 32) : Option Nat :=
  (List.range cmdSlots).find? fun i => busy i &&& (1#32 <<< i) = 0#32

/-- `send_rw_cmd`; the result is the rest count. -/
def sendRwCmd (lba sectorCount buffer : BitVec 64) (write : Bool) (busy : Nat → BitVec 32) (dev : AhciDev) :
    BitVec 64 × AhciDev :=
  match findCmdSlot dev.cmdSlots busy with
  | none => (sectorCount, dev)
  | some cmdSlot =>
    let maxSectors := maxPrdts * bytesPerPrdt / ahciSectorSize
    let prdtl : BitVec 16 := ((sectorCount - 1#64) * ahciSectorSize / bytesPerPrdt + 1#64).setWidth 16
    let restSectors : BitVec 32 := if sectorCount > maxSectors then (sectorCount - maxSectors).setWidth 32 else 0#32
    let prdtl := if sectorCount > maxSectors then maxPrdts.setWidth 16 else prdtl
    let sectorCount := if sectorCount > maxSectors then maxSectors else sectorCount
    let header := { dev.cmds cmdSlot with cfl := 5#5, w := write, prdtl := prdtl }
    let cmd := setPrdts header buffer ((sectorCount * ahciSectorSize).setWidth 32) true
    let cmd := { cmd with
      cfis :=
        { type := fisTypeRegH2d
          c := true
          cmd := if write then ahciWriteCmd else ahciReadCmd
          lba0 := (lba &&& 0xff#64).setWidth 8
          lba1 := ((lba >>> 8) &&& 0xff#64).setWidth 8
          lba2 := ((lba >>> 16) &&& 0xff#64).setWidth 8
          device := 1#8 <<< 6
          lba3 := ((lba >>> 24) &&& 0xff#64).setWidth 8
          lba4 := ((lba >>> 32) &&& 0xff#64).setWidth 8
          lba5 := ((lba >>> 40) &&& 0xff#64).setWidth 8
          countl := (sectorCount &&& 0xff#64).setWidth 8
          counth := ((sectorCount >>> 8) &&& 0xff#64).setWidth 8 } }
    (restSectors.setWidth 64,
      { dev with
        cmds := fun k => if k = cmdSlot then cmd else dev.cmds k
        issued := dev.issued ++ [(cmd, ⟨lba, sectorCount, buffer⟩)] })

/-- The loop of `send_rw_cmds`; `busy` holds the reads of the attempts to come. -/
def sendRest (write : Bool) :
    Nat → (Nat → Nat → BitVec 32) → BitVec 64 → BitVec 64 → BitVec 64 → AhciDev → Option AhciDev
  | 0, _, _, _, _, _ => none
  | fuel + 1, busy, lba, restSectors, buffer, dev =>
    if restSectors ≠ 0#64 then
      let lba := lba + maxPrdts * bytesPerPrdt / ahciSectorSize
      let buffer := buffer + maxPrdts * bytesPerPrdt
      let (restSectors, dev) := sendRwCmd lba restSectors buffer write (busy 0) dev
      sendRest write fuel (fun k => busy (k + 1)) lba restSectors buffer dev
    else some dev

/-- `send_rw_cmds`, which always returns true where it returns -/
def sendRwCmds (fuel : Nat) (busy : Nat → Nat → BitVec 32) (lba sectorCount buffer : BitVec 64) (write : Bool)
    (dev : AhciDev) : Option AhciDev :=
  let (restSectors, dev) := sendRwCmd lba sectorCount buffer write (busy 0) dev
  sendRest write fuel (fun k => busy (k + 1)) lba restSectors buffer dev

end HaiirOS
