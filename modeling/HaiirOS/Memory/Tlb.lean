import HaiirOS.Memory.Paging

/-!
# Cached translations

The paging code on a core with a TLB. The TLB may take up any present translation of the loaded
PML4, or drop one, before every instruction that touches memory; an access goes by what is
cached for its page, or else by the tables. `invlpg` drops the translation of one page, and is
no operation on an address that is not canonical. Loading CR3 drops all. The routines are
those of `paging.c` again, with `invlpg` where the source has it.
-/

namespace HaiirOS

open AddressWord

/-- What is cached, by page number: the translation of the first byte of the page. -/
abbrev Tlb := Nat → Option Translation

/-- What a core chooses to cache, by time: it drops, keeps or looks up the translation of any page. -/
structure Hardware where
  fill : Nat → (Nat → Option Translation) → Tlb → Tlb
  legal : ∀ time tables tlb page, fill time tables tlb page = none ∨ fill time tables tlb page = tlb page ∨
    fill time tables tlb page = tables page

/-- An access by the code: the pointer, the address it went to, and the one that the tables said. -/
structure Access where
  pointer : Word
  addr : Nat
  latest : Option Nat

/-- The machine with its TLB. The accesses are recorded newest first. -/
structure Core where
  machine : Machine
  tlb : Tlb
  time : Nat
  accesses : List Access

/-- What the tables say about a page. -/
def Machine.pageWalk (m : Machine) (page : Nat) : Option Translation :=
  mmu m.mem (frame m.cr3) (BitVec.ofNat 64 (page * 4096))

namespace Core

variable (hw : Hardware)

/-- What the TLB does before an instruction. -/
def tick (k : Core) : Core := { k with tlb := hw.fill k.time k.machine.pageWalk k.tlb, time := k.time + 1 }

/-- The address that a pointer leads to: by the cached translation of its page, if there is one. -/
def translate (k : Core) (p : Word) : Option Nat :=
  if Canonical p then
    match k.tlb (pageNo p) with
    | some t => some (t.phys + p.toNat % 4096)
    | none => k.machine.deref p
  else none

/-- The physical address behind a pointer, none on a fault. -/
def deref (k : Core) (p : Word) : Option (Nat × Core) :=
  let k := k.tick hw
  (k.translate p).map fun a => (a, { k with accesses := ⟨p, a, k.machine.deref p⟩ :: k.accesses })

def read (k : Core) (p : Word) : Option (Word × Core) := do
  let (a, k) ← k.deref hw p
  return (k.machine.mem a, k)

def write (k : Core) (p w : Word) : Option Core := do
  let (a, k) ← k.deref hw p
  return { k with machine := { k.machine with mem := Function.update k.machine.mem a w } }

/-- A read of a page-table entry through a pointer of the walk. -/
def load (k : Core) (p : Word) : Option (Word × Core) := do
  let (a, k) ← k.deref hw p
  return (k.machine.mem a, { k with machine := { k.machine with log := .load a :: k.machine.log } })

/-- A write of a page-table entry through a pointer of the walk. -/
def store (k : Core) (p w : Word) : Option Core := do
  let (a, k) ← k.deref hw p
  return { k with machine := { k.machine with
    mem := Function.update k.machine.mem a w, log := .store a :: k.machine.log } }

def flushTLB (k : Core) (p : Word) : Core :=
  let k := k.tick hw
  if Canonical p then { k with tlb := Function.update k.tlb (pageNo p) none } else k

/-- The call of `pmm_alloc_unmapped` on the machine. -/
def pmmAllocUnmapped (k : Core) (count : Nat) : Word × Core :=
  ((k.machine.pmmAllocUnmapped count).1, { k with machine := (k.machine.pmmAllocUnmapped count).2 })

/-- The record that a frame becomes a page table. -/
def noteTable (k : Core) (f : Nat) : Core := { k with machine := k.machine.noteTable f }

def getTempEntry (k : Core) : Option (Word × Core) := do
  let (pml4Entry, k) ← k.read hw (entryPtr k.machine.sPml4Table (getLv4Index tmpAddr))
  let (pdpEntry, k) ← k.read hw (entryPtr (base pml4Entry) (getLv3Index tmpAddr))
  let (pdEntry, k) ← k.read hw (entryPtr (base pdpEntry) (getLv2Index tmpAddr))
  return (entryPtr (base pdEntry) (getLv1Index tmpAddr), k)

def tmpMap (k : Core) (physAddr : Word) : Option (Word × Core) := do
  let (tmpEntry, k) ← k.getTempEntry hw
  let k ← k.write hw tmpEntry (toFrame physAddr ||| PageFlags.present ||| PageFlags.writeable)
  return (tmpAddr + (physAddr &&& 0xfff#64), k.flushTLB hw tmpAddr)

def createTable (k : Core) (entry : Word) (flags : PageFlags) : Option (Word × Core) := do
  let (table, k) := k.pmmAllocUnmapped 1
  let k ← (k.noteTable (frame table)).store hw entry (table ||| flags)
  k.tmpMap hw table

def validPointer (k : Core) (pointer : Word) : Option (Word × Core) :=
  if pointer.toNat ≥ identityEnd then k.tmpMap hw pointer else some (pointer, k)

/-- `*entry |= new_table_flags`, unless the entry is present or the mode is lookup -/
def addFlags (k : Core) (entry : Word) (flags : PageFlags) : Option Core := do
  let (e, k) ← k.load hw entry
  if !isEntryPresent e && flags != lookupOnly then
    let (e, k) ← k.load hw entry
    k.store hw entry (e ||| flags)
  else
    return k

def getTableFromEntry (k : Core) (entry : Word) (newTableFlags : PageFlags) : Option (Word × Core) := do
  let (entry, k) ← k.validPointer hw entry
  let (e, k) ← k.load hw entry
  let table := base e
  if table = 0#64 ∨ k.machine.pmm.pmmIsFree table.toNat then
    if newTableFlags ≠ lookupOnly then
      k.createTable hw entry newTableFlags
    else
      return (0#64, k)
  else
    let k ← k.addFlags hw entry newTableFlags
    k.validPointer hw table

def getEntryByIndex (k : Core) (pml4Table : Word) (newTableFlags : PageFlags) (i4 i3 i2 i1 : Nat) :
    Option (Word × Core) := do
  let (pdpTable, k) ← k.getTableFromEntry hw (entryPtr pml4Table i4) newTableFlags
  if pdpTable = 0#64 then return (0#64, k)
  let (pdTable, k) ← k.getTableFromEntry hw (entryPtr pdpTable i3) newTableFlags
  if pdTable = 0#64 then return (0#64, k)
  let (ptTable, k) ← k.getTableFromEntry hw (entryPtr pdTable i2) newTableFlags
  if ptTable = 0#64 then return (0#64, k)
  return (entryPtr ptTable i1, k)

def getEntry (k : Core) (pml4Table : Word) (newTableFlags : PageFlags) (virtAddr : Word) : Option (Word × Core) :=
  k.getEntryByIndex hw pml4Table newTableFlags (getLv4Index virtAddr) (getLv3Index virtAddr)
    (getLv2Index virtAddr) (getLv1Index virtAddr)

def lookupEntry (k : Core) (pml4Table virtAddr : Word) : Option (Word × Core) :=
  k.getEntry hw pml4Table lookupOnly virtAddr

def map (k : Core) (pml4Table page frame : Word) (flags : PageFlags) : Option Core := do
  let (entry, k) ← k.getEntry hw pml4Table flags page
  if entry ≠ 0#64 then
    let k ← k.store hw entry (frame ||| flags)
    return k.flushTLB hw page
  else
    return k

def unmap (k : Core) (pml4Table page : Word) : Option Core := do
  let (entry, k) ← k.lookupEntry hw pml4Table page
  if entry ≠ 0#64 then
    let k ← k.store hw entry 0#64
    return k.flushTLB hw page
  else
    return k

def mapFrame (k : Core) (page frame : Word) (flags : PageFlags) : Option Core :=
  k.map hw k.machine.sPml4Table page frame flags

def mapUserFrame (k : Core) (pml4Table page frame : Word) (flags : PageFlags) : Option Core :=
  k.map hw pml4Table page frame flags

def unmapPage (k : Core) (page : Word) : Option Core := k.unmap hw k.machine.sPml4Table page

def unmapUserPage (k : Core) (pml4Table page : Word) : Option Core := k.unmap hw pml4Table page

/-- `to_usr_phys`, and `to_phys` with the kernel's table -/
def toUsrPhys (k : Core) (pml4Table virtAddr : Word) : Option (Word × Core) := do
  let (entry, k) ← k.lookupEntry hw pml4Table virtAddr
  if entry = 0#64 then return (0#64, k)
  let (e, k) ← k.load hw entry
  if !isEntryPresent e then return (0#64, k)
  let (e, k) ← k.load hw entry
  return (base e + (virtAddr &&& 0xfff#64), k)

def toPhys (k : Core) (virtAddr : Word) : Option (Word × Core) := k.toUsrPhys hw k.machine.sPml4Table virtAddr

/-- `is_usr_addr_present`, and `is_addr_present` with the kernel's table -/
def isUsrAddrPresent (k : Core) (pml4Table virtAddr : Word) : Option (Bool × Core) := do
  let (entry, k) ← k.lookupEntry hw pml4Table virtAddr
  if entry ≠ 0#64 then
    let (e, k) ← k.load hw entry
    return (isEntryPresent e, k)
  else
    return (false, k)

def isAddrPresent (k : Core) (virtAddr : Word) : Option (Bool × Core) :=
  k.isUsrAddrPresent hw k.machine.sPml4Table virtAddr

/-- The `mov cr3` of `jump_usermode`. -/
def loadCr3 (k : Core) (pml4Addr : Word) : Core :=
  { k with machine := { k.machine with cr3 := pml4Addr }, tlb := fun _ => none }

end Core

end HaiirOS
