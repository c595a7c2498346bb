import HaiirOS.Memory.Alloc
import HaiirOS.Memory.Mmu

/-!
# Paging

The routines of `paging.c`. They reach page tables through virtual pointers, so every
access below goes through the MMU under the current CR3 and yields `none` on a page fault.
Ring 0 stores ignore the write permission: nothing sets CR0.WP. `invlpg` has no effect
here, where the MMU walks memory at every access. The log keeps, newest first, what a run
did: the page-table entries that the walk and its callers read and wrote, by physical
address, the allocations, and the frames that became page tables.
-/

namespace HaiirOS

open AddressWord

/-- One observable action of the paging code. -/
inductive Event where
  | load (addr : Nat)
  | store (addr : Nat)
  | alloc (count addr : Nat)
  | table (frame : Nat)
deriving DecidableEq

/-- The machine state that memory management works on. -/
structure Machine where
  mem : Mem
  pmm : Pmm
  sPml4Table : Word
  cr3 : Word
  log : List Event

def tmpAddr : Word := 0x200000#64

/-- The end of the memory that `valid_pointer` takes to be mapped one to one. -/
def identityEnd : Nat := 0x800000

def toFrame (addr : Word) : Word := base addr

def toPage (addr : Word) : Word := base addr

/-- `is_entry_present`, of the value of the entry -/
def isEntryPresent (e : Word) : Bool := e &&& PageFlags.present != 0#64

lemma isEntryPresent_eq (e : Word) : isEntryPresent e = e.getLsbD 0 := by
  unfold isEntryPresent PageFlags.present
  rw [BitVec.and_one_eq_setWidth_ofBool_getLsbD]
  cases e.getLsbD 0 <;> decide

/-- The address arithmetic of `&table->entries[i]`. -/
def entryPtr (table : Word) (i : Nat) : Word := table + BitVec.ofNat 64 (8 * i)

def getLvIndex (shift : Nat) (virtAddr : Word) : Nat := ((virtAddr >>> shift) &&& 0x1ff#64).toNat

def getLv4Index : Word → Nat := getLvIndex 39
def getLv3Index : Word → Nat := getLvIndex 30
def getLv2Index : Word → Nat := getLvIndex 21
def getLv1Index : Word → Nat := getLvIndex 12

/-- The mode of `get_entry` that creates no tables. -/
def lookupOnly : PageFlags := BitVec.allOnes 64

namespace Machine

/-- The physical address behind a pointer, none on a fault. -/
def deref (m : Machine) (p : Word) : Option Nat :=
  if Canonical p then (mmu m.mem (frame m.cr3) p).map Translation.phys else none

def read (m : Machine) (p : Word) : Option Word := (m.deref p).map m.mem

def write (m : Machine) (p w : Word) : Option Machine :=
  (m.deref p).map fun a => { m with mem := Function.update m.mem a w }

/-- A read of a page-table entry through a pointer of the walk. -/
def load (m : Machine) (p : Word) : Option (Word × Machine) :=
  (m.deref p).map fun a => (m.mem a, { m with log := .load a :: m.log })

/-- A write of a page-table entry through a pointer of the walk. -/
def store (m : Machine) (p w : Word) : Option Machine :=
  (m.deref p).map fun a => { m with mem := Function.update m.mem a w, log := .store a :: m.log }

/-- The call of `pmm_alloc_unmapped` on the machine. -/
def pmmAllocUnmapped (m : Machine) (count : Nat) : Word × Machine :=
  let r := m.pmm.pmmAllocUnmapped count
  (BitVec.ofNat 64 r.1, { m with pmm := r.2, log := .alloc count r.1 :: m.log })

/-- The record that a frame becomes a page table. -/
def noteTable (m : Machine) (f : Nat) : Machine := { m with log := .table f :: m.log }

def getTempEntry (m : Machine) : Option Word := do
  let pml4Entry ← m.read (entryPtr m.sPml4Table (getLv4Index tmpAddr))
  let pdpEntry ← m.read (entryPtr (base pml4Entry) (getLv3Index tmpAddr))
  let pdEntry ← m.read (entryPtr (base pdpEntry) (getLv2Index tmpAddr))
  return entryPtr (base pdEntry) (getLv1Index tmpAddr)

def tmpMap (m : Machine) (physAddr : Word) : Option (Word × Machine) := do
  let tmpEntry ← m.getTempEntry
  let m ← m.write tmpEntry (toFrame physAddr ||| PageFlags.present ||| PageFlags.writeable)
  return (tmpAddr + (physAddr &&& 0xfff#64), m)

def createTable (m : Machine) (entry : Word) (flags : PageFlags) : Option (Word × Machine) := do
  let (table, m) := m.pmmAllocUnmapped 1
  let m ← (m.noteTable (frame table)).store entry (table ||| flags)
  m.tmpMap table

def validPointer (m : Machine) (pointer : Word) : Option (Word × Machine) :=
  if pointer.toNat ≥ identityEnd then m.tmpMap pointer else some (pointer, m)

/-- `*entry |= new_table_flags`, unless the entry is present or the mode is lookup -/
def addFlags (m : Machine) (entry : Word) (flags : PageFlags) : Option Machine := do
  let (e, m) ← m.load entry
  if !isEntryPresent e && flags != lookupOnly then
    let (e, m) ← m.load entry
    m.store entry (e ||| flags)
  else
    return m

def getTableFromEntry (m : Machine) (entry : Word) (newTableFlags : PageFlags) :
    Option (Word × Machine) := do
  let (entry, m) ← m.validPointer entry
  let (e, m) ← m.load entry
  let table := base e
  if table = 0#64 ∨ m.pmm.pmmIsFree table.toNat then
    if newTableFlags ≠ lookupOnly then
      m.createTable entry newTableFlags
    else
      return (0#64, m)
  else
    let m ← m.addFlags entry newTableFlags
    m.validPointer table

def getEntryByIndex (m : Machine) (pml4Table : Word) (newTableFlags : PageFlags) (i4 i3 i2 i1 : Nat) :
    Option (Word × Machine) := do
  let (pdpTable, m) ← m.getTableFromEntry (entryPtr pml4Table i4) newTableFlags
  if pdpTable = 0#64 then return (0#64, m)
  let (pdTable, m) ← m.getTableFromEntry (entryPtr pdpTable i3) newTableFlags
  if pdTable = 0#64 then return (0#64, m)
  let (ptTable, m) ← m.getTableFromEntry (entryPtr pdTable i2) newTableFlags
  if ptTable = 0#64 then return (0#64, m)
  return (entryPtr ptTable i1, m)

def getEntry (m : Machine) (pml4Table : Word) (newTableFlags : PageFlags) (virtAddr : Word) :
    Option (Word × Machine) :=
  m.getEntryByIndex pml4Table newTableFlags (getLv4Index virtAddr) (getLv3Index virtAddr)
    (getLv2Index virtAddr) (getLv1Index virtAddr)

def lookupEntry (m : Machine) (pml4Table virtAddr : Word) : Option (Word × Machine) :=
  m.getEntry pml4Table lookupOnly virtAddr

def map (m : Machine) (pml4Table page frame : Word) (flags : PageFlags) : Option Machine := do
  let (entry, m) ← m.getEntry pml4Table flags page
  if entry ≠ 0#64 then
    m.store entry (frame ||| flags)
  else
    return m

def unmap (m : Machine) (pml4Table page : Word) : Option Machine := do
  let (entry, m) ← m.lookupEntry pml4Table page
  if entry ≠ 0#64 then
    m.store entry 0#64
  else
    return m

def mapFrame (m : Machine) (page frame : Word) (flags : PageFlags) : Option Machine :=
  m.map m.sPml4Table page frame flags

def mapUserFrame (m : Machine) (pml4Table page frame : Word) (flags : PageFlags) : Option Machine :=
  m.map pml4Table page frame flags

def unmapPage (m : Machine) (page : Word) : Option Machine := m.unmap m.sPml4Table page

def unmapUserPage (m : Machine) (pml4Table page : Word) : Option Machine := m.unmap pml4Table page

/-- `to_usr_phys`, and `to_phys` with the kernel's table -/
def toUsrPhys (m : Machine) (pml4Table virtAddr : Word) : Option (Word × Machine) := do
  let (entry, m) ← m.lookupEntry pml4Table virtAddr
  if entry = 0#64 then return (0#64, m)
  let (e, m) ← m.load entry
  if !isEntryPresent e then return (0#64, m)
  let (e, m) ← m.load entry
  return (base e + (virtAddr &&& 0xfff#64), m)

def toPhys (m : Machine) (virtAddr : Word) : Option (Word × Machine) :=
  m.toUsrPhys m.sPml4Table virtAddr

/-- `is_usr_addr_present`, and `is_addr_present` with the kernel's table -/
def isUsrAddrPresent (m : Machine) (pml4Table virtAddr : Word) : Option (Bool × Machine) := do
  let (entry, m) ← m.lookupEntry pml4Table virtAddr
  if entry ≠ 0#64 then
    let (e, m) ← m.load entry
    return (isEntryPresent e, m)
  else
    return (false, m)

def isAddrPresent (m : Machine) (virtAddr : Word) : Option (Bool × Machine) :=
  m.isUsrAddrPresent m.sPml4Table virtAddr

/-- `for (i = first; i < first + n; i++) pml4_addr->pdp_tables[i] = 0` -/
def clearEntries (m : Machine) (table : Word) (first : Nat) : Nat → Option Machine
  | 0 => some m
  | n + 1 => do
    let m ← m.write (entryPtr table first) 0#64
    clearEntries m table (first + 1) n

def createUserPml4 (m : Machine) : Option (Word × Machine) := do
  let (pml4Addr, m) := m.pmmAllocUnmapped 1
  let m ← m.mapFrame (toPage pml4Addr) (toFrame pml4Addr)
    (PageFlags.present ||| PageFlags.writeable ||| PageFlags.user)
  let m ← m.clearEntries pml4Addr 1 511
  let e ← m.read (entryPtr m.sPml4Table 0)
  let m ← m.write (entryPtr pml4Addr 0) e
  return (pml4Addr, m.noteTable (frame pml4Addr))

def initPaging (m : Machine) : Machine := { m with sPml4Table := m.cr3 }

end Machine

end HaiirOS
