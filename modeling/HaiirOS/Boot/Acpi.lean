import HaiirOS.Lib.Provision
import HaiirOS.Memory.Paging

/-!
# Finding the ACPI tables

`map_sdt`, `init_with_rsdp` and `init_with_xsdp` of `acpi.c`. Physical memory is a function of the
address. A run is given by its trace: the pages that it maps to the frames with their addresses, and
the bytes of tables that it reads.
-/

namespace HaiirOS

open Provision

/-- `otherSDTs` of the RSDT and of the XSDT has entries of four and of eight bytes. -/
def headerSize : Nat := 36

/-- A byte that is read through the pointer to a table. -/
structure TableByte where
  table : Word
  off : Nat

def TableByte.addr (b : TableByte) : Word := b.table + BitVec.ofNat 64 b.off

/-- The events of a run: to map a page, or to read a byte of a table. -/
abbrev AcpiEvent := Provision.Event Word TableByte

/-- The contents of physical memory. -/
abbrev PhysBytes := Word → BitVec 8

namespace PhysBytes

def dword (mem : PhysBytes) (a : Word) : BitVec 32 :=
  mem (a + 3#64) ++ mem (a + 2#64) ++ mem (a + 1#64) ++ mem a

/-- The field `Length` of a table. -/
def sdtLength (mem : PhysBytes) (table : Word) : BitVec 32 := mem.dword (table + 4#64)

end PhysBytes

/-- The reads of a field of `n` bytes. -/
def readField (table : Word) (off n : Nat) : List AcpiEvent :=
  (List.range n).map fun k => .use ⟨table, off + k⟩

def mapSdt (mem : PhysBytes) (sdtHeader : Word) : List AcpiEvent :=
  .provide (toPage sdtHeader) :: readField sdtHeader 4 4 ++
    (List.range ((mem.sdtLength sdtHeader).toNat / 4096)).flatMap fun k =>
      let i := BitVec.ofNat 32 (k + 1)
      .provide (toPage (sdtHeader + (i * 4096#32).setWidth 64)) :: readField sdtHeader 4 4

def signatureCmp (mem : PhysBytes) (header : Word) (target : List (BitVec 8)) : Bool :=
  (List.range target.length).all fun k => mem (header + BitVec.ofNat 64 k) == target.getD k 0#8

/-- The reads of `signature_cmp`, which stops at the first byte that differs. -/
def signatureReads (mem : PhysBytes) (header : Word) : Nat → List (BitVec 8) → List AcpiEvent
  | _, [] => []
  | k, b :: target =>
    .use ⟨header, k⟩ ::
      if mem (header + BitVec.ofNat 64 k) = b then signatureReads mem header (k + 1) target else []

def apicSignature : List (BitVec 8) := [0x41#8, 0x50#8, 0x49#8, 0x43#8]
def facpSignature : List (BitVec 8) := [0x46#8, 0x41#8, 0x43#8, 0x50#8]

/-- The pointers `madt` and `fadt`, null as none. -/
structure AcpiTables where
  madt : Option Word
  fadt : Option Word

/-- The root table: its entries are pointers of four or of eight bytes. -/
structure RootTable where
  addr : Word
  wide : Bool

namespace RootTable

variable (mem : PhysBytes) (root : RootTable)

def entrySize : Nat := if root.wide then 8 else 4

/-- `entries`: the subtraction and the division are those of `size_t`. -/
def entries : Nat :=
  (((mem.sdtLength root.addr).setWidth 64 - 36#64) / BitVec.ofNat 64 root.entrySize).setWidth 32 |>.toNat

/-- The pointer `otherSDTs[i]`. -/
def otherSdt (i : Nat) : Word :=
  let entry := root.addr + BitVec.ofNat 64 (headerSize + root.entrySize * i)
  if root.wide then mem.dword (entry + 4#64) ++ mem.dword entry else (mem.dword entry).setWidth 64

/-- An iteration of the loop over the entries up to the end of `map_sdt`. -/
def mapEntry (i : Nat) : List AcpiEvent :=
  readField root.addr (headerSize + root.entrySize * i) root.entrySize ++ mapSdt mem (root.otherSdt mem i)

def iteration (i : Nat) : List AcpiEvent :=
  root.mapEntry mem i ++ signatureReads mem (root.otherSdt mem i) 0 apicSignature ++
    signatureReads mem (root.otherSdt mem i) 0 facpSignature

/-- The run up to the iteration `n`. -/
def eventsTo (n : Nat) : List AcpiEvent :=
  mapSdt mem root.addr ++ readField root.addr 4 4 ++ (List.range n).flatMap (root.iteration mem)

/-- The events of `init_with_rsdp` and `init_with_xsdp`. -/
def initEvents : List AcpiEvent := root.eventsTo mem (root.entries mem)

/-- The pointers that `init_with_rsdp` and `init_with_xsdp` leave, with those that there were. -/
def initTables (tables : AcpiTables) : AcpiTables :=
  (List.range (root.entries mem)).foldl (fun tables i =>
    let header := root.otherSdt mem i
    let tables := if signatureCmp mem header apicSignature then { tables with madt := some header } else tables
    if signatureCmp mem header facpSignature then { tables with fadt := some header } else tables) tables

end RootTable

def initWithRsdp (mem : PhysBytes) (rootRsdt : Word) (tables : AcpiTables) : AcpiTables × List AcpiEvent :=
  let root : RootTable := ⟨rootRsdt, false⟩
  (root.initTables mem tables, root.initEvents mem)

def initWithXsdp (mem : PhysBytes) (rootXsdt : Word) (tables : AcpiTables) : AcpiTables × List AcpiEvent :=
  let root : RootTable := ⟨rootXsdt, true⟩
  (root.initTables mem tables, root.initEvents mem)

end HaiirOS
