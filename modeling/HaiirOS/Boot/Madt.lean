import Mathlib.Algebra.Group.Nat.Defs

/-!
# The multiple APIC description table

The walk over the entries of the MADT, which the IOAPIC driver makes several times. A function
of the interrupt driver that does not return gives the reason.
-/

namespace HaiirOS

/-- Why a function does not return: it follows a null pointer to an `ioapic_t` or to a handler, it
reads or writes outside of a table, or its loop or recursion goes on. -/
inductive Stop where
  | nullIoApic
  | nullHandler
  | outOfTable
  | fuel
deriving DecidableEq

/-- `madt_t`, the bytes after its header; the field `Length` counts the 44 bytes before them too. -/
structure Madt where
  entries : List (BitVec 8)
  length_lt : 44 + entries.length < 2 ^ 32

def madtEntryApic : BitVec 8 := 0#8
def madtEntryIoApic : BitVec 8 := 1#8
def madtEntryIntSrcOverride : BitVec 8 := 2#8

/-- `madt_local_apic_t`, the fields that are read -/
structure MadtLocalApic where
  processorId : BitVec 8
  apicId : BitVec 8
deriving DecidableEq

/-- `madt_io_apic_t`, its fields after the length -/
structure MadtIoApic where
  id : BitVec 8
  addr : BitVec 32
  gsiBase : BitVec 32

/-- `madt_io_apic_override_t`, the fields that are read -/
structure MadtOverride where
  irqSrc : BitVec 8
  globalSystemInt : BitVec 32
  flags : BitVec 16
deriving DecidableEq

namespace Madt

def length (madt : Madt) : BitVec 32 := BitVec.ofNat 32 (44 + madt.entries.length)

/-- `madt->entries[i]` -/
def byte (madt : Madt) (i : Nat) : Except Stop (BitVec 8) :=
  match madt.entries[i]? with
  | some b => .ok b
  | none => .error .outOfTable

def word (madt : Madt) (i : Nat) : Except Stop (BitVec 16) := do
  let low ← madt.byte i
  let high ← madt.byte (i + 1)
  return high ++ low

def dword (madt : Madt) (i : Nat) : Except Stop (BitVec 32) := do
  let low ← madt.word i
  let high ← madt.word (i + 2)
  return high ++ low

/-- The fields of the entry at `&madt->entries[i]` as a `madt_local_apic_t`. -/
def localApicAt (madt : Madt) (i : Nat) : Except Stop MadtLocalApic := do
  let apicId ← madt.byte (i + 3)
  let processorId ← madt.byte (i + 2)
  return ⟨processorId, apicId⟩

/-- The fields of the entry at `&madt->entries[i]` as a `madt_io_apic_t`. -/
def ioApicAt (madt : Madt) (i : Nat) : Except Stop MadtIoApic := do
  let id ← madt.byte (i + 2)
  let addr ← madt.dword (i + 4)
  let gsiBase ← madt.dword (i + 8)
  return ⟨id, addr, gsiBase⟩

/-- The fields of the entry at `&madt->entries[i]` as a `madt_io_apic_override_t`. -/
def overrideAt (madt : Madt) (i : Nat) : Except Stop MadtOverride := do
  let irqSrc ← madt.byte (i + 3)
  let globalSystemInt ← madt.dword (i + 4)
  let flags ← madt.word (i + 8)
  return ⟨irqSrc, globalSystemInt, flags⟩

/-- The loop over the entries that `get_io_apics`, `init_overrides` and `show_local_apics` share,
from an index on; `visit` gets the type and the index of an entry. -/
def walk {σ : Type} (madt : Madt) (visit : BitVec 8 → Nat → σ → Except Stop σ) :
    Nat → BitVec 32 → σ → Except Stop σ
  | 0, _, _ => .error .fuel
  | fuel + 1, entryIdx, s =>
    let entriesSize := madt.length - 44#32
    if entryIdx < entriesSize - 1#32 then do
      let type ← madt.byte entryIdx.toNat
      let len ← madt.byte (entryIdx.toNat + 1)
      let s ← visit type entryIdx.toNat s
      madt.walk visit fuel (entryIdx + len.setWidth 32) s
    else .ok s

/-- `show_local_apics`, with the local APICs that it prints -/
def showLocalApics (madt : Madt) (fuel : Nat) : Except Stop (List MadtLocalApic) :=
  madt.walk (fun type i shown =>
    if type = madtEntryApic then do
      let lapic ← madt.localApicAt i
      return shown ++ [lapic]
    else .ok shown) fuel 0#32 []

end Madt

end HaiirOS
