import HaiirOS.Memory.Paging

/-!
# The walk on physical memory

What `map` and `unmap` mean without pointers: the same walk done directly on the words of
physical memory. It makes the same allocations and keeps the same log as the paging code,
and it has no temporary window.
-/

namespace HaiirOS

open AddressWord

namespace Machine

/-- A read of the entry at a physical address. -/
def fetch (m : Machine) (a : Nat) : Machine := { m with log := .load a :: m.log }

/-- A write of the entry at a physical address. -/
def put (m : Machine) (a : Nat) (w : Word) : Machine :=
  { m with mem := Function.update m.mem a w, log := .store a :: m.log }

/-- The walk takes an entry to name no table. -/
def Absent (m : Machine) (e : Word) : Prop := base e = 0#64 ∨ m.pmm.pmmIsFree (base e).toNat = true

instance (m : Machine) (e : Word) : Decidable (m.Absent e) := inferInstanceAs (Decidable (_ ∨ _))

/-- A new table for the entry at `a`. -/
def attach (m : Machine) (a : Nat) (flags : PageFlags) : Nat × Machine :=
  let (table, m) := m.pmmAllocUnmapped 1
  (frame table, (m.noteTable (frame table)).put a (table ||| flags))

/-- The new flags of an entry that names a table, where the mode asks for them. -/
def light (m : Machine) (a : Nat) (flags : PageFlags) : Machine :=
  if !isEntryPresent (m.mem a) && flags != lookupOnly then (m.fetch a).put a (m.mem a ||| flags) else m

/-- One level down from the entry at `a`: the frame of the table it names, if any, after a new
table or new flags where the mode asks for them. -/
def enter (m : Machine) (a : Nat) (flags : PageFlags) : Option Nat × Machine :=
  let e := m.mem a
  let m := m.fetch a
  if m.Absent e then
    if flags ≠ lookupOnly then
      let r := m.attach a flags
      (some r.1, r.2)
    else (none, m)
  else (some (frame e), (m.fetch a).light a flags)

/-- The physical address of the level 1 entry for `v` below the table in frame `t` of level
`n + 1`. -/
def directEntry (m : Machine) (flags : PageFlags) (v : Word) : Nat → Nat → Option Nat × Machine
  | 0, t => (some (slot t (lvIndex v 1)), m)
  | n + 1, t =>
    match m.enter (slot t (lvIndex v (n + 2))) flags with
    | (some u, m) => directEntry m flags v n u
    | (none, m) => (none, m)

/-- A write through the result of a walk, if there is one. -/
def putEntry (r : Option Nat × Machine) (w : Word) : Machine :=
  match r with
  | (some a, m) => m.put a w
  | (none, m) => m

/-- `map` on physical memory, for the PML4 in frame `root` -/
def directMap (m : Machine) (root : Nat) (page frame : Word) (flags : PageFlags) : Machine :=
  putEntry (m.directEntry flags page 3 root) (frame ||| flags)

/-- `unmap` on physical memory -/
def directUnmap (m : Machine) (root : Nat) (page : Word) : Machine :=
  putEntry (m.directEntry lookupOnly page 3 root) 0#64

lemma light_of_present {m : Machine} {a : Nat} (h : (m.mem a).getLsbD 0 = true) (flags : PageFlags) :
    m.light a flags = m := by
  rw [light, isEntryPresent_eq, h]
  rfl

lemma light_of_not_present {m : Machine} {a : Nat} (h : (m.mem a).getLsbD 0 = false) {flags : PageFlags}
    (hf : flags ≠ lookupOnly) : m.light a flags = (m.fetch a).put a (m.mem a ||| flags) := by
  rw [light, isEntryPresent_eq, h, bne_iff_ne.mpr hf]
  rfl

lemma light_lookupOnly (m : Machine) (a : Nat) : m.light a lookupOnly = m := by
  rw [light, bne_self_eq_false, Bool.and_false]
  rfl

end Machine

end HaiirOS
