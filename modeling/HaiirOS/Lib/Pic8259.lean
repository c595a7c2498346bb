import Mathlib.Logic.Equiv.Fin.Basic
import Mathlib.Logic.Function.Basic

/-!
# Two cascaded 8259A interrupt controllers

The chips in fully nested mode: line 0 is the most urgent, and a line in service keeps back itself and the less
urgent ones. The output of the second chip is wired to line 2 of the first.
-/

namespace Pic8259

/-- What a chip takes the next word at its data port for. -/
inductive Expects where
  | icw2
  | icw3
  | icw4
  | mask
deriving DecidableEq

structure Chip where
  expects : Expects
  single : Bool
  needsIcw4 : Bool
  offset : BitVec 8
  icw3 : BitVec 8
  icw4 : BitVec 8
  imr : BitVec 8
  irr : Fin 8 → Bool
  isr : Fin 8 → Bool

namespace Chip

/-- The end of the most urgent interrupt in service. -/
def eoi (c : Chip) : Chip :=
  match Fin.find? c.isr with
  | some l => { c with isr := Function.update c.isr l false }
  | none => c

/-- A word at the command port, none for those that leave fully nested mode or ask for a register. The first word of
an initialisation does not end what is in service. -/
def command (c : Chip) (word : BitVec 8) : Option Chip :=
  if word.getLsbD 4 then
    some { c with
      expects := .icw2
      single := word.getLsbD 1
      needsIcw4 := word.getLsbD 0
      icw4 := 0#8
      imr := 0#8
      irr := fun _ => false }
  else if word = 0x20#8 then some c.eoi
  else none

def data (c : Chip) (word : BitVec 8) : Chip :=
  let last := if c.needsIcw4 then Expects.icw4 else .mask
  match c.expects with
  | .icw2 => { c with offset := word &&& 0xf8#8, expects := if c.single then last else .icw3 }
  | .icw3 => { c with icw3 := word, expects := last }
  | .icw4 => { c with icw4 := word, expects := .mask }
  | .mask => { c with imr := word }

/-- The line that the chip interrupts for. -/
def next (c : Chip) (requests : Fin 8 → Bool) : Option (Fin 8) :=
  Fin.find? fun l => requests l && !c.imr.getLsbD l && decide (∀ k ≤ l, c.isr k = false)

/-- The line is acknowledged; without automatic ends it is in service then. -/
def take (c : Chip) (l : Fin 8) : Chip :=
  { c with
    irr := Function.update c.irr l false
    isr := if c.icw4.getLsbD 1 then c.isr else Function.update c.isr l true }

def raise (c : Chip) (l : Fin 8) : Chip := { c with irr := Function.update c.irr l true }

variable {c : Chip} {requests : Fin 8 → Bool} {l : Fin 8}

lemma next_eq_some (h : c.next requests = some l) :
    requests l = true ∧ c.imr.getLsbD l = false ∧ ∀ k ≤ l, c.isr k = false := by
  obtain ⟨hl, -⟩ := Fin.find?_eq_some_iff.mp h
  rw [Bool.and_eq_true, Bool.and_eq_true, Bool.not_eq_true'] at hl
  exact ⟨hl.1.1, hl.1.2, of_decide_eq_true hl.2⟩

/-- A line is passed over for a more urgent one only. -/
lemma next_le (hr : requests l = true) (hmask : c.imr.getLsbD l = false) (hisr : ∀ k ≤ l, c.isr k = false) :
    ∃ k ≤ l, c.next requests = some k := by
  have hl : (requests l && !c.imr.getLsbD l && decide (∀ k ≤ l, c.isr k = false)) = true := by
    rw [hr, hmask, decide_eq_true hisr]
    rfl
  obtain ⟨k, hk⟩ := Option.isSome_iff_exists.mp
    (Fin.isSome_find?_of_eq_true (p := fun l => requests l && !c.imr.getLsbD l && decide (∀ k ≤ l, c.isr k = false)) hl)
  refine ⟨k, ?_, hk⟩
  by_contra hlt
  have hfalse := Fin.eq_false_of_find?_eq_some_of_lt hk l (Fin.not_le.mp hlt)
  exact Bool.false_ne_true (hfalse.symm.trans hl)

lemma next_masked (h : c.imr = 0xff#8) : c.next requests = none := by
  apply Fin.find?_eq_none_iff.mpr
  intro l
  have hmask : ∀ l : Fin 8, (0xff#8).getLsbD l = true := by decide
  rw [h, hmask, Bool.not_true, Bool.and_false, Bool.false_and]

/-- The end of the interrupt that was taken last. -/
lemma take_eoi (h : ∀ k ≤ l, c.isr k = false) (hauto : c.icw4.getLsbD 1 = false) : (c.take l).eoi.isr = c.isr := by
  have hisr : (c.take l).isr = Function.update c.isr l true := if_neg (Bool.eq_false_iff.mp hauto)
  have hfind : Fin.find? (c.take l).isr = some l := by
    rw [hisr]
    apply Fin.find?_eq_some_iff.mpr
    refine ⟨Function.update_self l true c.isr, fun k hk => ?_⟩
    rw [Function.update_of_ne (Fin.ne_of_lt hk)]
    exact h k (Fin.le_of_lt hk)
  unfold eoi
  rw [hfind, hisr]
  change Function.update (Function.update c.isr l true) l false = c.isr
  rw [Function.update_idem, ← h l (Fin.le_refl l), Function.update_eq_self]

end Chip

/-- The line of the first chip that the second one is wired to. -/
def cascade : Fin 8 := 2

structure Pair where
  master : Chip
  slave : Chip

namespace Pair

/-- The request lines of the first chip. -/
def requests (p : Pair) : Fin 8 → Bool :=
  Function.update p.master.irr cascade (p.slave.next p.slave.irr).isSome

/-- The processor acknowledges: the vector that it reads, and the chips then. For a line with a second chip the first
one leaves the answer to the chip with this identity. -/
def accept (p : Pair) : Option (BitVec 8 × Pair) := do
  let l ← p.master.next p.requests
  if p.master.icw3.getLsbD l then
    if p.slave.icw3.setWidth 3 = BitVec.ofNat 3 l then do
      let k ← p.slave.next p.slave.irr
      return (p.slave.offset + BitVec.ofNat 8 k, ⟨p.master.take l, p.slave.take k⟩)
    else none
  else return (p.master.offset + BitVec.ofNat 8 l, { p with master := p.master.take l })

end Pair

end Pic8259
