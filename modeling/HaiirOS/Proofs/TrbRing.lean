import HaiirOS.Driver.Xhci
import Mathlib.Tactic.SplitIfs

/-!
# Blocks of a ring

The array of a ring seen by index, and the cycle bit of a block. Pointer registers are pairs of
32-bit registers whose low bits are flags.
-/

namespace HaiirOS

lemma trbAddr_inj {ring : BitVec 64} {i j : Nat} (hi : i < 2 ^ 32) (hj : j < 2 ^ 32)
    (h : trbAddr ring i = trbAddr ring j) : i = j := by
  have hnat := congrArg BitVec.toNat (BitVec.add_right_inj ring |>.mp h)
  simp only [BitVec.toNat_ofNat] at hnat
  omega

/-- The blocks of a ring by index. -/
def XhciController.slots (x : XhciController) (ring : BitVec 64) (i : Nat) : Trb := x.trbs (trbAddr ring i)

lemma slots_store (x : XhciController) (ring : BitVec 64) {i j : Nat} (hi : i < 2 ^ 32) (hj : j < 2 ^ 32) (trb : Trb) :
    (x.store (trbAddr ring j) trb).slots ring i = if i = j then trb else x.slots ring i := by
  unfold XhciController.slots XhciController.store
  split_ifs with h
  · rw [h]
    exact Function.update_self ..
  · apply Function.update_of_ne
    intro heq
    exact h (trbAddr_inj hi hj heq)

/-- Clearing a ring changes memory only, and empties the blocks of the ring. -/
lemma clearRing_spec (x : XhciController) (ring : BitVec 64) {len : Nat} (hlen : len ≤ 2 ^ 32) :
    ∃ mem, x.clearRing ring len = { x with trbs := mem } ∧ ∀ i < len, mem (trbAddr ring i) = ⟨0#64, 0#32, 0#32⟩ := by
  induction len with
  | zero => exact ⟨x.trbs, rfl, fun i hi => absurd hi (Nat.not_lt_zero i)⟩
  | succ len ih =>
    obtain ⟨mem, hmem, hzero⟩ := ih (by omega)
    refine ⟨Function.update mem (trbAddr ring len) ⟨0#64, 0#32, 0#32⟩, ?_, fun i hi => ?_⟩
    · rw [XhciController.clearRing, hmem, XhciController.store]
    · by_cases h : i = len
      · rw [h]
        exact Function.update_self ..
      · rw [Function.update_of_ne]
        · exact hzero i (by omega)
        · intro heq
          exact h (trbAddr_inj (by omega) (by omega) heq)

/-- The cycle bit of a block. -/
def Trb.cycle (trb : Trb) : Bool := trb.flags.getLsbD 0

/-- The block with the given cycle bit. -/
def Trb.stamp (trb : Trb) (cycle : Bool) : Trb :=
  { trb with flags := (trb.flags &&& ~~~trbCycleBit) ||| if cycle then trbCycleBit else 0#32 }

@[simp] lemma Trb.cycle_stamp (trb : Trb) (cycle : Bool) : (trb.stamp cycle).cycle = cycle := by
  cases cycle <;> simp [Trb.cycle, Trb.stamp, trbCycleBit]

lemma Trb.cycle_eq (trb : Trb) : (trb.flags &&& trbCycleBit ≠ 0#32) ↔ trb.cycle = true := by
  have h := BitVec.and_one_eq_setWidth_ofBool_getLsbD (x := trb.flags)
  rw [trbCycleBit, h, Trb.cycle]
  cases trb.flags.getLsbD 0 <;> decide

/-- The type field of a block is that of a link. -/
def Trb.isLink (trb : Trb) : Bool := (trb.flags >>> 10) &&& 0x3f#32 == 6#32

@[simp] lemma Trb.isLink_stamp (trb : Trb) (cycle : Bool) : (trb.stamp cycle).isLink = trb.isLink := by
  have hmask : (~~~trbCycleBit) >>> 10 &&& 0x3f#32 = 0x3f#32 := by decide
  have hcycle : (if cycle then trbCycleBit else 0#32) >>> 10 = 0#32 := by cases cycle <;> decide
  simp only [Trb.isLink, Trb.stamp, BitVec.ushiftRight_or_distrib, BitVec.ushiftRight_and_distrib, hcycle,
    BitVec.or_zero, BitVec.and_assoc, hmask]

lemma Trb.stamp_stamp (trb : Trb) (b c : Bool) : (trb.stamp b).stamp c = trb.stamp c := by
  have hflags (x y : BitVec 32) (hx : x &&& ~~~trbCycleBit = 0#32) :
      ((trb.flags &&& ~~~trbCycleBit) ||| x) &&& ~~~trbCycleBit ||| y = trb.flags &&& ~~~trbCycleBit ||| y := by
    rw [BitVec.and_comm, BitVec.and_or_distrib_left, BitVec.and_comm _ x, hx, BitVec.or_zero, BitVec.and_comm,
      BitVec.and_assoc, BitVec.and_self]
  have hmask : (if b then trbCycleBit else 0#32) &&& ~~~trbCycleBit = 0#32 := by cases b <;> decide
  simp only [Trb.stamp, hflags _ _ hmask]

lemma Trb.stamp_true (trb : Trb) : trb.stamp true = { trb with flags := trb.flags ||| trbCycleBit } := by
  have hflags : (trb.flags &&& ~~~trbCycleBit) ||| trbCycleBit = trb.flags ||| trbCycleBit := by
    apply BitVec.eq_of_getLsbD_eq
    intro i hi
    simp only [BitVec.getLsbD_or, BitVec.getLsbD_and, BitVec.getLsbD_not, hi, decide_true, Bool.true_and]
    cases trb.flags.getLsbD i <;> cases trbCycleBit.getLsbD i <;> rfl
  simp only [Trb.stamp, if_true, hflags]

/-- The cycle state as the driver keeps it. -/
def cycleByte (cycle : Bool) : BitVec 8 := if cycle then 1#8 else 0#8

lemma cycleByte_inj {b c : Bool} : cycleByte b = cycleByte c ↔ b = c := by
  cases b <;> cases c <;> decide

lemma cycleByte_toggle (b : Bool) : cycleByte b ^^^ 1#8 = cycleByte !b := by
  cases b <;> decide

lemma prefix_concat {α : Type} {l m : List α} (h : l <+: m) (hlt : l.length < m.length) :
    l ++ [m[l.length]] <+: m := by
  obtain ⟨t, rfl⟩ := h
  cases t with
  | nil => simp at hlt
  | cons a t => exact ⟨t, by simp⟩

/-- Bits 63:4 of a pointer register. -/
def pointerBits (reg : BitVec 64) : BitVec 64 := (reg >>> 4) <<< 4

lemma shift_back {v : BitVec 64} {k : Nat} (h : v.toNat % 2 ^ k = 0) : (v >>> k) <<< k = v := by
  apply BitVec.eq_of_toNat_eq
  rw [BitVec.toNat_shiftLeft, BitVec.toNat_ushiftRight, Nat.shiftRight_eq_div_pow, Nat.shiftLeft_eq,
    Nat.div_mul_cancel (Nat.dvd_of_mod_eq_zero h), Nat.mod_eq_of_lt v.isLt]

lemma pointerBits_of_aligned {reg : BitVec 64} (h : reg.toNat % 16 = 0) : pointerBits reg = reg := shift_back h

lemma trbAddr_aligned {ring : BitVec 64} (h : ring.toNat % 16 = 0) (i : Nat) : (trbAddr ring i).toNat % 16 = 0 := by
  rw [trbAddr, BitVec.toNat_add, BitVec.toNat_ofNat]
  omega

lemma append_halves (v : BitVec 64) : highHalf v ++ v.setWidth 32 = v := by
  apply BitVec.eq_of_getLsbD_eq
  intro i hi
  rw [BitVec.getLsbD_append, highHalf]
  by_cases h : i < 32
  · simp [h]
  · have h1 : i - 32 < 32 := by omega
    have h2 : 32 + (i - 32) = i := by omega
    simp [h, h1, h2]

/-- A controller before its rings are set up, with zeroed memory and registers. -/
def blankXhci : XhciController :=
  ⟨⟨0#64, 0#16⟩, 0#64, 0, 1#8, 0, 1#8, fun _ => ⟨0#64, 0#32, 0#32⟩, fun _ => 0#32, fun _ => 0#32, 0#32⟩

end HaiirOS
