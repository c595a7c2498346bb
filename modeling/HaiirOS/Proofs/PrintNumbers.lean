import HaiirOS.Io.Print

/-!
# Printed numbers

What `printInt` and `printHex` print reads back as their argument, but for the smallest `int`: its
negation is itself, and its digits are negative.
-/

namespace HaiirOS

open Numeral

/-- The value of a decimal digit. -/
def decimalDigit (c : BitVec 8) : Option Nat :=
  if 48 ≤ c.toNat ∧ c.toNat < 58 then some (c.toNat - 48) else none

/-- The value of a hexadecimal digit in lower case. -/
def hexDigit (c : BitVec 8) : Option Nat :=
  if 48 ≤ c.toNat ∧ c.toNat < 58 then some (c.toNat - 48)
  else if 97 ≤ c.toNat ∧ c.toNat < 103 then some (c.toNat - 87) else none

/-- The characters are a decimal number, with a minus sign if it is negative, that reads as `z`. -/
def IsDecimal (out : List (BitVec 8)) (z : Int) : Prop :=
  ∃ digits, out = (if z < 0 then [ch '-'] else []) ++ digits ∧ Spells decimalDigit 10 digits z.natAbs

/-- The characters are a hexadecimal number that reads as `n`. -/
def IsHex (out : List (BitVec 8)) (n : Nat) : Prop := ∃ digits, out = text "0x" ++ digits ∧ Spells hexDigit 16 digits n

/-- `printInt` and `printHex` stay in their buffers, and print numbers that read as their arguments. -/
structure PrintsNumbers (i : BitVec 32) (u : BitVec 64) : Prop where
  int : ∃ out, printInt i = some out ∧ IsDecimal out i.toInt
  hex : ∃ out, printHex u = some out ∧ IsHex out u.toNat

def decimalChar (d : Nat) : BitVec 8 := BitVec.ofNat 8 (d + 48)

def hexChar (d : Nat) : BitVec 8 := (text "0123456789abcdef").getD d 0#8

/-- The decimal number. -/
def decimalText (z : Int) : List (BitVec 8) := (if z < 0 then [ch '-'] else []) ++ (numeral 10 z.natAbs).map decimalChar

/-- The hexadecimal number. -/
def hexText (n : Nat) : List (BitVec 8) := text "0x" ++ (numeral 16 n).map hexChar

lemma isDecimal_decimalText (z : Int) : IsDecimal (decimalText z) z := by
  have hchar : ∀ d, d < 10 → decimalDigit (decimalChar d) = some d := by decide
  exact ⟨_, rfl, spells_numeral (by omega) hchar z.natAbs⟩

lemma isHex_hexText (n : Nat) : IsHex (hexText n) n := by
  have hchar : ∀ d, d < 16 → hexDigit (hexChar d) = some d := by decide
  exact ⟨_, rfl, spells_numeral (by omega) hchar n⟩

/-- The loop of `printInt` on a number that is not negative. -/
lemma fillBack_int {i : BitVec 32} (hi : i.msb = false) :
    fillBack (fun i => (i.srem 10#32 + 48#32).setWidth 8) (fun i => i.sdiv 10#32) (fun i => i = 0#32) 10 i [] =
      some ((numeral 10 i.toNat).map decimalChar) := by
  have hten : (10#32).msb = false := by decide
  have hlt : ∀ i : BitVec 32, i.msb = false → i.toNat < 2 ^ 31 := by
    intro i hi
    have hhalf := BitVec.msb_eq_false_iff_two_mul_lt.mp hi
    omega
  have hdigit : ∀ i : BitVec 32, i.msb = false → (i.srem 10#32 + 48#32).setWidth 8 = decimalChar (i.toNat % 10) := by
    intro i hi
    apply BitVec.eq_of_toNat_eq
    rw [BitVec.srem_eq, hi, hten, decimalChar, BitVec.toNat_setWidth, BitVec.toNat_add, BitVec.toNat_umod]
    change (i.toNat % 10 + 48) % 2 ^ 32 % 2 ^ 8 = (i.toNat % 10 + 48) % 2 ^ 8
    omega
  have hrest : ∀ i : BitVec 32, i.msb = false → (i.sdiv 10#32).msb = false ∧ (i.sdiv 10#32).toNat = i.toNat / 10 := by
    intro i hi
    have hdiv : (i.sdiv 10#32).toNat = i.toNat / 10 := by
      rw [BitVec.sdiv_eq, hi, hten]
      exact BitVec.toNat_udiv
    have hsmall := hlt i hi
    refine ⟨BitVec.msb_eq_false_iff_two_mul_lt.mpr ?_, hdiv⟩
    omega
  have hfits : i.toNat < 10 ^ 10 := by
    have hsmall := hlt i hi
    omega
  rw [fillBack_eq (by omega) hdigit hrest (fun i _ => BitVec.toNat_eq) (by omega) hi hfits, List.append_nil]

theorem printInt_eq {i : BitVec 32} (hi : i ≠ BitVec.intMin 32) : printInt i = some (decimalText i.toInt) := by
  unfold printInt decimalText
  rw [BitVec.slt_zero_eq_msb]
  by_cases hneg : i.msb = true
  · have hsign : i.toInt < 0 := BitVec.toInt_neg_of_msb_true hneg
    have hmsb : (-i).msb = false := by
      rw [BitVec.msb_neg]
      simp [hneg, hi]
    have habs : (-i).toNat = i.toInt.natAbs := by
      have hint := BitVec.toInt_neg_of_ne_intMin hi
      rw [BitVec.toInt_eq_toNat_of_msb hmsb] at hint
      omega
    simp only [hneg, if_true, fillBack_int hmsb, habs, if_pos hsign, Option.pure_def, Option.bind_eq_bind, Option.bind_some]
  · have hmsb : i.msb = false := (Bool.not_eq_true _).mp hneg
    have hint := BitVec.toInt_eq_toNat_of_msb hmsb
    have hsign : ¬ i.toInt < 0 := by omega
    have habs : i.toNat = i.toInt.natAbs := by omega
    simp only [hmsb, Bool.false_eq_true, if_false, fillBack_int hmsb, habs, if_neg hsign, Option.pure_def, Option.bind_eq_bind,
      Option.bind_some]

/-- The loop of `printHex`. -/
lemma fillBack_hex (u : BitVec 64) :
    fillBack (fun i => (text "0123456789abcdef").getD (i % 16#64).toNat 0#8) (fun i => i / 16#64) (fun i => i = 0#64) 16 u [] =
      some ((numeral 16 u.toNat).map hexChar) := by
  have hdigit : ∀ i : BitVec 64, True → (text "0123456789abcdef").getD (i % 16#64).toNat 0#8 = hexChar (i.toNat % 16) := by
    intro i _
    rw [BitVec.toNat_umod]
    rfl
  have hrest : ∀ i : BitVec 64, True → True ∧ (i / 16#64).toNat = i.toNat / 16 := fun i _ => ⟨trivial, BitVec.toNat_udiv⟩
  have hfits : u.toNat < 16 ^ 16 := u.isLt
  rw [fillBack_eq (by omega) hdigit hrest (fun i _ => BitVec.toNat_eq) (by omega) trivial hfits, List.append_nil]

theorem printHex_eq (u : BitVec 64) : printHex u = some (hexText u.toNat) := by
  unfold printHex hexText
  simp only [fillBack_hex, Option.pure_def, Option.bind_eq_bind, Option.bind_some]
  rfl

/-- The smallest `int` is printed as `-./,),(-*,(`. -/
lemma printInt_intMin_not_decimal {out : List (BitVec 8)} (hprint : printInt (BitVec.intMin 32) = some out) (z : Int) :
    ¬ IsDecimal out z := by
  have hout : printInt (BitVec.intMin 32) = some (text "-./,),(-*,(") := by decide
  obtain rfl := Option.some.inj (hout.symm.trans hprint)
  rintro ⟨digits, hsplit, hspells⟩
  have hdot : ch '.' ∈ digits := by
    have hmem : ch '.' ∈ (if z < 0 then [ch '-'] else []) ++ digits := by
      rw [← hsplit]
      decide
    refine (List.mem_append.mp hmem).resolve_left fun hsign => ?_
    split_ifs at hsign
    · exact absurd hsign (by decide)
    · exact List.not_mem_nil hsign
  exact hspells.digits hdot (by decide)

/-- Every number is printed right but the smallest `int`. -/
theorem printsNumbers_iff (i : BitVec 32) (u : BitVec 64) : PrintsNumbers i u ↔ i ≠ BitVec.intMin 32 := by
  constructor
  · rintro ⟨⟨out, hprint, hdecimal⟩, -⟩ rfl
    exact printInt_intMin_not_decimal hprint _ hdecimal
  · intro hi
    exact ⟨⟨_, printInt_eq hi, isDecimal_decimalText _⟩, ⟨_, printHex_eq u, isHex_hexText _⟩⟩

theorem not_printsNumbers_intMin : ¬ PrintsNumbers (BitVec.intMin 32) 0#64 := by
  rintro ⟨⟨out, hprint, hdecimal⟩, -⟩
  exact printInt_intMin_not_decimal hprint _ hdecimal

end HaiirOS
