import Mathlib.Algebra.Group.Nat.Defs
import Mathlib.Logic.Function.Basic

/-!
# Address words

A 64-bit word read as an address: a frame number in bits 51:12, twelve low bits and twelve
high ones that are flags or ignored.
-/

namespace AddressWord

/-- Bits 51:12 of a word. -/
def frame (e : BitVec 64) : Nat := e.toNat / 2 ^ 12 % 2 ^ 40

/-- The word without its twelve low bits. -/
def base (e : BitVec 64) : BitVec 64 := e &&& ~~~0xfff#64

lemma base_eq_shift (e : BitVec 64) : base e = (e >>> 12) <<< 12 := by
  apply BitVec.eq_of_getLsbD_eq
  intro i hi
  have hmask : (0xfff#64).getLsbD i = decide (i < 12) := by
    rw [BitVec.getLsbD_ofNat, (by decide : 0xfff = 2 ^ 12 - 1), Nat.testBit_two_pow_sub_one]
    simp [hi]
  simp only [base, BitVec.getLsbD_and, BitVec.getLsbD_not, hmask, BitVec.getLsbD_shiftLeft,
    BitVec.getLsbD_ushiftRight, hi, decide_true, Bool.true_and]
  by_cases h : i < 12
  · simp [h]
  · have he : 12 + (i - 12) = i := by omega
    simp [h, he]

lemma base_toNat (e : BitVec 64) : (base e).toNat = e.toNat / 4096 * 4096 := by
  have h := e.isLt
  rw [base_eq_shift, BitVec.toNat_shiftLeft, BitVec.toNat_ushiftRight, Nat.shiftRight_eq_div_pow,
    Nat.shiftLeft_eq]
  omega

lemma low_toNat (e : BitVec 64) : (e &&& 0xfff#64).toNat = e.toNat % 4096 := by
  rw [BitVec.toNat_and, BitVec.toNat_ofNat]
  exact Nat.and_two_pow_sub_one_eq_mod e.toNat 12

lemma getLsbD_base (e : BitVec 64) {i : Nat} (hi : i < 64) :
    (base e).getLsbD i = (decide (12 ≤ i) && e.getLsbD i) := by
  rw [base_eq_shift, BitVec.getLsbD_shiftLeft, BitVec.getLsbD_ushiftRight]
  by_cases h : i < 12
  · simp [h, Nat.not_le_of_lt h]
  · have he : 12 + (i - 12) = i := by omega
    simp [hi, h, he, Nat.le_of_not_lt h]

/-- Clearing bit 12 alone gives the page address only where the low thirteen bits are zero anyway. -/
lemma clear_bit12_eq_base_iff (e : BitVec 64) : e &&& ~~~4096#64 = base e ↔ e.toNat % 8192 = 0 := by
  have hmask (i : Nat) : (4096#64).getLsbD i = decide (i = 12) := by
    rw [BitVec.getLsbD_ofNat, (by decide : 4096 = 2 ^ 12), Nat.testBit_two_pow]
    by_cases hi : 12 = i
    · subst hi
      decide
    · simp [hi, Ne.symm hi]
  have hclear {i : Nat} (hi : i < 64) : (e &&& ~~~4096#64).getLsbD i = (e.getLsbD i && !decide (i = 12)) := by
    rw [BitVec.getLsbD_and, BitVec.getLsbD_not, hmask, decide_eq_true hi, Bool.true_and]
  have hlow : e.toNat % 8192 = 0 ↔ ∀ i < 13, e.getLsbD i = false := by
    rw [(by decide : 8192 = 2 ^ 13)]
    constructor
    · intro h i hi
      have hbit := Nat.testBit_mod_two_pow e.toNat 13 i
      rw [h, Nat.zero_testBit, decide_eq_true hi, Bool.true_and] at hbit
      exact hbit.symm
    · intro h
      apply Nat.eq_of_testBit_eq
      intro i
      rw [Nat.testBit_mod_two_pow, Nat.zero_testBit]
      by_cases hi : i < 13
      · have hbit : e.toNat.testBit i = false := h i hi
        rw [hbit, Bool.and_false]
      · rw [decide_eq_false hi, Bool.false_and]
  rw [hlow]
  constructor
  · intro h i hi
    have hbit := congrArg (fun x => x.getLsbD i) h
    simp only [hclear (by omega : i < 64), getLsbD_base e (by omega : i < 64)] at hbit
    by_cases h12 : i = 12
    · subst h12
      simpa using hbit.symm
    · rw [decide_eq_false h12, decide_eq_false (by omega : ¬ 12 ≤ i), Bool.not_false, Bool.and_true,
        Bool.false_and] at hbit
      exact hbit
  · intro h
    apply BitVec.eq_of_getLsbD_eq
    intro i hi
    rw [hclear hi, getLsbD_base e hi]
    by_cases h13 : i < 13
    · rw [h i h13, Bool.false_and, Bool.and_false]
    · rw [decide_eq_false (by omega : ¬ i = 12), decide_eq_true (by omega : 12 ≤ i), Bool.not_false, Bool.and_true,
        Bool.true_and]

lemma index_toNat (e : BitVec 64) (k : Nat) : ((e >>> k) &&& 0x1ff#64).toNat = e.toNat / 2 ^ k % 512 := by
  rw [BitVec.toNat_and, BitVec.toNat_ofNat, BitVec.toNat_ushiftRight, Nat.shiftRight_eq_div_pow]
  exact Nat.and_two_pow_sub_one_eq_mod (e.toNat / 2 ^ k) 9

lemma frame_or (e f : BitVec 64) : frame (e ||| f) = frame e ||| frame f := by
  unfold frame
  rw [BitVec.toNat_or, ← Nat.shiftRight_eq_div_pow, ← Nat.shiftRight_eq_div_pow,
    ← Nat.shiftRight_eq_div_pow, Nat.shiftRight_or_distrib, Nat.or_mod_two_pow]

lemma frame_or_of_zero (e : BitVec 64) {f : BitVec 64} (h : frame f = 0) : frame (e ||| f) = frame e := by
  rw [frame_or, h, Nat.or_zero]

lemma frame_base (e : BitVec 64) : frame (base e) = frame e := by
  unfold frame
  rw [base_toNat]
  omega

lemma frame_ofNat {t : Nat} (h : t < 2 ^ 40) : frame (BitVec.ofNat 64 (t * 4096)) = t := by
  unfold frame
  rw [BitVec.toNat_ofNat]
  omega

lemma getLsbD_ofNat_frame {t i : Nat} (h : t < 2 ^ 40) (hi : i < 12 ∨ 52 ≤ i) :
    (BitVec.ofNat 64 (t * 4096)).getLsbD i = false := by
  rw [BitVec.getLsbD_ofNat, (by decide : 4096 = 2 ^ 12), Nat.testBit_mul_two_pow]
  rcases hi with hi | hi
  · simp [show ¬ 12 ≤ i by omega]
  · have ht : t.testBit (i - 12) = false :=
      Nat.testBit_lt_two_pow
        (Nat.lt_of_lt_of_le h (Nat.pow_le_pow_right (by decide) (by omega)))
    simp [ht]

end AddressWord
