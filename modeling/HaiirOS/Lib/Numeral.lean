import Mathlib.Data.Nat.Digits.Lemmas

/-!
# Numerals

The digits of a number with the most significant one first, what makes a list of digits the
numeral of a number, and the loop that writes a numeral into a buffer from its end on.
-/

namespace Numeral

variable {σ β : Type}

/-- The digits of `n` in base `b`, the most significant one first. -/
def numeral (b n : Nat) : List Nat := if n = 0 then [0] else (Nat.digits b n).reverse

/-- The digits `ds` read as `n` and have no leading zeros. -/
structure IsNumeral (b : Nat) (ds : List Nat) (n : Nat) : Prop where
  value : Nat.ofDigits b ds.reverse = n
  digit : ∀ d ∈ ds, d < b
  nonempty : ds ≠ []
  noLeadingZero : ds.head? = some 0 → ds = [0]

theorem isNumeral_numeral {b : Nat} (hb : 1 < b) (n : Nat) : IsNumeral b (numeral b n) n := by
  unfold numeral
  split_ifs with hn
  · subst hn
    refine ⟨rfl, fun d hd => ?_, List.cons_ne_nil 0 [], fun _ => rfl⟩
    rw [List.mem_singleton.mp hd]
    omega
  · have hne : Nat.digits b n ≠ [] := Nat.digits_ne_nil_iff_ne_zero.mpr hn
    refine ⟨?_, fun d hd => ?_, List.reverse_ne_nil_iff.mpr hne, fun h0 => ?_⟩
    · rw [List.reverse_reverse, Nat.ofDigits_digits]
    · exact Nat.digits_lt_base hb (List.mem_reverse.mp hd)
    · rw [List.head?_reverse, List.getLast?_eq_getLast_of_ne_nil hne] at h0
      exact (Nat.getLast_digit_ne_zero b hn (Option.some.inj h0)).elim

lemma numeral_of_lt {b n : Nat} (h : n < b) : numeral b n = [n] := by
  unfold numeral
  split_ifs with hn
  · rw [hn]
  · rw [Nat.digits_of_lt b n hn h]
    rfl

lemma numeral_div {b n : Nat} (hb : 1 < b) (h : n / b ≠ 0) : numeral b n = numeral b (n / b) ++ [n % b] := by
  have hn : n ≠ 0 := fun h0 => h (by rw [h0, Nat.zero_div])
  unfold numeral
  rw [if_neg hn, if_neg h, Nat.digits_def' hb (Nat.pos_of_ne_zero hn), List.reverse_cons]

/-- The characters are the digits of the numeral of `n`. -/
def Spells (value : β → Option Nat) (b : Nat) (chars : List β) (n : Nat) : Prop :=
  ∃ ds, chars.map value = ds.map some ∧ IsNumeral b ds n

theorem spells_numeral {value : β → Option Nat} {char : Nat → β} {b : Nat} (hb : 1 < b)
    (hchar : ∀ d, d < b → value (char d) = some d) (n : Nat) : Spells value b ((numeral b n).map char) n := by
  have hnumeral := isNumeral_numeral hb n
  refine ⟨numeral b n, ?_, hnumeral⟩
  rw [List.map_map]
  apply List.map_congr_left
  exact fun d hd => hchar d (hnumeral.digit d hd)

lemma Spells.digits {value : β → Option Nat} {b n : Nat} {chars : List β} (h : Spells value b chars n) {c : β} (hc : c ∈ chars) :
    value c ≠ none := by
  obtain ⟨ds, hvalues, -⟩ := h
  have hmem : value c ∈ ds.map some := by
    rw [← hvalues]
    exact List.mem_map_of_mem hc
  obtain ⟨d, -, hd⟩ := List.mem_map.mp hmem
  rw [← hd]
  exact Option.some_ne_none d

/-- `do { buffer[--j] = digit(i); i = rest(i); } while (!stop(i))`, with the contents of the buffer from `j` on. A store in
front of the buffer fails. -/
def fillBack (digit : σ → β) (rest : σ → σ) (stop : σ → Prop) [DecidablePred stop] : Nat → σ → List β → Option (List β)
  | 0, _, _ => none
  | j + 1, i, buffer =>
    if stop (rest i) then some (digit i :: buffer) else fillBack digit rest stop j (rest i) (digit i :: buffer)

/-- The loop writes the numeral of its number, if the buffer is long enough for it. -/
theorem fillBack_eq {digit : σ → β} {rest : σ → σ} {stop : σ → Prop} [DecidablePred stop] {inv : σ → Prop} {val : σ → Nat}
    {char : Nat → β} {b : Nat} (hb : 1 < b) (hdigit : ∀ i, inv i → digit i = char (val i % b))
    (hrest : ∀ i, inv i → inv (rest i) ∧ val (rest i) = val i / b) (hstop : ∀ i, inv i → (stop i ↔ val i = 0))
    {j : Nat} (hj : j ≠ 0) {i : σ} (hi : inv i) (hfits : val i < b ^ j) (buffer : List β) :
    fillBack digit rest stop j i buffer = some ((numeral b (val i)).map char ++ buffer) := by
  induction j generalizing i buffer with
  | zero => exact (hj rfl).elim
  | succ j ih =>
    obtain ⟨hinv, hdiv⟩ := hrest i hi
    rw [fillBack, hdigit i hi]
    by_cases hlast : val i / b = 0
    · rw [if_pos ((hstop _ hinv).mpr (hdiv.trans hlast))]
      have hlt : val i < b := (Nat.div_eq_zero_iff_lt (by omega)).mp hlast
      rw [numeral_of_lt hlt, Nat.mod_eq_of_lt hlt]
      rfl
    · rw [if_neg fun hs => hlast (hdiv.symm.trans ((hstop _ hinv).mp hs))]
      have hfits' : val (rest i) < b ^ j := by
        rw [hdiv]
        exact Nat.div_lt_of_lt_mul (by rwa [Nat.pow_succ'] at hfits)
      have hj' : j ≠ 0 := by
        rintro rfl
        rw [Nat.pow_zero, hdiv] at hfits'
        omega
      rw [ih hj' hinv hfits', hdiv, numeral_div hb hlast, List.map_append, List.append_assoc]
      rfl

end Numeral
