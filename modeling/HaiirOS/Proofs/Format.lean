import HaiirOS.Proofs.PrintNumbers

/-!
# Formats

What a format prints for its arguments, and when `kprintf` and `kprintln` print that and read no
byte behind the format's NUL. A `%` at the end of a format takes the NUL for its conversion, and
`kprintln` has no arguments to print.
-/

namespace HaiirOS

/-- A character of a format that stands for itself, or a conversion. -/
inductive Piece where
  | literal (c : BitVec 8)
  | conversion (c : BitVec 8)

/-- The pieces of a format, without a `%` at its end. -/
def pieces : List (BitVec 8) → List Piece
  | [] => []
  | [c] => if c = ch '%' then [] else [.literal c]
  | c :: d :: cs => if c = ch '%' then .conversion d :: pieces cs else .literal c :: pieces (d :: cs)

/-- The format ends behind a `%` that begins a conversion. -/
def EndsInConversion : List (BitVec 8) → Prop
  | [] => False
  | [c] => c = ch '%'
  | c :: d :: cs => if c = ch '%' then EndsInConversion cs else EndsInConversion (d :: cs)

/-- The pieces have one argument of the right type for each conversion, and this is their text. -/
inductive Rendered : List Piece → List VarArg → List (BitVec 8) → Prop where
  | nil : Rendered [] [] []
  | literal {ps args out} (c : BitVec 8) : Rendered ps args out → Rendered (.literal c :: ps) args (c :: out)
  | str {ps args out} (s : CString) : Rendered ps args out →
      Rendered (.conversion (ch 's') :: ps) (.str s :: args) (s.bytes ++ out)
  | int {ps args out} (i : BitVec 32) : Rendered ps args out →
      Rendered (.conversion (ch 'd') :: ps) (.int i :: args) (decimalText i.toInt ++ out)
  | hex {ps args out} (u : BitVec 64) : Rendered ps args out →
      Rendered (.conversion (ch 'x') :: ps) (.uint64 u :: args) (hexText u.toNat ++ out)
  | float {ps args out} : Rendered ps args out →
      Rendered (.conversion (ch 'f') :: ps) args (text "no float suppport yet" ++ out)
  | char {ps args out} (i : BitVec 32) : Rendered ps args out →
      Rendered (.conversion (ch 'c') :: ps) (.int i :: args) (i.setWidth 8 :: out)
  | bool {ps args out} (i : BitVec 32) : Rendered ps args out →
      Rendered (.conversion (ch 'b') :: ps) (.int i :: args) (text (if i ≠ 0#32 then "true" else "false") ++ out)
  | unknown {ps args out} (c : BitVec 8) : c ∉ text "sdxfcb" → Rendered ps args out →
      Rendered (.conversion c :: ps) args out

/-- What the offsets from the start of a string on hold, with `behind` behind its NUL. -/
def CString.read (s : CString) (behind : Nat → BitVec 8) (k : Nat) : BitVec 8 :=
  if k ≤ s.bytes.length then s.bytes.getD k 0#8 else behind k

/-- `kprintf` prints `out`, takes all the arguments and reads the format to its NUL only;
`kprintln` prints the same and a newline. -/
structure PrintsFormat (fmt : CString) (behind : Nat → BitVec 8) (args : List VarArg) (out : List (BitVec 8)) : Prop where
  kprintf : ∃ fuel r, kprintf fuel (fmt.read behind) args = some r ∧ r.out = out ∧ r.left = [] ∧
    ∀ k ∈ r.reads, k ≤ fmt.bytes.length
  kprintln : ∃ fuel, kprintln fuel (fmt.read behind) args = some (out ++ [0x0a#8])

/-- The bytes `cs` and a NUL are at `p`. -/
def Stored (fmt : Nat → BitVec 8) (p : Nat) (cs : List (BitVec 8)) : Prop :=
  0#8 ∉ cs ∧ ∀ k, k ≤ cs.length → fmt (p + k) = cs.getD k 0#8

section

variable {fmt behind : Nat → BitVec 8} {p fuel : Nat} {c d : BitVec 8} {cs out : List (BitVec 8)} {ps : List Piece}
  {args left : List VarArg} {r : Printed}

lemma CString.stored (s : CString) (behind : Nat → BitVec 8) : Stored (s.read behind) 0 s.bytes := by
  refine ⟨s.noNul, fun k hk => ?_⟩
  rw [Nat.zero_add]
  exact if_pos hk

lemma Stored.nul (h : Stored fmt p []) : fmt p = 0#8 := h.2 0 (Nat.le_refl 0)

lemma Stored.head (h : Stored fmt p (c :: cs)) : fmt p = c := h.2 0 (Nat.zero_le _)

lemma Stored.tail (h : Stored fmt p (c :: cs)) : Stored fmt (p + 1) cs := by
  refine ⟨fun hmem => h.1 (List.mem_cons_of_mem c hmem), fun k hk => ?_⟩
  rw [Nat.add_assoc, Nat.add_comm 1 k]
  exact h.2 (k + 1) (Nat.succ_le_succ hk)

lemma Stored.head_ne (h : Stored fmt p (c :: cs)) : fmt p ≠ 0#8 := by
  rw [h.head]
  exact fun h0 => h.1 (by rw [h0]; exact List.mem_cons_self)

lemma printStr_append {bytes rest : List (BitVec 8)} (h : 0#8 ∉ bytes) : printStr (bytes ++ 0#8 :: rest) = bytes := by
  induction bytes with
  | nil => rfl
  | cons b bytes ih =>
    rw [List.mem_cons, not_or] at h
    rw [List.cons_append, printStr, if_neg (Ne.symm h.1), ih h.2]

/-! ### One piece -/

lemma kprintfFrom_literal (hne : fmt p ≠ 0#8) (hpercent : fmt p ≠ ch '%') :
    kprintfFrom fmt (fuel + 1) p args = (kprintfFrom fmt fuel (p + 1) args).map fun r =>
      ⟨fmt p :: r.out, p :: p :: p :: r.reads, r.left⟩ := by
  rw [kprintfFrom, if_neg hne, if_neg hpercent]
  cases kprintfFrom fmt fuel (p + 1) args <;> rfl

lemma kprintfFrom_conversion (hpercent : fmt p = ch '%') :
    kprintfFrom fmt (fuel + 1) p args = (convert (fmt (p + 1)) args).bind fun x =>
      (kprintfFrom fmt fuel (p + 2) x.2).map fun r => ⟨x.1 ++ r.out, p :: p :: (p + 1) :: r.reads, r.left⟩ := by
  have hne : ¬ fmt p = 0#8 := by
    rw [hpercent]
    decide
  rw [kprintfFrom, if_neg hne, if_pos hpercent]
  cases convert (fmt (p + 1)) args with
  | none => rfl
  | some x =>
    obtain ⟨out, rest⟩ := x
    simp only [Option.bind_eq_bind, Option.bind_some]
    cases kprintfFrom fmt fuel (p + 2) rest <;> rfl

lemma convert_unknown (hc : c ∉ text "sdxfcb") : convert c args = some ([], args) := by
  have hne : ∀ d ∈ text "sdxfcb", c ≠ d := fun d hd h => hc (h ▸ hd)
  unfold convert
  rw [if_neg (hne _ (by decide)), if_neg (hne _ (by decide)), if_neg (hne _ (by decide)), if_neg (hne _ (by decide)),
    if_neg (hne _ (by decide)), if_neg (hne _ (by decide))]

/-- The switch does what the conversion's rendering says. -/
lemma Rendered.convert (h : Rendered (.conversion c :: ps) args out) (hmin : ∀ i, VarArg.int i ∈ args → i ≠ BitVec.intMin 32) :
    ∃ x rest out', convert c args = some (x, rest) ∧ Rendered ps rest out' ∧ out = x ++ out' ∧ ∀ a ∈ rest, a ∈ args := by
  cases h with
  | str s h => exact ⟨_, _, _, rfl, h, by rw [printStr_append s.noNul], fun a ha => List.mem_cons_of_mem _ ha⟩
  | int i h =>
    have hi : i ≠ BitVec.intMin 32 := hmin i List.mem_cons_self
    refine ⟨_, _, _, ?_, h, rfl, fun a ha => List.mem_cons_of_mem _ ha⟩
    change (printInt i).map _ = _
    rw [printInt_eq hi]
    rfl
  | hex u h =>
    refine ⟨_, _, _, ?_, h, rfl, fun a ha => List.mem_cons_of_mem _ ha⟩
    change (printHex u).map _ = _
    rw [printHex_eq]
    rfl
  | float h => exact ⟨_, _, _, rfl, h, rfl, fun a ha => ha⟩
  | char i h => exact ⟨_, _, _, rfl, h, rfl, fun a ha => List.mem_cons_of_mem _ ha⟩
  | bool i h =>
    refine ⟨_, _, _, rfl, h, ?_, fun a ha => List.mem_cons_of_mem _ ha⟩
    split_ifs <;> rfl
  | unknown c hc h => exact ⟨[], args, out, convert_unknown hc, h, rfl, fun a ha => ha⟩

/-! ### The whole format -/

/-- `kprintf` on a format that does not end in a conversion: it prints what the pieces say. -/
theorem kprintfFrom_eq (h : Rendered (pieces cs) args out) (hstored : Stored fmt p cs) (hends : ¬ EndsInConversion cs)
    (hmin : ∀ i, VarArg.int i ∈ args → i ≠ BitVec.intMin 32) :
    ∃ fuel r, kprintfFrom fmt fuel p args = some r ∧ r.out = out ∧ r.left = [] ∧ ∀ k ∈ r.reads, k ≤ p + cs.length := by
  induction cs using pieces.induct generalizing p args out with
  | case1 =>
    cases h
    refine ⟨1, ⟨[], [p], []⟩, if_pos hstored.nul, rfl, rfl, fun k hk => ?_⟩
    rw [List.mem_singleton.mp hk]
    exact Nat.le_refl p
  | case2 => exact (hends rfl).elim
  | case3 c hc =>
    rw [pieces, if_neg hc] at h
    cases h with
    | literal c h =>
      cases h
      have hlit := @kprintfFrom_literal fmt p 1 [] hstored.head_ne (by rwa [hstored.head])
      have hnil : kprintfFrom fmt 1 (p + 1) [] = some ⟨[], [p + 1], []⟩ := if_pos hstored.tail.nul
      rw [hnil, Option.map_some] at hlit
      refine ⟨2, _, hlit, by rw [hstored.head], rfl, fun k hk => ?_⟩
      simp only [List.mem_cons, List.not_mem_nil, or_false] at hk
      rw [List.length_singleton]
      omega
  | case4 d cs ih =>
    rw [pieces, if_pos rfl] at h
    obtain ⟨x, rest, out', hconvert, hrest, rfl, hmem⟩ := h.convert hmin
    rw [EndsInConversion, if_pos rfl] at hends
    obtain ⟨fuel, r, hrun, rfl, hleft, hreads⟩ := ih hrest hstored.tail.tail hends fun i hi => hmin i (hmem _ hi)
    refine ⟨fuel + 1, ⟨x ++ r.out, p :: p :: (p + 1) :: r.reads, r.left⟩, ?_, rfl, hleft, fun k hk => ?_⟩
    · rw [kprintfFrom_conversion hstored.head, hstored.tail.head, hconvert, Option.bind_some]
      change (kprintfFrom fmt fuel (p + 2) rest).map _ = _
      rw [hrun]
      rfl
    · rw [List.length_cons, List.length_cons]
      simp only [List.mem_cons] at hk
      rcases hk with rfl | rfl | rfl | hk
      · omega
      · omega
      · omega
      · have := hreads k hk
        omega
  | case5 c d cs hc ih =>
    rw [pieces, if_neg hc] at h
    cases h with
    | literal c h =>
      rw [EndsInConversion, if_neg hc] at hends
      obtain ⟨fuel, r, hrun, rfl, hleft, hreads⟩ := ih h hstored.tail hends hmin
      refine ⟨fuel + 1, ⟨fmt p :: r.out, p :: p :: p :: r.reads, r.left⟩, ?_, by rw [hstored.head], hleft, fun k hk => ?_⟩
      · rw [kprintfFrom_literal hstored.head_ne (by rwa [hstored.head]), hrun]
        rfl
      · rw [List.length_cons]
        simp only [List.mem_cons] at hk
        rcases hk with rfl | rfl | rfl | hk
        · omega
        · omega
        · omega
        · have := hreads k hk
          omega

lemma mem_reads (h : kprintfFrom fmt fuel p args = some r) : p ∈ r.reads := by
  cases fuel with
  | zero => cases h
  | succ fuel =>
    rw [kprintfFrom] at h
    split_ifs at h
    · cases h
      exact List.mem_cons_self
    · obtain ⟨x, -, h⟩ := Option.bind_eq_some_iff.mp h
      obtain ⟨s, -, h⟩ := Option.bind_eq_some_iff.mp h
      cases h
      exact List.mem_cons_self
    · obtain ⟨s, -, h⟩ := Option.bind_eq_some_iff.mp h
      cases h
      exact List.mem_cons_self

/-- A format that ends in a conversion is read behind its NUL. -/
lemma reads_behind (h : kprintfFrom fmt fuel p args = some r) (hstored : Stored fmt p cs) (hends : EndsInConversion cs) :
    p + cs.length + 1 ∈ r.reads := by
  induction cs using pieces.induct generalizing p args fuel r with
  | case1 => exact hends.elim
  | case2 =>
    cases fuel with
    | zero => cases h
    | succ fuel =>
      rw [kprintfFrom_conversion hstored.head] at h
      obtain ⟨x, -, h⟩ := Option.bind_eq_some_iff.mp h
      obtain ⟨s, hs, rfl⟩ := Option.map_eq_some_iff.mp h
      exact List.mem_cons_of_mem _ (List.mem_cons_of_mem _ (List.mem_cons_of_mem _ (mem_reads hs)))
  | case3 c hc => exact (hc hends).elim
  | case4 d cs ih =>
    rw [EndsInConversion, if_pos rfl] at hends
    cases fuel with
    | zero => cases h
    | succ fuel =>
      rw [kprintfFrom_conversion hstored.head] at h
      obtain ⟨x, -, h⟩ := Option.bind_eq_some_iff.mp h
      obtain ⟨s, hs, rfl⟩ := Option.map_eq_some_iff.mp h
      have hmem := ih hs hstored.tail.tail hends
      have hoffset : p + (ch '%' :: d :: cs).length + 1 = p + 1 + 1 + cs.length + 1 := by
        rw [List.length_cons, List.length_cons]
        omega
      rw [hoffset]
      exact List.mem_cons_of_mem _ (List.mem_cons_of_mem _ (List.mem_cons_of_mem _ hmem))
  | case5 c d cs hc ih =>
    rw [EndsInConversion, if_neg hc] at hends
    cases fuel with
    | zero => cases h
    | succ fuel =>
      rw [kprintfFrom_literal hstored.head_ne (by rwa [hstored.head])] at h
      obtain ⟨s, hs, rfl⟩ := Option.map_eq_some_iff.mp h
      have hmem := ih hs hstored.tail hends
      have hoffset : p + (c :: d :: cs).length + 1 = p + 1 + (d :: cs).length + 1 := by
        rw [List.length_cons]
        omega
      rw [hoffset]
      exact List.mem_cons_of_mem _ (List.mem_cons_of_mem _ (List.mem_cons_of_mem _ hmem))

/-- A conversion that is done without arguments takes none. -/
lemma Rendered.of_convert_nil (h : Rendered (.conversion c :: ps) args out) {x : List (BitVec 8) × List VarArg}
    (hconvert : HaiirOS.convert c [] = some x) : x.2 = [] ∧ ∃ out', Rendered ps args out' := by
  cases h with
  | str s h => cases hconvert
  | int i h => cases hconvert
  | hex u h => cases hconvert
  | float h =>
    cases hconvert
    exact ⟨rfl, _, h⟩
  | char i h => cases hconvert
  | bool i h => cases hconvert
  | unknown c hc h =>
    obtain rfl := Option.some.inj ((convert_unknown hc).symm.trans hconvert)
    exact ⟨rfl, _, h⟩

/-- A format that can be printed without arguments has no conversion that takes one. -/
lemma Rendered.args_eq_nil (h : Rendered (pieces cs) args out) (hstored : Stored fmt p cs) (hends : ¬ EndsInConversion cs)
    (hrun : kprintfFrom fmt fuel p [] = some r) : args = [] := by
  induction cs using pieces.induct generalizing p args out fuel r with
  | case1 =>
    cases h
    rfl
  | case2 => exact (hends rfl).elim
  | case3 c hc =>
    rw [pieces, if_neg hc] at h
    cases h with
    | literal c h =>
      cases h
      rfl
  | case4 d cs ih =>
    rw [pieces, if_pos rfl] at h
    rw [EndsInConversion, if_pos rfl] at hends
    cases fuel with
    | zero => cases hrun
    | succ fuel =>
      rw [kprintfFrom_conversion hstored.head, hstored.tail.head] at hrun
      obtain ⟨x, hconvert, hrun⟩ := Option.bind_eq_some_iff.mp hrun
      obtain ⟨s, hs, -⟩ := Option.map_eq_some_iff.mp hrun
      obtain ⟨hnone, out', hrest⟩ := h.of_convert_nil hconvert
      rw [hnone] at hs
      exact ih hrest hstored.tail.tail hends hs
  | case5 c d cs hc ih =>
    rw [pieces, if_neg hc] at h
    rw [EndsInConversion, if_neg hc] at hends
    cases h with
    | literal c h =>
      cases fuel with
      | zero => cases hrun
      | succ fuel =>
        rw [kprintfFrom_literal hstored.head_ne (by rwa [hstored.head])] at hrun
        obtain ⟨s, hs, -⟩ := Option.map_eq_some_iff.mp hrun
        exact ih h hstored.tail hends hs

end

/-- For the arguments that fit a format both functions print it right exactly if it does not end in a conversion and takes no
argument. -/
theorem printsFormat_iff (fmt : CString) (behind : Nat → BitVec 8) (args : List VarArg) (out : List (BitVec 8))
    (h : Rendered (pieces fmt.bytes) args out) :
    PrintsFormat fmt behind args out ↔ ¬ EndsInConversion fmt.bytes ∧ args = [] := by
  have hstored := fmt.stored behind
  constructor
  · rintro ⟨⟨fuel, r, hrun, -, -, hreads⟩, fuel', hrun'⟩
    have hends : ¬ EndsInConversion fmt.bytes := by
      intro hends
      have hbehind := hreads _ (reads_behind hrun hstored hends)
      omega
    obtain ⟨r', hprint, -⟩ := Option.bind_eq_some_iff.mp hrun'
    exact ⟨hends, h.args_eq_nil hstored hends hprint⟩
  · rintro ⟨hends, rfl⟩
    obtain ⟨fuel, r, hrun, hout, hleft, hreads⟩ := kprintfFrom_eq h hstored hends fun i hi => absurd hi List.not_mem_nil
    rw [Nat.zero_add] at hreads
    refine ⟨⟨fuel, r, hrun, hout, hleft, hreads⟩, fuel, ?_⟩
    rw [kprintln, kprintf, hrun, ← hout]
    rfl

/-- A message without arguments. -/
theorem printsFormat_plain : PrintsFormat ⟨text "5%q of%f", by decide⟩ (fun _ => 0#8) [] (text "5 ofno float suppport yet") := by
  refine (printsFormat_iff ⟨text "5%q of%f", by decide⟩ _ [] (text "5 ofno float suppport yet") ?_).mpr ⟨?_, rfl⟩
  · apply Rendered.literal
    apply Rendered.unknown (ch 'q') (by decide)
    apply Rendered.literal
    apply Rendered.literal
    apply Rendered.literal
    exact Rendered.float .nil
  · exact id

/-- `kprintf` reads on behind the NUL of a format with a `%` at its end. -/
theorem not_printsFormat_percent : Rendered (pieces (text "100%")) [] (text "100") ∧
    ¬ PrintsFormat ⟨text "100%", by decide⟩ (fun _ => 0#8) [] (text "100") := by
  refine ⟨.literal _ (.literal _ (.literal _ .nil)), ?_⟩
  rintro ⟨⟨fuel, r, hrun, -, -, hreads⟩, -⟩
  have hends : EndsInConversion (text "100%") := rfl
  have hbehind := hreads _ (reads_behind hrun (CString.stored ⟨text "100%", by decide⟩ _) hends)
  exact absurd hbehind (by decide)

end HaiirOS
