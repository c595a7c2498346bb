import HaiirOS.Io.Console
import HaiirOS.Lib.Runs
import Mathlib.Tactic.SplitIfs

/-!
# The cursor stays on the screen

Where a backspace at the start of a line goes back to a line with something on it, printing stays in
the 25 lines of 80 cells. Where it goes back to an empty line, the column counts down through 0 and
the loop reads column 255.
-/

namespace HaiirOS

open Runs (Run Along along_congr)

/-- A byte to print, or a change of the colour. -/
inductive ConsoleOp where
  | print (byte : BitVec 8)
  | setColor (bg fg : BitVec 8)

namespace Console

/-- The cursor is on the screen. -/
def OnScreen (c : Console) : Prop := c.x < width ∧ c.y < height

/-- The cell that the byte may change: the one it is printed to, or after a backspace the one under the cursor. -/
def Target (c c' : Console) (byte : BitVec 8) (k : Nat) : Prop :=
  byte ∉ [0x00#8, 0x0a#8, 0x0d#8, 0x09#8, 0x08#8] ∧ k = cellIndex c.y c.x ∨ byte = 0x08#8 ∧ k = cellIndex c'.y c'.x

/-- The byte is printed; the cursor ends on the screen, the cells accessed are on it, and no cell
changes but the one that may. -/
def PrintsRight (c : Console) (byte : BitVec 8) : Prop :=
  ∃ fuel c' cells, c.printByte fuel byte = some (c', cells) ∧ c'.OnScreen ∧
    (∀ cell ∈ cells, cell.1 < height ∧ cell.2 < width) ∧ ∀ k, c'.buffer k ≠ c.buffer k → Target c c' byte k

/-- A byte is printed right. -/
def Right (c : Console) : ConsoleOp → Prop
  | .print byte => c.PrintsRight byte
  | .setColor _ _ => True

/-- A backspace at the start of a line goes back to a line with something on it. -/
def ReturnsToText (c : Console) : ConsoleOp → Prop
  | .print byte => byte = 0x08#8 → c.x = 0#8 → ∃ col, col < width ∧ ¬ c.Blank c.lineBack col
  | .setColor _ _ => True

def step (c : Console) : ConsoleOp → Console → Prop
  | .print byte, c' => ∃ fuel cells, c.printByte fuel byte = some (c', cells)
  | .setColor bg fg, c' => c' = c.ksetColor bg fg

variable {c c' : Console} {byte row col : BitVec 8} {fuel fuel' : Nat} {cells : List (BitVec 8 × BitVec 8)}

lemma onScreen_wrap (c : Console) : (wrap c).OnScreen := by
  have hrow : ∀ d : Console, d.x < width → (if height ≤ d.y then { d with x := 0#8, y := 0#8 } else d).OnScreen := by
    intro d hd
    split_ifs with hy
    · exact ⟨(by decide : 0#8 < width), (by decide : 0#8 < height)⟩
    · exact ⟨hd, BitVec.not_le.mp hy⟩
  unfold wrap
  apply hrow
  split_ifs with h
  · exact (by decide : 0#8 < width)
  · exact BitVec.not_le.mp h

lemma wrap_of_onScreen (h : c.OnScreen) : wrap c = c := by
  unfold wrap
  rw [if_neg (BitVec.not_le.mpr h.1)]
  exact if_neg (BitVec.not_le.mpr h.2)

lemma buffer_wrap (c : Console) : (wrap c).buffer = c.buffer := by
  unfold wrap
  dsimp only
  split_ifs <;> rfl

lemma buffer_put {v : BitVec 16} {k : Nat} (h : (c.put v).buffer k ≠ c.buffer k) : k = cellIndex c.y c.x := by
  by_contra hne
  exact h (if_neg hne)

lemma toNat_sub_one {x : BitVec 8} (h : x ≠ 0#8) : (x - 1#8).toNat = x.toNat - 1 := by
  have hpos : x.toNat ≠ 0 := fun hzero => h (BitVec.eq_of_toNat_eq hzero)
  have hlt := x.isLt
  rw [BitVec.toNat_sub]
  change (2 ^ 8 - 1 + x.toNat) % 2 ^ 8 = _
  omega

lemma lt_width_iff {col : BitVec 8} : col < width ↔ col ≤ width - 1#8 := by
  have hlast : (width - 1#8).toNat = 79 := by decide
  rw [BitVec.lt_def, BitVec.le_def, hlast]
  exact Nat.lt_succ_iff

/-! ### The way back -/

lemma goBack_det {r r' : Console × Bool × List (BitVec 8 × BitVec 8)} (h : goBack fuel c = some r)
    (h' : goBack fuel' c = some r') :
    r = r' := by
  induction fuel generalizing fuel' c r r' with
  | zero => cases h
  | succ fuel ih =>
    cases fuel' with
    | zero => cases h'
    | succ fuel' =>
      rw [goBack] at h h'
      split_ifs at h h'
      · exact Option.some.inj (h.symm.trans h')
      · obtain ⟨s, hs, rfl⟩ := Option.map_eq_some_iff.mp h
        obtain ⟨s', hs', rfl⟩ := Option.map_eq_some_iff.mp h'
        rw [ih hs hs']
      · obtain ⟨s, hs, rfl⟩ := Option.map_eq_some_iff.mp h
        obtain ⟨s', hs', rfl⟩ := Option.map_eq_some_iff.mp h'
        rw [ih hs hs']
      · exact Option.some.inj (h.symm.trans h')

/-- On a line with something on it the loop ends there, before column 0 is passed. -/
lemma goBack_found (hx : c.x < width) (htext : ∃ col, col ≤ c.x ∧ ¬ c.Blank c.y col) :
    ∃ fuel x cells, goBack fuel c = some ({ c with x := x }, false, cells) ∧ x < width ∧
      ∀ cell ∈ cells, cell.1 = c.y ∧ cell.2 < width := by
  obtain ⟨n, hn⟩ : ∃ n, c.x.toNat = n := ⟨_, rfl⟩
  induction n using Nat.strongRecOn generalizing c with
  | _ n ih =>
    obtain ⟨col, hcol, hne⟩ := htext
    by_cases hblank : c.Blank c.y c.x
    · have hcolx : col.toNat ≠ c.x.toNat := fun h => hne (BitVec.eq_of_toNat_eq h ▸ hblank)
      have hpos : c.x ≠ 0#8 := by
        intro h0
        rw [h0] at hcol hcolx
        exact hcolx (Nat.le_zero.mp (BitVec.le_def.mp hcol))
      have hpred := toNat_sub_one hpos
      have hx' : c.x - 1#8 < width := by
        rw [BitVec.lt_def] at hx ⊢
        omega
      have hcol' : col ≤ c.x - 1#8 := by
        rw [BitVec.le_def] at hcol ⊢
        omega
      have hdown : (c.x - 1#8).toNat < n := by
        rw [BitVec.le_def] at hcol
        omega
      obtain ⟨fuel, x, cells, hrun, hwidth, hcells⟩ :=
        ih (c.x - 1#8).toNat hdown (c := { c with x := c.x - 1#8 }) hx' ⟨col, hcol', hne⟩ rfl
      refine ⟨fuel + 1, x, (c.y, c.x) :: cells, ?_, hwidth, ?_⟩
      · rw [goBack, if_pos hblank, if_neg (BitVec.not_le.mpr hx), hrun]
        rfl
      · exact List.forall_mem_cons.mpr ⟨⟨rfl, hx⟩, hcells⟩
    · refine ⟨1, c.x, [(c.y, c.x)], if_neg hblank, hx, ?_⟩
      exact List.forall_mem_cons.mpr ⟨⟨rfl, hx⟩, fun cell hcell => absurd hcell List.not_mem_nil⟩

lemma mem_goBack {r : Console × Bool × List (BitVec 8 × BitVec 8)} (h : goBack fuel c = some r) : (c.y, c.x) ∈ r.2.2 := by
  cases fuel with
  | zero => cases h
  | succ fuel =>
    rw [goBack] at h
    split_ifs at h
    · cases h
      exact List.mem_cons_self
    · obtain ⟨s, -, rfl⟩ := Option.map_eq_some_iff.mp h
      exact List.mem_cons_self
    · obtain ⟨s, -, rfl⟩ := Option.map_eq_some_iff.mp h
      exact List.mem_cons_self
    · cases h
      exact List.mem_cons_self

lemma goBack_blank (hx : c.x < width) (hblank : ∀ col, col ≤ c.x → c.Blank c.y col)
    {r : Console × Bool × List (BitVec 8 × BitVec 8)} (h : goBack fuel c = some r) : (c.y, 255#8) ∈ r.2.2 := by
  induction fuel generalizing c r with
  | zero => cases h
  | succ fuel ih =>
    rw [goBack, if_pos (hblank c.x (BitVec.le_refl c.x)), if_neg (BitVec.not_le.mpr hx)] at h
    obtain ⟨s, hs, rfl⟩ := Option.map_eq_some_iff.mp h
    apply List.mem_cons_of_mem
    by_cases h0 : c.x = 0#8
    · have hwrapped := mem_goBack hs
      rwa [h0] at hwrapped
    · have hpred := toNat_sub_one h0
      have hx' : c.x - 1#8 < width := by
        rw [BitVec.lt_def] at hx ⊢
        omega
      have hblank' : ∀ col, col ≤ c.x - 1#8 → c.Blank c.y col := by
        intro col hcol
        apply hblank
        rw [BitVec.le_def] at hcol ⊢
        omega
      exact ih (c := { c with x := c.x - 1#8 }) hx' hblank' hs

/-! ### One byte -/

/-- The outcome of a byte does not depend on the fuel. -/
lemma printByte_det {r r' : Console × List (BitVec 8 × BitVec 8)} (h : c.printByte fuel byte = some r)
    (h' : c.printByte fuel' byte = some r') : r = r' := by
  unfold printByte at h h'
  split_ifs at h h'
  · exact Option.some.inj (h.symm.trans h')
  · exact Option.some.inj (h.symm.trans h')
  · exact Option.some.inj (h.symm.trans h')
  · obtain ⟨s, hs, hr⟩ := Option.bind_eq_some_iff.mp h
    obtain ⟨s', hs', hr'⟩ := Option.bind_eq_some_iff.mp h'
    rw [goBack_det hs' hs] at hr'
    exact Option.some.inj (hr.symm.trans hr')
  · exact Option.some.inj (h.symm.trans h')
  · exact Option.some.inj (h.symm.trans h')

/-- A cell under the cursor is written, and then the cursor stays or moves behind it. -/
lemma printsRight_of_put {d : Console} {v : BitVec 16} {x : BitVec 8} (hd : d.OnScreen) (hbuffer : d.buffer = c.buffer)
    (hrun : c.printByte fuel byte = some (wrap { d.put v with x := x }, cells ++ [(d.y, d.x)]))
    (hcells : ∀ cell ∈ cells, cell.1 < height ∧ cell.2 < width)
    (htarget : Target c (wrap { d.put v with x := x }) byte (cellIndex d.y d.x)) : c.PrintsRight byte := by
  refine ⟨fuel, _, _, hrun, onScreen_wrap _, fun cell hcell => ?_, fun k hk => ?_⟩
  · rcases List.mem_append.mp hcell with hcell | hcell
    · exact hcells cell hcell
    · rw [List.mem_singleton.mp hcell]
      exact ⟨hd.2, hd.1⟩
  · rw [buffer_wrap, ← hbuffer] at hk
    rw [buffer_put hk]
    exact htarget

/-- After a backspace the cursor is on the cell that it has cleared. -/
lemma target_back {d : Console} {v : BitVec 16} (hd : d.OnScreen) : Target c (wrap (d.put v)) 0x08#8 (cellIndex d.y d.x) := by
  have hput : wrap (d.put v) = d.put v := wrap_of_onScreen hd
  rw [hput]
  exact Or.inr ⟨rfl, rfl⟩

lemma not_printsRight_of_blank (h0 : c.x = 0#8) (hblank : ∀ col, col < width → c.Blank c.lineBack col) :
    ¬ c.PrintsRight 0x08#8 := by
  rintro ⟨fuel, c', cells, hrun, -, hcells, -⟩
  obtain ⟨⟨d, returned, read⟩, hback, hrest⟩ := Option.bind_eq_some_iff.mp ((if_pos h0).symm.trans hrun)
  have hread : (c.lineBack, 255#8) ∈ read :=
    goBack_blank (c := { c with y := c.lineBack, x := width - 1#8 }) (by decide : width - 1#8 < width)
      (fun col hcol => hblank col (lt_width_iff.mpr hcol)) hback
  have hmem : (c.lineBack, 255#8) ∈ cells := by
    dsimp only at hrest
    split_ifs at hrest
    · cases hrest
      exact hread
    · cases hrest
      exact List.mem_append_left _ hread
  exact absurd (hcells _ hmem).2 (by decide : ¬ 255#8 < width)

lemma lineBack_lt (hc : c.OnScreen) : c.lineBack < height := by
  unfold lineBack
  split_ifs with h0
  · decide
  · have hy := hc.2
    have hpred := toNat_sub_one h0
    rw [BitVec.lt_def] at hy ⊢
    omega

/-- A backspace that returns to a line with something on it clears the last cell of it. -/
lemma printsRight_of_text (hc : c.OnScreen) (h0 : c.x = 0#8) (htext : ∃ col, col < width ∧ ¬ c.Blank c.lineBack col) :
    c.PrintsRight 0x08#8 := by
  obtain ⟨col, hcol, hne⟩ := htext
  obtain ⟨fuel, x, cells, hback, hx, hcells⟩ :=
    goBack_found (c := { c with y := c.lineBack, x := width - 1#8 }) (by decide : width - 1#8 < width)
      ⟨col, lt_width_iff.mp hcol, hne⟩
  have hd : OnScreen { c with y := c.lineBack, x := x } := ⟨hx, lineBack_lt hc⟩
  have hrun : c.printByte fuel 0x08#8 = some (wrap (put { c with y := c.lineBack, x := x } (c.color.setWidth 16 <<< 8)),
      cells ++ [(c.lineBack, x)]) := by
    change (if c.x = 0#8 then _ else _) = _
    rw [if_pos h0, hback]
    rfl
  apply printsRight_of_put (c := c) hd rfl hrun
  · intro cell hcell
    obtain ⟨hrow, hcolumn⟩ := hcells cell hcell
    rw [hrow]
    exact ⟨lineBack_lt hc, hcolumn⟩
  · exact target_back hd

/-- On the screen a byte is printed right exactly if a backspace returns to a line with something on it. -/
theorem printsRight_iff (hc : c.OnScreen) : c.PrintsRight byte ↔ c.ReturnsToText (.print byte) := by
  constructor
  · rintro hright rfl h0
    by_contra hblank
    apply not_printsRight_of_blank h0 _ hright
    intro col hcol
    by_contra hne
    exact hblank ⟨col, hcol, hne⟩
  · intro htext
    by_cases hback : byte = 0x08#8
    · subst hback
      by_cases h0 : c.x = 0#8
      · exact printsRight_of_text hc h0 (htext rfl h0)
      · have hd : OnScreen { c with x := c.x - 1#8 } := by
          have hx := hc.1
          have hpred := toNat_sub_one h0
          rw [BitVec.lt_def] at hx
          refine ⟨?_, hc.2⟩
          rw [BitVec.lt_def]
          exact hpred ▸ (by omega)
        have hrun : c.printByte 0 0x08#8 = some (wrap (put { c with x := c.x - 1#8 } (c.color.setWidth 16 <<< 8)),
            [] ++ [(c.y, c.x - 1#8)]) := if_neg h0
        apply printsRight_of_put (c := c) hd rfl hrun
        · exact fun cell hcell => absurd hcell List.not_mem_nil
        · exact target_back hd
    have hquiet : ∀ d : Console, d.buffer = c.buffer → c.printByte 0 byte = some (d, []) → d.OnScreen → c.PrintsRight byte := by
      intro d hbuffer hrun hd
      refine ⟨0, d, [], hrun, hd, fun cell hcell => absurd hcell List.not_mem_nil, fun k hk => ?_⟩
      exact absurd (congrFun hbuffer k) hk
    by_cases hnul : byte = 0x00#8
    · exact hquiet c rfl (if_pos hnul) hc
    by_cases hline : byte = 0x0a#8 ∨ byte = 0x0d#8
    · refine hquiet (wrap { c with x := 0#8, y := c.y + 1#8 }) (buffer_wrap _) ?_ (onScreen_wrap _)
      rw [printByte, if_neg hnul, if_pos hline]
    by_cases htab : byte = 0x09#8
    · refine hquiet (wrap { c with x := c.x + 4#8 }) (buffer_wrap _) ?_ (onScreen_wrap _)
      rw [printByte, if_neg hnul, if_neg hline, if_pos htab]
    rw [not_or] at hline
    have hrun : c.printByte 0 byte = some (wrap { c.put (c.color.setWidth 16 <<< 8 ||| byte.setWidth 16) with x := c.x + 1#8 },
        [] ++ [(c.y, c.x)]) := by
      rw [printByte, if_neg hnul, if_neg (not_or.mpr hline), if_neg htab, if_neg hback]
      rfl
    apply printsRight_of_put hc rfl hrun
    · exact fun cell hcell => absurd hcell List.not_mem_nil
    · refine Or.inl ⟨?_, rfl⟩
      simp only [List.mem_cons, List.not_mem_nil, or_false, not_or]
      exact ⟨hnul, hline.1, hline.2, htab, hback⟩

lemma onScreen_step {op : ConsoleOp} (hc : c.OnScreen) (hright : c.Right op) (h : c.step op c') : c'.OnScreen := by
  cases op with
  | print byte =>
    obtain ⟨fuel, d, cells, hrun, hd, -⟩ := hright
    obtain ⟨fuel', cells', hrun'⟩ := h
    rw [(Prod.mk.inj (printByte_det hrun' hrun)).1]
    exact hd
  | setColor bg fg =>
    obtain rfl := h
    exact hc

/-- From a cleared screen on every byte is printed right exactly if every backspace at the start of a line goes back to
a line with something on it. -/
theorem printsRight_along_iff (c : Console) (ops : List ConsoleOp) :
    Along Right step c.kclearScreen ops ↔ Along ReturnsToText step c.kclearScreen ops := by
  have hstart : c.kclearScreen.OnScreen := ⟨(by decide : 0#8 < width), (by decide : 0#8 < height)⟩
  refine along_congr OnScreen (fun c op hc => ?_) (fun c op c' hc hright hstep => onScreen_step hc hright hstep) hstart
  cases op with
  | print byte => exact printsRight_iff hc
  | setColor bg fg => exact Iff.rfl

/-- A newline and a backspace on a cleared screen. -/
theorem not_printsRight_along : ¬ Along Right step (kclearScreen ⟨0#8, 0#8, 0x0f#8, fun _ => 0#16⟩)
    [.print 0x0a#8, .print 0x08#8] := by
  rintro ⟨-, hrest⟩
  have hsecond := (hrest { kclearScreen ⟨0#8, 0#8, 0x0f#8, fun _ => 0#16⟩ with y := 1#8 } ⟨0, [], rfl⟩).1
  apply not_printsRight_of_blank rfl _ hsecond
  intro col hcol
  have hindex : cellIndex 0#8 col < height.toNat * width.toNat := by
    rw [BitVec.lt_def] at hcol
    change 0 * 80 + col.toNat < 25 * 80
    change col.toNat < 80 at hcol
    omega
  change (if cellIndex 0#8 col < height.toNat * width.toNat then _ else _) &&& 0xff#16 = 0#16
  rw [if_pos hindex]
  decide

end Console

end HaiirOS
