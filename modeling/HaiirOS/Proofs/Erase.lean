import HaiirOS.Proofs.Cursor
import HaiirOS.Proofs.Typing

/-!
# Backspaces take back what was typed

The cells of the screen follow each other through the ends of the lines, and from the last one to the first.
A printed character moves the cursor on by one cell, and a backspace moves it back to that cell and
empties it, also over the end of a line, as a cell that was printed to stops the loop that goes back.
-/

namespace HaiirOS

namespace Console

/-- `printByte`, without the cells that it accesses. -/
def print (fuel : Nat) (c : Console) (byte : BitVec 8) : Option Console := (c.printByte fuel byte).map Prod.fst

/-- A byte that is printed to a cell. -/
def Printable (byte : BitVec 8) : Prop := byte ∉ [0x00#8, 0x0a#8, 0x0d#8, 0x09#8, 0x08#8]

/-- The number of the cell under the cursor. -/
def pos (c : Console) : Nat := cellIndex c.y c.x

/-- The console with the cursor over a cell. -/
def goto (c : Console) (p : Nat) : Console := { c with x := BitVec.ofNat 8 (p % 80), y := BitVec.ofNat 8 (p / 80) }

/-- One of the `n` cells from cell `p` on. -/
def InRow (p n k : Nat) : Prop := k < 2000 ∧ (k + 2000 - p) % 2000 < n

instance (p n k : Nat) : Decidable (InRow p n k) := inferInstanceAs (Decidable (_ ∧ _))

/-- The console with the `n` cells from the cursor on empty. -/
def emptied (c : Console) (n : Nat) : Console :=
  { c with buffer := fun k => if InRow c.pos n k then c.color.setWidth 16 <<< 8 else c.buffer k }

variable {c : Console} {byte : BitVec 8} {fuel : Nat}

lemma emptied_buffer (c : Console) (n k : Nat) : (c.emptied n).buffer k =
    if InRow c.pos n k then c.color.setWidth 16 <<< 8 else c.buffer k := rfl

lemma OnScreen.bounds (h : c.OnScreen) : c.x.toNat < 80 ∧ c.y.toNat < 25 := ⟨BitVec.lt_def.mp h.1, BitVec.lt_def.mp h.2⟩

lemma OnScreen.pos_lt (h : c.OnScreen) : c.pos < 2000 := by
  have hbounds := h.bounds
  unfold pos cellIndex
  omega

lemma onScreen_goto {p : Nat} (hp : p < 2000) : (c.goto p).OnScreen := by
  have hwidth : width.toNat = 80 := by decide
  have hheight : height.toNat = 25 := by decide
  refine ⟨?_, ?_⟩
  · rw [BitVec.lt_def, hwidth, goto, BitVec.toNat_ofNat]
    omega
  · rw [BitVec.lt_def, hheight, goto, BitVec.toNat_ofNat]
    omega

lemma pos_goto {p : Nat} (hp : p < 2000) : (c.goto p).pos = p := by
  rw [pos, cellIndex, goto, BitVec.toNat_ofNat, BitVec.toNat_ofNat]
  omega

lemma goto_pos (h : c.OnScreen) : c.goto c.pos = c := by
  obtain ⟨hx, hy⟩ := h.bounds
  have hcol : BitVec.ofNat 8 (c.pos % 80) = c.x := by
    apply BitVec.eq_of_toNat_eq
    rw [pos, cellIndex, BitVec.toNat_ofNat]
    omega
  have hrow : BitVec.ofNat 8 (c.pos / 80) = c.y := by
    apply BitVec.eq_of_toNat_eq
    rw [pos, cellIndex, BitVec.toNat_ofNat]
    omega
  rw [goto, hcol, hrow]

lemma eq_goto {d : Console} (hd : d.OnScreen) (hcolor : d.color = c.color) (hbuffer : d.buffer = c.buffer) :
    d = c.goto d.pos := by
  have hgoto := goto_pos hd
  rw [goto, hcolor, hbuffer] at hgoto
  exact hgoto.symm

lemma color_wrap (c : Console) : (wrap c).color = c.color := by
  unfold wrap
  dsimp only
  split_ifs <;> rfl

/-- The tests at the end of `printByte`, one cell further on. -/
lemma wrap_next (h : c.OnScreen) : wrap { c with x := c.x + 1#8 } = c.goto ((c.pos + 1) % 2000) := by
  obtain ⟨hx, hy⟩ := h.bounds
  have hx1 : (c.x + 1#8).toNat = c.x.toNat + 1 := by
    rw [BitVec.toNat_add, BitVec.toNat_ofNat]
    omega
  have hy1 : (c.y + 1#8).toNat = c.y.toNat + 1 := by
    rw [BitVec.toNat_add, BitVec.toNat_ofNat]
    omega
  have hwidth : width.toNat = 80 := by decide
  have hheight : height.toNat = 25 := by decide
  have hzero : (0#8 : BitVec 8).toNat = 0 := rfl
  have hpos : (wrap { c with x := c.x + 1#8 }).pos = (c.pos + 1) % 2000 := by
    unfold pos cellIndex wrap
    simp only [BitVec.le_def, hwidth, hheight, hx1]
    by_cases hend : 80 ≤ c.x.toNat + 1
    · rw [if_pos hend]
      by_cases hlast : 25 ≤ (c.y + 1#8).toNat
      · rw [if_pos hlast, hzero]
        omega
      · rw [if_neg hlast, hzero, hy1]
        omega
    · rw [if_neg hend]
      dsimp only
      rw [if_neg (by omega)]
      dsimp only
      rw [hx1]
      omega
  rw [← hpos]
  exact eq_goto (onScreen_wrap _) (color_wrap _) (buffer_wrap _)

lemma goto_put (v : BitVec 16) (p : Nat) :
    (c.put v).goto p = { c with buffer := Function.update c.buffer c.pos v }.goto p := by
  have hbuffer : (c.put v).buffer = Function.update c.buffer c.pos v := by
    funext k
    rw [Function.update_apply]
    rfl
  rw [goto, goto, hbuffer]
  rfl

/-- The console after a character. -/
def printed (c : Console) (byte : BitVec 8) : Console :=
  { c with buffer := Function.update c.buffer c.pos (c.color.setWidth 16 <<< 8 ||| byte.setWidth 16) }.goto
    ((c.pos + 1) % 2000)

lemma onScreen_printed (c : Console) (byte : BitVec 8) : (c.printed byte).OnScreen :=
  onScreen_goto (Nat.mod_lt _ (by decide))

lemma print_printable (h : c.OnScreen) (hb : Printable byte) : c.print fuel byte = some (c.printed byte) := by
  simp only [Printable, List.mem_cons, List.not_mem_nil, or_false, not_or] at hb
  obtain ⟨h0, ha, hd, h9, h8⟩ := hb
  unfold print printByte
  rw [if_neg h0, if_neg (not_or.mpr ⟨ha, hd⟩), if_neg h9, if_neg h8, Option.map_some, Option.some.injEq]
  have hput : (c.put (c.color.setWidth 16 <<< 8 ||| byte.setWidth 16)).OnScreen := h
  rw [printed, ← goto_put]
  exact wrap_next hput

lemma lineBack_toNat (h : c.OnScreen) : c.lineBack.toNat = if c.y.toNat = 0 then 24 else c.y.toNat - 1 := by
  obtain ⟨-, hy⟩ := h.bounds
  unfold lineBack
  by_cases h0 : c.y = 0#8
  · rw [if_pos h0, if_pos (by rw [h0]; rfl)]
    decide
  · have hne : c.y.toNat ≠ 0 := fun hzero => h0 (BitVec.eq_of_toNat_eq hzero)
    rw [if_neg h0, if_neg hne, toNat_sub_one h0]

/-- The end of a backspace. -/
lemma put_back {d : Console} (hd : d.OnScreen) (hcolor : d.color = c.color) (hbuffer : d.buffer = c.buffer) (v : BitVec 16) :
    wrap (d.put v) = { c with buffer := Function.update c.buffer d.pos v }.goto d.pos := by
  have hput : (d.put v).OnScreen := hd
  rw [wrap_of_onScreen hput, ← hbuffer]
  refine eq_goto (c := { c with buffer := Function.update d.buffer d.pos v }) hput hcolor ?_
  funext k
  change (if k = d.pos then v else d.buffer k) = Function.update d.buffer d.pos v k
  rw [Function.update_apply]

/-- A backspace, if the cell in front of the cursor shows something. -/
lemma print_backspace (h : c.OnScreen) (htext : c.buffer ((c.pos + 1999) % 2000) &&& 0xff#16 ≠ 0#16) :
    c.print (fuel + 1) 0x08#8 = some ({ c with
      buffer := Function.update c.buffer ((c.pos + 1999) % 2000) (c.color.setWidth 16 <<< 8) }.goto
        ((c.pos + 1999) % 2000)) := by
  obtain ⟨hx, hy⟩ := h.bounds
  have hcell : c.pos = c.y.toNat * 80 + c.x.toNat := rfl
  have hlast : (width - 1#8).toNat = 79 := by decide
  unfold print printByte
  rw [if_neg (by decide), if_neg (by decide), if_neg (by decide), if_pos rfl]
  by_cases h0 : c.x = 0#8
  · have hline := lineBack_toNat h
    have hpos : Console.pos { c with y := c.lineBack, x := width - 1#8 } = (c.pos + 1999) % 2000 := by
      have hzero : c.x.toNat = 0 := by rw [h0]; rfl
      rw [pos, cellIndex, hlast, hline, hcell, hzero]
      by_cases hfirst : c.y.toNat = 0
      · rw [if_pos hfirst]
        omega
      · rw [if_neg hfirst]
        omega
    have hback : Console.OnScreen { c with y := c.lineBack, x := width - 1#8 } :=
      ⟨(by decide : width - 1#8 < width), lineBack_lt h⟩
    have hstop : goBack (fuel + 1) { c with y := c.lineBack, x := width - 1#8 } =
        some ({ c with y := c.lineBack, x := width - 1#8 }, false, [(c.lineBack, width - 1#8)]) := by
      rw [goBack, if_neg]
      rw [← hpos] at htext
      exact htext
    rw [if_pos h0, hstop, ← hpos]
    exact congrArg some (put_back (c := c) hback rfl rfl _)
  · have hback : Console.OnScreen { c with x := c.x - 1#8 } := by
      refine ⟨?_, h.2⟩
      rw [BitVec.lt_def, toNat_sub_one h0]
      exact Nat.lt_of_le_of_lt (Nat.sub_le _ _) hx
    have hpos : Console.pos { c with x := c.x - 1#8 } = (c.pos + 1999) % 2000 := by
      have hne : c.x.toNat ≠ 0 := fun hzero => h0 (BitVec.eq_of_toNat_eq hzero)
      rw [pos, cellIndex, toNat_sub_one h0, hcell]
      dsimp only
      omega
    rw [if_neg h0, ← hpos]
    exact congrArg some (put_back (c := c) hback rfl rfl _)

/-- A printed character shows something. -/
lemma printed_ne {color : BitVec 8} (hb : Printable byte) :
    (color.setWidth 16 <<< 8 ||| byte.setWidth 16) &&& 0xff#16 ≠ 0#16 := by
  have hmask : ∀ i < 8, (0xff#16).getLsbD i = true := by decide
  have hne : byte ≠ 0#8 := fun h0 => hb (h0 ▸ List.mem_cons_self)
  intro h
  apply hne
  apply BitVec.eq_of_getLsbD_eq
  intro i hi
  have hbit := congrArg (fun w => w.getLsbD i) h
  simp only [BitVec.getLsbD_and, BitVec.getLsbD_or, BitVec.getLsbD_shiftLeft, BitVec.getLsbD_setWidth, hmask i hi, hi,
    Nat.lt_trans hi (by decide : 8 < 16)] at hbit
  simpa using hbit

/-- A backspace empties the character in front of the cells that are already empty. -/
lemma print_last (h : c.OnScreen) (hb : Printable byte) {n : Nat} (hn : n < 2000) :
    ((c.printed byte).emptied n).print (fuel + 1) 0x08#8 = some (c.emptied (n + 1)) := by
  have hpos := h.pos_lt
  have hnext : (c.pos + 1) % 2000 < 2000 := Nat.mod_lt _ (by decide)
  have hprinted : (c.printed byte).pos = (c.pos + 1) % 2000 := pos_goto hnext
  have hemptied : ((c.printed byte).emptied n).pos = (c.pos + 1) % 2000 := hprinted
  have hback : ((c.pos + 1) % 2000 + 1999) % 2000 = c.pos := by omega
  have hcell : ((c.printed byte).emptied n).buffer c.pos = c.color.setWidth 16 <<< 8 ||| byte.setWidth 16 := by
    have hout : ¬ InRow (c.printed byte).pos n c.pos := by
      rw [hprinted]
      unfold InRow
      omega
    rw [emptied_buffer, if_neg hout]
    exact Function.update_self ..
  have hon : ((c.printed byte).emptied n).OnScreen := c.onScreen_printed byte
  have htext : ((c.printed byte).emptied n).buffer ((((c.printed byte).emptied n).pos + 1999) % 2000) &&& 0xff#16 ≠ 0#16 := by
    rw [hemptied, hback, hcell]
    exact printed_ne hb
  rw [print_backspace hon htext, hemptied, hback]
  refine congrArg some ?_
  have hbuffer : Function.update ((c.printed byte).emptied n).buffer c.pos (c.color.setWidth 16 <<< 8) =
      (c.emptied (n + 1)).buffer := by
    funext k
    have hrow : InRow c.pos (n + 1) k ↔ k = c.pos ∨ InRow (c.printed byte).pos n k := by
      rw [hprinted]
      unfold InRow
      omega
    rw [Function.update_apply, emptied_buffer, emptied_buffer]
    by_cases hk : k = c.pos
    · rw [if_pos hk, if_pos (hrow.mpr (Or.inl hk))]
    · rw [if_neg hk]
      by_cases hin : InRow (c.printed byte).pos n k
      · rw [if_pos hin, if_pos (hrow.mpr (Or.inr hin))]
        rfl
      · rw [if_neg hin, if_neg fun hr => (hrow.mp hr).elim hk hin]
        exact Function.update_of_ne hk ..
  have hend : (c.emptied (n + 1)).goto c.pos = c.emptied (n + 1) := goto_pos (c := c.emptied (n + 1)) h
  rw [← hend, goto, goto, ← hbuffer]
  rfl

/-- Text and as many backspaces leave the cursor where it was, and the cells of the text empty. -/
lemma print_erase {text : List (BitVec 8)} (htext : ∀ b ∈ text, Printable b) (hlen : text.length ≤ 2000) (h : c.OnScreen) :
    (text ++ List.replicate text.length 0x08#8).foldlM (print (fuel + 1)) c = some (c.emptied text.length) := by
  induction text generalizing c with
  | nil =>
    have hnone : c.emptied 0 = c := by
      unfold emptied InRow
      simp
    rw [List.length_nil, hnone]
    rfl
  | cons b text ih =>
    rw [List.length_cons] at hlen ⊢
    have hb := htext b List.mem_cons_self
    have hrest := ih (c := c.printed b) (fun b' hb' => htext b' (List.mem_cons_of_mem b hb')) (by omega)
      (c.onScreen_printed b)
    rw [List.replicate_succ', List.cons_append, List.foldlM_cons, print_printable h hb, ← List.append_assoc]
    change List.foldlM (print (fuel + 1)) (c.printed b) (_ ++ [0x08#8]) = _
    rw [List.foldlM_append, hrest]
    change (print (fuel + 1) ((c.printed b).emptied text.length) 0x08#8 >>= pure) = _
    rw [print_last h hb (by omega)]
    rfl

lemma goBack_color {r : Console × Bool × List (BitVec 8 × BitVec 8)} (h : goBack fuel c = some r) : r.1.color = c.color := by
  induction fuel generalizing c r with
  | zero => cases h
  | succ fuel ih =>
    rw [goBack] at h
    by_cases hblank : c.Blank c.y c.x
    · rw [if_pos hblank] at h
      by_cases hend : width ≤ c.x
      · rw [if_pos hend] at h
        by_cases hfirst : c.Blank c.y 0#8
        · rw [if_pos hfirst] at h
          cases h
          rfl
        · rw [if_neg hfirst] at h
          obtain ⟨r', hr', rfl⟩ := Option.map_eq_some_iff.mp h
          have hcolor := ih hr'
          exact hcolor
      · rw [if_neg hend] at h
        obtain ⟨r', hr', rfl⟩ := Option.map_eq_some_iff.mp h
        have hcolor := ih hr'
        exact hcolor
    · rw [if_neg hblank] at h
      cases h
      rfl

lemma print_color {d : Console} (h : c.print fuel byte = some d) : d.color = c.color := by
  obtain ⟨⟨d, cells⟩, hbyte, rfl⟩ := Option.map_eq_some_iff.mp h
  unfold printByte at hbyte
  split_ifs at hbyte
  · cases hbyte
    rfl
  · cases hbyte
    exact color_wrap _
  · cases hbyte
    exact color_wrap _
  · obtain ⟨⟨e, returned, cells'⟩, hback, hbyte⟩ := Option.bind_eq_some_iff.mp hbyte
    have hcolor := goBack_color hback
    cases returned with
    | true =>
      cases hbyte
      exact hcolor
    | false =>
      cases hbyte
      exact (color_wrap _).trans hcolor
  · cases hbyte
    exact color_wrap _
  · cases hbyte
    exact color_wrap _

/-- Echoes print in one colour. -/
lemma echo_eq_print {text : List (BitVec 8)} (hcolor : c.ksetColor black cyan = c) :
    text.foldlM (echo fuel) c = text.foldlM (print fuel) c := by
  induction text generalizing c with
  | nil => rfl
  | cons b text ih =>
    have hecho : c.echo fuel b = c.print fuel b := by
      rw [echo, hcolor]
      rfl
    rw [List.foldlM_cons, List.foldlM_cons, hecho]
    cases hd : c.print fuel b with
    | none => rfl
    | some d =>
      have hd' : d.ksetColor black cyan = d := by
        have hset : black <<< 4 ||| cyan = d.color := (congrArg Console.color hcolor).trans (print_color hd).symm
        rw [ksetColor, hset]
      exact ih hd'

/-- Echoes of text and of as many backspaces. -/
lemma echo_erase (fuel : Nat) {text : List (BitVec 8)} (htext : ∀ b ∈ text, Printable b) (hlen : text.length ≤ 2000) (h : c.OnScreen) :
    ∃ d, (text ++ List.replicate text.length 0x08#8).foldlM (echo (fuel + 1)) c = some d ∧ d.x = c.x ∧ d.y = c.y ∧
      ∀ k, d.buffer k = if InRow c.pos text.length k then 0x300#16 else c.buffer k := by
  cases text with
  | nil =>
    refine ⟨c, rfl, rfl, rfl, fun k => ?_⟩
    rw [List.length_nil, if_neg fun hrow => Nat.not_lt_zero _ hrow.2]
  | cons b text =>
    -- the first echo sets the colour
    have hset : (b :: text ++ List.replicate (b :: text).length 0x08#8).foldlM (echo (fuel + 1)) c =
        (b :: text ++ List.replicate (b :: text).length 0x08#8).foldlM (echo (fuel + 1)) (c.ksetColor black cyan) := rfl
    have hon : (c.ksetColor black cyan).OnScreen := h
    rw [hset, echo_eq_print rfl, print_erase htext hlen hon]
    exact ⟨_, rfl, rfl, rfl, fun k => rfl⟩

end Console

open IoApics in
/-- Keys that type characters and then as many backspaces leave the cursor where it was; the cells of the characters
are empty, and all other cells as before. -/
theorem keys_taken_back (fuel : Nat) {bootFuel : Nat} {madt : Madt} {es : List MadtEntry}
    {regs : BitVec 32 → BitVec 8 → BitVec 32} {localApicId : BitVec 8} {t : IoApics KernelHandler} (h : IsaTable madt es regs)
    (hfree : ∀ o ∈ overridesOf es, o.globalSystemInt.setWidth 8 ≠ 1#8)
    (hinit : (blank regs).initApic madt localApicId KernelHandler.debugKeyboardHandler bootFuel = .ok t)
    {keyboard : Keyboard} {keys backs : List KeyEvent} (hkeys : ∀ b ∈ keyboard.typed keys, Console.Printable b)
    (hlen : (keyboard.typed keys).length ≤ 2000)
    (hbacks : keyboard.typed backs = List.replicate (keyboard.typed keys).length 0x08#8) {console : Console}
    (hon : console.OnScreen) (eois : Nat) :
    ∃ desk, ((keys ++ backs).flatMap KeyEvent.bytes).foldlM
        (Desk.interrupt 2 (fuel + 1) keyboard t (interruptBase + gsiOf (overridesOf es) 1#8)) ⟨⟨0#8, console⟩, eois⟩ =
          some desk ∧ desk.input.console.x = console.x ∧ desk.input.console.y = console.y ∧
      ∀ k, desk.input.console.buffer k =
        if Console.InRow console.pos (keyboard.typed keys).length k then 0x300#16 else console.buffer k := by
  have htyped : keyboard.typed (keys ++ backs) =
      keyboard.typed keys ++ List.replicate (keyboard.typed keys).length 0x08#8 := by
    rw [← hbacks]
    unfold Keyboard.typed
    rw [List.filter_append, List.map_append]
  obtain ⟨d, hd, hx, hy, hbuffer⟩ := Console.echo_erase fuel hkeys hlen hon
  refine ⟨⟨⟨0#8, d⟩, eois + ((keys ++ backs).flatMap KeyEvent.bytes).length⟩, ?_, hx, hy, hbuffer⟩
  rw [desk_interrupts (keyboard_dispatched h hfree hinit), handler_events, htyped, hd]
  rfl

/-- The key Backspace goes down. -/
def keyBackspace : KeyEvent := ⟨false, 0x0e#8, false, by decide, by decide⟩

open IoApics in
/-- On the PC, an A is taken back from the last column of the first line. -/
theorem pc_keys_taken_back : ∃ t, (blank pcRegs).initApic pcMadt 0#8 KernelHandler.debugKeyboardHandler 4 = .ok t ∧
    ∃ desk, (([keyA] ++ [keyBackspace]).flatMap KeyEvent.bytes).foldlM
      (Desk.interrupt 2 1 qwertz t (interruptBase + gsiOf (overridesOf pcEntries) 1#8))
        ⟨⟨0#8, ⟨79#8, 0#8, 0x0f#8, fun _ => 0#16⟩⟩, 0⟩ = some desk ∧ desk.input.console.x = 79#8 := by
  obtain ⟨t, ht⟩ := pc_keyboard_installed
  have hprintable : ∀ b ∈ qwertz.typed [keyA], Console.Printable b := by
    unfold Console.Printable
    decide +kernel
  have hback : qwertz.typed [keyBackspace] = List.replicate (qwertz.typed [keyA]).length 0x08#8 := by decide +kernel
  have hon : Console.OnScreen ⟨79#8, 0#8, 0x0f#8, fun _ => 0#16⟩ := ⟨by decide, by decide⟩
  obtain ⟨desk, hdesk, hx, -⟩ :=
    keys_taken_back 0 pcTable pc_keyboard_free ht hprintable (by decide) hback hon 0
  exact ⟨t, ht, desk, hdesk, hx⟩

end HaiirOS
