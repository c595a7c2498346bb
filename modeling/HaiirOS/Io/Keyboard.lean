import HaiirOS.Io.Console

/-!
# Keyboard input

The QWERTZ layout, `scancode_to_ascii`, and the decoding of scan codes that the two handlers of the
keyboard's interrupt share. An enumerator that the layout does not use has no constructor.
-/

namespace HaiirOS

/-- `enum keycode` -/
inductive Keycode where
  /-- an entry 0 of a table, which is no enumerator -/
  | unused
  | backspace | tab | enter | shiftLeft | shiftRight | capsLock | ctrl | ctrlRight | alt | altGr | winLeft | winRight
  | apps | esc | space
  | digit0 | digit1 | digit2 | digit3 | digit4 | digit5 | digit6 | digit7 | digit8 | digit9
  | a | b | c | d | e | f | g | h | i | j | k | l | m | n | o | p | q | r | s | t | u | v | w | x | y | z
  | oem1 | oem2 | oem3 | oem4 | oem5 | oem6 | oem7 | oem102 | oemPlus | oemComma | oemMinus | oemPoint
  | f1 | f2 | f3 | f4 | f5 | f6 | f7 | f8 | f9 | f10 | num | scroll | insert | delete | pos1 | «end» | pageUp | pageDown
  | up | down | left | right
  | numpad0 | numpad1 | numpad2 | numpad3 | numpad4 | numpad5 | numpad6 | numpad7 | numpad8 | numpad9
  | numpadSlash | numpadAsterisk | numpadMinus | numpadPlus | numpadEnter | numpadDecimal
deriving DecidableEq

/-- The value of an enumerator. -/
def Keycode.value : Keycode → Nat
  | .unused => 0
  | .backspace => 8 | .tab => 9 | .enter => 13 | .shiftLeft => 14 | .shiftRight => 15 | .capsLock => 16 | .ctrl => 17
  | .ctrlRight => 18 | .alt => 19 | .altGr => 20 | .winLeft => 21 | .winRight => 22 | .apps => 23 | .esc => 27
  | .space => 32
  | .digit0 => 48 | .digit1 => 49 | .digit2 => 50 | .digit3 => 51 | .digit4 => 52 | .digit5 => 53 | .digit6 => 54
  | .digit7 => 55 | .digit8 => 56 | .digit9 => 57
  | .a => 65 | .b => 66 | .c => 67 | .d => 68 | .e => 69 | .f => 70 | .g => 71 | .h => 72 | .i => 73 | .j => 74
  | .k => 75 | .l => 76 | .m => 77 | .n => 78 | .o => 79 | .p => 80 | .q => 81 | .r => 82 | .s => 83 | .t => 84
  | .u => 85 | .v => 86 | .w => 87 | .x => 88 | .y => 89 | .z => 90
  | .oem1 => 91 | .oem2 => 92 | .oem3 => 93 | .oem4 => 94 | .oem5 => 95 | .oem6 => 96 | .oem7 => 97 | .oem102 => 99
  | .oemPlus => 100 | .oemComma => 101 | .oemMinus => 102 | .oemPoint => 103
  | .f1 => 104 | .f2 => 105 | .f3 => 106 | .f4 => 107 | .f5 => 108 | .f6 => 109 | .f7 => 110 | .f8 => 111 | .f9 => 112
  | .f10 => 113 | .num => 128 | .scroll => 129 | .insert => 131 | .delete => 132 | .pos1 => 133 | .end => 134
  | .pageUp => 135 | .pageDown => 136 | .up => 137 | .down => 138 | .left => 139 | .right => 140
  | .numpad0 => 141 | .numpad1 => 142 | .numpad2 => 143 | .numpad3 => 144 | .numpad4 => 145 | .numpad5 => 146
  | .numpad6 => 147 | .numpad7 => 148 | .numpad8 => 149 | .numpad9 => 150
  | .numpadSlash => 151 | .numpadAsterisk => 152 | .numpadMinus => 153 | .numpadPlus => 154 | .numpadEnter => 155
  | .numpadDecimal => 156

/-- The initializers of `qwertz_keycodes`: the index that each run of entries starts at, and the entries. -/
def qwertzRuns : List (Nat × List Keycode) :=
  [(0, [.unused, .esc, .digit1, .digit2, .digit3, .digit4, .digit5, .digit6, .digit7, .digit8, .digit9, .digit0, .oem4,
      .oem6, .backspace, .tab, .q, .w, .e, .r, .t, .z, .u, .i, .o, .p, .oem1, .oemPlus, .enter, .ctrl, .a, .s, .d, .f,
      .g, .h, .j, .k, .l, .oem3, .oem7, .oem5, .shiftLeft, .oem2, .y, .x, .c, .v, .b, .n, .m, .oemComma, .oemPoint,
      .oemMinus, .shiftRight, .numpadAsterisk, .alt, .space, .capsLock, .f1, .f2, .f3, .f4, .f5, .f6, .f7, .f8, .f9,
      .f10, .num, .scroll, .numpad7, .numpad8, .numpad9, .numpadMinus, .numpad4, .numpad5, .numpad6, .numpadPlus,
      .numpad1, .numpad2, .numpad3, .numpad0, .numpadDecimal, .unused, .unused, .oem102]),
    (0x80 + 0x1c, [.numpadEnter, .ctrlRight]),
    (0x80 + 0x35, [.numpadSlash]),
    (0x80 + 0x38, [.altGr]),
    (0x80 + 0x47, [.pos1, .up, .pageUp, .left]),
    (0x80 + 0x4d, [.right, .end, .down, .pageDown, .insert, .delete]),
    (0x80 + 0x5b, [.winLeft, .winRight, .apps])]

/-- `qwertz_keycodes[i]` -/
def qwertzKeycodes (i : Nat) : Keycode :=
  match qwertzRuns.find? fun run => run.1 ≤ i ∧ i < run.1 + run.2.length with
  | some run => run.2.getD (i - run.1) .unused
  | none => .unused

def qwertzOemTable : List (BitVec 8) :=
  [154#8, 0x23#8, 153#8, 225#8, 94#8, 39#8, 142#8, 0#8, 0x3c#8, 0x2b#8, 0x2c#8, 0x2d#8, 0x2e#8]

def qwertzNumpadTable : List (BitVec 8) := [0x2f#8, 0x2a#8, 0x2d#8, 0x2b#8, 0x0a#8, 0x2c#8]

/-- The static variable `keyboard` -/
structure Keyboard where
  keycodes : BitVec 8 → Keycode
  oemTable : Nat → BitVec 8
  numpadTable : Nat → BitVec 8

/-- `keyboard` before any call -/
def Keyboard.zero : Keyboard := ⟨fun _ => .unused, fun _ => 0#8, fun _ => 0#8⟩

/-- `enum keyboard_layouts` -/
inductive KeyboardLayout where
  | qwertzLayout

namespace Keyboard

def selectKeyboardLayout (k : Keyboard) : KeyboardLayout → Keyboard
  | .qwertzLayout =>
    { keycodes := fun i => if i.toNat < 255 then qwertzKeycodes i.toNat else k.keycodes i
      oemTable := fun i => if i < 13 then qwertzOemTable.getD i 0#8 else k.oemTable i
      numpadTable := fun i => if i < 6 then qwertzNumpadTable.getD i 0#8 else k.numpadTable i }

def scancodeToAscii (k : Keyboard) (scancode : BitVec 8) : BitVec 8 :=
  let key := (k.keycodes scancode).value
  if key ≤ 90 ∧ key > 27 ∨ key ≤ 13 ∧ key ≥ 8 then BitVec.ofNat 8 key
  else if key > 90 ∧ key < 104 then k.oemTable (key - 91)
  else if key ≥ 141 ∧ key ≤ 150 then BitVec.ofNat 8 (key - 93)
  else if key > 150 ∧ key ≤ 156 then k.numpadTable (key - 151)
  else 0#8

end Keyboard

/-- `enum keystate` -/
inductive Keystate where
  | keyPressed
  | keyHold
  | keyReleased
deriving DecidableEq

def black : BitVec 8 := 0#8
def cyan : BitVec 8 := 3#8

/-- The static variable `seq` of a keyboard handler, and the console. -/
structure KeyInput where
  seq : BitVec 8
  console : Console

/-- `kset_color(BLACK, CYAN); kprintf("%c", c)` -/
def Console.echo (fuel : Nat) (console : Console) (c : BitVec 8) : Option Console :=
  ((console.ksetColor black cyan).printByte fuel c).map Prod.fst

/-- `debug_keyboard_handler`, and `keyboard_handler` but for its end of interrupt, for the byte that `inb(0x60)`
returns. The handlers keep it in an int and pass the sum on as an `uint8_t`. -/
def debugKeyboardHandler (fuel : Nat) (keyboard : Keyboard) (s : KeyInput) (scancode : BitVec 8) : Option KeyInput :=
  if scancode = 0xe0#8 then some { s with seq := 1#8 }
  else
    let state : Keystate := if scancode > 0x80#8 then .keyReleased else .keyPressed
    let (scancode, seq) := if s.seq = 1#8 then (scancode + 0x80#8, 0#8) else (scancode, s.seq)
    if state = .keyPressed then
      (s.console.echo fuel (keyboard.scancodeToAscii scancode)).map (KeyInput.mk seq)
    else some ⟨seq, s.console⟩

end HaiirOS
