/-!
# The console

`printByte`, `kset_color` and `kclear_screen` of `io.c`. A step is given with the cells that it reads
and writes, by the indices that the code uses for them.
-/

namespace HaiirOS

/-- `Console`, and the words from `vga_buffer` on. -/
structure Console where
  x : BitVec 8
  y : BitVec 8
  color : BitVec 8
  buffer : Nat → BitVec 16

namespace Console

def width : BitVec 8 := 80#8
def height : BitVec 8 := 25#8

/-- Where `buffer[row][col]` is; a column behind the line is in a line below it. -/
def cellIndex (row col : BitVec 8) : Nat := row.toNat * 80 + col.toNat

def cell (c : Console) (row col : BitVec 8) : BitVec 16 := c.buffer (cellIndex row col)

/-- A cell shows nothing. -/
def Blank (c : Console) (row col : BitVec 8) : Prop := c.cell row col &&& 0xff#16 = 0#16

instance (c : Console) (row col : BitVec 8) : Decidable (c.Blank row col) := inferInstanceAs (Decidable (_ = _))

/-- The store to the cell at the cursor. -/
def put (c : Console) (v : BitVec 16) : Console :=
  { c with buffer := fun k => if k = cellIndex c.y c.x then v else c.buffer k }

/-- The tests at the end of `printByte`. -/
def wrap (c : Console) : Console :=
  let c := if width ≤ c.x then { c with y := c.y + 1#8, x := 0#8 } else c
  if height ≤ c.y then { c with x := 0#8, y := 0#8 } else c

/-- The loop that goes back to the line break: the cursor, whether it has returned from `printByte`, and the cells it
has read. -/
def goBack : Nat → Console → Option (Console × Bool × List (BitVec 8 × BitVec 8))
  | 0, _ => none
  | fuel + 1, c =>
    if c.Blank c.y c.x then
      if width ≤ c.x then
        if c.Blank c.y 0#8 then some ({ c with x := 0#8 }, true, [(c.y, c.x), (c.y, 0#8)])
        else (goBack fuel { c with y := c.y - 1#8, x := width - 1#8 - 1#8 }).map fun r =>
          (r.1, r.2.1, (c.y, c.x) :: (c.y, 0#8) :: r.2.2)
      else (goBack fuel { c with x := c.x - 1#8 }).map fun r => (r.1, r.2.1, (c.y, c.x) :: r.2.2)
    else some (c, false, [(c.y, c.x)])

/-- The line that a backspace at the start of a line goes back to. -/
def lineBack (c : Console) : BitVec 8 := if c.y = 0#8 then height - 1#8 else c.y - 1#8

/-- `printByte`, with the cells that it accesses. -/
def printByte (fuel : Nat) (c : Console) (byte : BitVec 8) : Option (Console × List (BitVec 8 × BitVec 8)) :=
  if byte = 0x00#8 then some (c, [])
  else if byte = 0x0a#8 ∨ byte = 0x0d#8 then some (wrap { c with x := 0#8, y := c.y + 1#8 }, [])
  else if byte = 0x09#8 then some (wrap { c with x := c.x + 4#8 }, [])
  else if byte = 0x08#8 then
    if c.x = 0#8 then do
      let (c, returned, cells) ← goBack fuel { c with y := c.lineBack, x := width - 1#8 }
      if returned then some (c, cells)
      else some (wrap (c.put (c.color.setWidth 16 <<< 8)), cells ++ [(c.y, c.x)])
    else
      let c := { c with x := c.x - 1#8 }
      some (wrap (c.put (c.color.setWidth 16 <<< 8)), [(c.y, c.x)])
  else
    let printed := c.put (c.color.setWidth 16 <<< 8 ||| byte.setWidth 16)
    some (wrap { printed with x := c.x + 1#8 }, [(c.y, c.x)])

def ksetColor (c : Console) (bg fg : BitVec 8) : Console := { c with color := bg <<< 4 ||| fg }

def kclearScreen (c : Console) : Console :=
  { c with
    x := 0#8, y := 0#8
    buffer := fun k => if k < height.toNat * width.toNat then c.color.setWidth 16 <<< 8 else c.buffer k }

end Console

end HaiirOS
