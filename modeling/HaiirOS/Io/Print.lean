import HaiirOS.Lib.Numeral

/-!
# Formatted output

`printStr`, `printInt`, `printHex`, `kprintf` and `kprintln` of `io.c`, by the bytes that they print
with `printByte`, in order.
-/

namespace HaiirOS

open Numeral

/-- A character constant. -/
def ch (c : Char) : BitVec 8 := BitVec.ofNat 8 c.toNat

/-- A string constant, without its NUL. -/
def text (s : String) : List (BitVec 8) := s.toList.map ch

/-- The bytes of a string in front of its NUL. -/
structure CString where
  bytes : List (BitVec 8)
  noNul : 0#8 ∉ bytes

/-- `printStr`, for the bytes from `str` on. -/
def printStr : List (BitVec 8) → List (BitVec 8)
  | [] => []
  | c :: str => if c = 0#8 then [] else c :: printStr str

/-- `printInt`. With `uint8_t buffer[10]`; a store outside of it fails. -/
def printInt (i : BitVec 32) : Option (List (BitVec 8)) := do
  let negative := i.slt 0#32
  let i := if negative then -i else i
  let buffer ← fillBack (fun i => (i.srem 10#32 + 48#32).setWidth 8) (fun i => i.sdiv 10#32) (fun i => i = 0#32) 10 i []
  return (if negative then [ch '-'] else []) ++ buffer

/-- `printHex`. With `uint8_t buffer[16]`; a store outside of it fails. -/
def printHex (i : BitVec 64) : Option (List (BitVec 8)) := do
  let repr := text "0123456789abcdef"
  let buffer ← fillBack (fun i => repr.getD (i % 16#64).toNat 0#8) (fun i => i / 16#64) (fun i => i = 0#64) 16 i []
  return printStr (text "0x") ++ buffer

/-- An argument behind the format. -/
inductive VarArg where
  | str (s : CString)
  | int (i : BitVec 32)
  | uint64 (u : BitVec 64)

/-- The `switch` on the character behind a `%`: what it prints and the arguments that it leaves. There is no `va_arg` where no
argument is left or one of another type. -/
def convert (c : BitVec 8) (args : List VarArg) : Option (List (BitVec 8) × List VarArg) :=
  if c = ch 's' then
    match args with
    | .str s :: args => some (printStr (s.bytes ++ [0#8]), args)
    | _ => none
  else if c = ch 'd' then
    match args with
    | .int i :: args => (printInt i).map fun out => (out, args)
    | _ => none
  else if c = ch 'x' then
    match args with
    | .uint64 u :: args => (printHex u).map fun out => (out, args)
    | _ => none
  else if c = ch 'f' then some (printStr (text "no float suppport yet"), args)
  else if c = ch 'c' then
    match args with
    | .int i :: args => some ([i.setWidth 8], args)
    | _ => none
  else if c = ch 'b' then
    match args with
    | .int i :: args => some (if i ≠ 0#32 then printStr (text "true") else printStr (text "false"), args)
    | _ => none
  else some ([], args)

/-- The bytes printed, the offsets at which the format was read, and the arguments left. -/
structure Printed where
  out : List (BitVec 8)
  reads : List Nat
  left : List VarArg

/-- The loop of `kprintf` from offset `p` of the format on. -/
def kprintfFrom (fmt : Nat → BitVec 8) : Nat → Nat → List VarArg → Option Printed
  | 0, _, _ => none
  | fuel + 1, p, args =>
    if fmt p = 0#8 then some ⟨[], [p], args⟩
    else if fmt p = ch '%' then do
      let (out, args) ← convert (fmt (p + 1)) args
      let r ← kprintfFrom fmt fuel (p + 2) args
      return ⟨out ++ r.out, p :: p :: (p + 1) :: r.reads, r.left⟩
    else do
      let r ← kprintfFrom fmt fuel (p + 1) args
      return ⟨fmt p :: r.out, p :: p :: p :: r.reads, r.left⟩

def kprintf (fuel : Nat) (fmt : Nat → BitVec 8) (args : List VarArg) : Option Printed := kprintfFrom fmt fuel 0 args

/-- `kprintln`. It calls `kprintf(fmt)`, without the arguments that it was called with. -/
def kprintln (fuel : Nat) (fmt : Nat → BitVec 8) (_args : List VarArg) : Option (List (BitVec 8)) := do
  let r ← kprintf fuel fmt []
  return r.out ++ [0x0a#8]

end HaiirOS
