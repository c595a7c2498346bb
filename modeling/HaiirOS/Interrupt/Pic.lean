import HaiirOS.Interrupt.Idt
import HaiirOS.Lib.Pic8259

/-!
# The 8259 driver

`remap_pic` and `disable_pic` of `pic.c`, and what its handlers write to the ports of the two chips.
-/

namespace HaiirOS

open Pic8259

/-- `outb`; other ports are not those of the chips. -/
def outb (port : BitVec 16) (value : BitVec 8) (p : Pair) : Option Pair :=
  if port = 0x20#16 then (p.master.command value).map fun c => { p with master := c }
  else if port = 0x21#16 then some { p with master := p.master.data value }
  else if port = 0xa0#16 then (p.slave.command value).map fun c => { p with slave := c }
  else if port = 0xa1#16 then some { p with slave := p.slave.data value }
  else some p

def ioWait (p : Pair) : Option Pair := outb 0x80#16 0#8 p

/-- `remap_pic`, between `disable_interrupts` and `enable_interrupts` -/
def remapPic (p : Pair) : Option Pair := do
  let p ← ioWait p
  let p ← outb 0x20#16 0x11#8 p
  let p ← outb 0xa0#16 0x11#8 p
  let p ← outb 0x21#16 0x20#8 p
  let p ← outb 0xa1#16 0x28#8 p
  let p ← outb 0x21#16 0x04#8 p
  let p ← outb 0xa1#16 0x02#8 p
  let p ← outb 0x21#16 0x01#8 p
  let p ← outb 0xa1#16 0x01#8 p
  let p ← outb 0x21#16 0x00#8 p
  outb 0xa1#16 0x00#8 p

def disablePic (p : Pair) : Option Pair := do
  let p ← outb 0xa1#16 0xff#8 p
  outb 0x21#16 0xff#8 p

/-- What a handler of `pic.c` does with the chips: `outb(0x20, 0x20)`. The other handlers do not use them. -/
def IdtHandler.endInterrupt (handler : IdtHandler) (p : Pair) : Option Pair :=
  match handler with
  | .timerHandler | .keyboardHandler | .interruptHandler => outb 0x20#16 0x20#8 p
  | _ => some p

end HaiirOS
