import HaiirOS.Pci.Bar

/-!
# Taking controllers over from the BIOS

`bios_handoff` of `ahci.c` and of `xhci.c`, by the accesses that they make. What a read of a
register returns that the BIOS changes too is an argument, read by read.
-/

namespace HaiirOS

/-! ### AHCI -/

/-- What `bios_handoff` returns, what it writes to BOHC, and the number of reads of BOHC before the final check. -/
structure AhciHandoff where
  handedOff : Bool
  written : List (BitVec 32)
  reads : Nat

/-- `while ((regs->bohc & 1) == 0)`, from read `k` on; the number of the next read. -/
def pollBohc (bohc : Nat → BitVec 32) : Nat → Nat → Option Nat
  | 0, _ => none
  | fuel + 1, k => if bohc k &&& 1#32 = 0#32 then pollBohc bohc fuel (k + 1) else some (k + 1)

/-- `bios_handoff` of `ahci.c`, where `bohc k` is what read `k` of BOHC returns. Whether the busy bit
is set only decides how long the driver waits, and so which value the next read gives. -/
def ahciBiosHandoff (fuel : Nat) (cap2 : BitVec 32) (bohc : Nat → BitVec 32) : Option AhciHandoff :=
  if cap2 &&& 1#32 = 0#32 then some ⟨false, [], 0⟩
  else do
    let busy ← pollBohc bohc fuel 1
    let reads := busy + 1
    let failed := bohc reads &&& 11#32 ≠ 0#32 ∨ bohc (reads + 1) &&& (1#32 <<< 1) = 0#32
    return ⟨!failed, [bohc 0 ||| (1#32 <<< 1)], reads⟩

/-! ### xHCI -/

/-- `HCC_XECP(p)` -/
def hccXecp (p : BitVec 32) : BitVec 32 := (p >>> 16) &&& 0xffff#32

/-- `XECP_ID(p)`, of the dword behind the pointer -/
def xecpId (v : BitVec 32) : BitVec 8 := (v &&& 0xff#32).setWidth 8

/-- `XECP_NEXT(p)`, of the dword behind the pointer -/
def xecpNext (v : BitVec 32) : BitVec 32 := (v >>> 8) &&& 0xff#32

def xecpLegsupId : BitVec 8 := 0x1#8
/-- An access to a dword of memory. -/
inductive DwordAccess where
  | read (addr : BitVec 64)
  | write (addr : BitVec 64) (value : BitVec 32)
deriving DecidableEq

def DwordAccess.addr : DwordAccess → BitVec 64
  | .read a => a
  | .write a _ => a

/-- `xecp += XECP_NEXT(xecp)`, in steps of dwords -/
def nextXecp (mem : BitVec 64 → BitVec 32) (xecp : BitVec 64) : BitVec 64 := xecp + (xecpNext (mem xecp)).setWidth 64 * 4#64

end HaiirOS
