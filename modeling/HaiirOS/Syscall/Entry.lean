import HaiirOS.Lib.X86

/-!
# The system call entry

`syscall_entry` of `syscall.asm`, where the `syscall` instruction leads, and the wrappers of
`syscall.h` that execute this instruction in user code.
-/

namespace HaiirOS

open X86 (Reg)

def syscallsCount : Nat := 18

/-! ### The wrappers -/

/-- What a wrapper of the system call `num` does: it returns -1, or executes `syscall` after these
loads. -/
def wrapper (num : BitVec 64) (loads : List (Reg × BitVec 64)) (regs : Reg → BitVec 64) :
    Except (BitVec 64) (Reg → BitVec 64) :=
  if syscallsCount ≤ num.toNat then .error (-1#64)
  else .ok (((.rax, num) :: loads).foldl (fun regs load => Function.update regs load.1 load.2) regs)

def syscall0 (num : BitVec 64) := wrapper num []

def syscall1 (num arg1 : BitVec 64) := wrapper num [(.rdi, arg1)]

def syscall2 (num arg1 arg2 : BitVec 64) := wrapper num [(.rdi, arg1), (.rsi, arg2)]

def syscall3 (num arg1 arg2 arg3 : BitVec 64) := wrapper num [(.rdi, arg1), (.rsi, arg2), (.rdx, arg3)]

-- The operands of the assembly are counted from the result, so that number 4 is `arg3`, in `rdx`.
def syscall4 (num arg1 arg2 arg3 _arg4 : BitVec 64) :=
  wrapper num [(.rdi, arg1), (.rsi, arg2), (.rdx, arg3), (.r10, arg3)]

def syscall6 (num arg1 arg2 arg3 arg4 arg5 _arg6 : BitVec 64) :=
  wrapper num [(.rdi, arg1), (.rsi, arg2), (.rdx, arg3), (.r10, arg3), (.r8, arg4), (.r9, arg5)]

/-! ### The entry -/

/-- Addresses in the kernel image: `syscall_table`, the top of `kernel_syscall_stack` and the
instruction after `call rax`. -/
structure EntryImage where
  syscallTable : BitVec 64
  kernelSyscallStack : BitVec 64
  back : BitVec 64

/-- The registers that `syscall_entry` pushes, in this order. -/
def savedRegs : List Reg :=
  [.rbx, .rcx, .rdx, .rdi, .rsi, .rbp, .r8, .r9, .r10, .r11, .r12, .r13, .r14, .r15]

/-- `syscall_entry` up to the handler. -/
def syscallEntry (k : EntryImage) : List X86.Instr :=
  savedRegs.map .push ++ [.mov .rbx .rsp, .movImm .rsp k.kernelSyscallStack, .push .rbx, .sti,
    .load .rax k.syscallTable .rax, .call .rax k.back]

/-- `syscall_entry` from the handler on. -/
def syscallExit : List X86.Instr :=
  [.cli, .pop .rsp] ++ (savedRegs.reverse.map .pop ++ [.movImm .r11 0x200#64, .sysret])

/-- The state in which `syscall_entry` starts: the `syscall` instruction of a user at registers
`regs` with flags `flags`, where `next` is the address after the instruction. -/
def atSyscall (regs : Reg → BitVec 64) (next flags : BitVec 64) (mem : X86.Bytes) : X86.State where
  regs := Function.update (Function.update regs .rcx next) .r11 flags
  rip := next
  interrupts := false
  mem := mem
  written := []

/-- `&syscall_table[num]` -/
def EntryImage.entry (k : EntryImage) (num : BitVec 64) : BitVec 64 := k.syscallTable + num * 8#64

end HaiirOS
