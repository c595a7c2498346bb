import HaiirOS.Proc.Task

/-!
# The mmap system call

`mmap_syscall` of `syscall.c`, which runs in the address space of the current task.
-/

namespace HaiirOS

abbrev pageSize : Nat := 4096

def protExec : BitVec 32 := 0x4#32

/-- The page flags that `mmap_syscall` derives from `prot`. -/
def mmapFlags (prot : BitVec 32) : PageFlags :=
  let pageFlags := PageFlags.user ||| (prot &&& 3#32).setWidth 64
  if prot &&& protExec = 0#32 then pageFlags ||| PageFlags.execDisable else pageFlags

/-- The 32-bit `pagesCount` of `mmap_syscall`. -/
def mmapPagesCount (len : Word) : Nat := (len.toNat / pageSize + 1) % 2 ^ 32

namespace Machine

/-- The mapping loop of `mmap_syscall`; `i * PAGE_SIZE` is a 32-bit product. -/
def mapPages (m : Machine) (pml4Table addr physAddrStart : Word) (pageFlags : PageFlags) (pagesCount : Nat) :
    Option Machine :=
  Loop.upTo (fun i m =>
    let offset := BitVec.ofNat 64 (i * pageSize % 2 ^ 32)
    m.mapUserFrame pml4Table (toPage (addr + offset)) (toFrame (physAddrStart + offset)) pageFlags)
    pagesCount m

end Machine

namespace Kernel

/-- `mmap_syscall`; the flags, file and offset arguments are not used. -/
def mmapSyscall (k : Kernel) (addr len : Word) (prot : BitVec 32) : Option (Word × Kernel) := do
  let pagesCount := mmapPagesCount len
  let (physAddrStart, m) := k.machine.pmmAllocUnmapped pagesCount
  let m ← m.mapPages k.getAddrSpace addr physAddrStart (mmapFlags prot) pagesCount
  return (addr &&& ~~~(BitVec.ofNat 64 pageSize), { k with machine := m })

end Kernel

end HaiirOS
