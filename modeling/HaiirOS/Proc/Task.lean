import HaiirOS.Memory.Init

/-!
# Tasks

The task table of `scheduler.c` and `add_task`. A task control block keeps the fields that
the scheduler and the system calls read; the name is a pointer.
-/

namespace HaiirOS

open AddressWord (base)

/-- The fields of `TCB_t` in use. -/
structure TCB where
  name : Word
  userStack : Word
  userFunc : Word
  virtAddrSpace : Word

def maxTasks : Nat := 10

/-- The machine with the static variables of `scheduler.c`. -/
structure Kernel where
  machine : Machine
  sTasks : Nat → TCB
  sCurTask : Nat
  sTasksCount : Nat

/-- An unset entry of the task table. -/
def TCB.zero : TCB := ⟨0#64, 0#64, 0#64, 0#64⟩

/-- The end of the stack of every task. -/
def userStackTop : Word := 0x1000000f000#64

/-- The frames of the stack of every task. -/
def stackPages : Nat := 0xf

/-- The page that the code of every task starts in. -/
def userCodeBase : Word := 0x10000010000#64

/-- `text_seg_size` of the two builds. -/
def textSegSize (debug : Bool) : Word := if debug then 0x3900#64 else 0x5900#64

/-- The flags of every page that `add_task` maps. -/
def taskFlags : PageFlags := PageFlags.present ||| PageFlags.writeable ||| PageFlags.user

namespace Machine

/-- The stack loop of `add_task`. -/
def mapStack (m : Machine) (userPml4 physAddrStart : Word) : Option Machine :=
  Loop.upTo (fun i m =>
    let offset := BitVec.ofNat 64 (i * frameSize % 2 ^ 32)
    m.mapUserFrame userPml4 (toPage (userStackTop - offset)) (toFrame (physAddrStart - offset)) taskFlags)
    stackPages m

/-- Two pages in a row, as `add_task` maps the code and the data of a task. -/
def mapTwoPages (m : Machine) (userPml4 virt phys : Word) : Option Machine := do
  let m ← m.mapUserFrame userPml4 (toPage virt) (toFrame phys) taskFlags
  m.mapUserFrame userPml4 (toPage (virt + 4096#64)) (toFrame (phys + 4096#64)) taskFlags

end Machine

namespace Kernel

def getAddrSpace (k : Kernel) : Word := (k.sTasks k.sCurTask).virtAddrSpace

def addTcb (k : Kernel) (task : TCB) : Kernel :=
  if k.sTasksCount ≥ maxTasks then k
  else { k with sTasks := Function.update k.sTasks k.sTasksCount task, sTasksCount := k.sTasksCount + 1 }

def addTask (k : Kernel) (debug : Bool) (taskName funcAddr : Word) : Option Kernel := do
  let (userPml4, m) ← k.machine.createUserPml4
  let (stack, m) := m.pmmAllocUnmapped stackPages
  let physAddrStart := stack + BitVec.ofNat 64 (stackPages * frameSize)
  let m ← m.mapStack userPml4 physAddrStart
  let userFuncAddr := userCodeBase + (funcAddr &&& 0xfff#64)
  let m ← m.mapTwoPages userPml4 userFuncAddr funcAddr
  let dataSegPhys := base funcAddr + textSegSize debug
  let dataSegVirt := userCodeBase + textSegSize debug
  let m ← m.mapTwoPages userPml4 dataSegVirt dataSegPhys
  return { k with machine := m }.addTcb
    { name := taskName, userStack := userStackTop, userFunc := userFuncAddr, virtAddrSpace := userPml4 }

end Kernel

end HaiirOS
