import HaiirOS.Syscall.Mmap

/-!
# The scheduler

`scheduler.c` and `jump_usermode` of `syscall.asm`. The kernel adds its tasks and starts the scheduler;
a task runs until it yields, and is not entered again.
-/

namespace HaiirOS

/-- The arguments of a call of `jump_usermode`. -/
structure Jump where
  usrStackTop : Word
  usrFuncAddr : Word
  pml4Addr : Word
deriving DecidableEq

/-- The call that enters a task. -/
def TCB.jump (task : TCB) : Jump := ⟨task.userStack, task.userFunc, task.virtAddrSpace⟩

/-- What the CPU executes. -/
inductive Mode where
  | kernelMain
  | user
  /-- A loop of `hlt`. -/
  | halted
deriving DecidableEq

/-- The kernel, what the CPU executes, and the calls of `jump_usermode` so far. -/
structure System where
  kernel : Kernel
  mode : Mode
  jumps : List Jump

namespace System

def jumpUsermode (s : System) (j : Jump) : System where
  kernel := { s.kernel with machine := { s.kernel.machine with cr3 := j.pml4Addr } }
  mode := .user
  jumps := s.jumps ++ [j]

/-- `start_scheduler`, and the loop at the end of `kernel_main` where it returns to. -/
def startScheduler (s : System) : System :=
  let task := s.kernel.sTasks 0
  if task.userFunc = 0#64 ∨ task.userStack = 0#64 ∨ task.virtAddrSpace = 0#64 then { s with mode := .halted }
  else s.jumpUsermode task.jump

def switchTask (s : System) : System :=
  let s : System := { s with kernel := { s.kernel with sCurTask := s.kernel.sCurTask + 1 } }
  let task := s.kernel.sTasks s.kernel.sCurTask
  if s.kernel.sCurTask ≥ maxTasks ∨ task.userFunc = 0#64 then { s with mode := .halted }
  else s.jumpUsermode task.jump

end System

/-- What `kernel_main` does with tasks, and what a task does: the system calls that have an effect on the kernel, and
stores, behind which memory is `mem`. -/
inductive SystemOp where
  | addTask (debug : Bool) (taskName funcAddr : Word)
  | startScheduler
  | schedYield
  | mmap (addr len : Word) (prot : BitVec 32)
  | stores (mem : Mem)

def System.step (s : System) (op : SystemOp) (t : System) : Prop :=
  match op with
  | .addTask debug taskName funcAddr => s.mode = .kernelMain ∧
      ∃ k, s.kernel.addTask debug taskName funcAddr = some k ∧ t = { s with kernel := k }
  | .startScheduler => s.mode = .kernelMain ∧ t = s.startScheduler
  | .schedYield => s.mode = .user ∧ t = s.switchTask
  | .mmap addr len prot => s.mode = .user ∧
      ∃ r k, s.kernel.mmapSyscall addr len prot = some (r, k) ∧ t = { s with kernel := k }
  | .stores mem => s.mode = .user ∧
      t = { s with kernel := { s.kernel with machine := { s.kernel.machine with mem := mem } } }

end HaiirOS
