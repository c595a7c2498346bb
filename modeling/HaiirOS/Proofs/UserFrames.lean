import HaiirOS.Proofs.AddTask
import HaiirOS.Proofs.MmapSpec

/-!
# The frames of user pages

Runs of `add_task`, `mmap_syscall` and the calls around them, with a record of the frames that the
allocator returned for the pages of each task. The stack loop of `add_task` is off by one frame:
after every call the top page of the stack is a frame that is not the task's.
-/

namespace HaiirOS

open AddressWord Runs

/-- Frames in a row that the allocator returned for pages of an address space. -/
structure Grant where
  root : Nat
  pages : List Nat
  first : Nat
  count : Nat

/-- The kernel, the PML4s made so far and the frames allocated for user pages. -/
structure Userland where
  kernel : Kernel
  roots : List Nat
  grants : List Grant

/-- What happens to the kernel. -/
inductive TaskOp where
  | addTask (debug : Bool) (taskName funcAddr : Word)
  /-- The current task calls mmap. -/
  | mmap (addr len : Word) (prot : BitVec 32)
  | schedule (task : Nat)
  /-- Calls of the paging code and of the allocator for other purposes. -/
  | other (op : PagingOp)

def TaskOp.IsAddTask : TaskOp → Prop
  | .addTask _ _ _ => True
  | _ => False

/-- The allocation of `add_task` for the stack. -/
def stackGrant (root : Nat) (stack : Word) : Grant :=
  ⟨root, (List.range stackPages).map fun i => pageNo (stackPage i), frame stack, stackPages⟩

/-- The allocation of `mmap_syscall`. -/
def Kernel.mmapGrant (k : Kernel) (addr len : Word) : Grant :=
  ⟨frame k.getAddrSpace, (List.range (mmapPagesCount len)).map fun i => pageNo (mmapPage addr i),
    frame (k.machine.pmmAllocUnmapped (mmapPagesCount len)).1, mmapPagesCount len⟩

namespace Userland

def session (s : Userland) : Session := ⟨s.kernel.machine, s.roots⟩

def step (s : Userland) (op : TaskOp) (s' : Userland) : Prop :=
  match op with
  | .addTask debug taskName funcAddr => ∃ pml4 m1 k', s.kernel.machine.createUserPml4 = some (pml4, m1) ∧
      s.kernel.addTask debug taskName funcAddr = some k' ∧
      s' = ⟨k', frame pml4 :: s.roots, stackGrant (frame pml4) (m1.pmmAllocUnmapped stackPages).1 :: s.grants⟩
  | .mmap addr len prot => s.kernel.sCurTask < s.kernel.sTasksCount ∧
      ∃ r k', s.kernel.mmapSyscall addr len prot = some (r, k') ∧
        s' = ⟨k', s.roots, s.kernel.mmapGrant addr len :: s.grants⟩
  | .schedule task => task < s.kernel.sTasksCount ∧ s' = { s with kernel := { s.kernel with sCurTask := task } }
  | .other op => ∃ t, s.session.exec op = some t ∧
      s' = { s with kernel := { s.kernel with machine := t.machine }, roots := t.roots }

/-- The frame of a task's PML4. -/
def rootOf (s : Userland) (task : Nat) : Nat := frame (s.kernel.sTasks task).virtAddrSpace

/-- A task reaches frame `f` at `v` in user mode. -/
def UserMaps (s : Userland) (task : Nat) (v : Word) (f : Nat) : Prop :=
  ∃ tr, mmu s.kernel.machine.mem (s.rootOf task) v = some tr ∧ tr.rights.user = true ∧ tr.phys / 4096 = f

/-- The stack area of a task and the pages that it got by mmap. -/
def InArea (s : Userland) (task : Nat) (v : Word) : Prop :=
  0x10000001000 ≤ v.toNat ∧ v.toNat ≤ 0x1000000ffff ∨ ∃ g ∈ s.grants, g.root = s.rootOf task ∧ pageNo v ∈ g.pages

/-- Frame `f` was allocated for page `v` of the task and belongs to nobody else. -/
structure Owned (s : Userland) (task : Nat) (v : Word) (f : Nat) : Prop where
  granted : ∃ g ∈ s.grants, g.root = s.rootOf task ∧ pageNo v ∈ g.pages ∧ g.first ≤ f ∧ f < g.first + g.count
  used : s.kernel.machine.pmm.used f = true
  no_table : ¬ s.session.IsTable f
  alone : ∀ task' < s.kernel.sTasksCount, task' ≠ task → ∀ v', ¬ s.UserMaps task' v' f

/-- All frames of the stacks and of what mmap mapped are the tasks' own. -/
def FramesOwned (s : Userland) : Prop :=
  ∀ task < s.kernel.sTasksCount, ∀ v f, s.InArea task v → s.UserMaps task v f → s.Owned task v f

/-- The allocations of the step succeed, and what becomes a table holds zeros; mmap is only called by tasks. -/
def Served (s : Userland) : TaskOp → Prop
  | .addTask _ _ funcAddr => ∃ root b, s.session.TaskServed funcAddr root b
  | .other op => s.session.Sound op
  | _ => True

variable {w : WindowTables} {rank : Nat → Nat} {s t : Userland}

/-- The task that `add_task` adds has the PML4 and the top page that `add_task` made. -/
lemma addTask_step (h : s.session.Inv w rank) (hcount : s.kernel.sTasksCount < maxTasks) {debug : Bool}
    {taskName funcAddr : Word} {root b : Nat} (hs : s.session.TaskServed funcAddr root b)
    (hstep : s.step (.addTask debug taskName funcAddr) t) :
    root ∉ s.roots ∧ t.grants = stackGrant root (frameAddr b) :: s.grants ∧ b < 2 ^ 35 ∧
      t.kernel.sTasksCount = s.kernel.sTasksCount + 1 ∧ t.rootOf s.kernel.sTasksCount = root ∧
      mmu t.kernel.machine.mem root userStackTop = some ⟨(b + stackPages) * 4096, taskFlags.rights⟩ := by
  obtain ⟨m1, m', hcreate, halloc, hnew, hlt, hb, hadd, htop⟩ := Kernel.addTask_effect h hs debug taskName
  obtain ⟨pml4, m2, k', hcreate', hadd', rfl⟩ := hstep
  cases hcreate.symm.trans hcreate'
  cases hadd.symm.trans hadd'
  have hroot : frame (frameAddr root) = root := frame_ofNat (by omega)
  have htcb (k : Kernel) (hk : k.sTasksCount < maxTasks) (task : TCB) : k.addTcb task =
      { k with sTasks := Function.update k.sTasks k.sTasksCount task, sTasksCount := k.sTasksCount + 1 } :=
    if_neg (Nat.not_le.mpr hk)
  rw [htcb { s.kernel with machine := m' } hcount]
  refine ⟨hnew, ?_, hb, rfl, ?_, htop.top⟩
  · rw [hroot, halloc]
  · change frame (Function.update s.kernel.sTasks s.kernel.sTasksCount _ s.kernel.sTasksCount).virtAddrSpace = root
    rw [Function.update_self]
    exact hroot

/-- The top page of the new stack is the frame behind those of the stack's allocation. -/
lemma addTask_maps_next (h : s.session.Inv w rank) (hcount : s.kernel.sTasksCount < maxTasks) {debug : Bool}
    {taskName funcAddr : Word} {root b : Nat} (hs : s.session.TaskServed funcAddr root b)
    (hstep : s.step (.addTask debug taskName funcAddr) t) :
    t.UserMaps s.kernel.sTasksCount userStackTop (b + stackPages) := by
  obtain ⟨-, -, -, -, hroot, htop⟩ := addTask_step h hcount hs hstep
  have huser : taskFlags.rights.user = true := by decide
  refine ⟨⟨(b + stackPages) * 4096, taskFlags.rights⟩, ?_, huser, Nat.mul_div_cancel _ (by decide)⟩
  rw [hroot, htop]

/-- After `add_task` the top page of the new stack is not the task's own. -/
lemma addTask_not_owned (h : s.session.Inv w rank) (hcount : s.kernel.sTasksCount < maxTasks)
    (hgrants : ∀ g ∈ s.grants, g.root ∈ s.roots) {debug : Bool} {taskName funcAddr : Word} {root b : Nat}
    (hs : s.session.TaskServed funcAddr root b) (hstep : s.step (.addTask debug taskName funcAddr) t) :
    ¬ t.FramesOwned := by
  obtain ⟨hnew, hgrant, hb, htasks, hroot, -⟩ := addTask_step h hcount hs hstep
  intro howned
  have hmaps := addTask_maps_next h hcount hs hstep
  obtain ⟨g, hg, hgroot, -, -, hlt⟩ := (howned _ (by omega) _ _ (.inl (by decide)) hmaps).granted
  rw [hgrant] at hg
  rcases List.mem_cons.mp hg with rfl | hg
  · change b + stackPages < frame (frameAddr b) + stackPages at hlt
    rw [frameAddr, frame_ofNat (by omega)] at hlt
    exact Nat.lt_irrefl _ hlt
  · rw [hroot] at hgroot
    exact hnew (hgroot ▸ hgrants g hg)

lemma no_task_step (hs : s.kernel.sTasksCount = 0) {op : TaskOp} (hop : ¬ op.IsAddTask) (ht : s.step op t) :
    t.grants = s.grants ∧ t.kernel.sTasksCount = 0 := by
  cases op with
  | addTask debug taskName funcAddr => exact absurd trivial hop
  | mmap addr len prot =>
    have hlt := ht.1
    omega
  | schedule task =>
    have hlt := ht.1
    omega
  | other op =>
    obtain ⟨u, -, rfl⟩ := ht
    exact ⟨rfl, hs⟩

lemma no_tasks {ops : List TaskOp} (hrun : Run step s ops t) (hs : s.kernel.sTasksCount = 0)
    (hops : ∀ op ∈ ops, ¬ op.IsAddTask) : t.kernel.sTasksCount = 0 := by
  induction hrun with
  | nil s => exact hs
  | cons ht _ ih =>
    have hnext := (no_task_step hs (hops _ List.mem_cons_self) ht).2
    exact ih hnext fun op hop => hops op (List.mem_cons_of_mem _ hop)

/-- Before the first call of `add_task`. -/
structure Taskless (w : WindowTables) (s : Userland) : Prop where
  inv : ∃ rank, s.session.Inv w rank
  tasks : s.kernel.sTasksCount = 0
  grants : s.grants = []

lemma Taskless.step (h : s.Taskless w) {op : TaskOp} (hop : ¬ op.IsAddTask) (hs : s.Served op) (ht : s.step op t) :
    t.Taskless w := by
  obtain ⟨hgrants, htasks⟩ := no_task_step h.tasks hop ht
  refine ⟨?_, htasks, hgrants.trans h.grants⟩
  have hnone := h.tasks
  cases op with
  | addTask debug taskName funcAddr => exact absurd trivial hop
  | mmap addr len prot =>
    have hlt := ht.1
    omega
  | schedule task =>
    have hlt := ht.1
    omega
  | other op =>
    obtain ⟨rank, hinv⟩ := h.inv
    obtain ⟨u, hu, rfl⟩ := ht
    obtain ⟨u', rank', hu', hinv'⟩ := hinv.sound_step hs
    obtain rfl := Option.some.inj (hu.symm.trans hu')
    exact ⟨rank', hinv'⟩

/-- A served run whose states all have their frames owned adds no task. -/
lemma Taskless.no_addTask {ops : List TaskOp} (h : s.Taskless w) (hrun : Run Userland.step s ops t)
    (hserved : Along Served Userland.step s ops)
    (howned : ∀ pre u, pre <+: ops → Run Userland.step s pre u → u.FramesOwned) : ∀ op ∈ ops, ¬ op.IsAddTask := by
  induction hrun with
  | nil s => exact fun op hop => absurd hop List.not_mem_nil
  | @cons s u _ a as ht _ ih =>
    have ha : ¬ a.IsAddTask := by
      intro ha
      cases a with
      | addTask debug taskName funcAddr =>
        obtain ⟨rank, hinv⟩ := h.inv
        have hcount : s.kernel.sTasksCount < maxTasks := by
          rw [h.tasks]
          decide
        have hgrants : ∀ g ∈ s.grants, g.root ∈ s.roots := by
          rw [h.grants]
          exact fun g hg => absurd hg List.not_mem_nil
        obtain ⟨root, b, hs⟩ := hserved.1
        exact addTask_not_owned hinv hcount hgrants hs ht (howned _ u ⟨as, rfl⟩ (.cons ht (.nil u)))
      | mmap _ _ _ => exact ha
      | schedule _ => exact ha
      | other _ => exact ha
    intro op hop
    rcases List.mem_cons.mp hop with rfl | hop
    · exact ha
    · refine ih (h.step ha hserved.1 ht) (hserved.2 u ht) (fun pre v hpre hrun => ?_) op hop
      exact howned (a :: pre) v (List.cons_prefix_cons.mpr ⟨rfl, hpre⟩) (.cons ht hrun)

/-- From an initialised kernel: as long as no task is added all is well, and a served run in which all is
well adds no task. -/
theorem frames_owned_iff {pts : Nat → Nat} {k : Kernel} (hboot : Booted w pts k.machine) (hnone : k.sTasksCount = 0)
    {ops : List TaskOp} (hrun : Run step ⟨k, [w.pml4], []⟩ ops t) :
    ((∀ op ∈ ops, ¬ op.IsAddTask) →
      ∀ pre u, pre <+: ops → Run step ⟨k, [w.pml4], []⟩ pre u → u.FramesOwned) ∧
    (Along Served step ⟨k, [w.pml4], []⟩ ops →
      (∀ pre u, pre <+: ops → Run step ⟨k, [w.pml4], []⟩ pre u → u.FramesOwned) → ∀ op ∈ ops, ¬ op.IsAddTask) := by
  constructor
  · intro hops pre u hpre hrun task htask
    have hzero := no_tasks hrun hnone fun op hop => hops op (hpre.subset hop)
    omega
  · intro hserved howned
    have hstart : Taskless w ⟨k, [w.pml4], []⟩ := ⟨⟨bootRank w pts, hboot.inv⟩, hnone, rfl⟩
    exact hstart.no_addTask hrun hserved howned

/-- The kernel right after boot, with zeroed memory from 8 MiB on. -/
def running : Userland := ⟨⟨runningMachine (fun _ => 0#64) reservedPmm, fun _ => TCB.zero, 0, 0⟩, [1], []⟩

lemma booted : Booted bootWindow (4 + ·) running.kernel.machine :=
  booted_running (fun _ => 0#64) reservedPmm_valid fun _ hf => reservedPmm_used hf

lemma running_missing : missing running.session.machine.mem (frameAddr 0x800) 3 running.session.kernelRoot = 1 := by
  decide +kernel

lemma running_pml4 : reservedPmm.NextRun 1 0x800 := reservedPmm_valid.nextRun_of_alloc (by decide +kernel) (by decide)

/-- The allocator behind the first PML4 and the table for its page. -/
lemma running_afterNewPml4 : running.session.afterNewPml4 0x800 = (reservedPmm.pmmAllocUnmapped 1).2.singles 1 := by
  unfold Session.afterNewPml4
  rw [running_missing, reservedPmm_valid.alloc_eq (by decide) running_pml4]
  rfl

lemma running_stack : (running.session.afterNewPml4 0x800).NextRun stackPages 0x802 := by
  rw [running_afterNewPml4]
  exact ((reservedPmm_valid.alloc 1).singles 1).nextRun_of_alloc (by decide +kernel) (by decide)

lemma running_afterStack : (running.session.afterNewPml4 0x800).handOut 0x802 stackPages =
    (((reservedPmm.pmmAllocUnmapped 1).2.singles 1).pmmAllocUnmapped stackPages).2 := by
  have hstack := running_stack
  have hvalid := (reservedPmm_valid.alloc 1).singles 1
  rw [running_afterNewPml4] at hstack ⊢
  rw [hvalid.alloc_eq (by decide) hstack]

lemma taskServed_running : running.session.TaskServed 0x100000#64 0x800 0x802 := by
  have hv := reservedPmm_valid
  refine ⟨by decide, running_pml4, ?_, Or.inl (by decide +kernel), running_stack, ?_⟩
  · have hone : reservedPmm.handOut 0x800 1 = (reservedPmm.pmmAllocUnmapped 1).2 := by
      rw [hv.alloc_eq (by decide) running_pml4]
    rw [running_missing]
    change Supplied _ 1 (reservedPmm.handOut 0x800 1)
    rw [hone]
    exact supplied_running (hv.alloc 1) (by decide +kernel) (fun _ _ _ => rfl) reservedPmm
  · rw [running_afterStack]
    exact supplied_running (((hv.alloc 1).singles 1).alloc stackPages) (by decide +kernel) (fun _ _ _ => rfl) reservedPmm

lemma exists_run_running : ∃ t, Run step running [.addTask false 0#64 0x100000#64] t := by
  obtain ⟨m1, m', hcreate, -, -, -, -, hadd, -⟩ :=
    Kernel.addTask_effect booted.inv taskServed_running false 0#64
  exact ⟨_, .cons ⟨_, _, _, hcreate, hadd, rfl⟩ (.nil _)⟩

theorem frames_owned_iff_running : ∃ t, Run step running [.addTask false 0#64 0x100000#64] t ∧
    ¬ ∀ pre u, pre <+: [.addTask false 0#64 0x100000#64] → Run step running pre u → u.FramesOwned := by
  obtain ⟨t, hrun⟩ := exists_run_running
  refine ⟨t, hrun, fun howned => ?_⟩
  have hserved : Along Served step running [.addTask false 0#64 0x100000#64] :=
    ⟨⟨0x800, 0x802, taskServed_running⟩, fun _ _ => trivial⟩
  exact (frames_owned_iff booted rfl hrun).2 hserved howned _ List.mem_cons_self trivial

/-- The first task gets frames `0x802` to `0x810` for its stack, and frame `0x811` at the top of it. -/
theorem running_maps_next_frame : ∃ t, Run step running [.addTask false 0#64 0x100000#64] t ∧
    t.grants = [stackGrant 0x800 (frameAddr 0x802)] ∧ t.UserMaps 0 userStackTop 0x811 ∧ ¬ t.FramesOwned := by
  obtain ⟨t, hrun⟩ := exists_run_running
  refine ⟨t, hrun, ?_⟩
  cases hrun with
  | cons ht hrest =>
    cases hrest
    have hcount : running.kernel.sTasksCount < maxTasks := by decide
    obtain ⟨-, hgrants, -⟩ := addTask_step booted.inv hcount taskServed_running ht
    refine ⟨hgrants, addTask_maps_next booted.inv hcount taskServed_running ht, ?_⟩
    exact addTask_not_owned booted.inv hcount (fun g hg => absurd hg List.not_mem_nil) taskServed_running ht

end Userland

end HaiirOS
