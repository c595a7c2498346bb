import HaiirOS.Proc.Scheduler
import HaiirOS.Proofs.TaskAllOrNothing
import HaiirOS.Proofs.UserFrames

/-!
# Tasks run once each, in the order they were added

The scheduler goes through the first ten tasks in the order in which `add_task` was called. It enters
each of them once, and its CPU halts behind the last one. In user mode the loaded page tables are those
that `get_addr_space` gives to the system calls.
-/

namespace HaiirOS

open AddressWord Runs

/-- The name and the function of a task that the kernel adds. -/
def SystemOp.added : SystemOp → Option (Word × Word)
  | .addTask _ taskName funcAddr => some (taskName, funcAddr)
  | _ => none

lemma userFunc_ne (funcAddr : Word) : userCodeBase + (funcAddr &&& 0xfff#64) ≠ 0#64 := by
  have hand : (funcAddr &&& 0xfff#64).toNat ≤ 0xfff := by
    rw [BitVec.toNat_and]
    exact Nat.and_le_right
  intro h
  have hval := congrArg BitVec.toNat h
  rw [BitVec.toNat_add, userCodeBase, BitVec.toNat_ofNat, BitVec.toNat_ofNat] at hval
  omega

namespace Machine

lemma stable_cr3 (flags : PageFlags) (pml4 : Word) : Stable flags fun m => m.cr3 = pml4 where
  write h hm := by
    obtain ⟨a, -, rfl⟩ := Option.map_eq_some_iff.mp h
    exact hm
  load h hm := by
    obtain ⟨a, -, h⟩ := Option.map_eq_some_iff.mp h
    cases h
    exact hm
  store h hm := by
    obtain ⟨a, -, rfl⟩ := Option.map_eq_some_iff.mp h
    exact hm
  create _ _ hm := hm

lemma mapPages_cr3 {m m' : Machine} {pml4 addr start : Word} {flags : PageFlags} {n : Nat}
    (h : m.mapPages pml4 addr start flags n = some m') : m'.cr3 = m.cr3 := by
  apply Loop.upTo_invariant (fun _ m' => m'.cr3 = m.cr3) rfl _ h
  intro i _ m1 m2 hm1 hmap
  exact (stable_cr3 flags m.cr3).map hmap hm1

end Machine

namespace System

variable {s t : System} {op : SystemOp} {args : List (Word × Word)}

/-- The tasks in the table. -/
def tasks (s : System) : List TCB := (List.range s.kernel.sTasksCount).map s.kernel.sTasks

/-- The kernel before its first task. -/
structure Fresh (s : System) : Prop where
  mode : s.mode = .kernelMain
  jumps : s.jumps = []
  unset : ∀ i, s.kernel.sTasks i = TCB.zero
  cur : s.kernel.sCurTask = 0
  count : s.kernel.sTasksCount = 0

/-- The tasks that were entered so far, by what the CPU does. -/
def Progress (s : System) : Prop :=
  match s.mode with
  | .kernelMain => s.kernel.sCurTask = 0 ∧ s.jumps = []
  | .user => s.kernel.sCurTask < s.kernel.sTasksCount ∧ s.kernel.machine.cr3 = s.kernel.getAddrSpace ∧
      s.jumps = (s.tasks.take (s.kernel.sCurTask + 1)).map TCB.jump
  | .halted => s.jumps = s.tasks.map TCB.jump ∨ s.jumps = [] ∧ ∀ task ∈ s.tasks.head?, task.virtAddrSpace = 0#64

/-- The task table after calls of `add_task` with these arguments. -/
structure Ordered (args : List (Word × Word)) (s : System) : Prop where
  count : s.kernel.sTasksCount = min args.length maxTasks
  unset : ∀ i, s.kernel.sTasksCount ≤ i → s.kernel.sTasks i = TCB.zero
  entries : ∀ i < s.kernel.sTasksCount, ∀ a ∈ args[i]?, ∃ pml4,
    s.kernel.sTasks i = ⟨a.1, userStackTop, userCodeBase + (a.2 &&& 0xfff#64), pml4⟩
  progress : s.Progress

lemma Fresh.ordered (h : s.Fresh) : s.Ordered [] := by
  refine ⟨h.count, fun i _ => h.unset i, fun i hi => ?_, ?_⟩
  · rw [h.count] at hi
    exact absurd hi (Nat.not_lt_zero i)
  · rw [Progress, h.mode]
    exact ⟨h.cur, h.jumps⟩

lemma tasks_get (s : System) {i : Nat} (hi : i < s.kernel.sTasksCount) : s.tasks[i]? = some (s.kernel.sTasks i) := by
  rw [tasks, List.getElem?_map, List.getElem?_range hi]
  rfl

lemma tasks_length (s : System) : s.tasks.length = s.kernel.sTasksCount := by
  rw [tasks, List.length_map, List.length_range]

namespace Ordered

lemma count_le (h : s.Ordered args) : s.kernel.sTasksCount ≤ maxTasks := by
  rw [h.count]
  exact Nat.min_le_right ..

lemma entry (h : s.Ordered args) {i : Nat} (hi : i < s.kernel.sTasksCount) :
    (s.kernel.sTasks i).userFunc ≠ 0#64 ∧ (s.kernel.sTasks i).userStack = userStackTop := by
  have hlen : i < args.length := by
    have hcount := h.count
    omega
  obtain ⟨pml4, htask⟩ := h.entries i hi args[i] (List.getElem?_eq_getElem hlen)
  rw [htask]
  exact ⟨userFunc_ne _, rfl⟩

/-- The test of `switch_task` is whether there is a next task. -/
lemma unset_iff (h : s.Ordered args) (i : Nat) :
    (i ≥ maxTasks ∨ (s.kernel.sTasks i).userFunc = 0#64) ↔ s.kernel.sTasksCount ≤ i := by
  constructor
  · intro hend
    by_contra hlt
    have hle := h.count_le
    rcases hend with hmax | hzero
    · omega
    · exact (h.entry (Nat.lt_of_not_le hlt)).1 hzero
  · intro hle
    rw [h.unset i hle]
    exact Or.inr rfl

lemma addTask (h : s.Ordered args) (hmode : s.mode = .kernelMain) {debug : Bool} {taskName funcAddr : Word} {k : Kernel}
    (hk : s.kernel.addTask debug taskName funcAddr = some k) :
    Ordered (args ++ [(taskName, funcAddr)]) { s with kernel := k } := by
  have hprogress := h.progress
  rw [Progress, hmode] at hprogress
  obtain ⟨pml4, -, -, -, m, -, -, -, -, rfl⟩ := Kernel.addTask_cases hk
  have hcount := h.count
  have hlen : (args ++ [(taskName, funcAddr)]).length = args.length + 1 := List.length_append
  unfold Kernel.addTcb
  by_cases hfull : s.kernel.sTasksCount ≥ maxTasks
  · -- the table is full, and stays as it is
    rw [if_pos hfull]
    refine ⟨?_, h.unset, fun i hi a ha => ?_, ?_⟩
    · change s.kernel.sTasksCount = _
      omega
    · change i < s.kernel.sTasksCount at hi
      rw [List.getElem?_append_left (by omega)] at ha
      exact h.entries i hi a ha
    · rw [Progress, hmode]
      exact hprogress
  · rw [if_neg hfull]
    refine ⟨?_, fun i hi => ?_, fun i hi a ha => ?_, ?_⟩
    · change s.kernel.sTasksCount + 1 = _
      omega
    · change s.kernel.sTasksCount + 1 ≤ i at hi
      change Function.update s.kernel.sTasks s.kernel.sTasksCount _ i = _
      rw [Function.update_of_ne (by omega)]
      exact h.unset i (by omega)
    · change i < s.kernel.sTasksCount + 1 at hi
      change ∃ pml4, Function.update s.kernel.sTasks s.kernel.sTasksCount _ i = _
      by_cases hlast : i = s.kernel.sTasksCount
      · have hindex : i = args.length := by omega
        rw [hindex, List.getElem?_append_right (Nat.le_refl _), Nat.sub_self] at ha
        cases ha
        rw [hlast, Function.update_self]
        exact ⟨pml4, rfl⟩
      · rw [Function.update_of_ne hlast]
        rw [List.getElem?_append_left (by omega)] at ha
        exact h.entries i (by omega) a ha
    · rw [Progress, hmode]
      exact hprogress

/-- With a task in the table the scheduler enters it, and so it does with a next task. -/
lemma enters (h : s.Ordered args) (hcount : 0 < s.kernel.sTasksCount) (hspace : (s.kernel.sTasks 0).virtAddrSpace ≠ 0#64) :
    s.startScheduler = s.jumpUsermode (s.kernel.sTasks 0).jump := by
  obtain ⟨hfunc, hstack⟩ := h.entry hcount
  refine if_neg ?_
  rw [hstack]
  rintro (h0 | h0 | h0)
  · exact hfunc h0
  · exact absurd h0 (by decide)
  · exact hspace h0

lemma switches (h : s.Ordered args) (hnext : s.kernel.sCurTask + 1 < s.kernel.sTasksCount) :
    s.switchTask = jumpUsermode { s with kernel := { s.kernel with sCurTask := s.kernel.sCurTask + 1 } }
      (s.kernel.sTasks (s.kernel.sCurTask + 1)).jump :=
  if_neg ((h.unset_iff (s.kernel.sCurTask + 1)).not.mpr (Nat.not_le.mpr hnext))

lemma startScheduler (h : s.Ordered args) (hmode : s.mode = .kernelMain) : s.startScheduler.Ordered args := by
  have hprogress := h.progress
  rw [Progress, hmode] at hprogress
  obtain ⟨hcur, hjumps⟩ := hprogress
  by_cases hnone : s.kernel.sTasksCount = 0
  · have hzero : s.kernel.sTasks 0 = TCB.zero := h.unset 0 (by omega)
    have htasks : s.tasks = [] := List.eq_nil_of_length_eq_zero (by rw [tasks_length, hnone])
    unfold System.startScheduler
    rw [if_pos (by rw [hzero]; exact Or.inl rfl)]
    refine ⟨h.count, h.unset, h.entries, Or.inl ?_⟩
    change s.jumps = s.tasks.map TCB.jump
    rw [htasks, hjumps]
    rfl
  · have hfirst : s.tasks.head? = some (s.kernel.sTasks 0) := by
      rw [List.head?_eq_getElem?]
      exact s.tasks_get (Nat.pos_of_ne_zero hnone)
    by_cases hspace : (s.kernel.sTasks 0).virtAddrSpace = 0#64
    · unfold System.startScheduler
      rw [if_pos (Or.inr (Or.inr hspace))]
      refine ⟨h.count, h.unset, h.entries, Or.inr ⟨hjumps, fun task htask => ?_⟩⟩
      change task ∈ s.tasks.head? at htask
      rw [hfirst] at htask
      cases htask
      exact hspace
    · rw [h.enters (Nat.pos_of_ne_zero hnone) hspace]
      refine ⟨h.count, h.unset, h.entries, ⟨?_, ?_, ?_⟩⟩
      · change s.kernel.sCurTask < s.kernel.sTasksCount
        omega
      · change (s.kernel.sTasks 0).virtAddrSpace = (s.kernel.sTasks s.kernel.sCurTask).virtAddrSpace
        rw [hcur]
      · change s.jumps ++ [(s.kernel.sTasks 0).jump] = (s.tasks.take (s.kernel.sCurTask + 1)).map TCB.jump
        rw [hcur, hjumps, List.take_add_one, ← List.head?_eq_getElem?, hfirst]
        rfl

lemma switchTask (h : s.Ordered args) (hmode : s.mode = .user) : s.switchTask.Ordered args := by
  have hprogress := h.progress
  rw [Progress, hmode] at hprogress
  obtain ⟨hcur, -, hjumps⟩ := hprogress
  by_cases hlast : s.kernel.sTasksCount ≤ s.kernel.sCurTask + 1
  · unfold System.switchTask
    rw [if_pos ((h.unset_iff (s.kernel.sCurTask + 1)).mpr hlast)]
    refine ⟨h.count, h.unset, h.entries, Or.inl ?_⟩
    change s.jumps = s.tasks.map TCB.jump
    rw [hjumps, List.take_of_length_le (by rw [tasks_length]; exact hlast)]
  · rw [h.switches (Nat.lt_of_not_le hlast)]
    refine ⟨h.count, h.unset, h.entries, ⟨Nat.lt_of_not_le hlast, rfl, ?_⟩⟩
    change s.jumps ++ [(s.kernel.sTasks (s.kernel.sCurTask + 1)).jump] =
      (s.tasks.take (s.kernel.sCurTask + 1 + 1)).map TCB.jump
    rw [List.take_add_one, s.tasks_get (Nat.lt_of_not_le hlast), hjumps, List.map_append]
    rfl

lemma of_machine (h : s.Ordered args) {m : Machine} (hcr3 : m.cr3 = s.kernel.machine.cr3) :
    Ordered args { s with kernel := { s.kernel with machine := m } } := by
  refine ⟨h.count, h.unset, h.entries, ?_⟩
  have hprogress := h.progress
  unfold Progress at hprogress ⊢
  cases hm : s.mode with
  | kernelMain =>
    rw [hm] at hprogress
    exact hprogress
  | user =>
    rw [hm] at hprogress
    exact ⟨hprogress.1, hcr3.trans hprogress.2.1, hprogress.2.2⟩
  | halted =>
    rw [hm] at hprogress
    exact hprogress

lemma step (h : s.Ordered args) (ht : s.step op t) : t.Ordered (args ++ op.added.toList) := by
  have hargs : args ++ (none : Option (Word × Word)).toList = args := List.append_nil args
  cases op with
  | addTask debug taskName funcAddr =>
    obtain ⟨hmode, k, hk, rfl⟩ := ht
    exact h.addTask hmode hk
  | startScheduler =>
    obtain ⟨hmode, rfl⟩ := ht
    exact hargs.symm ▸ h.startScheduler hmode
  | schedYield =>
    obtain ⟨hmode, rfl⟩ := ht
    exact hargs.symm ▸ h.switchTask hmode
  | mmap addr len prot =>
    obtain ⟨-, r, k, hk, rfl⟩ := ht
    obtain ⟨m, hloop, hk⟩ := Option.bind_eq_some_iff.mp hk
    cases hk
    have hcr3 := Machine.mapPages_cr3 hloop
    exact hargs.symm ▸ h.of_machine hcr3
  | stores mem =>
    obtain ⟨-, rfl⟩ := ht
    exact hargs.symm ▸ h.of_machine rfl

lemma run {ops : List SystemOp} (h : s.Ordered args) (hrun : Run System.step s ops t) :
    t.Ordered (args ++ ops.filterMap SystemOp.added) := by
  induction hrun generalizing args with
  | nil s =>
    rw [List.filterMap_nil, List.append_nil]
    exact h
  | @cons s u _ op ops ht _ ih =>
    have hnext := ih (h.step ht)
    rw [List.append_assoc] at hnext
    have hadded : (op :: ops).filterMap SystemOp.added = op.added.toList ++ ops.filterMap SystemOp.added := by
      rw [List.filterMap_cons]
      cases op.added <;> rfl
    rw [hadded]
    exact hnext

lemma tasks_eq (h : s.Ordered args) : s.tasks.map (fun task => (task.name, task.userFunc)) =
    (args.take maxTasks).map fun a => (a.1, userCodeBase + (a.2 &&& 0xfff#64)) := by
  have hcount := h.count
  apply List.ext_getElem?
  intro i
  rw [List.getElem?_map, List.getElem?_map]
  by_cases hi : i < s.kernel.sTasksCount
  · have hargs : args[i]? = some args[i] := List.getElem?_eq_getElem (by omega)
    obtain ⟨pml4, htask⟩ := h.entries i hi args[i] hargs
    rw [s.tasks_get hi, List.getElem?_take_of_lt (by omega), hargs, htask]
    rfl
  · have hnone : s.tasks[i]? = none := List.getElem?_eq_none (by rw [tasks_length]; omega)
    have hnone' : (args.take maxTasks)[i]? = none := List.getElem?_eq_none (by rw [List.length_take]; omega)
    rw [hnone, hnone']
    rfl

end Ordered

/-- The table holds the first ten tasks, the CPU has entered a first part of them in this order, in user
mode the tables of the last one of these are loaded, and the CPU does not halt before it has entered all
of them, unless the first has no PML4. -/
theorem tasks_in_order (hfresh : s.Fresh) {ops : List SystemOp} (hrun : Run System.step s ops t) :
    t.tasks.map (fun task => (task.name, task.userFunc)) = ((ops.filterMap SystemOp.added).take maxTasks).map
      (fun a => (a.1, userCodeBase + (a.2 &&& 0xfff#64))) ∧
    t.jumps <+: t.tasks.map TCB.jump ∧
    (t.mode = .user → t.kernel.machine.cr3 = t.kernel.getAddrSpace ∧
      t.jumps.getLast?.map Jump.pml4Addr = some t.kernel.machine.cr3) ∧
    (t.mode = .halted → t.jumps = t.tasks.map TCB.jump ∨
      t.jumps = [] ∧ ∀ task ∈ t.tasks.head?, task.virtAddrSpace = 0#64) := by
  have h := hfresh.ordered.run hrun
  rw [List.nil_append] at h
  have hprogress := h.progress
  refine ⟨h.tasks_eq, ?_⟩
  unfold Progress at hprogress
  cases hm : t.mode with
  | kernelMain =>
    rw [hm] at hprogress
    refine ⟨?_, nofun, nofun⟩
    rw [hprogress.2]
    exact List.nil_prefix
  | user =>
    rw [hm] at hprogress
    obtain ⟨hcur, hcr3, hjumps⟩ := hprogress
    refine ⟨?_, fun _ => ⟨hcr3, ?_⟩, nofun⟩
    · rw [hjumps]
      exact (List.take_prefix ..).map TCB.jump
    · rw [hjumps, List.take_add_one, t.tasks_get hcur, List.map_append, List.getLast?_append, hcr3]
      rfl
  | halted =>
    rw [hm] at hprogress
    refine ⟨?_, nofun, fun _ => hprogress⟩
    rcases hprogress with hall | ⟨hnone, -⟩
    · rw [hall]
    · rw [hnone]
      exact List.nil_prefix

/-- The kernel right after boot. -/
def running : System := ⟨Userland.running.kernel, .kernelMain, []⟩

lemma running_fresh : running.Fresh := ⟨rfl, rfl, fun _ => rfl, rfl, rfl⟩

lemma running_addTask : ∃ k, running.kernel.addTask false 0#64 0x100000#64 = some k := by
  obtain ⟨-, m', -, -, -, -, -, hadd, -⟩ := Kernel.addTask_effect Userland.booted.inv Userland.taskServed_running false 0#64
  exact ⟨_, hadd⟩

/-- The allocator behind the first task: a PML4 and a table for its page, a stack, and three tables. -/
def firstTaskPmm : Pmm := (((reservedPmm.pmmAllocUnmapped 1).2.singles 1).pmmAllocUnmapped stackPages).2.singles 3

lemma firstTaskPmm_valid : firstTaskPmm.Valid := (((reservedPmm_valid.alloc 1).singles 1).alloc stackPages).singles 3

/-- Behind the first task and its PML4 the second stack finds its run, however many tables the PML4's page lacks. -/
lemma firstTaskPmm_stack : ∀ n < 4, (((firstTaskPmm.pmmAllocUnmapped 1).2.singles n).pmmAllocUnmapped stackPages).1 =
    (0x815 + n) * 4096 := by
  decide +kernel

lemma firstTaskPmm_freeSet : firstTaskPmm.freeSet ⊆ reservedPmm.freeSet ∧ 0x80 ≤ firstTaskPmm.freeSet.card := by
  have hv := reservedPmm_valid
  have hfree := (stocked_running (Nat.le_refl 0x100)).enough
  have hpages : stackPages = 15 := rfl
  obtain ⟨hsub1, hcard1⟩ := hv.freeSet_alloc 1
  obtain ⟨hsub2, hcard2⟩ := (hv.alloc 1).freeSet_singles 1
  obtain ⟨hsub3, hcard3⟩ := ((hv.alloc 1).singles 1).freeSet_alloc stackPages
  obtain ⟨hsub4, hcard4⟩ := (((hv.alloc 1).singles 1).alloc stackPages).freeSet_singles 3
  refine ⟨((hsub4.trans hsub3).trans hsub2).trans hsub1, ?_⟩
  rw [firstTaskPmm]
  omega

/-- What the first task leaves to the second. -/
lemma running_after {k : Kernel} (hadd : running.kernel.addTask false 0#64 0x100000#64 = some k) :
    (∃ rank, Session.Inv bootWindow rank ⟨k.machine, [0x800, 1]⟩) ∧ Clean k.machine ∧ k.machine.pmm = firstTaskPmm ∧
      k.sTasksCount = 1 ∧ (k.sTasks 0).virtAddrSpace = frameAddr 0x800 ∧ k.machine.cr3 = k.machine.sPml4Table := by
  have hinv : Session.Inv bootWindow (bootRank bootWindow (4 + ·)) ⟨running.kernel.machine, [1]⟩ := Userland.booted.inv
  obtain ⟨-, hpmm, hfree⟩ := Kernel.addTask_leaves hinv Userland.taskServed_running hadd
  obtain ⟨m1, m', hcreate, -, -, -, -, hadd', htop⟩ := Kernel.addTask_effect hinv Userland.taskServed_running false 0#64
  obtain ⟨rank, hinv'⟩ := htop.inv
  have hk := Option.some.inj (hadd.symm.trans hadd')
  have hmachine : k.machine = m' := by
    rw [hk]
    exact Kernel.addTcb_machine ..
  have hafter : k.machine.pmm = firstTaskPmm := by
    rw [hpmm]
    exact congrArg (Pmm.singles 3) Userland.running_afterStack
  refine ⟨⟨rank, hmachine ▸ hinv'⟩, fun f hf i => ?_, hafter, ?_, ?_, ?_⟩
  · rw [hafter] at hf
    have hold := (Pmm.mem_freeSet.mp hf).2
    rw [hfree f (by rw [hafter]; exact (Pmm.free_iff _ f).mp hold) i]
    exact clean_running (fun _ hg => reservedPmm_used hg) f (firstTaskPmm_freeSet.1 hf) i
  · rw [hk]
    rfl
  · rw [hk]
    rfl
  · have hcr3 := Kernel.addTask_stable (Machine.stable_cr3 taskFlags 0x1000#64) hcreate ?_ hadd
    · rw [hcr3, hmachine, hinv'.tables.pml4]
      rfl
    · obtain ⟨-, hnext, hsup, hnear, -⟩ := Userland.taskServed_running
      obtain ⟨m2, rank1, hcreate2, hn, -⟩ := hinv.tables.createUserPml4_effect hnext hsup hnear
      cases hcreate.symm.trans hcreate2
      exact hn.cr3

/-- Behind the first task there is room for a second one. -/
lemma running_second {k : Kernel} (hadd : running.kernel.addTask false 0#64 0x100000#64 = some k) :
    ∃ k', k.addTask false 0#64 0x200000#64 = some k' := by
  obtain ⟨⟨rank, hinv⟩, hclean, hpmm, hcount, -, hcr3⟩ := running_after hadd
  have hvalid := firstTaskPmm_valid
  have hnext : firstTaskPmm.NextRun 1 0x814 := hvalid.nextRun_of_alloc (by decide +kernel) (by decide)
  have hhand : firstTaskPmm.handOut 0x814 1 = (firstTaskPmm.pmmAllocUnmapped 1).2 := by
    rw [hvalid.alloc_eq (by decide) hnext]
  have hroom : Kernel.RoomForTask [0x800, 1] k := by
    have hle := missing_le k.machine.mem (frameAddr 0x814) 3 (frame k.machine.sPml4Table)
    generalize hn : missing k.machine.mem (frameAddr 0x814) 3 (frame k.machine.sPml4Table) = n at hle
    have hafter : Session.afterNewPml4 ⟨k.machine, [0x800, 1]⟩ 0x814 = (firstTaskPmm.pmmAllocUnmapped 1).2.singles n := by
      change (k.machine.pmm.handOut 0x814 1).singles
        (missing k.machine.mem (frameAddr 0x814) 3 (frame k.machine.sPml4Table)) = _
      rw [hn, hpmm, hhand]
    have hvalid' := (hvalid.alloc 1).singles n
    have hstack := hvalid'.nextRun_of_alloc (firstTaskPmm_stack n (by omega)) (by omega)
    have hcard1 := (hvalid.freeSet_alloc 1).2
    have hcard2 := ((hvalid.alloc 1).freeSet_singles n).2
    have hcard3 := hvalid'.card_handOut hstack
    have hfree := firstTaskPmm_freeSet.2
    have hpages : stackPages = 15 := rfl
    refine ⟨by rw [hcount]; decide, 0x814, by rw [hpmm]; exact hnext, ?_, 0x815 + n, by rw [hafter]; exact hstack, ?_⟩
    · rw [hn, hpmm, hhand]
      omega
    · rw [hafter]
      omega
  have hfunc : (0x200000#64 : Word).toNat < 2 ^ 51 := by decide
  obtain ⟨k', -, hadd', -⟩ := hroom.adds hinv hclean hfunc (.inl (congrArg frame hcr3)) false 0#64
  exact ⟨k', hadd'⟩

theorem tasks_in_order_running : ∃ t, Run System.step running
    [.addTask false 0#64 0x100000#64, .addTask false 0#64 0x200000#64, .startScheduler, .schedYield] t ∧
    t.jumps = t.tasks.map TCB.jump ∧ t.jumps.length = 2 := by
  obtain ⟨k, hk⟩ := running_addTask
  obtain ⟨k', hk'⟩ := running_second hk
  have htwo : Ordered [(0#64, 0x100000#64), (0#64, 0x200000#64)] { running with kernel := k' } :=
    (running_fresh.ordered.addTask rfl hk).addTask rfl hk'
  have hspace : (k'.sTasks 0).virtAddrSpace ≠ 0#64 := by
    obtain ⟨-, -, -, hcount, hfirst, -⟩ := running_after hk
    rw [Kernel.addTask_keeps hk' (by rw [hcount]; decide), hfirst]
    decide
  have hstart := htwo.enters (by rw [htwo.count]; decide) hspace
  have hcur : k'.sCurTask = 0 := htwo.progress.1
  have hcount : k'.sTasksCount = 2 := htwo.count
  have hswitch := (htwo.startScheduler rfl).switches (by
    rw [hstart]
    change k'.sCurTask + 1 < k'.sTasksCount
    omega)
  have hmode : (System.startScheduler { running with kernel := k' }).mode = .user := by
    rw [hstart]
    rfl
  have hrun : Run System.step running
      [.addTask false 0#64 0x100000#64, .addTask false 0#64 0x200000#64, .startScheduler, .schedYield] _ :=
    .cons ⟨rfl, k, hk, rfl⟩ (.cons ⟨rfl, k', hk', rfl⟩ (.cons ⟨rfl, rfl⟩ (.cons ⟨hmode, rfl⟩ (.nil _))))
  have hlength : (switchTask (System.startScheduler { running with kernel := k' })).jumps.length = 2 := by
    rw [hswitch, hstart]
    rfl
  have hall : (switchTask (System.startScheduler { running with kernel := k' })).kernel.sTasksCount = 2 := by
    rw [hswitch, hstart]
    exact hcount
  refine ⟨_, hrun, (tasks_in_order running_fresh hrun).2.1.eq_of_length ?_, hlength⟩
  rw [hlength, List.length_map, tasks_length, hall]

end System

end HaiirOS
