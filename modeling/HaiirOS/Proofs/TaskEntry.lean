import HaiirOS.Proofs.MmapSpec
import HaiirOS.Proofs.TaskOrder

/-!
# A task finds its pages

From the call of `add_task` until the scheduler enters the task, its code, data and stack stay mapped in its
page tables: another `add_task`, or the mmap and the stores of the tasks that run before it, do not
touch them.
-/

namespace HaiirOS

open AddressWord Runs

/-- The code, the data and the stack of a task are mapped in its page tables, as `add_task` mapped them. -/
structure TaskReady (mem : Mem) (task : TCB) (debug : Bool) (funcAddr : Word) : Prop where
  stack : ∃ b, ∀ i < stackPages, mmu mem (frame task.virtAddrSpace) (stackPage i) =
    some ⟨(b + stackPages - i) * 4096, taskFlags.rights⟩
  code : Kernel.WindowMapped mem (frame task.virtAddrSpace) userCodeBase funcAddr
  data : Kernel.WindowMapped mem (frame task.virtAddrSpace) (userCodeBase + textSegSize debug)
    (base funcAddr + textSegSize debug)

lemma TaskReady.congr {mem mem' : Mem} {task : TCB} {debug : Bool} {funcAddr : Word} (h : TaskReady mem task debug funcAddr)
    (hmmu : ∀ v, pageNo v / 512 = 0x80000 →
      mmu mem' (frame task.virtAddrSpace) v = mmu mem (frame task.virtAddrSpace) v) : TaskReady mem' task debug funcAddr := by
  have hsegment (virt phys : Word) (hvirt : 0x10000010000 ≤ virt.toNat ∧ virt.toNat < 0x10000020000)
      (hmapped : Kernel.WindowMapped mem (frame task.virtAddrSpace) virt phys) :
      Kernel.WindowMapped mem' (frame task.virtAddrSpace) virt phys := by
    intro i hi
    have hnear : pageNo (toPage (virt + BitVec.ofNat 64 (i * 4096))) / 512 = 0x80000 := by
      rw [pageNo, toPage, base_toNat, BitVec.toNat_add, BitVec.toNat_ofNat]
      omega
    rw [hmmu _ hnear]
    exact hmapped i hi
  have hdata : 0x10000010000 ≤ (userCodeBase + textSegSize debug).toNat ∧
      (userCodeBase + textSegSize debug).toNat < 0x10000020000 := by
    cases debug <;> decide
  obtain ⟨b, hstack⟩ := h.stack
  refine ⟨⟨b, fun i hi => ?_⟩, hsegment _ _ (by decide) h.code, hsegment _ _ hdata h.data⟩
  have hpages : stackPages = 15 := rfl
  have hno := stackPage_no i hi
  rw [hmmu _ (by omega)]
  exact hstack i hi

namespace Kernel

variable {w : WindowTables} {rank : Nat → Nat} {roots : List Nat} {k k' : Kernel} {debug : Bool} {taskName funcAddr : Word}
  {t b : Nat}

/-- What a served `add_task` does to the task table, and that the new task's pages are mapped. -/
lemma addTask_ready (h : Session.Inv w rank ⟨k.machine, roots⟩) (hcount : k.sTasksCount < maxTasks)
    (hs : Session.TaskServed ⟨k.machine, roots⟩ funcAddr t b) (hadd : k.addTask debug taskName funcAddr = some k') :
    t ∉ roots ∧ (∃ rank', Session.Inv w rank' ⟨k'.machine, t :: roots⟩) ∧ k'.sCurTask = k.sCurTask ∧
    k'.machine.sPml4Table = k.machine.sPml4Table ∧ k'.sTasksCount = k.sTasksCount + 1 ∧
    k'.sTasks = Function.update k.sTasks k.sTasksCount
      ⟨taskName, userStackTop, userCodeBase + (funcAddr &&& 0xfff#64), frameAddr t⟩ ∧
    TaskReady k'.machine.mem (k'.sTasks k.sTasksCount) debug funcAddr := by
  have hfunc := hs.func
  obtain ⟨m1, m', frames, hcreate, halloc, hnew, hlt, hb, hadd', hpages, -, hstack, hcode, hdata⟩ :=
    addTask_pages h hs debug taskName
  have hk := Option.some.inj (hadd.symm.trans hadd')
  rw [addTcb, if_neg (Nat.not_le.mpr hcount)] at hk
  subst hk
  obtain ⟨rank', hinv⟩ := hpages.inv
  have hroot : frame (frameAddr t) = t := frame_ofNat (by omega)
  have hno : stackPages = 15 := rfl
  refine ⟨hnew, ⟨rank', hinv⟩, rfl, ?_, rfl, rfl, ?_⟩
  · exact hinv.tables.pml4.trans h.tables.pml4.symm
  · change TaskReady m'.mem (Function.update k.sTasks k.sTasksCount _ k.sTasksCount) debug funcAddr
    rw [Function.update_self]
    refine ⟨⟨b, fun i hi => ?_⟩, ?_, ?_⟩
    · have hsize : (stackPage i).toNat < 2 ^ 48 := by
        rw [stackPage, toPage, base_toNat, BitVec.toNat_sub, BitVec.toNat_ofNat, userStackTop, BitVec.toNat_ofNat]
        have hsize : frameSize = 4096 := rfl
        omega
      have halign : (stackPage i).toNat % 4096 = 0 := by
        rw [stackPage, toPage, base_toNat]
        omega
      rw [hroot]
      exact hpages.pages (stackPage i) halign hsize _ (by rw [stackPage_no i hi]; exact hstack i hi)
    · rw [hroot]
      exact windowMapped hpages (by decide) (by omega) hcode
    · rw [hroot]
      have hvirt : (userCodeBase + textSegSize debug).toNat < 2 ^ 47 := by cases debug <;> decide
      have hphys : (base funcAddr + textSegSize debug).toNat < 2 ^ 52 := by
        have hsize : (textSegSize debug).toNat < 0x10000 := by cases debug <;> decide
        rw [BitVec.toNat_add, base_toNat]
        omega
      exact windowMapped hpages hvirt hphys hdata

end Kernel

namespace System

/-- The arguments of a call of `add_task`. -/
structure AddedTask where
  debug : Bool
  taskName : Word
  funcAddr : Word

def addedTask : SystemOp → Option AddedTask
  | .addTask debug taskName funcAddr => some ⟨debug, taskName, funcAddr⟩
  | _ => none

/-- The PML4s of the tasks, the newest first, and that of the kernel. -/
def roots (s : System) : List Nat :=
  (s.tasks.map fun task => frame task.virtAddrSpace).reverse ++ [frame s.kernel.machine.sPml4Table]

def session (s : System) : Session := ⟨s.kernel.machine, s.roots⟩

/-- `add_task` has room for the task and all of its allocations succeed, mmap keeps off the first 8 MiB and finds the
frames that it needs for tables, and the stores of a task miss the page tables. -/
def Served (s : System) : SystemOp → Prop
  | .addTask _ _ funcAddr => s.kernel.sTasksCount < maxTasks ∧ ∃ t b, s.session.TaskServed funcAddr t b
  | .mmap addr len _ => (∀ i < mmapPagesCount len, 0x800 ≤ pageNo (mmapPage addr i)) ∧
      Supplied s.kernel.machine.mem
        (missingRange s.kernel.machine.mem (frame s.kernel.getAddrSpace) (mmapPage addr) 0 (mmapPagesCount len)).card
        (s.kernel.machine.pmm.pmmAllocUnmapped (mmapPagesCount len)).2
  | .stores mem => ∀ t (i : Fin 512), s.session.IsTable t → mem (slot t i) = s.kernel.machine.mem (slot t i)
  | _ => True

/-- The tasks that are still to run. -/
def Waits (s : System) (i : Nat) : Prop := i < s.kernel.sTasksCount ∧ (s.mode = .kernelMain ∨ s.kernel.sCurTask < i)

/-- The invariant of served runs: the page tables are in order, every task has its own PML4, and the tasks that are
still to run have their pages. -/
structure Prepared (w : WindowTables) (added : List AddedTask) (s : System) : Prop where
  ordered : s.Ordered (added.map fun a => (a.taskName, a.funcAddr))
  inv : ∃ rank, s.session.Inv w rank
  apart : s.roots.Nodup
  pointers : ∀ i < s.kernel.sTasksCount,
    (s.kernel.sTasks i).virtAddrSpace = frameAddr (frame (s.kernel.sTasks i).virtAddrSpace)
  ready : ∀ i, s.Waits i → ∀ a ∈ added[i]?, TaskReady s.kernel.machine.mem (s.kernel.sTasks i) a.debug a.funcAddr

variable {w : WindowTables} {rank : Nat → Nat} {s t : System} {op : SystemOp} {added : List AddedTask}

lemma root_mem (s : System) {i : Nat} (hi : i < s.kernel.sTasksCount) : frame (s.kernel.sTasks i).virtAddrSpace ∈ s.roots := by
  apply List.mem_append_left
  rw [List.mem_reverse, tasks, List.map_map]
  exact List.mem_map.mpr ⟨i, List.mem_range.mpr hi, rfl⟩

namespace Prepared

lemma root_apart (h : s.Prepared w added) {i : Nat} (hi : i < s.kernel.sTasksCount) :
    frame (s.kernel.sTasks i).virtAddrSpace ≠ frame s.kernel.machine.sPml4Table := by
  intro heq
  have hapart := (List.nodup_append.mp h.apart).2.2
  refine hapart (frame (s.kernel.sTasks i).virtAddrSpace) ?_ _ (List.mem_singleton_self _) heq
  rw [List.mem_reverse, tasks, List.map_map]
  exact List.mem_map.mpr ⟨i, List.mem_range.mpr hi, rfl⟩

lemma roots_inj (h : s.Prepared w added) {i j : Nat} (hi : i < s.kernel.sTasksCount) (hj : j < s.kernel.sTasksCount)
    (heq : frame (s.kernel.sTasks i).virtAddrSpace = frame (s.kernel.sTasks j).virtAddrSpace) : i = j := by
  have hnodup := List.nodup_reverse.mp (List.nodup_append.mp h.apart).1
  rw [tasks, List.map_map] at hnodup
  exact List.inj_on_of_nodup_map hnodup (List.mem_range.mpr hi) (List.mem_range.mpr hj) heq

lemma addTask (h : s.Prepared w added) (hmode : s.mode = .kernelMain) {debug : Bool} {taskName funcAddr : Word}
    {k : Kernel} (hserved : s.Served (.addTask debug taskName funcAddr))
    (hk : s.kernel.addTask debug taskName funcAddr = some k) :
    Prepared w (added ++ [⟨debug, taskName, funcAddr⟩]) { s with kernel := k } := by
  obtain ⟨hcount, root, b, hs⟩ := hserved
  obtain ⟨rank, hinv⟩ := h.inv
  obtain ⟨hnew, ⟨rank', hinv'⟩, -, hpml4, hcount', htasks, hready⟩ := Kernel.addTask_ready hinv hcount hs hk
  have hlt : root < 2 ^ 35 :=
    (hinv'.tables.frame_ok root (by rw [(hinv'.roots root).mp List.mem_cons_self]; decide)).2.2.1
  have hroot : frame (frameAddr root) = root := frame_ofNat (by omega)
  have hold (i : Nat) (hi : i < s.kernel.sTasksCount) : k.sTasks i = s.kernel.sTasks i := Kernel.addTask_keeps hk hi
  have hlast : (k.sTasks s.kernel.sTasksCount).virtAddrSpace = frameAddr root := by
    rw [htasks, Function.update_self]
  have hroots : roots { s with kernel := k } = root :: s.roots := by
    have hmap : (List.range s.kernel.sTasksCount).map k.sTasks = s.tasks :=
      List.map_congr_left fun i hi => hold i (List.mem_range.mp hi)
    unfold roots tasks
    simp only [hcount', hpml4, List.range_succ, List.map_append, hmap]
    simp only [List.map_cons, List.map_nil, List.reverse_append, List.reverse_cons, List.reverse_nil, List.nil_append,
      List.cons_append, hlast, hroot]
    rfl
  refine ⟨?_, ⟨rank', ?_⟩, ?_, fun i hi => ?_, fun i hi a ha => ?_⟩
  · rw [List.map_append]
    exact h.ordered.addTask hmode hk
  · rw [session, hroots]
    exact hinv'
  · rw [hroots]
    exact List.nodup_cons.mpr ⟨hnew, h.apart⟩
  · change i < k.sTasksCount at hi
    rw [hcount'] at hi
    change (k.sTasks i).virtAddrSpace = frameAddr (frame (k.sTasks i).virtAddrSpace)
    by_cases heq : i = s.kernel.sTasksCount
    · rw [heq, hlast, hroot]
    · rw [hold i (by omega)]
      exact h.pointers i (by omega)
  · have hi' : i < k.sTasksCount := hi.1
    have hlen := h.ordered.count
    rw [List.length_map] at hlen
    rw [hcount'] at hi'
    change TaskReady k.machine.mem (k.sTasks i) a.debug a.funcAddr
    by_cases heq : i = s.kernel.sTasksCount
    · have hindex : i = added.length := by omega
      rw [hindex, List.getElem?_append_right (Nat.le_refl _), Nat.sub_self] at ha
      cases ha
      rw [heq]
      exact hready
    · rw [List.getElem?_append_left (by omega)] at ha
      rw [hold i (by omega)]
      have hwait : s.Waits i := ⟨by omega, Or.inl hmode⟩
      refine (h.ready i hwait a ha).congr fun v hv => ?_
      refine (Kernel.addTask_leaves hinv hs hk).1 _ (s.root_mem hwait.1) ?_ v hv
      rw [← hinv.kernelRoot_eq]
      exact h.root_apart hwait.1

/-- What keeps the task table and, but for the load of a task's tables, the machine. -/
lemma of_tables (h : s.Prepared w added) (hordered : t.Ordered (added.map fun a => (a.taskName, a.funcAddr)))
    (htasks : t.kernel.sTasks = s.kernel.sTasks) (hcount : t.kernel.sTasksCount = s.kernel.sTasksCount)
    (hmachine : t.kernel.machine = s.kernel.machine ∨ ∃ i < s.kernel.sTasksCount,
      t.kernel.machine = { s.kernel.machine with cr3 := (s.kernel.sTasks i).virtAddrSpace })
    (hwaits : ∀ i, t.Waits i → s.Waits i) : t.Prepared w added := by
  have hsame : t.kernel.machine.mem = s.kernel.machine.mem ∧
      t.kernel.machine.sPml4Table = s.kernel.machine.sPml4Table := by
    rcases hmachine with hm | ⟨i, -, hm⟩ <;> exact hm ▸ ⟨rfl, rfl⟩
  have htable : t.tasks = s.tasks := by rw [tasks, tasks, htasks, hcount]
  have hroots : t.roots = s.roots := by rw [roots, roots, htable, hsame.2]
  obtain ⟨rank, hinv⟩ := h.inv
  refine ⟨hordered, ?_, ?_, fun i hi => ?_, fun i hi a ha => ?_⟩
  · rw [session, hroots]
    rcases hmachine with hm | ⟨i, hi, hm⟩
    · exact ⟨rank, hm ▸ hinv⟩
    · have hsound : Session.Sound s.session (.loadCr3 (frame (s.kernel.sTasks i).virtAddrSpace)) := s.root_mem hi
      obtain ⟨s', rank', hexec, hinv'⟩ := hinv.sound_step hsound
      cases hexec
      rw [← h.pointers i hi] at hinv'
      rw [hm]
      exact ⟨rank', hinv'⟩
  · rw [hroots]
    exact h.apart
  · rw [hcount] at hi
    rw [htasks]
    exact h.pointers i hi
  · rw [htasks, hsame.1]
    exact h.ready i (hwaits i hi) a ha

lemma startScheduler (h : s.Prepared w added) (hmode : s.mode = .kernelMain) : s.startScheduler.Prepared w added := by
  have hordered := h.ordered.startScheduler hmode
  have hwaits (i : Nat) (hi : i < s.kernel.sTasksCount) : s.Waits i := ⟨hi, Or.inl hmode⟩
  unfold System.startScheduler at hordered ⊢
  by_cases hnone : (s.kernel.sTasks 0).userFunc = 0#64 ∨ (s.kernel.sTasks 0).userStack = 0#64 ∨
      (s.kernel.sTasks 0).virtAddrSpace = 0#64
  · rw [if_pos hnone] at hordered ⊢
    exact h.of_tables hordered rfl rfl (Or.inl rfl) fun i hi => hwaits i hi.1
  · rw [if_neg hnone] at hordered ⊢
    refine h.of_tables hordered rfl rfl (Or.inr ⟨0, ?_, rfl⟩) fun i hi => hwaits i hi.1
    by_contra hempty
    rw [h.ordered.unset 0 (Nat.le_of_not_lt hempty)] at hnone
    exact hnone (Or.inl rfl)

lemma switchTask (h : s.Prepared w added) (hmode : s.mode = .user) : s.switchTask.Prepared w added := by
  have hordered := h.ordered.switchTask hmode
  have hend := h.ordered.unset_iff (s.kernel.sCurTask + 1)
  unfold System.switchTask at hordered ⊢
  by_cases hlast : s.kernel.sTasksCount ≤ s.kernel.sCurTask + 1
  · rw [if_pos (hend.mpr hlast)] at hordered ⊢
    refine h.of_tables hordered rfl rfl (Or.inl rfl) fun i hi => ⟨hi.1, Or.inr ?_⟩
    exact Nat.lt_of_succ_lt (hi.2.resolve_left nofun)
  · rw [if_neg (hend.not.mpr hlast)] at hordered ⊢
    refine h.of_tables hordered rfl rfl (Or.inr ⟨_, Nat.lt_of_not_le hlast, rfl⟩) fun i hi => ⟨hi.1, Or.inr ?_⟩
    exact Nat.lt_of_succ_lt (hi.2.resolve_left nofun)

/-- What a task changes in memory and in the allocator, if it leaves the tables in order and the pages of the tasks
that are still to run alone. -/
lemma of_machine (h : s.Prepared w added) (hmode : s.mode = .user) {m : Machine} (hcr3 : m.cr3 = s.kernel.machine.cr3)
    (hinv : ∃ rank, Session.Inv w rank ⟨m, s.roots⟩)
    (hmmu : ∀ i, s.kernel.sCurTask < i → i < s.kernel.sTasksCount → ∀ v, pageNo v / 512 = 0x80000 →
      mmu m.mem (frame (s.kernel.sTasks i).virtAddrSpace) v =
        mmu s.kernel.machine.mem (frame (s.kernel.sTasks i).virtAddrSpace) v) :
    Prepared w added { s with kernel := { s.kernel with machine := m } } := by
  obtain ⟨rank, hold⟩ := h.inv
  obtain ⟨rank', hnew⟩ := hinv
  have hpml4 : m.sPml4Table = s.kernel.machine.sPml4Table := hnew.tables.pml4.trans hold.tables.pml4.symm
  have hroots : roots { s with kernel := { s.kernel with machine := m } } = s.roots := by
    unfold roots
    rw [hpml4]
    rfl
  refine ⟨h.ordered.of_machine hcr3, ⟨rank', ?_⟩, ?_, h.pointers, fun i hi a ha => ?_⟩
  · rw [session, hroots]
    exact hnew
  · rw [hroots]
    exact h.apart
  · have hlt : s.kernel.sCurTask < i := by
      refine hi.2.resolve_left fun hkernel => ?_
      rw [hmode] at hkernel
      cases hkernel
    exact (h.ready i ⟨hi.1, Or.inr hlt⟩ a ha).congr fun v hv => hmmu i hlt hi.1 v hv

lemma mmap (h : s.Prepared w added) (hmode : s.mode = .user) {addr len r : Word} {prot : BitVec 32} {k : Kernel}
    (hserved : s.Served (.mmap addr len prot)) (hk : s.kernel.mmapSyscall addr len prot = some (r, k)) :
    Prepared w added { s with kernel := k } := by
  obtain ⟨hpage, hsup⟩ := hserved
  obtain ⟨rank, hinv⟩ := h.inv
  have hprogress := h.ordered.progress
  rw [Progress, hmode] at hprogress
  have hcur := hprogress.1
  have hroot := s.root_mem hcur
  obtain ⟨b, m', rank', -, hmmap, hl⟩ := Kernel.mmapSyscall_spec hinv hroot (h.pointers _ hcur) prot hpage hsup
  cases hk.symm.trans hmmap
  refine h.of_machine hmode hl.cr3 ⟨rank', hl.inv⟩ fun i hlt hi v hv => ?_
  refine hl.others _ v ((hinv.roots _).mp (s.root_mem hi)) (by omega) fun j hj => ?_
  by_cases hno : pageNo v = pageNo (mmapPage addr j)
  · right
    refine ⟨fun heq => ?_, slot_of_near (by rw [← hno]; exact hv)⟩
    have hsame := h.roots_inj hi hcur heq
    omega
  · exact Or.inl hno

lemma stores (h : s.Prepared w added) (hmode : s.mode = .user) {mem : Mem} (hserved : s.Served (.stores mem)) :
    Prepared w added { s with kernel := { s.kernel with machine := { s.kernel.machine with mem := mem } } } := by
  obtain ⟨rank, hinv⟩ := h.inv
  have hmem (t : Nat) (i : Fin 512) (ht : rank t ≠ 0) : mem (slot t i) = s.kernel.machine.mem (slot t i) :=
    hserved t i (hinv.reach t ht)
  have hinv' : Session.Inv w rank ⟨{ s.kernel.machine with mem := mem }, s.roots⟩ :=
    hinv.of_same (fun t i ht _ => hmem t i ht) hinv.tables.valid hinv.tables.low_used
      (fun t ht => (hinv.tables.frame_ok t ht).2.2.2) rfl hinv.tables.cr3
  refine h.of_machine hmode rfl ⟨rank, hinv'⟩ fun i _ hi v _ => ?_
  have hrank := (hinv.roots _).mp (s.root_mem hi)
  refine hinv.tables.mmuWalk_eq (fun t i ht => hmem t i (by omega)) hrank (fun p hp => ?_) .all
  have hleaf := hinv.tables.rank_leafTable hrank hp
  exact hmem p (index v 1) (by omega)

lemma step (h : s.Prepared w added) (hserved : s.Served op) (ht : s.step op t) :
    t.Prepared w (added ++ (addedTask op).toList) := by
  have hnone : added ++ (none : Option AddedTask).toList = added := List.append_nil added
  cases op with
  | addTask debug taskName funcAddr =>
    obtain ⟨hmode, k, hk, rfl⟩ := ht
    exact h.addTask hmode hserved hk
  | startScheduler =>
    obtain ⟨hmode, rfl⟩ := ht
    exact hnone.symm ▸ h.startScheduler hmode
  | schedYield =>
    obtain ⟨hmode, rfl⟩ := ht
    exact hnone.symm ▸ h.switchTask hmode
  | mmap addr len prot =>
    obtain ⟨hmode, r, k, hk, rfl⟩ := ht
    exact hnone.symm ▸ h.mmap hmode hserved hk
  | stores mem =>
    obtain ⟨hmode, rfl⟩ := ht
    exact hnone.symm ▸ h.stores hmode hserved

lemma run {ops : List SystemOp} (h : s.Prepared w added) (hrun : Run System.step s ops t)
    (hserved : Along Served System.step s ops) : t.Prepared w (added ++ ops.filterMap addedTask) := by
  induction hrun generalizing added with
  | nil s =>
    rw [List.filterMap_nil, List.append_nil]
    exact h
  | @cons s u _ op ops ht _ ih =>
    have hnext := ih (h.step hserved.1 ht) (hserved.2 u ht)
    have hadded : (op :: ops).filterMap addedTask = (addedTask op).toList ++ ops.filterMap addedTask := by
      rw [List.filterMap_cons]
      cases addedTask op <;> rfl
    rw [hadded, ← List.append_assoc]
    exact hnext

/-- What a task is entered with, if it was still to run. -/
lemma entered (h : s.Prepared w added) {i : Nat} (hi : s.Waits i) : ∃ a, added[i]? = some a ∧
    (s.kernel.sTasks i).jump =
      ⟨userStackTop, userCodeBase + (a.funcAddr &&& 0xfff#64), (s.kernel.sTasks i).virtAddrSpace⟩ ∧
    TaskReady s.kernel.machine.mem (s.kernel.sTasks i) a.debug a.funcAddr := by
  have hcount := h.ordered.count
  rw [List.length_map] at hcount
  have hlt := hi.1
  have hget : added[i]? = some added[i] := List.getElem?_eq_getElem (by omega)
  obtain ⟨pml4, htask⟩ := h.ordered.entries i hlt (added[i].taskName, added[i].funcAddr)
    (by rw [List.getElem?_map, hget]; rfl)
  refine ⟨added[i], hget, ?_, h.ready i hi _ hget⟩
  rw [htask]
  rfl

end Prepared

lemma Fresh.prepared (h : s.Fresh) (hinv : Session.Inv w rank s.session) : s.Prepared w [] := by
  have htasks : s.tasks = [] := List.eq_nil_of_length_eq_zero (by rw [tasks_length, h.count])
  refine ⟨h.ordered, ⟨rank, hinv⟩, ?_, fun i hi => ?_, fun i hi => ?_⟩
  · rw [roots, htasks]
    exact List.nodup_singleton _
  · rw [h.count] at hi
    exact absurd hi (Nat.not_lt_zero i)
  · have hlt := hi.1
    rw [h.count] at hlt
    exact absurd hlt (Nat.not_lt_zero i)

/-- The scheduler enters a task: at its entry point and on its stack, with its page tables loaded, which map its code,
its data and its stack as `add_task` mapped them. -/
theorem task_entered (hinv : Session.Inv w rank s.session) (hfresh : s.Fresh) {ops : List SystemOp} {u : System}
    (hrun : Run System.step s ops u) (hserved : Along Served System.step s ops)
    (hop : op = .startScheduler ∨ op = .schedYield) (hstep : u.step op t) (hmode : t.mode = .user) :
    ∃ a, (ops.filterMap addedTask)[t.kernel.sCurTask]? = some a ∧
      t.jumps = u.jumps ++ [⟨userStackTop, userCodeBase + (a.funcAddr &&& 0xfff#64), t.kernel.machine.cr3⟩] ∧
      t.kernel.machine.cr3 = (t.kernel.sTasks t.kernel.sCurTask).virtAddrSpace ∧
      TaskReady t.kernel.machine.mem (t.kernel.sTasks t.kernel.sCurTask) a.debug a.funcAddr := by
  have hu := (hfresh.prepared hinv).run hrun hserved
  rw [List.nil_append] at hu
  have hprogress := hu.ordered.progress
  unfold Progress at hprogress
  rcases hop with rfl | rfl
  · obtain ⟨hkernel, rfl⟩ := hstep
    rw [hkernel] at hprogress
    have hcur := hprogress.1
    unfold System.startScheduler at hmode ⊢
    by_cases hnone : (u.kernel.sTasks 0).userFunc = 0#64 ∨ (u.kernel.sTasks 0).userStack = 0#64 ∨
        (u.kernel.sTasks 0).virtAddrSpace = 0#64
    · rw [if_pos hnone] at hmode
      cases hmode
    · have hwait : u.Waits 0 := by
        refine ⟨?_, Or.inl hkernel⟩
        by_contra hempty
        rw [hu.ordered.unset 0 (Nat.le_of_not_lt hempty)] at hnone
        exact hnone (Or.inl rfl)
      obtain ⟨a, ha, hjump, hready⟩ := hu.entered hwait
      rw [if_neg hnone, hjump]
      refine ⟨a, ?_, rfl, ?_, ?_⟩
      · change (ops.filterMap addedTask)[u.kernel.sCurTask]? = some a
        rw [hcur]
        exact ha
      · change (u.kernel.sTasks 0).virtAddrSpace = (u.kernel.sTasks u.kernel.sCurTask).virtAddrSpace
        rw [hcur]
      · change TaskReady u.kernel.machine.mem (u.kernel.sTasks u.kernel.sCurTask) a.debug a.funcAddr
        rw [hcur]
        exact hready
  · obtain ⟨huser, rfl⟩ := hstep
    unfold System.switchTask at hmode ⊢
    by_cases hend : u.kernel.sCurTask + 1 ≥ maxTasks ∨ (u.kernel.sTasks (u.kernel.sCurTask + 1)).userFunc = 0#64
    · rw [if_pos hend] at hmode
      cases hmode
    · have hlt := Nat.lt_of_not_le ((hu.ordered.unset_iff _).not.mp hend)
      obtain ⟨a, ha, hjump, hready⟩ := hu.entered ⟨hlt, Or.inr (Nat.lt_succ_self _)⟩
      rw [if_neg hend, hjump]
      exact ⟨a, ha, rfl, rfl, hready⟩

lemma startScheduler_cur (s : System) : s.startScheduler.kernel.sCurTask = s.kernel.sCurTask := by
  unfold startScheduler
  by_cases h : (s.kernel.sTasks 0).userFunc = 0#64 ∨ (s.kernel.sTasks 0).userStack = 0#64 ∨
      (s.kernel.sTasks 0).virtAddrSpace = 0#64
  · rw [if_pos h]
  · rw [if_neg h]
    rfl

lemma running_inv : Session.Inv bootWindow (bootRank bootWindow (4 + ·)) running.session := Userland.booted.inv

theorem task_entered_running : ∃ u t, Run System.step running [.addTask false 0#64 0x100000#64] u ∧
    u.step .startScheduler t ∧ t.mode = .user ∧
    TaskReady t.kernel.machine.mem (t.kernel.sTasks t.kernel.sCurTask) false 0x100000#64 := by
  obtain ⟨k, hk⟩ := running_addTask
  have hserved : running.Served (.addTask false 0#64 0x100000#64) :=
    ⟨by decide, 0x800, 0x802, Userland.taskServed_running⟩
  have hrun : Run System.step running [.addTask false 0#64 0x100000#64] { running with kernel := k } :=
    .cons ⟨rfl, k, hk, rfl⟩ (.nil _)
  have halong : Along Served System.step running [.addTask false 0#64 0x100000#64] := ⟨hserved, fun _ _ => trivial⟩
  have hstep : System.step { running with kernel := k } .startScheduler (startScheduler { running with kernel := k }) :=
    ⟨rfl, rfl⟩
  obtain ⟨-, -, hzero, -, hcount, htasks, -⟩ :=
    Kernel.addTask_ready running_inv (by decide) Userland.taskServed_running hk
  have hmode : (startScheduler { running with kernel := k }).mode = .user := by
    have htask : k.sTasks 0 = ⟨0#64, userStackTop, userCodeBase + (0x100000#64 &&& 0xfff#64), frameAddr 0x800⟩ := by
      rw [htasks]
      rfl
    unfold startScheduler
    rw [if_neg]
    · rfl
    · change ¬ ((k.sTasks 0).userFunc = 0#64 ∨ (k.sTasks 0).userStack = 0#64 ∨ (k.sTasks 0).virtAddrSpace = 0#64)
      rw [htask]
      decide
  obtain ⟨a, ha, -, -, hready⟩ := task_entered running_inv running_fresh hrun halong (Or.inl rfl) hstep hmode
  have hcur : (startScheduler { running with kernel := k }).kernel.sCurTask = 0 := by
    rw [startScheduler_cur]
    exact hzero
  rw [hcur] at ha
  cases ha
  exact ⟨_, _, hrun, hstep, hmode, hready⟩

end System

end HaiirOS
