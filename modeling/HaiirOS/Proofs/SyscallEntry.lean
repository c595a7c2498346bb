import HaiirOS.Syscall.Entry

/-!
# What the system call entry hands over and gives back
-/

namespace HaiirOS

open X86 (Reg State PageMap Bytes Accessible word pokeAll stackSlot)

/-! ### The run of the entry -/

/-- What the linker and the boot loader promise about the entry's own data: it can be accessed, and
the table and the stack do not share memory. -/
structure EntryImage.Loaded (k : EntryImage) (pm : PageMap) : Prop where
  table : ∀ n < syscallsCount, Accessible pm (k.entry (BitVec.ofNat 64 n))
  stack : ∀ j < 2, Accessible pm (stackSlot k.kernelSyscallStack j)
  apart : ∀ n < syscallsCount, ∀ i < 8, ∀ i' < 8,
    X86.phys pm (stackSlot k.kernelSyscallStack 0 + BitVec.ofNat 64 i) ≠
      X86.phys pm (k.entry (BitVec.ofNat 64 n) + BitVec.ofNat 64 i')

namespace EntryImage

/-- The handler's address, loaded after the saves. -/
def target (k : EntryImage) (pm : PageMap) (s : State) : BitVec 64 :=
  word pm (pokeAll pm s.mem k.kernelSyscallStack [s.regs .rsp]) (k.entry (s.regs .rax))

/-- The state in which the handler starts, from the one after the saves. -/
def called (k : EntryImage) (pm : PageMap) (s : State) : State where
  regs := fun
    | .rax => k.target pm s
    | .rbx => s.regs .rsp
    | .rsp => stackSlot k.kernelSyscallStack 1
    | r => s.regs r
  rip := k.target pm s
  interrupts := true
  mem := pokeAll pm s.mem k.kernelSyscallStack [s.regs .rsp, k.back]
  written := stackSlot k.kernelSyscallStack 1 :: stackSlot k.kernelSyscallStack 0 :: s.written

/-- The instructions after the saves. -/
def callHandler (k : EntryImage) : List X86.Instr :=
  [.mov .rbx .rsp, .movImm .rsp k.kernelSyscallStack, .push .rbx, .sti,
    .load .rax k.syscallTable .rax, .call .rax k.back]

variable {k : EntryImage} {pm : PageMap} {s : State}

lemma call_run (hstack : ∀ j < 2, Accessible pm (stackSlot k.kernelSyscallStack j))
    (hload : Accessible pm (k.entry (s.regs .rax))) :
    X86.exec pm k.callHandler s = (k.called pm s, []) := by
  have h0 : Accessible pm (k.kernelSyscallStack - 8#64) := hstack 0 (by decide)
  have hslot : stackSlot k.kernelSyscallStack 1 = k.kernelSyscallStack - 8#64 - 8#64 :=
    X86.stackSlot_succ _ 0
  have h1 : Accessible pm (k.kernelSyscallStack - 8#64 - 8#64) := hslot ▸ hstack 1 (by decide)
  rw [entry] at hload
  simp only [callHandler, X86.exec, X86.step, State.pushWord, State.store, State.set,
    Function.update_self, ne_eq, reduceCtorEq, not_false_eq_true, Function.update_of_ne, h0, h1, hload,
    if_true, Option.map_some]
  congr 1
  simp only [called, State.mk.injEq, true_and, hslot]
  refine ⟨?_, rfl, rfl, rfl⟩
  funext r
  cases r <;> rfl

lemma entry_run (hk : k.Loaded pm)
    (hslots : ∀ j < savedRegs.length, Accessible pm (stackSlot (s.regs .rsp) j))
    (hload : Accessible pm (k.entry (s.regs .rax))) :
    X86.exec pm (syscallEntry k) s = (k.called pm (s.pushed pm savedRegs), []) := by
  have hload' : Accessible pm (k.entry ((s.pushed pm savedRegs).regs .rax)) := hload
  exact (X86.exec_pushes (by decide) hslots).trans (call_run hk.stack hload')

end EntryImage

/-! ### The run of the exit -/

/-- The state after `sysret`, where `rsp` is the user's stack pointer at the entry. -/
def returned (pm : PageMap) (rsp : BitVec 64) (s : State) : State :=
  let saved r := word pm s.mem (stackSlot rsp (savedRegs.idxOf r))
  { s with
    regs := fun r => if r = .r11 then 0x200#64 else if r = .rsp then rsp
      else if r ∈ savedRegs then saved r else s.regs r
    rip := saved .rcx
    interrupts := true }

variable {pm : PageMap} {k : EntryImage} {rsp : BitVec 64} {s : State}

lemma restore_run (hrsp : s.regs .rsp = rsp - BitVec.ofNat 64 (8 * savedRegs.length))
    (hslots : ∀ j < savedRegs.length, Accessible pm (stackSlot rsp j)) :
    X86.exec pm (savedRegs.reverse.map .pop ++ [.movImm .r11 0x200#64, .sysret]) s =
      (returned pm rsp s, []) := by
  have hlen : savedRegs.length = 14 := rfl
  have hslot (j : Nat) (hj : j < savedRegs.length) :
      s.regs .rsp + BitVec.ofNat 64 (8 * j) = stackSlot rsp (13 - j) := by
    rw [hrsp]
    apply BitVec.eq_of_toNat_eq
    simp only [stackSlot, hlen, BitVec.toNat_add, BitVec.toNat_sub, BitVec.toNat_ofNat]
    omega
  have hback : s.regs .rsp + BitVec.ofNat 64 (8 * savedRegs.length) = rsp := by
    rw [hrsp]
    exact BitVec.sub_add_cancel ..
  have hindex (j : Nat) (hj : j < savedRegs.length) (hback : 13 - j < savedRegs.length) :
      savedRegs.idxOf savedRegs[13 - j] = 13 - j :=
    List.Nodup.idxOf_getElem (by decide) _ _
  rw [X86.exec_pops (w := fun r => word pm s.mem (stackSlot rsp (savedRegs.idxOf r))) (by decide)]
  · rw [X86.exec_cons rfl, X86.exec_cons rfl, X86.exec, returned]
    congr 1
    simp only [State.set, State.mk.injEq, hback, List.length_reverse, List.mem_reverse, and_true]
    refine ⟨?_, ?_, ?_⟩
    · funext r
      by_cases hr : r = .r11
      · subst hr
        rfl
      · rw [Function.update_of_ne hr, if_neg hr]
    · rfl
    · rw [Function.update_self]
      rfl
  · intro j hj
    rw [List.length_reverse] at hj
    rw [hslot j hj]
    exact hslots _ (by omega)
  · intro j r hr
    have hj : j < savedRegs.length := by
      have h := List.getElem?_eq_some_iff.mp hr
      rw [← List.length_reverse]
      exact h.1
    obtain ⟨hlt, rfl⟩ := List.getElem?_eq_some_iff.mp (List.getElem?_reverse hj ▸ hr)
    rw [hslot j hj]
    congr 2
    exact (hindex j hj (by omega)).symm

lemma exit_run (hstack : Accessible pm (stackSlot k.kernelSyscallStack 0))
    (hrsp : s.regs .rsp = stackSlot k.kernelSyscallStack 0)
    (hword : word pm s.mem (stackSlot k.kernelSyscallStack 0) =
      rsp - BitVec.ofNat 64 (8 * savedRegs.length))
    (hslots : ∀ j < savedRegs.length, Accessible pm (stackSlot rsp j)) :
    X86.exec pm syscallExit s = (returned pm rsp s, []) := by
  have hpop : X86.step pm { s with interrupts := false } (.pop .rsp) =
      some ({ s with interrupts := false }.set .rsp (rsp - BitVec.ofNat 64 (8 * savedRegs.length))) := by
    simp only [X86.step, State.set, hrsp, if_pos hstack, hword, Function.update_idem]
  rw [syscallExit, List.cons_append, List.cons_append, List.nil_append,
    X86.exec_cons (t := { s with interrupts := false }) rfl, X86.exec_cons hpop]
  rw [restore_run (Function.update_self Reg.rsp _ s.regs) hslots]
  congr 1
  simp only [returned, State.set, State.mk.injEq, and_true]
  funext r
  by_cases hr : r = .rsp
  · subst hr
    rfl
  · rw [Function.update_of_ne hr, if_neg hr]

/-! ### The convention -/

/-- The registers of a handler's arguments. -/
def handlerArgs : List Reg := [.rdi, .rsi, .rdx, .rcx, .r8, .r9]

/-- The user's registers for these arguments. -/
def userArgs : List Reg := [.rdi, .rsi, .rdx, .r10, .r8, .r9]

/-- The registers that a function of the System V ABI keeps for its caller. -/
def calleeSaved : List Reg := [.rbx, .rbp, .r12, .r13, .r14, .r15]

/-- The registers that a system call keeps for the user. -/
def keptRegs : List Reg :=
  [.rsp, .rbx, .rbp, .rsi, .rdi, .rdx, .r8, .r9, .r10, .r12, .r13, .r14, .r15]

/-- What a handler does, from its start at `h` to its return at `h'`, that follows the ABI and keeps
the words saved from `rsp` down and the user's stack pointer. -/
structure HandlerRun (k : EntryImage) (pm : PageMap) (rsp : BitVec 64) (h h' : State) : Prop where
  kept : ∀ r ∈ calleeSaved, h'.regs r = h.regs r
  popped : h'.regs .rsp = h.regs .rsp + 8#64
  returns : h'.rip = word pm h.mem (h.regs .rsp)
  slots : ∀ j < savedRegs.length, word pm h'.mem (stackSlot rsp j) = word pm h.mem (stackSlot rsp j)
  stack : word pm h'.mem (stackSlot k.kernelSyscallStack 0) =
    word pm h.mem (stackSlot k.kernelSyscallStack 0)

/-- The system call convention for the state `u` at the entry. -/
def Convention (k : EntryImage) (pm : PageMap) (u : State) : Prop :=
  ∃ h, X86.exec pm (syscallEntry k) u = (h, []) ∧ h.rip = word pm u.mem (k.entry (u.regs .rax)) ∧
    handlerArgs.map h.regs = userArgs.map u.regs ∧
    ∀ h', HandlerRun k pm (u.regs .rsp) h h' → ∃ t, X86.exec pm syscallExit h' = (t, []) ∧
      t.regs .rax = h'.regs .rax ∧ t.rip = u.rip ∧ ∀ r ∈ keptRegs, t.regs r = u.regs r

/-- The saves can be made, the fourth argument happens to be the return address, and the saved words
share no byte that matters with the table entry and the kernel's stack. -/
structure SavesFit (k : EntryImage) (pm : PageMap) (u : State) : Prop where
  slots : ∀ j < savedRegs.length, Accessible pm (stackSlot (u.regs .rsp) j)
  fourth : u.regs .r10 = u.rip
  table : ∀ j r, savedRegs[j]? = some r → X86.Agree pm (stackSlot (u.regs .rsp) j) (u.regs r)
    (k.entry (u.regs .rax)) (word pm u.mem (k.entry (u.regs .rax)))
  stack : ∀ j r, savedRegs[j]? = some r → r ≠ .r11 →
    ∀ j' w, [u.regs .rsp - BitVec.ofNat 64 (8 * savedRegs.length), k.back][j']? = some w →
      X86.Agree pm (stackSlot k.kernelSyscallStack j') w (stackSlot (u.regs .rsp) j) (u.regs r)

section

variable {k : EntryImage} {pm : PageMap} {u : State}

lemma EntryImage.Loaded.load (hk : k.Loaded pm) (hrax : (u.regs .rax).toNat < syscallsCount) :
    Accessible pm (k.entry (u.regs .rax)) := by
  have h := hk.table _ hrax
  rwa [BitVec.ofNat_toNat, BitVec.setWidth_eq] at h

lemma savedRegs_words {regs : Reg → BitVec 64} : (savedRegs.map regs).length ≤ 512 := by
  rw [List.length_map]
  decide

/-- The entry finds the handler of the table unless the saves change it. -/
lemma target_iff (hk : k.Loaded pm) (hrax : (u.regs .rax).toNat < syscallsCount) :
    k.target pm (u.pushed pm savedRegs) = word pm u.mem (k.entry (u.regs .rax)) ↔
      ∀ j r, savedRegs[j]? = some r → X86.Agree pm (stackSlot (u.regs .rsp) j) (u.regs r)
        (k.entry (u.regs .rax)) (word pm u.mem (k.entry (u.regs .rax))) := by
  have hload := hk.load hrax
  have hkeep : k.target pm (u.pushed pm savedRegs) =
      word pm (pokeAll pm u.mem (u.regs .rsp) (savedRegs.map u.regs)) (k.entry (u.regs .rax)) := by
    refine (X86.word_pokeAll_eq_iff (by simp) hload).mpr ?_
    intro j w hw i hi i' hi' heq
    have hj : j = 0 := by
      have h := (List.getElem?_eq_some_iff.mp hw).1
      simpa using h
    subst hj
    have hne := hk.apart _ hrax i hi i' hi'
    rw [BitVec.ofNat_toNat, BitVec.setWidth_eq] at hne
    exact (hne heq).elim
  rw [hkeep, X86.word_pokeAll_eq_iff savedRegs_words hload]
  constructor
  · intro h j r hr
    apply h
    rw [List.getElem?_map, hr, Option.map_some]
  · intro h j w hw
    rw [List.getElem?_map] at hw
    obtain ⟨r, hr, rfl⟩ := Option.map_eq_some_iff.mp hw
    exact h j r hr

/-- A saved register is in its slot when the handler starts unless the kernel's stack lies there. -/
lemma saved_iff {j : Nat} {r : Reg}
    (hslots : ∀ j < savedRegs.length, Accessible pm (stackSlot (u.regs .rsp) j))
    (hr : savedRegs[j]? = some r) :
    word pm (k.called pm (u.pushed pm savedRegs)).mem (stackSlot (u.regs .rsp) j) = u.regs r ↔
      ∀ j' w, [u.regs .rsp - BitVec.ofNat 64 (8 * savedRegs.length), k.back][j']? = some w →
        X86.Agree pm (stackSlot k.kernelSyscallStack j') w (stackSlot (u.regs .rsp) j) (u.regs r) := by
  have hj := hslots j (List.getElem?_eq_some_iff.mp hr).1
  have hword : word pm (u.pushed pm savedRegs).mem (stackSlot (u.regs .rsp) j) = u.regs r := by
    apply X86.word_pokeAll_slot savedRegs_words hj
    rw [List.getElem?_map, hr, Option.map_some]
  have h : word pm (k.called pm (u.pushed pm savedRegs)).mem (stackSlot (u.regs .rsp) j) =
      word pm (u.pushed pm savedRegs).mem (stackSlot (u.regs .rsp) j) ↔ _ :=
    X86.word_pokeAll_eq_iff (by simp) hj
  rw [hword] at h
  exact h

lemma stack_word (hk : k.Loaded pm) :
    word pm (k.called pm (u.pushed pm savedRegs)).mem (stackSlot k.kernelSyscallStack 0) =
      u.regs .rsp - BitVec.ofNat 64 (8 * savedRegs.length) :=
  X86.word_pokeAll_slot (by simp) (hk.stack 0 (by decide)) rfl

end

lemma returned_saved {rsp : BitVec 64} {s : State} {j : Nat} {r : Reg} (hr : savedRegs[j]? = some r)
    (hne : r ≠ .r11) : (returned pm rsp s).regs r = word pm s.mem (stackSlot rsp j) := by
  obtain ⟨hj, rfl⟩ := List.getElem?_eq_some_iff.mp hr
  have hindex : savedRegs.idxOf savedRegs[j] = j := List.Nodup.idxOf_getElem (by decide) _ _
  have hmem : savedRegs[j] ∈ savedRegs := List.getElem_mem hj
  have hrsp : savedRegs[j] ≠ .rsp := ne_of_mem_of_not_mem hmem (by decide)
  rw [returned]
  simp only [if_neg hne, if_neg hrsp, if_pos hmem, hindex]

/-- The state after a handler that only returns. -/
def justReturned (pm : PageMap) (h : State) : State :=
  { h with
    regs := Function.update h.regs .rsp (h.regs .rsp + 8#64)
    rip := word pm h.mem (h.regs .rsp) }

lemma handlerRun_justReturned {rsp : BitVec 64} {h : State} :
    HandlerRun k pm rsp h (justReturned pm h) where
  kept r hr := Function.update_of_ne (ne_of_mem_of_not_mem hr (by decide)) ..
  popped := Function.update_self Reg.rsp _ h.regs
  returns := rfl
  slots _ _ := rfl
  stack := rfl

/-- The return of the handler leaves `rsp` at the word with the user's stack pointer. -/
lemma HandlerRun.rsp_eq {rsp : BitVec 64} {s h' : State} (h : HandlerRun k pm rsp (k.called pm s) h') :
    h'.regs .rsp = stackSlot k.kernelSyscallStack 0 := by
  have hslot : (k.called pm s).regs .rsp = stackSlot k.kernelSyscallStack 1 := rfl
  rw [h.popped, hslot, X86.stackSlot_succ]
  exact BitVec.sub_add_cancel ..

section

variable {regs : Reg → BitVec 64} {next flags : BitVec 64} {mem : Bytes}

lemma Convention.savesFit (hk : k.Loaded pm) (hrax : (regs .rax).toNat < syscallsCount)
    (h : Convention k pm (atSyscall regs next flags mem)) :
    SavesFit k pm (atSyscall regs next flags mem) := by
  set u := atSyscall regs next flags mem
  have hrax' : (u.regs .rax).toNat < syscallsCount := hrax
  have hload := hk.load hrax'
  have hstack := hk.stack 0 (by decide)
  obtain ⟨h, hrun, htarget, hargs, hret⟩ := h
  have hslots := X86.exec_pushes_slots hrun
  rw [EntryImage.entry_run hk hslots hload] at hrun
  obtain ⟨rfl, -⟩ := Prod.mk.inj hrun
  set started := k.called pm (u.pushed pm savedRegs)
  have hjust : HandlerRun k pm (u.regs .rsp) started (justReturned pm started) :=
    handlerRun_justReturned
  obtain ⟨t, hexit, -, hrip, hkept⟩ := hret _ hjust
  rw [exit_run hstack hjust.rsp_eq (stack_word hk) hslots] at hexit
  obtain ⟨rfl, -⟩ := Prod.mk.inj hexit
  refine ⟨hslots, ?_, (target_iff hk hrax').mp htarget, ?_⟩
  · simp only [handlerArgs, userArgs, List.map_cons, List.cons.injEq] at hargs
    exact hargs.2.2.2.1.symm
  · intro j r hr hne
    refine (saved_iff hslots hr).mp ?_
    have hor : r = .rcx ∨ r ∈ keptRegs := by
      have hall : ∀ r ∈ savedRegs, r ≠ .r11 → r = .rcx ∨ r ∈ keptRegs := by decide
      exact hall r (List.mem_of_getElem? hr) hne
    have hsaved : (returned pm (u.regs .rsp) (justReturned pm started)).regs r =
      word pm started.mem (stackSlot (u.regs .rsp) j) := returned_saved hr hne
    refine hsaved.symm.trans ?_
    rcases hor with rfl | hmem
    · exact hrip
    · exact hkept r hmem

lemma SavesFit.convention (hk : k.Loaded pm) (hrax : (regs .rax).toNat < syscallsCount)
    (hfit : SavesFit k pm (atSyscall regs next flags mem)) :
    Convention k pm (atSyscall regs next flags mem) := by
  set u := atSyscall regs next flags mem
  have hrax' : (u.regs .rax).toNat < syscallsCount := hrax
  have hload := hk.load hrax'
  have hstack := hk.stack 0 (by decide)
  refine ⟨_, EntryImage.entry_run hk hfit.slots hload, (target_iff hk hrax').mpr hfit.table, ?_, ?_⟩
  · have hfourth : u.regs .rcx = u.regs .r10 := hfit.fourth.symm
    simp only [handlerArgs, userArgs, List.map_cons, List.cons.injEq]
    exact ⟨rfl, rfl, rfl, hfourth, rfl, rfl, rfl⟩
  · intro h' hh
    have hword := hh.stack.trans (stack_word hk)
    refine ⟨_, exit_run hstack hh.rsp_eq hword hfit.slots, ?_⟩
    have hsaved (j : Nat) (r : Reg) (hr : savedRegs[j]? = some r) (hne : r ≠ .r11) :
        (returned pm (u.regs .rsp) h').regs r = u.regs r := by
      have hj := (List.getElem?_eq_some_iff.mp hr).1
      rw [returned_saved hr hne, hh.slots j hj]
      exact (saved_iff hfit.slots hr).mpr (hfit.stack j r hr hne)
    refine ⟨rfl, hsaved 1 .rcx rfl (by decide), fun r hr => ?_⟩
    by_cases hrsp : r = .rsp
    · subst hrsp
      rfl
    · have hall : ∀ r ∈ keptRegs, r ≠ .rsp → r ∈ savedRegs ∧ r ≠ .r11 := by decide
      obtain ⟨hmem, hne⟩ := hall r hr hrsp
      obtain ⟨j, hj⟩ := List.getElem?_of_mem hmem
      exact hsaved j r hj hne

/-- The handler's fourth argument register holds what `syscall` put there, the user's return
address: the convention holds for the callers that pass just this value. -/
theorem convention_iff (hk : k.Loaded pm) (hrax : (regs .rax).toNat < syscallsCount) :
    Convention k pm (atSyscall regs next flags mem) ↔ SavesFit k pm (atSyscall regs next flags mem) :=
  ⟨fun h => h.savesFit hk hrax, fun h => h.convention hk hrax⟩

end

/-- What a handler gets from the wrapper of six arguments: the fourth is the return address, and the
fifth and the sixth are the wrapper's fourth and fifth. -/
theorem syscall6_handlerArgs {regs regs' : Reg → BitVec 64} {next flags : BitVec 64} {mem : Bytes}
    {num arg1 arg2 arg3 arg4 arg5 arg6 : BitVec 64} (hk : k.Loaded pm)
    (hcall : syscall6 num arg1 arg2 arg3 arg4 arg5 arg6 regs = .ok regs')
    (hslots : ∀ j < savedRegs.length, Accessible pm (stackSlot (regs' .rsp) j)) :
    ∃ h, X86.exec pm (syscallEntry k) (atSyscall regs' next flags mem) = (h, []) ∧
      handlerArgs.map h.regs = [arg1, arg2, arg3, next, arg4, arg5] := by
  rw [syscall6, wrapper] at hcall
  split at hcall
  case isTrue => cases hcall
  case isFalse hnum =>
    cases hcall
    exact ⟨_, EntryImage.entry_run hk hslots (hk.load (not_le.mp hnum)), rfl⟩

/-! ### A user's page, the kernel's stack and the table in three frames -/

def threePages : PageMap := fun page => if page ∈ [1, 2, 3] then some page else none

def threePagesImage : EntryImage where
  syscallTable := 0x3000#64
  kernelSyscallStack := 0x3000#64
  back := 0x100000#64

/-- A call of `mmap` whose fourth argument is `flags`. -/
def mmapRegs (flags : BitVec 64) : Reg → BitVec 64
  | .rax => 6#64
  | .rsp => 0x1800#64
  | .r10 => flags
  | _ => 0#64

lemma threePages_loaded : threePagesImage.Loaded threePages where
  table := by decide +kernel
  stack := by decide +kernel
  apart := by decide +kernel

theorem return_address_passed :
    Convention threePagesImage threePages (atSyscall (mmapRegs 0x400000#64) 0x400000#64 0#64 fun _ => 0#8) := by
  refine (convention_iff threePages_loaded (by decide)).mpr ⟨by decide +kernel, rfl, ?_, ?_⟩
  · intro j r hr
    obtain ⟨hj, rfl⟩ := List.getElem?_eq_some_iff.mp hr
    clear hr
    revert j
    decide +kernel
  · intro j r hr hne j' w hw
    obtain ⟨hj, rfl⟩ := List.getElem?_eq_some_iff.mp hr
    obtain ⟨hj', rfl⟩ := List.getElem?_eq_some_iff.mp hw
    clear hr hne hw
    revert j'
    revert j
    decide +kernel

/-- `mmap` with the flags of a private anonymous mapping: the handler gets the return address. -/
theorem flags_not_passed :
    ¬ Convention threePagesImage threePages (atSyscall (mmapRegs 0x22#64) 0x400000#64 0#64 fun _ => 0#8) := by
  intro h
  have hfourth := (h.savesFit threePages_loaded (by decide)).fourth
  revert hfourth
  decide

end HaiirOS
