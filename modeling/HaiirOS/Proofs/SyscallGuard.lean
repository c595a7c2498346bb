import HaiirOS.Proofs.SyscallEntry

/-!
# What the system call entry writes and where it goes

The entry is run with any registers that a user may choose.
-/

namespace HaiirOS

open X86 (Reg State PageMap Bytes Accessible PushedByte phys word stackSlot)

variable {k : EntryImage} {pm : PageMap} {u : State}

/-! ### The words written before the handler runs -/

/-- The entry stops after the load of the handler's address faults. -/
lemma EntryImage.load_fault (hk : k.Loaded pm)
    (hslots : ∀ j < savedRegs.length, Accessible pm (stackSlot (u.regs .rsp) j))
    (hload : ¬ Accessible pm (k.entry (u.regs .rax))) :
    ∃ s i is, X86.exec pm (syscallEntry k) u = (s, i :: is) ∧
      s.written = stackSlot k.kernelSyscallStack 0 :: (u.pushed pm savedRegs).written := by
  have h0 : Accessible pm (k.kernelSyscallStack - 8#64) := hk.stack 0 (by decide)
  have hfault : ¬ Accessible pm (k.syscallTable + (u.pushed pm savedRegs).regs .rax * 8#64) := hload
  have hrun : X86.exec pm (syscallEntry k) u = X86.exec pm k.callHandler (u.pushed pm savedRegs) :=
    X86.exec_pushes (by decide) hslots
  rw [hrun]
  generalize u.pushed pm savedRegs = s at hfault ⊢
  simp only [callHandler, X86.exec, X86.step, State.pushWord, State.store, State.set,
    Function.update_self, ne_eq, reduceCtorEq, not_false_eq_true, Function.update_of_ne, h0, hfault,
    if_true, if_false, Option.map_some]
  exact ⟨_, _, _, rfl, rfl⟩

lemma pushed_written {n : Nat} (hn : n ≤ savedRegs.length) (hu : u.written = []) {v : BitVec 64} :
    v ∈ (u.pushed pm (savedRegs.take n)).written ↔ ∃ j < n, v = stackSlot (u.regs .rsp) j := by
  have hlen : (savedRegs.take n).length = n := List.length_take_of_le hn
  simp only [State.pushed, hlen, hu, List.append_nil, List.mem_reverse, List.mem_map, List.mem_range]
  constructor
  · rintro ⟨j, hj, rfl⟩
    exact ⟨j, hj, rfl⟩
  · rintro ⟨j, hj, rfl⟩
    exact ⟨j, hj, rfl⟩

/-! ### The guard -/

namespace EntryImage

/-- The address of a byte of the kernel's syscall stack. -/
def OnStack (k : EntryImage) (pm : PageMap) (a : Nat) : Prop :=
  ∃ d < 4096, phys pm (k.kernelSyscallStack - BitVec.ofNat 64 (d + 1)) = some a

/-- The word at `v` is on the kernel's syscall stack or where the user can write, which is in the
frames of `user`. -/
def Permitted (k : EntryImage) (pm : PageMap) (user : Nat → Bool) (v : BitVec 64) : Prop :=
  ∀ i < 8, ∃ a, phys pm (v + BitVec.ofNat 64 i) = some a ∧ (k.OnStack pm a ∨ user (a / 4096) = true)

end EntryImage

/-- The entry writes only where it is permitted, and it goes only to an address of the table. It has
no branch that rejects a call. -/
def Guarded (k : EntryImage) (pm : PageMap) (user : Nat → Bool) (u : State) : Prop :=
  (∀ v ∈ (X86.exec pm (syscallEntry k) u).1.written, k.Permitted pm user v) ∧
  ((X86.exec pm (syscallEntry k) u).2 = [] → ∃ n < syscallsCount,
    (X86.exec pm (syscallEntry k) u).1.rip = word pm u.mem (k.entry (BitVec.ofNat 64 n)))

/-- The bytes at the table's place for the call number are those of `w`, where the saves of the
registers and of the stack pointer reach these bytes by what they put there. -/
def EntryImage.Selects (k : EntryImage) (pm : PageMap) (u : State) (w : BitVec 64) : Prop :=
  ∀ i < 8, ∀ a, phys pm (k.entry (u.regs .rax) + BitVec.ofNat 64 i) = some a →
    PushedByte pm k.kernelSyscallStack [u.regs .rsp - BitVec.ofNat 64 (8 * savedRegs.length)] a
      (X86.byteOf w i) (PushedByte pm (u.regs .rsp) (savedRegs.map u.regs) a (X86.byteOf w i)
        (u.mem a = X86.byteOf w i))

/-- The slots up to the first that faults are permitted, and the number selects an address of the
table or none that can be loaded. -/
structure GoodCall (k : EntryImage) (pm : PageMap) (user : Nat → Bool) (u : State) : Prop where
  slots : ∀ j < savedRegs.length, (∀ j' ≤ j, Accessible pm (stackSlot (u.regs .rsp) j')) →
    k.Permitted pm user (stackSlot (u.regs .rsp) j)
  number : (∀ j < savedRegs.length, Accessible pm (stackSlot (u.regs .rsp) j)) →
    Accessible pm (k.entry (u.regs .rax)) →
    ∃ n < syscallsCount, k.Selects pm u (word pm u.mem (k.entry (BitVec.ofNat 64 n)))

lemma permitted_stack {user : Nat → Bool} {j : Nat} (hk : k.Loaded pm) (hj : j < 2) :
    k.Permitted pm user (stackSlot k.kernelSyscallStack j) := by
  intro i hi
  obtain ⟨a, ha⟩ := (hk.stack j hj).phys_eq hi
  refine ⟨a, ha, .inl ⟨8 * (j + 1) - i - 1, by omega, ?_⟩⟩
  rw [← ha]
  congr 1
  apply BitVec.eq_of_toNat_eq
  simp only [stackSlot, BitVec.toNat_add, BitVec.toNat_sub, BitVec.toNat_ofNat]
  omega

lemma target_eq_iff {w : BitVec 64} (hload : Accessible pm (k.entry (u.regs .rax))) :
    k.target pm (u.pushed pm savedRegs) = w ↔ k.Selects pm u w := by
  have hsaves (a : Nat) (b : BitVec 8) : (u.pushed pm savedRegs).mem a = b ↔
      PushedByte pm (u.regs .rsp) (savedRegs.map u.regs) a b (u.mem a = b) :=
    X86.pokeAll_eq_iff savedRegs_words
  have hbyte (a : Nat) (b : BitVec 8) :
      X86.pokeAll pm (u.pushed pm savedRegs).mem k.kernelSyscallStack
        [u.regs .rsp - BitVec.ofNat 64 (8 * savedRegs.length)] a = b ↔ _ :=
    X86.pokeAll_eq_iff (by simp)
  have hrsp : (u.pushed pm savedRegs).regs .rsp = u.regs .rsp - BitVec.ofNat 64 (8 * savedRegs.length) :=
    Function.update_self Reg.rsp _ u.regs
  have hrax : (u.pushed pm savedRegs).regs .rax = u.regs .rax := rfl
  rw [EntryImage.target, hrsp, hrax, X86.word_eq_iff]
  constructor
  · intro h i hi a ha
    have hword := h i hi
    rw [X86.byteAt_of_phys ha, hbyte, hsaves] at hword
    exact hword
  · intro h i hi
    obtain ⟨a, ha⟩ := hload.phys_eq hi
    rw [X86.byteAt_of_phys ha, hbyte, hsaves]
    exact h i hi a ha

/-- The entry ends at a push that faults, at the load of the handler's address or at the handler. -/
lemma entry_cases (hk : k.Loaded pm) :
    (∃ n < savedRegs.length, (∀ j < n, Accessible pm (stackSlot (u.regs .rsp) j)) ∧
      ¬ Accessible pm (stackSlot (u.regs .rsp) n) ∧
      ∃ is, is ≠ [] ∧ X86.exec pm (syscallEntry k) u = (u.pushed pm (savedRegs.take n), is)) ∨
    (∀ j < savedRegs.length, Accessible pm (stackSlot (u.regs .rsp) j)) ∧
      (¬ Accessible pm (k.entry (u.regs .rax)) ∧ (∃ s is, is ≠ [] ∧
        X86.exec pm (syscallEntry k) u = (s, is) ∧
        s.written = stackSlot k.kernelSyscallStack 0 :: (u.pushed pm savedRegs).written) ∨
      Accessible pm (k.entry (u.regs .rax)) ∧
        X86.exec pm (syscallEntry k) u = (k.called pm (u.pushed pm savedRegs), [])) := by
  by_cases hslots : ∀ j < savedRegs.length, Accessible pm (stackSlot (u.regs .rsp) j)
  · right
    refine ⟨hslots, ?_⟩
    by_cases hload : Accessible pm (k.entry (u.regs .rax))
    · exact .inr ⟨hload, EntryImage.entry_run hk hslots hload⟩
    · obtain ⟨s, i, is, hrun, hwritten⟩ := EntryImage.load_fault hk hslots hload
      exact .inl ⟨hload, s, i :: is, List.cons_ne_nil _ _, hrun, hwritten⟩
  · left
    obtain ⟨n, hn, hmap, hfault, hrun⟩ :=
      @X86.exec_pushes_stops pm u savedRegs k.callHandler (by decide) hslots
    refine ⟨n, hn, hmap, hfault, _, ?_, hrun⟩
    exact List.append_ne_nil_of_right_ne_nil _ (List.cons_ne_nil _ _)

section

variable {user : Nat → Bool}

/-- The saves that are made are permitted exactly when the slots up to the first fault are. -/
lemma slots_iff {n : Nat} (hu : u.written = []) (hn : n ≤ savedRegs.length)
    (hmap : ∀ j < n, Accessible pm (stackSlot (u.regs .rsp) j))
    (hstop : n < savedRegs.length → ¬ Accessible pm (stackSlot (u.regs .rsp) n)) :
    (∀ v ∈ (u.pushed pm (savedRegs.take n)).written, k.Permitted pm user v) ↔
      ∀ j < savedRegs.length, (∀ j' ≤ j, Accessible pm (stackSlot (u.regs .rsp) j')) →
        k.Permitted pm user (stackSlot (u.regs .rsp) j) := by
  constructor
  · intro h j hj hacc
    apply h
    rw [pushed_written hn hu]
    have hlt : j < n := by
      by_contra hle
      exact hstop (by omega) (hacc n (by omega))
    exact ⟨j, hlt, rfl⟩
  · intro h v hv
    obtain ⟨j, hj, rfl⟩ := (pushed_written hn hu).mp hv
    exact h j (by omega) fun j' hj' => hmap j' (by omega)

lemma guarded_iff_goodCall (hk : k.Loaded pm) (hu : u.written = []) :
    Guarded k pm user u ↔ GoodCall k pm user u := by
  have h0 : k.Permitted pm user (stackSlot k.kernelSyscallStack 0) := permitted_stack hk (by decide)
  have h1 : k.Permitted pm user (stackSlot k.kernelSyscallStack 1) := permitted_stack hk (by decide)
  have hall (hslots : ∀ j < savedRegs.length, Accessible pm (stackSlot (u.regs .rsp) j)) :
      (∀ v ∈ (u.pushed pm savedRegs).written, k.Permitted pm user v) ↔ _ :=
    (List.take_length : savedRegs.take savedRegs.length = savedRegs) ▸
      slots_iff hu le_rfl hslots fun hlt => (lt_irrefl _ hlt).elim
  rcases entry_cases (u := u) hk with ⟨n, hn, hmap, hfault, is, his, hrun⟩ |
    ⟨hslots, ⟨hload, s, is, his, hrun, hwritten⟩ | ⟨hload, hrun⟩⟩
  · rw [Guarded, hrun, slots_iff hu (le_of_lt hn) hmap fun _ => hfault]
    constructor
    · rintro ⟨hwrites, -⟩
      exact ⟨hwrites, fun hall => (hfault (hall n hn)).elim⟩
    · intro h
      exact ⟨h.slots, fun hnil => (his hnil).elim⟩
  · rw [Guarded, hrun, hwritten, List.forall_mem_cons, hall hslots]
    constructor
    · rintro ⟨⟨-, hwrites⟩, -⟩
      exact ⟨hwrites, fun _ hacc => (hload hacc).elim⟩
    · intro h
      exact ⟨⟨h0, h.slots⟩, fun hnil => (his hnil).elim⟩
  · have hwritten : (k.called pm (u.pushed pm savedRegs)).written =
      stackSlot k.kernelSyscallStack 1 :: stackSlot k.kernelSyscallStack 0 ::
        (u.pushed pm savedRegs).written := rfl
    have hrip : (k.called pm (u.pushed pm savedRegs)).rip = k.target pm (u.pushed pm savedRegs) := rfl
    rw [Guarded, hrun, hwritten, List.forall_mem_cons, List.forall_mem_cons, hall hslots]
    simp only [hrip, target_eq_iff hload]
    constructor
    · rintro ⟨⟨-, -, hwrites⟩, htarget⟩
      exact ⟨hwrites, fun _ _ => htarget trivial⟩
    · intro h
      exact ⟨⟨h1, h0, h.slots⟩, fun _ => h.number hslots hload⟩

/-- Any number and any stack pointer reach the entry, which checks neither. -/
theorem guarded_iff {regs : Reg → BitVec 64} {next flags : BitVec 64} {mem : Bytes}
    (hk : k.Loaded pm) :
    Guarded k pm user (atSyscall regs next flags mem) ↔
      GoodCall k pm user (atSyscall regs next flags mem) :=
  guarded_iff_goodCall hk rfl

end

/-- A number of the table with a stack pointer in the user's page. -/
theorem mmap_guarded : Guarded threePagesImage threePages (· == 1)
    (atSyscall (mmapRegs 0x22#64) 0x400000#64 0#64 fun _ => 0#8) := by
  have hslot : ∀ j < savedRegs.length, ∀ i < 8,
      phys threePages (stackSlot 0x1800#64 j + BitVec.ofNat 64 i) =
        some (stackSlot 0x1800#64 j + BitVec.ofNat 64 i).toNat ∧
      (stackSlot 0x1800#64 j + BitVec.ofNat 64 i).toNat / 4096 = 1 := by decide +kernel
  refine (guarded_iff threePages_loaded).mpr ⟨fun j hj _ i hi => ?_, fun _ hload => ⟨6, by decide, ?_⟩⟩
  · obtain ⟨hphys, hframe⟩ := hslot j hj i hi
    refine ⟨_, hphys, .inr ?_⟩
    rw [hframe]
    rfl
  · exact (target_eq_iff hload).mp (by decide +kernel)

/-- The registers of a user that chooses the number and the stack pointer. -/
def forgedRegs (num rsp : BitVec 64) : Reg → BitVec 64
  | .rax => num
  | .rsp => rsp
  | _ => 0x41#64

/-- The saves overwrite the table when `rsp` is the address of its end, and the first number that is
none of the table's calls what lies behind it. -/
theorem forged_call_unguarded :
    ¬ (Guarded threePagesImage threePages (· == 1)
        (atSyscall (forgedRegs 0#64 0x3090#64) 0x400000#64 0#64 fun _ => 0#8) ∨
      Guarded threePagesImage threePages (· == 1)
        (atSyscall (forgedRegs 18#64 0x1800#64) 0x400000#64 0#64 fun a => BitVec.ofNat 8 (a / 0x3090))) := by
  rintro (h | h)
  · have hslot := ((guarded_iff_goodCall threePages_loaded rfl).mp h).slots 0 (by decide) (by decide +kernel)
    obtain ⟨a, ha, hstack | huser⟩ := hslot 0 (by decide)
    all_goals obtain rfl : a = 0x3088 := Option.some.inj (ha.symm.trans (by decide +kernel))
    · obtain ⟨d, hd, hphys⟩ := hstack
      have hv : (0x3000#64 - BitVec.ofNat 64 (d + 1)).toNat = 0x3000 - (d + 1) := by
        simp only [BitVec.toNat_sub, BitVec.toNat_ofNat]
        omega
      have hpage : (0x3000 - (d + 1)) / 4096 = 2 := by omega
      have htwo : threePages 2 = some 2 := rfl
      change phys threePages (0x3000#64 - BitVec.ofNat 64 (d + 1)) = some 0x3088 at hphys
      rw [phys, hv, hpage, htwo, Option.map_some, Option.some.injEq] at hphys
      omega
    · cases huser
  · obtain ⟨n, hn, hselects⟩ := ((guarded_iff_goodCall threePages_loaded rfl).mp h).number
      (by decide +kernel) (by decide +kernel)
    have htarget := (target_eq_iff (by decide +kernel)).mpr hselects
    have hne : ∀ n < syscallsCount, threePagesImage.target threePages
        ((atSyscall (forgedRegs 18#64 0x1800#64) 0x400000#64 0#64
          fun a => BitVec.ofNat 8 (a / 0x3090)).pushed threePages savedRegs) ≠
        word threePages (fun a => BitVec.ofNat 8 (a / 0x3090)) (threePagesImage.entry (BitVec.ofNat 64 n)) := by
      decide +kernel
    exact hne n hn htarget

end HaiirOS
