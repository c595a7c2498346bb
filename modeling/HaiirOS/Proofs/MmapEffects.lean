import HaiirOS.Proofs.MmapRange

/-!
# Who notices an mmap

`mmap_syscall` on pages outside the first PML4 slot leaves the shared part of all address
spaces and all of the other address spaces alone. It never reports a failure: without a run of
free frames it maps the frames from 0 on.
-/

namespace HaiirOS

open RunSearch

namespace Kernel

variable {w : WindowTables} {rank : Nat → Nat} {roots : List Nat} {root : Nat} {k : Kernel}

/-- For pages outside the first PML4 slot the window page is the only page of that slot or of another
address space that `mmap_syscall` may map differently. -/
theorem mmap_isolated (h : Session.Inv w rank ⟨k.machine, roots⟩) (hroot : root ∈ roots)
    (hspace : k.getAddrSpace = frameAddr root) {addr len : Word} (prot : BitVec 32)
    (hpage : ∀ i < mmapPagesCount len, lvIndex (mmapPage addr i) 4 ≠ 0)
    (hsup : Supplied k.machine.mem (missingRange k.machine.mem root (mmapPage addr) 0 (mmapPagesCount len)).card
      (k.machine.pmm.pmmAllocUnmapped (mmapPagesCount len)).2) :
    ∃ r k', k.mmapSyscall addr len prot = some (r, k') ∧
      ∀ r ∈ roots, ∀ v, pageNo v ≠ 0x200 → lvIndex v 4 = 0 ∨ r ≠ root →
        mmu k'.machine.mem r v = mmu k.machine.mem r v := by
  have hhigh (i : Nat) (hi : i < mmapPagesCount len) : 0x800 ≤ pageNo (mmapPage addr i) := by
    have h4 := hpage i hi
    unfold lvIndex at h4
    unfold pageNo
    omega
  obtain ⟨b, m', rank', -, hmmap, hl⟩ := mmapSyscall_spec h hroot hspace prot hhigh hsup
  refine ⟨_, _, hmmap, fun r hr v hv hor => ?_⟩
  refine hl.others r v ((h.roots r).mp hr) hv fun i hi => ?_
  rcases hor with h0 | hne
  · left
    intro hno
    rw [lvIndex_eq_of_pageNo hno (by decide) (by decide)] at h0
    exact hpage i hi h0
  · exact Or.inr ⟨hne, hpage i hi⟩

theorem mmap_isolated_boot : ∃ r k', bootKernel.mmapSyscall 0x8000000000#64 8#64 3#32 = some (r, k') ∧
    ∀ r ∈ [1], ∀ v, pageNo v ≠ 0x200 → lvIndex v 4 = 0 ∨ r ≠ 1 →
      mmu k'.machine.mem r v = mmu bootKernel.machine.mem r v := by
  have hroot : 1 ∈ [1] := List.mem_singleton_self 1
  exact mmap_isolated bootKernel_inv hroot rfl 3#32 (by decide) bootKernel_supplied

/-- A task that passes an address of the first PML4 slot changes the kernel's translation of that address,
and any map re-points the window page. -/
theorem mmap_changes_shared_slot :
    ((taskKernel taskPmm).mmapSyscall 0x900000#64 8#64 7#32).map (fun r => mmu r.2.machine.mem 1 0x900000#64) =
      some (some ⟨0x801000, ⟨true, false, false⟩⟩) ∧
    mmu (taskKernel taskPmm).machine.mem 1 0x900000#64 = none ∧
    ((taskKernel taskPmm).mmapSyscall 0x8000000000#64 8#64 7#32).map (fun r => mmu r.2.machine.mem 1 0x200000#64) ≠
      some (mmu (taskKernel taskPmm).machine.mem 1 0x200000#64) := by
  decide +kernel

/-- `mmap_syscall` reports a failure and has changed neither the bitmap nor a translation of the task. -/
def MmapRefused (k : Kernel) (addr len : Word) (prot : BitVec 32) : Prop :=
  ∃ k', k.mmapSyscall addr len prot = some (BitVec.allOnes 64, k') ∧
    (∀ f, k'.machine.pmm.used f = k.machine.pmm.used f) ∧
    ∀ v, mmu k'.machine.mem (AddressWord.frame k.getAddrSpace) v = mmu k.machine.mem (AddressWord.frame k.getAddrSpace) v

/-- No call is ever refused, with or without a run of free frames: the value returned has bit 12 clear. -/
theorem mmap_never_refused (k : Kernel) (addr len : Word) (prot : BitVec 32) : ¬ k.MmapRefused addr len prot := by
  rintro ⟨k', hmmap, -⟩
  obtain ⟨m', -, hret⟩ := Option.bind_eq_some_iff.mp hmmap
  rw [Option.pure_def, Option.some.injEq, Prod.mk.injEq] at hret
  have hbit := congrArg (fun x => x.getLsbD 12) hret.1
  have hmask : (~~~(BitVec.ofNat 64 pageSize)).getLsbD 12 = false := by decide
  have hones : (BitVec.allOnes 64).getLsbD 12 = true := by decide
  simp only [BitVec.getLsbD_and, hmask, hones, Bool.and_false] at hbit
  cases hbit

/-- The allocator over 16 MiB with nothing free. -/
def fullPmm : Pmm := ⟨fun _ => 0xff#8, 0, 512, 0, 7⟩

/-- Without a free frame a task gets physical frame 0, which is nobody's to give. -/
theorem mmap_exhausted_maps_frame_zero : (∀ f, fullPmm.free f = false) ∧
    ((taskKernel fullPmm).mmapSyscall 0x8000000000#64 8#64 7#32).map (fun r =>
      (r.1, mmu r.2.machine.mem 0x800 0x8000000000#64)) = some (0x8000000000#64, some ⟨0, ⟨true, true, false⟩⟩) ∧
    mmu (taskKernel fullPmm).machine.mem 0x800 0x8000000000#64 = none ∧
    ¬ (taskKernel fullPmm).MmapRefused 0x8000000000#64 8#64 7#32 := by
  have hrun : ((taskKernel fullPmm).mmapSyscall 0x8000000000#64 8#64 7#32).map (fun r =>
      (r.1, mmu r.2.machine.mem 0x800 0x8000000000#64)) = some (0x8000000000#64, some ⟨0, ⟨true, true, false⟩⟩) := by
    decide +kernel
  refine ⟨fun f => fullPmm.used_of_full (i := f / 8) rfl rfl, hrun, by decide +kernel, ?_⟩
  rintro ⟨k', hmmap, -⟩
  rw [hmmap, Option.map_some, Option.some.injEq, Prod.mk.injEq] at hrun
  have hne : BitVec.allOnes 64 ≠ 0x8000000000#64 := by decide
  exact hne hrun.1

/-- Where there is no run of free frames, but frames for tables, the pages of the call are mapped to the
frames from 0 on. -/
theorem mmap_exhausted (h : Session.Inv w rank ⟨k.machine, roots⟩) (hroot : root ∈ roots)
    (hspace : k.getAddrSpace = frameAddr root) {addr len : Word} (prot : BitVec 32)
    (hpage : ∀ i < mmapPagesCount len, 0x800 ≤ pageNo (mmapPage addr i))
    (hnone : ∀ t, t + mmapPagesCount len ≤ 8 * k.machine.pmm.bitmapSize →
      ¬ AllFree k.machine.pmm.free t (mmapPagesCount len))
    (hsup : Supplied k.machine.mem (missingRange k.machine.mem root (mmapPage addr) 0 (mmapPagesCount len)).card
      (k.machine.pmm.pmmAllocUnmapped (mmapPagesCount len)).2) :
    ∃ r k', k.mmapSyscall addr len prot = some (r, k') ∧ ∀ i < mmapPagesCount len,
      ∃ p, leafTable k'.machine.mem (mmapPage addr i) 3 root = some p ∧
        k'.machine.mem (slot p (lvIndex (mmapPage addr i) 1)) = frameAddr (i % 2 ^ 20) ||| mmapFlags prot := by
  obtain ⟨b, m', rank', halloc, hmmap, hl⟩ := mmapSyscall_spec h hroot hspace prot hpage hsup
  have hb : b = 0 := by
    rcases Nat.eq_zero_or_pos (mmapPagesCount len) with h0 | hn
    · rw [h0] at halloc
      change 0 = b * 4096 at halloc
      omega
    · rcases k.machine.pmm.pmmAllocUnmapped_spec hn h.tables.valid.lastIdxBit h.tables.valid.zero with
        ⟨s, -, hs, -⟩ | ⟨-, -, hr⟩
      · exact (hnone s hs.le_bitmap hs.allFree).elim
      · rw [hr] at halloc
        change 0 = b * 4096 at halloc
        omega
  subst hb
  refine ⟨_, _, hmmap, fun i hi => ?_⟩
  obtain ⟨p, hp, he⟩ := hl.leaves i hi
  rw [Nat.zero_add] at he
  exact ⟨p, hp, he⟩

end Kernel

end HaiirOS
