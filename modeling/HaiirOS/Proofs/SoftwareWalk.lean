import HaiirOS.Proofs.Booted

/-!
# The software walk and the MMU

The lookups of the paging code against the walk of the MMU. Both always agree on which pages
are present. The physical addresses agree for the pages whose leaf entry has no bit above bit
51, since the code takes these bits for a part of the address.
-/

namespace HaiirOS

open AddressWord Runs

/-- A presence test and an address lookup say what the MMU does with `v` below the PML4 in frame
`root`. -/
structure WalkAgrees (mem : Mem) (root : Nat) (v : Word) (present : Option (Bool × Machine))
    (phys : Option (Word × Machine)) : Prop where
  present : present.map Prod.fst = some (mmu mem root v).isSome
  phys : phys.map (fun r => r.1.toNat) = some (((mmu mem root v).map Translation.phys).getD 0)

/-- The leaf entry for `v`, if it is present, has none of the bits 63:52. -/
def LeafPlain (mem : Mem) (root : Nat) (v : Word) : Prop :=
  ∀ p, leafTable mem v 3 root = some p → (mem (slot p (lvIndex v 1))).getLsbD 0 = true →
    (mem (slot p (lvIndex v 1))).toNat < 2 ^ 52

/-- The address that the code makes of a leaf entry. -/
lemma base_add_toNat (e v : Word) : (base e + (v &&& 0xfff#64)).toNat = e.toNat / 4096 * 4096 + v.toNat % 4096 := by
  have he := e.isLt
  rw [BitVec.toNat_add, base_toNat, low_toNat]
  omega

namespace Tables

variable {rank : Nat → Nat} {w : WindowTables} {m : Machine} {root : Nat} {v : Word}

lemma isUsrAddrPresent_eq (h : Tables rank w m) (hr : rank root = 4) (hv : pageNo v ≠ 0x200) :
    (m.isUsrAddrPresent (frameAddr root) v).map Prod.fst = some (mmu m.mem root v).isSome := by
  obtain ⟨q, m', l, hlookup, -, hs, hfound⟩ := h.lookup_spec hr v
  have hwalk := h.phys_mmuWalk (v := v) hr .all
  have hsome : (mmu m.mem root v).isSome = ((mmu m.mem root v).map Translation.phys).isSome :=
    (Option.isSome_map ..).symm
  rw [Machine.isUsrAddrPresent, frameAddr, hsome, mmu, hwalk]
  simp only [hlookup, Option.bind_eq_bind, Option.bind_some]
  cases hp : leafTable m.mem v 3 root with
  | none =>
    rw [hp] at hfound
    have hq : q = 0#64 := hfound
    rw [if_neg (not_not.mpr hq)]
    rfl
  | some p =>
    rw [hp] at hfound
    obtain ⟨hq, hd⟩ : q ≠ 0#64 ∧ m'.deref q = some (slot p (lvIndex v 1)) := hfound
    have hmem := hs.mem _ (h.leaf_ne_win hr hp hv)
    simp only [if_pos hq, load_eq hd, Option.bind_some, hmem, isEntryPresent_eq]
    cases (m.mem (slot p (lvIndex v 1))).getLsbD 0 <;> rfl

lemma toUsrPhys_eq (h : Tables rank w m) (hr : rank root = 4) (hv : pageNo v ≠ 0x200) :
    (m.toUsrPhys (frameAddr root) v).map (fun r => r.1.toNat) = some (((mmu m.mem root v).map Translation.phys).getD 0) ↔
      LeafPlain m.mem root v := by
  obtain ⟨q, m', l, hlookup, -, hs, hfound⟩ := h.lookup_spec hr v
  have hwalk := h.phys_mmuWalk (v := v) hr .all
  rw [Machine.toUsrPhys, frameAddr, mmu, hwalk]
  simp only [hlookup, Option.bind_eq_bind, Option.bind_some]
  unfold LeafPlain
  cases hp : leafTable m.mem v 3 root with
  | none =>
    rw [hp] at hfound
    have hq : q = 0#64 := hfound
    rw [if_pos hq]
    constructor
    · intro _ p hp
      cases hp
    · intro _
      rfl
  | some p =>
    rw [hp] at hfound
    obtain ⟨hq, hd⟩ : q ≠ 0#64 ∧ m'.deref q = some (slot p (lvIndex v 1)) := hfound
    have hmem := hs.mem _ (h.leaf_ne_win hr hp hv)
    have hd' : (m'.fetch (slot p (lvIndex v 1))).deref q = some (slot p (lvIndex v 1)) := hd
    have hmem' : (m'.fetch (slot p (lvIndex v 1))).mem (slot p (lvIndex v 1)) = m.mem (slot p (lvIndex v 1)) := hmem
    simp only [if_neg hq, load_eq hd, load_eq hd', Option.bind_some, hmem, hmem', isEntryPresent_eq, Option.some.injEq,
      forall_eq']
    by_cases hpres : (m.mem (slot p (lvIndex v 1))).getLsbD 0 = true
    · have hlt := (m.mem (slot p (lvIndex v 1))).isLt
      rw [hpres, if_pos rfl, Bool.not_true, if_neg Bool.false_ne_true]
      change some (base (m.mem (slot p (lvIndex v 1))) + (v &&& 0xfff#64)).toNat = some _ ↔ (_ → _)
      rw [base_add_toNat, Option.getD_some, Option.some.injEq, imp_iff_right rfl, frame]
      omega
    · rw [Bool.not_eq_true] at hpres
      simp only [hpres, Bool.not_false, if_true, Bool.false_eq_true, if_false, false_implies, iff_true]
      rfl

end Tables

namespace Session

/-- In every state that a sound run reaches, the lookups in any address space agree with the MMU on
a page if and only if its leaf entry has no high bits. -/
theorem walk_agrees_iff {w : WindowTables} {pts : Nat → Nat} {m : Machine} (hboot : Booted w pts m)
    {ops : List PagingOp} {s : Session} (hrun : Run step ⟨m, [w.pml4]⟩ ops s)
    (hok : Along Sound step ⟨m, [w.pml4]⟩ ops) {v : Word} (hv : pageNo v ≠ 0x200) :
    (WalkAgrees s.machine.mem s.kernelRoot v (s.machine.isAddrPresent v) (s.machine.toPhys v) ↔
      LeafPlain s.machine.mem s.kernelRoot v) ∧
    ∀ root ∈ s.roots, (WalkAgrees s.machine.mem root v (s.machine.isUsrAddrPresent (frameAddr root) v)
      (s.machine.toUsrPhys (frameAddr root) v) ↔ LeafPlain s.machine.mem root v) := by
  obtain ⟨rank, hinv⟩ := hboot.inv.run hrun hok
  have hagree (root : Nat) (hroot : root ∈ s.roots) :
      WalkAgrees s.machine.mem root v (s.machine.isUsrAddrPresent (frameAddr root) v)
        (s.machine.toUsrPhys (frameAddr root) v) ↔ LeafPlain s.machine.mem root v := by
    have hr := (hinv.roots root).mp hroot
    rw [← hinv.tables.toUsrPhys_eq hr hv]
    exact ⟨fun h => h.phys, fun h => ⟨hinv.tables.isUsrAddrPresent_eq hr hv, h⟩⟩
  refine ⟨?_, hagree⟩
  rw [Machine.isAddrPresent, Machine.toPhys, hinv.kernel_pointer]
  exact hagree _ hinv.kernelRoot_mem

theorem walk_agrees_iff_running :
    (WalkAgrees (runningMachine (fun _ => 0#64) reservedPmm).mem 1 0x100000#64
      ((runningMachine (fun _ => 0#64) reservedPmm).isAddrPresent 0x100000#64)
      ((runningMachine (fun _ => 0#64) reservedPmm).toPhys 0x100000#64) ↔
      LeafPlain (runningMachine (fun _ => 0#64) reservedPmm).mem 1 0x100000#64) :=
  (walk_agrees_iff (booted_running _ reservedPmm_valid fun _ hf => reservedPmm_used hf) (.nil _) trivial
    (v := 0x100000#64) (by decide)).1

/-- The address of a page without execute permission gets the permission bit. -/
theorem to_phys_keeps_high_bits : ∃ s, Booted bootWindow (4 + ·) (runningMachine (fun _ => 0#64) reservedPmm) ∧
    Run step ⟨runningMachine (fun _ => 0#64) reservedPmm, [1]⟩
      [.mapFrame 0x8000000000#64 0x900 (PageFlags.present ||| PageFlags.execDisable)] s ∧
    ¬ WalkAgrees s.machine.mem 1 0x8000000000#64 (s.machine.isAddrPresent 0x8000000000#64)
      (s.machine.toPhys 0x8000000000#64) := by
  have hrun : ((runningMachine (fun _ => 0#64) reservedPmm).mapFrame 0x8000000000#64 (frameAddr 0x900)
      (PageFlags.present ||| PageFlags.execDisable)).map (fun m =>
        ((m.toPhys 0x8000000000#64).map (fun r => r.1.toNat), (mmu m.mem 1 0x8000000000#64).map Translation.phys)) =
      some (some 0x8000000000900000, some 0x900000) := by decide +kernel
  obtain ⟨m, hm, hphys⟩ := Option.map_eq_some_iff.mp hrun
  rw [Prod.mk.injEq] at hphys
  refine ⟨⟨m, [1]⟩, booted_running _ reservedPmm_valid fun _ hf => reservedPmm_used hf, .cons ?_ (.nil _), fun h => ?_⟩
  · rw [step, exec, hm]
    rfl
  · have hp := h.phys
    rw [hphys.1, hphys.2] at hp
    cases hp

end Session

end HaiirOS
