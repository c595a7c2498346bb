import HaiirOS.Proofs.AllOrNothing
import HaiirOS.Proofs.UserFrames

/-!
# Adding a task is all or nothing with room and enough frames only

`add_task` makes a PML4, a stack and some twenty mappings before `add_tcb` looks if the task table has
room, and no allocation on the way reports its failure. What was made stays when the task is refused,
and a failed allocation's address 0 goes on as a page table or as the frames of a stack.
-/

namespace HaiirOS

open AddressWord

namespace Machine

variable {m m' : Machine}

lemma Stable.mapStack {P : Machine → Prop} (hP : Stable taskFlags P) {pml4 start : Word}
    (h : m.mapStack pml4 start = some m') (hm : P m) : P m' :=
  Loop.upTo_invariant (fun _ m => P m) hm (fun _ _ _ _ h hmap => hP.map hmap h) h

lemma Stable.mapTwoPages {P : Machine → Prop} (hP : Stable taskFlags P) {pml4 virt phys : Word}
    (h : m.mapTwoPages pml4 virt phys = some m') (hm : P m) : P m' := by
  obtain ⟨m1, h1, h2⟩ := Option.bind_eq_some_iff.mp h
  exact hP.map h2 (hP.map h1 hm)

lemma createUserPml4_suffix {r : Word} (h : m.createUserPml4 = some (r, m')) : m.log <:+ m'.log := by
  obtain ⟨-, m1, hmap, hlog, -⟩ := createUserPml4_cases h
  rw [hlog]
  exact ((stable_suffix _ _).map hmap (List.suffix_cons ..)).trans (List.suffix_cons ..)

end Machine

namespace Session

/-- With enough empty frames the page of a new PML4 gets its tables, and only free frames are taken. -/
lemma Inv.newPml4_supplied {w : WindowTables} {rank : Nat → Nat} {s : Session} (h : s.Inv w rank)
    (hclean : Clean s.machine) {t : Nat} (hnext : s.machine.pmm.NextRun 1 t)
    (hle : missing s.machine.mem (frameAddr t) 3 s.kernelRoot ≤ (s.machine.pmm.handOut t 1).freeSet.card) :
    Supplied s.machine.mem (missing s.machine.mem (frameAddr t) 3 s.kernelRoot) (s.machine.pmm.handOut t 1) ∧
      (s.afterNewPml4 t).freeSet ⊆ s.machine.pmm.freeSet := by
  have hvalid := h.tables.valid
  have halloc := hvalid.alloc_eq (by decide : 0 < 1) hnext
  have hsub : (s.machine.pmm.handOut t 1).freeSet ⊆ s.machine.pmm.freeSet := by
    rw [hvalid.freeSet_handOut_one hnext]
    exact Finset.erase_subset ..
  have hvalid1 : (s.machine.pmm.handOut t 1).Valid :=
    hvalid.handOut (by decide) hnext
  have hlow : ∀ f, f < 8 → (s.machine.pmm.handOut t 1).used f = true := by
    intro f hf
    have hu := hvalid.used_mono 1 (h.tables.low_used f (by omega))
    rwa [halloc] at hu
  have hstock : Stocked s.machine.mem (missing s.machine.mem (frameAddr t) 3 s.kernelRoot) (s.machine.pmm.handOut t 1) :=
    ⟨fun f hf => hclean f (hsub hf), hle⟩
  have hsup := hstock.supplied hvalid1 hlow
  exact ⟨hsup, (hsup.card_singles hvalid1).2.trans hsub⟩

/-- A new PML4 takes the frame that the allocator gives, and one for each table that its page lacks. -/
lemma Inv.newPml4 {w : WindowTables} {rank : Nat → Nat} {s : Session} (h : s.Inv w rank) (hclean : Clean s.machine)
    {t : Nat} (hnext : s.machine.pmm.NextRun 1 t)
    (hle : missing s.machine.mem (frameAddr t) 3 s.kernelRoot ≤ (s.machine.pmm.handOut t 1).freeSet.card)
    (hnear : frame s.machine.cr3 = s.kernelRoot ∨ t < 2 ^ 27) : ∃ m1 rank1,
    s.machine.createUserPml4 = some (frameAddr t, m1) ∧ Session.Inv w rank1 ⟨m1, t :: s.roots⟩ ∧ Clean m1 ∧
      m1.pmm = s.afterNewPml4 t ∧ m1.mem (slot t 2) = 0#64 := by
  obtain ⟨hsup, hsub⟩ := h.newPml4_supplied hclean hnext hle
  rw [h.kernelRoot_eq] at hsup hnear
  obtain ⟨m1, rank1, hcreate, hn, hpmm, hmem⟩ := h.tables.createUserPml4_effect hnext hsup hnear
  have hpmm1 := h.afterNewPml4_eq hpmm
  refine ⟨m1, rank1, hcreate, h.of_newPml4 hn, fun f hf i => ?_, hpmm1, hn.entries 2 (by decide)⟩
  have hfree := (Pmm.free_iff _ f).mp (Pmm.mem_freeSet.mp hf).2
  rw [hpmm1] at hf
  rw [hmem f (hn.tables.rank_of_free hfree) i]
  exact hclean f (hsub hf) i

end Session

namespace Kernel

variable {w : WindowTables} {rank : Nat → Nat} {roots : List Nat} {k k' : Kernel} {debug : Bool} {taskName funcAddr : Word}

/-- The two pages from `virt` on are mapped to the frames from `phys` on. -/
def WindowMapped (mem : Mem) (root : Nat) (virt phys : Word) : Prop :=
  ∀ i < 2, mmu mem root (toPage (virt + BitVec.ofNat 64 (i * 4096))) =
    some ⟨(toFrame (phys + BitVec.ofNat 64 (i * 4096))).toNat, taskFlags.rights⟩

/-- The task is in the table, with a new PML4, with a stack whose frames were free when they were allocated, and with
its pages mapped. -/
structure TaskAdded (roots : List Nat) (k k' : Kernel) (debug : Bool) (taskName funcAddr : Word) : Prop where
  room : k.sTasksCount < maxTasks
  count : k'.sTasksCount = k.sTasksCount + 1
  made : ∃ pml4 m1, k.machine.createUserPml4 = some (pml4, m1) ∧
    k'.sTasks = Function.update k.sTasks k.sTasksCount ⟨taskName, userStackTop, userCodeBase + (funcAddr &&& 0xfff#64), pml4⟩ ∧
    k.machine.pmm.free (frame pml4) = true ∧ frame pml4 ∉ roots ∧
    (∀ i < stackPages, m1.pmm.free (frame (m1.pmmAllocUnmapped stackPages).1 + i) = true) ∧
    (∀ i < stackPages, (mmu k'.machine.mem (frame pml4) (stackPage i)).map Translation.rights = some taskFlags.rights) ∧
    WindowMapped k'.machine.mem (frame pml4) userCodeBase funcAddr ∧
    WindowMapped k'.machine.mem (frame pml4) (userCodeBase + textSegSize debug) (base funcAddr + textSegSize debug)

/-- The task table, the bitmap and every translation are as before. -/
structure TaskRefused (w : WindowTables) (roots : List Nat) (k k' : Kernel) : Prop where
  tasks : k'.sTasks = k.sTasks
  count : k'.sTasksCount = k.sTasksCount
  machine : Session.Unchanged w ⟨k.machine, roots⟩ k'.machine

/-- `add_task` returns, and has added the task or changed nothing; and the frame 0, the address that a failed
allocation gives, has not become a PML4 or a page table. -/
def AddsAllOrNothing (w : WindowTables) (roots : List Nat) (k : Kernel) (debug : Bool) (taskName funcAddr : Word) : Prop :=
  ∃ k' l, k.addTask debug taskName funcAddr = some k' ∧ k'.machine.log = l ++ k.machine.log ∧ .table 0 ∉ l ∧
    (TaskAdded roots k k' debug taskName funcAddr ∨ TaskRefused w roots k k')

/-- There is room for the task, a frame for the PML4 and for each table that its page lacks, then a run of frames for
the stack, and then three frames for the tables of the task's pages. -/
def RoomForTask (roots : List Nat) (k : Kernel) : Prop :=
  k.sTasksCount < maxTasks ∧ ∃ t, k.machine.pmm.NextRun 1 t ∧
    missing k.machine.mem (frameAddr t) 3 (frame k.machine.sPml4Table) ≤ (k.machine.pmm.handOut t 1).freeSet.card ∧
    ∃ b, (Session.afterNewPml4 ⟨k.machine, roots⟩ t).NextRun stackPages b ∧
      3 ≤ ((Session.afterNewPml4 ⟨k.machine, roots⟩ t).handOut b stackPages).freeSet.card

lemma addTask_cases (h : k.addTask debug taskName funcAddr = some k') : ∃ pml4 m1 m2 m3 m4,
    k.machine.createUserPml4 = some (pml4, m1) ∧
    (m1.pmmAllocUnmapped stackPages).2.mapStack pml4
      ((m1.pmmAllocUnmapped stackPages).1 + BitVec.ofNat 64 (stackPages * frameSize)) = some m2 ∧
    m2.mapTwoPages pml4 (userCodeBase + (funcAddr &&& 0xfff#64)) funcAddr = some m3 ∧
    m3.mapTwoPages pml4 (userCodeBase + textSegSize debug) (base funcAddr + textSegSize debug) = some m4 ∧
    k' = { k with machine := m4 }.addTcb
      ⟨taskName, userStackTop, userCodeBase + (funcAddr &&& 0xfff#64), pml4⟩ := by
  obtain ⟨⟨pml4, m1⟩, hcreate, h⟩ := Option.bind_eq_some_iff.mp h
  obtain ⟨m2, hstack, h⟩ := Option.bind_eq_some_iff.mp h
  obtain ⟨m3, htext, h⟩ := Option.bind_eq_some_iff.mp h
  obtain ⟨m4, hdata, h⟩ := Option.bind_eq_some_iff.mp h
  cases h
  exact ⟨pml4, m1, m2, m3, m4, hcreate, hstack, htext, hdata, rfl⟩

lemma addTask_keeps (h : k.addTask debug taskName funcAddr = some k') {i : Nat} (hi : i < k.sTasksCount) :
    k'.sTasks i = k.sTasks i := by
  obtain ⟨-, -, -, -, m4, -, -, -, -, rfl⟩ := addTask_cases h
  unfold addTcb
  by_cases hfull : k.sTasksCount ≥ maxTasks
  · rw [if_pos hfull]
  · rw [if_neg hfull]
    exact Function.update_of_ne (Nat.ne_of_lt hi) ..

/-- What the paging code preserves survives the call, from the stack's allocation on. -/
lemma addTask_stable {P : Machine → Prop} (hP : Machine.Stable taskFlags P) {pml4 : Word} {m1 : Machine}
    (hcreate : k.machine.createUserPml4 = some (pml4, m1)) (hm : P (m1.pmmAllocUnmapped stackPages).2)
    (h : k.addTask debug taskName funcAddr = some k') : P k'.machine := by
  obtain ⟨pml4', m1', m2, m3, m4, hcreate', hstack, htext, hdata, rfl⟩ := addTask_cases h
  cases hcreate.symm.trans hcreate'
  rw [addTcb_machine]
  exact hP.mapTwoPages hdata (hP.mapTwoPages htext (hP.mapStack hstack hm))

lemma windowMapped {root : Nat} {frames : Nat → Option Nat} {m0 m : Machine}
    (h : TaskPages w roots root frames m0 m) {virt phys : Word} (hvirt : virt.toNat < 2 ^ 47) (hphys : phys.toNat < 2 ^ 52)
    (hframes : ∀ i < 2, frames (pageNo virt + i) = some (phys.toNat / 4096 + i)) : WindowMapped m.mem root virt phys := by
  intro i hi
  have hsum : (virt + BitVec.ofNat 64 (i * 4096)).toNat = virt.toNat + i * 4096 := by
    rw [BitVec.toNat_add, BitVec.toNat_ofNat]
    omega
  have hno : pageNo (toPage (virt + BitVec.ofNat 64 (i * 4096))) = pageNo virt + i := by
    rw [pageNo, pageNo, toPage, base_toNat, hsum]
    omega
  have hframe : (toFrame (phys + BitVec.ofNat 64 (i * 4096))).toNat = (phys.toNat / 4096 + i) * 4096 := by
    rw [toFrame, base_toNat, BitVec.toNat_add, BitVec.toNat_ofNat]
    omega
  rw [hframe]
  apply h.pages
  · rw [toPage, base_toNat]
    omega
  · rw [toPage, base_toNat, hsum]
    omega
  · rw [hno]
    exact hframes i hi

lemma RoomForTask.adds (h : Session.Inv w rank ⟨k.machine, roots⟩) (hclean : Clean k.machine)
    (hfunc : funcAddr.toNat < 2 ^ 51) (hnear : frame k.machine.cr3 = frame k.machine.sPml4Table ∨
      ∀ f, k.machine.pmm.free f = true → f < 2 ^ 27) (hroom : RoomForTask roots k) (debug : Bool) (taskName : Word) :
    AddsAllOrNothing w roots k debug taskName funcAddr := by
  obtain ⟨hcount, t, hnext, hle, b, hstack, henough⟩ := hroom
  have hfree : k.machine.pmm.free t = true := hnext.allFree t (Nat.le_refl t) (Nat.lt_succ_self t)
  have hnear' : frame k.machine.cr3 = frame k.machine.sPml4Table ∨ t < 2 ^ 27 := hnear.imp_right fun hf => hf t hfree
  obtain ⟨hsup, hsub⟩ := h.newPml4_supplied hclean hnext hle
  obtain ⟨m1, rank1, hcreate, hinv1, -, hpmm1, -⟩ := h.newPml4 hclean hnext hle hnear'
  have hvalid1 : (Session.afterNewPml4 ⟨k.machine, roots⟩ t).Valid := hpmm1 ▸ hinv1.tables.valid
  have hlow1 : ∀ f, f < 8 → (Session.afterNewPml4 ⟨k.machine, roots⟩ t).used f = true := by
    intro f hf
    rw [← hpmm1]
    exact hinv1.tables.low_used f (by omega)
  have halloc1 := hvalid1.alloc_eq (by decide) hstack
  have htables : Supplied k.machine.mem 3 ((Session.afterNewPml4 ⟨k.machine, roots⟩ t).handOut b stackPages) := by
    have hvalid2 := hvalid1.alloc stackPages
    have hsub2 := (hvalid1.freeSet_alloc stackPages).1
    have hlow2 (f : Nat) (hf : f < 8) := hvalid1.used_mono stackPages (hlow1 f hf)
    rw [halloc1] at hvalid2 hsub2 hlow2
    exact Stocked.supplied ⟨fun f hf => hclean f (hsub (hsub2 hf)), henough⟩ hvalid2 hlow2
  obtain ⟨m1', m', frames, hcreate', halloc, hnew, hlt, hb, hadd, hpages, ⟨l, hl, hzero⟩, hstackPages, hcode, hdata⟩ :=
    addTask_pages h ⟨hfunc, hnext, hsup, hnear', hstack, htables⟩ debug taskName
  cases hcreate.symm.trans hcreate'
  have hroot : frame (frameAddr t) = t := frame_ofNat (by omega)
  have hbase : frame (frameAddr b) = b := frame_ofNat (by omega)
  have hno : stackPages = 15 := rfl
  refine ⟨_, l, hadd, by rw [addTcb_machine, hl], hzero, .inl ?_⟩
  have htcb : ({ k with machine := m' }.addTcb ⟨taskName, userStackTop, userCodeBase + (funcAddr &&& 0xfff#64), frameAddr t⟩) =
      { k with
        machine := m'
        sTasks := Function.update k.sTasks k.sTasksCount
          ⟨taskName, userStackTop, userCodeBase + (funcAddr &&& 0xfff#64), frameAddr t⟩
        sTasksCount := k.sTasksCount + 1 } := if_neg (Nat.not_le.mpr hcount)
  rw [htcb]
  refine ⟨hcount, rfl, frameAddr t, m1, hcreate, rfl, ?_, ?_, fun i hi => ?_, fun i hi => ?_, ?_, ?_⟩
  · rw [hroot]
    exact hfree
  · rw [hroot]
    exact hnew
  · rw [halloc, hbase, hpmm1]
    exact hstack.allFree (b + i) (Nat.le_add_right b i) (by omega)
  · have hsize : (stackPage i).toNat < 2 ^ 48 := by
      rw [stackPage, toPage, base_toNat, BitVec.toNat_sub, BitVec.toNat_ofNat, userStackTop, BitVec.toNat_ofNat]
      have hsize : frameSize = 4096 := rfl
      omega
    have halign : (stackPage i).toNat % 4096 = 0 := by
      rw [stackPage, toPage, base_toNat]
      omega
    rw [hroot, hpages.pages (stackPage i) halign hsize _ (by rw [stackPage_no i hi]; exact hstackPages i hi)]
    rfl
  · rw [hroot]
    exact windowMapped hpages (by decide) (by omega) hcode
  · rw [hroot]
    have hvirt : (userCodeBase + textSegSize debug).toNat < 2 ^ 47 := by cases debug <;> decide
    have hphys : (base funcAddr + textSegSize debug).toNat < 2 ^ 52 := by
      have hsize : (textSegSize debug).toNat < 0x10000 := by cases debug <;> decide
      rw [BitVec.toNat_add, base_toNat]
      omega
    exact windowMapped hpages hvirt hphys hdata

/-- A frame 0 that became a table is in the log at the end. -/
lemma linksZero_of_create {pml4 : Word} {m1 : Machine} (hcreate : k.machine.createUserPml4 = some (pml4, m1))
    (hzero : LinksZero k.machine.log m1) (h : k.addTask debug taskName funcAddr = some k') :
    LinksZero k.machine.log k'.machine := by
  apply addTask_stable (Machine.stable_linksZero taskFlags k.machine.log) hcreate _ h
  obtain ⟨l, hl, hmem⟩ := hzero
  exact ⟨l, hl, hmem.trans (List.suffix_cons ..)⟩

/-- A call that has no frame 0 become a table had a frame for the PML4, and one for each table that its page lacks. -/
lemma AddsAllOrNothing.pml4 (h : Session.Inv w rank ⟨k.machine, roots⟩) (hclean : Clean k.machine) {l : List Event}
    (hadd : k.addTask debug taskName funcAddr = some k') (hlog : k'.machine.log = l ++ k.machine.log) (hzero : .table 0 ∉ l) :
    ∃ t, k.machine.pmm.NextRun 1 t ∧ missing k.machine.mem (frameAddr t) 3 (frame k.machine.sPml4Table) ≤
      (k.machine.pmm.handOut t 1).freeSet.card := by
  have hvalid : k.machine.pmm.Valid := h.tables.valid
  have hlinks (hl : LinksZero k.machine.log k'.machine) : False := by
    obtain ⟨l', hsub, hmem⟩ := hl
    exact hzero (mem_of_suffix hsub hmem hlog)
  obtain ⟨pml4, m1, -, -, -, hcreate, -⟩ := addTask_cases hadd
  obtain ⟨haddr, m2, hmap, hlog1, -⟩ := Machine.createUserPml4_cases hcreate
  have hsub2 : k.machine.log <:+ m2.log := (Machine.stable_suffix _ _).map hmap (List.suffix_cons ..)
  rcases k.machine.pmm.pmmAllocUnmapped_spec (by decide : 0 < 1) hvalid.lastIdxBit hvalid.zero with
    ⟨t, -, hnext, halloc⟩ | ⟨-, -, hfail⟩
  · refine ⟨t, hnext, ?_⟩
    by_contra hfew
    obtain ⟨-, hlow, hlt, -⟩ := h.tables.next_frame hnext
    have h1 : Tables rank w (k.machine.pmmAllocUnmapped 1).2 := h.tables.alloc 1
    have hclean1 : Clean (k.machine.pmmAllocUnmapped 1).2 := fun f hf => hclean f ((hvalid.freeSet_alloc 1).1 hf)
    have hpmm : (k.machine.pmmAllocUnmapped 1).2.pmm = k.machine.pmm.handOut t 1 := congrArg Prod.snd halloc
    have hpml4 : pml4 = frameAddr t := by
      rw [haddr, Machine.pmmAllocUnmapped, halloc]
      rfl
    have hkernel : frame k.machine.sPml4Table = w.pml4 := h.kernelRoot_eq
    rw [hpml4, toPage, toFrame, frameAddr, base_ofNat, Machine.mapFrame, h1.pml4] at hmap
    rw [hkernel, ← hpmm] at hfew
    obtain ⟨l', hsub, hmem⟩ := h1.map_exhausted h1.top ⟨by decide, by decide⟩ hclean1 (Nat.lt_of_not_le hfew) hmap
    have hm1 : LinksZero k.machine.log m1 := by
      refine ⟨l', (List.suffix_cons ..).trans hsub, hmem.trans ?_⟩
      rw [hlog1]
      exact List.suffix_cons ..
    exact (hlinks (linksZero_of_create hcreate hm1 hadd)).elim
  · have hpml4 : pml4 = 0#64 := by
      rw [haddr, Machine.pmmAllocUnmapped, hfail]
    have hm1 : LinksZero k.machine.log m1 := by
      refine ⟨m2.log, hsub2, ?_⟩
      rw [hlog1, hpml4]
      exact List.suffix_refl _
    exact (hlinks (linksZero_of_create hcreate hm1 hadd)).elim

/-- A call that adds all or nothing had room for the task and enough frames. -/
lemma AddsAllOrNothing.room (h : Session.Inv w rank ⟨k.machine, roots⟩) (hclean : Clean k.machine)
    (hnear : frame k.machine.cr3 = frame k.machine.sPml4Table ∨ ∀ f, k.machine.pmm.free f = true → f < 2 ^ 27)
    (hall : AddsAllOrNothing w roots k debug taskName funcAddr) : RoomForTask roots k := by
  obtain ⟨k', l, hadd, hlog, hzero, hor⟩ := hall
  obtain ⟨t, hnext, hle⟩ := AddsAllOrNothing.pml4 h hclean hadd hlog hzero
  have hfree : k.machine.pmm.free t = true := hnext.allFree t (Nat.le_refl t) (Nat.lt_succ_self t)
  obtain ⟨m1, rank1, hcreate, hinv1, hclean1, hpmm1, hslot⟩ := h.newPml4 hclean hnext hle (hnear.imp_right fun hf => hf t hfree)
  have hvalid1 : m1.pmm.Valid := hinv1.tables.valid
  have hused1 : m1.pmm.used t = true := (hinv1.tables.frame_ok t (by rw [(hinv1.roots t).mp List.mem_cons_self]; decide)).2.2.2
  -- the frame of the PML4 stays in use, so the task was added
  have hadded : TaskAdded roots k k' debug taskName funcAddr := by
    rcases hor with hadded | hrefused
    · exact hadded
    have hused : k'.machine.pmm.Valid ∧ k'.machine.pmm.used t = true := by
      apply addTask_stable (Machine.stable_pmm (Q := fun p => p.Valid ∧ p.used t = true) _) hcreate _ hadd
      · exact fun _ p hp => ⟨hp.1.alloc 1, hp.1.used_mono 1 hp.2⟩
      · exact ⟨hvalid1.alloc stackPages, hvalid1.used_mono stackPages hused1⟩
    have hmark := hrefused.machine.marks t
    rw [hused.2] at hmark
    rw [Pmm.free_iff, ← hmark] at hfree
    cases hfree
  refine ⟨hadded.room, t, hnext, hle, ?_⟩
  rw [← hpmm1]
  obtain ⟨pml4, m1', hcreate', -, -, -, hstackFree, -⟩ := hadded.made
  cases hcreate.symm.trans hcreate'
  rcases m1.pmm.pmmAllocUnmapped_spec (by decide : 0 < stackPages) hvalid1.lastIdxBit hvalid1.zero with
    ⟨b, -, hstack, halloc⟩ | ⟨-, -, hfail⟩
  · refine ⟨b, hstack, ?_⟩
    by_contra hfew
    obtain ⟨pml4', m1', m2, m3, m4, hcreate', hmapStack, htext, hdata, rfl⟩ := addTask_cases hadd
    cases hcreate.symm.trans hcreate'
    have hinv2 := hinv1.alloc stackPages
    have hclean2 : Clean (m1.pmmAllocUnmapped stackPages).2 := fun f hf => hclean1 f ((hvalid1.freeSet_alloc stackPages).1 hf)
    have hpmm2 : (m1.pmmAllocUnmapped stackPages).2.pmm = m1.pmm.handOut b stackPages := congrArg Prod.snd halloc
    have haddr : (m1.pmmAllocUnmapped stackPages).1 = frameAddr b := by
      rw [Machine.pmmAllocUnmapped, halloc]
      rfl
    have hindex : lvIndex userStackTop 4 = 2 := by decide
    have hmissing : missing (m1.pmmAllocUnmapped stackPages).2.mem userStackTop 3 t = 3 :=
      if_pos (by rw [hindex]; exact hslot)
    rw [haddr, mapStack_eq] at hmapStack
    obtain ⟨ma, hfirst, hrest⟩ := Option.bind_eq_some_iff.mp ((Loop.upTo_succ_left ..).symm.trans hmapStack)
    rw [stackPage_zero] at hfirst
    rw [← hpmm2, ← hmissing] at hfew
    have hlinks := hinv2.tables.map_exhausted ((hinv2.roots t).mp List.mem_cons_self) ⟨by decide, by decide⟩ hclean2
      (Nat.lt_of_not_le hfew) hfirst
    have hstable := Machine.stable_linksZero taskFlags (m1.pmmAllocUnmapped stackPages).2.log
    have hm2 : LinksZero (m1.pmmAllocUnmapped stackPages).2.log m2 :=
      Loop.upTo_invariant (fun _ m => LinksZero _ m) hlinks (fun _ _ _ _ hl hmap => hstable.map hmap hl) hrest
    have hm4 := hstable.mapTwoPages hdata (hstable.mapTwoPages htext hm2)
    have hsub : k.machine.log <:+ (m1.pmmAllocUnmapped stackPages).2.log :=
      (Machine.createUserPml4_suffix hcreate).trans (List.suffix_cons ..)
    obtain ⟨l', hl', hmem⟩ := hm4.mono hsub
    rw [addTcb_machine] at hlog
    exact hzero (mem_of_suffix hl' hmem hlog)
  · -- the failed allocation's frames are not free
    have haddr : (m1.pmmAllocUnmapped stackPages).1 = 0#64 := by
      rw [Machine.pmmAllocUnmapped, hfail]
    have hbad := hstackFree 0 (by decide)
    have hframe : frame 0#64 = 0 := by decide
    rw [haddr, hframe, Nat.add_zero, Pmm.free_iff, hvalid1.zero] at hbad
    cases hbad

/-- `add_task` is all or nothing exactly with room in the task table and enough free frames. -/
theorem addTask_all_or_nothing_iff (h : Session.Inv w rank ⟨k.machine, roots⟩) (hclean : Clean k.machine)
    (hfunc : funcAddr.toNat < 2 ^ 51) (hnear : frame k.machine.cr3 = frame k.machine.sPml4Table ∨
      ∀ f, k.machine.pmm.free f = true → f < 2 ^ 27) (debug : Bool) (taskName : Word) :
    AddsAllOrNothing w roots k debug taskName funcAddr ↔ RoomForTask roots k :=
  ⟨fun hall => hall.room h hclean hnear, fun hroom => hroom.adds h hclean hfunc hnear debug taskName⟩

/-- The kernel right after boot, with a number of tasks already in the table. -/
def runningWith (count : Nat) : Kernel := ⟨runningMachine (fun _ => 0#64) reservedPmm, fun _ => TCB.zero, 0, count⟩

lemma runningWith_inv (count : Nat) :
    Session.Inv bootWindow (bootRank bootWindow (4 + ·)) ⟨(runningWith count).machine, [1]⟩ :=
  Userland.booted.inv

lemma runningWith_room {count : Nat} (hcount : count < maxTasks) : RoomForTask [1] (runningWith count) := by
  have hserved := Userland.taskServed_running
  have hv1 : (reservedPmm.handOut 0x800 1).Valid :=
    reservedPmm_valid.handOut (by decide) hserved.pml4
  have hv2 : (Session.afterNewPml4 ⟨(runningWith count).machine, [1]⟩ 0x800).Valid := hv1.singles _
  have hv3 : ((Session.afterNewPml4 ⟨(runningWith count).machine, [1]⟩ 0x800).handOut 0x802 stackPages).Valid :=
    hv2.handOut (by decide) hserved.stack
  have hkernel := (hserved.kernel.card_singles hv1).1
  have htables := (hserved.tables.card_singles hv3).1
  exact ⟨hcount, 0x800, hserved.pml4, Nat.le.intro ((Nat.add_comm ..).trans hkernel), 0x802, hserved.stack,
    Nat.le.intro ((Nat.add_comm ..).trans htables)⟩

/-- Right after boot a task is added. -/
theorem running_adds_task : AddsAllOrNothing bootWindow [1] (runningWith 0) false 0#64 0x100000#64 := by
  apply (addTask_all_or_nothing_iff (runningWith_inv 0) runningSession_clean (by decide) (.inl (by decide +kernel)) false
    0#64).mpr
  exact runningWith_room (by decide)

/-- An eleventh task is not added, and what was made for it is not given back. -/
theorem running_leaks_task : ¬ AddsAllOrNothing bootWindow [1] (runningWith 10) false 0#64 0x100000#64 := by
  intro hall
  have hroom := hall.room (runningWith_inv 10) runningSession_clean (.inl (by decide +kernel))
  exact absurd hroom.1 (by decide)

end Kernel

end HaiirOS
