import HaiirOS.Proofs.AllOrNothing
import HaiirOS.Proofs.MmapRange
import HaiirOS.Proofs.TwinMaps

/-!
# What new memory shows

`mmap_syscall` hands frames out with the words that they hold. Two runs that differ only in what
was left in free frames read the same from the pages that it maps if they find the same words in
the frames for these pages, and zeros in those that become page tables.
-/

namespace HaiirOS

open AddressWord Runs

/-- Two machines that differ only in the words of free frames. -/
structure SameInUse (m m₁ : Machine) : Prop where
  pmm : m₁.pmm = m.pmm
  sPml4Table : m₁.sPml4Table = m.sPml4Table
  cr3 : m₁.cr3 = m.cr3
  mem : ∀ f (i : Fin 512), m.pmm.used f = true → m₁.mem (slot f i) = m.mem (slot f i)

/-- The byte at a physical address. -/
def byteAt (mem : Mem) (a : Nat) : BitVec 8 := (mem (a / 8 * 8) >>> (8 * (a % 8))).setWidth 8

namespace Kernel

/-- The byte that the current task reads at `v`, if it may read there. -/
def userByte (k : Kernel) (v : Word) : Option (BitVec 8) :=
  if Canonical v then
    (mmu k.machine.mem (frame k.getAddrSpace) v).bind fun x =>
      if x.rights.user = true then some (byteAt k.machine.mem x.phys) else none
  else none

/-- `mmap_syscall` returns the same in both kernels, and on the pages that it maps the task then reads the
same bytes in both. -/
def MmapAlike (k k₁ : Kernel) (addr len : Word) (prot : BitVec 32) : Prop :=
  ∃ r k' k₁', k.mmapSyscall addr len prot = some (r, k') ∧ k₁.mmapSyscall addr len prot = some (r, k₁') ∧
    ∀ v, (∃ i < mmapPagesCount len, pageNo v = pageNo (mmapPage addr i)) → k₁'.userByte v = k'.userByte v

end Kernel

/-- On both machines the frames that `mmap_syscall` maps hold the same words, and those that it makes into
tables hold zeros. -/
structure SameFrames (root : Nat) (addr len : Word) (m m₁ : Machine) : Prop where
  pages : ∃ b, m.pmm.NextRun (mmapPagesCount len) b ∧ ∀ i < mmapPagesCount len, ∀ j : Fin 512,
    m₁.mem (slot (b + i % 2 ^ 20) j) = m.mem (slot (b + i % 2 ^ 20) j)
  tables : Supplied m.mem (missingRange m.mem root (mmapPage addr) 0 (mmapPagesCount len)).card
    (m.pmm.pmmAllocUnmapped (mmapPagesCount len)).2
  tables₁ : Supplied m₁.mem (missingRange m₁.mem root (mmapPage addr) 0 (mmapPagesCount len)).card
    (m₁.pmm.pmmAllocUnmapped (mmapPagesCount len)).2

section

variable {w : WindowTables} {rank rank' : Nat → Nat} {roots : List Nat} {root : Nat} {page : Nat → Word}
  {f : Nat → Nat} {flags : PageFlags} {n i g : Nat} {m m' : Machine} {v : Word}

lemma byteAt_frame {mem mem' : Mem} (h : ∀ j : Fin 512, mem' (slot g j) = mem (slot g j)) (o : Nat) :
    byteAt mem' (g * 4096 + o % 4096) = byteAt mem (g * 4096 + o % 4096) := by
  have haddr : (g * 4096 + o % 4096) / 8 * 8 = slot g (o % 4096 / 8) := by
    unfold slot
    omega
  have hword := h ⟨o % 4096 / 8, by omega⟩
  rw [byteAt, byteAt, haddr, hword]

/-- The pages of a loop of maps lead to its frames. -/
lemma MapLoop.phys (h : MapLoop w rank rank' roots root page f flags n m m') (hr : rank root = 4)
    (hplain : PlainFlags flags) (hi : i < n) (hfit : f i < 2 ^ 40) (hv : pageNo v = pageNo (page i)) {x : Translation}
    (hx : mmu m'.mem root v = some x) : x.phys = f i * 4096 + v.toNat % 4096 := by
  have hr' : rank' root = 4 := by rw [h.ranks root (by omega), hr]
  obtain ⟨p, hp, he⟩ := h.leaves i hi
  have hp' : leafTable m'.mem v 3 root = some p := by
    rw [← hp]
    exact leafTable_congr fun k h2 hk => lvIndex_eq_of_pageNo hv (by omega) (by omega)
  have hphys := h.inv.tables.phys_mmuWalk (v := v) hr' .all
  rw [← mmu, hx, hp', lvIndex_eq_of_pageNo hv (by decide) (by decide)] at hphys
  simp only [Option.map_some, Option.bind_some, he] at hphys
  split_ifs at hphys with hpres
  rw [Option.some.injEq, frameAddr, Tables.frame_word hfit hplain] at hphys
  exact hphys

end

/-- After an allocation the machines differ in the words of the new frames at most. -/
lemma SameInUse.twin_alloc {m n : Machine} (h : SameInUse m n) (c win : Nat) :
    Twin (fun g => (m.pmmAllocUnmapped c).2.pmm.used g = true ∧ m.pmm.used g = false) win
      (m.pmmAllocUnmapped c).2 (n.pmmAllocUnmapped c).2 := by
  refine ⟨?_, fun g i hg hapart _ => h.mem g i ?_, fun g hg => hg.1⟩
  · rw [Machine.pmmAllocUnmapped, h.pmm]
    rfl
  · by_contra hfree
    exact hapart ⟨hg, Bool.eq_false_iff.mpr hfree⟩

section

variable {w : WindowTables} {apart : Nat → Prop} {rank rank' rank₁ rank₁' : Nat → Nat} {roots roots₁ : List Nat}
  {root : Nat} {page : Nat → Word} {f : Nat → Nat} {flags : PageFlags} {n i : Nat} {d e d' e' : Machine} {v : Word}

/-- After the same loop on both machines the frames that held the same words before do so still. -/
lemma Twin.words (h : Twin apart w.win d' e') (hl : LoopAt w rank rank' roots root page f flags n n d d')
    (hl₁ : LoopAt w rank₁ rank₁' roots₁ root page f flags n n e e') (hdata : ∀ f, apart f → rank' f = 0)
    (hdata₁ : ∀ f, apart f → rank₁' f = 0) {g : Nat} (hg : g ≠ w.pt)
    (hwords : ∀ j : Fin 512, e.mem (slot g j) = d.mem (slot g j)) (j : Fin 512) :
    e'.mem (slot g j) = d'.mem (slot g j) := by
  by_cases hin : d'.pmm.used g = true ∧ ¬ apart g
  · refine h.mem g j hin.1 hin.2 fun heq => ?_
    exact hg (slot_inj j.isLt (by decide) heq).1
  · -- the frame is no table on either machine
    have h0 : rank' g = 0 := by
      by_contra hr
      refine hin ⟨(hl.loop.inv.tables.frame_ok g hr).2.2.2, fun ha => hr (hdata g ha)⟩
    have h0₁ : rank₁' g = 0 := by
      by_contra hr
      refine hin ⟨?_, fun ha => hr (hdata₁ g ha)⟩
      rw [← h.pmm]
      exact (hl₁.loop.inv.tables.frame_ok g hr).2.2.2
    rw [hl₁.data g j h0₁, hl.data g j h0, hwords]

/-- After the same loop on both machines all pages but the window's are translated alike. -/
lemma Twin.mmu_page (h : Twin apart w.win d' e') (hl : LoopAt w rank rank' roots root page f flags n n d d')
    (hdata : ∀ f, apart f → rank' f = 0) (hr : rank root = 4) (hv : pageNo v ≠ 0x200) :
    mmu e'.mem root v = mmu d'.mem root v := by
  have ht := hl.loop.inv.tables
  have hr' : rank' root = 4 := by rw [hl.loop.ranks root (by omega), hr]
  refine ht.mmuWalk_eq (fun t j h2 => ht.twin_table hdata h h2 j) hr' (fun p hp => ?_) .all
  have hrp := ht.rank_leafTable hr' hp
  refine h.mem p (index v 1) (ht.frame_ok p (by omega)).2.2.2 (fun ha => ?_) (ht.leaf_ne_win hr' hp hv)
  have h0 := hdata p ha
  omega

end

namespace Session.Inv

variable {w : WindowTables} {rank rank₁ : Nat → Nat} {roots roots₁ : List Nat} {root : Nat} {k : Kernel} {n : Machine}
  {addr len : Word}

/-- With the same words in its frames `mmap_syscall` shows the same. -/
lemma mmap_alike (h : Session.Inv w rank ⟨k.machine, roots⟩) (h₁ : Session.Inv w rank₁ ⟨n, roots₁⟩)
    (hsame : SameInUse k.machine n) (hroot : root ∈ roots) (hroot₁ : root ∈ roots₁)
    (hspace : k.getAddrSpace = frameAddr root) (prot : BitVec 32)
    (hpage : ∀ i < mmapPagesCount len, 0x800 ≤ pageNo (mmapPage addr i))
    (hframes : SameFrames root addr len k.machine n) : k.MmapAlike { k with machine := n } addr len prot := by
  obtain ⟨b, hb, halloc⟩ := h.tables.valid.alloc_frame (mmapPagesCount len)
  obtain ⟨b', hnext, hwords⟩ := hframes.pages
  have halloc₁ : (n.pmm.pmmAllocUnmapped (mmapPagesCount len)).1 = b * 4096 := by
    rw [hsame.pmm]
    exact halloc
  have hr := (h.roots root).mp hroot
  have hr₁ := (h₁.roots root).mp hroot₁
  have hpages (i j : Nat) (hno : pageNo (mmapPage addr i) = pageNo (mmapPage addr j)) :
      b + i % 2 ^ 20 = b + j % 2 ^ 20 := by
    rw [mmapPage_no, mmapPage_no] at hno
    omega
  -- the frames that the allocation took are apart; no table was among them
  have hdata (g : Nat) (hg : (k.machine.pmmAllocUnmapped (mmapPagesCount len)).2.pmm.used g = true ∧
      k.machine.pmm.used g = false) : rank g = 0 :=
    h.tables.rank_of_free hg.2
  have hdata₁ (g : Nat) (hg : (k.machine.pmmAllocUnmapped (mmapPagesCount len)).2.pmm.used g = true ∧
      k.machine.pmm.used g = false) : rank₁ g = 0 := by
    rw [← hsame.pmm] at hg
    exact h₁.tables.rank_of_free hg.2
  obtain ⟨d', e', rank', rank₁', hloop, hloop₁, hl, hl₁, htwin, hdata', hdata₁'⟩ := twin_loop
    (f := fun i => b + i % 2 ^ 20) (h.alloc (mmapPagesCount len)) (h₁.alloc (mmapPagesCount len))
    (hsame.twin_alloc _ _) hdata hdata₁ hr hr₁ (plain_mmapFlags prot) (fun i _ => by omega) hpage
    (fun i _ j _ => hpages i j) hframes.tables hframes.tables₁
  refine ⟨_, _, _, Kernel.mmapSyscall_eq hspace prot halloc hloop,
    Kernel.mmapSyscall_eq (k := { k with machine := n }) hspace prot halloc₁ hloop₁, ?_⟩
  rintro v ⟨i, hi, hv⟩
  have hge := hpage i hi
  have hb' : b = b' := by
    rw [h.tables.valid.alloc_eq (by omega) hnext] at halloc
    exact (Nat.eq_of_mul_eq_mul_right (by decide) halloc).symm
  have hhigh := h.nextRun_high (by omega) hnext
  have hlow := h.tables.low.2.2.2
  have hspace' : frame k.getAddrSpace = root := by
    have hlt := (h.tables.frame_ok root (by omega)).2.2.1
    rw [hspace, frameAddr, frame_ofNat (by omega)]
  have hmmu : mmu e'.mem root v = mmu d'.mem root v := htwin.mmu_page hl hdata' hr (by omega)
  have hframe := htwin.words hl hl₁ hdata' hdata₁' (by omega) (hb' ▸ hwords i hi)
  change (if Canonical v then (mmu e'.mem (frame k.getAddrSpace) v).bind _ else none) =
    if Canonical v then (mmu d'.mem (frame k.getAddrSpace) v).bind _ else none
  rw [hspace', hmmu]
  cases hx : mmu d'.mem root v with
  | none => rfl
  | some x =>
    have hphys := hl.loop.phys hr (plain_mmapFlags prot) hi (by omega) hv hx
    simp only [Option.bind_some, hphys, byteAt_frame hframe]

end Session.Inv

/-- In any two runs after which two machines differ in the words of free frames only, the task reads the same
from the pages that `mmap_syscall` maps, if the frames for them hold the same words on both and those that
become page tables hold zeros. -/
theorem mmap_alike_of_runs {w : WindowTables} {pts pts₁ : Nat → Nat} {m m₁ : Machine} (hboot : Booted w pts m)
    (hboot₁ : Booted w pts₁ m₁) {ops ops₁ : List PagingOp} {k : Kernel} {n : Machine} {roots roots₁ : List Nat}
    (hrun : Run Session.step ⟨m, [w.pml4]⟩ ops ⟨k.machine, roots⟩)
    (hok : Along Session.Sound Session.step ⟨m, [w.pml4]⟩ ops)
    (hrun₁ : Run Session.step ⟨m₁, [w.pml4]⟩ ops₁ ⟨n, roots₁⟩)
    (hok₁ : Along Session.Sound Session.step ⟨m₁, [w.pml4]⟩ ops₁) (hsame : SameInUse k.machine n) {root : Nat}
    (hroot : root ∈ roots) (hroot₁ : root ∈ roots₁) (hspace : k.getAddrSpace = frameAddr root) {addr len : Word}
    (prot : BitVec 32) (hpage : ∀ i < mmapPagesCount len, 0x800 ≤ pageNo (mmapPage addr i))
    (hframes : SameFrames root addr len k.machine n) : k.MmapAlike { k with machine := n } addr len prot := by
  obtain ⟨rank, hinv⟩ := hboot.inv.run hrun hok
  obtain ⟨rank₁, hinv₁⟩ := hboot₁.inv.run hrun₁ hok₁
  exact hinv.mmap_alike hinv₁ hsame hroot hroot₁ hspace prot hpage hframes

/-- What a driver leaves in memory from 8 MiB on is a sound step right after boot. -/
lemma run_leftover (mem : Mem) :
    Run Session.step (runningSession reservedPmm) [.outside (runningMachine mem reservedPmm).mem reservedPmm]
        ⟨runningMachine mem reservedPmm, [1]⟩ ∧
      Along Session.Sound Session.step (runningSession reservedPmm)
        [.outside (runningMachine mem reservedPmm).mem reservedPmm] := by
  have hboot := booted_running (fun _ => 0#64) reservedPmm_valid fun _ hf => reservedPmm_used hf
  have hlow (t : Nat) (ht : (runningSession reservedPmm).IsTable t) : t < 0x800 :=
    (hboot.low t (Booted.rank_ne_zero_cases ((runningSession_inv.isTable_iff t).mp ht))).2.1
  refine ⟨.cons rfl (.nil _), ⟨fun t i ht => ?_, reservedPmm_valid, fun _ hf => reservedPmm_used hf, fun t ht =>
    reservedPmm_used (hlow t ht)⟩, fun _ _ => trivial⟩
  have hlt := hlow t ht
  have haddr : slot t i < 0x800000 := by
    unfold slot
    omega
  exact (if_pos haddr).trans (if_pos haddr).symm

/-- Zeros but for a word in frame `g`. -/
def leftover (g : Nat) (e : Word) : Mem := Function.update (fun _ => 0#64) (slot g 0) e

/-- The kernel right after boot, with that word in memory. -/
def leftoverKernel (g : Nat) (e : Word) : Kernel :=
  { bootKernel with machine := runningMachine (leftover g e) reservedPmm }

lemma slot_ne_free {pmm : Pmm} {f g : Nat} (hf : pmm.used f = true) (hg : pmm.used g = false) (i : Fin 512) :
    slot f i ≠ slot g 0 := by
  intro heq
  obtain ⟨rfl, -⟩ := slot_inj i.isLt (by decide) heq
  rw [hf] at hg
  cases hg

lemma sameInUse_leftover {g : Nat} (hg : reservedPmm.used g = false) (e : Word) :
    SameInUse bootKernel.machine (leftoverKernel g e).machine := by
  refine ⟨rfl, rfl, rfl, fun f i hf => ?_⟩
  have hmem : leftover g e (slot f i) = 0#64 := Function.update_of_ne (slot_ne_free hf hg i) ..
  change (if slot f i < 0x800000 then _ else leftover g e (slot f i)) = _
  rw [hmem]
  rfl

/-- A leftover in a frame that goes unused does not show in the first region of a task. -/
theorem mmap_alike_boot : bootKernel.MmapAlike (leftoverKernel 0x900 0x2a#64) 0x8000000000#64 8#64 3#32 := by
  have hboot := booted_running (fun _ => 0#64) reservedPmm_valid fun _ hf => reservedPmm_used hf
  have hrun : Run Session.step (runningSession reservedPmm) [] ⟨bootKernel.machine, [1]⟩ := .nil _
  obtain ⟨hrun₁, hok₁⟩ := run_leftover (leftover 0x900 0x2a#64)
  have hroot : 1 ∈ [1] := List.mem_singleton_self 1
  have hsupplied (mem : Mem) (hzero : ∀ g, g < 0x900 → ∀ i : Fin 512, mem (slot g i) = 0#64) :
      Supplied (runningMachine mem reservedPmm).mem
        (missingRange (runningMachine mem reservedPmm).mem 1 (mmapPage 0x8000000000#64) 0 1).card
        (reservedPmm.pmmAllocUnmapped 1).2 := by
    have hcard : (missingRange (runningMachine mem reservedPmm).mem 1 (mmapPage 0x8000000000#64) 0 1).card ≤ 3 := by
      rw [missingRange, Nat.Ico_succ_singleton, Finset.singleton_biUnion, card_missingTables]
      exact missing_le _ _ 3 1
    have hlow : ∀ g ∈ (reservedPmm.pmmAllocUnmapped 1).2.nextFrames 3, g < 0x900 := by decide +kernel
    have hall : Supplied (runningMachine mem reservedPmm).mem 3 (reservedPmm.pmmAllocUnmapped 1).2 :=
      supplied_running (reservedPmm_valid.alloc 1) (by decide +kernel) (fun g hg => hzero g (hlow g hg)) reservedPmm
    rw [← Nat.add_sub_cancel' hcard] at hall
    exact hall.take
  have hzero (g : Nat) (hg : g < 0x900) (i : Fin 512) : leftover 0x900 0x2a#64 (slot g i) = 0#64 := by
    refine Function.update_of_ne (fun heq => ?_) ..
    have hno := (slot_inj i.isLt (by decide) heq).1
    omega
  refine mmap_alike_of_runs hboot hboot hrun trivial hrun₁ hok₁ (sameInUse_leftover (by decide +kernel) _) hroot hroot
    rfl 3#32 (by decide) ⟨⟨0x800, ?_, fun i hi j => ?_⟩, hsupplied _ fun _ _ _ => rfl, hsupplied _ hzero⟩
  · exact reservedPmm_valid.nextRun_of_alloc (by decide +kernel) (by decide)
  · obtain rfl : i = 0 := by
      have hone : mmapPagesCount 8#64 = 1 := by decide
      omega
    change (if slot 0x800 j < 0x800000 then _ else leftover 0x900 0x2a#64 (slot 0x800 j)) = _
    rw [hzero 0x800 (by decide) j]
    rfl

/-- A task with its PML4 in frame `0x800`, with a word that an earlier owner left in frame `0x801`. -/
def leftoverTask (e : Word) : Kernel :=
  { taskKernel taskPmm with machine :=
      { runningMachine (Function.update taskMem (slot 0x801 0) e) taskPmm with cr3 := 0x800000#64 } }

/-- After two runs that differ in what a driver left in frame `0x800` the first region shows it, and so does the
first region of a task with a PML4 of its own. -/
theorem mmap_shows_leftovers :
    (Run Session.step (runningSession reservedPmm) [] ⟨bootKernel.machine, [1]⟩ ∧
      (Run Session.step (runningSession reservedPmm) [.outside (leftoverKernel 0x800 0x2a#64).machine.mem reservedPmm]
        ⟨(leftoverKernel 0x800 0x2a#64).machine, [1]⟩ ∧
      Along Session.Sound Session.step (runningSession reservedPmm)
        [.outside (leftoverKernel 0x800 0x2a#64).machine.mem reservedPmm]) ∧
      SameInUse bootKernel.machine (leftoverKernel 0x800 0x2a#64).machine ∧
      ¬ bootKernel.MmapAlike (leftoverKernel 0x800 0x2a#64) 0x8000000000#64 8#64 3#32) ∧
    SameInUse (leftoverTask 0#64).machine (leftoverTask 0x2a#64).machine ∧
      ¬ (leftoverTask 0#64).MmapAlike (leftoverTask 0x2a#64) 0x8000000000#64 8#64 3#32 := by
  have hdiffer {k k₁ : Kernel} (b b₁ : BitVec 8) (hne : b₁ ≠ b)
      (hb : (k.mmapSyscall 0x8000000000#64 8#64 3#32).map (fun r => r.2.userByte 0x8000000000#64) = some (some b))
      (hb₁ : (k₁.mmapSyscall 0x8000000000#64 8#64 3#32).map (fun r => r.2.userByte 0x8000000000#64) = some (some b₁)) :
      ¬ k.MmapAlike k₁ 0x8000000000#64 8#64 3#32 := by
    rintro ⟨r, k', k₁', hmmap, hmmap₁, hsame⟩
    rw [hmmap, Option.map_some, Option.some.injEq] at hb
    rw [hmmap₁, Option.map_some, Option.some.injEq, hsame _ ⟨0, by decide, by decide⟩, hb] at hb₁
    exact hne (Option.some.inj hb₁).symm
  have htask : SameInUse (leftoverTask 0#64).machine (leftoverTask 0x2a#64).machine := by
    refine ⟨rfl, rfl, rfl, fun f i hf => ?_⟩
    have hne := slot_ne_free hf (by decide +kernel : taskPmm.used 0x801 = false) i
    have hmem (e : Word) : Function.update taskMem (slot 0x801 0) e (slot f i) = taskMem (slot f i) :=
      Function.update_of_ne hne ..
    change (if slot f i < 0x800000 then _ else Function.update taskMem (slot 0x801 0) 0x2a#64 (slot f i)) =
      if slot f i < 0x800000 then _ else Function.update taskMem (slot 0x801 0) 0#64 (slot f i)
    rw [hmem, hmem]
  refine ⟨⟨.nil _, run_leftover _, sameInUse_leftover (by decide +kernel) _, ?_⟩, htask, ?_⟩
  · exact hdiffer 0#8 0x2a#8 (by decide) (by decide +kernel) (by decide +kernel)
  · exact hdiffer 0#8 0x2a#8 (by decide) (by decide +kernel) (by decide +kernel)

end HaiirOS
