import HaiirOS.Proofs.Booted
import HaiirOS.Proofs.MmapSpec

/-!
# The pages that mmap maps

When `mmap_syscall` maps exactly the pages of the requested range, to distinct new frames, and
returns the address of the first page: for a start that is a multiple of two pages and a
length below 4 GiB that is no multiple of the page size, or of 4 GiB exactly.
-/

namespace HaiirOS

open AddressWord RunSearch

/-- Page `x` has bytes in common with the `len` bytes from `addr` on. -/
def Covers (addr len : Word) (x : Nat) : Prop := addr.toNat < (x + 1) * 4096 ∧ x * 4096 < addr.toNat + len.toNat

/-- One of the events in `l` wrote the leaf entry for `v`. -/
def LeafWritten (l : List Event) (mem : Mem) (root : Nat) (v : Word) : Prop :=
  ∃ p, leafTable mem v 3 root = some p ∧ .store (slot p (lvIndex v 1)) ∈ l

namespace Kernel

/-- `mmap_syscall` returns the address of the page of `addr`, and it has written the leaf entries of the
pages of the range and of no other page, with distinct frames that it has allocated. -/
def MapsRange (k : Kernel) (root : Nat) (addr len : Word) (prot : BitVec 32) : Prop :=
  ∃ k' l, k.mmapSyscall addr len prot = some (base addr, k') ∧ k'.machine.log = l ++ k.machine.log ∧
    (∀ v, LeafWritten l k'.machine.mem root v ↔ Covers addr len (pageNo v)) ∧
    ∃ g : Nat → Nat,
      (∀ v, Covers addr len (pageNo v) → ∃ p, leafTable k'.machine.mem v 3 root = some p ∧
        k'.machine.mem (slot p (lvIndex v 1)) = frameAddr (g (pageNo v)) ||| mmapFlags prot) ∧
      (∀ x, Covers addr len x → k.machine.pmm.used (g x) = false ∧
        ∃ c a, .alloc c a ∈ l ∧ a ≤ g x * 4096 ∧ g x * 4096 < a + c * 4096) ∧
      ∀ x y, Covers addr len x → Covers addr len y → g x = g y → x = y

end Kernel

/-- The rounds of the loop hit the pages of the range exactly. -/
lemma rounds_covers_iff {a n : Nat} (hn : 0 < n) (ha : a % 4096 = 0) :
    (∀ x, (∃ i < (n / 4096 + 1) % 2 ^ 32, x = a / 4096 + i % 2 ^ 20) ↔ a < (x + 1) * 4096 ∧ x * 4096 < a + n) ↔
      (n % 4096 ≠ 0 ∧ n < 2 ^ 32 ∨ n = 2 ^ 32) := by
  constructor
  · intro h
    rcases Nat.lt_trichotomy n (2 ^ 32) with hlt | heq | hgt
    · refine Or.inl ⟨fun hz => ?_, hlt⟩
      -- the round after the last page of the range
      have hlast := (h (a / 4096 + n / 4096)).mp ⟨n / 4096, by omega, by omega⟩
      omega
    · exact Or.inr heq
    · -- the first page that the rounds do not get to
      obtain ⟨x, hx⟩ : ∃ x, x = a / 4096 + 1048576 := ⟨_, rfl⟩
      obtain ⟨i, -, hi⟩ := (h x).mpr ⟨by omega, by omega⟩
      omega
  · intro h x
    constructor
    · rintro ⟨i, hi, rfl⟩
      omega
    · intro hx
      exact ⟨x - a / 4096, by omega, by omega⟩

section

variable {w : WindowTables} {rank rank' : Nat → Nat} {roots : List Nat} {root : Nat} {page : Nat → Word}
  {f : Nat → Nat} {flags : PageFlags} {n : Nat} {m m' : Machine}

lemma Tables.nextRun_of_allFree (h : Tables rank w m) (hn : 0 < n)
    (hrun : ∃ t, t + n ≤ 8 * m.pmm.bitmapSize ∧ AllFree m.pmm.free t n) {b : Nat}
    (halloc : (m.pmm.pmmAllocUnmapped n).1 = b * 4096) : m.pmm.NextRun n b := by
  obtain ⟨t, hfit, hfree⟩ := hrun
  rcases m.pmm.pmmAllocUnmapped_spec hn h.valid.lastIdxBit h.valid.zero with ⟨s, -, hs, hr⟩ | ⟨-, hno, -⟩
  · rw [hr] at halloc
    obtain rfl : s = b := by omega
    exact hs
  · have hge : 0x800 ≤ t := by
      by_contra hlt
      have hfree0 := hfree t (Nat.le_refl t) (by omega)
      rw [Pmm.free_iff, h.low_used t (by omega)] at hfree0
      cases hfree0
    refine (hno t ?_ hfit hfree).elim
    simp only [Pmm.cursor, Pmm.restart]
    omega

/-- A loop of maps writes the leaf entries of its pages and no others. -/
lemma MapLoop.leafWritten_iff (h : MapLoop w rank rank' roots root page f flags n m m') (hr : rank root = 4) :
    ∃ l, m'.log = l ++ m.log ∧ ∀ v, LeafWritten l m'.mem root v ↔ ∃ i < n, pageNo v = pageNo (page i) := by
  obtain ⟨l, hlog, hset, hstores⟩ := h.written
  have hr' : rank' root = 4 := by rw [h.ranks root (by omega), hr]
  refine ⟨l, hlog, fun v => ⟨?_, ?_⟩⟩
  · rintro ⟨q, hq, hstore⟩
    rcases hstores _ hstore with ⟨i, hi, p, hp, heq⟩ | ⟨u, j, heq, hu⟩
    · obtain ⟨rfl, hidx⟩ := slot_inj (lvIndex_lt v 1) (lvIndex_lt (page i) 1) heq
      exact ⟨i, hi, (h.inv.tables.leafTable_inj hr' hr' hq hp hidx).1⟩
    · obtain ⟨rfl, -⟩ := slot_inj (lvIndex_lt v 1) j.isLt heq
      have hrq := h.inv.tables.rank_leafTable hr' hq
      omega
  · rintro ⟨i, hi, hno⟩
    obtain ⟨p, hp, hstore⟩ := hset i hi
    refine ⟨p, ?_, ?_⟩
    · rw [← hp]
      exact leafTable_congr fun k h2 hk => lvIndex_eq_of_pageNo hno (by omega) (by omega)
    · rw [lvIndex_eq_of_pageNo hno (by decide) (by decide)]
      exact hstore

end

namespace Kernel

variable {w : WindowTables} {rank : Nat → Nat} {roots : List Nat} {root : Nat} {k : Kernel}

/-- In any task's address space, with a free run of the size that the code asks for and free frames for
tables, `mmap_syscall` maps the range if and only if its start and length are of the right kind. -/
theorem mmap_maps_range_iff (h : Session.Inv w rank ⟨k.machine, roots⟩) (hroot : root ∈ roots)
    (hspace : k.getAddrSpace = frameAddr root) {addr len : Word} (haddr : 2 ^ 39 ≤ addr.toNat) (hlen : 0 < len.toNat)
    (hend : addr.toNat + len.toNat ≤ 2 ^ 47) (prot : BitVec 32)
    (hrun : ∃ t, t + mmapPagesCount len ≤ 8 * k.machine.pmm.bitmapSize ∧
      AllFree k.machine.pmm.free t (mmapPagesCount len))
    (hsup : Supplied k.machine.mem (missingRange k.machine.mem root (mmapPage addr) 0 (mmapPagesCount len)).card
      (k.machine.pmm.pmmAllocUnmapped (mmapPagesCount len)).2) :
    k.MapsRange root addr len prot ↔
      addr.toNat % 8192 = 0 ∧ (len.toNat % 4096 ≠ 0 ∧ len.toNat < 2 ^ 32 ∨ len.toNat = 2 ^ 32) := by
  have hno (i : Nat) : pageNo (mmapPage addr i) = addr.toNat / 4096 + i % 2 ^ 20 := by
    rw [mmapPage_no]
    omega
  have hhalf (i : Nat) (_ : i < mmapPagesCount len) : 0x800 ≤ pageNo (mmapPage addr i) := by
    rw [hno]
    omega
  obtain ⟨b, m', rank', halloc, hmmap, hl⟩ := mmapSyscall_spec h hroot hspace prot hhalf hsup
  have hr := (h.roots root).mp hroot
  obtain ⟨l, hlog, hwritten⟩ := hl.leafWritten_iff hr
  have hlog' : m'.log = (l ++ [.alloc (mmapPagesCount len) (b * 4096)]) ++ k.machine.log := by
    rw [hlog, Machine.pmmAllocUnmapped, halloc, List.append_assoc]
    rfl
  have hwritten' (v : Word) : LeafWritten (l ++ [.alloc (mmapPagesCount len) (b * 4096)]) m'.mem root v ↔
      ∃ i < mmapPagesCount len, pageNo v = addr.toNat / 4096 + i % 2 ^ 20 := by
    simp only [LeafWritten, List.mem_append, List.mem_singleton, reduceCtorEq, or_false]
    rw [← LeafWritten, hwritten]
    simp only [hno]
  constructor
  · rintro ⟨k', l', hmmap', hl', hpages, -⟩
    rw [hmmap, Option.some.injEq, Prod.mk.injEq] at hmmap'
    obtain ⟨hret, rfl⟩ := hmmap'
    obtain rfl : l ++ [.alloc (mmapPagesCount len) (b * 4096)] = l' := List.append_cancel_right (hlog'.symm.trans hl')
    have h8192 := (clear_bit12_eq_base_iff addr).mp hret
    refine ⟨h8192, (rounds_covers_iff (a := addr.toNat) hlen (by omega)).mp fun x => ?_⟩
    by_cases hx : x < 2 ^ 36
    · have hpage : pageNo (BitVec.ofNat 64 (x * 4096)) = x := by
        rw [pageNo, BitVec.toNat_ofNat]
        omega
      have hiff := (hwritten' (BitVec.ofNat 64 (x * 4096))).symm.trans (hpages _)
      rw [hpage] at hiff
      exact hiff
    · constructor
      · rintro ⟨i, -, rfl⟩
        omega
      · omega
  · rintro ⟨h8192, hkind⟩
    have hcovers := (rounds_covers_iff (a := addr.toNat) hlen (by omega)).mpr hkind
    have hret := (clear_bit12_eq_base_iff addr).mpr h8192
    refine ⟨_, _, by rw [hmmap, hret], hlog', fun v => (hwritten' v).trans (hcovers _), fun x => b + (x - addr.toNat / 4096),
      fun v hv => ?_, fun x hx => ?_, fun x y hx hy hxy => ?_⟩
    · obtain ⟨i, hi, hv'⟩ := (hcovers _).mpr hv
      obtain ⟨p, hp, hentry⟩ := hl.leaves i hi
      have hidx (j : Nat) (h0 : 0 < j) (h4 : j ≤ 4) : lvIndex v j = lvIndex (mmapPage addr i) j :=
        lvIndex_eq_of_pageNo (hv'.trans (hno i).symm) h0 h4
      refine ⟨p, ?_, ?_⟩
      · rw [← hp]
        exact leafTable_congr fun j h2 hj => hidx j (by omega) (by omega)
      · have hframe : addr.toNat / 4096 + i % 2 ^ 20 - addr.toNat / 4096 = i % 2 ^ 20 := by omega
        simp only [hidx 1 (by decide) (by decide), hv', hframe]
        exact hentry
    · obtain ⟨i, hi, rfl⟩ := (hcovers x).mpr hx
      replace hi : i < mmapPagesCount len := hi
      have hnext := h.tables.nextRun_of_allFree (by omega) hrun halloc
      have hfree := hnext.allFree (b + (addr.toNat / 4096 + i % 2 ^ 20 - addr.toNat / 4096)) (by omega) (by omega)
      refine ⟨(Pmm.free_iff _ _).mp hfree, mmapPagesCount len, b * 4096, ?_, ?_⟩
      · exact List.mem_append_right _ (List.mem_singleton_self _)
      · beta_reduce
        omega
    · obtain ⟨i, -, rfl⟩ := (hcovers x).mpr hx
      obtain ⟨j, -, rfl⟩ := (hcovers y).mpr hy
      beta_reduce at hxy
      omega

end Kernel

/-- The machine right after boot, with the kernel's address space as the current one. -/
def bootKernel : Kernel :=
  ⟨runningMachine (fun _ => 0#64) reservedPmm, fun _ => { TCB.zero with virtAddrSpace := 0x1000#64 }, 0, 1⟩

/-- Right after boot the frames from 8 MiB on hold zeros. -/
lemma clean_running {p : Pmm} (hlow : ∀ f, f < 0x800 → p.used f = true) :
    ∀ f ∈ p.freeSet, ∀ i : Fin 512, (runningMachine (fun _ => 0#64) p).mem (slot f i) = 0#64 := by
  intro f hf i
  refine if_neg fun hlt => ?_
  have hfree := (Pmm.free_iff _ f).mp (Pmm.mem_freeSet.mp hf).2
  have hused := hlow f (by unfold slot at hlt; omega)
  exact Bool.false_ne_true (hfree.symm.trans hused)

lemma stocked_running {k : Nat} (hk : k ≤ 0x100) :
    Stocked (runningMachine (fun _ => 0#64) reservedPmm).mem k reservedPmm :=
  ⟨clean_running fun _ hf => reservedPmm_used hf, hk.trans (by decide +kernel)⟩

lemma bootKernel_inv : Session.Inv bootWindow (bootRank bootWindow (4 + ·)) ⟨bootKernel.machine, [1]⟩ :=
  (booted_running (fun _ => 0#64) reservedPmm_valid fun _ hf => reservedPmm_used hf).inv

/-- One page at the first user address lacks three tables. -/
lemma bootKernel_supplied : Supplied bootKernel.machine.mem
    (missingRange bootKernel.machine.mem 1 (mmapPage 0x8000000000#64) 0 (mmapPagesCount 8#64)).card
    (bootKernel.machine.pmm.pmmAllocUnmapped (mmapPagesCount 8#64)).2 := by
  have hcount : mmapPagesCount 8#64 = 1 := by decide
  have hmissing : missing bootKernel.machine.mem (mmapPage 0x8000000000#64 0) 3 1 = 3 := by decide +kernel
  have hcard : (missingRange bootKernel.machine.mem 1 (mmapPage 0x8000000000#64) 0 1).card = 3 := by
    rw [missingRange, Nat.Ico_succ_singleton, Finset.singleton_biUnion, card_missingTables, hmissing]
  rw [hcount, hcard]
  exact supplied_running (reservedPmm_valid.alloc 1) (by decide +kernel) (fun _ _ _ => rfl) reservedPmm

/-- Mapping eight bytes at the first user address right after boot. -/
theorem Kernel.mmap_maps_range_boot : bootKernel.MapsRange 1 0x8000000000#64 8#64 3#32 := by
  have hroot : 1 ∈ [1] := List.mem_singleton_self 1
  refine (Kernel.mmap_maps_range_iff bootKernel_inv hroot rfl (by decide) (by decide) (by decide) 3#32
    ⟨0x800, by decide, fun f h1 h2 => ?_⟩ bootKernel_supplied).mpr (by decide)
  obtain rfl : f = 0x800 := by
    have hn : mmapPagesCount 8#64 = 1 := by decide
    omega
  decide +kernel

/-- Zeros but for the slot that the PML4 of a task shares with the kernel. -/
def taskMem : Mem := Function.update (fun _ => 0#64) (slot 0x800 0) 0x2003#64

/-- The allocator with that PML4 in use. -/
def taskPmm : Pmm := reservedPmm.set 256 0x80#8

/-- A running task with the PML4 in frame `0x800`. -/
def taskKernel (pmm : Pmm) : Kernel :=
  ⟨{ runningMachine taskMem pmm with cr3 := 0x800000#64 }, fun _ => { TCB.zero with virtAddrSpace := 0x800000#64 }, 0, 1⟩

/-- A whole page is mapped with the page after it, and the address of an odd page comes back as that of
the page before it. -/
theorem Kernel.mmap_maps_next_page : ¬ (taskKernel taskPmm).MapsRange 0x800 0x8000000000#64 4096#64 3#32 ∧
    ¬ (taskKernel taskPmm).MapsRange 0x800 0x8000001000#64 8#64 3#32 := by
  have hrun : ((taskKernel taskPmm).mmapSyscall 0x8000000000#64 4096#64 3#32).map (fun r =>
      (leafTable r.2.machine.mem 0x8000001000#64 3 0x800).map fun p => decide (.store (slot p 1) ∈ r.2.machine.log)) =
      some (some true) := by decide +kernel
  have hret : ((taskKernel taskPmm).mmapSyscall 0x8000001000#64 8#64 3#32).map Prod.fst = some 0x8000000000#64 := by
    decide +kernel
  constructor
  · rintro ⟨k', l, hmmap, hlog, hpages, -⟩
    rw [hmmap, Option.map_some, Option.some.injEq] at hrun
    obtain ⟨p, hp, hstore⟩ := Option.map_eq_some_iff.mp hrun
    have hl : k'.machine.log = l := hlog.trans (List.append_nil l)
    rw [hl] at hstore
    have hcovers := (hpages 0x8000001000#64).mp ⟨p, hp, of_decide_eq_true hstore⟩
    exact absurd hcovers.2 (by decide)
  · rintro ⟨k', l, hmmap, -⟩
    rw [hmmap, Option.map_some, Option.some.injEq] at hret
    have hbase : base 0x8000001000#64 ≠ 0x8000000000#64 := by decide
    exact hbase hret

end HaiirOS
