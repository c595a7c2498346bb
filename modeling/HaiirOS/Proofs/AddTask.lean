import HaiirOS.Proc.Task
import HaiirOS.Proofs.Exhaustion
import HaiirOS.Proofs.MapLoop
import HaiirOS.Proofs.Rights

/-!
# What add_task maps at the top of a stack

`add_task` maps the pages of the stack from the top down to the frames from the one behind its
allocation down. The first map makes the tables of the task; all pages that follow have their
entries in the same table, and leave the top page alone.
-/

namespace HaiirOS

open AddressWord

/-- The page that round `i` of the stack loop maps. -/
def stackPage (i : Nat) : Word := toPage (userStackTop - BitVec.ofNat 64 (i * frameSize % 2 ^ 32))

lemma stackPage_no : ∀ i < stackPages, pageNo (stackPage i) = 0x1000000f - i := by decide

lemma stackPage_zero : stackPage 0 = userStackTop := by decide

lemma stackFrame_eq {b i : Nat} (hi : i < stackPages) :
    toFrame (frameAddr b + BitVec.ofNat 64 (stackPages * frameSize) -
      BitVec.ofNat 64 (i * frameSize % 2 ^ 32)) = frameAddr (b + stackPages - i) := by
  have hpages : stackPages = 15 := rfl
  have hsize : frameSize = 4096 := rfl
  apply BitVec.eq_of_toNat_eq
  rw [toFrame, base_toNat, frameAddr, frameAddr, BitVec.toNat_sub, BitVec.toNat_add, BitVec.toNat_ofNat,
    BitVec.toNat_ofNat, BitVec.toNat_ofNat, BitVec.toNat_ofNat, hsize]
  omega

lemma mapStack_eq (m : Machine) (pml4 : Word) (b : Nat) :
    m.mapStack pml4 (frameAddr b + BitVec.ofNat 64 (stackPages * frameSize)) =
      Loop.upTo (fun i m => m.mapUserFrame pml4 (stackPage i) (frameAddr (b + stackPages - i)) taskFlags)
        stackPages m := by
  apply Loop.upTo_congr
  intro i hi m
  rw [← stackFrame_eq hi]
  rfl

lemma missing_eq_zero {mem : Mem} {v : Word} {n t p : Nat} (h : leafTable mem v n t = some p) : missing mem v n t = 0 := by
  induction n generalizing t with
  | zero => rfl
  | succ n ih =>
    rw [leafTable_succ] at h
    split_ifs at h with h0
    rw [missing, if_neg h0]
    exact ih h

/-- In an empty slot of the PML4 all tables are missing, and nothing is in the way of the rights. -/
lemma empty_slot {mem : Mem} {v : Word} {root : Nat} (h : mem (slot root (lvIndex v 4)) = 0#64) (flags : PageFlags) :
    missing mem v 3 root = 3 ∧ Permits mem flags v 3 root :=
  ⟨if_pos h, fun hne => absurd h hne⟩

/-- The top page of a stack is mapped, in order with all tables. -/
structure TopMapped (w : WindowTables) (roots : List Nat) (root : Nat) (tr : Translation) (m : Machine) : Prop where
  inv : ∃ rank, Session.Inv w rank ⟨m, roots⟩
  table : ∃ p, leafTable m.mem userStackTop 3 root = some p
  top : mmu m.mem root userStackTop = some tr

lemma lvIndex_beside {page : Word} (h : pageNo page / 512 = 0x80000) {k : Nat} (h2 : 2 ≤ k) (hk : k ≤ 4) :
    lvIndex page k = lvIndex userStackTop k := by
  have htop : pageNo userStackTop / 512 = 0x80000 := by decide
  unfold pageNo at h htop
  unfold lvIndex
  obtain rfl | rfl | rfl : k = 2 ∨ k = 3 ∨ k = 4 := by omega
  all_goals omega

lemma leafTable_beside {mem : Mem} {page : Word} {root : Nat} (h : pageNo page / 512 = 0x80000) :
    leafTable mem page 3 root = leafTable mem userStackTop 3 root := by
  apply leafTable_congr
  intro k h2 hk
  exact lvIndex_beside h h2 (by omega)

lemma pathRights_beside {mem : Mem} {page : Word} {root : Nat} (h : pageNo page / 512 = 0x80000) (r : Rights) :
    pathRights mem page 3 root r = pathRights mem userStackTop 3 root r := by
  simp only [pathRights, lvIndex_beside h (by decide : 2 ≤ 2) (by decide), lvIndex_beside h (by decide : 2 ≤ 3) (by decide),
    lvIndex_beside h (by decide : 2 ≤ 4) (by decide)]

lemma pathRights_eq_all {mem : Mem} {v : Word} {n t : Nat} {r : Rights} (h : pathRights mem v n t r = .all) : r = .all := by
  induction n generalizing t r with
  | zero => exact h
  | succ n ih =>
    have hmeet := ih h
    obtain ⟨rw, ru, rx⟩ := r
    simp only [Rights.meet, Rights.all, Rights.mk.injEq, Bool.and_eq_true, Bool.or_eq_false_iff] at hmeet ⊢
    exact ⟨hmeet.1.1, hmeet.2.1.1, hmeet.2.2.1⟩

/-- A way that takes no right away permits any flags. -/
lemma permits_of_path {mem : Mem} {v : Word} {n t : Nat} {r : Rights} {flags : PageFlags}
    (h : pathRights mem v n t r = .all) : Permits mem flags v n t := by
  induction n generalizing t r with
  | zero => trivial
  | succ n ih =>
    intro _
    have hmeet := pathRights_eq_all (n := n) h
    simp only [Rights.meet, Rights.all, Rights.mk.injEq, Bool.and_eq_true, Bool.or_eq_false_iff] at hmeet
    refine ⟨⟨fun _ => ⟨fun _ => hmeet.1.2, fun _ => hmeet.2.1.2⟩, fun hexec => ?_⟩, ih h⟩
    rw [hmeet.2.2.2] at hexec
    cases hexec

/-- The page tables at the roots other than `root` translate as before, the window aside. -/
def Undisturbed (roots : List Nat) (root : Nat) (m m' : Machine) : Prop :=
  ∀ r ∈ roots, r ≠ root → ∀ v, pageNo v ≠ 0x200 → mmu m'.mem r v = mmu m.mem r v

lemma Undisturbed.trans {roots : List Nat} {root : Nat} {m m' m'' : Machine} (h : Undisturbed roots root m m')
    (h' : Undisturbed roots root m' m'') : Undisturbed roots root m m'' :=
  fun r hr hne v hv => (h' r hr hne v hv).trans (h r hr hne v hv)

/-- The pages of a task that are mapped so far, by the number of the page, since memory was `m0`. They share a table
and are mapped as asked for. Three frames have become tables meanwhile, and no frame 0. -/
structure TaskPages (w : WindowTables) (roots : List Nat) (root : Nat) (frames : Nat → Option Nat)
    (m0 m : Machine) : Prop where
  inv : ∃ rank, Session.Inv w rank ⟨m, roots⟩
  table : ∃ p, leafTable m.mem userStackTop 3 root = some p
  top : (frames (pageNo userStackTop)).isSome
  near : ∀ n, (frames n).isSome → n / 512 = 0x80000
  pages : ∀ page : Word, page.toNat % 4096 = 0 → page.toNat < 2 ^ 48 → ∀ f, frames (pageNo page) = some f →
    mmu m.mem root page = some ⟨f * 4096, taskFlags.rights⟩
  others : Undisturbed roots root m0 m
  pmm : m.pmm = m0.pmm.singles 3
  free : ∀ f, m.pmm.used f = false → ∀ i : Fin 512, m.mem (slot f i) = m0.mem (slot f i)
  log : ∃ l, m.log = l ++ m0.log ∧ .table 0 ∉ l

lemma slot_of_near {page : Word} (hnear : pageNo page / 512 = 0x80000) : lvIndex page 4 ≠ 0 := by
  unfold pageNo at hnear
  unfold lvIndex
  omega

namespace TaskPages

variable {w : WindowTables} {roots : List Nat} {root : Nat} {frames : Nat → Option Nat} {m0 m : Machine}

lemma topMapped (h : TaskPages w roots root frames m0 m) {f : Nat} (hf : frames (pageNo userStackTop) = some f) :
    TopMapped w roots root ⟨f * 4096, taskFlags.rights⟩ m :=
  ⟨h.inv, h.table, h.pages userStackTop (by decide) (by decide) f hf⟩

/-- The first map of a task goes through new tables, which grant what it asks for. -/
lemma first {rank : Nat → Nat} (h : Session.Inv w rank ⟨m, roots⟩) (hroot : root ∈ roots)
    (hslot : m.mem (slot root 2) = 0#64) (hsup : Supplied m.mem 3 m.pmm) {f : Nat} (hf : f < 2 ^ 40) :
    ∃ m', m.mapUserFrame (frameAddr root) userStackTop (frameAddr f) taskFlags = some m' ∧
      TaskPages w roots root (Function.update (fun _ => none) (pageNo userStackTop) (some f)) m m' := by
  have hindex : lvIndex userStackTop 4 = 2 := by decide
  have hentry : m.mem (slot root (lvIndex userStackTop 4)) = 0#64 := by rw [hindex, hslot]
  have hoffset : userStackTop.toNat % 4096 = 0 := by decide
  have hplain : PlainFlags taskFlags := ⟨by decide, by decide⟩
  obtain ⟨hmissing, hpermits⟩ := empty_slot hentry taskFlags
  rw [← hmissing] at hsup
  have hok : Session.MapOk ⟨m, roots⟩ root userStackTop f taskFlags :=
    ⟨hroot, hplain, hf, Session.pageOk_of_le _ (by decide), hsup⟩
  obtain ⟨m', rank', p, hmap, hinv, hm, -⟩ := h.map hok
  obtain ⟨m1, -, -, hmap1, -, -, -, hrights⟩ := h.map_reaches hok (by decide)
  obtain ⟨m2, l, hmap2, hl, hzero, -⟩ := h.tables.map_established ((h.roots root).mp hroot) hplain hf hsup
  obtain rfl : m' = m1 := Option.some.inj (hmap.symm.trans hmap1)
  obtain rfl : m' = m2 := Option.some.inj (hmap.symm.trans hmap2)
  rw [hoffset, Nat.add_zero] at hrights
  refine ⟨m', hmap, ⟨rank', hinv⟩, ⟨p, hm.leaf⟩, ?_, fun n hn => ?_, fun page halign hlt g hg => ?_,
    fun r hr hne v hv => ?_, ?_, fun g hg i => hm.data (hm.tables.rank_of_free hg) i, ⟨l, hl, hzero⟩⟩
  · rw [Function.update_self]
    rfl
  · by_cases heq : n = pageNo userStackTop
    · rw [heq]
      decide
    · rw [Function.update_of_ne heq] at hn
      cases hn
  · by_cases heq : pageNo page = pageNo userStackTop
    · have hpage : page = userStackTop := by
        have htop : userStackTop.toNat < 2 ^ 48 := by decide
        apply BitVec.eq_of_toNat_eq
        rw [pageNo, pageNo] at heq
        omega
      rw [heq, Function.update_self] at hg
      rw [hpage, ← Option.some.inj hg]
      exact hrights.mpr hpermits
    · rw [Function.update_of_ne heq] at hg
      cases hg
  · exact hm.others r v ((h.roots r).mp hr) hv (Or.inr ⟨hne, by decide⟩)
  · rw [hm.pmm, hmissing]

/-- The entries above the pages of a task take no right away. -/
lemma path_all (h : TaskPages w roots root frames m0 m) {rank : Nat → Nat} (hinv : Session.Inv w rank ⟨m, roots⟩)
    (hroot : root ∈ roots) : pathRights m.mem userStackTop 3 root .all = .all := by
  have hrank := (hinv.roots root).mp hroot
  obtain ⟨p, hp⟩ := h.table
  obtain ⟨f, hf⟩ := Option.isSome_iff_exists.mp h.top
  have htop := h.pages userStackTop (by decide) (by decide) f hf
  have hphys := hinv.tables.phys_mmuWalk (v := userStackTop) hrank .all
  rw [mmu] at htop
  rw [htop, hp, Option.bind_some] at hphys
  have hpres : (m.mem (slot p (lvIndex userStackTop 1))).getLsbD 0 = true := by
    by_contra hdark
    rw [if_neg hdark] at hphys
    cases hphys
  have hwalk := hinv.tables.mmuWalk_present hrank hp hpres .all
  have hmeet := congrArg Translation.rights (Option.some.inj (hwalk.symm.trans htop))
  have hasked : taskFlags.rights = ⟨true, true, false⟩ := by decide
  simp only [hasked, Rights.meet, Rights.mk.injEq, Bool.and_eq_true, Bool.or_eq_false_iff] at hmeet
  obtain ⟨⟨hwrite, -⟩, ⟨huser, -⟩, hexec, -⟩ := hmeet
  generalize pathRights m.mem userStackTop 3 root .all = r at hwrite huser hexec
  obtain ⟨rw, ru, rx⟩ := r
  simp only at hwrite huser hexec
  rw [hwrite, huser, hexec]
  rfl

lemma map (h : TaskPages w roots root frames m0 m) (hroot : root ∈ roots) {page : Word} (halign : page.toNat % 4096 = 0)
    (hsmall : page.toNat < 2 ^ 48) (hnear : pageNo page / 512 = 0x80000) {f : Nat} (hf : f < 2 ^ 40) :
    ∃ m', m.mapUserFrame (frameAddr root) page (frameAddr f) taskFlags = some m' ∧
      TaskPages w roots root (Function.update frames (pageNo page) (some f)) m0 m' := by
  obtain ⟨rank, hinv⟩ := h.inv
  obtain ⟨p, hp⟩ := h.table
  obtain ⟨l0, hl0, hzero0⟩ := h.log
  have hrank := (hinv.roots root).mp hroot
  have hplain : PlainFlags taskFlags := ⟨by decide, by decide⟩
  have hmissing : missing m.mem page 3 root = 0 := missing_eq_zero ((leafTable_beside hnear).trans hp)
  have hsup : Supplied m.mem (missing m.mem page 3 root) m.pmm := by
    rw [hmissing]
    trivial
  have hok : Session.MapOk ⟨m, roots⟩ root page f taskFlags :=
    ⟨hroot, hplain, hf, Session.pageOk_of_le _ (by omega), hsup⟩
  have hpermits : Permits m.mem taskFlags page 3 root := by
    apply permits_of_path (r := .all)
    rw [pathRights_beside hnear]
    exact h.path_all hinv hroot
  obtain ⟨m', rank', q, hmap, hinv', hm, -⟩ := hinv.map hok
  obtain ⟨m1, -, -, hmap1, -, -, -, hrights⟩ := hinv.map_reaches hok (by decide)
  obtain ⟨m2, l, hmap2, hl, hzero, -⟩ := hinv.tables.map_established hrank hplain hf hsup
  obtain rfl : m' = m1 := Option.some.inj (hmap.symm.trans hmap1)
  obtain rfl : m' = m2 := Option.some.inj (hmap.symm.trans hmap2)
  rw [halign, Nat.add_zero] at hrights
  have hpmm : m'.pmm = m.pmm := by
    rw [hm.pmm, hmissing]
    rfl
  refine ⟨m', hmap, ⟨rank', hinv'⟩, ⟨p, hinv.tables.leafTable_mono hm.child hrank hp⟩, ?_, fun n hn => ?_,
    fun other halign' hlt g hg => ?_, h.others.trans fun r hr hne v hv => ?_, hpmm.trans h.pmm, fun g hg i => ?_,
    l ++ l0, ?_, ?_⟩
  · by_cases heq : pageNo userStackTop = pageNo page
    · rw [heq, Function.update_self]
      rfl
    · rw [Function.update_of_ne heq]
      exact h.top
  · by_cases heq : n = pageNo page
    · rw [heq]
      exact hnear
    · rw [Function.update_of_ne heq] at hn
      exact h.near n hn
  · by_cases heq : pageNo other = pageNo page
    · have hpage : other = page := by
        apply BitVec.eq_of_toNat_eq
        rw [pageNo, pageNo] at heq
        omega
      rw [heq, Function.update_self] at hg
      rw [hpage, ← Option.some.inj hg]
      exact hrights.mpr hpermits
    · rw [Function.update_of_ne heq] at hg
      have hnear' := h.near (pageNo other) (by rw [hg]; rfl)
      rw [hm.others root other hrank (by omega) (.inl heq)]
      exact h.pages other halign' hlt g hg
  · exact hm.others r v ((hinv.roots r).mp hr) hv (Or.inr ⟨hne, slot_of_near hnear⟩)
  · exact (hm.data (hm.tables.rank_of_free hg) i).trans (h.free g (by rw [← hpmm]; exact hg) i)
  · rw [hl, hl0, List.append_assoc]
  · simp [hzero, hzero0]

lemma map_addr (h : TaskPages w roots root frames m0 m) (hroot : root ∈ roots) {page phys : Word}
    (halign : page.toNat % 4096 = 0) (hsmall : page.toNat < 2 ^ 48) (hnear : pageNo page / 512 = 0x80000)
    (hf : phys.toNat < 2 ^ 52) :
    ∃ m', m.mapUserFrame (frameAddr root) page (toFrame phys) taskFlags = some m' ∧
      TaskPages w roots root (Function.update frames (pageNo page) (some (phys.toNat / 4096))) m0 m' := by
  have haddr : toFrame phys = frameAddr (phys.toNat / 4096) := by
    apply BitVec.eq_of_toNat_eq
    rw [toFrame, base_toNat, frameAddr, BitVec.toNat_ofNat]
    omega
  rw [haddr]
  exact h.map hroot halign hsmall hnear (by omega)

/-- The two pages of a segment follow each other, and so do their frames. -/
lemma mapTwoPages (h : TaskPages w roots root frames m0 m) (hroot : root ∈ roots) (virt phys : Word)
    (hvirt : 0x10000010000 ≤ virt.toNat ∧ virt.toNat < 0x10000020000) (hphys : phys.toNat < 2 ^ 51 + 2 ^ 50) :
    ∃ m', m.mapTwoPages (frameAddr root) virt phys = some m' ∧ TaskPages w roots root
      (Function.update (Function.update frames (pageNo virt) (some (phys.toNat / 4096))) (pageNo virt + 1)
        (some (phys.toNat / 4096 + 1))) m0 m' := by
  have hno : pageNo (toPage virt) = pageNo virt := by
    rw [pageNo, pageNo, toPage, base_toNat]
    omega
  have hno' : pageNo (toPage (virt + 4096#64)) = pageNo virt + 1 := by
    rw [pageNo, pageNo, toPage, base_toNat, BitVec.toNat_add, BitVec.toNat_ofNat]
    omega
  have hphys' : (phys + 4096#64).toNat = phys.toNat + 4096 := by
    rw [BitVec.toNat_add, BitVec.toNat_ofNat]
    omega
  have halign (v : Word) : (toPage v).toNat % 4096 = 0 := by
    rw [toPage, base_toNat]
    omega
  have hvirt' : pageNo virt = virt.toNat / 4096 := by
    rw [pageNo]
    omega
  have hpage : (toPage virt).toNat < 2 ^ 48 := by
    rw [toPage, base_toNat]
    omega
  have hpage' : (toPage (virt + 4096#64)).toNat < 2 ^ 48 := by
    rw [toPage, base_toNat, BitVec.toNat_add, BitVec.toNat_ofNat]
    omega
  have hbound : phys.toNat < 2 ^ 52 := by omega
  have hbound' : (phys + 4096#64).toNat < 2 ^ 52 := by omega
  obtain ⟨m1, hmap1, h1⟩ := h.map_addr hroot (halign virt) hpage (by omega) hbound
  obtain ⟨m2, hmap2, h2⟩ := h1.map_addr hroot (halign _) hpage' (by omega) hbound'
  refine ⟨m2, ?_, ?_⟩
  · rw [Machine.mapTwoPages, hmap1, Option.bind_eq_bind, Option.bind_some]
    exact hmap2
  · have hframe : (phys.toNat + 4096) / 4096 = phys.toNat / 4096 + 1 := by omega
    rw [hno, hno', hphys', hframe] at h2
    exact h2

/-- The frames of the first pages of a stack that ends at a frame, from the top down. -/
def stackFrames (top n : Nat) (no : Nat) : Option Nat :=
  if 0x1000000f < no + n ∧ no ≤ 0x1000000f then some (top + no - 0x1000000f) else none

lemma stackFrames_one (top : Nat) :
    Function.update (fun _ => none) (pageNo userStackTop) (some top) = stackFrames top 1 := by
  have hno : pageNo userStackTop = 0x1000000f := by decide
  funext no
  unfold stackFrames
  by_cases h : no = 0x1000000f
  · subst h
    rw [hno, Function.update_self, if_pos ⟨by omega, by omega⟩, Nat.add_sub_cancel]
  · rw [hno, Function.update_of_ne h, if_neg (by omega)]

lemma stackFrames_succ (top : Nat) {i : Nat} (hi : i < stackPages) (htop : stackPages ≤ top) :
    Function.update (stackFrames top i) (0x1000000f - i) (some (top - i)) = stackFrames top (i + 1) := by
  have hpages : stackPages = 15 := rfl
  funext no
  unfold stackFrames
  by_cases h : no = 0x1000000f - i
  · have hframe : top - i = top + (0x1000000f - i) - 0x1000000f := by omega
    rw [h, Function.update_self, if_pos ⟨by omega, by omega⟩, hframe]
  · rw [Function.update_of_ne h]
    congr 1
    apply propext
    omega

lemma mapStack {rank : Nat → Nat} (h : Session.Inv w rank ⟨m, roots⟩) (hroot : root ∈ roots)
    (hslot : m.mem (slot root 2) = 0#64) (hsup : Supplied m.mem 3 m.pmm) {b : Nat} (hb : b < 2 ^ 35) :
    ∃ m', m.mapStack (frameAddr root) (frameAddr b + BitVec.ofNat 64 (stackPages * frameSize)) = some m' ∧
      TaskPages w roots root (stackFrames (b + stackPages) stackPages) m m' := by
  have hpages : stackPages = 15 := rfl
  obtain ⟨m1, hfirst, h1⟩ := first h hroot hslot hsup (by omega : b + stackPages < 2 ^ 40)
  rw [stackFrames_one] at h1
  have hround : ∀ i < 14, ∀ m2, TaskPages w roots root (stackFrames (b + stackPages) (i + 1)) m m2 →
      ∃ m', m2.mapUserFrame (frameAddr root) (stackPage (i + 1)) (frameAddr (b + stackPages - (i + 1))) taskFlags = some m' ∧
        TaskPages w roots root (stackFrames (b + stackPages) (i + 1 + 1)) m m' := by
    intro i hi m2 hm
    have hno := stackPage_no (i + 1) (by omega)
    have hsmall : (stackPage (i + 1)).toNat < 2 ^ 48 := by
      rw [stackPage, toPage, base_toNat, BitVec.toNat_sub, BitVec.toNat_ofNat, userStackTop, BitVec.toNat_ofNat]
      have hsize : frameSize = 4096 := rfl
      omega
    have halign : (stackPage (i + 1)).toNat % 4096 = 0 := by
      rw [stackPage, toPage, base_toNat]
      omega
    have hmap := hm.map hroot halign hsmall (by omega) (by omega : b + stackPages - (i + 1) < 2 ^ 40)
    rwa [hno, stackFrames_succ _ (by omega) (by omega)] at hmap
  obtain ⟨m', hrest, h'⟩ := Loop.upTo_total (fun i m2 => TaskPages w roots root (stackFrames (b + stackPages) (i + 1)) m m2)
    h1 hround
  refine ⟨m', ?_, h'⟩
  rw [mapStack_eq]
  refine (Loop.upTo_succ_left ..).trans ?_
  rw [stackPage_zero, Nat.sub_zero, hfirst]
  exact hrest

end TaskPages

/-- The allocator after `create_user_pml4` took frame `t` for the PML4. -/
def Session.afterNewPml4 (s : Session) (t : Nat) : Pmm :=
  (s.machine.pmm.handOut t 1).singles (missing s.machine.mem (frameAddr t) 3 s.kernelRoot)

/-- Every allocation of `add_task` succeeds: frame `t` for the PML4, the frames from `b` on for the stack, and
frames for tables, which hold zeros. -/
structure Session.TaskServed (s : Session) (funcAddr : Word) (t b : Nat) : Prop where
  func : funcAddr.toNat < 2 ^ 51
  pml4 : s.machine.pmm.NextRun 1 t
  kernel : Supplied s.machine.mem (missing s.machine.mem (frameAddr t) 3 s.kernelRoot) (s.machine.pmm.handOut t 1)
  near : frame s.machine.cr3 = s.kernelRoot ∨ t < 2 ^ 27
  stack : (s.afterNewPml4 t).NextRun stackPages b
  tables : Supplied s.machine.mem 3 ((s.afterNewPml4 t).handOut b stackPages)

namespace Session.Inv

variable {w : WindowTables} {rank : Nat → Nat} {s : Session}

/-- With frames for it and for its page, a new PML4 has no frame 0 become a table. -/
lemma createUserPml4_log (h : s.Inv w rank) {t : Nat} (hnext : s.machine.pmm.NextRun 1 t)
    (hsup : Supplied s.machine.mem (missing s.machine.mem (frameAddr t) 3 w.pml4) (s.machine.pmm.handOut t 1))
    {m1 : Machine} (hcreate : s.machine.createUserPml4 = some (frameAddr t, m1)) :
    ∃ l, m1.log = l ++ s.machine.log ∧ .table 0 ∉ l := by
  obtain ⟨hrt, hlow, hlt, -⟩ := h.tables.next_frame hnext
  obtain ⟨-, m2, hmap, hlog, -⟩ := Machine.createUserPml4_cases hcreate
  have h1 : Tables rank w (s.machine.pmmAllocUnmapped 1).2 := h.tables.alloc 1
  have halloc := h.tables.valid.alloc_eq (by decide : 0 < 1) hnext
  have hpmm : (s.machine.pmmAllocUnmapped 1).2.pmm = s.machine.pmm.handOut t 1 := congrArg Prod.snd halloc
  have hplain : PlainFlags (PageFlags.present ||| PageFlags.writeable ||| PageFlags.user) := ⟨by decide, by decide⟩
  obtain ⟨m3, l, hmap', hl, hzero, -⟩ := h1.map_established h1.top hplain (by omega : t < 2 ^ 40)
    (by rw [hpmm]; exact hsup)
  rw [Machine.mapFrame, h1.pml4, toPage, toFrame, frameAddr, base_ofNat] at hmap
  obtain rfl : m2 = m3 := Option.some.inj (hmap.symm.trans hmap')
  have htable : frame (frameAddr t) = t := frame_ofNat (by omega)
  refine ⟨.table t :: l ++ [.alloc 1 (s.machine.pmm.pmmAllocUnmapped 1).1], ?_, ?_⟩
  · rw [hlog, hl, htable, List.append_assoc]
    rfl
  · have hne : 0 ≠ t := by omega
    simp [hzero, hne]

lemma afterNewPml4_eq (h : s.Inv w rank) {t : Nat} {m1 : Machine}
    (hpmm : m1.pmm = (s.machine.pmm.handOut t 1).singles (missing s.machine.mem (frameAddr t) 3 w.pml4)) :
    m1.pmm = s.afterNewPml4 t := by
  rw [hpmm, afterNewPml4, h.kernelRoot_eq]

/-- The PML4 of a new task, with the stack's frames allocated and the frames for three tables at hand. -/
lemma taskServed (h : s.Inv w rank) {funcAddr : Word} {t b : Nat} (hs : s.TaskServed funcAddr t b) : ∃ m1 rank1,
    s.machine.createUserPml4 = some (frameAddr t, m1) ∧ m1.pmmAllocUnmapped stackPages =
      (frameAddr b, (m1.pmmAllocUnmapped stackPages).2) ∧ t ∉ s.roots ∧ t < 2 ^ 35 ∧ b < 2 ^ 35 ∧
    Session.Inv w rank1 ⟨m1, t :: s.roots⟩ ∧ m1.mem (slot t 2) = 0#64 ∧
    Supplied m1.mem 3 (m1.pmmAllocUnmapped stackPages).2.pmm ∧
    ∃ l, (m1.pmmAllocUnmapped stackPages).2.log = l ++ s.machine.log ∧ .table 0 ∉ l := by
  obtain ⟨-, hnext, hsup, hnear, hstack, htables⟩ := hs
  rw [h.kernelRoot_eq] at hsup hnear
  obtain ⟨m1, rank1, hcreate, hn, hpmm, hmem⟩ := h.tables.createUserPml4_effect hnext hsup hnear
  have hinv : Session.Inv w rank1 ⟨m1, t :: s.roots⟩ := h.of_newPml4 hn
  have hpmm1 := h.afterNewPml4_eq hpmm
  rw [← hpmm1] at hstack htables
  have hvalid : m1.pmm.Valid := hinv.tables.valid
  have halloc := hvalid.alloc_eq (by decide) hstack
  have hle := hstack.le_bitmap
  have hsize := hvalid.size
  refine ⟨m1, rank1, hcreate, ?_, ?_, (hinv.tables.frame_ok t (by rw [hn.rank_new]; decide)).2.2.1, by omega,
    hinv, hn.entries 2 (by decide), ?_, ?_⟩
  · rw [Machine.pmmAllocUnmapped, halloc]
    rfl
  · intro ht
    have hold := (h.roots t).mp ht
    rw [hn.rank_old] at hold
    cases hold
  · have hpmm2 : (m1.pmmAllocUnmapped stackPages).2.pmm = m1.pmm.handOut b stackPages := congrArg Prod.snd halloc
    rw [← hpmm2] at htables
    have h2 : Tables rank1 w (m1.pmmAllocUnmapped stackPages).2 := hn.tables.alloc stackPages
    exact htables.mono h2.valid fun f hf i => hmem f (h2.rank_of_free hf) i
  · obtain ⟨l, hl, hzero⟩ := h.createUserPml4_log hnext hsup hcreate
    refine ⟨.alloc stackPages (m1.pmm.pmmAllocUnmapped stackPages).1 :: l, ?_, ?_⟩
    · rw [List.cons_append, ← hl]
      rfl
    · simp [hzero]

end Session.Inv

namespace Kernel

variable {w : WindowTables} {rank : Nat → Nat} {roots : List Nat} {k : Kernel}

/-- `add_task` maps all pages of the task, the top page of the stack to the frame behind the frames that it
allocated for the stack. -/
theorem addTask_pages (h : Session.Inv w rank ⟨k.machine, roots⟩) {funcAddr : Word} {t b : Nat}
    (hs : Session.TaskServed ⟨k.machine, roots⟩ funcAddr t b) (debug : Bool) (taskName : Word) : ∃ m1 m' frames,
    k.machine.createUserPml4 = some (frameAddr t, m1) ∧ (m1.pmmAllocUnmapped stackPages).1 = frameAddr b ∧
    t ∉ roots ∧ t < 2 ^ 35 ∧ b < 2 ^ 35 ∧ k.addTask debug taskName funcAddr = some ({ k with machine := m' }.addTcb
      { name := taskName, userStack := userStackTop, userFunc := userCodeBase + (funcAddr &&& 0xfff#64),
        virtAddrSpace := frameAddr t }) ∧
    TaskPages w (t :: roots) t frames (m1.pmmAllocUnmapped stackPages).2 m' ∧
    (∃ l, m'.log = l ++ k.machine.log ∧ .table 0 ∉ l) ∧
    (∀ i < stackPages, frames (0x1000000f - i) = some (b + stackPages - i)) ∧
    (∀ i < 2, frames (pageNo userCodeBase + i) = some (funcAddr.toNat / 4096 + i)) ∧
    ∀ i < 2, frames (pageNo (userCodeBase + textSegSize debug) + i) =
      some ((base funcAddr + textSegSize debug).toNat / 4096 + i) := by
  have hfunc := hs.func
  obtain ⟨m1, rank1, hcreate, halloc, hnew, hlt, hb, hinv, hslot, hsup, l0, hl0, hzero0⟩ := h.taskServed hs
  have hroot : t ∈ t :: roots := List.mem_cons_self
  have hpages : stackPages = 15 := rfl
  obtain ⟨m2, hstack, h2⟩ := TaskPages.mapStack (hinv.alloc stackPages) hroot hslot hsup hb
  have hand : (funcAddr &&& 0xfff#64).toNat ≤ 0xfff := by
    rw [BitVec.toNat_and]
    exact Nat.and_le_right
  have hcode : (userCodeBase + (funcAddr &&& 0xfff#64)).toNat = 0x10000010000 + (funcAddr &&& 0xfff#64).toNat := by
    rw [BitVec.toNat_add, userCodeBase, BitVec.toNat_ofNat]
    omega
  obtain ⟨m3, htext, h3⟩ := h2.mapTwoPages hroot (userCodeBase + (funcAddr &&& 0xfff#64)) funcAddr (by omega) (by omega)
  have hsegment : 0x10000010000 ≤ (userCodeBase + textSegSize debug).toNat ∧
      (userCodeBase + textSegSize debug).toNat < 0x10000020000 := by
    cases debug <;> decide
  have hdata : (base funcAddr + textSegSize debug).toNat < 2 ^ 51 + 2 ^ 50 := by
    have hsize : (textSegSize debug).toNat < 0x10000 := by cases debug <;> decide
    rw [BitVec.toNat_add, base_toNat]
    omega
  obtain ⟨m4, hseg, h4⟩ := h3.mapTwoPages hroot _ _ hsegment hdata
  have hcodeNo : pageNo (userCodeBase + (funcAddr &&& 0xfff#64)) = 0x10000010 := by
    rw [pageNo, hcode]
    omega
  have hbaseNo : pageNo userCodeBase = 0x10000010 := by decide
  have hdataNo : 0x10000013 ≤ pageNo (userCodeBase + textSegSize debug) := by cases debug <;> decide
  rw [hcodeNo] at h4
  obtain ⟨l, hl, hzero⟩ := h4.log
  refine ⟨m1, m4, _, hcreate, by rw [halloc], hnew, hlt, hb, ?_, h4, ⟨l ++ l0, ?_, ?_⟩, fun i hi => ?_, fun i hi => ?_,
    fun i hi => ?_⟩
  · rw [addTask]
    simp only [hcreate, Option.bind_eq_bind, Option.bind_some]
    rw [halloc]
    simp only [hstack, htext, hseg, Option.bind_some]
    rfl
  · rw [hl, hl0, List.append_assoc]
  · simp [hzero, hzero0]
  · rw [Function.update_of_ne (by omega), Function.update_of_ne (by omega), Function.update_of_ne (by omega),
      Function.update_of_ne (by omega), TaskPages.stackFrames, if_pos ⟨by omega, by omega⟩, Option.some.injEq]
    omega
  · rw [Function.update_of_ne (by omega), Function.update_of_ne (by omega), hbaseNo]
    obtain rfl | rfl : i = 0 ∨ i = 1 := by omega
    · rw [Function.update_of_ne (by decide)]
      exact Function.update_self ..
    · exact Function.update_self ..
  · obtain rfl | rfl : i = 0 ∨ i = 1 := by omega
    · rw [Function.update_of_ne (by omega)]
      exact Function.update_self ..
    · exact Function.update_self ..

/-- `add_task` maps the top page of the stack to the frame behind the frames that it allocated for the stack. -/
theorem addTask_effect (h : Session.Inv w rank ⟨k.machine, roots⟩) {funcAddr : Word} {t b : Nat}
    (hs : Session.TaskServed ⟨k.machine, roots⟩ funcAddr t b) (debug : Bool) (taskName : Word) : ∃ m1 m',
    k.machine.createUserPml4 = some (frameAddr t, m1) ∧ (m1.pmmAllocUnmapped stackPages).1 = frameAddr b ∧
    t ∉ roots ∧ t < 2 ^ 35 ∧ b < 2 ^ 35 ∧ k.addTask debug taskName funcAddr = some ({ k with machine := m' }.addTcb
      { name := taskName, userStack := userStackTop, userFunc := userCodeBase + (funcAddr &&& 0xfff#64),
        virtAddrSpace := frameAddr t }) ∧
    TopMapped w (t :: roots) t ⟨(b + stackPages) * 4096, taskFlags.rights⟩ m' := by
  obtain ⟨m1, m', frames, hcreate, halloc, hnew, hlt, hb, hadd, hmapped, -, hstack, -⟩ := addTask_pages h hs debug taskName
  exact ⟨m1, m', hcreate, halloc, hnew, hlt, hb, hadd, hmapped.topMapped (hstack 0 (by decide))⟩

lemma addTcb_machine (k : Kernel) (task : TCB) : (k.addTcb task).machine = k.machine := by
  unfold addTcb
  by_cases h : k.sTasksCount ≥ maxTasks
  · rw [if_pos h]
  · rw [if_neg h]

/-- `add_task` leaves the pages of the other tasks and the free frames alone, and takes the frames that it needs. -/
lemma addTask_leaves (h : Session.Inv w rank ⟨k.machine, roots⟩)
    {k' : Kernel} {debug : Bool} {taskName funcAddr : Word} {t b : Nat}
    (hs : Session.TaskServed ⟨k.machine, roots⟩ funcAddr t b) (hadd : k.addTask debug taskName funcAddr = some k') :
    (∀ r ∈ roots, r ≠ w.pml4 → ∀ v, pageNo v / 512 = 0x80000 → mmu k'.machine.mem r v = mmu k.machine.mem r v) ∧
    k'.machine.pmm = ((Session.afterNewPml4 ⟨k.machine, roots⟩ t).handOut b stackPages).singles 3 ∧
    ∀ f, k'.machine.pmm.used f = false → ∀ i : Fin 512, k'.machine.mem (slot f i) = k.machine.mem (slot f i) := by
  obtain ⟨m1, m', frames, hcreate, -, hnew, hlt, -, hadd', hpages, -⟩ := addTask_pages h hs debug taskName
  obtain ⟨-, hnext, hsup, hnear, hstack, -⟩ := hs
  rw [h.kernelRoot_eq] at hsup hnear
  obtain ⟨m1', rank1, hcreate', hn, hpmm, hmem⟩ := h.tables.createUserPml4_effect hnext hsup hnear
  cases hcreate.symm.trans hcreate'
  have hpmm1 := h.afterNewPml4_eq hpmm
  have hvalid : m1.pmm.Valid := hn.tables.valid
  obtain rfl := Option.some.inj (hadd.symm.trans hadd')
  rw [addTcb_machine]
  refine ⟨fun r hr hne v hv => ?_, ?_, fun f hf i => ?_⟩
  · have hrt : r ≠ t := fun heq => hnew (heq ▸ hr)
    have hwin : pageNo v ≠ 0x200 := by omega
    refine (hpages.others r (List.mem_cons_of_mem t hr) hrt v hwin).trans (hn.others r v ((h.roots r).mp hr) hwin ?_)
    by_cases hvt : pageNo v = t
    · right
      refine ⟨hne, slot_of_near ?_⟩
      rw [pageNo_ofNat (by omega), ← hvt]
      exact hv
    · exact Or.inl hvt
  · rw [← hpmm1] at hstack ⊢
    rw [hpages.pmm, Machine.pmmAllocUnmapped, hvalid.alloc_eq (by decide) hstack]
  · have hfree : m1.pmm.used f = false := by
      by_contra hused
      rw [Bool.not_eq_false] at hused
      have hlast := (hvalid.alloc stackPages).used_singles 3 (hvalid.used_mono stackPages hused)
      rw [hpages.pmm] at hf
      exact Bool.false_ne_true (hf.symm.trans hlast)
    exact (hpages.free f hf i).trans (hmem f (hn.tables.rank_of_free hfree) i)

end Kernel

end HaiirOS
