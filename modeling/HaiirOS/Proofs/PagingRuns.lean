import HaiirOS.Lib.Runs
import HaiirOS.Proofs.NewPml4

/-!
# Runs of the paging code

A session is the machine with the address spaces made so far. Its runs are any sequences of
maps, unmaps, new address spaces and switches between them, with anything that leaves page
tables alone in between. As long as new tables come out of empty frames the page tables stay
in order.
-/

namespace HaiirOS

open AddressWord
open Runs

/-- The address of a frame. -/
def frameAddr (f : Nat) : Word := BitVec.ofNat 64 (f * 4096)

/-- The machine and the frames of the PML4s in use. -/
structure Session where
  machine : Machine
  roots : List Nat

/-- A step of a session. Frames are given by number. -/
inductive PagingOp
  | mapFrame (page : Word) (f : Nat) (flags : PageFlags)
  | mapUserFrame (root : Nat) (page : Word) (f : Nat) (flags : PageFlags)
  | unmapPage (page : Word)
  | unmapUserPage (root : Nat) (page : Word)
  | createUserPml4
  | loadCr3 (root : Nat)
  /-- Whatever happens between calls: other words of memory, other marks of the allocator. -/
  | outside (mem : Mem) (pmm : Pmm)

namespace Session

def exec (s : Session) : PagingOp → Option Session
  | .mapFrame page f flags => (s.machine.mapFrame page (frameAddr f) flags).map (⟨·, s.roots⟩)
  | .mapUserFrame root page f flags =>
    (s.machine.mapUserFrame (frameAddr root) page (frameAddr f) flags).map (⟨·, s.roots⟩)
  | .unmapPage page => (s.machine.unmapPage page).map (⟨·, s.roots⟩)
  | .unmapUserPage root page => (s.machine.unmapUserPage (frameAddr root) page).map (⟨·, s.roots⟩)
  | .createUserPml4 => s.machine.createUserPml4.map fun r => ⟨r.2, frame r.1 :: s.roots⟩
  | .loadCr3 root => some ⟨{ s.machine with cr3 := frameAddr root }, s.roots⟩
  | .outside mem pmm => some ⟨{ s.machine with mem := mem, pmm := pmm }, s.roots⟩

def step (s : Session) (op : PagingOp) (s' : Session) : Prop := s.exec op = some s'

/-- The kernel's PML4. -/
def kernelRoot (s : Session) : Nat := frame s.machine.sPml4Table

/-- Frame `t` is a page table or PML4 of some address space. -/
def IsTable (s : Session) (t : Nat) : Prop := ∃ r ∈ s.roots, Below s.machine.mem 3 r t

/-- A page that is not the page below 8 MiB through which the code reaches a table. -/
def PageOk (s : Session) (page : Word) : Prop := ∀ t, t < 0x800 → s.IsTable t → pageNo page ≠ t

/-- A map that meets its conditions: the arguments are well formed, and the frames that it makes
into tables exist and hold zeros. -/
structure MapOk (s : Session) (root : Nat) (page : Word) (f : Nat) (flags : PageFlags) : Prop where
  known : root ∈ s.roots
  plain : PlainFlags flags
  fits : f < 2 ^ 40
  off : s.PageOk page
  supplied : Supplied s.machine.mem (missing s.machine.mem page 3 root) s.machine.pmm

/-- The conditions under which a step keeps the page tables in order. -/
def Sound (s : Session) : PagingOp → Prop
  | .mapFrame page f flags => s.MapOk s.kernelRoot page f flags
  | .mapUserFrame root page f flags => s.MapOk root page f flags
  | .unmapPage page => s.PageOk page
  | .unmapUserPage root page => root ∈ s.roots ∧ s.PageOk page
  | .createUserPml4 => ∃ t, s.machine.pmm.NextRun 1 t ∧
      Supplied s.machine.mem (missing s.machine.mem (frameAddr t) 3 s.kernelRoot) (s.machine.pmm.handOut t 1) ∧
      (frame s.machine.cr3 = s.kernelRoot ∨ t < 2 ^ 27)
  | .loadCr3 root => root ∈ s.roots
  | .outside mem pmm => (∀ t (i : Fin 512), s.IsTable t → mem (slot t i) = s.machine.mem (slot t i)) ∧
      pmm.Valid ∧ (∀ f, f < 0x800 → pmm.used f = true) ∧ ∀ t, s.IsTable t → pmm.used t = true

/-- The invariant of sound runs. -/
structure Inv (w : WindowTables) (rank : Nat → Nat) (s : Session) : Prop where
  tables : Tables rank w s.machine
  roots : ∀ r, r ∈ s.roots ↔ rank r = 4
  reach : ∀ t, rank t ≠ 0 → s.IsTable t

lemma pageOk_of_le (s : Session) {page : Word} (h : 0x800 ≤ pageNo page) : s.PageOk page := by
  intro t ht _
  omega

end Session

lemma Tables.rank_below {rank : Nat → Nat} {w : WindowTables} {m : Machine} (h : Tables rank w m) {n t u : Nat}
    (ht : rank t = n + 1) (hb : Below m.mem n t u) : rank u ≠ 0 := by
  induction n generalizing t with
  | zero =>
    obtain rfl : u = t := hb
    omega
  | succ n ih =>
    rcases hb with rfl | ⟨i, h0, hb⟩
    · omega
    · have hc := (h.child t i (by omega) h0).1
      exact ih (by omega) hb

/-- A tree keeps its tables where no upper entry is lost. -/
lemma Tables.below_mono {rank : Nat → Nat} {w : WindowTables} {m : Machine} (h : Tables rank w m) {mem' : Mem}
    (hc : ∀ t (i : Fin 512), 2 ≤ rank t → m.mem (slot t i) ≠ 0#64 →
      mem' (slot t i) ≠ 0#64 ∧ frame (mem' (slot t i)) = frame (m.mem (slot t i)))
    {n t u : Nat} (ht : rank t = n + 1) (hb : Below m.mem n t u) : Below mem' n t u := by
  induction n generalizing t with
  | zero => exact hb
  | succ n ih =>
    rcases hb with rfl | ⟨i, h0, hb⟩
    · exact .refl _ _ _
    · obtain ⟨h0', hf⟩ := hc t i (by omega) h0
      have hr := (h.child t i (by omega) h0).1
      exact Or.inr ⟨i, h0', by rw [hf]; exact ih (by omega) hb⟩

namespace Session.Inv

variable {w : WindowTables} {rank : Nat → Nat} {s : Session}

lemma isTable_iff (h : s.Inv w rank) (t : Nat) : s.IsTable t ↔ rank t ≠ 0 := by
  constructor
  · rintro ⟨r, hr, hb⟩
    exact h.tables.rank_below ((h.roots r).mp hr) hb
  · exact h.reach t

lemma offTables (h : s.Inv w rank) {page : Word} (hp : s.PageOk page) : Tables.OffTables rank page :=
  fun t hlt ht => hp t hlt (h.reach t ht)

lemma kernelRoot_eq (h : s.Inv w rank) : s.kernelRoot = w.pml4 := by
  have hlow := h.tables.low.1
  rw [kernelRoot, h.tables.pml4, frame_ofNat (by omega)]

lemma kernel_pointer (h : s.Inv w rank) : s.machine.sPml4Table = frameAddr s.kernelRoot := by
  rw [h.kernelRoot_eq]
  exact h.tables.pml4

lemma kernelRoot_mem (h : s.Inv w rank) : s.kernelRoot ∈ s.roots := by
  rw [h.roots, h.kernelRoot_eq]
  exact h.tables.top

lemma of_mapped (h : s.Inv w rank) {rank' : Nat → Nat} {root p : Nat} {page e : Word} {m' : Machine}
    (hroot : root ∈ s.roots) (hm : Mapped w rank rank' root page e p s.machine m') :
    Session.Inv w rank' ⟨m', s.roots⟩ := by
  refine ⟨hm.tables, fun r => ?_, fun t ht => ?_⟩
  · rw [h.roots]
    constructor
    · intro hr
      rw [hm.ranks r (by omega), hr]
    · intro hr
      by_cases h0 : rank r = 0
      · have hlt := (hm.fresh r h0 (by omega)).2.1
        omega
      · rw [← hm.ranks r h0, hr]
  · by_cases h0 : rank t = 0
    · exact ⟨root, hroot, hm.hangs t h0 ht⟩
    · obtain ⟨r, hr, hb⟩ := h.reach t h0
      exact ⟨r, hr, h.tables.below_mono hm.child ((h.roots r).mp hr) hb⟩

lemma map (h : s.Inv w rank) {root : Nat} {page : Word} {f : Nat} {flags : PageFlags}
    (hs : s.MapOk root page f flags) : ∃ m' rank' p,
      s.machine.map (frameAddr root) page (frameAddr f) flags = some m' ∧ Session.Inv w rank' ⟨m', s.roots⟩ ∧
      Mapped w rank rank' root page (frameAddr f ||| flags) p s.machine m' ∧
      ∀ r, Grants (pathRights m'.mem page 3 root r) flags ↔
        Grants r flags ∧ Permits s.machine.mem flags page 3 root := by
  obtain ⟨m', rank', p, hmap, hm, hrights⟩ := h.tables.map_spec ((h.roots root).mp hs.known) hs.plain hs.fits
    (h.offTables hs.off) hs.supplied
  exact ⟨m', rank', p, hmap, h.of_mapped hs.known hm, hm, hrights⟩

/-- What leaves the table words and marks alone keeps the invariant. -/
lemma of_same (h : s.Inv w rank) {m' : Machine}
    (hmem : ∀ t (i : Fin 512), rank t ≠ 0 → slot t i ≠ w.win → m'.mem (slot t i) = s.machine.mem (slot t i))
    (hv : m'.pmm.Valid) (hlow : ∀ f, f < 0x800 → m'.pmm.used f = true)
    (hused : ∀ t, rank t ≠ 0 → m'.pmm.used t = true) (hp : m'.sPml4Table = s.machine.sPml4Table)
    (hc : rank (frame m'.cr3) = 4) : Session.Inv w rank ⟨m', s.roots⟩ := by
  refine ⟨h.tables.congr hmem hv hlow hused hp hc, h.roots, fun t ht => ?_⟩
  obtain ⟨r, hr, hb⟩ := h.reach t ht
  refine ⟨r, hr, (h.tables.below_congr ((h.roots r).mp hr) (fun x i _ hx => ?_) t).mpr hb⟩
  exact hmem x i (by omega) (h.tables.slot_ne_win hx i.isLt)

lemma alloc (h : s.Inv w rank) (n : Nat) :
    Session.Inv w rank ⟨(s.machine.pmmAllocUnmapped n).2, s.roots⟩ :=
  h.of_same (fun _ _ _ _ => rfl) (h.tables.valid.alloc n)
    (fun f hf => h.tables.valid.used_mono n (h.tables.low_used f hf))
    (fun t ht => h.tables.valid.used_mono n (h.tables.frame_ok t ht).2.2.2) rfl h.tables.cr3

/-- What changes the log and the window's entry only. -/
lemma of_sim (h : s.Inv w rank) {l : List Event} {m' : Machine} (hs : Sim w.win { s.machine with log := l } m') :
    Session.Inv w rank ⟨m', s.roots⟩ := by
  refine h.of_same (fun t i _ hne => hs.mem _ hne) ?_ ?_ ?_ hs.sPml4Table ?_
  · rw [hs.pmm]
    exact h.tables.valid
  · rw [hs.pmm]
    exact h.tables.low_used
  · rw [hs.pmm]
    exact fun t ht => (h.tables.frame_ok t ht).2.2.2
  · rw [hs.cr3]
    exact h.tables.cr3

lemma unmap (h : s.Inv w rank) {root : Nat} {page : Word} (hroot : root ∈ s.roots) (hp : s.PageOk page) :
    ∃ m', s.machine.unmap (frameAddr root) page = some m' ∧ Session.Inv w rank ⟨m', s.roots⟩ ∧
      ((leafTable s.machine.mem page 3 root = none ∧
          ∃ l, (∀ a, .store a ∉ l) ∧ Sim w.win { s.machine with log := l ++ s.machine.log } m') ∨
        ∃ p, Mapped w rank rank root page 0#64 p s.machine m') := by
  obtain ⟨m', hunmap, hcases⟩ := h.tables.unmap_spec ((h.roots root).mp hroot) (h.offTables hp)
  refine ⟨m', hunmap, ?_, hcases⟩
  rcases hcases with ⟨-, l, -, hsim⟩ | ⟨p, hm⟩
  · exact h.of_sim hsim
  · exact h.of_mapped hroot hm

lemma of_newPml4 (h : s.Inv w rank) {rank' : Nat → Nat} {t : Nat} {m' : Machine}
    (hn : NewPml4 w rank rank' t s.machine m') : Session.Inv w rank' ⟨m', t :: s.roots⟩ := by
  refine ⟨hn.tables, fun r => ?_, fun x hx => ?_⟩
  · rw [List.mem_cons, h.roots]
    constructor
    · rintro (rfl | hr)
      · exact hn.rank_new
      · rw [hn.ranks r (by omega), hr]
    · intro hr
      by_cases hrt : r = t
      · exact Or.inl hrt
      · by_cases h0 : rank r = 0
        · have hlt := (hn.fresh r h0 (by omega) hrt).2.1
          omega
        · exact Or.inr (by rw [← hn.ranks r h0, hr])
  · by_cases hxt : x = t
    · exact ⟨t, List.mem_cons_self, hxt ▸ .refl _ _ _⟩
    · by_cases h0 : rank x = 0
      · refine ⟨w.pml4, List.mem_cons_of_mem _ ((h.roots _).mpr h.tables.top), hn.hangs x h0 hx hxt⟩
      · obtain ⟨r, hr, hb⟩ := h.reach x h0
        exact ⟨r, List.mem_cons_of_mem _ hr, h.tables.below_mono hn.child ((h.roots r).mp hr) hb⟩

lemma createUserPml4 (h : s.Inv w rank) (hs : s.Sound .createUserPml4) :
    ∃ t m' rank', s.machine.createUserPml4 = some (frameAddr t, m') ∧ NewPml4 w rank rank' t s.machine m' ∧
      Session.Inv w rank' ⟨m', t :: s.roots⟩ := by
  obtain ⟨t, hnext, hsup, hnear⟩ := hs
  rw [h.kernelRoot_eq] at hsup hnear
  obtain ⟨m', rank', hcreate, hn, -⟩ := h.tables.createUserPml4_effect hnext hsup hnear
  exact ⟨t, m', rank', hcreate, hn, h.of_newPml4 hn⟩

/-- A sound step is possible and keeps the invariant. -/
theorem sound_step (h : s.Inv w rank) {op : PagingOp} (hs : s.Sound op) :
    ∃ s' rank', s.exec op = some s' ∧ s'.Inv w rank' := by
  cases op with
  | mapFrame page f flags =>
    obtain ⟨m', rank', p, hmap, hinv, -⟩ := h.map hs
    refine ⟨_, rank', ?_, hinv⟩
    rw [exec, Machine.mapFrame, h.kernel_pointer, hmap]
    rfl
  | mapUserFrame root page f flags =>
    obtain ⟨m', rank', p, hmap, hinv, -⟩ := h.map hs
    refine ⟨_, rank', ?_, hinv⟩
    rw [exec, Machine.mapUserFrame, hmap]
    rfl
  | unmapPage page =>
    obtain ⟨m', hunmap, hinv, -⟩ := h.unmap h.kernelRoot_mem hs
    refine ⟨_, rank, ?_, hinv⟩
    rw [exec, Machine.unmapPage, h.kernel_pointer, hunmap]
    rfl
  | unmapUserPage root page =>
    obtain ⟨m', hunmap, hinv, -⟩ := h.unmap hs.1 hs.2
    refine ⟨_, rank, ?_, hinv⟩
    rw [exec, Machine.unmapUserPage, hunmap]
    rfl
  | createUserPml4 =>
    obtain ⟨t, m', rank', hcreate, hn, hinv⟩ := h.createUserPml4 hs
    have hlt := (hn.tables.frame_ok t (by rw [hn.rank_new]; decide)).2.2.1
    refine ⟨_, rank', ?_, hinv⟩
    rw [exec, hcreate, Option.map_some, frameAddr, frame_ofNat (by omega)]
  | loadCr3 root =>
    have hr := (h.roots root).mp hs
    have hlt := (h.tables.frame_ok root (by omega)).2.2.1
    refine ⟨_, rank, rfl, h.of_same (fun _ _ _ _ => rfl) h.tables.valid h.tables.low_used
      (fun t ht => (h.tables.frame_ok t ht).2.2.2) rfl ?_⟩
    change rank (frame (frameAddr root)) = 4
    rw [frameAddr, frame_ofNat (by omega), hr]
  | outside mem pmm =>
    obtain ⟨hmem, hv, hlow, hused⟩ := hs
    exact ⟨_, rank, rfl, h.of_same (fun t i ht _ => hmem t i (h.reach t ht)) hv hlow
      (fun t ht => hused t (h.reach t ht)) rfl h.tables.cr3⟩

/-- Sound runs keep the page tables in order. -/
theorem run {s' : Session} {ops : List PagingOp} (h : s.Inv w rank) (hrun : Run Session.step s ops s')
    (hok : Along Session.Sound Session.step s ops) : ∃ rank', s'.Inv w rank' := by
  refine hrun.invariant (fun s => ∃ rank, s.Inv w rank) hok ⟨rank, h⟩ ?_
  rintro s op t ⟨rank, hs⟩ ho ht
  obtain ⟨s', rank', hexec, hinv⟩ := hs.sound_step ho
  rw [Session.step, hexec] at ht
  cases ht
  exact ⟨rank', hinv⟩

end Session.Inv

end HaiirOS
