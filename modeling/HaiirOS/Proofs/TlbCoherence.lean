import HaiirOS.Proofs.Booted
import HaiirOS.Proofs.CachedWalk

/-!
# Coherence of the TLB

On a core with a TLB the calls of the paging code do what they do without one, and each leaves
the TLB in agreement with the tables: a call changes the translations of its page and of the
window page, and flushes both. This holds for any sequence of calls and any choice of what is
cached, as long as new tables come out of empty frames and pages are canonical.
-/

namespace HaiirOS

open AddressWord
open Forward
open Runs

namespace Tracks

variable {hw : Hardware} {rank : Nat → Nat} {w : WindowTables} {m : Machine} {k : Core} {flags : PageFlags}
  {page v q e : Word} {root p : Nat}

/-- A leaf entry translates one page only. -/
lemma spares_put_leaf (h : Tables rank w m) (hr : rank root = 4) (hp : leafTable m.mem page 3 root = some p)
    (e : Word) : Machine.Spares (some (pageNo page)) m (m.put (slot p (lvIndex page 1)) e) := by
  intro v x hne hx
  refine (h.mmu_put_leaf (h.rank_leafTable hr hp) (index page 1) e h.cr3 fun p' hp' heq => ?_).trans hx
  obtain ⟨rfl, hi⟩ := slot_inj (lvIndex_lt _ 1) (index page 1).isLt heq
  have hno := (h.leafTable_inj h.cr3 hr hp' hp hi).1
  rw [pageNo_page] at hno
  exact hne (congrArg some hno.symm)

lemma putEntry (h : Tracks none m k) (ht : Tables rank w m) (hr : rank root = 4) (hcan : Canonical page)
    (hq : Found m q ((leafTable m.mem page 3 root).map fun p => slot p (lvIndex page 1))) :
    Matched (Tracks none) (if q ≠ 0#64 then m.store q e else some m)
      (if q ≠ 0#64 then k.store hw q e >>= fun k => some (k.flushTLB hw page) else some k) := by
  refine .ite Iff.rfl (fun hne => ?_) fun _ => .some h
  cases hp : leafTable m.mem page 3 root with
  | none =>
    rw [hp] at hq
    exact absurd hq hne
  | some p =>
    rw [hp] at hq
    obtain ⟨-, hd⟩ : q ≠ 0#64 ∧ m.deref q = some (slot p (lvIndex page 1)) := hq
    have hspares : ∀ m', m.store q e = some m' → Machine.Spares (some (pageNo page)) m m' := by
      intro m' hm'
      obtain rfl := Option.some.inj ((store_eq hd e).symm.trans hm')
      exact spares_put_leaf ht hr hp e
    exact (h.store hspares).after fun m' k' h' => h'.flushTLB hcan

lemma map (h : Tracks none m k) (ht : Tables rank w m) (hr : rank root = 4) (hf : PlainFlags flags)
    (hcan : Canonical page) (hsup : Supplied m.mem (missing m.mem page 3 root) m.pmm) (f : Word) :
    Matched (Tracks none) (m.map (frameAddr root) page f flags) (k.map hw (frameAddr root) page f flags) := by
  have hrefl : Sim w.win m m := .refl w.win m
  have hlow : ∀ f, f < 0x800 → rank f ≠ 0 → f < 0x800 ∧ rank f ≠ 0 := fun f hlt h0 => ⟨hlt, h0⟩
  have hlit : flags.getLsbD 0 = true → Lit rank m root := fun _ => ht.lit_root hr
  obtain ⟨hclear, p, d, rank', hwalk, ho⟩ := ht.directEntry_create hr hlow hf hlit hsup
  obtain ⟨q, m1, hget, -, hs, hfound⟩ := ht.ready.getEntry_eq hrefl (ht.root_ok hr).1 (ht.root_ok hr).2 hclear
  rw [hwalk] at hs hfound
  have ht1 : Tables rank' w m1 := ho.tables.of_sim hs
  have hr1 : rank' root = 4 := by rw [ho.grown.ranks root (by omega), hr]
  have hleaf : leafTable m1.mem page 3 root = some p := by
    rw [ho.tables.leafTable_eq (fun t i hi => hs.mem _ (ho.tables.slot_ne_win hi i.isLt)) hr1]
    exact ho.leaf
  rw [Machine.map, Core.map]
  refine Same.bind (h.getEntry ht.ready hrefl (ht.root_ok hr).1 (ht.root_ok hr).2 hclear
    (ht.orderly_create hr hf hlit hsup)) fun q' m1' k1 hget' h1 => ?_
  obtain ⟨rfl, rfl⟩ := Prod.mk.inj (Option.some.inj (hget.symm.trans hget'))
  refine h1.putEntry ht1 hr1 hcan ?_
  rw [hleaf]
  exact hfound

lemma lookupEntry (h : Tracks none m k) (ht : Tables rank w m) (hr : rank root = 4) :
    Matched Same (m.lookupEntry (frameAddr root) v) (k.lookupEntry hw (frameAddr root) v) := by
  have hrefl : Sim w.win m m := .refl w.win m
  have hlow : ∀ f, f < 0x800 → rank f ≠ 0 → f < 0x800 ∧ rank f ≠ 0 := fun f hlt h0 => ⟨hlt, h0⟩
  have hclear := ht.clear_lookup (v := v) hr hlow
  exact h.getEntry ht.ready hrefl (ht.root_ok hr).1 (ht.root_ok hr).2 hclear (ht.orderly_lookup hr)

lemma unmap (h : Tracks none m k) (ht : Tables rank w m) (hr : rank root = 4) (hcan : Canonical page) :
    Matched (Tracks none) (m.unmap (frameAddr root) page) (k.unmap hw (frameAddr root) page) := by
  obtain ⟨q, m1, l, hlookup, -, hs, hfound⟩ := ht.lookup_spec hr page
  have htl : Tables rank w { m with log := l ++ m.log } := ht.of_eq rfl rfl rfl rfl
  have hleaf : leafTable m1.mem page 3 root = leafTable m.mem page 3 root :=
    ht.leafTable_eq (fun t i hi => hs.mem _ (ht.slot_ne_win hi i.isLt)) hr
  rw [Machine.unmap, Core.unmap]
  refine Same.bind (h.lookupEntry ht hr) fun q' m1' k1 hlookup' h1 => ?_
  obtain ⟨rfl, rfl⟩ := Prod.mk.inj (Option.some.inj (hlookup.symm.trans hlookup'))
  refine h1.putEntry (htl.of_sim hs) hr hcan ?_
  rw [hleaf]
  exact hfound

lemma toUsrPhys (h : Tracks none m k) (ht : Tables rank w m) (hr : rank root = 4) :
    Matched Same (m.toUsrPhys (frameAddr root) v) (k.toUsrPhys hw (frameAddr root) v) := by
  rw [Machine.toUsrPhys, Core.toUsrPhys]
  refine Same.bind (h.lookupEntry ht hr) fun q m1 k1 _ h1 => ?_
  refine .ite Iff.rfl (fun _ => .some ⟨rfl, h1⟩) fun _ => ?_
  refine Same.bind h1.load fun e m2 k2 _ h2 => ?_
  refine .ite Iff.rfl (fun _ => .some ⟨rfl, h2⟩) fun _ => ?_
  exact Same.bind h2.load fun e m3 k3 _ h3 => .some ⟨rfl, h3⟩

lemma isUsrAddrPresent (h : Tracks none m k) (ht : Tables rank w m) (hr : rank root = 4) :
    Matched Same (m.isUsrAddrPresent (frameAddr root) v) (k.isUsrAddrPresent hw (frameAddr root) v) := by
  rw [Machine.isUsrAddrPresent, Core.isUsrAddrPresent]
  refine Same.bind (h.lookupEntry ht hr) fun q m1 k1 _ h1 => ?_
  refine .ite Iff.rfl (fun _ => ?_) fun _ => .some ⟨rfl, h1⟩
  exact Same.bind h1.load fun e m2 k2 _ h2 => .some ⟨rfl, h2⟩

end Tracks

namespace Tables

variable {rank : Nat → Nat} {w : WindowTables} {m : Machine} {root : Nat}

/-- `to_phys` changes the log and the window's entry only. -/
lemma toUsrPhys_sim (h : Tables rank w m) (hr : rank root = 4) (v : Word) : ∃ r l,
    m.toUsrPhys (frameAddr root) v = some r ∧ Sim w.win { m with log := l } r.2 := by
  obtain ⟨q, m1, l, hlookup, -, hs, hfound⟩ := h.lookup_spec hr v
  rw [Machine.toUsrPhys, frameAddr]
  simp only [hlookup, Option.bind_eq_bind, Option.bind_some]
  cases hp : leafTable m.mem v 3 root with
  | none =>
    rw [hp] at hfound
    have hq : q = 0#64 := hfound
    exact ⟨_, _, by rw [if_pos hq]; rfl, hs⟩
  | some p =>
    rw [hp] at hfound
    obtain ⟨hq, hd⟩ : q ≠ 0#64 ∧ m1.deref q = some (slot p (lvIndex v 1)) := hfound
    have hd' : (m1.fetch (slot p (lvIndex v 1))).deref q = some (slot p (lvIndex v 1)) := hd
    simp only [if_neg hq, load_eq hd, load_eq hd', Option.bind_some]
    split_ifs
    · exact ⟨_, _, rfl, hs.fetch _⟩
    · exact ⟨_, _, rfl, (hs.fetch _).fetch _⟩

lemma isUsrAddrPresent_sim (h : Tables rank w m) (hr : rank root = 4) (v : Word) : ∃ r l,
    m.isUsrAddrPresent (frameAddr root) v = some r ∧ Sim w.win { m with log := l } r.2 := by
  obtain ⟨q, m1, l, hlookup, -, hs, hfound⟩ := h.lookup_spec hr v
  rw [Machine.isUsrAddrPresent, frameAddr]
  simp only [hlookup, Option.bind_eq_bind, Option.bind_some]
  cases hp : leafTable m.mem v 3 root with
  | none =>
    rw [hp] at hfound
    have hq : q = 0#64 := hfound
    exact ⟨_, _, by rw [if_neg (not_not.mpr hq)]; rfl, hs⟩
  | some p =>
    rw [hp] at hfound
    obtain ⟨hq, hd⟩ : q ≠ 0#64 ∧ m1.deref q = some (slot p (lvIndex v 1)) := hfound
    simp only [if_pos hq, load_eq hd, Option.bind_some]
    exact ⟨_, _, rfl, hs.fetch _⟩

end Tables

/-- A TLB that caches whatever it can and drops nothing by itself. -/
def Hardware.eager : Hardware where
  fill _ tables tlb page := (tlb page).or (tables page)
  legal time tables tlb page := by
    cases tlb page with
    | none => exact Or.inr (Or.inr rfl)
    | some x => exact Or.inr (Or.inl rfl)

/-- A call of the paging code, or a jump to user mode. Frames are given by number. -/
inductive PagingCall
  | mapFrame (page : Word) (f : Nat) (flags : PageFlags)
  | mapUserFrame (root : Nat) (page : Word) (f : Nat) (flags : PageFlags)
  | unmapPage (page : Word)
  | unmapUserPage (root : Nat) (page : Word)
  | toPhys (v : Word)
  | toUsrPhys (root : Nat) (v : Word)
  | isAddrPresent (v : Word)
  | isUsrAddrPresent (root : Nat) (v : Word)
  | jumpUsermode (root : Nat)

namespace PagingCall

/-- The call on the machine without a TLB. -/
def exec (m : Machine) : PagingCall → Option Machine
  | .mapFrame page f flags => m.mapFrame page (frameAddr f) flags
  | .mapUserFrame root page f flags => m.mapUserFrame (frameAddr root) page (frameAddr f) flags
  | .unmapPage page => m.unmapPage page
  | .unmapUserPage root page => m.unmapUserPage (frameAddr root) page
  | .toPhys v => (m.toPhys v).map Prod.snd
  | .toUsrPhys root v => (m.toUsrPhys (frameAddr root) v).map Prod.snd
  | .isAddrPresent v => (m.isAddrPresent v).map Prod.snd
  | .isUsrAddrPresent root v => (m.isUsrAddrPresent (frameAddr root) v).map Prod.snd
  | .jumpUsermode root => some { m with cr3 := frameAddr root }

/-- The conditions under which a call leaves the tables and the TLB in order. -/
def Sound (s : Session) : PagingCall → Prop
  | .mapFrame page f flags => Canonical page ∧ s.MapOk s.kernelRoot page f flags
  | .mapUserFrame root page f flags => Canonical page ∧ s.MapOk root page f flags
  | .unmapPage page => Canonical page ∧ s.PageOk page
  | .unmapUserPage root page => Canonical page ∧ root ∈ s.roots ∧ s.PageOk page
  | .toPhys _ => True
  | .toUsrPhys root _ => root ∈ s.roots
  | .isAddrPresent _ => True
  | .isUsrAddrPresent root _ => root ∈ s.roots
  | .jumpUsermode root => root ∈ s.roots

end PagingCall

namespace Core

def exec (hw : Hardware) (k : Core) : PagingCall → Option Core
  | .mapFrame page f flags => k.mapFrame hw page (frameAddr f) flags
  | .mapUserFrame root page f flags => k.mapUserFrame hw (frameAddr root) page (frameAddr f) flags
  | .unmapPage page => k.unmapPage hw page
  | .unmapUserPage root page => k.unmapUserPage hw (frameAddr root) page
  | .toPhys v => (k.toPhys hw v).map Prod.snd
  | .toUsrPhys root v => (k.toUsrPhys hw (frameAddr root) v).map Prod.snd
  | .isAddrPresent v => (k.isAddrPresent hw v).map Prod.snd
  | .isUsrAddrPresent root v => (k.isUsrAddrPresent hw (frameAddr root) v).map Prod.snd
  | .jumpUsermode root => some (k.loadCr3 (frameAddr root))

def step (hw : Hardware) (k : Core) (c : PagingCall) (k' : Core) : Prop := k.exec hw c = some k'

/-- No cached translation differs from what the tables say. -/
def Coherent (k : Core) : Prop := ∀ (v : Word) x, k.tlb (pageNo v) = some x → k.machine.pageWalk (pageNo v) = some x

/-- Every access so far, through the window or not, went where the tables said at that time. -/
def UpToDate (k : Core) : Prop := ∀ x ∈ k.accesses, x.latest = some x.addr

end Core

lemma Same.snd {α : Type} {x : Option (α × Machine)} {y : Option (α × Core)} (h : Matched Same x y) :
    Matched (Tracks none) (x.map Prod.snd) (y.map Prod.snd) := by
  intro m hm
  obtain ⟨r, hr, rfl⟩ := Option.map_eq_some_iff.mp hm
  obtain ⟨s, hs, hrs⟩ := h r hr
  exact ⟨s.2, Option.map_eq_some_iff.mpr ⟨s, hs, rfl⟩, hrs.2⟩

lemma Tracks.loadCr3 {m : Machine} {k : Core} (h : Tracks none m k) (pml4Addr : Word) :
    Tracks none { m with cr3 := pml4Addr } (k.loadCr3 pml4Addr) := by
  refine ⟨?_, fun v x _ hx => ?_, h.latest⟩
  · rw [Core.loadCr3, h.machine]
  · cases hx

namespace PagingCall

variable {w : WindowTables} {rank : Nat → Nat} {s : Session} {hw : Hardware} {k : Core} {c : PagingCall}

/-- A sound call returns and keeps the tables in order. -/
lemma sound_exec (h : s.Inv w rank) (hs : c.Sound s) :
    ∃ m' rank', c.exec s.machine = some m' ∧ Session.Inv w rank' ⟨m', s.roots⟩ := by
  have of_step (op : PagingOp) (x : Option Machine) (hx : s.exec op = x.map (⟨·, s.roots⟩)) (hop : s.Sound op) :
      ∃ m' rank', x = some m' ∧ Session.Inv w rank' ⟨m', s.roots⟩ := by
    obtain ⟨s', rank', hexec, hinv⟩ := h.sound_step hop
    rw [hx] at hexec
    obtain ⟨m', hm, rfl⟩ := Option.map_eq_some_iff.mp hexec
    exact ⟨m', rank', hm, hinv⟩
  have hkernel : rank s.kernelRoot = 4 := (h.roots _).mp h.kernelRoot_mem
  have toPhys (root : Nat) (hr : rank root = 4) (v : Word) : ∃ m' rank',
      (s.machine.toUsrPhys (frameAddr root) v).map Prod.snd = some m' ∧ Session.Inv w rank' ⟨m', s.roots⟩ := by
    obtain ⟨r, l, hrun, hsim⟩ := h.tables.toUsrPhys_sim hr v
    exact ⟨r.2, rank, by rw [hrun]; rfl, h.of_sim hsim⟩
  have isPresent (root : Nat) (hr : rank root = 4) (v : Word) : ∃ m' rank',
      (s.machine.isUsrAddrPresent (frameAddr root) v).map Prod.snd = some m' ∧ Session.Inv w rank' ⟨m', s.roots⟩ := by
    obtain ⟨r, l, hrun, hsim⟩ := h.tables.isUsrAddrPresent_sim hr v
    exact ⟨r.2, rank, by rw [hrun]; rfl, h.of_sim hsim⟩
  cases c with
  | mapFrame page f flags => exact of_step (.mapFrame page f flags) _ rfl hs.2
  | mapUserFrame root page f flags => exact of_step (.mapUserFrame root page f flags) _ rfl hs.2
  | unmapPage page => exact of_step (.unmapPage page) _ rfl hs.2
  | unmapUserPage root page => exact of_step (.unmapUserPage root page) _ rfl hs.2
  | toPhys v =>
    rw [exec, Machine.toPhys, h.kernel_pointer]
    exact toPhys _ hkernel v
  | toUsrPhys root v => exact toPhys root ((h.roots root).mp hs) v
  | isAddrPresent v =>
    rw [exec, Machine.isAddrPresent, h.kernel_pointer]
    exact isPresent _ hkernel v
  | isUsrAddrPresent root v => exact isPresent root ((h.roots root).mp hs) v
  | jumpUsermode root => exact of_step (.loadCr3 root) (some _) rfl hs

/-- With a TLB a sound call does what it does without one. -/
lemma exec_matched (hw : Hardware) (h : s.Inv w rank) (hk : Tracks none s.machine k) (hs : c.Sound s) :
    Matched (Tracks none) (c.exec s.machine) (k.exec hw c) := by
  have ht := h.tables
  have hkernel : rank s.kernelRoot = 4 := (h.roots _).mp h.kernelRoot_mem
  cases c with
  | mapFrame page f flags =>
    rw [exec, Core.exec, Machine.mapFrame, Core.mapFrame, hk.machine, h.kernel_pointer]
    exact hk.map ht hkernel hs.2.plain hs.1 hs.2.supplied _
  | mapUserFrame root page f flags =>
    exact hk.map ht ((h.roots root).mp hs.2.known) hs.2.plain hs.1 hs.2.supplied _
  | unmapPage page =>
    rw [exec, Core.exec, Machine.unmapPage, Core.unmapPage, hk.machine, h.kernel_pointer]
    exact hk.unmap ht hkernel hs.1
  | unmapUserPage root page => exact hk.unmap ht ((h.roots root).mp hs.2.1) hs.1
  | toPhys v =>
    rw [exec, Core.exec, Machine.toPhys, Core.toPhys, hk.machine, h.kernel_pointer]
    exact Same.snd (hk.toUsrPhys ht hkernel)
  | toUsrPhys root v => exact Same.snd (hk.toUsrPhys ht ((h.roots root).mp hs))
  | isAddrPresent v =>
    rw [exec, Core.exec, Machine.isAddrPresent, Core.isAddrPresent, hk.machine, h.kernel_pointer]
    exact Same.snd (hk.isUsrAddrPresent ht hkernel)
  | isUsrAddrPresent root v => exact Same.snd (hk.isUsrAddrPresent ht ((h.roots root).mp hs))
  | jumpUsermode root => exact .some (hk.loadCr3 _)

end PagingCall

namespace Core

/-- What sound calls keep: the tables are in order, and the core tracks its own machine. -/
structure InOrder (w : WindowTables) (roots : List Nat) (k : Core) : Prop where
  inv : ∃ rank, Session.Inv w rank ⟨k.machine, roots⟩
  tracks : Tracks none k.machine k

lemma InOrder.exists_step {w : WindowTables} {roots : List Nat} (hw : Hardware) {k : Core} {c : PagingCall}
    (h : InOrder w roots k) (hs : c.Sound ⟨k.machine, roots⟩) : ∃ k', Core.step hw k c k' := by
  obtain ⟨rank, hinv⟩ := h.inv
  obtain ⟨m', rank', hexec, -⟩ := PagingCall.sound_exec hinv hs
  obtain ⟨k', hk', -⟩ := PagingCall.exec_matched hw hinv h.tracks hs m' hexec
  exact ⟨k', hk'⟩

lemma InOrder.step {w : WindowTables} {roots : List Nat} {hw : Hardware} {k k' : Core} {c : PagingCall}
    (h : InOrder w roots k) (hs : c.Sound ⟨k.machine, roots⟩) (hstep : Core.step hw k c k') :
    InOrder w roots k' := by
  obtain ⟨rank, hinv⟩ := h.inv
  obtain ⟨m', rank', hexec, hinv'⟩ := PagingCall.sound_exec hinv hs
  obtain ⟨k1, hk1, ht⟩ := PagingCall.exec_matched hw hinv h.tracks hs m' hexec
  obtain rfl : k1 = k' := Option.some.inj (hk1.symm.trans hstep)
  obtain rfl := ht.machine
  exact ⟨⟨rank', hinv'⟩, ht⟩

/-- From any state that the paging code can get into, with a TLB that agrees with it, every sequence of
sound calls leaves the TLB in agreement with the tables, and all its accesses follow them. -/
theorem tlb_coherent {w : WindowTables} {pts : Nat → Nat} {m : Machine} (hboot : Booted w pts m)
    {ops : List PagingOp} {s : Session} (hrun : Run Session.step ⟨m, [w.pml4]⟩ ops s)
    (hok : Along Session.Sound Session.step ⟨m, [w.pml4]⟩ ops) (hw : Hardware) {k k' : Core}
    (hk : k.machine = s.machine) (hcoherent : k.Coherent) (hfresh : k.accesses = []) {calls : List PagingCall}
    (hcalls : Run (step hw) k calls k')
    (hsound : Along (fun k c => c.Sound ⟨k.machine, s.roots⟩) (step hw) k calls) : k'.Coherent ∧ k'.UpToDate := by
  obtain ⟨rank, hinv⟩ := hboot.inv.run hrun hok
  have hstart : InOrder w s.roots k := by
    refine ⟨⟨rank, ?_⟩, rfl, fun v x _ hx => hcoherent v x hx, fun x hx => ?_⟩
    · rw [hk]
      exact hinv
    · rw [hfresh] at hx
      cases hx
  have hend := hcalls.invariant (InOrder w s.roots) hsound hstart fun k c k' h hs hstep => h.step hs hstep
  exact ⟨fun v x hx => hend.tracks.tlb v x (by simp) hx, hend.tracks.latest⟩

/-- A core with an empty TLB. -/
def start (m : Machine) : Core := ⟨m, fun _ => none, 0, []⟩

theorem tlb_coherent_running : ∃ k',
    step .eager (start (runningMachine (fun _ => 0#64) reservedPmm)) (.mapFrame 0x8000000000#64 0x900 3#64) k' ∧
      k'.Coherent ∧ k'.UpToDate := by
  have hboot := booted_running (fun _ => 0#64) reservedPmm_valid fun _ hf => reservedPmm_used hf
  have hsound : PagingCall.Sound ⟨runningMachine (fun _ => 0#64) reservedPmm, [1]⟩
      (.mapFrame 0x8000000000#64 0x900 3#64) :=
    ⟨by decide, Session.mapOk_running (by decide) ⟨by decide, by decide⟩ (by decide)⟩
  have hstart : InOrder bootWindow [1] (start (runningMachine (fun _ => 0#64) reservedPmm)) := by
    refine ⟨⟨_, hboot.inv⟩, rfl, ?_, ?_⟩
    · intro v x _ hx
      cases hx
    · intro x hx
      cases hx
  obtain ⟨k', hk'⟩ := hstart.exists_step .eager hsound
  have hempty : (start (runningMachine (fun _ => 0#64) reservedPmm)).Coherent := by
    intro v x hx
    cases hx
  exact ⟨k', hk', tlb_coherent hboot (.nil _) trivial .eager rfl hempty rfl (.cons hk' (.nil _))
    ⟨hsound, fun _ _ => trivial⟩⟩

/-- Zeros but for a word that an earlier owner left in frame `0x800`: it names the kernel's page directory. -/
def namingMem : Mem := Function.update (fun _ => 0#64) (slot 0x800 0) 0x3003#64

/-- The cached and the latest address of the page at 1 MiB. -/
def pageAtOneMiB (k : Core) : Option Nat × Option Nat :=
  ((k.tlb 0x100).map Translation.phys, (k.machine.pageWalk 0x100).map Translation.phys)

/-- The walk for a user page takes the stale word of its new table for an entry and rewrites the kernel's page
at 1 MiB, and an unmap of an address that is not canonical clears the entry of that page: its old translation
stays cached in both cases. -/
theorem stale_translation_stays_cached :
    (Booted bootWindow (4 + ·) (runningMachine namingMem reservedPmm) ∧ ∃ k',
      step .eager (start (runningMachine namingMem reservedPmm)) (.mapFrame 0x8000100000#64 0x900 3#64) k' ∧
        ¬ k'.Coherent) ∧
    Booted bootWindow (4 + ·) (runningMachine (fun _ => 0#64) reservedPmm) ∧ ∃ k',
      step .eager (start (runningMachine (fun _ => 0#64) reservedPmm)) (.unmapPage 0x1000000100000#64) k' ∧
        ¬ k'.Coherent := by
  have hmap : ((start (runningMachine namingMem reservedPmm)).mapFrame .eager 0x8000100000#64 (frameAddr 0x900) 3#64).map
      pageAtOneMiB = some (some 0x100000, some 0x900000) := by decide +kernel
  have hunmap : ((start (runningMachine (fun _ => 0#64) reservedPmm)).unmapPage .eager 0x1000000100000#64).map
      pageAtOneMiB = some (some 0x100000, none) := by decide +kernel
  have hstale {k : Core} {a : Option Nat} (ha : a ≠ some 0x100000) (hk : pageAtOneMiB k = (some 0x100000, a)) :
      ¬ k.Coherent := by
    intro hc
    obtain ⟨htlb, hwalk⟩ := Prod.mk.inj hk
    obtain ⟨x, hx, hphys⟩ := Option.map_eq_some_iff.mp htlb
    have hpage : k.machine.pageWalk 0x100 = some x := hc 0x100000#64 x hx
    rw [hpage, Option.map_some, hphys] at hwalk
    exact ha hwalk.symm
  obtain ⟨k1, hk1, h1⟩ := Option.map_eq_some_iff.mp hmap
  obtain ⟨k2, hk2, h2⟩ := Option.map_eq_some_iff.mp hunmap
  have hboot (mem : Mem) := booted_running mem reservedPmm_valid fun _ hf => reservedPmm_used hf
  exact ⟨⟨hboot _, k1, hk1, hstale (by decide) h1⟩, hboot _, k2, hk2, hstale (by decide) h2⟩

end Core

end HaiirOS
