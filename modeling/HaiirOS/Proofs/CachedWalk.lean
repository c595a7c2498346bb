import HaiirOS.Lib.Matched
import HaiirOS.Memory.Tlb
import HaiirOS.Proofs.MapSpec

/-!
# The walk on a core with a TLB

A core tracks a machine if it has the machine's memory and registers and its TLB agrees with
the tables, on all pages or on all but one that is about to be flushed. Every routine of the
walk keeps this: the stores into upper entries find no present entry, the window's entry
translates the window page only, and `tmp_map` flushes that.
-/

namespace HaiirOS

open AddressWord
open Forward

lemma pageNo_page (v : Word) : pageNo (BitVec.ofNat 64 (pageNo v * 4096)) = pageNo v := by
  simp only [pageNo, BitVec.toNat_ofNat]
  omega

lemma mmuWalk_page (mem : Mem) (v : Word) {lvl : Nat} (hlvl : lvl ≤ 4) (t : Nat) (r : Rights) :
    mmuWalk mem v lvl t r = (mmuWalk mem (BitVec.ofNat 64 (pageNo v * 4096)) lvl t r).map
      fun x => ⟨x.phys + v.toNat % 4096, x.rights⟩ := by
  induction lvl generalizing t r with
  | zero => rfl
  | succ n ih =>
    have hidx : lvIndex (BitVec.ofNat 64 (pageNo v * 4096)) (n + 1) = lvIndex v (n + 1) :=
      lvIndex_eq_of_pageNo (pageNo_page v) (Nat.succ_pos n) hlvl
    have hlow : (BitVec.ofNat 64 (pageNo v * 4096)).toNat = v.toNat % 2 ^ 48 / 4096 * 4096 := by
      simp only [pageNo, BitVec.toNat_ofNat]
      omega
    rw [mmuWalk, mmuWalk, hidx]
    simp only [hlow]
    split_ifs with h0 h1 h2 h3
    · rfl
    · simp only [Option.map_some, Option.some.injEq, Translation.mk.injEq, and_true]
      omega
    · rfl
    · obtain rfl | rfl : n = 1 ∨ n = 2 := by omega
      all_goals
        simp only [Option.map_some, Option.some.injEq, Translation.mk.injEq, and_true]
        omega
    · exact ih (by omega) _ _

/-- A page that is not reached through an entry keeps its translation when the entry is written; one that
is reached through it has none if the entry was not present. -/
lemma mmuWalk_update_absent {mem : Mem} {a : Nat} (ha : (mem a).getLsbD 0 = false) (e : Word) {v : Word} {lvl t : Nat}
    {r : Rights} {x : Translation} (h : mmuWalk mem v lvl t r = some x) :
    mmuWalk (Function.update mem a e) v lvl t r = some x := by
  induction lvl generalizing t r with
  | zero => exact h
  | succ n ih =>
    by_cases hat : slot t (lvIndex v (n + 1)) = a
    · rw [mmuWalk_absent _ (by rw [hat]; exact ha)] at h
      cases h
    · rw [mmuWalk] at h ⊢
      simp only [Function.update_of_ne hat]
      split_ifs at h ⊢ with h0 h1 h2 h3
      · exact h
      · exact h
      · exact ih h

namespace Machine

/-- From `m` to `m'` no page but `stale` loses or changes a translation. -/
def Spares (stale : Option Nat) (m m' : Machine) : Prop :=
  ∀ (v : Word) x, stale ≠ some (pageNo v) → m.pageWalk (pageNo v) = some x → m'.pageWalk (pageNo v) = some x

lemma spares_put_absent {m : Machine} {a : Nat} (ha : (m.mem a).getLsbD 0 = false) (e : Word) :
    Spares none m (m.put a e) := fun _ _ _ hx => mmuWalk_update_absent ha e hx

end Machine

lemma Tables.spares_setWindow {rank : Nat → Nat} {w : WindowTables} {m : Machine} (h : Tables rank w m) (e : Word) :
    Machine.Spares (some (pageNo tmpAddr)) m (m.setWindow w.win e) := by
  intro v x hne hx
  have hsim : Sim w.win m m := .refl w.win m
  have hv : pageNo (BitVec.ofNat 64 (pageNo v * 4096)) ≠ 0x200 := by
    rw [pageNo_page]
    exact fun heq => hne (congrArg some heq.symm)
  exact (h.mmu_of_sim (hsim.setWindow e) h.cr3 hv).trans hx

/-- The core has the machine's state, its TLB agrees with the tables but for the page `stale`, and every
access went where the tables said. -/
structure Tracks (stale : Option Nat) (m : Machine) (k : Core) : Prop where
  machine : k.machine = m
  tlb : ∀ (v : Word) x, stale ≠ some (pageNo v) → k.tlb (pageNo v) = some x → m.pageWalk (pageNo v) = some x
  latest : ∀ x ∈ k.accesses, x.latest = some x.addr

/-- The same value, on a core that tracks the machine. -/
def Here {α : Type} (m : Machine) (a : α) (s : α × Core) : Prop := s.1 = a ∧ Tracks none m s.2

/-- The same value and the same step of the machine. -/
def Same {α : Type} (r : α × Machine) (s : α × Core) : Prop := Here r.2 r.1 s

section

variable {α β γ : Type} {R : β → γ → Prop} {m : Machine} {y : Option (α × Core)} {g : α × Core → Option γ}

lemma Here.bind {x : Option α} {f : α → Option β} (h : Matched (Here m) x y)
    (hf : ∀ a k, x = some a → Tracks none m k → Matched R (f a) (g (a, k))) : Matched R (x >>= f) (y >>= g) := by
  refine Matched.bind h fun a s ha hs => ?_
  obtain ⟨b, k⟩ := s
  obtain ⟨rfl, ht⟩ : b = a ∧ Tracks none m k := hs
  exact hf b k ha ht

lemma Same.bind {x : Option (α × Machine)} {f : α × Machine → Option β} (h : Matched Same x y)
    (hf : ∀ a m k, x = some (a, m) → Tracks none m k → Matched R (f (a, m)) (g (a, k))) :
    Matched R (x >>= f) (y >>= g) := by
  refine Matched.bind h fun r s hr hs => ?_
  obtain ⟨⟨a, m⟩, b, k⟩ := r, s
  obtain ⟨rfl, ht⟩ : b = a ∧ Tracks none m k := hs
  exact hf b m k hr ht

end

namespace Tracks

variable {hw : Hardware} {stale : Option Nat} {m m' : Machine} {k : Core} {p : Word}

lemma tick (h : Tracks stale m k) : Tracks stale m (k.tick hw) := by
  refine ⟨h.machine, fun v x hne hx => ?_, h.latest⟩
  have hfill : hw.fill k.time k.machine.pageWalk k.tlb (pageNo v) = some x := hx
  rcases hw.legal k.time k.machine.pageWalk k.tlb (pageNo v) with hl | hl | hl
  · rw [hl] at hfill
    cases hfill
  · rw [hl] at hfill
    exact h.tlb v x hne hfill
  · rw [hl, h.machine] at hfill
    exact hfill

/-- What leaves the translations as they are. -/
lemma spare (h : Tracks none m k) {k' : Core} (hm : k'.machine = m') (htlb : k'.tlb = k.tlb)
    (hacc : k'.accesses = k.accesses) (hs : Machine.Spares stale m m') : Tracks stale m' k' := by
  refine ⟨hm, fun v x hne hx => hs v x hne (h.tlb v x (by simp) ?_), ?_⟩
  · rwa [htlb] at hx
  · rw [hacc]
    exact h.latest

/-- A pointer leads where the tables say. -/
lemma translate (h : Tracks none m k) (p : Word) {a : Nat} (ha : m.deref p = some a) : k.translate p = some a := by
  rw [Core.translate]
  rw [Machine.deref] at ha
  split_ifs at ha ⊢ with hcan
  · cases hk : k.tlb (pageNo p) with
    | none =>
      simp only [h.machine, Machine.deref, if_pos hcan, ha]
    | some x =>
      have hx : mmuWalk m.mem (BitVec.ofNat 64 (pageNo p * 4096)) 4 (frame m.cr3) .all = some x :=
        h.tlb p x (by simp) hk
      rw [mmu, mmuWalk_page _ _ (Nat.le_refl 4), hx] at ha
      exact ha

lemma deref (h : Tracks none m k) : Matched (Here m) (m.deref p) (k.deref hw p) := by
  intro a ha
  have ht : Tracks none m (k.tick hw) := h.tick
  refine ⟨(a, { k.tick hw with accesses := ⟨p, a, (k.tick hw).machine.deref p⟩ :: (k.tick hw).accesses }), ?_, rfl,
    ht.machine, ht.tlb, ?_⟩
  · rw [Core.deref, ht.translate p ha]
    rfl
  · rintro x (_ | ⟨_, hx⟩)
    · change (k.tick hw).machine.deref p = some a
      rw [ht.machine, ha]
    · exact ht.latest x hx

lemma read (h : Tracks none m k) : Matched (Here m) (m.read p) (k.read hw p) := by
  intro e he
  obtain ⟨a, ha, rfl⟩ := Option.map_eq_some_iff.mp he
  have hderef : Matched (Here m) (m.deref p) (k.deref hw p) := h.deref
  obtain ⟨⟨b, k'⟩, hk, rfl, ht⟩ := hderef a ha
  refine ⟨(k'.machine.mem b, k'), ?_, ?_, ht⟩
  · rw [Core.read, hk]
    rfl
  · rw [ht.machine]

lemma load (h : Tracks none m k) : Matched Same (m.load p) (k.load hw p) := by
  intro r hr
  obtain ⟨a, ha, rfl⟩ := Option.map_eq_some_iff.mp hr
  have hderef : Matched (Here m) (m.deref p) (k.deref hw p) := h.deref
  obtain ⟨⟨b, k'⟩, hk, rfl, ht⟩ := hderef a ha
  have hm : k'.machine = m := ht.machine
  refine ⟨(k'.machine.mem b, { k' with machine := { k'.machine with log := .load b :: k'.machine.log } }), ?_, ?_,
    ht.spare ?_ rfl rfl fun _ _ _ hx => hx⟩
  · rw [Core.load, hk]
    rfl
  · rw [hm]
  · simp only [hm]

lemma write (h : Tracks none m k) {e : Word} (hs : ∀ m', m.write p e = some m' → Machine.Spares stale m m') :
    Matched (Tracks stale) (m.write p e) (k.write hw p e) := by
  intro m' hm'
  have hspares := hs m' hm'
  obtain ⟨a, ha, rfl⟩ := Option.map_eq_some_iff.mp hm'
  have hderef : Matched (Here m) (m.deref p) (k.deref hw p) := h.deref
  obtain ⟨⟨b, k'⟩, hk, rfl, ht⟩ := hderef a ha
  have hm : k'.machine = m := ht.machine
  refine ⟨{ k' with machine := { k'.machine with mem := Function.update k'.machine.mem b e } }, ?_,
    ht.spare ?_ rfl rfl hspares⟩
  · rw [Core.write, hk]
    rfl
  · simp only [hm]

lemma store (h : Tracks none m k) {e : Word} (hs : ∀ m', m.store p e = some m' → Machine.Spares stale m m') :
    Matched (Tracks stale) (m.store p e) (k.store hw p e) := by
  intro m' hm'
  have hspares := hs m' hm'
  obtain ⟨a, ha, rfl⟩ := Option.map_eq_some_iff.mp hm'
  have hderef : Matched (Here m) (m.deref p) (k.deref hw p) := h.deref
  obtain ⟨⟨b, k'⟩, hk, rfl, ht⟩ := hderef a ha
  have hm : k'.machine = m := ht.machine
  refine ⟨{ k' with machine := { k'.machine with
    mem := Function.update k'.machine.mem b e, log := .store b :: k'.machine.log } }, ?_, ht.spare ?_ rfl rfl hspares⟩
  · rw [Core.store, hk]
    rfl
  · simp only [hm]

/-- `invlpg` on the stale page. -/
lemma flushTLB (h : Tracks (some (pageNo p)) m k) (hcan : Canonical p) : Tracks none m (k.flushTLB hw p) := by
  have ht : Tracks (some (pageNo p)) m (k.tick hw) := h.tick
  rw [Core.flushTLB]
  simp only [if_pos hcan]
  refine ⟨ht.machine, fun v x _ hx => ?_, ht.latest⟩
  by_cases hv : pageNo v = pageNo p
  · rw [hv] at hx
    simp only [Function.update_self] at hx
    cases hx
  · simp only [Function.update_of_ne hv] at hx
    exact ht.tlb v x (fun heq => hv (Option.some.inj heq).symm) hx

/-! ### The routines of the walk -/

lemma getTempEntry (h : Tracks none m k) : Matched (Here m) m.getTempEntry (k.getTempEntry hw) := by
  rw [Machine.getTempEntry, Core.getTempEntry, h.machine]
  refine Here.bind h.read fun e4 k4 _ h4 => ?_
  refine Here.bind h4.read fun e3 k3 _ h3 => ?_
  refine Here.bind h3.read fun e2 k2 _ h2 => ?_
  exact .some ⟨rfl, h2⟩

variable {rank rank' : Nat → Nat} {w : WindowTables} {q : Word} {a : Nat} {flags : PageFlags}

lemma tmpMap (h : Tracks none m k) (ht : Tables rank w m) (p : Word) : Matched Same (m.tmpMap p) (k.tmpMap hw p) := by
  rw [Machine.tmpMap, Core.tmpMap]
  refine Here.bind h.getTempEntry fun entry k1 hentry h1 => ?_
  obtain ⟨-, -, -, hpt⟩ := ht.ready.tables
  have hwin : m.deref entry = some w.win := by
    rw [ht.ready.getTempEntry_eq] at hentry
    rw [← Option.some.inj hentry]
    exact ht.ready.deref_slot hpt (by decide)
  have hspares : ∀ m', m.write entry (toFrame p ||| PageFlags.present ||| PageFlags.writeable) = some m' →
      Machine.Spares (some (pageNo tmpAddr)) m m' := by
    intro m' hm'
    rw [Machine.write, hwin] at hm'
    obtain rfl := Option.some.inj hm'
    exact ht.spares_setWindow _
  refine (h1.write hspares).bind fun m' k' _ h' => ?_
  exact .some ⟨rfl, h'.flushTLB (by decide)⟩

lemma validPointer (h : Tracks none m k) (ht : Tables rank w m) (p : Word) :
    Matched Same (m.validPointer p) (k.validPointer hw p) := by
  rw [Machine.validPointer, Core.validPointer]
  exact .ite Iff.rfl (fun _ => h.tmpMap ht p) fun _ => .some ⟨rfl, h⟩

lemma addFlags (h : Tracks none m k) (hq : m.deref q = some a) :
    Matched (Tracks none) (m.addFlags q flags) (k.addFlags hw q flags) := by
  rw [Machine.addFlags, Core.addFlags]
  refine Same.bind h.load fun e m1 k1 hload h1 => ?_
  obtain ⟨rfl, rfl⟩ := Prod.mk.inj (Option.some.inj ((load_eq hq).symm.trans hload))
  refine .ite Iff.rfl (fun hdark => ?_) fun _ => .some h1
  have hq1 : (m.fetch a).deref q = some a := hq
  refine Same.bind h1.load fun e m2 k2 hload2 h2 => ?_
  obtain ⟨rfl, rfl⟩ := Prod.mk.inj (Option.some.inj ((load_eq hq1).symm.trans hload2))
  have hq2 : ((m.fetch a).fetch a).deref q = some a := hq
  refine h2.store fun m' hm' => ?_
  obtain rfl := Option.some.inj ((store_eq hq2 _).symm.trans hm')
  rw [isEntryPresent_eq, Bool.and_eq_true, Bool.not_eq_true'] at hdark
  exact Machine.spares_put_absent (m := (m.fetch a).fetch a) hdark.1 _

lemma createTable (h : Tracks none m k) (hq : m.deref q = some a) (ha : (m.mem a).getLsbD 0 = false)
    (ht : Tables rank w (m.attach a flags).2) : Matched Same (m.createTable q flags) (k.createTable hw q flags) := by
  let m1 := (m.pmmAllocUnmapped 1).2.noteTable (frame (m.pmmAllocUnmapped 1).1)
  have hq1 : m1.deref q = some a := hq
  have h1 : Tracks none m1
      (Core.noteTable { k with machine := (m.pmmAllocUnmapped 1).2 } (frame (m.pmmAllocUnmapped 1).1)) :=
    h.spare rfl rfl rfl fun _ _ _ hx => hx
  rw [Machine.createTable, Core.createTable, Core.pmmAllocUnmapped, h.machine]
  have hspares (e : Word) : ∀ m', m1.store q e = some m' → Machine.Spares none m1 m' := by
    intro m' hm'
    obtain rfl := Option.some.inj ((store_eq hq1 _).symm.trans hm')
    exact Machine.spares_put_absent ha _
  refine (h1.store (hspares _)).bind fun m' k' hm' h' => ?_
  obtain rfl := Option.some.inj ((store_eq hq1 _).symm.trans hm')
  exact h'.tmpMap ht _

lemma getTableFromEntry {m1 : Machine} {t : Nat} {i : Fin 512} (h : Tracks none m k) (ht : Tables rank w m)
    (hp : m.validPointer p = some (q, m1)) (ht1 : Tables rank w m1) (hq : m1.deref q = some (slot t i))
    (hr : 2 ≤ rank t) (ht' : Tables rank' w (m1.enter (slot t i) flags).2) :
    Matched Same (m.getTableFromEntry p flags) (k.getTableFromEntry hw p flags) := by
  rw [Machine.getTableFromEntry, Core.getTableFromEntry]
  refine Same.bind (h.validPointer ht p) fun q' m1' k1 hvalid h1 => ?_
  obtain ⟨rfl, rfl⟩ := Prod.mk.inj (Option.some.inj (hp.symm.trans hvalid))
  refine Same.bind h1.load fun e m2 k2 hload h2 => ?_
  obtain ⟨rfl, rfl⟩ := Prod.mk.inj (Option.some.inj ((load_eq hq).symm.trans hload))
  have hq2 : (m1.fetch (slot t i)).deref q = some (slot t i) := hq
  refine .ite (by rw [h2.machine]) (fun habs => ?_) fun hnamed => ?_
  · have habs' : (m1.fetch (slot t i)).Absent (m1.mem (slot t i)) := habs
    rw [Machine.enter, if_pos habs'] at ht'
    refine .ite Iff.rfl (fun hmode => ?_) fun _ => .some ⟨rfl, h2⟩
    rw [if_pos hmode] at ht'
    refine h2.createTable hq2 ?_ ht'
    have h0 : (m1.fetch (slot t i)).mem (slot t i) = 0#64 := (ht1.absent_iff hr i).mp habs
    rw [h0]
    exact not_present_zero
  · have hnamed' : ¬ (m1.fetch (slot t i)).Absent (m1.mem (slot t i)) := hnamed
    rw [Machine.enter, if_neg hnamed'] at ht'
    refine (h2.addFlags hq2).bind fun m3 k3 hadd h3 => ?_
    obtain rfl := Option.some.inj ((addFlags_eq hq2 flags).symm.trans hadd)
    exact h3.validPointer ht' _

end Tracks

/-! ### The whole walk -/

/-- Every level of the walk on physical memory leaves the tables in order. -/
def Orderly (w : WindowTables) (flags : PageFlags) (v : Word) : Nat → Machine → Nat → Prop
  | 0, _, _ => True
  | n + 1, d, t =>
    (∃ rank rank', Tables rank w d ∧ 2 ≤ rank t ∧ Tables rank' w (d.enter (slot t (lvIndex v (n + 2))) flags).2) ∧
      match d.enter (slot t (lvIndex v (n + 2))) flags with
      | (some u, d') => Orderly w flags v n d' u
      | (none, _) => True

namespace Tables

variable {rank : Nat → Nat} {w : WindowTables} {d : Machine} {flags : PageFlags} {v : Word} {n t : Nat}

lemma orderly_lookup (h : Tables rank w d) (ht : rank t = n + 1) : Orderly w lookupOnly v n d t := by
  induction n generalizing d t with
  | zero => trivial
  | succ n ih =>
    by_cases h0 : d.mem (slot t (lvIndex v (n + 2))) = 0#64
    · have habs : (d.fetch (slot t (lvIndex v (n + 2)))).Absent (d.mem (slot t (lvIndex v (n + 2)))) :=
        (h.absent_iff (by omega) (index v (n + 2))).mpr h0
      have henter : d.enter (slot t (lvIndex v (n + 2))) lookupOnly = (none, d.fetch (slot t (lvIndex v (n + 2)))) := by
        rw [Machine.enter]
        simp only [if_pos habs, ne_eq, not_true_eq_false, if_false]
      refine ⟨⟨rank, rank, h, by omega, ?_⟩, ?_⟩
      · rw [henter]
        exact h.of_eq rfl rfl rfl rfl
      · rw [henter]
        trivial
    · have habs : ¬ (d.fetch (slot t (lvIndex v (n + 2)))).Absent (d.mem (slot t (lvIndex v (n + 2)))) :=
        (h.absent_iff (by omega) (index v (n + 2))).not.mpr h0
      have hc := (h.child_index (by omega) h0).1
      have henter : d.enter (slot t (lvIndex v (n + 2))) lookupOnly =
          (some (frame (d.mem (slot t (lvIndex v (n + 2))))),
            (d.fetch (slot t (lvIndex v (n + 2)))).fetch (slot t (lvIndex v (n + 2)))) := by
        rw [Machine.enter]
        simp only [if_neg habs, Machine.light_lookupOnly]
      have h1 : Tables rank w ((d.fetch (slot t (lvIndex v (n + 2)))).fetch (slot t (lvIndex v (n + 2)))) :=
        h.of_eq rfl rfl rfl rfl
      refine ⟨⟨rank, rank, h, by omega, ?_⟩, ?_⟩
      · rw [henter]
        exact h1
      · rw [henter]
        exact ih h1 (by omega)

lemma orderly_create (h : Tables rank w d) (ht : rank t = n + 1) (hf : PlainFlags flags)
    (hlit : flags.getLsbD 0 = true → Lit rank d t) (hsup : Supplied d.mem (missing d.mem v n t) d.pmm) :
    Orderly w flags v n d t := by
  induction n generalizing rank d t with
  | zero => trivial
  | succ n ih =>
    obtain ⟨u, d1, rank1, henter, h1, -, hsup1⟩ := h.enter_create ht hf hlit hsup
    have hru := h1.rank_child
    rw [index_val] at henter
    refine ⟨⟨rank, rank1, h, by omega, ?_⟩, ?_⟩
    · rw [henter]
      exact h1.tables
    · rw [henter]
      exact ih h1.tables (by omega) h1.lit hsup1

end Tables

/-- The levels of `get_entry` below a table of level `n + 1`. -/
def Core.entryBelow (hw : Hardware) (k : Core) (flags : PageFlags) (v : Word) : Nat → Word → Option (Word × Core)
  | 0, table => some (entryPtr table (getLvIndex (9 * 1 + 3) v), k)
  | n + 1, table => do
    let (next, k) ← k.getTableFromEntry hw (entryPtr table (getLvIndex (9 * (n + 2) + 3) v)) flags
    if next = 0#64 then return (0#64, k)
    k.entryBelow hw flags v n next

lemma Core.getEntry_eq_entryBelow (hw : Hardware) (k : Core) (pml4 : Word) (flags : PageFlags) (v : Word) :
    k.getEntry hw pml4 flags v = k.entryBelow hw flags v 3 pml4 := rfl

namespace Tracks

variable {hw : Hardware} {d m m1 : Machine} {k : Core} {w : WindowTables} {low : Nat → Prop} {flags : PageFlags}
  {v p q : Word} {n t root : Nat}

lemma level (h : Tracks none m k) (hs : Sim w.win d m) (ho : Orderly w flags v (n + 1) d t)
    (hp : m.validPointer p = some (q, m1)) (hs1 : Sim w.win d m1)
    (hq : m1.deref q = some (slot t (lvIndex v (n + 2)))) :
    Matched Same (m.getTableFromEntry p flags) (k.getTableFromEntry hw p flags) := by
  obtain ⟨⟨rank, rank', ht, hr, ht'⟩, -⟩ := ho
  have hne := ht.slot_ne_win hr (lvIndex_lt v (n + 2))
  exact h.getTableFromEntry (i := index v (n + 2)) (ht.of_sim hs) hp (ht.of_sim hs1) hq hr
    (ht'.of_sim (hs1.enter hne flags))

lemma entryBelow (h : Tracks none m k) (hr : WindowReady w low m) (hs : Sim w.win d m) (hq : Points w low m q t)
    (hc : Clear w low flags v n d t) (ho : Orderly w flags v n d t) :
    Matched Same (m.entryBelow flags v n q) (k.entryBelow hw flags v n q) := by
  induction n generalizing d m k q t with
  | zero => exact .some ⟨rfl, h⟩
  | succ n ih =>
    obtain ⟨hwin, hlow, hrest⟩ := hc
    obtain ⟨hd, hlt, -, -⟩ := hq.entryPtr hr (lvIndex_lt v (n + 2))
    obtain ⟨p, m', hstep, hr', hs', hu⟩ := hr.getTableFromEntry_eq hs hd hlt hwin flags hlow
    rw [Machine.entryBelow, Core.entryBelow, getLvIndex_eq]
    refine Same.bind (h.level hs ho (validPointer_low hlt) hs hd) fun p' m'' k' hstep' h' => ?_
    obtain ⟨rfl, rfl⟩ := Prod.mk.inj (Option.some.inj (hstep.symm.trans hstep'))
    refine .ite Iff.rfl (fun _ => .some ⟨rfl, h'⟩) fun hp => ?_
    obtain ⟨-, ho⟩ := ho
    rcases hd' : d.enter (slot t (lvIndex v (n + 2))) flags with ⟨u, d'⟩
    rw [hd'] at hs' hu hrest ho
    cases u with
    | none => exact absurd hu hp
    | some u => exact ih h' hr' hs' hu hrest ho

lemma getEntry (h : Tracks none m k) (hr : WindowReady w low m) (hs : Sim w.win d m) (hroot : root < 2 ^ 40)
    (hlow : root < 0x800 → low root) (hc : Clear w low flags v 3 d root) (ho : Orderly w flags v 3 d root) :
    Matched Same (m.getEntry (BitVec.ofNat 64 (root * 4096)) flags v)
      (k.getEntry hw (BitVec.ofNat 64 (root * 4096)) flags v) := by
  obtain ⟨hwin, hlow', hrest⟩ := hc
  obtain ⟨q, m1, hvalid, hd, hlt, hr1, hs1⟩ := hr.root_step hs hroot hlow (lvIndex_lt v 4)
  obtain ⟨p, m', hstep, hr', hs', hu⟩ := hr1.getTableFromEntry_eq hs1 hd hlt hwin flags hlow'
  rw [← getTableFromEntry_congr hvalid hlt] at hstep
  rw [getEntry_eq_entryBelow, Core.getEntry_eq_entryBelow, Machine.entryBelow, Core.entryBelow, getLvIndex_eq]
  refine Same.bind (h.level hs ho hvalid hs1 hd) fun p' m'' k' hstep' h' => ?_
  obtain ⟨rfl, rfl⟩ := Prod.mk.inj (Option.some.inj (hstep.symm.trans hstep'))
  refine .ite Iff.rfl (fun _ => .some ⟨rfl, h'⟩) fun hp => ?_
  obtain ⟨-, ho⟩ := ho
  rcases hd' : d.enter (slot root (lvIndex v 4)) flags with ⟨u, d'⟩
  rw [hd'] at hs' hu hrest ho
  cases u with
  | none => exact absurd hu hp
  | some u => exact h'.entryBelow hr' hs' hu hrest ho

end Tracks

end HaiirOS
