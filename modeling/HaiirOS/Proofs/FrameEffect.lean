import HaiirOS.Proofs.Booted

/-!
# What maps and unmaps leave alone

In sound runs a map or unmap changes the translation of its page only, and it writes entries
of page tables of that address space only: tables that are in its tree already, the window's
own table among them, and tables allocated for it during the call.
-/

namespace HaiirOS

open AddressWord Runs

/-- From `m` to `m'` only `page` is mapped differently below the PML4 in frame `root`, and only entries of
tables below it, old or newly allocated, are written. -/
structure LocalEffect (root : Nat) (page : Word) (m m' : Machine) : Prop where
  others : ∀ v, pageNo v ≠ pageNo page → pageNo v ≠ 0x200 → mmu m'.mem root v = mmu m.mem root v
  written : ∃ l, m'.log = l ++ m.log ∧ ∀ a, m'.mem a ≠ m.mem a ∨ .store a ∈ l →
    ∃ t, ∃ i : Fin 512, a = slot t i ∧ (Below m.mem 3 root t ∨ .alloc 1 (t * 4096) ∈ l)

namespace Tables

variable {rank rank' : Nat → Nat} {w : WindowTables} {m m' : Machine} {root p : Nat} {page e : Word}

/-- The window's table belongs to every address space. -/
lemma below_window (h : Tables rank w m) (hr : rank root = 4) : Below m.mem 3 root w.pt := by
  have hfirst : m.mem (slot root 0) = m.mem (slot w.pml4 0) := h.shared root w.pml4 hr h.top
  have hpd : Below m.mem 1 w.pd w.pt := by
    refine Or.inr ⟨1, ne_zero_of_present h.path.2.2.2, ?_⟩
    exact (h.path.2.2.frame_eq h.low.2.2.2).symm
  have hpdp : Below m.mem 2 w.pdp w.pt := by
    refine Or.inr ⟨0, ne_zero_of_present h.path.2.1.2, ?_⟩
    change Below m.mem 1 (frame (m.mem (slot w.pdp 0))) w.pt
    rwa [h.path.2.1.frame_eq h.low.2.2.1]
  refine Or.inr ⟨0, ?_, ?_⟩
  · change m.mem (slot root 0) ≠ 0#64
    rw [hfirst]
    exact ne_zero_of_present h.path.1.2
  · change Below m.mem 2 (frame (m.mem (slot root 0))) w.pt
    rwa [hfirst, h.path.1.frame_eq h.low.2.1]

lemma localEffect_of_mapped (h : Tables rank w m) (hr : rank root = 4)
    (hm : Mapped w rank rank' root page e p m m') : LocalEffect root page m m' := by
  obtain ⟨l, hlog, hchanged, -, hstores, halloc⟩ := hm.written
  have hroot : rank' root = 4 := by rw [hm.ranks root (by omega), hr]
  have htree {t : Nat} (ht : rank' t ≠ 0) (hor : rank t = 0 ∨ Below m.mem 3 root t) :
      Below m.mem 3 root t ∨ .alloc 1 (t * 4096) ∈ l := by
    rcases hor with h0 | hb
    · exact Or.inr (halloc t h0 ht)
    · exact Or.inl hb
  have hstore (a : Nat) (ha : .store a ∈ l) :
      ∃ t, ∃ i : Fin 512, a = slot t i ∧ (Below m.mem 3 root t ∨ .alloc 1 (t * 4096) ∈ l) := by
    rcases hstores a ha with rfl | ⟨u, i, rfl, hu, hor⟩
    · have hp := hm.tables.rank_leafTable hroot hm.leaf
      exact ⟨p, index page 1, rfl, htree (by omega) hm.tree⟩
    · exact ⟨u, i, rfl, htree (by omega) hor⟩
  refine ⟨fun v hne hv => hm.others root v hr hv (Or.inl hne), l, hlog, fun a ha => ?_⟩
  rcases ha with hne | ha
  · by_cases hwin : a = w.win
    · exact ⟨w.pt, 0, hwin, Or.inl (h.below_window hr)⟩
    · exact hstore a (hchanged a hwin hne)
  · exact hstore a ha

lemma localEffect_of_sim (h : Tables rank w m) (hr : rank root = 4) {l : List Event} (hl : ∀ a, .store a ∉ l)
    (hs : Sim w.win { m with log := l ++ m.log } m') : LocalEffect root page m m' := by
  have h' : Tables rank w { m with log := l ++ m.log } := h.of_eq rfl rfl rfl rfl
  refine ⟨fun v _ hv => h'.mmu_of_sim hs hr hv, l, hs.log, fun a ha => ?_⟩
  rcases ha with hne | ha
  · by_cases hwin : a = w.win
    · exact ⟨w.pt, 0, hwin, Or.inl (h.below_window hr)⟩
    · exact (hne (hs.mem a hwin)).elim
  · exact (hl a ha).elim

end Tables

namespace Session

/-- The PML4 and the page that a map or unmap is about. -/
def target (s : Session) : PagingOp → Option (Nat × Word)
  | .mapFrame page _ _ => some (s.kernelRoot, page)
  | .mapUserFrame root page _ _ => some (root, page)
  | .unmapPage page => some (s.kernelRoot, page)
  | .unmapUserPage root page => some (root, page)
  | _ => none

namespace Inv

variable {w : WindowTables} {rank : Nat → Nat} {s : Session} {root : Nat} {page : Word}

lemma localEffect_map (h : s.Inv w rank) {f : Nat} {flags : PageFlags} (hs : s.MapOk root page f flags) :
    ∃ m', s.machine.map (frameAddr root) page (frameAddr f) flags = some m' ∧ LocalEffect root page s.machine m' := by
  obtain ⟨m', rank', p, hmap, -, hm, -⟩ := h.map hs
  exact ⟨m', hmap, h.tables.localEffect_of_mapped ((h.roots root).mp hs.known) hm⟩

lemma localEffect_unmap (h : s.Inv w rank) (hroot : root ∈ s.roots) (hp : s.PageOk page) :
    ∃ m', s.machine.unmap (frameAddr root) page = some m' ∧ LocalEffect root page s.machine m' := by
  have hr := (h.roots root).mp hroot
  obtain ⟨m', hunmap, -, ⟨-, l, hl, hs⟩ | ⟨p, hm⟩⟩ := h.unmap hroot hp
  · exact ⟨m', hunmap, h.tables.localEffect_of_sim hr hl hs⟩
  · exact ⟨m', hunmap, h.tables.localEffect_of_mapped hr hm⟩

end Inv

/-- In every state that a sound run reaches, every sound map or unmap has its local effect only. -/
theorem local_effect {w : WindowTables} {pts : Nat → Nat} {m : Machine} (hboot : Booted w pts m)
    {ops : List PagingOp} {s : Session} (hrun : Run step ⟨m, [w.pml4]⟩ ops s)
    (hok : Along Sound step ⟨m, [w.pml4]⟩ ops) {op : PagingOp} (hop : s.Sound op) {root : Nat} {page : Word}
    (ht : s.target op = some (root, page)) :
    ∃ s', s.exec op = some s' ∧ LocalEffect root page s.machine s'.machine := by
  obtain ⟨rank, h⟩ := hboot.inv.run hrun hok
  cases op with
  | mapFrame page f flags =>
    cases ht
    obtain ⟨m', hmap, he⟩ := h.localEffect_map hop
    refine ⟨⟨m', s.roots⟩, ?_, he⟩
    rw [exec, Machine.mapFrame, h.kernel_pointer, hmap]
    rfl
  | mapUserFrame root page f flags =>
    cases ht
    obtain ⟨m', hmap, he⟩ := h.localEffect_map hop
    refine ⟨⟨m', s.roots⟩, ?_, he⟩
    rw [exec, Machine.mapUserFrame, hmap]
    rfl
  | unmapPage page =>
    cases ht
    obtain ⟨m', hunmap, he⟩ := h.localEffect_unmap h.kernelRoot_mem hop
    refine ⟨⟨m', s.roots⟩, ?_, he⟩
    rw [exec, Machine.unmapPage, h.kernel_pointer, hunmap]
    rfl
  | unmapUserPage root page =>
    cases ht
    obtain ⟨m', hunmap, he⟩ := h.localEffect_unmap hop.1 hop.2
    refine ⟨⟨m', s.roots⟩, ?_, he⟩
    rw [exec, Machine.unmapUserPage, hunmap]
    rfl
  | createUserPml4 => cases ht
  | loadCr3 root => cases ht
  | outside mem pmm => cases ht

theorem local_effect_running : ∃ s',
    exec ⟨runningMachine (fun _ => 0#64) reservedPmm, [1]⟩ (.mapFrame 0x8000000000#64 0x900 3#64) = some s' ∧
      LocalEffect 1 0x8000000000#64 (runningMachine (fun _ => 0#64) reservedPmm) s'.machine := by
  have hop : (⟨runningMachine (fun _ => 0#64) reservedPmm, [1]⟩ : Session).Sound
      (.mapFrame 0x8000000000#64 0x900 3#64) := mapOk_running (by decide) ⟨by decide, by decide⟩ (by decide)
  exact local_effect (booted_running _ reservedPmm_valid fun _ hf => reservedPmm_used hf) (.nil _) trivial hop rfl

/-- Zeros but for a word that an earlier owner left in frame `0x802`. -/
def staleMem : Mem := Function.update (fun _ => 0#64) (slot 0x802 1) 0x100003#64

/-- The stale word becomes the entry of a neighbouring page. -/
theorem stale_entry_maps_page : Booted bootWindow (4 + ·) (runningMachine staleMem reservedPmm) ∧ ∃ s',
    exec ⟨runningMachine staleMem reservedPmm, [1]⟩ (.mapFrame 0x8000000000#64 0x900 3#64) = some s' ∧
      mmu (runningMachine staleMem reservedPmm).mem 1 0x8000001000#64 = none ∧
      mmu s'.machine.mem 1 0x8000001000#64 = some ⟨0x100000, ⟨true, false, false⟩⟩ := by
  have hrun : ((runningMachine staleMem reservedPmm).mapFrame 0x8000000000#64 (frameAddr 0x900) 3#64).map
      (fun m => mmu m.mem 1 0x8000001000#64) = some (some ⟨0x100000, ⟨true, false, false⟩⟩) := by decide +kernel
  obtain ⟨m, hm, hmmu⟩ := Option.map_eq_some_iff.mp hrun
  refine ⟨booted_running _ reservedPmm_valid fun _ hf => reservedPmm_used hf, ⟨m, [1]⟩, ?_, ?_, hmmu⟩
  · rw [exec, hm]
    rfl
  · decide +kernel

end Session

end HaiirOS
