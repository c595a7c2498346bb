import HaiirOS.Memory.Init

/-!
# What paging does to the machine

The paging code works on the machine through reads and writes of entries, the window and
single-frame allocations only, so whatever these preserve survives a mapping.
-/

namespace HaiirOS

namespace Machine

variable {m m' : Machine}

/-- What the primitives of the paging code preserve. A lookup creates no tables. -/
structure Stable (flags : PageFlags) (P : Machine → Prop) : Prop where
  write : ∀ {m m' : Machine} {p w : Word}, m.write p w = some m' → P m → P m'
  load : ∀ {m m' : Machine} {p e : Word}, m.load p = some (e, m') → P m → P m'
  store : ∀ {m m' : Machine} {p w : Word}, m.store p w = some m' → P m → P m'
  create : flags ≠ lookupOnly → ∀ {m : Machine}, P m →
    P ((m.pmmAllocUnmapped 1).2.noteTable (AddressWord.frame (m.pmmAllocUnmapped 1).1))

namespace Stable

variable {flags : PageFlags} {P : Machine → Prop} (hP : Stable flags P)
include hP

lemma tmpMap {p q : Word} (h : m.tmpMap p = some (q, m')) (hm : P m) : P m' := by
  obtain ⟨t, -, h⟩ := Option.bind_eq_some_iff.mp h
  obtain ⟨m1, hw, h⟩ := Option.bind_eq_some_iff.mp h
  cases h
  exact hP.write hw hm

lemma validPointer {p q : Word} (h : m.validPointer p = some (q, m')) (hm : P m) : P m' := by
  unfold Machine.validPointer at h
  split_ifs at h
  · exact hP.tmpMap h hm
  · cases h
    exact hm

lemma addFlags {entry : Word} (h : m.addFlags entry flags = some m') (hm : P m) : P m' := by
  obtain ⟨⟨e, m1⟩, h1, h⟩ := Option.bind_eq_some_iff.mp h
  have hm1 := hP.load h1 hm
  simp only at h
  split_ifs at h
  · obtain ⟨⟨e', m2⟩, h2, h⟩ := Option.bind_eq_some_iff.mp h
    exact hP.store h (hP.load h2 hm1)
  · cases h
    exact hm1

lemma createTable {entry q : Word} (hf : flags ≠ lookupOnly) (h : m.createTable entry flags = some (q, m'))
    (hm : P m) : P m' := by
  obtain ⟨m1, h1, h⟩ := Option.bind_eq_some_iff.mp h
  exact hP.tmpMap h (hP.store h1 (hP.create hf hm))

lemma getTableFromEntry {entry q : Word} (h : m.getTableFromEntry entry flags = some (q, m')) (hm : P m) : P m' := by
  obtain ⟨⟨p1, m1⟩, h1, h⟩ := Option.bind_eq_some_iff.mp h
  obtain ⟨⟨e, m2⟩, h2, h⟩ := Option.bind_eq_some_iff.mp h
  have hm2 := hP.load h2 (hP.validPointer h1 hm)
  simp only at h
  split_ifs at h with habs hf
  · exact hP.createTable hf h hm2
  · cases h
    exact hm2
  · obtain ⟨m3, h3, h⟩ := Option.bind_eq_some_iff.mp h
    exact hP.validPointer h (hP.addFlags h3 hm2)

lemma getEntry {pml4 q v : Word} (h : m.getEntry pml4 flags v = some (q, m')) (hm : P m) : P m' := by
  obtain ⟨⟨p4, m1⟩, h4, h⟩ := Option.bind_eq_some_iff.mp h
  have hm1 := hP.getTableFromEntry h4 hm
  simp only at h
  split_ifs at h
  · cases h
    exact hm1
  obtain ⟨⟨p3, m2⟩, h3, h⟩ := Option.bind_eq_some_iff.mp h
  have hm2 := hP.getTableFromEntry h3 hm1
  simp only at h
  split_ifs at h
  · cases h
    exact hm2
  obtain ⟨⟨p2, m3⟩, h2, h⟩ := Option.bind_eq_some_iff.mp h
  have hm3 := hP.getTableFromEntry h2 hm2
  simp only at h
  split_ifs at h <;>
  · cases h
    exact hm3

theorem map {pml4 page frame : Word} (h : m.map pml4 page frame flags = some m') (hm : P m) : P m' := by
  obtain ⟨⟨q, m1⟩, h1, h⟩ := Option.bind_eq_some_iff.mp h
  have hm1 := hP.getEntry h1 hm
  simp only at h
  split_ifs at h
  · exact hP.store h hm1
  · cases h
    exact hm1

end Stable

lemma write_pmm {p w : Word} (h : m.write p w = some m') : m'.pmm = m.pmm := by
  obtain ⟨a, -, rfl⟩ := Option.map_eq_some_iff.mp h
  rfl

lemma load_pmm {p e : Word} (h : m.load p = some (e, m')) : m'.pmm = m.pmm := by
  obtain ⟨a, -, h⟩ := Option.map_eq_some_iff.mp h
  cases h
  rfl

lemma store_pmm {p w : Word} (h : m.store p w = some m') : m'.pmm = m.pmm := by
  obtain ⟨a, -, rfl⟩ := Option.map_eq_some_iff.mp h
  rfl

/-- The paging code changes the allocator through single-frame allocations only. -/
lemma stable_pmm {flags : PageFlags} {Q : Pmm → Prop}
    (hQ : flags ≠ lookupOnly → ∀ p, Q p → Q (p.pmmAllocUnmapped 1).2) : Stable flags fun m => Q m.pmm where
  write h hm := by rwa [write_pmm h]
  load h hm := by rwa [load_pmm h]
  store h hm := by rwa [store_pmm h]
  create hf _ hm := hQ hf _ hm

/-- Whatever a single-frame allocation preserves survives a mapping. -/
theorem map_pmm {Q : Pmm → Prop} (hQ : ∀ p, Q p → Q (p.pmmAllocUnmapped 1).2) {pml4 page frame : Word}
    {flags : PageFlags} (h : m.map pml4 page frame flags = some m') (hm : Q m.pmm) : Q m'.pmm :=
  (stable_pmm fun _ => hQ).map h hm

/-- A lookup leaves the allocator alone, and so does an unmap. -/
lemma unmap_pmm {pml4 page : Word} (h : m.unmap pml4 page = some m') : m'.pmm = m.pmm := by
  obtain ⟨⟨q, m1⟩, h1, h⟩ := Option.bind_eq_some_iff.mp h
  have hm1 : m1.pmm = m.pmm := (stable_pmm (Q := fun p => p = m.pmm) fun hf => (hf rfl).elim).getEntry h1 rfl
  simp only at h
  split_ifs at h
  · exact (store_pmm h).trans hm1
  · cases h
    exact hm1

lemma write_log {p w : Word} (h : m.write p w = some m') : m'.log = m.log := by
  obtain ⟨a, -, rfl⟩ := Option.map_eq_some_iff.mp h
  rfl

lemma clearEntries_same {table : Word} {first n : Nat} (h : m.clearEntries table first n = some m') :
    m'.log = m.log ∧ m'.pmm = m.pmm := by
  induction n generalizing m first with
  | zero =>
    cases h
    exact ⟨rfl, rfl⟩
  | succ n ih =>
    obtain ⟨m1, h1, h⟩ := Option.bind_eq_some_iff.mp h
    obtain ⟨hlog, hpmm⟩ := ih h
    exact ⟨hlog.trans (write_log h1), hpmm.trans (write_pmm h1)⟩

/-- What `create_user_pml4` has done if it returns: it got a frame for the table, and mapped it to itself. -/
lemma createUserPml4_cases {r : Word} (h : m.createUserPml4 = some (r, m')) :
    r = (m.pmmAllocUnmapped 1).1 ∧ ∃ m1, (m.pmmAllocUnmapped 1).2.mapFrame (toPage r) (toFrame r)
      (PageFlags.present ||| PageFlags.writeable ||| PageFlags.user) = some m1 ∧
      m'.log = .table (AddressWord.frame r) :: m1.log ∧ m'.pmm = m1.pmm := by
  obtain ⟨m1, hmap, h⟩ := Option.bind_eq_some_iff.mp h
  obtain ⟨m2, hclear, h⟩ := Option.bind_eq_some_iff.mp h
  obtain ⟨e, -, h⟩ := Option.bind_eq_some_iff.mp h
  obtain ⟨m3, hwrite, h⟩ := Option.bind_eq_some_iff.mp h
  cases h
  obtain ⟨hlog, hpmm⟩ := clearEntries_same hclear
  refine ⟨rfl, m1, hmap, ?_, ?_⟩
  · rw [noteTable, write_log hwrite, hlog]
  · rw [noteTable, write_pmm hwrite, hpmm]

end Machine

end HaiirOS
