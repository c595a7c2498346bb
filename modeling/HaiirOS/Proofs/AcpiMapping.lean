import HaiirOS.Boot.Acpi

/-!
# The mapping of the ACPI tables

`map_sdt` counts the pages of a table from its length alone, and it reads the length when only the
table's first page is mapped.
-/

namespace HaiirOS

open Provision

/-- A byte may be read where its page is mapped, if it is one of the bytes `tab`. -/
def Readable (tab : TableByte → Prop) (S : Set Word) (b : TableByte) : Prop := tab b → toPage b.addr ∈ S

lemma readable_persistent (tab : TableByte → Prop) : Persistent (Readable tab) :=
  fun _ _ _ hs h ht => hs (h ht)

namespace PhysBytes

variable (mem : PhysBytes)

/-- The pages from the one of the table's first byte on, as many as its length alone needs. -/
def countedPages (table : Word) : Set Word :=
  {p | ∃ k ≤ (mem.sdtLength table).toNat / 4096, p = toPage (table + BitVec.ofNat 64 (k * 4096))}

/-- The pages of the bytes of a table. -/
def tablePages (table : Word) : Set Word :=
  {p | ∃ off < (mem.sdtLength table).toNat, p = toPage (table + BitVec.ofNat 64 off)}

/-- A table whose field `Length` lies in its first page and that does not reach over the pages counted
from its length, but for pages of `S`. -/
structure Counted (S : Set Word) (table : Word) : Prop where
  length : ∀ off, 4 ≤ off → off < 8 →
    table.toNat % 4096 + off < 4096 ∨ toPage (table + BitVec.ofNat 64 off) ∈ S
  bytes : ∀ off < (mem.sdtLength table).toNat,
    table.toNat % 4096 + off < ((mem.sdtLength table).toNat / 4096 + 1) * 4096 ∨
      toPage (table + BitVec.ofNat 64 off) ∈ S

end PhysBytes

namespace RootTable

variable (mem : PhysBytes) (root : RootTable)

/-- The number of entries that fit in the length of the root table. -/
def listed : Nat := ((mem.sdtLength root.addr).toNat - headerSize) / root.entrySize

/-- The root table or a table that it lists. -/
def IsTable (table : Word) : Prop := table = root.addr ∨ ∃ i < root.listed mem, table = root.otherSdt mem i

/-- A byte of a table, or of the length in its header. -/
def IsTableByte (b : TableByte) : Prop :=
  root.IsTable mem b.table ∧ (b.off < (mem.sdtLength b.table).toNat ∨ 4 ≤ b.off ∧ b.off < 8)

/-- Every byte of a table is read after its page was mapped, and `map_sdt` maps all pages of a table. -/
structure TablesMapped : Prop where
  reads : ∀ pre b post, root.initEvents mem = pre ++ .use b :: post → root.IsTableByte mem b →
    toPage b.addr ∈ provided pre
  rootMapped : mem.tablePages root.addr ⊆ provided (mapSdt mem root.addr)
  listedMapped : ∀ i < root.listed mem,
    mem.tablePages (root.otherSdt mem i) ⊆ provided (root.eventsTo mem i ++ root.mapEntry mem i)
  walked : ∀ table, root.IsTable mem table → mem.tablePages table ⊆ provided (root.initEvents mem)

/-- The pages counted for the root table and the first `n` tables that it lists. -/
def countedTo (n : Nat) : Set Word :=
  mem.countedPages root.addr ∪ {p | ∃ i < n, p ∈ mem.countedPages (root.otherSdt mem i)}

/-- Each table lies in the pages that are counted for it or for a table before it. -/
structure Placed : Prop where
  rootCounted : mem.Counted ∅ root.addr
  listedCounted : ∀ i < root.listed mem, mem.Counted (root.countedTo mem i) (root.otherSdt mem i)

end RootTable

section Pages

/-- Pages are told apart by the page number, also past the end of the address space. -/
lemma toPage_add_eq {a : Word} {m n : Nat} (hm : m < 2 ^ 40) (hn : n < 2 ^ 40) :
    toPage (a + BitVec.ofNat 64 m) = toPage (a + BitVec.ofNat 64 (n * 4096)) ↔ (a.toNat % 4096 + m) / 4096 = n := by
  have ha := a.isLt
  rw [toPage, toPage, BitVec.toNat_inj.symm, AddressWord.base_toNat, AddressWord.base_toNat, BitVec.toNat_add,
    BitVec.toNat_add, BitVec.toNat_ofNat, BitVec.toNat_ofNat]
  omega

variable {mem : PhysBytes} {S T : Set Word} {table : Word}

lemma mem_countedPages {off : Nat} (hoff : off < 2 ^ 40) :
    toPage (table + BitVec.ofNat 64 off) ∈ mem.countedPages table ↔
      table.toNat % 4096 + off < ((mem.sdtLength table).toNat / 4096 + 1) * 4096 := by
  have hlt := (mem.sdtLength table).isLt
  constructor
  · intro ⟨k, hk, hp⟩
    have hpage := (toPage_add_eq hoff (by omega)).mp hp
    omega
  · intro h
    refine ⟨(table.toNat % 4096 + off) / 4096, ?_, ?_⟩
    · omega
    · exact (toPage_add_eq hoff (by omega)).mpr rfl

lemma toPage_first {off : Nat} (hoff : off < 2 ^ 40) :
    toPage (table + BitVec.ofNat 64 off) = toPage table ↔ table.toNat % 4096 + off < 4096 := by
  have hzero : table = table + BitVec.ofNat 64 (0 * 4096) := by simp
  have hpage : toPage (table + BitVec.ofNat 64 off) = toPage table ↔
      toPage (table + BitVec.ofNat 64 off) = toPage (table + BitVec.ofNat 64 (0 * 4096)) := by rw [← hzero]
  rw [hpage, toPage_add_eq hoff (by decide)]
  omega

lemma toPage_mem_countedPages : toPage table ∈ mem.countedPages table :=
  ⟨0, Nat.zero_le _, by simp⟩

lemma PhysBytes.Counted.mono (h : mem.Counted S table) (hs : S ⊆ T) : mem.Counted T table where
  length off hlow hhigh := (h.length off hlow hhigh).imp id fun hp => hs hp
  bytes off hoff := (h.bytes off hoff).imp id fun hp => hs hp

/-- A table's bytes lie in the pages of `S` and those counted for it. -/
lemma tablePages_subset_iff : mem.tablePages table ⊆ S ∪ mem.countedPages table ↔
    ∀ off < (mem.sdtLength table).toNat,
      table.toNat % 4096 + off < ((mem.sdtLength table).toNat / 4096 + 1) * 4096 ∨
        toPage (table + BitVec.ofNat 64 off) ∈ S := by
  have hlt := (mem.sdtLength table).isLt
  constructor
  · intro h off hoff
    exact (h ⟨off, hoff, rfl⟩).symm.imp (fun hp => (mem_countedPages (by omega)).mp hp) id
  · intro h p ⟨off, hoff, hp⟩
    subst hp
    exact (h off hoff).symm.imp id fun hp => (mem_countedPages (by omega)).mpr hp

end Pages

section Events

variable {mem : PhysBytes} {S : Set Word} {table : Word} {tab : TableByte → Prop}

@[simp] lemma provided_readField (off n : Nat) : provided (readField table off n) = ∅ := by
  ext p
  simp [provided, readField]

@[simp] lemma provided_signatureReads (target : List (BitVec 8)) (k : Nat) :
    provided (signatureReads mem table k target) = ∅ := by
  induction target generalizing k with
  | nil => exact provided_nil
  | cons b target ih =>
    rw [signatureReads, provided_use]
    split
    · exact ih (k + 1)
    · exact provided_nil

lemma provided_mapSdt : provided (mapSdt mem table) = mem.countedPages table := by
  have hlt := (mem.sdtLength table).isLt
  have hstep {k : Nat} (hk : k < (mem.sdtLength table).toNat / 4096) :
      (BitVec.ofNat 32 (k + 1) * 4096#32).setWidth 64 = BitVec.ofNat 64 ((k + 1) * 4096) := by
    apply BitVec.eq_of_toNat_eq
    rw [BitVec.toNat_setWidth, BitVec.toNat_mul, BitVec.toNat_ofNat, BitVec.toNat_ofNat, BitVec.toNat_ofNat]
    omega
  ext p
  rw [mapSdt, List.cons_append, provided_provide, provided_append, provided_readField, Set.empty_union, Set.mem_union,
    provided_flatMap]
  simp only [provided_provide, provided_readField, Set.union_empty, Set.mem_singleton_iff, List.mem_range]
  constructor
  · intro h
    cases h with
    | inl h => exact h ▸ toPage_mem_countedPages
    | inr h =>
      obtain ⟨k, hk, hp⟩ := h
      rw [hstep hk] at hp
      exact ⟨k + 1, hk, hp⟩
  · intro ⟨k, hk, hp⟩
    cases k with
    | zero => exact Or.inl (by simpa using hp)
    | succ k => exact Or.inr ⟨k, hk, by rw [hstep hk]; exact hp⟩

lemma ordered_readField (off n : Nat) : Ordered (Readable tab) S (readField table off n) ↔
    ∀ k < n, tab ⟨table, off + k⟩ → toPage (table + BitVec.ofNat 64 (off + k)) ∈ S := by
  unfold readField
  induction n with
  | zero => simp [Ordered]
  | succ n ih =>
    have hnone : provided ((List.range n).map fun k => (Provision.Event.use ⟨table, off + k⟩ : AcpiEvent)) = ∅ :=
      provided_readField off n
    rw [List.range_succ, List.map_append, ordered_append, ih, hnone, Set.union_empty, Nat.forall_lt_succ_right]
    simp [Ordered, Readable, TableByte.addr]

lemma ordered_signatureReads (target : List (BitVec 8)) (k : Nat)
    (h : ∀ j < target.length, tab ⟨table, k + j⟩ → toPage (table + BitVec.ofNat 64 (k + j)) ∈ S) :
    Ordered (Readable tab) S (signatureReads mem table k target) := by
  induction target generalizing k with
  | nil => trivial
  | cons b target ih =>
    rw [signatureReads]
    refine ⟨h 0 (Nat.succ_pos _), ?_⟩
    split
    · apply ih
      intro j hj
      have hnext := h (j + 1) (Nat.succ_lt_succ hj)
      rwa [Nat.add_comm j 1, ← Nat.add_assoc] at hnext
    · trivial

/-- `map_sdt` reads the length when only the first page is mapped, and then again. -/
lemma ordered_mapSdt : Ordered (Readable tab) S (mapSdt mem table) ↔
    ∀ off, 4 ≤ off → off < 8 → tab ⟨table, off⟩ → table.toNat % 4096 + off < 4096 ∨
      toPage (table + BitVec.ofNat 64 off) ∈ S := by
  have hread {T : Set Word} : Ordered (Readable tab) T (readField table 4 4) ↔
      ∀ off, 4 ≤ off → off < 8 → tab ⟨table, off⟩ → toPage (table + BitVec.ofNat 64 off) ∈ T := by
    rw [ordered_readField]
    constructor
    · intro h off hlow hhigh
      have hk := h (off - 4) (by omega)
      rwa [Nat.add_sub_cancel' hlow] at hk
    · intro h k hk
      exact h (4 + k) (by omega) (by omega)
  have hfirst : Ordered (Readable tab) (S ∪ {toPage table}) (readField table 4 4) ↔
      ∀ off, 4 ≤ off → off < 8 → tab ⟨table, off⟩ → table.toNat % 4096 + off < 4096 ∨
        toPage (table + BitVec.ofNat 64 off) ∈ S := by
    rw [hread]
    refine forall_congr' fun off => forall_congr' fun hlow => forall_congr' fun hhigh => forall_congr' fun _ => ?_
    rw [Set.mem_union, Set.mem_singleton_iff, toPage_first (by omega), or_comm]
  rw [← hfirst, mapSdt, List.cons_append]
  change Ordered (Readable tab) (S ∪ {toPage table}) _ ↔ _
  rw [ordered_append]
  constructor
  · exact And.left
  · intro h
    refine ⟨h, ordered_range.mpr ?_⟩
    intro i _
    apply h.mono (readable_persistent tab)
    intro p hp
    exact Or.inl (Or.inl (Or.inl hp))

end Events

namespace RootTable

variable {mem : PhysBytes} {root : RootTable}

/-- The code's number of entries is that of the table, or wraps. -/
lemma listed_le_entries : root.listed mem ≤ root.entries mem := by
  have hlt := (mem.sdtLength root.addr).isLt
  by_cases hshort : (mem.sdtLength root.addr).toNat < headerSize
  · have hzero : root.listed mem = 0 := by
      rw [listed, Nat.sub_eq_zero_of_le (Nat.le_of_lt hshort), Nat.zero_div]
    omega
  · have hheader : headerSize = 36 := rfl
    have hsize : root.entrySize = 4 ∨ root.entrySize = 8 := by
      unfold entrySize
      cases root.wide
      · exact Or.inl rfl
      · exact Or.inr rfl
    have hsub : ((mem.sdtLength root.addr).setWidth 64 - 36#64).toNat = (mem.sdtLength root.addr).toNat - 36 := by
      rw [BitVec.toNat_sub, BitVec.toNat_setWidth]
      simp only [BitVec.toNat_ofNat]
      omega
    rw [listed, entries, BitVec.toNat_setWidth, BitVec.toNat_udiv, hsub, BitVec.toNat_ofNat, hheader]
    cases hsize with
    | inl h =>
      rw [h, Nat.mod_eq_of_lt (by decide : 4 < 2 ^ 64)]
      omega
    | inr h =>
      rw [h, Nat.mod_eq_of_lt (by decide : 8 < 2 ^ 64)]
      omega

lemma provided_mapEntry (i : Nat) : provided (root.mapEntry mem i) = mem.countedPages (root.otherSdt mem i) := by
  rw [mapEntry, provided_append, provided_readField, provided_mapSdt, Set.empty_union]

lemma provided_iteration (i : Nat) : provided (root.iteration mem i) = mem.countedPages (root.otherSdt mem i) := by
  rw [iteration, provided_append, provided_append, provided_mapEntry, provided_signatureReads, provided_signatureReads,
    Set.union_empty, Set.union_empty]

lemma provided_eventsTo (n : Nat) : provided (root.eventsTo mem n) = root.countedTo mem n := by
  ext p
  rw [eventsTo, provided_append, provided_append, provided_mapSdt, provided_readField, Set.union_empty, countedTo,
    Set.mem_union, Set.mem_union, provided_flatMap]
  simp only [provided_iteration, List.mem_range, Set.mem_ofPred_eq]

lemma countedTo_mono {m n : Nat} (h : m ≤ n) : root.countedTo mem m ⊆ root.countedTo mem n := by
  intro p hp
  cases hp with
  | inl hp => exact Or.inl hp
  | inr hp =>
    obtain ⟨i, hi, hp⟩ := hp
    exact Or.inr ⟨i, Nat.lt_of_lt_of_le hi h, hp⟩

lemma countedPages_subset_countedTo {i n : Nat} (h : i < n) :
    mem.countedPages (root.otherSdt mem i) ⊆ root.countedTo mem n :=
  fun _ hp => Or.inr ⟨i, h, hp⟩

/-- At the iteration `i` a table is counted with the pages mapped before, and its pages are all mapped behind
`map_sdt`. -/
lemma Placed.at_iteration (h : root.Placed mem) {i : Nat} (ht : root.IsTable mem (root.otherSdt mem i)) :
    mem.Counted (root.countedTo mem i) (root.otherSdt mem i) := by
  by_cases hi : i < root.listed mem
  · exact h.listedCounted i hi
  · cases ht with
    | inl ht =>
      rw [ht]
      exact h.rootCounted.mono (Set.empty_subset _)
    | inr ht =>
      obtain ⟨j, hj, ht⟩ := ht
      rw [ht]
      exact (h.listedCounted j hj).mono (countedTo_mono (by omega))

lemma Placed.root_pages (h : root.Placed mem) : mem.tablePages root.addr ⊆ mem.countedPages root.addr := by
  have hpages := tablePages_subset_iff.mpr h.rootCounted.bytes
  rwa [Set.empty_union] at hpages

lemma Placed.iteration_ordered (h : root.Placed mem) (i : Nat) :
    Ordered (Readable (root.IsTableByte mem)) (root.countedTo mem i) (root.iteration mem i) := by
  have hpages (ht : root.IsTable mem (root.otherSdt mem i)) : mem.tablePages (root.otherSdt mem i) ⊆
      root.countedTo mem i ∪ mem.countedPages (root.otherSdt mem i) :=
    tablePages_subset_iff.mpr (h.at_iteration ht).bytes
  have hsignature {target : List (BitVec 8)} (htarget : target.length = 4) :
      Ordered (Readable (root.IsTableByte mem)) (root.countedTo mem i ∪ mem.countedPages (root.otherSdt mem i))
        (signatureReads mem (root.otherSdt mem i) 0 target) := by
    apply ordered_signatureReads
    intro j hj ⟨ht, hoff⟩
    change 0 + j < (mem.sdtLength (root.otherSdt mem i)).toNat ∨ 4 ≤ 0 + j ∧ 0 + j < 8 at hoff
    apply hpages ht
    exact ⟨0 + j, by omega, rfl⟩
  rw [iteration, mapEntry, ordered_append, ordered_append, ordered_append]
  simp only [provided_append, provided_readField, provided_mapSdt, provided_signatureReads, Set.empty_union,
    Set.union_empty]
  refine ⟨⟨⟨?_, ?_⟩, hsignature rfl⟩, hsignature rfl⟩
  · rw [ordered_readField]
    intro k _ ⟨_, hoff⟩
    have hheader : headerSize = 36 := rfl
    change headerSize + root.entrySize * i + k < (mem.sdtLength root.addr).toNat ∨
      4 ≤ headerSize + root.entrySize * i + k ∧ headerSize + root.entrySize * i + k < 8 at hoff
    apply Or.inl
    apply h.root_pages
    exact ⟨_, by omega, rfl⟩
  · rw [ordered_mapSdt]
    intro off hlow hhigh ⟨ht, _⟩
    exact (h.at_iteration ht).length off hlow hhigh

lemma Placed.ordered (h : root.Placed mem) (n : Nat) :
    Ordered (Readable (root.IsTableByte mem)) ∅ (root.eventsTo mem n) := by
  rw [eventsTo, ordered_append, ordered_append, ordered_mapSdt, ordered_readField, ordered_range, provided_append,
    provided_mapSdt, provided_readField, Set.empty_union, Set.union_empty]
  refine ⟨⟨?_, ?_⟩, ?_⟩
  · intro off hlow hhigh _
    exact h.rootCounted.length off hlow hhigh
  · intro k hk _
    cases h.rootCounted.length (4 + k) (by omega) (by omega) with
    | inl hfirst =>
      rw [(toPage_first (by omega)).mpr hfirst]
      exact toPage_mem_countedPages
    | inr hp => exact absurd hp (Set.notMem_empty _)
  · intro i _
    have hbefore := @provided_eventsTo mem root i
    rw [eventsTo, provided_append, provided_append, provided_mapSdt, provided_readField, Set.union_empty] at hbefore
    rw [Set.empty_union, hbefore]
    exact h.iteration_ordered i

lemma Placed.tablesMapped (h : root.Placed mem) : root.TablesMapped mem where
  reads pre b post hes hb := by
    have hok := ordered_iff.mp (h.ordered (root.entries mem)) pre b post hes hb
    rwa [Set.empty_union] at hok
  rootMapped := by
    rw [provided_mapSdt]
    exact h.root_pages
  listedMapped i hi := by
    rw [provided_append, provided_eventsTo, provided_mapEntry]
    exact tablePages_subset_iff.mpr (h.listedCounted i hi).bytes
  walked table ht := by
    rw [initEvents, provided_eventsTo]
    cases ht with
    | inl ht =>
      rw [ht]
      exact h.root_pages.trans Set.subset_union_left
    | inr ht =>
      obtain ⟨i, hi, ht⟩ := ht
      have hlt := Nat.lt_of_lt_of_le hi (@listed_le_entries mem root)
      rw [ht]
      refine (tablePages_subset_iff.mpr (h.listedCounted i hi).bytes).trans (Set.union_subset ?_ ?_)
      · exact countedTo_mono (Nat.le_of_lt hlt)
      · exact countedPages_subset_countedTo hlt

lemma TablesMapped.placed (h : root.TablesMapped mem) : root.Placed mem := by
  have hordered : Ordered (Readable (root.IsTableByte mem)) ∅ (root.initEvents mem) := by
    apply ordered_iff.mpr
    intro pre b post hes hb
    rw [Set.empty_union]
    exact h.reads pre b post hes hb
  rw [initEvents, eventsTo, ordered_append, ordered_append, ordered_mapSdt, ordered_range] at hordered
  obtain ⟨⟨hroot, _⟩, hloop⟩ := hordered
  refine ⟨⟨?_, ?_⟩, ?_⟩
  · intro off hlow hhigh
    exact hroot off hlow hhigh ⟨Or.inl rfl, Or.inr ⟨hlow, hhigh⟩⟩
  · apply tablePages_subset_iff.mp
    rw [Set.empty_union, ← provided_mapSdt]
    exact h.rootMapped
  · intro i hi
    have hbefore := @provided_eventsTo mem root i
    rw [eventsTo, provided_append] at hbefore
    constructor
    · have hiter := hloop i (Nat.lt_of_lt_of_le hi listed_le_entries)
      rw [Set.empty_union, hbefore, iteration, mapEntry, ordered_append, ordered_append, ordered_append,
        provided_readField, Set.union_empty] at hiter
      have hmap := ordered_mapSdt.mp hiter.1.1.2
      intro off hlow hhigh
      exact hmap off hlow hhigh ⟨Or.inr ⟨i, hi, rfl⟩, Or.inr ⟨hlow, hhigh⟩⟩
    · apply tablePages_subset_iff.mp
      have hpages := h.listedMapped i hi
      rwa [provided_append, provided_eventsTo, provided_mapEntry] at hpages

theorem tablesMapped_iff (mem : PhysBytes) (root : RootTable) : root.TablesMapped mem ↔ root.Placed mem :=
  ⟨TablesMapped.placed, Placed.tablesMapped⟩

/-- A root table of 36 bytes at the end of a page. -/
def straddlingRoot : RootTable := ⟨0xff0#64, true⟩

def straddlingBytes : PhysBytes := fun a => if a = 0xff4#64 then 36#8 else 0#8

/-- Its last bytes are in a page that is not mapped. -/
theorem straddlingRoot_unmapped : ¬ straddlingRoot.TablesMapped straddlingBytes := by
  intro h
  have hlength : (straddlingBytes.sdtLength straddlingRoot.addr).toNat = 36 := by decide
  have hlast := h.placed.rootCounted.bytes 16 (by omega)
  rw [hlength] at hlast
  cases hlast with
  | inl hlt => exact absurd hlt (by decide)
  | inr hp => exact Set.notMem_empty _ hp

end RootTable

end HaiirOS
