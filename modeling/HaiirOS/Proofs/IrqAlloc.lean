import HaiirOS.Proofs.IrqTables

/-!
# Allocating a run of vectors

The scan of `alloc_io_interrupts` moves the vector that it started from, and it has no check for
the end of the table. No free run is passed over; without one the scan may leave the table.
-/

namespace HaiirOS

namespace IoApics

variable {H : Type} {s : IoApics H} {allocated : Nat → Bool} {count i k : Nat}

/-- A run of vectors that are not allocated. -/
def FreeRun (allocated : Nat → Bool) (count i : Nat) : Prop :=
  i + count ≤ ioVectorCount ∧ ∀ j < count, allocated (i + j) = false

/-- The search goes on from `i` at another vector: behind an allocated one, or behind the last allocated
one that the scan from `i` met. -/
inductive SearchStep (allocated : Nat → Bool) (count : Nat) : Nat → Nat → Prop
  | skip {i : Nat} (hi : i < ioVectorCount) (ha : allocated i = true) : SearchStep allocated count i (i + 1)
  | next {i : Nat} (hi : i < ioVectorCount) (ha : allocated i = false)
      (hhit : ∃ j < count, allocated (probe allocated i j) = true) :
      SearchStep allocated count i (probe allocated i count - count + 1)

/-- None of the scans that the search makes from `i` on looks behind the end of the table. -/
def SearchStays (allocated : Nat → Bool) (count i : Nat) : Prop :=
  ∀ k, Relation.ReflTransGen (SearchStep allocated count) i k → k < ioVectorCount → allocated k = false →
    ∀ j < count, probe allocated k j < ioVectorCount

/-- What the search from `i` on should leave. -/
structure Outcome (s : IoApics H) (count i : Nat) (r : Option (BitVec 8)) (t : IoApics H) : Prop where
  found : ∀ v, r = some v → FreeRun s.allocated count v.toNat ∧ t = s.markRun count v.toNat
  missing : r = none → t = s ∧ ∀ k, i ≤ k → ¬ FreeRun s.allocated count k

/-- `alloc_io_interrupts` returns 0 exactly if there is a free run; it marks one, or nothing. -/
def AllocRight (s : IoApics H) (count : BitVec 8) : Prop :=
  ∃ r t, s.allocIoInterrupts count = .ok (r, t) ∧
    (r.isSome ↔ ∃ i, FreeRun s.allocated count.toNat i) ∧
    (∀ v, r = some v → FreeRun s.allocated count.toNat v.toNat ∧ t = s.markRun count.toNat v.toNat) ∧
    (r = none → t = s)

/-- The scan never comes to a vector that lets it pass over a free run. -/
lemma probe_le_run {r j : Nat} (hr : FreeRun allocated count r) (hi : i ≤ r) (hj : j ≤ count) :
    probe allocated i j ≤ r + j ∧
      ((∃ k < j, allocated (probe allocated i k) = true) → probe allocated i j < r + j) := by
  induction j with
  | zero =>
    refine ⟨hi, ?_⟩
    rintro ⟨k, hk, -⟩
    exact absurd hk (Nat.not_lt_zero k)
  | succ j ih =>
    obtain ⟨hle, hlt⟩ := ih (by omega)
    rw [probe]
    cases ha : allocated (probe allocated i j) with
    | true =>
      have hbefore : probe allocated i j < r := by
        by_contra hn
        have hfree := hr.2 (probe allocated i j - r) (by omega)
        rw [Nat.add_sub_cancel' (Nat.not_lt.mp hn), ha] at hfree
        cases hfree
      rw [if_pos rfl]
      exact ⟨by omega, fun _ => by omega⟩
    | false =>
      rw [if_neg Bool.false_ne_true]
      refine ⟨by omega, ?_⟩
      rintro ⟨k, hk, hhit⟩
      have hkj : k < j := by
        by_contra hn
        obtain rfl : k = j := by omega
        rw [ha] at hhit
        cases hhit
      have := hlt ⟨k, hkj, hhit⟩
      omega

lemma SearchStep.le_run {r : Nat} (h : SearchStep allocated count i k) (hc : 0 < count) (hr : FreeRun allocated count r)
    (hi : i ≤ r) : k ≤ r := by
  cases h with
  | skip _ ha =>
    have hne : i ≠ r := by
      rintro rfl
      have hfree := hr.2 0 hc
      rw [Nat.add_zero, ha] at hfree
      cases hfree
    omega
  | next _ _ hhit =>
    have hlt := (probe_le_run hr hi (Nat.le_refl count)).2 hhit
    have hle := le_probe allocated i count
    omega

/-- Where there is a free run, the search stays in the table. -/
lemma searchStays_of_run {r : Nat} (hc : 0 < count) (hr : FreeRun allocated count r) (hi : i ≤ r) :
    SearchStays allocated count i := by
  have hbefore {k : Nat} (hk : Relation.ReflTransGen (SearchStep allocated count) i k) : k ≤ r := by
    induction hk with
    | refl => exact hi
    | tail _ hstep ih => exact hstep.le_run hc hr ih
  intro k hk _ _ j hj
  have hle := (probe_le_run hr (hbefore hk) (Nat.le_of_lt hj)).1
  have hend := hr.1
  omega

lemma searchStays_iff : SearchStays allocated count i ↔
    (i < ioVectorCount → allocated i = false → ∀ j < count, probe allocated i j < ioVectorCount) ∧
      ∀ k, SearchStep allocated count i k → SearchStays allocated count k := by
  constructor
  · intro h
    refine ⟨h i .refl, ?_⟩
    intro k hk m hm
    exact h m (.head hk hm)
  · intro ⟨hhere, hnext⟩ k hk
    cases hk.cases_head with
    | inl heq =>
      subst heq
      exact hhere
    | inr hstep =>
      obtain ⟨m, hm, hk⟩ := hstep
      exact hnext m hm k hk

lemma searchStays_skip (hi : i < ioVectorCount) (ha : allocated i = true) :
    SearchStays allocated count i ↔ SearchStays allocated count (i + 1) := by
  rw [searchStays_iff]
  constructor
  · intro h
    exact h.2 _ (.skip hi ha)
  · intro h
    refine ⟨fun _ hf => ?_, ?_⟩
    · rw [ha] at hf
      cases hf
    · intro k hk
      cases hk with
      | skip => exact h
      | next _ hf => rw [ha] at hf; cases hf

lemma searchStays_next (hi : i < ioVectorCount) (ha : allocated i = false)
    (hin : ∀ j < count, probe allocated i j < ioVectorCount)
    (hhit : ∃ j < count, allocated (probe allocated i j) = true) :
    SearchStays allocated count i ↔ SearchStays allocated count (probe allocated i count - count + 1) := by
  rw [searchStays_iff]
  constructor
  · intro h
    exact h.2 _ (.next hi ha hhit)
  · intro h
    refine ⟨fun _ _ => hin, ?_⟩
    intro k hk
    cases hk with
    | skip _ hf => rw [ha] at hf; cases hf
    | next => exact h

namespace Outcome

variable {r : Option (BitVec 8)} {t : IoApics H}

/-- A search may begin earlier where no run starts in between. -/
lemma mono (h : Outcome s count k r t) (hno : ∀ m, i ≤ m → m < k → ¬ FreeRun s.allocated count m) :
    Outcome s count i r t where
  found := h.found
  missing hr := by
    refine ⟨(h.missing hr).1, ?_⟩
    intro m hm
    by_cases hmk : k ≤ m
    · exact (h.missing hr).2 m hmk
    · exact hno m hm (Nat.lt_of_not_le hmk)

end Outcome

/-- The search has the outcome that it should and stays in the table, or it leaves the table. -/
def SearchEnds (s : IoApics H) (count i : Nat) (x : Except Stop (Option (BitVec 8) × IoApics H)) : Prop :=
  (SearchStays s.allocated count i ∧ ∃ r t, x = .ok (r, t) ∧ Outcome s count i r t) ∨
    (¬ SearchStays s.allocated count i ∧ x = .error .outOfTable)

lemma searchEnds_end (s : IoApics H) (n : Nat) (hc : 0 < count) (hi : ioVectorCount ≤ i) :
    SearchEnds s count i (s.allocFrom count n i) := by
  have hout : Outcome s count i none s := by
    constructor
    · intro v hv
      cases hv
    · intro _
      refine ⟨rfl, ?_⟩
      intro k hk hrun
      have hend := hrun.1
      omega
  refine Or.inl ⟨?_, none, s, allocFrom_end s count n hi, hout⟩
  rw [searchStays_iff]
  refine ⟨fun hlt => absurd hi (Nat.not_le.mpr hlt), ?_⟩
  intro k hk
  cases hk with
  | skip hlt _ => exact absurd hi (Nat.not_le.mpr hlt)
  | next hlt _ _ => exact absurd hi (Nat.not_le.mpr hlt)

/-- A search that goes on at `k` ends as the search from there, if no run starts in between. -/
lemma SearchEnds.mono {x : Except Stop (Option (BitVec 8) × IoApics H)} (h : SearchEnds s count k x)
    (hiff : SearchStays s.allocated count i ↔ SearchStays s.allocated count k)
    (hno : ∀ m, i ≤ m → m < k → ¬ FreeRun s.allocated count m) : SearchEnds s count i x := by
  cases h with
  | inl h =>
    obtain ⟨hstay, r, t, hx, hout⟩ := h
    exact Or.inl ⟨hiff.mpr hstay, r, t, hx, hout.mono hno⟩
  | inr h => exact Or.inr ⟨fun hstay => h.1 (hiff.mp hstay), h.2⟩

lemma freeRun_of_scan (hin : ∀ j < count, probe allocated i j < ioVectorCount)
    (hfree : ∀ j < count, allocated (probe allocated i j) = false) (hi : i < ioVectorCount) :
    FreeRun allocated count i := by
  have hprobe {j : Nat} (hj : j < count) : probe allocated i j = i + j :=
    probe_of_free fun k hk => hfree k (Nat.lt_trans hk hj)
  constructor
  · by_cases hc : count = 0
    · omega
    · have hlast := hin (count - 1) (by omega)
      rw [hprobe (by omega)] at hlast
      omega
  · intro j hj
    rw [← hprobe hj]
    exact hfree j hj

lemma allocFrom_ends (s : IoApics H) (hc : 0 < count) (n i : Nat) (hn : ioVectorCount ≤ n + i) :
    SearchEnds s count i (s.allocFrom count n i) := by
  induction n generalizing i with
  | zero => exact searchEnds_end s 0 hc (by omega)
  | succ n ih =>
    by_cases hi : i < ioVectorCount
    · cases ha : s.allocated i with
      | true =>
        rw [allocFrom_skip s count n hi ha]
        refine (ih (i + 1) (by omega)).mono (searchStays_skip hi ha) ?_
        intro m hm hmi hrun
        obtain rfl : m = i := by omega
        have hfree := hrun.2 0 hc
        rw [Nat.add_zero, ha] at hfree
        cases hfree
      | false =>
        rw [allocFrom_scan s count n hi ha]
        by_cases hin : ∀ j < count, probe s.allocated i j < ioVectorCount
        · rw [scanRun_eq s count i hin]
          by_cases hfree : ∀ j < count, s.allocated (probe s.allocated i j) = false
          · -- the scan ends with a run
            have hrun := freeRun_of_scan hin hfree hi
            have hend : probe s.allocated i count - count = i := by
              rw [probe_of_free hfree, Nat.add_sub_cancel]
            have hvalue : (BitVec.ofNat 8 i).toNat = i := by
              have hcount : ioVectorCount = 224 := rfl
              rw [BitVec.toNat_ofNat]
              exact Nat.mod_eq_of_lt (by omega)
            rw [hend, decide_eq_true hfree]
            have hstay := searchStays_of_run hc hrun (Nat.le_refl i)
            refine Or.inl ⟨hstay, some (BitVec.ofNat 8 i), s.markRun count i, ?_, ?_⟩
            · change (s.takeRun count i >>= _) = _
              rw [takeRun_eq fun j hj => by have hle := hrun.1; omega]
              rfl
            · constructor
              · intro v hv
                obtain rfl := Option.some.inj hv
                rw [hvalue]
                exact ⟨hrun, rfl⟩
              · intro hv
                cases hv
          · -- the scan goes on behind the vectors that it has looked at
            have hhit : ∃ j < count, s.allocated (probe s.allocated i j) = true := by
              by_contra hno
              refine hfree fun j hj => eq_false_of_ne_true fun h => hno ⟨j, hj, h⟩
            have hle := le_probe s.allocated i count
            rw [decide_eq_false hfree]
            refine (ih (probe s.allocated i count - count + 1) (by omega)).mono (searchStays_next hi ha hin hhit) ?_
            intro m hm hmk hrun
            have hpast := (probe_le_run hrun hm (Nat.le_refl count)).2 hhit
            omega
        · -- the scan leaves the table
          have hout : ∃ j < count, ioVectorCount ≤ probe s.allocated i j := by
            by_contra hno
            refine hin fun j hj => Nat.not_le.mp fun h => hno ⟨j, hj, h⟩
          refine Or.inr ⟨?_, ?_⟩
          · intro hstay
            exact hin (hstay i .refl hi ha)
          · rw [scanRun_error s count i hout]
            rfl
    · exact searchEnds_end s _ hc (Nat.not_lt.mp hi)

lemma allocRight_of_stays {count : BitVec 8} (hc : 0 < count.toNat) (h : SearchStays s.allocated count.toNat 0) :
    s.AllocRight count := by
  cases allocFrom_ends s hc ioVectorCount 0 (Nat.le_refl ioVectorCount) with
  | inr hend => exact absurd h hend.1
  | inl hend =>
    obtain ⟨-, r, t, hx, hout⟩ := hend
    refine ⟨r, t, hx, ?_, hout.found, fun hr => (hout.missing hr).1⟩
    cases r with
    | none =>
      refine iff_of_false Bool.false_ne_true ?_
      intro ⟨i, hrun⟩
      exact (hout.missing rfl).2 i (Nat.zero_le i) hrun
    | some v => exact iff_of_true rfl ⟨v.toNat, (hout.found v rfl).1⟩

lemma stays_of_allocRight {count : BitVec 8} (hc : 0 < count.toNat) (h : s.AllocRight count) :
    SearchStays s.allocated count.toNat 0 := by
  cases allocFrom_ends s hc ioVectorCount 0 (Nat.le_refl ioVectorCount) with
  | inl hend => exact hend.1
  | inr hend =>
    obtain ⟨r, t, hx, _⟩ := h
    cases hx.symm.trans hend.2

/-- The search is right where there is a free run, and else if its scans stay in the table. -/
theorem allocIoInterrupts_iff (s : IoApics H) {count : BitVec 8} (hc : 0 < count.toNat) : s.AllocRight count ↔
    (∃ i, FreeRun s.allocated count.toNat i) ∨ SearchStays s.allocated count.toNat 0 := by
  constructor
  · intro h
    exact Or.inr (stays_of_allocRight hc h)
  · intro h
    cases h with
    | inl h =>
      obtain ⟨i, hrun⟩ := h
      exact allocRight_of_stays hc (searchStays_of_run hc hrun (Nat.zero_le i))
    | inr h => exact allocRight_of_stays hc h

/-- The tables with all vectors allocated but the last one. -/
def lastFree : IoApics Unit :=
  { blank fun _ _ => 0#32 with allocated := fun i => decide (i ≠ 223) }

theorem lastFree_allocated : lastFree.AllocRight 1#8 := by
  refine (allocIoInterrupts_iff lastFree (by decide)).mpr (Or.inl ⟨223, by decide, fun j hj => ?_⟩)
  obtain rfl : j = 0 := Nat.lt_one_iff.mp hj
  rfl

/-- With one vector left, the scan for two reads behind the end of the table. -/
theorem lastFree_leaves : ¬ lastFree.AllocRight 2#8 := by
  intro h
  have hstay := stays_of_allocRight (by decide) h
  have hreach {k : Nat} (hk : k ≤ 223) : Relation.ReflTransGen (SearchStep lastFree.allocated 2) 0 k := by
    induction k with
    | zero => exact .refl
    | succ k ih =>
      have hcount : ioVectorCount = 224 := rfl
      have hne : lastFree.allocated k = true := decide_eq_true (by omega)
      exact .tail (ih (by omega)) (.skip (by omega) hne)
  exact absurd (hstay 223 (hreach (Nat.le_refl 223)) (by decide) rfl 1 (by decide)) (by decide)

end IoApics

end HaiirOS
