import HaiirOS.Lib.Runs
import HaiirOS.Proofs.IoApicInit
import Mathlib.Logic.Relation
import Mathlib.Tactic.Push

/-!
# Safety of the calls on the interrupt tables

Every vector is treated as the GSI of an IOAPIC's pin, and the checks of `reserve_io_interrupt`,
`free_io_interrupt` and `exec_io_handler` only print. For each call the condition is given under which
it follows no null pointer, stays in the tables and does what it should.
-/

namespace HaiirOS

namespace IoApics

open Runs Checked

variable {H : Type} {s : IoApics H}

/-- A call or an interrupt that concerns the tables. -/
inductive TableOp (H : Type) where
  | alloc (count : BitVec 8)
  | reserve (vector : BitVec 8)
  | free (vector : BitVec 8)
  | install (vector : BitVec 8) (h : H) (data : BitVec 64)
  | remove (vector : BitVec 8)
  | interrupt (vector : BitVec 8)

/-- The state after a call that returns. -/
def tableStep (s : IoApics H) (op : TableOp H) (t : IoApics H) : Prop :=
  match op with
  | .alloc count => ∃ r, s.allocIoInterrupts count = .ok (r, t)
  | .reserve v => s.reserveIoInterrupt v = .ok t
  | .free v => s.freeIoInterrupt v = .ok t
  | .install v h data => ∃ r, s.installIoInterruptHandler v (some (.driver h)) data = .ok (r, t)
  | .remove v => ∃ r, s.removeIoInterruptHandler v = .ok (r, t)
  | .interrupt _ => t = s

/-- The vector is in the tables, and the GSI that it is wired to has an IOAPIC. -/
def Backed (s : IoApics H) (v : BitVec 8) : Prop := v.toNat < ioVectorCount ∧ (s.getIoApic (s.wired v)).isSome

/-- The tables are as before. -/
def Unchanged (s t : IoApics H) : Prop := t.allocated = s.allocated ∧ t.handlers = s.handlers

/-- The vector can be given any handler. -/
def Installable (s : IoApics H) (v : BitVec 8) : Prop :=
  ∀ handler data, ∃ t, s.installIoInterruptHandler v handler data = .ok (true, t)

/-- The call returns, that is, it follows no null pointer and indexes no table outside; a call on a vector
that is not backed leaves the tables; and the vectors that are handed out can be given handlers. -/
def CallSafe (s : IoApics H) : TableOp H → Prop
  | .alloc count => ∃ r t, s.allocIoInterrupts count = .ok (r, t) ∧
      ∀ first, r = some first → ∀ j < count.toNat, t.Installable (first + BitVec.ofNat 8 j)
  | .reserve v => ∃ t, s.reserveIoInterrupt v = .ok t ∧ (¬ s.Backed v → Unchanged s t)
  | .free v => ∃ t, s.freeIoInterrupt v = .ok t ∧ (¬ s.Backed v → Unchanged s t)
  | .install v h data =>
      ∃ r t, s.installIoInterruptHandler v (some (.driver h)) data = .ok (r, t) ∧ (¬ s.Backed v → Unchanged s t)
  | .remove v => ∃ r t, s.removeIoInterruptHandler v = .ok (r, t) ∧ (¬ s.Backed v → Unchanged s t)
  | .interrupt vector => ∀ fuel e, s.apicInterruptHandler fuel vector = .error e → e = .fuel

section Scan

/-- The `j`-th vector that the scan for a run from `i` on looks at. After a vector that is allocated it
goes on behind it by the number of vectors that it has looked at. -/
def probe (allocated : Nat → Bool) (i : Nat) : Nat → Nat
  | 0 => i
  | j + 1 => if allocated (probe allocated i j) then probe allocated i j + j + 1 else probe allocated i j + 1

/-- The search for `count` vectors from `i` on stays in the table, and ends at its end or at a run of
vectors that can be given handlers. -/
inductive ScanOk (s : IoApics H) (count : Nat) : Nat → Prop where
  | stop {i : Nat} : ioVectorCount ≤ i → ScanOk s count i
  | skip {i : Nat} : i < ioVectorCount → s.allocated i = true → ScanOk s count (i + 1) → ScanOk s count i
  | run {i : Nat} : i < ioVectorCount → s.allocated i = false → (∀ j < count, i + j < ioVectorCount ∧
      s.allocated (i + j) = false ∧ s.Backed (BitVec.ofNat 8 (i + j)) ∧ s.SlotEmpty (BitVec.ofNat 8 (i + j))) →
      ScanOk s count i
  | next {i : Nat} : i < ioVectorCount → s.allocated i = false →
      (∀ j < count, probe s.allocated i j < ioVectorCount) → (∃ j < count, s.allocated (probe s.allocated i j) = true) →
      ScanOk s count (probe s.allocated i count - count + 1) → ScanOk s count i

end Scan

/-- A forwarding handler in the slot of `v` sends a dispatch on to `w`. -/
def SendsTo (s : IoApics H) (v w : BitVec 8) : Prop :=
  (s.handlers v).func = some .ioHandlerSourceOverride ∧ (s.handlers v).data.setWidth 8 = w

/-- The condition under which a call is safe. -/
def CallOk (s : IoApics H) : TableOp H → Prop
  | .alloc count => s.ScanOk count.toNat 0
  | .reserve v => v.toNat < ioVectorCount ∧ (s.Backed v ∨ s.allocated v.toNat = true)
  | .free v => v.toNat < ioVectorCount ∧ (s.Backed v ∨ s.allocated v.toNat = false)
  | .install v _ _ => ioVectorCount ≤ v.toNat ∨ ¬ s.SlotEmpty v ∨ s.Backed v
  | .remove v => ioVectorCount ≤ v.toNat ∨ (s.getIoApic v).isSome ∧ (s.Backed v ∨ s.handlers v = emptyHandler)
  | .interrupt vector => vector < interruptBase ∨
      ∀ w, Relation.ReflTransGen s.SendsTo (vector - interruptBase) w →
        w.toNat < ioVectorCount ∧ (s.handlers w).func ≠ none

section Slots

lemma installable_iff {v : BitVec 8} : s.Installable v ↔ s.Backed v ∧ s.SlotEmpty v := by
  constructor
  · intro h
    obtain ⟨t, ht⟩ := h none 0#64
    obtain ⟨hr, -⟩ | ⟨-, hv, hempty, ioapic, hio, -⟩ := install_cases ht
    · cases hr
    · exact ⟨⟨hv, Option.isSome_of_eq_some hio⟩, hempty⟩
  · rintro ⟨⟨hv, hio⟩, hempty⟩ handler data
    obtain ⟨ioapic, hio⟩ := Option.isSome_iff_exists.mp hio
    exact ⟨_, install_empty handler data hv hempty hio⟩

lemma Installable.congr {t : IoApics H} {v : BitVec 8} (hio : t.ioapics = s.ioapics) (hov : t.overrides = s.overrides)
    (hha : t.handlers = s.handlers) : t.Installable v ↔ s.Installable v := by
  rw [installable_iff, installable_iff, Backed, Backed, getIoApic_congr hio, wired_congr hov, SlotEmpty, SlotEmpty, hha]

lemma update_eq_iff {α β : Type} [DecidableEq α] {f : α → β} {a : α} {b : β} : Function.update f a b = f ↔ f a = b := by
  constructor
  · intro h
    rw [← h, Function.update_self]
  · rintro rfl
    exact Function.update_eq_self a f

lemma free_eq (s : IoApics H) (v : BitVec 8) : s.freeIoInterrupt v =
    if v.toNat < ioVectorCount then .ok { s with allocated := Function.update s.allocated v.toNat false }
    else .error .outOfTable := by
  unfold freeIoInterrupt isAllocated setAllocated
  by_cases h : v.toNat < ioVectorCount
  · rw [if_pos h, if_pos h]
    rfl
  · rw [if_neg h, if_neg h]
    rfl

/-- `reserve_io_interrupt` and `free_io_interrupt` store a mark at any vector of the table. -/
lemma mark_safe_iff {v : BitVec 8} {b : Bool} {x : Except Stop (IoApics H)} (hx : x =
    if v.toNat < ioVectorCount then .ok { s with allocated := Function.update s.allocated v.toNat b }
    else .error .outOfTable) : (∃ t, x = .ok t ∧ (¬ s.Backed v → Unchanged s t)) ↔
      v.toNat < ioVectorCount ∧ (s.Backed v ∨ s.allocated v.toNat = b) := by
  subst hx
  by_cases hv : v.toNat < ioVectorCount
  · rw [if_pos hv]
    have hun : Unchanged s { s with allocated := Function.update s.allocated v.toNat b } ↔ s.allocated v.toNat = b := by
      rw [← update_eq_iff]
      exact ⟨And.left, fun h => ⟨h, rfl⟩⟩
    constructor
    · rintro ⟨t, ht, h⟩
      cases ht
      by_cases hb : s.Backed v
      · exact ⟨hv, .inl hb⟩
      · exact ⟨hv, .inr (hun.mp (h hb))⟩
    · rintro ⟨-, h⟩
      refine ⟨_, rfl, fun hb => hun.mpr (h.resolve_left hb)⟩
  · rw [if_neg hv]
    constructor
    · rintro ⟨t, ht, -⟩
      cases ht
    · rintro ⟨h, -⟩
      exact absurd h hv

lemma not_backed {v : BitVec 8} (hio : s.getIoApic (s.wired v) = none) : ¬ s.Backed v := by
  intro hb
  rw [Backed, hio] at hb
  cases hb.2

lemma install_safe_iff {v : BitVec 8} {h : H} {data : BitVec 64} :
    s.CallSafe (.install v h data) ↔ s.CallOk (.install v h data) := by
  by_cases hv : v.toNat < ioVectorCount
  · by_cases hempty : s.SlotEmpty v
    · cases hio : s.getIoApic (s.wired v) with
      | none =>
        apply iff_of_false
        · rintro ⟨r, t, ht, -⟩
          rw [install_unbacked hv hempty hio] at ht
          cases ht
        · rintro (hn | hn | hb)
          · exact absurd hv (Nat.not_lt.mpr hn)
          · exact hn hempty
          · exact not_backed hio hb
      | some ioapic =>
        have hb : s.Backed v := ⟨hv, Option.isSome_of_eq_some hio⟩
        apply iff_of_true
        · exact ⟨_, _, install_empty _ _ hv hempty hio, fun hn => absurd hb hn⟩
        · exact .inr (.inr hb)
    · apply iff_of_true
      · exact ⟨_, _, install_occupied hempty, fun _ => ⟨rfl, rfl⟩⟩
      · exact .inr (.inl hempty)
  · apply iff_of_true
    · exact ⟨_, _, install_invalid (Nat.not_lt.mp hv), fun _ => ⟨rfl, rfl⟩⟩
    · exact .inl (Nat.not_lt.mp hv)

lemma remove_safe_iff {v : BitVec 8} : s.CallSafe (.remove v) ↔ s.CallOk (.remove v) := by
  by_cases hv : v.toNat < ioVectorCount
  · cases hio : s.getIoApic v with
    | none =>
      apply iff_of_false
      · rintro ⟨r, t, ht, -⟩
        rw [remove_unbacked hv hio] at ht
        cases ht
      · rintro (hn | ⟨hsome, -⟩)
        · exact absurd hv (Nat.not_lt.mpr hn)
        · rw [hio] at hsome
          cases hsome
    | some ioapic =>
      have hun : Unchanged s ((s.setHandler v emptyHandler).mask ioapic v) ↔ s.handlers v = emptyHandler := by
        rw [← update_eq_iff]
        exact ⟨And.right, fun h => ⟨rfl, h⟩⟩
      constructor
      · rintro ⟨r, t, ht, h⟩
        rw [remove_valid hv hio] at ht
        cases ht
        refine .inr ⟨Option.isSome_of_eq_some hio, ?_⟩
        by_cases hb : s.Backed v
        · exact .inl hb
        · exact .inr (hun.mp (h hb))
      · rintro (hn | ⟨-, h⟩)
        · exact absurd hv (Nat.not_lt.mpr hn)
        · exact ⟨_, _, remove_valid hv hio, fun hb => hun.mpr (h.resolve_left hb)⟩
  · apply iff_of_true
    · exact ⟨_, _, remove_invalid (Nat.not_lt.mp hv), fun _ => ⟨rfl, rfl⟩⟩
    · exact .inl (Nat.not_lt.mp hv)

end Slots

section Interrupts

/-- The first step of a dispatch tests neither the vector nor the handler. -/
lemma exec_one {v : BitVec 8} (h : ∀ e, s.execIoHandler 1 v = .error e → e = .fuel) :
    v.toNat < ioVectorCount ∧ (s.handlers v).func ≠ none := by
  by_cases hv : v.toNat < ioVectorCount
  · refine ⟨hv, fun hfunc => ?_⟩
    have hnull := h .nullHandler (by rw [execIoHandler, if_neg (Nat.not_le.mpr hv), hfunc])
    cases hnull
  · have hout := h .outOfTable (by rw [execIoHandler, if_pos (Nat.not_lt.mp hv)])
    cases hout

/-- A dispatch stops for no other reason than that it goes on forever, if all the slots that it is sent
on to have handlers. -/
lemma exec_safe_iff {v : BitVec 8} : (∀ fuel e, s.execIoHandler fuel v = .error e → e = .fuel) ↔
    ∀ w, Relation.ReflTransGen s.SendsTo v w → w.toNat < ioVectorCount ∧ (s.handlers w).func ≠ none := by
  constructor
  · intro h w hw
    induction hw using Relation.ReflTransGen.head_induction_on with
    | refl => exact exec_one (h 1)
    | head hstep _ ih =>
      obtain ⟨hv, -⟩ := exec_one (h 1)
      obtain ⟨hfunc, rfl⟩ := hstep
      apply ih
      intro fuel e he
      rw [← exec_forward hv hfunc] at he
      exact h (fuel + 1) e he
  · intro h fuel
    induction fuel generalizing v with
    | zero =>
      intro e he
      cases he
      rfl
    | succ fuel ih =>
      intro e he
      obtain ⟨hv, hfunc⟩ := h v .refl
      cases hf : (s.handlers v).func with
      | none => exact absurd hf hfunc
      | some f =>
        cases f with
        | driver d =>
          rw [exec_driver hv hf] at he
          cases he
        | ioHandlerSourceOverride =>
          rw [exec_forward hv hf] at he
          exact ih (fun w hw => h w (.head ⟨hf, rfl⟩ hw)) e he

lemma interrupt_safe_iff {vector : BitVec 8} : s.CallSafe (.interrupt vector) ↔ s.CallOk (.interrupt vector) := by
  by_cases hlt : vector < interruptBase
  · apply iff_of_true
    · intro fuel e he
      rw [apicInterruptHandler, if_pos hlt] at he
      cases he
    · exact .inl hlt
  · have hexec : s.CallSafe (.interrupt vector) ↔
        ∀ fuel e, s.execIoHandler fuel (vector - interruptBase) = .error e → e = .fuel := by
      apply forall_congr'
      intro fuel
      apply forall_congr'
      intro e
      rw [apicInterruptHandler, if_neg hlt]
      cases s.execIoHandler fuel (vector - interruptBase) with
      | error e' => exact Iff.rfl
      | ok events =>
        apply iff_of_true
        all_goals
          intro h
          cases h
    rw [hexec, exec_safe_iff]
    exact ⟨.inr, fun h => h.resolve_left hlt⟩

end Interrupts

section Alloc

variable {count i : Nat}

lemma le_probe (allocated : Nat → Bool) (i j : Nat) : i + j ≤ probe allocated i j := by
  induction j with
  | zero => exact Nat.le_refl i
  | succ j ih =>
    rw [probe]
    split <;> omega

/-- The scan looks at the vectors one after the other until it finds one that is allocated. -/
lemma probe_of_free {allocated : Nat → Bool} {j : Nat} (h : ∀ k < j, allocated (probe allocated i k) = false) :
    probe allocated i j = i + j := by
  induction j with
  | zero => rfl
  | succ j ih =>
    rw [probe, h j (Nat.lt_succ_self j), if_neg Bool.false_ne_true, ih fun k hk => h k (Nat.lt_succ_of_lt hk)]
    omega

lemma probe_of_free_run {allocated : Nat → Bool} {j : Nat} (h : ∀ k < j, allocated (i + k) = false) :
    probe allocated i j = i + j := by
  induction j with
  | zero => rfl
  | succ j ih =>
    rw [probe, ih fun k hk => h k (Nat.lt_succ_of_lt hk), h j (Nat.lt_succ_self j), if_neg Bool.false_ne_true]
    omega

lemma scanRun_succ (s : IoApics H) (count i : Nat) : s.scanRun (count + 1) i = s.scanRun count i >>= fun p => do
    let allocated ← s.isAllocated (p.1 + count)
    return if allocated then (p.1 + count, false) else p := by
  unfold scanRun
  rw [List.range_succ, List.foldlM_append]
  congr 1
  funext p
  rw [List.foldlM_cons]
  exact bind_pure _

lemma scanRun_eq (s : IoApics H) (count i : Nat) (h : ∀ j < count, probe s.allocated i j < ioVectorCount) :
    s.scanRun count i = .ok (probe s.allocated i count - count,
      decide (∀ j < count, s.allocated (probe s.allocated i j) = false)) := by
  induction count with
  | zero => rfl
  | succ count ih =>
    have hle := le_probe s.allocated i count
    have hadd : probe s.allocated i count - count + count = probe s.allocated i count := Nat.sub_add_cancel (by omega)
    rw [scanRun_succ, ih fun j hj => h j (Nat.lt_succ_of_lt hj)]
    change (s.isAllocated (probe s.allocated i count - count + count) >>= _) = _
    rw [hadd, isAllocated, if_pos (h count (Nat.lt_succ_self count))]
    cases hcount : s.allocated (probe s.allocated i count) with
    | true =>
      have hnot : ¬ ∀ j < count + 1, s.allocated (probe s.allocated i j) = false := by
        intro hall
        have hfalse := hall count (Nat.lt_succ_self count)
        rw [hcount] at hfalse
        cases hfalse
      have hnext : probe s.allocated i (count + 1) - (count + 1) = probe s.allocated i count := by
        rw [probe, if_pos hcount]
        omega
      rw [hnext, decide_eq_false hnot]
      rfl
    | false =>
      have hiff : (∀ j < count + 1, s.allocated (probe s.allocated i j) = false) ↔
          ∀ j < count, s.allocated (probe s.allocated i j) = false := by
        rw [Nat.forall_lt_succ_right]
        exact and_iff_left hcount
      have hnext : probe s.allocated i (count + 1) - (count + 1) = probe s.allocated i count - count := by
        rw [probe, hcount, if_neg Bool.false_ne_true]
        omega
      rw [hnext, decide_eq_decide.mpr hiff]
      rfl

lemma scanRun_error (s : IoApics H) (count i : Nat) (h : ∃ j < count, ioVectorCount ≤ probe s.allocated i j) :
    s.scanRun count i = .error .outOfTable := by
  induction count with
  | zero => obtain ⟨j, hj, -⟩ := h; omega
  | succ count ih =>
    rw [scanRun_succ]
    by_cases hbefore : ∃ j < count, ioVectorCount ≤ probe s.allocated i j
    · rw [ih hbefore]
      rfl
    · have hin : ∀ j < count, probe s.allocated i j < ioVectorCount := by
        intro j hj
        by_contra hn
        exact hbefore ⟨j, hj, Nat.not_lt.mp hn⟩
      obtain ⟨j, hj, hout⟩ := h
      obtain rfl : j = count := by
        by_contra hne
        exact Nat.not_le.mpr (hin j (by omega)) hout
      have hle := le_probe s.allocated i j
      have hadd : probe s.allocated i j - j + j = probe s.allocated i j := Nat.sub_add_cancel (by omega)
      rw [scanRun_eq s j i hin]
      change (s.isAllocated (probe s.allocated i j - j + j) >>= _) = _
      rw [hadd, isAllocated, if_neg (Nat.not_lt.mpr hout)]
      rfl

/-- The tables with the vectors of a run marked. -/
def markRun (s : IoApics H) (count i : Nat) : IoApics H :=
  { s with allocated := fun k => decide (i ≤ k ∧ k < i + count) || s.allocated k }

lemma sameTables_markRun (s : IoApics H) (count i : Nat) : SameTables s (s.markRun count i) := ⟨rfl, rfl, rfl⟩

lemma takeRun_eq (h : ∀ j < count, i + j < ioVectorCount) : s.takeRun count i = .ok (s.markRun count i) := by
  induction count with
  | zero =>
    have hmark : s.markRun 0 i = s := by
      unfold markRun
      congr 1
      funext k
      rw [decide_eq_false (by omega : ¬ (i ≤ k ∧ k < i + 0)), Bool.false_or]
    rw [hmark]
    rfl
  | succ count ih =>
    have hlast := h count (Nat.lt_succ_self count)
    have hvalue : (BitVec.ofNat 8 (i + count)).toNat = i + count := by
      have hcount : ioVectorCount = 224 := rfl
      rw [BitVec.toNat_ofNat]
      exact Nat.mod_eq_of_lt (by omega)
    let marked := Function.update (s.markRun count i).allocated (i + count) true
    have hmark : Function.update marked (i + count) true = (s.markRun (count + 1) i).allocated := by
      funext k
      by_cases hk : k = i + count
      · subst hk
        simp [markRun]
      · simp only [marked, Function.update_of_ne hk, markRun]
        have hiff : i ≤ k ∧ k < i + count ↔ i ≤ k ∧ k < i + (count + 1) := by omega
        rw [decide_eq_decide.mpr hiff]
    have hreserve := reserve_eq { s.markRun count i with allocated := marked } (BitVec.ofNat 8 (i + count))
    rw [hvalue, if_pos hlast] at hreserve
    unfold takeRun at ih ⊢
    rw [List.range_succ, List.foldlM_append, ih fun j hj => h j (Nat.lt_succ_of_lt hj)]
    change ((s.markRun count i).setAllocated (i + count) true >>= _) >>= _ = _
    rw [setAllocated, if_pos hlast]
    change IoApics.reserveIoInterrupt _ _ >>= _ = _
    rw [hreserve]
    exact congrArg (fun a => Except.ok { s with allocated := a }) hmark

lemma allocFrom_end (s : IoApics H) (count n : Nat) (hi : ioVectorCount ≤ i) :
    s.allocFrom count n i = .ok (none, s) := by
  cases n with
  | zero => rfl
  | succ n => rw [allocFrom, if_neg (Nat.not_lt.mpr hi)]

lemma allocFrom_skip (s : IoApics H) (count n : Nat) (hi : i < ioVectorCount) (ha : s.allocated i = true) :
    s.allocFrom count (n + 1) i = s.allocFrom count n (i + 1) := by
  rw [allocFrom, if_pos hi, isAllocated, if_pos hi, ha]
  rfl

lemma allocFrom_scan (s : IoApics H) (count n : Nat) (hi : i < ioVectorCount) (ha : s.allocated i = false) :
    s.allocFrom count (n + 1) i = s.scanRun count i >>= fun p =>
      if p.2 then do
        let t ← s.takeRun count p.1
        return (some (BitVec.ofNat 8 p.1), t)
      else s.allocFrom count n (p.1 + 1) := by
  rw [allocFrom, if_pos hi, isAllocated, if_pos hi, ha]
  rfl

lemma installable_take {t : IoApics H} (h : SameTables s t) (j : Nat) :
    t.Installable (BitVec.ofNat 8 i + BitVec.ofNat 8 j) ↔
      s.Backed (BitVec.ofNat 8 (i + j)) ∧ s.SlotEmpty (BitVec.ofNat 8 (i + j)) := by
  rw [Installable.congr h.ioapics h.overrides h.handlers, installable_iff, BitVec.ofNat_add]

lemma scanOk_skip_iff (hi : i < ioVectorCount) (ha : s.allocated i = true) :
    s.ScanOk count i ↔ s.ScanOk count (i + 1) := by
  constructor
  · intro h
    cases h with
    | stop hle => exact absurd hi (Nat.not_lt.mpr hle)
    | skip _ _ h => exact h
    | run _ hf => rw [ha] at hf; cases hf
    | next _ hf => rw [ha] at hf; cases hf
  · exact .skip hi ha

/-- A scan that meets no vector that is allocated ends at `i`. -/
lemma scanOk_run_iff (hi : i < ioVectorCount) (ha : s.allocated i = false)
    (hin : ∀ j < count, probe s.allocated i j < ioVectorCount)
    (hfree : ∀ j < count, s.allocated (probe s.allocated i j) = false) :
    s.ScanOk count i ↔ ∀ j < count, s.Backed (BitVec.ofNat 8 (i + j)) ∧ s.SlotEmpty (BitVec.ofNat 8 (i + j)) := by
  constructor
  · intro h
    cases h with
    | stop hle => exact absurd hi (Nat.not_lt.mpr hle)
    | skip _ hf _ => rw [ha] at hf; cases hf
    | run _ _ h => exact fun j hj => (h j hj).2.2
    | next _ _ _ hhit _ =>
      obtain ⟨j, hj, hhit⟩ := hhit
      rw [hfree j hj] at hhit
      cases hhit
  · intro h
    refine .run hi ha fun j hj => ?_
    have hprobe : probe s.allocated i j = i + j := probe_of_free fun k hk => hfree k (Nat.lt_trans hk hj)
    rw [← hprobe]
    refine ⟨hin j hj, hfree j hj, ?_⟩
    rw [hprobe]
    exact h j hj

lemma scanOk_next_iff (hi : i < ioVectorCount) (ha : s.allocated i = false)
    (hin : ∀ j < count, probe s.allocated i j < ioVectorCount)
    (hhit : ∃ j < count, s.allocated (probe s.allocated i j) = true) :
    s.ScanOk count i ↔ s.ScanOk count (probe s.allocated i count - count + 1) := by
  constructor
  · intro h
    cases h with
    | stop hle => exact absurd hi (Nat.not_lt.mpr hle)
    | skip _ hf _ => rw [ha] at hf; cases hf
    | run _ _ h =>
      obtain ⟨j, hj, hhit⟩ := hhit
      rw [probe_of_free_run fun k hk => (h k (Nat.lt_trans hk hj)).2.1, (h j hj).2.1] at hhit
      cases hhit
    | next _ _ _ _ h => exact h
  · exact .next hi ha hin hhit

lemma not_scanOk_of_out (hi : i < ioVectorCount) (ha : s.allocated i = false)
    (hout : ∃ j < count, ioVectorCount ≤ probe s.allocated i j) : ¬ s.ScanOk count i := by
  obtain ⟨j, hj, hout⟩ := hout
  intro h
  cases h with
  | stop hle => exact absurd hi (Nat.not_lt.mpr hle)
  | skip _ hf _ => rw [ha] at hf; cases hf
  | run _ _ h =>
    rw [probe_of_free_run fun k hk => (h k (Nat.lt_trans hk hj)).2.1] at hout
    exact absurd (h j hj).1 (Nat.not_lt.mpr hout)
  | next _ _ hin _ _ => exact absurd (hin j hj) (Nat.not_lt.mpr hout)

lemma allocFrom_safe_iff (s : IoApics H) (count n i : Nat) (hn : ioVectorCount ≤ n + i) :
    (∃ r t, s.allocFrom count n i = .ok (r, t) ∧
      ∀ first, r = some first → ∀ j < count, t.Installable (first + BitVec.ofNat 8 j)) ↔ s.ScanOk count i := by
  induction n generalizing i with
  | zero =>
    apply iff_of_true
    · exact ⟨none, s, rfl, fun first h => nomatch h⟩
    · exact .stop (by omega)
  | succ n ih =>
    by_cases hi : i < ioVectorCount
    · cases ha : s.allocated i with
      | true => rw [allocFrom_skip s count n hi ha, ih (i + 1) (by omega), scanOk_skip_iff hi ha]
      | false =>
        rw [allocFrom_scan s count n hi ha]
        by_cases hout : ∃ j < count, ioVectorCount ≤ probe s.allocated i j
        · -- the scan leaves the table
          rw [scanRun_error s count i hout]
          apply iff_of_false
          · rintro ⟨r, t, h, -⟩
            cases h
          · exact not_scanOk_of_out hi ha hout
        · have hin : ∀ j < count, probe s.allocated i j < ioVectorCount := by
            intro j hj
            by_contra hn
            exact hout ⟨j, hj, Nat.not_lt.mp hn⟩
          rw [scanRun_eq s count i hin]
          by_cases hfree : ∀ j < count, s.allocated (probe s.allocated i j) = false
          · -- the scan ends with a run
            have hend : probe s.allocated i count - count = i := by
              rw [probe_of_free hfree, Nat.add_sub_cancel]
            have hrun : ∀ j < count, i + j < ioVectorCount := by
              intro j hj
              rw [← probe_of_free fun k hk => hfree k (Nat.lt_trans hk hj)]
              exact hin j hj
            have hsame := s.sameTables_markRun count i
            rw [scanOk_run_iff hi ha hin hfree, hend, decide_eq_true hfree]
            change (∃ r u, (s.takeRun count i >>= _) = _ ∧ _) ↔ _
            rw [takeRun_eq hrun]
            constructor
            · rintro ⟨r, u, hu, h⟩
              cases hu
              exact fun j hj => (installable_take hsame j).mp (h _ rfl j hj)
            · intro h
              refine ⟨_, _, rfl, fun first hfirst j hj => ?_⟩
              obtain rfl := Option.some.inj hfirst
              exact (installable_take hsame j).mpr (h j hj)
          · -- the scan goes on behind the vectors that it has looked at
            have hhit : ∃ j < count, s.allocated (probe s.allocated i j) = true := by
              push Not at hfree
              obtain ⟨j, hj, h⟩ := hfree
              exact ⟨j, hj, eq_true_of_ne_false h⟩
            have hle := le_probe s.allocated i count
            rw [scanOk_next_iff hi ha hin hhit, decide_eq_false hfree]
            exact ih (probe s.allocated i count - count + 1) (by omega)
    · apply iff_of_true
      · exact ⟨none, s, allocFrom_end s count _ (Nat.not_lt.mp hi), fun first h => nomatch h⟩
      · exact .stop (Nat.not_lt.mp hi)

lemma alloc_safe_iff {count : BitVec 8} : s.CallSafe (.alloc count) ↔ s.CallOk (.alloc count) :=
  allocFrom_safe_iff s count.toNat ioVectorCount 0 (Nat.le_refl ioVectorCount)

end Alloc

/-- A call is safe in a state exactly under its condition. -/
lemma callSafe_iff {op : TableOp H} : s.CallSafe op ↔ s.CallOk op := by
  cases op with
  | alloc count => exact alloc_safe_iff
  | reserve v => exact mark_safe_iff (reserve_eq s v)
  | free v => exact mark_safe_iff (free_eq s v)
  | install v h data => exact install_safe_iff
  | remove v => exact remove_safe_iff
  | interrupt vector => exact interrupt_safe_iff

/-- From any state, such as one after `init_apic`, the calls of every run are safe exactly if each meets its
condition in the state that it is made in. -/
theorem tables_safe_iff (s : IoApics H) (ops : List (TableOp H)) :
    (∀ pre op post t, ops = pre ++ op :: post → Run tableStep s pre t → t.CallSafe op) ↔
      Along CallOk tableStep s ops := by
  rw [along_iff]
  constructor
  · intro h pre op post t hops hrun
    exact callSafe_iff.mp (h pre op post t hops hrun)
  · intro h pre op post t hops hrun
    exact callSafe_iff.mpr (h pre op post t hops hrun)

section Pc

/-- The tables after `init_apic` on the PC. -/
@[irreducible] def pcApicState : IoApics Unit :=
  match (blank pcRegs).initApic pcMadt 0#8 () 4 with
  | .ok s => s
  | .error _ => blank pcRegs

lemma pcApicState_eq : (blank pcRegs).initApic pcMadt 0#8 () 4 = .ok pcApicState := by
  have hok : ((blank pcRegs).initApic pcMadt 0#8 () 4).toBool = true := by decide +kernel
  unfold pcApicState
  cases h : (blank pcRegs).initApic pcMadt 0#8 () 4 with
  | ok s => rfl
  | error e =>
    rw [h] at hok
    cases hok

/-- On the PC the first vector that is handed out has no pin, and to install its handler follows a null
pointer. -/
theorem pc_alloc_unbacked : (blank pcRegs).initApic pcMadt 0#8 () 4 = .ok pcApicState ∧
    ∃ t, Run tableStep pcApicState [.alloc 1#8] t ∧ pcApicState.allocIoInterrupts 1#8 = .ok (some 24#8, t) ∧
      t.installIoInterruptHandler 24#8 (some (.driver ())) 0#64 = .error .nullIoApic ∧
      ¬ pcApicState.CallSafe (.alloc 1#8) ∧ ¬ t.CallSafe (.install 24#8 () 0#64) := by
  have hobs : (match pcApicState.allocIoInterrupts 1#8 with
    | .ok (r, t) => decide (r = some 24#8 ∧ t.getIoApic (t.wired 24#8) = none ∧ t.SlotEmpty 24#8)
    | .error _ => false) = true := by decide +kernel
  refine ⟨pcApicState_eq, ?_⟩
  cases h : pcApicState.allocIoInterrupts 1#8 with
  | error e =>
    rw [h] at hobs
    cases hobs
  | ok p =>
    obtain ⟨r, t⟩ := p
    rw [h] at hobs
    obtain ⟨rfl, hio, hempty⟩ := of_decide_eq_true hobs
    refine ⟨t, .cons ⟨_, h⟩ (.nil t), rfl, install_unbacked (by decide) hempty hio, ?_, ?_⟩
    · rintro ⟨r, u, hu, hall⟩
      cases h.symm.trans hu
      obtain ⟨hb, -⟩ := installable_iff.mp (hall 24#8 rfl 0 (by decide))
      exact not_backed hio hb
    · rintro ⟨r, u, hu, -⟩
      rw [install_unbacked (by decide) hempty hio] at hu
      cases hu

end Pc

end IoApics

end HaiirOS
