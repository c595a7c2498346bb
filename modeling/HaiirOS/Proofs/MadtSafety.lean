import HaiirOS.Proofs.IrqRouting
import Mathlib.Data.List.Induction

/-!
# The walk over any MADT

The bytes of a table may be anything. The loop goes where the length bytes lead it: it stays in the
table as long as there is a first entry, comes to an end if it meets no cycle of lengths, and what it
does with an entry may still read beyond the end.
-/

namespace HaiirOS

open Checked

namespace Madt

/-- The byte of the entries area at an index, 0 behind its end. -/
def rawByte (madt : Madt) (i : Nat) : BitVec 8 := madt.entries.getD i 0#8

/-- The loop visits the entries at these indices from index `i` on, and ends. -/
inductive Visits (madt : Madt) : Nat → List Nat → Prop
  | stop {i : Nat} (hi : madt.entries.length ≤ i + 1) : Visits madt i []
  | step {i : Nat} {l : List Nat} (hi : i + 1 < madt.entries.length)
      (hl : Visits madt ((i + (madt.rawByte (i + 1)).toNat) % 2 ^ 32) l) : Visits madt i (i :: l)

variable {madt : Madt} {i : Nat} {l l' : List Nat}

lemma Visits.unique (h : madt.Visits i l) (h' : madt.Visits i l') : l = l' := by
  induction h generalizing l' with
  | stop hi =>
    cases h' with
    | stop _ => rfl
    | step hi' _ => omega
  | step hi _ ih =>
    cases h' with
    | stop hi' => omega
    | step _ hl' => rw [ih hl']

section Fields

lemma byte_ok_iff {b : BitVec 8} : madt.byte i = .ok b ↔ i < madt.entries.length ∧ b = madt.rawByte i := by
  unfold byte Madt.rawByte
  by_cases hi : i < madt.entries.length
  · rw [List.getD_eq_getElem?_getD, List.getElem?_eq_getElem hi]
    simp [hi, eq_comm]
  · rw [List.getElem?_eq_none (Nat.not_lt.mp hi)]
    simp [hi]

lemma word_ok_iff {x : BitVec 16} :
    madt.word i = .ok x ↔ i + 1 < madt.entries.length ∧ x = madt.rawByte (i + 1) ++ madt.rawByte i := by
  unfold word
  rw [bind_eq_ok]
  simp only [bind_eq_ok, byte_ok_iff]
  constructor
  · rintro ⟨low, ⟨-, rfl⟩, high, ⟨hi, rfl⟩, h⟩
    cases h
    exact ⟨hi, rfl⟩
  · rintro ⟨hi, rfl⟩
    exact ⟨_, ⟨by omega, rfl⟩, _, ⟨hi, rfl⟩, rfl⟩

lemma dword_ok_iff {x : BitVec 32} : madt.dword i = .ok x ↔ i + 3 < madt.entries.length ∧
    x = (madt.rawByte (i + 3) ++ madt.rawByte (i + 2)) ++ (madt.rawByte (i + 1) ++ madt.rawByte i) := by
  unfold dword
  rw [bind_eq_ok]
  simp only [bind_eq_ok, word_ok_iff]
  constructor
  · rintro ⟨low, ⟨-, rfl⟩, high, ⟨hi, rfl⟩, h⟩
    cases h
    exact ⟨hi, rfl⟩
  · rintro ⟨hi, rfl⟩
    exact ⟨_, ⟨by omega, rfl⟩, _, ⟨hi, rfl⟩, rfl⟩

/-- The bytes from an index on, taken for an entry. -/
def entryAt (madt : Madt) (i : Nat) : MadtEntry where
  type := madt.rawByte i
  payload := (madt.entries.drop (i + 2)).take 253
  length_le := List.length_take_le ..

lemma entryAt_byte {k : Nat} (h2 : 2 ≤ k) (hk : k < 255) : (madt.entryAt i).byte k = madt.rawByte (i + k) := by
  obtain ⟨j, rfl⟩ : ∃ j, k = j + 2 := ⟨k - 2, by omega⟩
  have hidx : i + 2 + j = i + (j + 2) := by omega
  rw [MadtEntry.byte, MadtEntry.bytes, Madt.rawByte, List.getD_eq_getElem?_getD, List.getD_eq_getElem?_getD,
    List.getElem?_cons_succ, List.getElem?_cons_succ, entryAt, List.getElem?_take, if_pos (by omega), List.getElem?_drop,
    hidx]

lemma localApicAt_ok_iff {a : MadtLocalApic} :
    madt.localApicAt i = .ok a ↔ i + 4 ≤ madt.entries.length ∧ a = ⟨madt.rawByte (i + 2), madt.rawByte (i + 3)⟩ := by
  unfold localApicAt
  rw [bind_eq_ok]
  simp only [bind_eq_ok, byte_ok_iff]
  constructor
  · rintro ⟨apicId, ⟨hi, rfl⟩, processorId, ⟨-, rfl⟩, h⟩
    cases h
    exact ⟨hi, rfl⟩
  · rintro ⟨hi, rfl⟩
    exact ⟨_, ⟨hi, rfl⟩, _, ⟨by omega, rfl⟩, rfl⟩

lemma ioApicAt_ok_iff {a : MadtIoApic} :
    madt.ioApicAt i = .ok a ↔ i + 12 ≤ madt.entries.length ∧ a = (madt.entryAt i).ioApic := by
  have hentry : (madt.entryAt i).ioApic = ⟨madt.rawByte (i + 2),
      (madt.rawByte (i + 7) ++ madt.rawByte (i + 6)) ++ (madt.rawByte (i + 5) ++ madt.rawByte (i + 4)),
      (madt.rawByte (i + 11) ++ madt.rawByte (i + 10)) ++ (madt.rawByte (i + 9) ++ madt.rawByte (i + 8))⟩ := by
    simp only [MadtEntry.ioApic, MadtEntry.dword, MadtEntry.word]
    rw [entryAt_byte (by decide) (by decide), entryAt_byte (by decide) (by decide), entryAt_byte (by decide) (by decide),
      entryAt_byte (by decide) (by decide), entryAt_byte (by decide) (by decide), entryAt_byte (by decide) (by decide),
      entryAt_byte (by decide) (by decide), entryAt_byte (by decide) (by decide), entryAt_byte (by decide) (by decide)]
  rw [hentry]
  unfold ioApicAt
  rw [bind_eq_ok]
  simp only [bind_eq_ok, byte_ok_iff, dword_ok_iff]
  constructor
  · rintro ⟨id, ⟨-, rfl⟩, addr, ⟨-, rfl⟩, gsiBase, ⟨hi, rfl⟩, h⟩
    cases h
    exact ⟨hi, rfl⟩
  · rintro ⟨hi, rfl⟩
    exact ⟨_, ⟨by omega, rfl⟩, _, ⟨by omega, rfl⟩, _, ⟨hi, rfl⟩, rfl⟩

lemma overrideAt_ok_iff {o : MadtOverride} :
    madt.overrideAt i = .ok o ↔ i + 10 ≤ madt.entries.length ∧ o = (madt.entryAt i).override := by
  have hentry : (madt.entryAt i).override = ⟨madt.rawByte (i + 3),
      (madt.rawByte (i + 7) ++ madt.rawByte (i + 6)) ++ (madt.rawByte (i + 5) ++ madt.rawByte (i + 4)),
      madt.rawByte (i + 9) ++ madt.rawByte (i + 8)⟩ := by
    simp only [MadtEntry.override, MadtEntry.dword, MadtEntry.word]
    rw [entryAt_byte (by decide) (by decide), entryAt_byte (by decide) (by decide), entryAt_byte (by decide) (by decide),
      entryAt_byte (by decide) (by decide), entryAt_byte (by decide) (by decide), entryAt_byte (by decide) (by decide),
      entryAt_byte (by decide) (by decide)]
  rw [hentry]
  unfold overrideAt
  rw [bind_eq_ok]
  simp only [bind_eq_ok, byte_ok_iff, word_ok_iff, dword_ok_iff]
  constructor
  · rintro ⟨irqSrc, ⟨-, rfl⟩, gsi, ⟨-, rfl⟩, flags, ⟨hi, rfl⟩, h⟩
    cases h
    exact ⟨hi, rfl⟩
  · rintro ⟨hi, rfl⟩
    exact ⟨_, ⟨by omega, rfl⟩, _, ⟨by omega, rfl⟩, _, ⟨hi, rfl⟩, rfl⟩

end Fields

section Walk

variable {σ : Type} {visit : BitVec 8 → Nat → σ → Except Stop σ} {s s' : σ}

lemma toNat_idx (hi : i < 2 ^ 32) : (BitVec.ofNat 32 i).toNat = i := by
  rw [BitVec.toNat_ofNat]
  exact Nat.mod_eq_of_lt hi

lemma next_idx (i : Nat) (len : BitVec 8) :
    BitVec.ofNat 32 i + len.setWidth 32 = BitVec.ofNat 32 ((i + len.toNat) % 2 ^ 32) := by
  apply BitVec.eq_of_toNat_eq
  simp only [BitVec.toNat_add, BitVec.toNat_setWidth, BitVec.toNat_ofNat]
  omega

/-- With enough fuel the loop visits what the lengths lead to. -/
lemma walk_visits (hne : madt.entries ≠ []) (hi : i < 2 ^ 32) (h : madt.Visits i l) {fuel : Nat} (hfuel : l.length < fuel)
    (s : σ) : madt.walk visit fuel (BitVec.ofNat 32 i) s = l.foldlM (fun s i => visit (madt.rawByte i) i s) s := by
  induction h generalizing fuel s with
  | stop hend =>
    obtain ⟨fuel, rfl⟩ : ∃ k, fuel = k + 1 := ⟨fuel - 1, by omega⟩
    rw [walk, if_neg (mt (idx_lt_iff hi hne).mp (Nat.not_lt.mpr hend))]
    rfl
  | @step i l hlt _ ih =>
    obtain ⟨fuel, rfl⟩ : ∃ k, fuel = k + 1 := ⟨fuel - 1, by omega⟩
    have htype : madt.byte i = .ok (madt.rawByte i) := byte_ok_iff.mpr ⟨by omega, rfl⟩
    have hlen : madt.byte (i + 1) = .ok (madt.rawByte (i + 1)) := byte_ok_iff.mpr ⟨hlt, rfl⟩
    rw [walk, if_pos ((idx_lt_iff hi hne).mpr hlt), toNat_idx hi, htype, hlen, List.foldlM_cons]
    change (visit (madt.rawByte i) i s >>= _) = _
    congr 1
    funext t
    rw [next_idx]
    exact ih (Nat.mod_lt _ (by decide)) (Nat.lt_of_succ_lt_succ hfuel) t

/-- The loop over a table with a first byte visits what the lengths lead to, or does not return. -/
theorem walk_ok_iff (hne : madt.entries ≠ []) (hi : i < 2 ^ 32) :
    (∃ fuel, madt.walk visit fuel (BitVec.ofNat 32 i) s = .ok s') ↔
      ∃ l, madt.Visits i l ∧ l.foldlM (fun s i => visit (madt.rawByte i) i s) s = .ok s' := by
  constructor
  · rintro ⟨fuel, h⟩
    induction fuel generalizing i s with
    | zero => cases h
    | succ fuel ih =>
      rw [walk] at h
      by_cases hlt : i + 1 < madt.entries.length
      · rw [if_pos ((idx_lt_iff hi hne).mpr hlt), toNat_idx hi] at h
        obtain ⟨type, htype, hread⟩ := bind_eq_ok.mp h
        obtain ⟨len, hlen, hvisit⟩ := bind_eq_ok.mp hread
        obtain ⟨t, ht, hrest⟩ := bind_eq_ok.mp hvisit
        rw [(byte_ok_iff.mp htype).2] at ht
        rw [(byte_ok_iff.mp hlen).2, next_idx] at hrest
        obtain ⟨l, hl, hfold⟩ := ih (Nat.mod_lt _ (by decide)) hrest
        exact ⟨i :: l, .step hlt hl, by rw [List.foldlM_cons, bind_eq_ok]; exact ⟨t, ht, hfold⟩⟩
      · rw [if_neg (mt (idx_lt_iff hi hne).mp hlt)] at h
        cases h
        exact ⟨[], .stop (Nat.not_lt.mp hlt), rfl⟩
  · rintro ⟨l, hl, hfold⟩
    exact ⟨l.length + 1, (walk_visits hne hi hl (Nat.lt_succ_self _) s).trans hfold⟩

/-- Without a first byte the size wraps around, and the loop starts behind the table. -/
lemma walk_empty (hnil : madt.entries = []) (fuel : Nat) : madt.walk visit fuel 0#32 s ≠ .ok s' := by
  intro h
  cases fuel with
  | zero => cases h
  | succ fuel =>
    have hlen : madt.length = 44#32 := by rw [length, hnil]; rfl
    rw [walk, hlen, if_pos (by decide)] at h
    obtain ⟨type, htype, -⟩ := bind_eq_ok.mp h
    have hlt := (byte_ok_iff.mp htype).1
    rw [hnil] at hlt
    exact absurd hlt (Nat.not_lt_zero _)

end Walk

section Listed

variable {es pre post : List MadtEntry}

/-- The indices of the entries of a list, the first of which is at an index. -/
def offsets : Nat → List MadtEntry → List Nat
  | _, [] => []
  | i, e :: es => i :: offsets (i + e.bytes.length) es

lemma offsets_length (i : Nat) (es : List MadtEntry) : (offsets i es).length = es.length := by
  induction es generalizing i with
  | nil => rfl
  | cons e es ih => rw [offsets, List.length_cons, List.length_cons, ih]

/-- Where the entries area is a list of entries, the lengths lead to each of them. -/
lemma Lists.visits (h : madt.Lists (pre ++ post)) : madt.Visits (offset pre) (offsets (offset pre) post) := by
  induction post generalizing pre with
  | nil =>
    have hlen := entries_length h
    have hend : offset [] = 0 := rfl
    exact .stop (by omega)
  | cons e post ih =>
    have hlen := entries_length h
    have hlt := madt.length_lt
    have hbytes := e.bytes_length
    have hle := e.length_le
    rw [offset_cons] at hlen
    have hsize := (byte_ok_iff.mp (h.byte (k := 1) (by omega))).2
    have hbyte : e.byte 1 = BitVec.ofNat 8 (e.payload.length + 2) := rfl
    have hnext : (offset pre + (madt.rawByte (offset pre + 1)).toNat) % 2 ^ 32 = offset (pre ++ [e]) := by
      rw [← hsize, hbyte, offset_append_singleton, hbytes, BitVec.toNat_ofNat]
      omega
    apply Visits.step (by omega)
    rw [hnext, ← offset_append_singleton]
    apply ih
    rwa [List.append_assoc, List.singleton_append]

end Listed

end Madt

namespace IoApics

variable {H : Type}

section Enter

/-- The overrides of a list of entries that `init_overrides` enters: those to the GSI of an ISA interrupt. -/
def isaOverrides (es : List MadtEntry) : List MadtOverride :=
  (overridesOf es).filter fun o => decide (o.globalSystemInt.toNat < isaInterruptCount)

/-- The line of an override, as `init_overrides` passes it on. -/
def line (o : MadtOverride) : BitVec 8 := o.globalSystemInt.setWidth 8

/-- The line that the last of the overrides from `v` wires it to. -/
def wiredBy (os : List MadtOverride) (v : BitVec 8) : BitVec 8 :=
  match os.reverse.find? fun o => decide (o.irqSrc = v) with
  | some o => line o
  | none => v

/-- One of the IOAPICs has a pin for the GSI. -/
def HasPin (ioapics : List IoApic) (g : BitVec 8) : Prop :=
  ∃ ioapic ∈ ioapics, ioapic.gsiBase ≤ g.setWidth 32 ∧ g.setWidth 32 < ioapic.maxEntries.setWidth 32 + ioapic.gsiBase

/-- The overrides can be entered: their sources are ISA interrupts, and where one is the first for its line, the
line that is then enabled has a pin. -/
structure CanEnter (ioapics : List IoApic) (os : List MadtOverride) : Prop where
  sources : ∀ o ∈ os, o.irqSrc.toNat < isaInterruptCount
  backed : ∀ pre o post, os = pre ++ o :: post → (∀ p ∈ pre, line p ≠ line o) → HasPin ioapics (wiredBy (pre ++ [o]) (line o))

/-- The tables with these overrides entered. -/
structure Entered (ioapics : List IoApic) (s : IoApics H) (os : List MadtOverride) : Prop where
  ioapics : s.ioapics = ioapics
  overrides : ∀ r, s.overrides r = os.reverse.find? fun o => decide (o.irqSrc = r)
  slots : ∀ v, s.SlotEmpty v ↔ ∀ o ∈ os, line o ≠ v

variable {ioapics : List IoApic} {s : IoApics H} {os : List MadtOverride} {o : MadtOverride}

lemma canEnter_concat : CanEnter ioapics (os ++ [o]) ↔ CanEnter ioapics os ∧ o.irqSrc.toNat < isaInterruptCount ∧
    ((∀ p ∈ os, line p ≠ line o) → HasPin ioapics (wiredBy (os ++ [o]) (line o))) := by
  constructor
  · intro h
    refine ⟨⟨fun p hp => h.sources p (List.mem_append_left _ hp), fun pre p post hos hnew => ?_⟩,
      h.sources o (List.mem_append_right _ (List.mem_singleton_self o)), h.backed os o [] rfl⟩
    refine h.backed pre p (post ++ [o]) ?_ hnew
    rw [hos, List.append_assoc, List.cons_append]
  · rintro ⟨h, hsrc, hback⟩
    constructor
    · intro p hp
      rcases List.mem_append.mp hp with hp | hp
      · exact h.sources p hp
      · rw [List.mem_singleton.mp hp]
        exact hsrc
    · intro pre p post hos hnew
      rcases List.eq_nil_or_concat post with rfl | ⟨post, q, rfl⟩
      · obtain ⟨rfl, hlast⟩ := List.append_inj' hos rfl
        obtain rfl : o = p := List.head_eq_of_cons_eq hlast
        exact hback hnew
      · rw [List.concat_eq_append, ← List.cons_append, ← List.append_assoc] at hos
        exact h.backed pre p post (List.append_inj' hos rfl).1 hnew

lemma getIoApic_isSome (g : BitVec 8) : (s.getIoApic g).isSome ↔ HasPin s.ioapics g := by
  rw [getIoApic, List.find?_isSome]
  simp only [decide_eq_true_eq]
  rfl

lemma line_lt (hisa : o.globalSystemInt.toNat < isaInterruptCount) : (line o).toNat < isaInterruptCount := by
  have hcount : isaInterruptCount = 16 := rfl
  rw [line, BitVec.toNat_setWidth]
  omega

lemma line_ne_concat (v : BitVec 8) : (∀ p ∈ os ++ [o], line p ≠ v) ↔ (∀ p ∈ os, line p ≠ v) ∧ line o ≠ v := by
  rw [List.forall_mem_append, List.forall_mem_singleton]

namespace Entered

lemma setOverride_overrides (hs : Entered ioapics s os) (r : BitVec 8) :
    (setOverride s o).overrides r = (os ++ [o]).reverse.find? fun o => decide (o.irqSrc = r) := by
  rw [List.reverse_append, List.reverse_singleton, List.singleton_append, List.find?_cons]
  by_cases hr : o.irqSrc = r
  · rw [decide_eq_true hr, ← hr]
    exact Function.update_self ..
  · rw [decide_eq_false hr]
    exact (Function.update_of_ne (Ne.symm hr) ..).trans (hs.overrides r)

lemma wired_line (hs : Entered ioapics s os) (hisa : o.globalSystemInt.toNat < isaInterruptCount) :
    (setOverride s o).wired (line o) = wiredBy (os ++ [o]) (line o) := by
  rw [wired, if_pos (line_lt hisa), hs.setOverride_overrides]
  rfl

lemma hasPin_iff (hs : Entered ioapics s os) (hisa : o.globalSystemInt.toNat < isaInterruptCount) :
    ((setOverride s o).getIoApic ((setOverride s o).wired (line o))).isSome ↔
      HasPin ioapics (wiredBy (os ++ [o]) (line o)) := by
  rw [getIoApic_isSome, hs.wired_line hisa, ← hs.ioapics]
  rfl

/-- An override for a line that has its handler from an override before it. -/
lemma occupied (hs : Entered ioapics s os) (hold : ¬ ∀ p ∈ os, line p ≠ line o) :
    Entered ioapics (setOverride s o) (os ++ [o]) := by
  refine ⟨hs.ioapics, hs.setOverride_overrides, fun v => ?_⟩
  rw [line_ne_concat]
  refine (hs.slots v).trans (iff_self_and.mpr ?_)
  rintro h rfl
  exact hold h

/-- The first override for its line. -/
lemma installed (hs : Entered ioapics s os) (ioapic : IoApic) (g : BitVec 8) :
    Entered ioapics (((setOverride s o).setHandler (line o) (forwarder o)).unmask ioapic g) (os ++ [o]) := by
  have hhandlers : (((setOverride s o).setHandler (line o) (forwarder o)).unmask ioapic g).handlers =
      Function.update s.handlers (line o) (forwarder o) := rfl
  refine ⟨hs.ioapics, hs.setOverride_overrides, fun v => ?_⟩
  rw [line_ne_concat, SlotEmpty, hhandlers]
  by_cases hv : v = line o
  · subst hv
    refine iff_of_false (fun h => ?_) fun h => h.2 rfl
    have hnone := h.1
    rw [Function.update_self] at hnone
    cases hnone
  · rw [Function.update_of_ne hv]
    exact (hs.slots v).trans (iff_self_and.mpr fun _ => Ne.symm hv)

end Entered

lemma addOverride_step (hs : Entered ioapics s os) (hisa : o.globalSystemInt.toNat < isaInterruptCount) :
    ((∃ t, addOverride s o = .ok t) ↔ o.irqSrc.toNat < isaInterruptCount ∧
      ((∀ p ∈ os, line p ≠ line o) → HasPin ioapics (wiredBy (os ++ [o]) (line o)))) ∧
    ∀ t, addOverride s o = .ok t → Entered ioapics t (os ++ [o]) := by
  by_cases hsrc : o.irqSrc.toNat < isaInterruptCount
  · have hadd : addOverride s o = ((setOverride s o).installIoInterruptHandler (line o) (some .ioHandlerSourceOverride)
        (o.irqSrc.setWidth 64)).map Prod.snd := addOverride_eq s ⟨hsrc, hisa⟩
    rw [hadd]
    by_cases hnew : ∀ p ∈ os, line p ≠ line o
    · have hvec : (line o).toNat < ioVectorCount := Nat.lt_trans (line_lt hisa) (by decide)
      have hempty : (setOverride s o).SlotEmpty (line o) := (hs.slots _).mpr hnew
      have hget := hs.hasPin_iff hisa
      cases hio : (setOverride s o).getIoApic ((setOverride s o).wired (line o)) with
      | none =>
        rw [hio] at hget
        rw [install_unbacked hvec hempty hio]
        refine ⟨iff_of_false ?_ fun h => ?_, fun u hu => by cases hu⟩
        · rintro ⟨u, hu⟩
          cases hu
        · exact Bool.false_ne_true (hget.mpr (h.2 hnew))
      | some ioapic =>
        rw [hio] at hget
        rw [install_empty _ _ hvec hempty hio]
        refine ⟨iff_of_true ⟨_, rfl⟩ ⟨hsrc, fun _ => hget.mp rfl⟩, fun u hu => ?_⟩
        cases hu
        exact hs.installed ioapic _
    · have hfull : ¬ (setOverride s o).SlotEmpty (line o) := mt (hs.slots _).mp hnew
      rw [install_occupied hfull]
      refine ⟨iff_of_true ⟨_, rfl⟩ ⟨hsrc, fun h => absurd h hnew⟩, fun u hu => ?_⟩
      cases hu
      exact hs.occupied hnew
  · rw [addOverride, if_neg (Nat.not_le.mpr hisa), if_pos (Nat.not_lt.mp hsrc)]
    refine ⟨iff_of_false ?_ fun h => hsrc h.1, fun u hu => by cases hu⟩
    rintro ⟨u, hu⟩
    cases hu

lemma foldlM_enter (hs : Entered ioapics s []) (hisa : ∀ o ∈ os, o.globalSystemInt.toNat < isaInterruptCount) :
    ((∃ t, os.foldlM addOverride s = .ok t) ↔ CanEnter ioapics os) ∧
      ∀ t, os.foldlM addOverride s = .ok t → Entered ioapics t os := by
  induction os using List.reverseRecOn with
  | nil =>
    have hnone : CanEnter ioapics [] := by
      constructor
      · intro o ho
        cases ho
      · intro pre o post h
        exact absurd h.symm (by simp)
    refine ⟨iff_of_true ⟨s, rfl⟩ hnone, fun t ht => ?_⟩
    · cases ht
      exact hs
  | append_singleton os o ih =>
    obtain ⟨hiff, hentered⟩ := ih fun p hp => hisa p (List.mem_append_left _ hp)
    have ho := hisa o (List.mem_append_right _ (List.mem_singleton_self o))
    rw [canEnter_concat, ← hiff]
    have hfold (t : IoApics H) : (os ++ [o]).foldlM addOverride s = .ok t ↔
        ∃ u, os.foldlM addOverride s = .ok u ∧ addOverride u o = .ok t := by
      rw [List.foldlM_append, bind_eq_ok]
      simp only [List.foldlM_cons, List.foldlM_nil, bind_pure]
    simp only [hfold]
    constructor
    · constructor
      · rintro ⟨t, u, hu, ht⟩
        exact ⟨⟨u, hu⟩, (addOverride_step (hentered u hu) ho).1.mp ⟨t, ht⟩⟩
      · rintro ⟨⟨u, hu⟩, hcan⟩
        obtain ⟨t, ht⟩ := (addOverride_step (hentered u hu) ho).1.mpr hcan
        exact ⟨t, u, hu, ht⟩
    · rintro t ⟨u, hu, ht⟩
      exact (addOverride_step (hentered u hu) ho).2 t ht

/-- Overrides to other GSIs are passed over. -/
lemma foldlM_isaOverrides (es : List MadtEntry) (s : IoApics H) :
    (overridesOf es).foldlM addOverride s = (isaOverrides es).foldlM addOverride s := by
  rw [isaOverrides, List.foldlM_filter]
  congr 1
  funext s o
  by_cases hisa : o.globalSystemInt.toNat < isaInterruptCount
  · rw [if_pos (decide_eq_true hisa)]
  · rw [if_neg (by simpa using hisa), addOverride, if_pos (Nat.not_lt.mp hisa)]
    rfl

end Enter

section Walks

variable {regs : BitVec 32 → BitVec 8 → BitVec 32} {madt : Madt} {l : List Nat}

/-- What the walks take for entries at these indices does not reach beyond the end of the table. -/
structure InTable (madt : Madt) (l : List Nat) : Prop where
  localApics : ∀ i ∈ l, madt.rawByte i = madtEntryApic → i + 4 ≤ madt.entries.length
  ioApics : ∀ i ∈ l, madt.rawByte i = madtEntryIoApic → i + 12 ≤ madt.entries.length
  overrides : ∀ i ∈ l, madt.rawByte i = madtEntryIntSrcOverride → i + 10 ≤ madt.entries.length

lemma entryAt_type (madt : Madt) (i : Nat) : (madt.entryAt i).type = madt.rawByte i := rfl

lemma foldlM_addIoApic_ok_iff {es : List MadtEntry} :
    (∃ s, es.foldlM addIoApic (blank regs : IoApics H) = .ok s) ↔ (ioApicsOf regs es).length ≤ maxIoApics := by
  constructor
  · rintro ⟨s, hs⟩
    obtain ⟨hio, -, -, -, hlen⟩ := foldlM_addIoApic hs
    have hle := hlen (Nat.zero_le _)
    rw [hio] at hle
    exact hle
  · intro hle
    apply foldlM_addIoApic_ok
    exact Nat.le_trans (Nat.le_of_eq (Nat.zero_add _)) hle

lemma getIoApics_ok_iff (hne : madt.entries ≠ []) {s s' : IoApics H} :
    (∃ fuel, s.getIoApics madt fuel = .ok s') ↔ ∃ l, madt.Visits 0 l ∧
      (∀ i ∈ l, madt.rawByte i = madtEntryIoApic → i + 12 ≤ madt.entries.length) ∧
      (l.map madt.entryAt).foldlM addIoApic s = .ok s' := by
  refine (Madt.walk_ok_iff hne (by decide)).trans ?_
  apply exists_congr
  intro l
  apply and_congr_right'
  rw [List.foldlM_map]
  apply foldlM_guarded
  intro t i t'
  have hver (a v : BitVec 32) :
      (t.writeReg a ioApicIdOffset v).regs a ioApicVerOffset = t.regs a ioApicVerOffset := by
    have hoff : ioApicVerOffset ≠ ioApicIdOffset := by decide
    rw [writeReg_regs, if_neg fun h => hoff h.2]
  unfold addIoApic
  rw [entryAt_type]
  by_cases ht : madt.rawByte i = madtEntryIoApic
  · rw [if_pos ht, if_pos ht, bind_eq_ok]
    simp only [Madt.ioApicAt_ok_iff, hver]
    constructor
    · rintro ⟨a, ⟨hi, rfl⟩, h⟩
      exact ⟨fun _ => hi, h⟩
    · rintro ⟨hi, h⟩
      exact ⟨_, ⟨hi ht, rfl⟩, h⟩
  · rw [if_neg ht, if_neg ht]
    exact ⟨fun h => ⟨fun h' => absurd h' ht, h⟩, fun h => h.2⟩

lemma initOverrides_ok_iff (hne : madt.entries ≠ []) {s s' : IoApics H} :
    (∃ fuel, s.initOverrides madt fuel = .ok s') ↔ ∃ l, madt.Visits 0 l ∧
      (∀ i ∈ l, madt.rawByte i = madtEntryIntSrcOverride → i + 10 ≤ madt.entries.length) ∧
      (isaOverrides (l.map madt.entryAt)).foldlM addOverride s = .ok s' := by
  refine (Madt.walk_ok_iff hne (by decide)).trans ?_
  apply exists_congr
  intro l
  apply and_congr_right'
  rw [← foldlM_isaOverrides, overridesOf, List.foldlM_map, List.foldlM_filter, List.foldlM_map]
  apply foldlM_guarded
  intro t i t'
  have htype : (madt.entryAt i).type = madt.rawByte i := rfl
  by_cases ht : madt.rawByte i = madtEntryIntSrcOverride
  · rw [if_pos ht, if_pos (decide_eq_true (htype.trans ht)), bind_eq_ok]
    simp only [Madt.overrideAt_ok_iff]
    constructor
    · rintro ⟨o, ⟨hi, rfl⟩, h⟩
      exact ⟨fun _ => hi, h⟩
    · rintro ⟨hi, h⟩
      exact ⟨_, ⟨hi ht, rfl⟩, h⟩
  · rw [if_neg ht, if_neg (by simpa [htype] using ht)]
    exact ⟨fun h => ⟨fun h' => absurd h' ht, h⟩, fun h => h.2⟩

lemma showLocalApics_ok_iff (hne : madt.entries ≠ []) : (∃ fuel out, madt.showLocalApics fuel = .ok out) ↔
    ∃ l, madt.Visits 0 l ∧ ∀ i ∈ l, madt.rawByte i = madtEntryApic → i + 4 ≤ madt.entries.length := by
  let show' (shown : List MadtLocalApic) (i : Nat) : Except Stop (List MadtLocalApic) :=
    .ok (if madt.rawByte i = madtEntryApic then shown ++ [⟨madt.rawByte (i + 2), madt.rawByte (i + 3)⟩] else shown)
  have hshow (l : List Nat) (shown : List MadtLocalApic) : ∃ out, l.foldlM show' shown = .ok out := by
    induction l generalizing shown with
    | nil => exact ⟨shown, rfl⟩
    | cons i l ih => exact ih _
  have hfold (l : List Nat) (out : List MadtLocalApic) := foldlM_guarded (ε := Stop) (g := show')
    (p := fun i => madt.rawByte i = madtEntryApic → i + 4 ≤ madt.entries.length) (l := l) (s := []) (t := out)
    (f := fun shown i => if madt.rawByte i = madtEntryApic then do
      let lapic ← madt.localApicAt i
      return shown ++ [lapic]
    else .ok shown) (fun shown i out => by
      by_cases ht : madt.rawByte i = madtEntryApic
      · rw [if_pos ht, bind_eq_ok]
        simp only [Madt.localApicAt_ok_iff, show', if_pos ht]
        constructor
        · rintro ⟨a, ⟨hi, rfl⟩, h⟩
          exact ⟨fun _ => hi, h⟩
        · rintro ⟨hi, h⟩
          exact ⟨_, ⟨hi ht, rfl⟩, h⟩
      · simp only [show', if_neg ht]
        exact ⟨fun h => ⟨fun h' => absurd h' ht, h⟩, fun h => h.2⟩)
  have hwalk (out : List MadtLocalApic) : (∃ fuel, madt.showLocalApics fuel = .ok out) ↔ _ :=
    Madt.walk_ok_iff hne (i := 0) (by decide)
  rw [exists_comm]
  simp only [hwalk, hfold]
  constructor
  · rintro ⟨out, l, hl, hin, -⟩
    exact ⟨l, hl, hin⟩
  · rintro ⟨l, hl, hin⟩
    obtain ⟨out, hout⟩ := hshow l []
    exact ⟨out, l, hl, hin, hout⟩

/-- The walks of `get_io_apics`, `init_overrides` and `show_local_apics` end and stay in the table, in `ioapics` and in
`overrides`, and where the entries area is a list of entries, a walk visits each of them once, in order. -/
structure WalksSafe (H : Type) (madt : Madt) (regs : BitVec 32 → BitVec 8 → BitVec 32) : Prop where
  safe : ∃ fuel s t shown, (blank regs : IoApics H).getIoApics madt fuel = .ok s ∧ s.initOverrides madt fuel = .ok t ∧
    madt.showLocalApics fuel = .ok shown
  ordered : ∀ es, madt.Lists es → ∀ (σ : Type) (visit : BitVec 8 → Nat → σ → Except Stop σ) (s : σ) (fuel : Nat),
    es.length < fuel →
      madt.walk visit fuel 0#32 s = (Madt.offsets 0 es).foldlM (fun s i => visit (madt.rawByte i) i s) s

lemma WalksSafe.ne_nil (h : WalksSafe H madt regs) : madt.entries ≠ [] := by
  intro hnil
  obtain ⟨fuel, s, -, -, hs, -⟩ := h.safe
  exact Madt.walk_empty hnil fuel hs

lemma blank_entered {s : IoApics H} {es : List MadtEntry} (hs : es.foldlM addIoApic (blank regs) = .ok s) :
    Entered (ioApicsOf regs es) s [] := by
  obtain ⟨hio, hov, hha, -⟩ := foldlM_addIoApic hs
  refine ⟨hio, fun r => ?_, fun v => ?_⟩
  · rw [hov]
    rfl
  · rw [SlotEmpty, hha]
    exact iff_of_true ⟨rfl, rfl, rfl⟩ fun o ho => absurd ho List.not_mem_nil

lemma isaOverrides_isa {es : List MadtEntry} {o : MadtOverride} (ho : o ∈ isaOverrides es) :
    o.globalSystemInt.toNat < isaInterruptCount :=
  of_decide_eq_true (List.mem_filter.mp ho).2

/-- The walks are safe exactly if there is a first entry, the lengths lead out of the table, what is read of the entries
is in it, and the IOAPICs and overrides found have a place in the tables and overridden lines have an IOAPIC. -/
theorem walksSafe_iff (madt : Madt) (regs : BitVec 32 → BitVec 8 → BitVec 32) : WalksSafe H madt regs ↔
    madt.entries ≠ [] ∧ ∃ l, madt.Visits 0 l ∧ InTable madt l ∧
      (ioApicsOf regs (l.map madt.entryAt)).length ≤ maxIoApics ∧
      CanEnter (ioApicsOf regs (l.map madt.entryAt)) (isaOverrides (l.map madt.entryAt)) := by
  constructor
  · intro h
    have hne := h.ne_nil
    obtain ⟨fuel, s, t, shown, hs, ht, hshown⟩ := h.safe
    obtain ⟨l, hl, hio, hadd⟩ := (getIoApics_ok_iff hne).mp ⟨fuel, hs⟩
    obtain ⟨l', hl', hov, henter⟩ := (initOverrides_ok_iff hne).mp ⟨fuel, ht⟩
    obtain ⟨l'', hl'', hlocal⟩ := (showLocalApics_ok_iff hne).mp ⟨fuel, shown, hshown⟩
    obtain rfl := hl.unique hl'
    obtain rfl := hl.unique hl''
    have hcan := (foldlM_enter (blank_entered hadd) fun o => isaOverrides_isa).1.mp ⟨t, henter⟩
    exact ⟨hne, l, hl, ⟨hlocal, hio, hov⟩, foldlM_addIoApic_ok_iff.mp ⟨s, hadd⟩, hcan⟩
  · rintro ⟨hne, l, hl, hin, hlen, hcan⟩
    obtain ⟨s, hadd⟩ := foldlM_addIoApic_ok_iff.mpr hlen
    obtain ⟨t, henter⟩ := (foldlM_enter (blank_entered hadd) fun o => isaOverrides_isa).1.mpr hcan
    obtain ⟨fuel, hs⟩ := (getIoApics_ok_iff hne).mpr ⟨l, hl, hin.ioApics, hadd⟩
    obtain ⟨fuel', ht⟩ := (initOverrides_ok_iff hne).mpr ⟨l, hl, hin.overrides, henter⟩
    obtain ⟨fuel'', shown, hshown⟩ := (showLocalApics_ok_iff hne).mpr ⟨l, hl, hin.localApics⟩
    constructor
    · refine ⟨fuel + fuel' + fuel'', s, t, shown, Madt.walk_mono hs ?_, Madt.walk_mono ht ?_, Madt.walk_mono hshown ?_⟩
      · omega
      · omega
      · omega
    · intro es hes σ visit σ₀ fuel hfuel
      apply Madt.walk_visits hne (by decide)
      · exact @Madt.Lists.visits _ [] es hes
      · rwa [Madt.offsets_length]

/-- A table without entries, one whose entry has the length zero, and one whose entry is cut short. -/
def emptyMadt : Madt := ⟨[], by decide⟩

def zeroLengthMadt : Madt := ⟨[0#8, 0#8], by decide⟩

def cutShortMadt : Madt := ⟨[madtEntryIoApic, 12#8], by decide⟩

lemma zeroLength_endless (l : List Nat) : ¬ zeroLengthMadt.Visits 0 l := by
  intro h
  induction l with
  | nil =>
    cases h with
    | stop hi => exact absurd hi (by decide)
  | cons i l ih =>
    cases h with
    | step _ hl => exact ih hl

/-- Without entries the walks start behind the table, an entry of length zero is visited again and again, and of an
entry cut short they read what is behind it. -/
theorem walks_unsafe : ¬ WalksSafe Unit emptyMadt pcRegs ∧ ¬ WalksSafe Unit zeroLengthMadt pcRegs ∧
    ¬ WalksSafe Unit cutShortMadt pcRegs := by
  refine ⟨fun h => h.ne_nil rfl, fun h => ?_, fun h => ?_⟩
  · obtain ⟨fuel, s, -, -, hs, -⟩ := h.safe
    obtain ⟨l, hl, -⟩ := (getIoApics_ok_iff h.ne_nil).mp ⟨fuel, hs⟩
    exact zeroLength_endless l hl
  · obtain ⟨fuel, s, -, -, hs, -⟩ := h.safe
    obtain ⟨l, hl, hin, -⟩ := (getIoApics_ok_iff h.ne_nil).mp ⟨fuel, hs⟩
    cases hl with
    | stop hi => exact absurd hi (by decide)
    | step _ _ => exact absurd (hin 0 List.mem_cons_self rfl) (by decide)

end Walks

end IoApics

end HaiirOS
