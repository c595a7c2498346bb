import HaiirOS.Proofs.MadtSafety
import Mathlib.Data.List.Nodup
import Mathlib.Data.List.Pairwise

/-!
# The redirection entries

What `init_io_apics` leaves in the entries. It programs a pin by its GSI, but looks up the flags of its
override by the interrupt that is overridden; these are the same for interrupts overridden to themselves only.
-/

namespace HaiirOS

namespace IoApics

open Checked

variable {H : Type}

section Entry

variable (s : IoApics H) (ioapic other : IoApic) (idx idx' : BitVec 8) (entry : BitVec 64)

lemma entry_of_halves (entry : BitVec 64) :
    (((entry >>> 32).setWidth 32).setWidth 64 <<< 32) ||| (entry.setWidth 32).setWidth 64 = entry := by
  apply BitVec.eq_of_getLsbD_eq
  intro i hi
  by_cases hlow : i < 32
  · simp [hlow, hi]
  · have hhigh : i - 32 < 32 := by omega
    have hadd : 32 + (i - 32) = i := by omega
    simp [hlow, hi, hhigh, hadd]

lemma readEntry_writeEntry : (s.writeEntry ioapic idx entry).readEntry ioapic idx = entry := by
  have hhigh : (s.writeEntry ioapic idx entry).regs ioapic.addr (ioApicRedtblOffset idx + 1#8) =
      (entry >>> 32).setWidth 32 := by
    rw [writeEntry, writeReg_regs, if_pos ⟨rfl, rfl⟩]
  have hlow : (s.writeEntry ioapic idx entry).regs ioapic.addr (ioApicRedtblOffset idx) = entry.setWidth 32 := by
    rw [writeEntry, writeReg_regs, if_neg fun h => redtbl_ne_high idx idx h.2.symm, writeReg_regs, if_pos ⟨rfl, rfl⟩]
  rw [readEntry, hhigh, hlow]
  exact entry_of_halves entry

lemma readEntry_writeEntry_ne {s : IoApics H} {ioapic other : IoApic} {idx idx' : BitVec 8}
    (h : other.addr = ioapic.addr → ioApicRedtblOffset idx' ≠ ioApicRedtblOffset idx) (entry : BitVec 64) :
    (s.writeEntry ioapic idx entry).readEntry other idx' = s.readEntry other idx' := by
  have hlow : (s.writeEntry ioapic idx entry).regs other.addr (ioApicRedtblOffset idx') =
      s.regs other.addr (ioApicRedtblOffset idx') := by
    rw [writeEntry, writeReg_regs, if_neg fun hr => redtbl_ne_high idx idx' hr.2.symm, writeReg_regs,
      if_neg fun hr => h hr.1 hr.2]
  have hhigh : (s.writeEntry ioapic idx entry).regs other.addr (ioApicRedtblOffset idx' + 1#8) =
      s.regs other.addr (ioApicRedtblOffset idx' + 1#8) := by
    rw [writeEntry, writeReg_regs, if_neg fun hr => h hr.1 ((BitVec.add_left_inj _).mp hr.2), writeReg_regs,
      if_neg fun hr => redtbl_ne_high idx' idx hr.2]
  rw [readEntry, readEntry, hlow, hhigh]

end Entry

section Flags

/-- The bit of a redirection entry that a field of an override's flags gives: set for 3, clear for 1. For 0 the
override conforms to its bus, and 2 is reserved. -/
def explicit (field : BitVec 16) : Option Bool :=
  if field = 3#16 then some true else if field = 1#16 then some false else none

/-- The polarity of an override, true for active low. -/
def lowActive (o : MadtOverride) : Option Bool := explicit (o.flags &&& 3#16)

/-- The trigger mode of an override, true for level. -/
def levelTriggered (o : MadtOverride) : Option Bool := explicit ((o.flags >>> 2) &&& 3#16)

lemma explicit_eq_true {field : BitVec 16} : explicit field = some true ↔ field = 3#16 := by
  unfold explicit
  by_cases h : field = 3#16
  · rw [if_pos h]
    exact iff_of_true rfl h
  · rw [if_neg h]
    refine iff_of_false (fun h' => ?_) h
    by_cases h1 : field = 1#16
    · rw [if_pos h1] at h'
      cases h'
    · rw [if_neg h1] at h'
      cases h'

/-- What a bit of the entry is in the source's flags: the field of the override that is looked up. -/
lemma overrideEntry_bit (s : IoApics H) (entry : BitVec 64) (src : BitVec 8) {i : Nat} (h13 : i ≠ 13) (h15 : i ≠ 15) :
    (s.overrideEntry entry src).getLsbD i = entry.getLsbD i := by
  have hone (k : Nat) (hk : i ≠ k) : (1#64 <<< k).getLsbD i = false := by
    rw [BitVec.getLsbD_shiftLeft]
    by_cases hlt : i < k
    · simp [hlt]
    · have hpos : i - k ≠ 0 := by omega
      simp [hpos]
  have hset (e : BitVec 64) (k : Nat) (hk : i ≠ k) (hi : i < 64) :
      ((e &&& ~~~(1#64 <<< k)) ||| (1#64 <<< k)).getLsbD i = e.getLsbD i := by
    rw [BitVec.getLsbD_or, BitVec.getLsbD_and, BitVec.getLsbD_not, hone k hk]
    simp [hi]
  have hclear (e : BitVec 64) (k : Nat) (hk : i ≠ k) (hi : i < 64) :
      ((e &&& ~~~(1#64 <<< k)) ||| 0#64).getLsbD i = e.getLsbD i := by
    rw [BitVec.getLsbD_or, BitVec.getLsbD_and, BitVec.getLsbD_not, hone k hk]
    simp [hi]
  by_cases hi : i < 64
  · unfold overrideEntry
    cases s.overrides src with
    | none => rfl
    | some o =>
      simp only
      split_ifs <;> simp only [hset _ _ h13 hi, hset _ _ h15 hi, hclear _ _ h13 hi, hclear _ _ h15 hi]
  · rw [BitVec.getLsbD_of_ge _ _ (Nat.not_lt.mp hi), BitVec.getLsbD_of_ge _ _ (Nat.not_lt.mp hi)]

lemma overrideEntry_polarity (s : IoApics H) {entry : BitVec 64} (h : entry.getLsbD 13 = false) (src : BitVec 8) :
    (s.overrideEntry entry src).getLsbD 13 = true ↔ ∃ o ∈ s.overrides src, lowActive o = some true := by
  unfold overrideEntry lowActive
  cases s.overrides src with
  | none =>
    change entry.getLsbD 13 = true ↔ _
    rw [h]
    refine iff_of_false Bool.false_ne_true ?_
    rintro ⟨o, ho, -⟩
    cases ho
  | some o =>
    simp only [explicit_eq_true]
    split_ifs <;> simp_all

lemma overrideEntry_trigger (s : IoApics H) {entry : BitVec 64} (h : entry.getLsbD 15 = false) (src : BitVec 8) :
    (s.overrideEntry entry src).getLsbD 15 = true ↔ ∃ o ∈ s.overrides src, levelTriggered o = some true := by
  unfold overrideEntry levelTriggered
  cases s.overrides src with
  | none =>
    change entry.getLsbD 15 = true ↔ _
    rw [h]
    refine iff_of_false Bool.false_ne_true ?_
    rintro ⟨o, ho, -⟩
    cases ho
  | some o =>
    simp only [explicit_eq_true]
    split_ifs <;> simp_all

end Flags

section Initial

variable {s : IoApics H} {localApicId gsi : BitVec 8} {i : Nat}

/-- The entry without its flags. -/
def plainEntry (localApicId gsi : BitVec 8) : BitVec 64 :=
  (localApicId.setWidth 64 <<< 56) ||| ioApicMasked ||| 0#64 ||| (gsi.setWidth 64 + interruptBase.setWidth 64)

lemma initialEntry_eq (s : IoApics H) (localApicId gsi : BitVec 8) : s.initialEntry localApicId gsi =
    if gsi = 0#8 then plainEntry localApicId gsi ||| (7#64 <<< 8)
    else if gsi.toNat < isaInterruptCount then s.overrideEntry (plainEntry localApicId gsi ||| 0#64) gsi
    else plainEntry localApicId gsi ||| ((1#64 <<< 15) ||| (1#64 <<< 13)) := rfl

lemma initialEntry_zero (s : IoApics H) (localApicId : BitVec 8) :
    s.initialEntry localApicId 0#8 = plainEntry localApicId 0#8 ||| (7#64 <<< 8) := rfl

lemma initialEntry_isa (hpos : gsi ≠ 0#8) (hlt : gsi.toNat < isaInterruptCount) :
    s.initialEntry localApicId gsi = s.overrideEntry (plainEntry localApicId gsi) gsi := by
  rw [initialEntry_eq, if_neg hpos, if_pos hlt, BitVec.or_zero]

lemma initialEntry_pci (hle : isaInterruptCount ≤ gsi.toNat) :
    s.initialEntry localApicId gsi = plainEntry localApicId gsi ||| ((1#64 <<< 15) ||| (1#64 <<< 13)) := by
  have hpos : gsi ≠ 0#8 := by
    rintro rfl
    exact absurd hle (by decide)
  rw [initialEntry_eq, if_neg hpos, if_neg (Nat.not_lt.mpr hle)]

/-- Without a carry nothing is in the bits between the vector and the mask. -/
lemma plainEntry_bit (h8 : 8 ≤ i) (h16 : i < 16) (hg : gsi.toNat < ioVectorCount) :
    (plainEntry localApicId gsi).getLsbD i = false := by
  have hcount : ioVectorCount = 224 := rfl
  have hdest : (localApicId.setWidth 64 <<< 56).getLsbD i = false := by
    rw [BitVec.getLsbD_shiftLeft]
    have hlt : i < 56 := by omega
    simp [hlt]
  have hmask : ioApicMasked.getLsbD i = false := by
    rw [ioApicMasked, BitVec.getLsbD_shiftLeft]
    simp [h16]
  have hvector : (gsi.setWidth 64 + interruptBase.setWidth 64).getLsbD i = false := by
    have hpow : 2 ^ 8 ≤ 2 ^ i := Nat.pow_le_pow_right (by decide) h8
    have hnat : (gsi.setWidth 64 + interruptBase.setWidth 64).toNat < 2 ^ i := by
      simp only [BitVec.toNat_add, BitVec.toNat_setWidth, interruptBase, BitVec.toNat_ofNat]
      omega
    exact Nat.testBit_lt_two_pow hnat
  rw [plainEntry, BitVec.getLsbD_or, BitVec.getLsbD_or, BitVec.getLsbD_or, hdest, hmask, hvector]
  simp

lemma plainEntry_vector : (plainEntry localApicId gsi).setWidth 8 = gsi + interruptBase := by
  have hdest : (localApicId.setWidth 64 <<< 56).setWidth 8 = 0#8 := by
    apply BitVec.eq_of_getLsbD_eq
    intro i hi
    simp [hi]
  have hmask : ioApicMasked.setWidth 8 = 0#8 := by decide
  rw [plainEntry, BitVec.setWidth_or, BitVec.setWidth_or, BitVec.setWidth_or, hdest, hmask,
    BitVec.setWidth_add _ _ (by decide)]
  rw [BitVec.setWidth_setWidth_of_le _ (by decide), BitVec.setWidth_setWidth_of_le _ (by decide)]
  simp

lemma initialEntry_vector (s : IoApics H) (localApicId gsi : BitVec 8) :
    (s.initialEntry localApicId gsi).setWidth 8 = gsi + interruptBase := by
  by_cases h0 : gsi = 0#8
  · subst h0
    have hmode : (7#64 <<< 8).setWidth 8 = 0#8 := by decide
    rw [initialEntry_zero, BitVec.setWidth_or, plainEntry_vector, hmode, BitVec.or_zero]
  by_cases hisa : gsi.toNat < isaInterruptCount
  · rw [initialEntry_isa h0 hisa, ← @plainEntry_vector localApicId]
    apply BitVec.eq_of_getLsbD_eq
    intro i hi
    rw [BitVec.getLsbD_setWidth, BitVec.getLsbD_setWidth, overrideEntry_bit _ _ _ (by omega) (by omega)]
  · have hflags : ((1#64 <<< 15) ||| (1#64 <<< 13)).setWidth 8 = 0#8 := by decide
    rw [initialEntry_pci (Nat.not_lt.mp hisa), BitVec.setWidth_or, plainEntry_vector, hflags, BitVec.or_zero]

/-- The delivery mode is that for external interrupts at GSI 0, and fixed at the others. -/
lemma initialEntry_mode (hg : gsi.toNat < ioVectorCount) (h8 : 8 ≤ i) (h11 : i < 11) :
    (s.initialEntry localApicId gsi).getLsbD i = decide (gsi = 0#8) := by
  have hplain : (plainEntry localApicId gsi).getLsbD i = false := plainEntry_bit h8 (by omega) hg
  by_cases h0 : gsi = 0#8
  · subst h0
    have hmode : (7#64 <<< 8).getLsbD i = true := by
      obtain rfl | rfl | rfl : i = 8 ∨ i = 9 ∨ i = 10 := by omega
      · decide
      · decide
      · decide
    rw [initialEntry_zero, BitVec.getLsbD_or, hmode, Bool.or_true]
    rfl
  rw [decide_eq_false h0]
  by_cases hisa : gsi.toNat < isaInterruptCount
  · rw [initialEntry_isa h0 hisa, overrideEntry_bit _ _ _ (by omega) (by omega), hplain]
  · have hflags : ((1#64 <<< 15) ||| (1#64 <<< 13)).getLsbD i = false := by
      obtain rfl | rfl | rfl : i = 8 ∨ i = 9 ∨ i = 10 := by omega
      · decide
      · decide
      · decide
    rw [initialEntry_pci (Nat.not_lt.mp hisa), BitVec.getLsbD_or, hplain, hflags]
    rfl

end Initial

section Wanted

variable {es : List MadtEntry} {field : MadtOverride → Option Bool} {g : Nat} {b : Bool}

/-- An override to the GSI has this explicit value in its field. -/
def Asks (es : List MadtEntry) (field : MadtOverride → Option Bool) (g : Nat) (v : Bool) : Prop :=
  ∃ o ∈ overridesOf es, o.globalSystemInt.toNat = g ∧ field o = some v

/-- The override that `override_entry` finds for a GSI: the last one that was entered for the interrupt of that
number, whatever its own GSI is. -/
def overrideFound (es : List MadtEntry) (g : Nat) : Option MadtOverride :=
  (isaOverrides es).reverse.find? fun o => decide (o.irqSrc = BitVec.ofNat 8 g)

/-- The override that is found for the GSI sets the bit. -/
def FoundSet (es : List MadtEntry) (field : MadtOverride → Option Bool) (g : Nat) : Prop :=
  ∃ o ∈ overrideFound es g, field o = some true

instance (v : Bool) : Decidable (Asks es field g v) := inferInstanceAs (Decidable (∃ o ∈ overridesOf es, _))

instance : Decidable (FoundSet es field g) := inferInstanceAs (Decidable (∃ o ∈ overrideFound es g, _))

/-- The bit of the entry for a GSI is that of an override to the GSI with an explicit field, else it is clear for
an ISA interrupt and set for the others. -/
structure Wanted (es : List MadtEntry) (field : MadtOverride → Option Bool) (g : Nat) (b : Bool) : Prop where
  override : ∀ v, Asks es field g v → b = v
  default : g ≠ 0 → (∀ v, ¬ Asks es field g v) → b = decide (isaInterruptCount ≤ g)

/-- The field of the overrides to a GSI reaches its entry. -/
structure FlagReached (es : List MadtEntry) (field : MadtOverride → Option Bool) (g : Nat) : Prop where
  zero : g = 0 → ¬ Asks es field g true
  found : g ≠ 0 → g < isaInterruptCount → (Asks es field g true ↔ FoundSet es field g)
  one : g ≠ 0 → g < isaInterruptCount → Asks es field g true → ¬ Asks es field g false
  pci : isaInterruptCount ≤ g → ¬ Asks es field g false

instance : Decidable (FlagReached es field g) :=
  decidable_of_iff ((g = 0 → ¬ Asks es field g true) ∧
      (g ≠ 0 → g < isaInterruptCount → (Asks es field g true ↔ FoundSet es field g)) ∧
      (g ≠ 0 → g < isaInterruptCount → Asks es field g true → ¬ Asks es field g false) ∧
      (isaInterruptCount ≤ g → ¬ Asks es field g false))
    ⟨fun h => ⟨h.1, h.2.1, h.2.2.1, h.2.2.2⟩, fun h => ⟨h.zero, h.found, h.one, h.pci⟩⟩

/-- The bit is as wanted exactly if the field of the overrides reaches it. -/
lemma wanted_iff (hzero : g = 0 → b = false)
    (hisa : g ≠ 0 → g < isaInterruptCount → (b = true ↔ FoundSet es field g)) (hpci : isaInterruptCount ≤ g → b = true) :
    Wanted es field g b ↔ FlagReached es field g := by
  constructor
  · intro h
    constructor
    · intro h0 hask
      have hb := h.override true hask
      rw [hzero h0] at hb
      cases hb
    · intro h0 hlt
      rw [← hisa h0 hlt]
      constructor
      · exact h.override true
      · intro hb
        by_contra htrue
        have hnone : ∀ v, ¬ Asks es field g v := by
          intro v hask
          have hv := h.override v hask
          rw [← hv, hb] at hask
          exact htrue hask
        have hdef := h.default h0 hnone
        rw [hb, decide_eq_false (Nat.not_le.mpr hlt)] at hdef
        cases hdef
    · intro h0 hlt htrue hfalse
      have hb := h.override true htrue
      rw [h.override false hfalse] at hb
      cases hb
    · intro hle hfalse
      have hb := h.override false hfalse
      rw [hpci hle] at hb
      cases hb
  · intro h
    constructor
    · intro v hask
      by_cases h0 : g = 0
      · rw [hzero h0]
        cases v with
        | true => exact absurd hask (h.zero h0)
        | false => rfl
      by_cases hlt : g < isaInterruptCount
      · cases v with
        | true => exact (hisa h0 hlt).mpr ((h.found h0 hlt).mp hask)
        | false =>
          apply Bool.eq_false_iff.mpr
          intro hb
          exact h.one h0 hlt ((h.found h0 hlt).mpr ((hisa h0 hlt).mp hb)) hask
      · rw [hpci (Nat.not_lt.mp hlt)]
        cases v with
        | true => rfl
        | false => exact absurd hask (h.pci (Nat.not_lt.mp hlt))
    · intro h0 hnone
      by_cases hlt : g < isaInterruptCount
      · rw [decide_eq_false (Nat.not_le.mpr hlt)]
        apply Bool.eq_false_iff.mpr
        intro hb
        exact hnone true ((h.found h0 hlt).mpr ((hisa h0 hlt).mp hb))
      · rw [decide_eq_true (Nat.not_lt.mp hlt)]
        exact hpci (Nat.not_lt.mp hlt)

end Wanted

section Pins

variable {ioapics : List IoApic} {p q : IoApic × Nat}

/-- The pins of the IOAPICs. -/
def pins (ioapics : List IoApic) : List (IoApic × Nat) :=
  ioapics.flatMap fun ioapic => (List.range ioapic.maxEntries.toNat).map fun k => (ioapic, k)

/-- The GSI of a pin. -/
def gsi (p : IoApic × Nat) : Nat := p.1.gsiBase.toNat + p.2

/-- The redirection entry of a pin. -/
def entryOf (s : IoApics H) (p : IoApic × Nat) : BitVec 64 := s.readEntry p.1 (BitVec.ofNat 8 p.2)

/-- No GSI is in the ranges of two IOAPICs. -/
def DisjointRanges (ioapics : List IoApic) : Prop :=
  ioapics.Pairwise fun a b => ∀ g, a.gsiBase.toNat ≤ g ∧ g < a.gsiBase.toNat + a.maxEntries.toNat →
    ¬ (b.gsiBase.toNat ≤ g ∧ g < b.gsiBase.toNat + b.maxEntries.toNat)

/-- The IOAPICs are at different addresses, or one has no pins. -/
def Apart (a b : IoApic) : Prop := a.addr = b.addr → a.maxEntries.toNat = 0 ∨ b.maxEntries.toNat = 0

instance : Std.Symm Apart where
  symm _ _ h heq := (h heq.symm).symm

lemma mem_pins : p ∈ pins ioapics ↔ p.1 ∈ ioapics ∧ p.2 < p.1.maxEntries.toNat := by
  rw [pins, List.mem_flatMap]
  simp only [List.mem_map, List.mem_range]
  constructor
  · rintro ⟨a, ha, k, hk, rfl⟩
    exact ⟨ha, hk⟩
  · rintro ⟨ha, hk⟩
    exact ⟨p.1, ha, p.2, hk, rfl⟩

lemma DisjointRanges.nodup (h : DisjointRanges ioapics) : ((pins ioapics).map gsi).Nodup := by
  rw [pins, List.map_flatMap]
  apply List.nodup_flatMap.mpr
  constructor
  · intro a _
    rw [List.map_map]
    apply List.Nodup.map _ List.nodup_range
    intro i j hij
    exact Nat.add_left_cancel hij
  · apply h.imp
    intro a b hab g ha hb
    simp only [List.map_map, List.mem_map, List.mem_range] at ha hb
    obtain ⟨i, hi, rfl⟩ := ha
    obtain ⟨j, hj, hij⟩ := hb
    simp only [Function.comp, gsi] at hij
    exact hab (a.gsiBase.toNat + i) ⟨by omega, by omega⟩ ⟨by omega, by omega⟩

lemma DisjointRanges.gsi_inj (h : DisjointRanges ioapics) (hp : p ∈ pins ioapics) (hq : q ∈ pins ioapics)
    (heq : gsi p = gsi q) : p = q :=
  List.inj_on_of_nodup_map h.nodup hp hq heq

/-- Two pins whose entries are in the same registers. -/
def Shares (p q : IoApic × Nat) : Prop :=
  p.1.addr = q.1.addr ∧ ioApicRedtblOffset (BitVec.ofNat 8 p.2) = ioApicRedtblOffset (BitVec.ofNat 8 q.2)

lemma Shares.entryOf (h : Shares p q) (s : IoApics H) : s.entryOf p = s.entryOf q := by
  unfold IoApics.entryOf readEntry
  rw [h.1, h.2]

lemma redtblOffset_inj {i j : Nat} (hi : i < 128) (hj : j < 128)
    (h : ioApicRedtblOffset (BitVec.ofNat 8 i) = ioApicRedtblOffset (BitVec.ofNat 8 j)) : i = j := by
  have hnat := congrArg BitVec.toNat h
  simp only [ioApicRedtblOffset, BitVec.toNat_add, BitVec.toNat_mul, BitVec.toNat_ofNat] at hnat
  omega

/-- IOAPICs at their own addresses with at most 128 pins have a register for each pin. -/
lemma eq_of_shares (h : ioapics.Pairwise Apart) (hsize : ∀ a ∈ ioapics, a.maxEntries.toNat ≤ 128)
    (hp : p ∈ pins ioapics) (hq : q ∈ pins ioapics) (hshares : Shares p q) : p = q := by
  obtain ⟨hpa, hpk⟩ := mem_pins.mp hp
  obtain ⟨hqa, hqk⟩ := mem_pins.mp hq
  have hpsize := hsize p.1 hpa
  have hqsize := hsize q.1 hqa
  have hsame : p.1 = q.1 := by
    by_contra hne
    have hzero := h.forall hpa hqa hne hshares.1
    omega
  exact Prod.ext hsame (redtblOffset_inj (by omega) (by omega) hshares.2)

lemma initialEntry_congr {s t : IoApics H} (h : t.overrides = s.overrides) (localApicId gsi : BitVec 8) :
    t.initialEntry localApicId gsi = s.initialEntry localApicId gsi := by
  unfold initialEntry overrideEntry
  rw [h]

/-- After the loop of `init_io_apics`, the entry of a pin with registers of its own is the one computed for it. -/
lemma foldlM_initEntries_entry {s s' : IoApics H} {localApicId : BitVec 8} {l : List IoApic}
    (h : l.foldlM (fun s ioapic => s.initEntries localApicId ioapic) s = .ok s') (hp : p ∈ pins l)
    (hown : ∀ q ∈ pins l, Shares p q → p = q) :
    s'.entryOf p = s'.initialEntry localApicId (pinGsi p.1 p.2) := by
  let P (t : IoApics H) : Prop := t.entryOf p = t.initialEntry localApicId (pinGsi p.1 p.2)
  have hwrite (t t' : IoApics H) (a : IoApic) (k : Nat)
      (hk : (t.writeEntry a (BitVec.ofNat 8 k) (t.initialEntry localApicId (pinGsi a k))).reserveIoInterrupt
        (pinGsi a k) = .ok t') :
      t'.entryOf p = (t.writeEntry a (BitVec.ofNat 8 k) (t.initialEntry localApicId (pinGsi a k))).entryOf p ∧
        t'.initialEntry localApicId (pinGsi p.1 p.2) = t.initialEntry localApicId (pinGsi p.1 p.2) := by
    obtain ⟨-, rfl⟩ := (initEntry_ok_iff t localApicId a k t').mp hk
    exact ⟨rfl, initialEntry_congr rfl _ _⟩
  have hset (t t' : IoApics H) (hk : (t.writeEntry p.1 (BitVec.ofNat 8 p.2) (t.initialEntry localApicId
      (pinGsi p.1 p.2))).reserveIoInterrupt (pinGsi p.1 p.2) = .ok t') : P t' := by
    obtain ⟨hentry, hinit⟩ := hwrite t t' p.1 p.2 hk
    change t'.entryOf p = _
    rw [hentry, hinit]
    exact readEntry_writeEntry ..
  have hkeep (t t' : IoApics H) (q : IoApic × Nat) (hq : q ∈ pins l) (hP : P t) (hk : (t.writeEntry q.1 (BitVec.ofNat 8 q.2)
      (t.initialEntry localApicId (pinGsi q.1 q.2))).reserveIoInterrupt (pinGsi q.1 q.2) = .ok t') : P t' := by
    by_cases heq : p = q
    · subst heq
      exact hset t t' hk
    · obtain ⟨hentry, hinit⟩ := hwrite t t' q.1 q.2 hk
      change t'.entryOf p = _
      rw [hentry, hinit]
      refine (readEntry_writeEntry_ne (fun haddr hreg => ?_) _).trans hP
      exact heq (hown q hq ⟨haddr, hreg⟩)
  obtain ⟨hpa, hpk⟩ := mem_pins.mp hp
  apply foldlM_establish P hpa _ _ h
  · intro t t' ht
    apply foldlM_establish P (List.mem_range.mpr hpk) _ _ ht
    · intro u u' hu
      exact hset u u' hu
    · intro k hk u u' hP hu
      exact hkeep u u' (p.1, k) (mem_pins.mpr ⟨hpa, List.mem_range.mp hk⟩) hP hu
  · intro a ha t t' hP ht
    apply foldlM_invariant P hP _ ht
    intro k hk u u' hP hu
    exact hkeep u u' (a, k) (mem_pins.mpr ⟨ha, List.mem_range.mp hk⟩) hP hu

end Pins

section Redirected

variable {madt : Madt} {es : List MadtEntry} {regs : BitVec 32 → BitVec 8 → BitVec 32} {localApicId : BitVec 8}

/-- The redirection entry of a GSI is masked, with the vector, the polarity and the trigger mode of the GSI. -/
structure Redirects (es : List MadtEntry) (g : Nat) (entry : BitVec 64) : Prop where
  masked : entry.getLsbD 16 = true
  vector : (entry.setWidth 8).toNat = g + interruptBase.toNat
  mode : ∀ i, 8 ≤ i → i < 11 → entry.getLsbD i = decide (g = 0)
  polarity : Wanted es lowActive g (entry.getLsbD 13)
  trigger : Wanted es levelTriggered g (entry.getLsbD 15)

/-- `init_io_apics` returns, and then each pin has the entry of its GSI, with a vector of its own. -/
def Redirected (H : Type) (madt : Madt) (es : List MadtEntry) (regs : BitVec 32 → BitVec 8 → BitVec 32)
    (localApicId : BitVec 8) : Prop :=
  ∃ fuel s, (blank regs : IoApics H).initIoApics madt localApicId fuel = .ok s ∧
    (∀ p ∈ pins (ioApicsOf regs es), Redirects es (gsi p) (s.entryOf p)) ∧
    ((pins (ioApicsOf regs es)).map fun p => (s.entryOf p).setWidth 8).Nodup

/-- The IOAPICs and overrides have a place in the tables, each pin has registers and a vector, and the flags of the
overrides reach the entries of their GSIs. -/
structure Programmable (es : List MadtEntry) (regs : BitVec 32 → BitVec 8 → BitVec 32) : Prop where
  ne_nil : es ≠ []
  length_le : (ioApicsOf regs es).length ≤ maxIoApics
  canEnter : CanEnter (ioApicsOf regs es) (isaOverrides es)
  size : ∀ a ∈ ioApicsOf regs es, a.maxEntries.toNat ≤ 128
  addresses : (ioApicsOf regs es).Pairwise Apart
  vectors : ∀ p ∈ pins (ioApicsOf regs es), gsi p < ioVectorCount
  polarity : ∀ p ∈ pins (ioApicsOf regs es), FlagReached es lowActive (gsi p)
  trigger : ∀ p ∈ pins (ioApicsOf regs es), FlagReached es levelTriggered (gsi p)

lemma pinGsi_toNat {p : IoApic × Nat} (h : gsi p < ioVectorCount) : (pinGsi p.1 p.2).toNat = gsi p := by
  have hcount : ioVectorCount = 224 := rfl
  unfold gsi at h ⊢
  rw [pinGsi, BitVec.toNat_add, BitVec.toNat_setWidth, BitVec.toNat_ofNat]
  omega

/-- The tables after the walks over a well-formed table that return. -/
lemma walks_entered (h : madt.Lists es) (hne : es ≠ []) (hwf : ∀ e ∈ es, e.WellFormed) {fuel : Nat}
    (hfuel : es.length < fuel) {t u : IoApics H} (ht : (blank regs).getIoApics madt fuel = .ok t)
    (hu : t.initOverrides madt fuel = .ok u) : (ioApicsOf regs es).length ≤ maxIoApics ∧
      CanEnter (ioApicsOf regs es) (isaOverrides es) ∧ Entered (ioApicsOf regs es) u (isaOverrides es) := by
  rw [getIoApics_eq h hne hwf hfuel] at ht
  rw [initOverrides_eq h hne hwf hfuel, foldlM_isaOverrides] at hu
  have henter := foldlM_enter (blank_entered ht) fun o => @isaOverrides_isa es o
  exact ⟨foldlM_addIoApic_ok_iff.mp ⟨t, ht⟩, henter.1.mp ⟨u, hu⟩, henter.2 u hu⟩

lemma initialEntry_redirects_iff {s : IoApics H} (hs : ∀ r, s.overrides r =
      (isaOverrides es).reverse.find? fun o => decide (o.irqSrc = r)) {g : BitVec 8} (hg : g.toNat < ioVectorCount) :
    Redirects es g.toNat (s.initialEntry localApicId g) ↔
      FlagReached es lowActive g.toNat ∧ FlagReached es levelTriggered g.toNat := by
  have hcount : ioVectorCount = 224 := rfl
  have hbase : interruptBase.toNat = 32 := rfl
  have hzero (h0 : g.toNat = 0) : g = 0#8 := BitVec.eq_of_toNat_eq h0
  have hpos (h0 : g.toNat ≠ 0) : g ≠ 0#8 := by
    rintro rfl
    exact h0 rfl
  have hfound : overrideFound es g.toNat = s.overrides g := by
    rw [hs, overrideFound, BitVec.ofNat_toNat, BitVec.setWidth_eq]
  have hvector : ((s.initialEntry localApicId g).setWidth 8).toNat = g.toNat + interruptBase.toNat := by
    rw [initialEntry_vector, BitVec.toNat_add, hbase]
    omega
  have hmode : ∀ i, 8 ≤ i → i < 11 → (s.initialEntry localApicId g).getLsbD i = decide (g.toNat = 0) := by
    intro i h8 h11
    rw [initialEntry_mode hg h8 h11]
    exact decide_eq_decide.mpr ⟨congrArg BitVec.toNat, hzero⟩
  have hpolarity : Wanted es lowActive g.toNat ((s.initialEntry localApicId g).getLsbD 13) ↔
      FlagReached es lowActive g.toNat := by
    apply wanted_iff
    · intro h0
      rw [hzero h0, initialEntry_zero, BitVec.getLsbD_or, plainEntry_bit (by decide) (by decide) (by decide)]
      decide
    · intro h0 hlt
      rw [initialEntry_isa (hpos h0) hlt, FoundSet, hfound]
      exact s.overrideEntry_polarity (plainEntry_bit (by decide) (by decide) hg) g
    · intro hle
      rw [initialEntry_pci hle, BitVec.getLsbD_or, plainEntry_bit (by decide) (by decide) hg]
      decide
  have htrigger : Wanted es levelTriggered g.toNat ((s.initialEntry localApicId g).getLsbD 15) ↔
      FlagReached es levelTriggered g.toNat := by
    apply wanted_iff
    · intro h0
      rw [hzero h0, initialEntry_zero, BitVec.getLsbD_or, plainEntry_bit (by decide) (by decide) (by decide)]
      decide
    · intro h0 hlt
      rw [initialEntry_isa (hpos h0) hlt, FoundSet, hfound]
      exact s.overrideEntry_trigger (plainEntry_bit (by decide) (by decide) hg) g
    · intro hle
      rw [initialEntry_pci hle, BitVec.getLsbD_or, plainEntry_bit (by decide) (by decide) hg]
      decide
  constructor
  · intro h
    exact ⟨hpolarity.mp h.polarity, htrigger.mp h.trigger⟩
  · rintro ⟨hlow, hlevel⟩
    exact ⟨s.initialEntry_mask localApicId g, hvector, hmode, hpolarity.mpr hlow, htrigger.mpr hlevel⟩

/-- Where each pin has registers, its entry after `init_io_apics` is the one computed for it. -/
lemma entryOf_eq {s u : IoApics H} (hentered : Entered (ioApicsOf regs es) u (isaOverrides es))
    (h : u.ioapics.foldlM (fun s ioapic => s.initEntries localApicId ioapic) u = .ok s)
    (hapart : (ioApicsOf regs es).Pairwise Apart) (hsize : ∀ a ∈ ioApicsOf regs es, a.maxEntries.toNat ≤ 128)
    {p : IoApic × Nat} (hp : p ∈ pins (ioApicsOf regs es)) (hg : gsi p < ioVectorCount) :
    Redirects es (gsi p) (s.entryOf p) ↔ FlagReached es lowActive (gsi p) ∧ FlagReached es levelTriggered (gsi p) := by
  rw [hentered.ioapics] at h
  have hentry := foldlM_initEntries_entry h hp fun q hq => eq_of_shares hapart hsize hp hq
  have hoverrides : ∀ r, s.overrides r = (isaOverrides es).reverse.find? fun o => decide (o.irqSrc = r) := by
    rw [(foldlM_initEntries_sameTables h).overrides]
    exact hentered.overrides
  rw [hentry, ← pinGsi_toNat hg]
  apply initialEntry_redirects_iff hoverrides
  rwa [pinGsi_toNat hg]

/-- Pins with entries of their GSIs do not share registers. -/
lemma eq_of_redirects {s : IoApics H} {ioapics : List IoApic} (hdisjoint : DisjointRanges ioapics)
    (h : ∀ p ∈ pins ioapics, Redirects es (gsi p) (s.entryOf p)) {p q : IoApic × Nat} (hp : p ∈ pins ioapics)
    (hq : q ∈ pins ioapics) (hshares : Shares p q) : p = q := by
  have hvp := (h p hp).vector
  have hvq := (h q hq).vector
  rw [hshares.entryOf s] at hvp
  apply hdisjoint.gsi_inj hp hq
  omega

lemma Redirected.programmable (hlists : madt.Lists es) (hwf : ∀ e ∈ es, e.WellFormed)
    (hdisjoint : DisjointRanges (ioApicsOf regs es)) (h : Redirected H madt es regs localApicId) :
    Programmable es regs := by
  obtain ⟨fuel, s, hinit, hentries, -⟩ := h
  have hne : es ≠ [] := by
    rintro rfl
    obtain ⟨t, ht, -⟩ := bind_eq_ok.mp hinit
    exact Madt.walk_empty hlists fuel ht
  obtain ⟨t, ht, hinit⟩ := bind_eq_ok.mp (initIoApics_mono hinit (Nat.le_max_left fuel (es.length + 1)))
  obtain ⟨u, hu, hinit⟩ := bind_eq_ok.mp hinit
  obtain ⟨hlen, hcan, hentered⟩ := walks_entered hlists hne hwf (by omega) ht hu
  have hvectors : ∀ p ∈ pins (ioApicsOf regs es), gsi p < ioVectorCount := by
    intro p hp
    have hvector := (hentries p hp).vector
    have hlt := ((s.entryOf p).setWidth 8).isLt
    have hcount : ioVectorCount = 224 := rfl
    have hbase : interruptBase.toNat = 32 := rfl
    omega
  have hsize : ∀ a ∈ ioApicsOf regs es, a.maxEntries.toNat ≤ 128 := by
    intro a ha
    by_contra hlt
    have hpos : 0 < a.maxEntries.toNat := by omega
    have hreg : ioApicRedtblOffset (BitVec.ofNat 8 0) = ioApicRedtblOffset (BitVec.ofNat 8 128) := by decide
    have hfirst : (a, 0) ∈ pins (ioApicsOf regs es) := mem_pins.mpr ⟨ha, hpos⟩
    have hwrapped : (a, 128) ∈ pins (ioApicsOf regs es) := mem_pins.mpr ⟨ha, Nat.not_le.mp hlt⟩
    have hidx : 0 = 128 := congrArg Prod.snd (eq_of_redirects hdisjoint hentries hfirst hwrapped ⟨rfl, hreg⟩)
    omega
  have hapart : (ioApicsOf regs es).Pairwise Apart := by
    apply hdisjoint.imp_of_mem
    intro a b ha hb hab haddr
    by_contra hpos
    rw [not_or] at hpos
    have hfirst : (a, 0) ∈ pins (ioApicsOf regs es) := mem_pins.mpr ⟨ha, Nat.pos_of_ne_zero hpos.1⟩
    have hother : (b, 0) ∈ pins (ioApicsOf regs es) := mem_pins.mpr ⟨hb, Nat.pos_of_ne_zero hpos.2⟩
    have heq : a = b := congrArg Prod.fst (eq_of_redirects hdisjoint hentries hfirst hother ⟨haddr, rfl⟩)
    subst heq
    exact hab a.gsiBase.toNat ⟨Nat.le_refl _, by omega⟩ ⟨Nat.le_refl _, by omega⟩
  have hflags : ∀ p ∈ pins (ioApicsOf regs es), FlagReached es lowActive (gsi p) ∧
      FlagReached es levelTriggered (gsi p) := by
    intro p hp
    exact (entryOf_eq hentered hinit hapart hsize hp (hvectors p hp)).mp (hentries p hp)
  exact ⟨hne, hlen, hcan, hsize, hapart, hvectors, fun p hp => (hflags p hp).1, fun p hp => (hflags p hp).2⟩

lemma Programmable.redirected (hlists : madt.Lists es) (hwf : ∀ e ∈ es, e.WellFormed)
    (hdisjoint : DisjointRanges (ioApicsOf regs es)) (h : Programmable es regs) (localApicId : BitVec 8) :
    Redirected H madt es regs localApicId := by
  have hfuel : es.length < es.length + 1 := Nat.lt_succ_self _
  obtain ⟨t, ht⟩ := (foldlM_addIoApic_ok_iff (H := H)).mpr h.length_le
  obtain ⟨u, hu⟩ := (foldlM_enter (blank_entered ht) fun o => isaOverrides_isa).1.mpr h.canEnter
  rw [← foldlM_isaOverrides, ← initOverrides_eq hlists h.ne_nil hwf hfuel] at hu
  rw [← getIoApics_eq hlists h.ne_nil hwf hfuel] at ht
  obtain ⟨-, -, hentered⟩ := walks_entered hlists h.ne_nil hwf hfuel ht hu
  obtain ⟨s, hs⟩ := (foldlM_initEntries_ok_iff u localApicId u.ioapics).mpr <| by
    intro a ha k hk
    rw [hentered.ioapics] at ha
    have hp : (a, k) ∈ pins (ioApicsOf regs es) := mem_pins.mpr ⟨ha, hk⟩
    have hlt := h.vectors (a, k) hp
    rwa [← pinGsi_toNat hlt] at hlt
  have hentries : ∀ p ∈ pins (ioApicsOf regs es), Redirects es (gsi p) (s.entryOf p) := by
    intro p hp
    exact (entryOf_eq hentered hs h.addresses h.size hp (h.vectors p hp)).mpr ⟨h.polarity p hp, h.trigger p hp⟩
  refine ⟨es.length + 1, s, ?_, hentries, ?_⟩
  · rw [initIoApics, ht]
    change (t.initOverrides madt (es.length + 1) >>= _) = _
    rw [hu]
    exact hs
  · apply List.Nodup.map_on _ (List.Nodup.of_map _ hdisjoint.nodup)
    intro p hp q hq heq
    have hvp := (hentries p hp).vector
    have hvq := (hentries q hq).vector
    rw [heq] at hvp
    apply hdisjoint.gsi_inj hp hq
    omega

/-- The entries are those of their GSIs exactly if the tables have room for all of it and the flags that are looked up
by source agree with those of the GSIs. -/
theorem redirected_iff (hlists : madt.Lists es) (hwf : ∀ e ∈ es, e.WellFormed)
    (hdisjoint : DisjointRanges (ioApicsOf regs es)) (localApicId : BitVec 8) :
    Redirected H madt es regs localApicId ↔ Programmable es regs :=
  ⟨fun h => h.programmable hlists hwf hdisjoint, fun h => h.redirected hlists hwf hdisjoint localApicId⟩

/-- The PC's IOAPIC. -/
def pcIoApic : IoApic := ⟨0xfec00000#32, 0#32, 0#8, 24#8, 0x11#8⟩

lemma pc_ioApics : ioApicsOf pcRegs pcEntries = [pcIoApic] := by decide

lemma pc_flags : ∀ g < 24, FlagReached pcEntries lowActive g ∧ FlagReached pcEntries levelTriggered g := by
  decide +kernel

lemma pc_programmable : Programmable pcEntries pcRegs := by
  obtain ⟨t, ht, h⟩ := bind_eq_ok.mp pcState_eq
  obtain ⟨u, hu, -⟩ := bind_eq_ok.mp h
  obtain ⟨hlen, hcan, -⟩ := walks_entered pcTable.lists (by decide) pcTable.wellFormed (by decide) ht hu
  have hpins (p : IoApic × Nat) (hp : p ∈ pins (ioApicsOf pcRegs pcEntries)) : gsi p < 24 := by
    obtain ⟨ha, hk⟩ := mem_pins.mp hp
    rw [pc_ioApics, List.mem_singleton] at ha
    have hbase : pcIoApic.gsiBase.toNat = 0 := rfl
    rw [ha] at hk
    rw [gsi, ha, hbase, Nat.zero_add]
    exact hk
  constructor
  · decide
  · exact hlen
  · exact hcan
  · decide
  · rw [pc_ioApics]
    exact List.pairwise_singleton ..
  · exact fun p hp => Nat.lt_trans (hpins p hp) (by decide)
  · exact fun p hp => (pc_flags _ (hpins p hp)).1
  · exact fun p hp => (pc_flags _ (hpins p hp)).2

/-- The entries of the PC's IOAPIC. -/
theorem pc_redirected : Redirected Unit pcMadt pcEntries pcRegs 0#8 := by
  have hdisjoint : DisjointRanges (ioApicsOf pcRegs pcEntries) := by
    rw [pc_ioApics]
    exact List.pairwise_singleton ..
  apply (redirected_iff pcTable.lists pcTable.wellFormed hdisjoint 0#8).mpr
  exact pc_programmable

lemma timerIoApic_length :
    [0#8, 0#8, 0#8, 0#8, 0xc0#8, 0xfe#8, 0#8, 0#8, 0#8, 0#8].length ≤ 253 := by decide

/-- The timer is wired to GSI 2 with its polarity and trigger mode given, as active low and level. -/
def timerEntries : List MadtEntry :=
  [⟨madtEntryIoApic, [0#8, 0#8, 0#8, 0#8, 0xc0#8, 0xfe#8, 0#8, 0#8, 0#8, 0#8], timerIoApic_length⟩,
    ⟨madtEntryIntSrcOverride, [0#8, 0#8, 2#8, 0#8, 0#8, 0#8, 0xf#8, 0#8], by decide⟩]

def timerMadt : Madt := ⟨timerEntries.flatMap MadtEntry.bytes, by decide⟩

/-- The entry of GSI 2 is active high and edge-triggered nevertheless. -/
theorem timer_misprogrammed : timerMadt.Lists timerEntries ∧ (∀ e ∈ timerEntries, e.WellFormed) ∧
    DisjointRanges (ioApicsOf pcRegs timerEntries) ∧ ¬ Redirected Unit timerMadt timerEntries pcRegs 0#8 := by
  have hlists : timerMadt.Lists timerEntries := rfl
  have hwf : ∀ e ∈ timerEntries, e.WellFormed := by
    unfold MadtEntry.WellFormed
    decide
  have hone : ioApicsOf pcRegs timerEntries = [pcIoApic] := by decide
  have hdisjoint : DisjointRanges (ioApicsOf pcRegs timerEntries) := by
    rw [hone]
    exact List.pairwise_singleton ..
  refine ⟨hlists, hwf, hdisjoint, fun h => ?_⟩
  have hpin : (pcIoApic, 2) ∈ pins (ioApicsOf pcRegs timerEntries) := by
    rw [hone]
    exact mem_pins.mpr ⟨List.mem_singleton_self _, by decide⟩
  have hflag := (h.programmable hlists hwf hdisjoint).polarity _ hpin
  have hlow : Asks timerEntries lowActive (gsi (pcIoApic, 2)) true := by decide
  have hset := (hflag.found (by decide) (by decide)).mp hlow
  exact absurd hset (by decide)

end Redirected

end IoApics

end HaiirOS
