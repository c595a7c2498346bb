import HaiirOS.Pci.Capabilities

/-!
# The search for a capability

`find_cap` searches the list with the reserved bits of the next pointers kept, and it takes a
zero head pointer for a capability at offset 0.
-/

namespace HaiirOS

open Chain

lemma offset_even (a : BitVec 8) : (a &&& 0xfe#8) &&& 0xfc#8 = a &&& 0xfc#8 ∧
    8 * ((a &&& 0xfe#8).toNat % 4) = ((a &&& 2#8) * 8#8).toNat := by
  revert a
  decide

lemma offset_odd (a : BitVec 8) : (a ||| 1#8) &&& 0xfc#8 = a &&& 0xfc#8 ∧
    8 * ((a ||| 1#8).toNat % 4) = 8 + ((a &&& 2#8) * 8#8).toNat := by
  revert a
  decide

namespace PciConfig

variable (cfg : PciConfig) (dev : PciDev) (id : BitVec 8)

lemma readw_looseId (a : BitVec 8) :
    (cfg.pciReadw dev.bus dev.slot dev.func a &&& 0xff#16).setWidth 8 = cfg.looseId dev a :=
  cfg.readw_low dev.pciFunc (offset_even a).1 (offset_even a).2

lemma readw_looseNext (a : BitVec 8) :
    (cfg.pciReadw dev.bus dev.slot dev.func a >>> 8).setWidth 8 = cfg.byte dev.pciFunc (a ||| 1#8) := by
  rw [← cfg.readw_high dev.pciFunc (offset_odd a).1 (offset_odd a).2]
  apply BitVec.eq_of_getLsbD_eq
  intro i hi
  interval_cases i <;> simp [PciDev.pciFunc]

lemma readw_headOffset :
    (cfg.pciReadw dev.bus dev.slot dev.func 0x34#8 &&& 0xfc#16).setWidth 8 = cfg.headOffset dev := by
  rw [headOffset, ← cfg.readw_low dev.pciFunc (o := 0x34#8) (p := 0x34#8) rfl rfl]
  apply BitVec.eq_of_getLsbD_eq
  intro i hi
  interval_cases i <;> simp [PciDev.pciFunc]

lemma findCapLoop_eq (fuel : Nat) (a : BitVec 8) : cfg.findCapLoop dev id fuel a =
    (search (cfg.looseNext dev) (fun c => cfg.looseId dev c = id) fuel a).map fun r => r.getD 0#8 := by
  induction fuel generalizing a with
  | zero => rfl
  | succ fuel ih =>
    rw [findCapLoop, search, readw_looseId, readw_looseNext]
    by_cases hid : cfg.looseId dev a = id
    · simp [hid]
    · by_cases hn : cfg.byte dev.pciFunc (a ||| 1#8) = 0#8
      · simp [hid, looseNext, hn]
      · simp [hid, looseNext, hn, ih]

lemma findCap_some_iff {r : BitVec 8} : (∃ fuel, cfg.findCap dev id fuel = some r) ↔
    cfg.LooseFirst dev id r ∨ r = 0#8 ∧ cfg.LooseMisses dev id := by
  unfold LooseFirst LooseMisses findCap
  rw [← search_found_iff, ← search_missed_iff]
  simp only [readw_headOffset, findCapLoop_eq]
  constructor
  · rintro ⟨fuel, h⟩
    obtain ⟨o, ho, hr⟩ := Option.map_eq_some_iff.mp h
    cases o with
    | none => exact Or.inr ⟨hr.symm, fuel, ho⟩
    | some a => exact Or.inl ⟨fuel, by rw [ho, ← hr]; rfl⟩
  · intro h
    cases h with
    | inl h =>
      obtain ⟨fuel, h⟩ := h
      exact ⟨fuel, by rw [h]; rfl⟩
    | inr h =>
      obtain ⟨hr, fuel, h⟩ := h
      exact ⟨fuel, by rw [h, hr]; rfl⟩

lemma capPointer_ne_zero {b a : BitVec 8} (h : capPointer b = some a) : a ≠ 0#8 := by
  unfold capPointer at h
  by_cases hb : b &&& 0xfc#8 = 0#8
  · rw [if_pos hb] at h
    cases h
  · rw [if_neg hb] at h
    exact Option.some.inj h ▸ hb

variable {cfg dev id}

lemma HasCap.ne_zero {a : BitVec 8} (h : cfg.HasCap dev a) : a ≠ 0#8 := by
  obtain ⟨h, hh, ha⟩ := h
  cases ha.cases_tail with
  | inl ha => exact ha ▸ capPointer_ne_zero hh
  | inr ha =>
    obtain ⟨b, _, hb⟩ := ha
    exact capPointer_ne_zero hb

lemma FirstCap.hasCap {a : BitVec 8} (h : cfg.FirstCap dev id a) : cfg.HasCap dev a := by
  obtain ⟨h, hh, ha⟩ := h
  exact ⟨h, hh, ha.node⟩

lemma FirstCap.byte_eq {a : BitVec 8} (h : cfg.FirstCap dev id a) : cfg.byte dev.pciFunc a = id := by
  obtain ⟨h, _, ha⟩ := h
  exact ha.hit_found

lemma FirstCap.unique {a b : BitVec 8} (ha : cfg.FirstCap dev id a) (hb : cfg.FirstCap dev id b) : a = b := by
  obtain ⟨h, hh, ha⟩ := ha
  obtain ⟨h', hh', hb⟩ := hb
  obtain rfl := Option.some.inj (hh.symm.trans hh')
  exact ha.unique hb

variable (cfg dev id)

/-- `find_cap` ends with the first capability of the list, or 0 without one. -/
def CapFound : Prop := ∃ fuel r, cfg.findCap dev id fuel = some r ∧ cfg.IsFirstCap dev id r

/-- The list is read the same with the reserved bits kept, and it does not run round without `id`. -/
def LooseAgrees : Prop := (cfg.LooseMisses dev id ∨ ∃ a, cfg.LooseFirst dev id a) ∧
  ∀ a, a ≠ 0#8 → (cfg.LooseFirst dev id a ↔ cfg.FirstCap dev id a)

lemma capFound_of_looseAgrees (h : cfg.LooseAgrees dev id) : cfg.CapFound dev id := by
  obtain ⟨hstop, hsame⟩ := h
  have hzero (hno : ∀ a, a ≠ 0#8 → ¬ cfg.LooseFirst dev id a) : cfg.IsFirstCap dev id 0#8 := by
    refine Or.inr ⟨rfl, ?_⟩
    intro a ha
    have hne := ha.hasCap.ne_zero
    exact hno a hne ((hsame a hne).mpr ha)
  cases hstop with
  | inl hm =>
    obtain ⟨fuel, hf⟩ := (cfg.findCap_some_iff dev id).mpr (Or.inr ⟨rfl, hm⟩)
    exact ⟨fuel, 0#8, hf, hzero fun a _ ha => hm.not_first ha⟩
  | inr hf =>
    obtain ⟨b, hb⟩ := hf
    obtain ⟨fuel, hf⟩ := (cfg.findCap_some_iff dev id).mpr (Or.inl hb)
    by_cases hb0 : b = 0#8
    · subst hb0
      exact ⟨fuel, 0#8, hf, hzero fun a hne ha => hne (ha.unique hb)⟩
    · exact ⟨fuel, b, hf, Or.inl ((hsame b hb0).mp hb)⟩

lemma looseAgrees_of_capFound (h : cfg.CapFound dev id) : cfg.LooseAgrees dev id := by
  obtain ⟨fuel, r, hf, hr⟩ := h
  cases (cfg.findCap_some_iff dev id).mp ⟨fuel, hf⟩ with
  | inl hfirst =>
    refine ⟨Or.inr ⟨r, hfirst⟩, ?_⟩
    intro a ha
    cases hr with
    | inl hcap =>
      constructor
      · intro h
        exact h.unique hfirst ▸ hcap
      · intro h
        exact h.unique hcap ▸ hfirst
    | inr hnone =>
      obtain ⟨hr0, hnone⟩ := hnone
      constructor
      · intro h
        exact absurd ((h.unique hfirst).trans hr0) ha
      · intro h
        exact absurd h (hnone a)
  | inr hmiss =>
    obtain ⟨hr0, hm⟩ := hmiss
    refine ⟨Or.inl hm, ?_⟩
    intro a _
    constructor
    · intro h
      exact absurd h hm.not_first
    · intro h
      cases hr with
      | inl hcap => exact absurd hr0 hcap.hasCap.ne_zero
      | inr hnone => exact absurd h (hnone.2 a)

theorem capFound_iff : cfg.CapFound dev id ↔ cfg.LooseAgrees dev id :=
  ⟨cfg.looseAgrees_of_capFound dev id, cfg.capFound_of_looseAgrees dev id⟩

section Cyclic

/-- Every function has one capability, a power management one whose next pointer leads back to it. -/
def cyclicList : PciConfig := fun addr => if addr &&& 0xff#32 = 0x34#32 then 0x40#32 else 0x4001#32

def firstFunc : PciDev := ⟨0#8, 0#8, 0#8, 0xc#8, 0x3#8, 0x30#8⟩

theorem cyclicList_runs_forever : ¬ cyclicList.CapFound firstFunc 5#8 := by
  have hloop (fuel : Nat) : cyclicList.findCapLoop firstFunc 5#8 fuel 0x40#8 = none := by
    induction fuel with
    | zero => rfl
    | succ fuel ih =>
      rw [findCapLoop]
      exact ih
  intro ⟨fuel, r, hf, _⟩
  exact Option.some_ne_none r (hf.symm.trans (hloop fuel))

end Cyclic

/-! ### Well-formed lists -/

/-- The next pointers have no reserved bit set, and the list ends. -/
structure WellFormedList : Prop where
  aligned : ∀ a, cfg.HasCap dev a → cfg.byte dev.pciFunc (a + 1#8) &&& 3#8 = 0#8
  ends : ∀ h, capPointer (cfg.byte dev.pciFunc 0x34#8) = some h → Ends (cfg.nextCap dev) h

lemma capPointer_aligned {b a : BitVec 8} (h : capPointer b = some a) : a &&& 3#8 = 0#8 := by
  unfold capPointer at h
  by_cases hb : b &&& 0xfc#8 = 0#8
  · rw [if_pos hb] at h
    cases h
  · rw [if_neg hb] at h
    rw [← Option.some.inj h, BitVec.and_assoc]
    exact BitVec.and_zero

variable {cfg dev}

lemma HasCap.aligned {a : BitVec 8} (h : cfg.HasCap dev a) : a &&& 3#8 = 0#8 := by
  obtain ⟨h, hh, ha⟩ := h
  cases ha.cases_tail with
  | inl ha => exact ha ▸ capPointer_aligned hh
  | inr ha =>
    obtain ⟨b, _, hb⟩ := ha
    exact capPointer_aligned hb

lemma head_eq (h : cfg.headOffset dev ≠ 0#8) :
    capPointer (cfg.byte dev.pciFunc 0x34#8) = some (cfg.headOffset dev) :=
  if_neg h

lemma firstCap_iff (hhead : cfg.headOffset dev ≠ 0#8) {a : BitVec 8} : cfg.FirstCap dev id a ↔
    First (cfg.nextCap dev) (fun c => cfg.byte dev.pciFunc c = id) (cfg.headOffset dev) a := by
  constructor
  · intro ⟨b, hb, ha⟩
    obtain rfl := Option.some.inj (hb.symm.trans (head_eq hhead))
    exact ha
  · intro ha
    exact ⟨_, head_eq hhead, ha⟩

lemma not_hasCap (hhead : cfg.headOffset dev = 0#8) (a : BitVec 8) : ¬ cfg.HasCap dev a := by
  intro ⟨h, hh, _⟩
  have hnone : capPointer (cfg.byte dev.pciFunc 0x34#8) = none := if_pos hhead
  exact Option.some_ne_none h (hh.symm.trans hnone)

namespace WellFormedList

lemma agree (h : cfg.WellFormedList dev) (hhead : cfg.headOffset dev ≠ 0#8) :
    Agree (cfg.nextCap dev) (cfg.looseNext dev)
      (fun c => cfg.byte dev.pciFunc c = id) (fun c => cfg.looseId dev c = id) (cfg.headOffset dev) := by
  have hoffset : ∀ a : BitVec 8, a &&& 3#8 = 0#8 → a ||| 1#8 = a + 1#8 ∧ a &&& 0xfe#8 = a := by decide
  have hpointer : ∀ b : BitVec 8, b &&& 3#8 = 0#8 → b &&& 0xfc#8 = b := by decide
  intro a ha
  have hcap : cfg.HasCap dev a := ⟨_, head_eq hhead, ha⟩
  have ⟨hodd, heven⟩ := hoffset a hcap.aligned
  constructor
  · rw [looseNext, nextCap, capPointer, hodd, hpointer _ (h.aligned a hcap)]
  · simp only [looseId, heven]

/-- The search meets the first capability of a well-formed list that is not empty, or its end. -/
theorem findCap_iff (h : cfg.WellFormedList dev) (hhead : cfg.headOffset dev ≠ 0#8) {r : BitVec 8} :
    (∃ fuel, cfg.findCap dev id fuel = some r) ↔ cfg.IsFirstCap dev id r := by
  have hends : Misses _ (fun c => cfg.byte dev.pciFunc c = id) _ ∨ _ := (h.ends _ (head_eq hhead)).misses_or_first
  rw [findCap_some_iff, LooseFirst, LooseMisses, (h.agree id hhead).first_iff, (h.agree id hhead).misses_iff,
    ← firstCap_iff id hhead, IsFirstCap]
  constructor
  · intro hr
    cases hr with
    | inl hr => exact Or.inl hr
    | inr hr =>
      refine Or.inr ⟨hr.1, ?_⟩
      intro a ha
      exact hr.2.not_first ((firstCap_iff id hhead).mp ha)
  · intro hr
    cases hr with
    | inl hr => exact Or.inl hr
    | inr hr =>
      refine Or.inr ⟨hr.1, ?_⟩
      cases hends with
      | inl hm => exact hm
      | inr hf =>
        obtain ⟨b, hb⟩ := hf
        exact absurd ((firstCap_iff id hhead).mpr hb) (hr.2 b)

end WellFormedList

/-! ### The number of MSI vectors -/

/-- The status register says that the device has a capability list. -/
def CapabilitiesBit (cfg : PciConfig) (dev : PciDev) : Prop := (cfg.byte dev.pciFunc 6#8).getLsbD 4 = true

/-- There is an MSI capability at the offset. -/
def HasMsi (cfg : PciConfig) (dev : PciDev) (c : BitVec 8) : Prop :=
  cfg.HasCap dev c ∧ cfg.byte dev.pciFunc c = 5#8

/-- The Multiple Message Capable field of the MSI capability at the offset. -/
def multipleMessages (cfg : PciConfig) (dev : PciDev) (c : BitVec 8) : Nat :=
  (cfg.byte dev.pciFunc (c + 2#8)).toNat / 2 % 8

/-- `pci_msi_vec_count` returns the number that the MSI capability gives, and 0xff without one. -/
def VecCountRight (cfg : PciConfig) (dev : PciDev) : Prop :=
  (∀ c, cfg.HasMsi dev c →
    ∃ fuel, cfg.pciMsiVecCount dev fuel = some (BitVec.ofNat 8 (2 ^ cfg.multipleMessages dev c))) ∧
    ((∀ c, ¬ cfg.HasMsi dev c) → ∃ fuel, cfg.pciMsiVecCount dev fuel = some 0xff#8)

/-- The condition: the capability has four vectors; a search of an empty list does not go astray. -/
def FourVectors (cfg : PciConfig) (dev : PciDev) : Prop :=
  (∀ c, cfg.HasMsi dev c → cfg.multipleMessages dev c = 2) ∧
    (cfg.headOffset dev = 0#8 → cfg.LooseMisses dev 5#8 ∨ cfg.looseId dev 0#8 = 5#8)


section MsiCount

lemma and_bit4 (w : BitVec 16) :
    w &&& (1#16 <<< 4) = 0#16 ↔ ((w &&& 0xff#16).setWidth 8 : BitVec 8).getLsbD 4 = false := by
  have hone (i : Nat) : (1#16 <<< 4).getLsbD i = decide (i = 4) := by
    rw [(by decide : (1#16 <<< 4) = BitVec.twoPow 16 4), BitVec.getLsbD_twoPow]
    simp [eq_comm]
  have hmask : ((w &&& 0xff#16).setWidth 8 : BitVec 8).getLsbD 4 = w.getLsbD 4 := by simp
  rw [hmask]
  constructor
  · intro h
    have hbit := congrArg (fun x => x.getLsbD 4) h
    simpa [hone] using hbit
  · intro h
    apply BitVec.eq_of_getLsbD_eq
    intro i _
    rw [BitVec.getLsbD_and, hone]
    by_cases hi : i = 4
    · subst hi
      rw [h]
      rfl
    · simp [hi]

/-- The word at an MSI capability has the identifier 5 where the code expects the Message Control word. -/
lemma identifier_count {w : BitVec 16} (h : (w &&& 0xff#16).setWidth 8 = 5#8) :
    (1#32 <<< ((w >>> 1) &&& 7#16).toNat).setWidth 8 = 4#8 := by
  have hw : w.toNat % 256 = 5 := by
    have hmask : w.toNat % 256 &&& 255 = w.toNat % 256 % 256 := Nat.and_two_pow_sub_one_eq_mod _ 8
    have hnat := congrArg BitVec.toNat h
    simp [hmask] at hnat
    exact hnat
  have hfield : ((w >>> 1) &&& 7#16).toNat = 2 := by
    have hmask : w.toNat / 2 &&& 7 = w.toNat / 2 % 8 := Nat.and_two_pow_sub_one_eq_mod _ 3
    rw [BitVec.toNat_and, BitVec.toNat_ushiftRight, Nat.shiftRight_eq_div_pow]
    change w.toNat / 2 ^ 1 &&& 7 = 2
    rw [Nat.pow_one, hmask]
    omega
  rw [hfield]
  rfl

lemma count_eq_four {m : Nat} (hm : m < 8) : BitVec.ofNat 8 (2 ^ m) = 4#8 ↔ m = 2 := by
  interval_cases m <;> decide

lemma multipleMessages_lt (c : BitVec 8) : cfg.multipleMessages dev c < 8 := Nat.mod_lt _ (by decide)

lemma CapabilitiesBit.count (h : cfg.CapabilitiesBit dev) {n : BitVec 8} :
    (∃ fuel, cfg.pciMsiVecCount dev fuel = some n) ↔
      ∃ r, (∃ fuel, cfg.findCap dev 5#8 fuel = some r) ∧ n = if r = 0#8 then 0xff#8 else
        (1#32 <<< ((cfg.pciReadw dev.bus dev.slot dev.func r >>> 1) &&& 7#16).toNat).setWidth 8 := by
  have hbit : ¬ cfg.pciReadw dev.bus dev.slot dev.func 0x6#8 &&& (1#16 <<< 4) = 0#16 := by
    have hlow := cfg.readw_low dev.pciFunc (o := 6#8) (p := 6#8) rfl rfl
    rw [and_bit4]
    change ((cfg.pciReadw dev.bus dev.slot dev.func 6#8 &&& 0xff#16).setWidth 8 : BitVec 8) = _ at hlow
    rw [hlow]
    exact fun hc => Bool.false_ne_true (hc.symm.trans h)
  simp only [pciMsiVecCount, if_neg hbit, Option.map_eq_some_iff]
  constructor
  · intro ⟨fuel, r, hr, hn⟩
    exact ⟨r, ⟨fuel, hr⟩, hn.symm⟩
  · intro ⟨r, ⟨fuel, hr⟩, hn⟩
    exact ⟨fuel, r, hr, hn.symm⟩

lemma CapabilitiesBit.count_msi (h : cfg.CapabilitiesBit dev) {r n : BitVec 8} (hr : cfg.FirstCap dev 5#8 r)
    (hl : cfg.WellFormedList dev) (hhead : cfg.headOffset dev ≠ 0#8) :
    (∃ fuel, cfg.pciMsiVecCount dev fuel = some n) ↔ n = 4#8 := by
  have hid : (cfg.pciReadw dev.bus dev.slot dev.func r &&& 0xff#16).setWidth 8 = 5#8 := by
    have hloose := ((hl.agree 5#8 hhead).first_iff.mpr ((firstCap_iff 5#8 hhead).mp hr)).hit_found
    rw [readw_looseId]
    exact hloose
  have hcount := identifier_count hid
  rw [h.count]
  constructor
  · intro ⟨r', hr', hn⟩
    have hsame : r' = r := by
      cases (hl.findCap_iff 5#8 hhead).mp hr' with
      | inl h => exact h.unique hr
      | inr h => exact absurd hr (h.2 r)
    subst hsame
    rw [hn, if_neg hr.hasCap.ne_zero, hcount]
  · intro hn
    refine ⟨r, (hl.findCap_iff 5#8 hhead).mpr (Or.inl hr), ?_⟩
    rw [hn, if_neg hr.hasCap.ne_zero, hcount]

/-- With an empty list the search starts at offset 0, and finds nothing unless it goes on from there. -/
lemma findCap_empty (hhead : cfg.headOffset dev = 0#8) :
    (∃ fuel, cfg.findCap dev id fuel = some 0#8) ↔ cfg.LooseMisses dev id ∨ cfg.looseId dev 0#8 = id := by
  have hfirst : cfg.LooseFirst dev id 0#8 ↔ cfg.looseId dev 0#8 = id := by
    constructor
    · intro h
      exact h.hit_found
    · intro h
      rw [LooseFirst, hhead]
      exact First.here h
  rw [findCap_some_iff, hfirst]
  constructor
  · intro h
    cases h with
    | inl h => exact Or.inr h
    | inr h => exact Or.inl h.2
  · intro h
    cases h with
    | inl h => exact Or.inr ⟨rfl, h⟩
    | inr h => exact Or.inl h

lemma count_ne_none (m : Nat) : (1#32 <<< m).setWidth 8 ≠ 0xff#8 := by
  intro h
  have hnat := congrArg BitVec.toNat h
  rw [BitVec.toNat_setWidth, BitVec.toNat_shiftLeft, Nat.shiftLeft_eq] at hnat
  simp only [BitVec.toNat_ofNat] at hnat
  cases m with
  | zero => exact absurd hnat (by decide)
  | succ m =>
    rw [Nat.pow_succ] at hnat
    omega

/-- Where no list entry has the identifier, the count is 0xff exactly if the search says so. -/
lemma CapabilitiesBit.count_none (h : cfg.CapabilitiesBit dev) :
    (∃ fuel, cfg.pciMsiVecCount dev fuel = some 0xff#8) ↔ ∃ fuel, cfg.findCap dev 5#8 fuel = some 0#8 := by
  rw [h.count]
  constructor
  · intro ⟨r, hr, hn⟩
    by_cases hr0 : r = 0#8
    · exact hr0 ▸ hr
    · rw [if_neg hr0] at hn
      exact absurd hn.symm (count_ne_none _)
  · intro hr
    exact ⟨0#8, hr, rfl⟩

lemma HasMsi.head_ne_zero {c : BitVec 8} (h : cfg.HasMsi dev c) : cfg.headOffset dev ≠ 0#8 :=
  fun h0 => not_hasCap h0 c h.1

lemma HasMsi.exists_first {c : BitVec 8} (h : cfg.HasMsi dev c) (hl : cfg.WellFormedList dev) :
    ∃ r, cfg.FirstCap dev 5#8 r := by
  obtain ⟨⟨a, ha, hc⟩, hid⟩ := h
  have hends : Misses _ (fun c => cfg.byte dev.pciFunc c = 5#8) _ ∨ _ := (hl.ends a ha).misses_or_first
  cases hends with
  | inl hm => exact absurd hid (hm.not_hit hc)
  | inr hf =>
    obtain ⟨r, hr⟩ := hf
    exact ⟨r, a, ha, hr⟩

lemma vecCountRight_of_fourVectors (hbit : cfg.CapabilitiesBit dev) (hl : cfg.WellFormedList dev)
    (h : cfg.FourVectors dev) : cfg.VecCountRight dev := by
  constructor
  · intro c hc
    obtain ⟨r, hr⟩ := hc.exists_first hl
    apply (hbit.count_msi hr hl hc.head_ne_zero).mpr
    exact (count_eq_four (multipleMessages_lt c)).mpr (h.1 c hc)
  · intro hno
    rw [hbit.count_none]
    by_cases hhead : cfg.headOffset dev = 0#8
    · exact (findCap_empty 5#8 hhead).mpr (h.2 hhead)
    · apply (hl.findCap_iff 5#8 hhead).mpr
      exact Or.inr ⟨rfl, fun a ha => hno a ⟨ha.hasCap, ha.byte_eq⟩⟩

lemma fourVectors_of_vecCountRight (hbit : cfg.CapabilitiesBit dev) (hl : cfg.WellFormedList dev)
    (h : cfg.VecCountRight dev) : cfg.FourVectors dev := by
  constructor
  · intro c hc
    obtain ⟨r, hr⟩ := hc.exists_first hl
    exact (count_eq_four (multipleMessages_lt c)).mp ((hbit.count_msi hr hl hc.head_ne_zero).mp (h.1 c hc))
  · intro hhead
    have hnone := h.2 fun c hc => not_hasCap hhead c hc.1
    exact (findCap_empty 5#8 hhead).mp (hbit.count_none.mp hnone)

theorem msiVecCount_iff (hbit : cfg.CapabilitiesBit dev) (hl : cfg.WellFormedList dev) :
    cfg.VecCountRight dev ↔ cfg.FourVectors dev :=
  ⟨fourVectors_of_vecCountRight hbit hl, vecCountRight_of_fourVectors hbit hl⟩

/-- Every function has one capability, at 0x40: MSI with the given Message Control word. -/
def msiDevice (control : BitVec 16) : PciConfig := fun addr =>
  if addr &&& 0xff#32 = 0x34#32 then 0x40#32
  else if addr &&& 0xff#32 = 0x4#32 then 0x100000#32
  else (control.setWidth 32 <<< 16) ||| 5#32

lemma msiDevice_next {control : BitVec 16} (hn : (msiDevice control).byte firstFunc.pciFunc 0x41#8 = 0#8) :
    (msiDevice control).nextCap firstFunc 0x40#8 = none := by
  rw [nextCap, (by decide : 0x40#8 + 1#8 = 0x41#8), hn]
  rfl

lemma msiDevice_only {control : BitVec 16} (hn : (msiDevice control).byte firstFunc.pciFunc 0x41#8 = 0#8)
    (hhead : capPointer ((msiDevice control).byte firstFunc.pciFunc 0x34#8) = some 0x40#8) {a : BitVec 8}
    (ha : (msiDevice control).HasCap firstFunc a) : a = 0x40#8 := by
  obtain ⟨b, hb, ha⟩ := ha
  obtain rfl := Option.some.inj (hb.symm.trans hhead)
  cases ha.cases_head with
  | inl ha => exact ha.symm
  | inr ha =>
    obtain ⟨c, hc, _⟩ := ha
    exact absurd (hc.symm.trans (msiDevice_next hn)) (Option.some_ne_none c)

lemma msiDevice_list {control : BitVec 16} (h : (msiDevice control).byte firstFunc.pciFunc 0x40#8 = 5#8)
    (hn : (msiDevice control).byte firstFunc.pciFunc 0x41#8 = 0#8)
    (hhead : capPointer ((msiDevice control).byte firstFunc.pciFunc 0x34#8) = some 0x40#8) :
    (msiDevice control).WellFormedList firstFunc ∧ (msiDevice control).HasMsi firstFunc 0x40#8 := by
  refine ⟨⟨?_, ?_⟩, ⟨0x40#8, hhead, Relation.ReflTransGen.refl⟩, h⟩
  · intro a ha
    rw [msiDevice_only hn hhead ha, (by decide : 0x40#8 + 1#8 = 0x41#8), hn]
    rfl
  · intro b hb
    obtain rfl := Option.some.inj (hb.symm.trans hhead)
    exact Misses.last not_false (msiDevice_next hn)

theorem fourVectorDevice_counted : (msiDevice 4#16).VecCountRight firstFunc := by
  have hbit : (msiDevice 4#16).CapabilitiesBit firstFunc := rfl
  have hlist := @msiDevice_list 4#16 (by decide) (by decide) (by decide)
  refine (msiVecCount_iff hbit hlist.1).mpr ⟨fun c hc => ?_, fun h0 => ?_⟩
  · rw [msiDevice_only (by decide) (by decide) hc.1]
    decide
  · exact absurd h0 (by decide)

/-- A device with one vector counts as one with four. -/
theorem oneVectorDevice_miscounted : (msiDevice 0#16).CapabilitiesBit firstFunc ∧
    (msiDevice 0#16).WellFormedList firstFunc ∧ ¬ (msiDevice 0#16).VecCountRight firstFunc := by
  have ⟨hl, hmsi⟩ := @msiDevice_list 0#16 (by decide) (by decide) (by decide)
  have hbit : (msiDevice 0#16).CapabilitiesBit firstFunc := rfl
  refine ⟨hbit, hl, ?_⟩
  intro h
  have hfour := (fourVectors_of_vecCountRight hbit hl h).1 0x40#8 hmsi
  exact absurd hfour (by decide)

end MsiCount

end PciConfig

end HaiirOS
