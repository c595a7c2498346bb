import HaiirOS.Lib.DepthFirst
import HaiirOS.Pci.Space
import Mathlib.Data.Finite.Prod
import Mathlib.Data.Set.Card

/-!
# The walk over the PCI buses

`init_pci` is a depth-first walk without a visited set: the items of a bus are its present
functions, and a PCI-to-PCI bridge is a link to its secondary bus. The bytes that the walk
decodes are stated here by their offsets in the configuration space of a function.
-/

namespace HaiirOS

open DepthFirst

namespace PciConfig

variable (cfg : PciConfig)

/-- The function responds with a vendor word. -/
def Present (f : PciFunc) : Prop := cfg.byte f 0#8 ≠ 0xff#8 ∨ cfg.byte f 1#8 ≠ 0xff#8

/-- The function is a PCI-to-PCI bridge. -/
def IsBridge (f : PciFunc) : Prop := cfg.byte f 0xb#8 = 6#8 ∧ cfg.byte f 0xa#8 = 4#8

instance (f : PciFunc) : Decidable (cfg.Present f) := inferInstanceAs (Decidable (_ ∨ _))

instance (f : PciFunc) : Decidable (cfg.IsBridge f) := inferInstanceAs (Decidable (_ ∧ _))

def secondaryBus (f : PciFunc) : BitVec 8 := cfg.byte f 0x19#8

/-- The entry of a function in `pci_devs`. -/
def device (f : PciFunc) : PciDev :=
  ⟨f.bus, f.slot, f.func, cfg.byte f 0xb#8, cfg.byte f 0xa#8, cfg.byte f 0x9#8⟩

/-- The functions that a bus can have, in the order of the walk. -/
def busFuncs (bus : BitVec 8) : List PciFunc :=
  (List.range pciMaxDevs).flatMap fun dev =>
    (List.range pciMaxFuncs).map fun func => ⟨bus, BitVec.ofNat 8 dev, BitVec.ofNat 8 func⟩

/-- The present functions of a bus. -/
def functions (bus : BitVec 8) : List PciFunc := (busFuncs bus).filter fun f => decide (cfg.Present f)

/-- A bridge leads to its secondary bus, every other function to its entry. -/
def classify (f : PciFunc) : PciDev ⊕ BitVec 8 :=
  if cfg.IsBridge f then .inr (cfg.secondaryBus f) else .inl (cfg.device f)

/-- The function that the header type is read from. -/
def host : PciFunc := ⟨0#8, 0#8, 0#8⟩

/-- Bit 7 of a header type says that there are eight root buses. -/
def rootBuses (headerType : BitVec 8) : List (BitVec 8) :=
  if headerType.getLsbD 7 then (List.range pciMaxFuncs).map (BitVec.ofNat 8) else [0#8]

/-- Some present bridge of the bus has `b` as its secondary bus. -/
def Bridged (bus b : BitVec 8) : Prop := ∃ f ∈ cfg.functions bus, cfg.IsBridge f ∧ cfg.secondaryBus f = b

section Bytes

lemma word_eq_iff (w : BitVec 16) : w &&& 0xffff#16 = 0xffff#16 ↔
    (w &&& 0xff#16).setWidth 8 = 0xff#8 ∧ (w >>> 8 &&& 0xff#16).setWidth 8 = 0xff#8 := by
  constructor
  · intro h
    have hw : w = 0xffff#16 := by
      rw [← h]
      exact (BitVec.and_allOnes (x := w)).symm
    subst hw
    decide
  · intro ⟨hl, hh⟩
    have hlow : w.toNat % 256 = 255 := by
      have h := congrArg BitVec.toNat hl
      have hmask : w.toNat % 256 &&& 255 = w.toNat % 256 % 256 := Nat.and_two_pow_sub_one_eq_mod _ 8
      simp [hmask] at h
      exact h
    have hhigh : w.toNat / 256 % 256 = 255 := by
      have h := congrArg BitVec.toNat hh
      have hmask : w.toNat / 256 % 256 &&& 255 = w.toNat / 256 % 256 % 256 := Nat.and_two_pow_sub_one_eq_mod _ 8
      simp [Nat.shiftRight_eq_div_pow, hmask] at h
      exact h
    have hw : w = 0xffff#16 := BitVec.eq_of_toNat_eq (by have := w.isLt; simp only [BitVec.toNat_ofNat]; omega)
    subst hw
    decide

lemma readw_vendor (f : PciFunc) :
    cfg.pciReadw f.bus f.slot f.func 0#8 &&& 0xffff#16 ≠ 0xffff#16 ↔ cfg.Present f := by
  have hl := cfg.readw_low f (o := 0#8) (p := 0#8) rfl rfl
  have hh := cfg.readw_high f (o := 0#8) (p := 1#8) rfl rfl
  rw [ne_eq, word_eq_iff, hl, hh, Present, not_and_or]

end Bytes

section Walk

/-- `check_func` adds the entry of a function, or walks the bus behind a bridge. -/
lemma checkFunc_eq (f : PciFunc) (checkBus : BitVec 8 → List PciDev → Option (List PciDev)) (devs : List PciDev) :
    cfg.checkFunc checkBus f.bus f.slot f.func devs = match cfg.classify f with
      | .inl d => some (devs ++ [d])
      | .inr b => checkBus b devs := by
  have hbase := cfg.readw_high f (o := 0xa#8) (p := 0xb#8) rfl rfl
  have hsub := cfg.readw_low f (o := 0xa#8) (p := 0xa#8) rfl rfl
  have hprog := cfg.readw_high f (o := 0x8#8) (p := 0x9#8) rfl rfl
  have hsec := cfg.readw_high f (o := 0x18#8) (p := 0x19#8) rfl rfl
  unfold checkFunc classify
  simp only [hbase, hsub, hprog, hsec]
  by_cases h : cfg.IsBridge f
  · rw [if_pos h]
    exact if_pos h
  · rw [if_neg h]
    exact if_neg h

lemma foldlM_flatMap {α β γ : Type} (g : γ → β → Option γ) (f : α → List β) (l : List α) (c : γ) :
    (l.flatMap f).foldlM g c = l.foldlM (fun c a => (f a).foldlM g c) c := by
  induction l generalizing c with
  | nil => rfl
  | cons a l ih =>
    rw [List.flatMap_cons, List.foldlM_append, List.foldlM_cons]
    simp only [ih]

/-- `check_bus` is the depth-first walk. -/
theorem checkBus_eq (fuel : Nat) (bus : BitVec 8) (devs : List PciDev) :
    cfg.checkBus fuel bus devs = visit cfg.functions cfg.classify fuel bus devs := by
  induction fuel generalizing bus devs with
  | zero => rfl
  | succ fuel ih =>
    have hfun : cfg.checkBus fuel = visit cfg.functions cfg.classify fuel := by
      funext bus devs
      exact ih bus devs
    rw [checkBus, visit, functions, busFuncs, List.foldlM_filter, foldlM_flatMap]
    congr 1
    funext devs dev
    rw [List.foldlM_map]
    congr 1
    funext devs func
    have hv := cfg.readw_vendor ⟨bus, BitVec.ofNat 8 dev, BitVec.ofNat 8 func⟩
    have hf := cfg.checkFunc_eq ⟨bus, BitVec.ofNat 8 dev, BitVec.ofNat 8 func⟩ (cfg.checkBus fuel) devs
    simp only [hfun] at hv hf
    by_cases h : cfg.Present ⟨bus, BitVec.ofNat 8 dev, BitVec.ofNat 8 func⟩
    · simp only [hv, h, hf, hfun, decide_true, if_true]
      cases cfg.classify ⟨bus, BitVec.ofNat 8 dev, BitVec.ofNat 8 func⟩ <;> rfl
    · simp only [hv, h, decide_false, if_false]
      rfl

/-- The buses that the walk starts from. -/
def walkedBuses : List (BitVec 8) := rootBuses (cfg.byte host 0xc#8)

/-- `init_pci` walks from the root buses that bit 7 of the byte at 0xc selects. -/
theorem initPci_eq (fuel : Nat) :
    cfg.initPci fuel = visitAll cfg.functions cfg.classify fuel cfg.walkedBuses [] := by
  have hbyte : (cfg.pciReadw 0#8 0#8 0#8 0xc#8 &&& 0xff#16).setWidth 8 = cfg.byte host 0xc#8 :=
    cfg.readw_low host rfl rfl
  have hbit : cfg.pciReadw 0#8 0#8 0#8 0xc#8 &&& 0x80#16 = 0#16 ↔ ¬ (cfg.byte host 0xc#8).getLsbD 7 := by
    rw [← hbyte]
    generalize cfg.pciReadw _ _ _ _ = w
    constructor
    · intro h
      have h7 := congrArg (fun x => BitVec.getLsbD x 7) h
      simpa using h7
    · intro h
      have h7 : w.getLsbD 7 = false := by simpa using h
      apply BitVec.eq_of_getLsbD_eq
      intro i hi
      have hmask : (0x80#16).getLsbD i = decide (i = 7) := by interval_cases i <;> rfl
      rw [BitVec.getLsbD_and, hmask]
      by_cases hi : i = 7
      · rw [hi, h7]
        rfl
      · simp [hi]
  unfold initPci visitAll walkedBuses rootBuses
  by_cases h : (cfg.byte host 0xc#8).getLsbD 7
  · rw [if_pos h, if_neg (mt hbit.mp (not_not.mpr h)), List.foldlM_map]
    simp only [checkBus_eq]
  · rw [if_neg h, if_pos (hbit.mpr h), checkBus_eq, List.foldlM_cons]
    exact (Option.bind_fun_some _).symm

end Walk

section Graph

lemma mem_busFuncs {bus : BitVec 8} {f : PciFunc} (h : f ∈ busFuncs bus) : f.bus = bus := by
  obtain ⟨dev, -, hf⟩ := List.mem_flatMap.mp h
  obtain ⟨func, -, rfl⟩ := List.mem_map.mp hf
  rfl

lemma nodup_busFuncs (bus : BitVec 8) : (busFuncs bus).Nodup := by
  unfold busFuncs
  rw [List.nodup_flatMap]
  have hinj {a b : Nat} (ha : a < 32) (hb : b < 32) (h : BitVec.ofNat 8 a = BitVec.ofNat 8 b) : a = b := by
    have hnat := congrArg BitVec.toNat h
    simp only [BitVec.toNat_ofNat] at hnat
    omega
  constructor
  · intro dev _
    apply List.Nodup.map_on _ List.nodup_range
    intro a ha b hb h
    have ha := List.mem_range.mp ha
    have hb := List.mem_range.mp hb
    unfold pciMaxFuncs at ha hb
    exact hinj (by omega) (by omega) (congrArg PciFunc.func h)
  · refine List.nodup_range.imp_of_mem fun {a b} ha hb hab => ?_
    have ha := List.mem_range.mp ha
    have hb := List.mem_range.mp hb
    unfold pciMaxDevs at ha hb
    intro f hfa hfb
    obtain ⟨i, -, rfl⟩ := List.mem_map.mp hfa
    obtain ⟨j, -, h⟩ := List.mem_map.mp hfb
    exact hab (hinj ha hb (congrArg PciFunc.slot h).symm)

lemma functions_nodup (bus : BitVec 8) : (cfg.functions bus).Nodup := (nodup_busFuncs bus).filter _

lemma functions_disjoint (a b : BitVec 8) (f : PciFunc) (ha : f ∈ cfg.functions a) (hb : f ∈ cfg.functions b) :
    a = b := by
  have ha := mem_busFuncs (List.mem_filter.mp ha).1
  have hb := mem_busFuncs (List.mem_filter.mp hb).1
  exact ha.symm.trans hb

lemma classify_inl {f : PciFunc} {d : PciDev} : cfg.classify f = .inl d ↔ ¬ cfg.IsBridge f ∧ cfg.device f = d := by
  unfold classify
  by_cases h : cfg.IsBridge f
  · simp [h]
  · simp [h]

lemma classify_inr {f : PciFunc} {b : BitVec 8} :
    cfg.classify f = .inr b ↔ cfg.IsBridge f ∧ cfg.secondaryBus f = b := by
  unfold classify
  by_cases h : cfg.IsBridge f
  · simp [h]
  · simp [h]

lemma device_injective : Function.Injective cfg.device := by
  intro f g h
  have hbus := congrArg PciDev.bus h
  have hslot := congrArg PciDev.slot h
  have hfunc := congrArg PciDev.func h
  cases f
  cases g
  simp only [device] at hbus hslot hfunc
  rw [hbus, hslot, hfunc]

lemma link_eq : Link cfg.functions cfg.classify = cfg.Bridged := by
  funext a b
  simp only [Link, Bridged, classify_inr]

lemma rootBuses_nodup (headerType : BitVec 8) : (rootBuses headerType).Nodup := by
  unfold rootBuses
  cases headerType.getLsbD 7 <;> decide

end Graph

section Bound

lemma finite_bus : Finite (BitVec 8) := Finite.of_injective BitVec.toFin fun _ _ => BitVec.toFin_inj.mp

/-- A chain of bridges from the bus and, at its end, a function that is not a bridge. -/
def DevicePath (bus : BitVec 8) (p : List PciFunc) : Prop := ∃ d, IsPath cfg.functions cfg.classify bus p d

/-- No cycle of bridges can be reached from the bus. -/
def Acyclic (bus : BitVec 8) : Prop :=
  ∀ b, Relation.ReflTransGen cfg.Bridged bus b → ¬ Relation.TransGen cfg.Bridged b b

lemma exists_bounded (roots : List (BitVec 8)) : (∀ r ∈ roots, cfg.Acyclic r) ↔
    ∃ fuel, ∀ r ∈ roots, Bounded cfg.functions cfg.classify fuel r := by
  have := finite_bus
  rw [exists_bounded_all_iff]
  apply forall₂_congr
  intro r _
  rw [acc_iff_no_cycle, link_eq]
  rfl

/-- With enough fuel `pci_devs` holds one entry for each path. -/
lemma initPci_paths {fuel : Nat} (h : ∀ r ∈ cfg.walkedBuses, Bounded cfg.functions cfg.classify fuel r) :
    cfg.initPci fuel = some ((pathsAll cfg.functions cfg.classify fuel cfg.walkedBuses).map Prod.snd) := by
  rw [initPci_eq, visitAll_eq h, List.nil_append]

lemma encard_paths {roots : List (BitVec 8)} (hroots : roots.Nodup) {fuel : Nat}
    (h : ∀ r ∈ roots, Bounded cfg.functions cfg.classify fuel r) :
    {p | ∃ r ∈ roots, cfg.DevicePath r p}.encard = (pathsAll cfg.functions cfg.classify fuel roots).length := by
  have hset : {p | ∃ r ∈ roots, cfg.DevicePath r p} =
      ((pathsAll cfg.functions cfg.classify fuel roots).map Prod.fst).toFinset := by
    ext p
    simp only [Set.mem_ofPred_eq, DevicePath, List.coe_toFinset, List.mem_map, Prod.exists, mem_pathsAll h]
    constructor
    · rintro ⟨r, hr, d, hp⟩
      exact ⟨p, d, ⟨r, hr, hp⟩, rfl⟩
    · rintro ⟨q, d, ⟨r, hr, hq⟩, rfl⟩
      exact ⟨r, hr, d, hq⟩
  have hnodup := nodup_pathsAll cfg.functions_nodup cfg.functions_disjoint hroots h
  rw [hset, Set.encard_coe_eq_coe_finsetCard, List.toFinset_card_of_nodup hnodup, List.length_map]

/-- `init_pci` terminates within `pci_devs` exactly if no cycle of bridges can be reached from the
buses that it starts from, and at most `MAX_PCI_DEVICES` paths lead from them to functions that
are not bridges. -/
theorem initPci_bounded_iff : (∃ fuel devs, cfg.initPci fuel = some devs ∧ devs.length ≤ maxPciDevices) ↔
    (∀ r ∈ cfg.walkedBuses, cfg.Acyclic r) ∧
    {p | ∃ r ∈ cfg.walkedBuses, cfg.DevicePath r p}.encard ≤ maxPciDevices := by
  have hroots : cfg.walkedBuses.Nodup := rootBuses_nodup _
  constructor
  · rintro ⟨fuel, devs, hrun, hlen⟩
    have hb := bounded_of_visitAll ((cfg.initPci_eq fuel).symm.trans hrun)
    obtain rfl := Option.some.inj ((cfg.initPci_paths hb).symm.trans hrun)
    rw [List.length_map] at hlen
    refine ⟨(cfg.exists_bounded _).mpr ⟨fuel, hb⟩, ?_⟩
    rw [cfg.encard_paths hroots hb]
    exact Nat.cast_le.mpr hlen
  · rintro ⟨hacyclic, hcard⟩
    obtain ⟨fuel, hb⟩ := (cfg.exists_bounded _).mp hacyclic
    refine ⟨fuel, _, cfg.initPci_paths hb, ?_⟩
    rw [cfg.encard_paths hroots hb] at hcard
    rw [List.length_map]
    exact Nat.cast_le.mp hcard

/-- A bridge on bus 0 whose secondary bus was never configured, and no other function. -/
def unconfiguredBridge : PciConfig := fun addr =>
  if addr = 0x80000000#32 then 0x12345678#32 else if addr = 0x80000008#32 then 0x06040000#32
  else if addr = 0x80000018#32 then 0#32 else if addr = 0x8000000c#32 then 0#32 else 0xffffffff#32

/-- The walk from an unconfigured bridge on bus 0 does not end. -/
theorem unconfiguredBridge_runs_forever : ¬ ∃ fuel devs, unconfiguredBridge.initPci fuel = some devs := by
  rintro ⟨fuel, devs, hrun⟩
  have hlink : unconfiguredBridge.Bridged 0#8 0#8 := ⟨host, by decide +kernel, by decide, by decide⟩
  have hwalk : 0#8 ∈ unconfiguredBridge.walkedBuses := by decide
  have hb := bounded_of_visitAll ((initPci_eq _ fuel).symm.trans hrun)
  have hacyclic := (exists_bounded _ _).mpr ⟨fuel, hb⟩ 0#8 hwalk
  exact hacyclic 0#8 .refl (.single hlink)

end Bound

section Tree

/-- The root buses that the header type byte at 0xe of the host function selects. -/
def hostBuses : List (BitVec 8) := rootBuses (cfg.byte host 0xe#8)

/-- A function that a chain of bridges from one of the buses leads to. -/
def Reachable (roots : List (BitVec 8)) (f : PciFunc) : Prop :=
  ∃ r ∈ roots, ∃ b, Relation.ReflTransGen cfg.Bridged r b ∧ f ∈ cfg.functions b

/-- The buses form trees below the root buses. -/
structure Tree : Prop where
  /-- No two bridges have the same secondary bus. -/
  one_bridge : ∀ a b f g, f ∈ cfg.functions a → g ∈ cfg.functions b → cfg.IsBridge f → cfg.IsBridge g →
    cfg.secondaryBus f = cfg.secondaryBus g → f = g
  not_root : ∀ b f, f ∈ cfg.functions b → cfg.IsBridge f → cfg.secondaryBus f ∉ cfg.hostBuses
  acyclic : ∀ b, ¬ Relation.TransGen cfg.Bridged b b

/-- `pci_devs` holds the entries of the reachable functions that are not bridges, each once. -/
def Enumerated : Prop :=
  ∃ fuel devs, cfg.initPci fuel = some devs ∧ devs.length ≤ maxPciDevices ∧ devs.Nodup ∧
    ∀ d, d ∈ devs ↔ ∃ f, cfg.Reachable cfg.hostBuses f ∧ ¬ cfg.IsBridge f ∧ d = cfg.device f

/-- The buses that are root buses only for a host function with several functions. -/
def otherRoots : List (BitVec 8) := [1#8, 2#8, 3#8, 4#8, 5#8, 6#8, 7#8]

lemma rootBuses_eq (headerType : BitVec 8) :
    rootBuses headerType = if headerType.getLsbD 7 then 0#8 :: otherRoots else [0#8] := rfl

lemma bounded_rootBuses (h : cfg.Tree) :
    ∃ fuel, ∀ headerType, ∀ r ∈ rootBuses headerType, Bounded cfg.functions cfg.classify fuel r := by
  obtain ⟨fuel, hb⟩ := (cfg.exists_bounded (0#8 :: otherRoots)).mp fun _ _ b _ => h.acyclic b
  refine ⟨fuel, fun headerType r hr => hb r ?_⟩
  rw [rootBuses_eq] at hr
  split at hr
  · exact hr
  · exact List.mem_cons.mpr (.inl (List.mem_singleton.mp hr))

lemma exists_path {bus : BitVec 8} {d : PciDev} : (∃ p, IsPath cfg.functions cfg.classify bus p d) ↔
    ∃ f, cfg.Reachable [bus] f ∧ ¬ cfg.IsBridge f ∧ d = cfg.device f := by
  rw [exists_path_iff, link_eq]
  constructor
  · rintro ⟨b, hb, f, hf, hc⟩
    obtain ⟨hbridge, hd⟩ := cfg.classify_inl.mp hc
    exact ⟨f, ⟨bus, List.mem_singleton_self bus, b, hb, hf⟩, hbridge, hd.symm⟩
  · rintro ⟨f, ⟨r, hr, b, hb, hf⟩, hbridge, hd⟩
    obtain rfl := List.mem_singleton.mp hr
    exact ⟨b, hb, f, hf, cfg.classify_inl.mpr ⟨hbridge, hd.symm⟩⟩

lemma reachable_iff {roots : List (BitVec 8)} {f : PciFunc} :
    cfg.Reachable roots f ↔ ∃ r ∈ roots, cfg.Reachable [r] f := by
  simp only [Reachable, List.mem_singleton, exists_eq_left]

/-- The entries that a walk adds are those of the reachable functions that are not bridges. -/
lemma mem_outputs {roots : List (BitVec 8)} {fuel : Nat}
    (h : ∀ r ∈ roots, Bounded cfg.functions cfg.classify fuel r) {d : PciDev} :
    d ∈ (pathsAll cfg.functions cfg.classify fuel roots).map Prod.snd ↔
      ∃ f, cfg.Reachable roots f ∧ ¬ cfg.IsBridge f ∧ d = cfg.device f := by
  have hpath : d ∈ (pathsAll cfg.functions cfg.classify fuel roots).map Prod.snd ↔
      ∃ r ∈ roots, ∃ p, IsPath cfg.functions cfg.classify r p d := by
    constructor
    · intro hd
      obtain ⟨⟨p, e⟩, hp, rfl⟩ := List.mem_map.mp hd
      obtain ⟨r, hr, hpath⟩ := (mem_pathsAll h).mp hp
      exact ⟨r, hr, p, hpath⟩
    · rintro ⟨r, hr, p, hp⟩
      exact List.mem_map.mpr ⟨(p, d), (mem_pathsAll h).mpr ⟨r, hr, hp⟩, rfl⟩
  rw [hpath]
  simp only [exists_path]
  constructor
  · rintro ⟨r, hr, f, hf, hd⟩
    exact ⟨f, cfg.reachable_iff.mpr ⟨r, hr, hf⟩, hd⟩
  · rintro ⟨f, hf, hd⟩
    obtain ⟨r, hr, hf⟩ := cfg.reachable_iff.mp hf
    exact ⟨r, hr, f, hf, hd⟩

/-- In a tree one path from the root buses leads to each entry. -/
lemma path_unique (h : cfg.Tree) {a b : BitVec 8} {p q : List PciFunc} {d : PciDev} (ha : a ∈ cfg.hostBuses)
    (hb : b ∈ cfg.hostBuses) (hp : IsPath cfg.functions cfg.classify a p d)
    (hq : IsPath cfg.functions cfg.classify b q d) : p = q := by
  apply IsPath.unique cfg.functions_disjoint _ _ _ ha hb hp hq
  · intro n f c hf hc
    obtain ⟨hbridge, rfl⟩ := cfg.classify_inr.mp hc
    exact h.not_root n f hf hbridge
  · intro m n f g c hf hg hfc hgc
    obtain ⟨hfb, hfs⟩ := cfg.classify_inr.mp hfc
    obtain ⟨hgb, hgs⟩ := cfg.classify_inr.mp hgc
    exact h.one_bridge m n f g hf hg hfb hgb (hfs.trans hgs.symm)
  · intro f g d hf hg
    have hf := (cfg.classify_inl.mp hf).2
    have hg := (cfg.classify_inl.mp hg).2
    exact cfg.device_injective (hf.trans hg.symm)

lemma path_start {a b : BitVec 8} {p : List PciFunc} {d e : PciDev} (ha : IsPath cfg.functions cfg.classify a p d)
    (hb : IsPath cfg.functions cfg.classify b p e) : a = b := by
  obtain ⟨f, q, rfl, hf⟩ := ha.exists_cons
  obtain ⟨g, r, heq, hg⟩ := hb.exists_cons
  obtain ⟨rfl, -⟩ := List.cons.inj heq
  exact cfg.functions_disjoint a b f hf hg

lemma nodup_outputs (h : cfg.Tree) {fuel : Nat}
    (hb : ∀ r ∈ cfg.hostBuses, Bounded cfg.functions cfg.classify fuel r) :
    ((pathsAll cfg.functions cfg.classify fuel cfg.hostBuses).map Prod.snd).Nodup := by
  have hnodup := nodup_pathsAll cfg.functions_nodup cfg.functions_disjoint (rootBuses_nodup _) hb
  apply List.Nodup.map_on _ (List.Nodup.of_map _ hnodup)
  rintro ⟨p, d⟩ hp ⟨q, e⟩ hq hde
  obtain rfl : d = e := hde
  obtain ⟨a, ha, hp⟩ := (mem_pathsAll hb).mp hp
  obtain ⟨b, hb, hq⟩ := (mem_pathsAll hb).mp hq
  rw [cfg.path_unique h ha hb hp hq]

lemma length_outputs (h : cfg.Tree) (hfew : {f | cfg.Reachable cfg.hostBuses f}.encard ≤ maxPciDevices) {fuel : Nat}
    (hb : ∀ r ∈ cfg.hostBuses, Bounded cfg.functions cfg.classify fuel r) :
    ((pathsAll cfg.functions cfg.classify fuel cfg.hostBuses).map Prod.snd).length ≤ maxPciDevices := by
  have hnodup := cfg.nodup_outputs h hb
  have hmem (d : PciDev) := cfg.mem_outputs hb (d := d)
  generalize (pathsAll cfg.functions cfg.classify fuel cfg.hostBuses).map Prod.snd = devs at hnodup hmem
  have hsub : (devs.toFinset : Set PciDev) ⊆ cfg.device '' {f | cfg.Reachable cfg.hostBuses f} := by
    intro d hd
    obtain ⟨f, hf, -, rfl⟩ := (hmem d).mp (List.mem_toFinset.mp hd)
    exact ⟨f, hf, rfl⟩
  have hcard := (Set.encard_le_encard hsub).trans ((Set.encard_image_le _ _).trans hfew)
  rw [Set.encard_coe_eq_coe_finsetCard, List.toFinset_card_of_nodup hnodup] at hcard
  exact Nat.cast_le.mp hcard

/-- Where no function behind the other root buses has an entry, they make no difference. -/
lemma outputs_rootBuses (hother : ∀ f, cfg.Reachable otherRoots f → cfg.IsBridge f) {fuel : Nat}
    (hb : ∀ headerType, ∀ r ∈ rootBuses headerType, Bounded cfg.functions cfg.classify fuel r)
    (headerType : BitVec 8) :
    pathsAll cfg.functions cfg.classify fuel (rootBuses headerType) = pathsAll cfg.functions cfg.classify fuel [0#8] := by
  have hbo : ∀ r ∈ otherRoots, Bounded cfg.functions cfg.classify fuel r :=
    fun r hr => hb 0x80#8 r (List.mem_cons_of_mem _ hr)
  have hnone : pathsAll cfg.functions cfg.classify fuel otherRoots = [] := by
    apply List.eq_nil_iff_forall_not_mem.mpr
    rintro ⟨p, d⟩ hp
    obtain ⟨f, hf, hbridge, -⟩ := (cfg.mem_outputs hbo).mp (List.mem_map.mpr ⟨(p, d), hp, rfl⟩)
    exact hbridge (hother f hf)
  rw [rootBuses_eq]
  split
  · rw [pathsAll, List.flatMap_cons, ← pathsAll, hnone]
    simp [pathsAll]
  · rfl

/-- In a tree of buses `init_pci` lists the functions as it should exactly if the byte at 0xc that it
reads has the bit of the header type, or the bit makes no difference. -/
theorem enumerated_iff (h : cfg.Tree) (hfew : {f | cfg.Reachable cfg.hostBuses f}.encard ≤ maxPciDevices) :
    cfg.Enumerated ↔ (cfg.byte host 0xc#8).getLsbD 7 = (cfg.byte host 0xe#8).getLsbD 7 ∨
      ∀ f, cfg.Reachable otherRoots f → cfg.IsBridge f := by
  constructor
  · rintro ⟨fuel, devs, hrun, -, hnodup, hmem⟩
    by_contra hcond
    obtain ⟨hbits, hother⟩ := not_or.mp hcond
    push Not at hother
    obtain ⟨f, hf, hbridge⟩ := hother
    obtain ⟨r, hr, hfr⟩ := cfg.reachable_iff.mp hf
    obtain ⟨p, hp⟩ := cfg.exists_path.mpr ⟨f, hfr, hbridge, rfl⟩
    have hb := bounded_of_visitAll ((cfg.initPci_eq fuel).symm.trans hrun)
    obtain rfl := Option.some.inj ((cfg.initPci_paths hb).symm.trans hrun)
    -- a path from bus 0 to the same entry would be the same path
    have hzero : ∃ q, IsPath cfg.functions cfg.classify 0#8 q (cfg.device f) ∧ p = q := by
      cases hc : (cfg.byte host 0xc#8).getLsbD 7 with
      | true =>
        have hwalked : cfg.walkedBuses = 0#8 :: otherRoots := by rw [walkedBuses, rootBuses_eq, if_pos hc]
        have hhost : cfg.hostBuses = [0#8] := by
          rw [hostBuses, rootBuses_eq, if_neg fun he => hbits (hc.trans he.symm)]
        have hr : r ∈ cfg.walkedBuses := hwalked ▸ List.mem_cons_of_mem _ hr
        have hd := (cfg.mem_outputs hb).mpr ⟨f, cfg.reachable_iff.mpr ⟨r, hr, hfr⟩, hbridge, rfl⟩
        obtain ⟨g, hg, -, hfg⟩ := (hmem _).mp hd
        obtain rfl := cfg.device_injective hfg
        rw [hhost] at hg
        obtain ⟨q, hq⟩ := cfg.exists_path.mpr ⟨f, hg, hbridge, rfl⟩
        have hp' := (mem_pathsAll hb).mpr ⟨r, hr, hp⟩
        have hq' := (mem_pathsAll hb).mpr ⟨0#8, hwalked ▸ List.mem_cons_self, hq⟩
        exact ⟨q, hq, congrArg Prod.fst (List.inj_on_of_nodup_map hnodup hp' hq' rfl)⟩
      | false =>
        have hwalked : cfg.walkedBuses = [0#8] := by rw [walkedBuses, rootBuses_eq, if_neg (Bool.eq_false_iff.mp hc)]
        have hhost : cfg.hostBuses = 0#8 :: otherRoots := by
          rw [hc] at hbits
          rw [hostBuses, rootBuses_eq, if_pos (Bool.eq_true_of_not_eq_false (Ne.symm hbits))]
        have hr : r ∈ cfg.hostBuses := hhost ▸ List.mem_cons_of_mem _ hr
        have hd := (hmem _).mpr ⟨f, cfg.reachable_iff.mpr ⟨r, hr, hfr⟩, hbridge, rfl⟩
        obtain ⟨g, hg, -, hfg⟩ := (cfg.mem_outputs hb).mp hd
        obtain rfl := cfg.device_injective hfg
        rw [hwalked] at hg
        obtain ⟨q, hq⟩ := cfg.exists_path.mpr ⟨f, hg, hbridge, rfl⟩
        exact ⟨q, hq, cfg.path_unique h hr (hhost ▸ List.mem_cons_self) hp hq⟩
    obtain ⟨q, hq, rfl⟩ := hzero
    obtain rfl := cfg.path_start hp hq
    exact absurd hr (by decide)
  · intro hcond
    obtain ⟨fuel, hb⟩ := cfg.bounded_rootBuses h
    have hsame : pathsAll cfg.functions cfg.classify fuel cfg.walkedBuses =
        pathsAll cfg.functions cfg.classify fuel cfg.hostBuses := by
      rcases hcond with hbits | hother
      · rw [walkedBuses, hostBuses, rootBuses_eq, rootBuses_eq, hbits]
      · rw [walkedBuses, hostBuses, cfg.outputs_rootBuses hother hb, cfg.outputs_rootBuses hother hb]
    have hrun := cfg.initPci_paths (hb (cfg.byte host 0xc#8))
    rw [hsame] at hrun
    have hhost : ∀ r ∈ cfg.hostBuses, Bounded cfg.functions cfg.classify fuel r := hb (cfg.byte host 0xe#8)
    exact ⟨fuel, _, hrun, cfg.length_outputs h hfew hhost, cfg.nodup_outputs h hhost, fun d => cfg.mem_outputs hhost⟩

/-- A host function with eight root buses and the given cache line size, and a disk controller on bus 1. -/
def diskOnBusOne (cacheLine : BitVec 8) : PciConfig := fun addr =>
  if addr = 0x80000000#32 then 0x12378086#32 else if addr = 0x80000008#32 then 0x06000000#32
  else if addr = 0x8000000c#32 then 0x00800000#32 ||| cacheLine.setWidth 32
  else if addr = 0x80010000#32 then 0x29228086#32 else if addr = 0x80010008#32 then 0x01060100#32
  else 0xffffffff#32

lemma diskOnBusOne_not_bridge (cacheLine : BitVec 8) (f : PciFunc) : ¬ (diskOnBusOne cacheLine).IsBridge f := by
  have hline : ∀ c : BitVec 8, ((0x00800000#32 ||| c.setWidth 32) >>> 24).setWidth 8 ≠ 6#8 := by decide +kernel
  intro h
  have hclass := h.1
  have hsub := h.2
  unfold byte diskOnBusOne at hclass hsub
  simp only at hclass hsub
  generalize f.bus.setWidth 32 <<< 16 ||| f.slot.setWidth 32 <<< 11 ||| f.func.setWidth 32 <<< 8 ||| 1#32 <<< 31 = a
    at hclass hsub
  have haddr : 0xb#8 &&& 0xfc#8 = 0xa#8 &&& 0xfc#8 := rfl
  rw [haddr] at hclass
  split_ifs at hclass hsub
  all_goals first | exact hline cacheLine hclass | revert hclass; decide | revert hsub; decide

lemma diskOnBusOne_reachable (cacheLine : BitVec 8) {roots : List (BitVec 8)} {f : PciFunc}
    (h : (diskOnBusOne cacheLine).Reachable roots f) : ∃ r ∈ roots, f ∈ (diskOnBusOne cacheLine).functions r := by
  obtain ⟨r, hr, b, hb, hf⟩ := h
  cases hb using Relation.ReflTransGen.head_induction_on with
  | refl => exact ⟨r, hr, hf⟩
  | head hlink _ =>
    obtain ⟨g, -, hg, -⟩ := hlink
    exact absurd hg (diskOnBusOne_not_bridge cacheLine g)

lemma diskOnBusOne_tree (cacheLine : BitVec 8) : (diskOnBusOne cacheLine).Tree where
  one_bridge _ _ f _ _ _ hf _ _ := absurd hf (diskOnBusOne_not_bridge cacheLine f)
  not_root _ f _ hf := absurd hf (diskOnBusOne_not_bridge cacheLine f)
  acyclic b hb := by
    obtain ⟨c, ⟨g, -, hg, -⟩, -⟩ := Relation.TransGen.head'_iff.mp hb
    exact diskOnBusOne_not_bridge cacheLine g hg

/-- The address of a function's vendor word. -/
def vendorAddr (f : PciFunc) : BitVec 32 :=
  f.bus.setWidth 32 <<< 16 ||| f.slot.setWidth 32 <<< 11 ||| f.func.setWidth 32 <<< 8 ||| 1#32 <<< 31

lemma vendorAddr_low (f : PciFunc) : vendorAddr f &&& 0xff#32 = 0#32 := by
  unfold vendorAddr
  apply BitVec.eq_of_getLsbD_eq
  intro i hi
  by_cases h8 : i < 8
  · have h11 : i < 11 := by omega
    have h16 : i < 16 := by omega
    have h31 : i < 31 := by omega
    have htop : (1#32 <<< 31).getLsbD i = false := by
      rw [BitVec.getLsbD_shiftLeft]
      simp only [h31, decide_true, Bool.not_true, Bool.and_false, Bool.false_and]
    simp only [BitVec.getLsbD_and, BitVec.getLsbD_or, BitVec.getLsbD_shiftLeft, htop, h16, h11, h8, decide_true,
      Bool.not_true, Bool.and_false, Bool.false_and, Bool.or_false, BitVec.getLsbD_zero]
  · have hpow : 2 ^ 8 ≤ 2 ^ i := Nat.pow_le_pow_right (by decide) (by omega)
    have hmask : (0xff#32).getLsbD i = false := Nat.testBit_lt_two_pow (Nat.lt_of_lt_of_le (by decide) hpow)
    rw [BitVec.getLsbD_and, hmask, Bool.and_false, BitVec.getLsbD_zero]

lemma diskOnBusOne_present (cacheLine : BitVec 8) (f : PciFunc) :
    (diskOnBusOne cacheLine).Present f ↔ vendorAddr f = 0x80000000#32 ∨ vendorAddr f = 0x80010000#32 := by
  have hlow := vendorAddr_low f
  have h0 : (0#8 &&& 0xfc#8).setWidth 32 = 0#32 := by decide
  have h1 : (1#8 &&& 0xfc#8).setWidth 32 = 0#32 := by decide
  unfold Present byte diskOnBusOne
  simp only [h0, h1, BitVec.or_zero]
  unfold vendorAddr at hlow ⊢
  generalize f.bus.setWidth 32 <<< 16 ||| f.slot.setWidth 32 <<< 11 ||| f.func.setWidth 32 <<< 8 ||| 1#32 <<< 31 = a
    at hlow ⊢
  have hne {x : BitVec 32} (hx : x &&& 0xff#32 ≠ 0#32) : a ≠ x := by
    rintro rfl
    exact hx hlow
  have hclass : a ≠ 0x80000008#32 := hne (by decide)
  have hline : a ≠ 0x8000000c#32 := hne (by decide)
  have hdisk : a ≠ 0x80010008#32 := hne (by decide)
  rw [if_neg hclass, if_neg hline, if_neg hdisk]
  split_ifs with ha hb
  · exact iff_of_true (.inl (by decide)) (.inl ha)
  · exact iff_of_true (.inl (by decide)) (.inr hb)
  · exact iff_of_false (by decide) (by simp [ha, hb])

lemma diskOnBusOne_count (cacheLine : BitVec 8) :
    ((diskOnBusOne cacheLine).hostBuses.flatMap (diskOnBusOne cacheLine).functions).length ≤ maxPciDevices := by
  have hbyte : ∀ c : BitVec 8, ((0x00800000#32 ||| c.setWidth 32) >>> 16).setWidth 8 = 0x80#8 := by decide +kernel
  have hheader : (diskOnBusOne cacheLine).byte host 0xe#8 = 0x80#8 := hbyte cacheLine
  have hbuses : (diskOnBusOne cacheLine).hostBuses = (List.range pciMaxFuncs).map (BitVec.ofNat 8) := by
    rw [hostBuses, hheader]
    rfl
  have hfunctions (bus : BitVec 8) : (diskOnBusOne cacheLine).functions bus = (busFuncs bus).filter fun f =>
      decide (vendorAddr f = 0x80000000#32 ∨ vendorAddr f = 0x80010000#32) :=
    List.filter_congr fun f _ => decide_eq_decide.mpr (diskOnBusOne_present cacheLine f)
  rw [hbuses, funext hfunctions]
  decide +kernel

lemma diskOnBusOne_few (cacheLine : BitVec 8) :
    {f | (diskOnBusOne cacheLine).Reachable (diskOnBusOne cacheLine).hostBuses f}.encard ≤ maxPciDevices := by
  have hsub : {f | (diskOnBusOne cacheLine).Reachable (diskOnBusOne cacheLine).hostBuses f} ⊆
      (((diskOnBusOne cacheLine).hostBuses.flatMap (diskOnBusOne cacheLine).functions).toFinset : Set PciFunc) := by
    intro f hf
    obtain ⟨r, hr, hf⟩ := diskOnBusOne_reachable cacheLine hf
    exact List.mem_toFinset.mpr (List.mem_flatMap.mpr ⟨r, hr, hf⟩)
  apply (Set.encard_le_encard hsub).trans
  rw [Set.encard_coe_eq_coe_finsetCard]
  exact Nat.cast_le.mpr ((List.toFinset_card_le _).trans (diskOnBusOne_count cacheLine))

theorem diskOnBusOne_enumerated : (diskOnBusOne 0x80#8).Enumerated :=
  (enumerated_iff _ (diskOnBusOne_tree _) (diskOnBusOne_few _)).mpr (.inl (by decide))

/-- With a cache line of sixteen words the disk controller is not found. -/
theorem diskOnBusOne_missed : (diskOnBusOne 0x10#8).Tree ∧
    {f | (diskOnBusOne 0x10#8).Reachable (diskOnBusOne 0x10#8).hostBuses f}.encard ≤ maxPciDevices ∧
    ¬ (diskOnBusOne 0x10#8).Enumerated := by
  refine ⟨diskOnBusOne_tree _, diskOnBusOne_few _, ?_⟩
  rintro ⟨fuel, devs, hrun, -, -, hmem⟩
  have hb := bounded_of_visitAll ((initPci_eq _ fuel).symm.trans hrun)
  obtain rfl := Option.some.inj ((initPci_paths _ hb).symm.trans hrun)
  have hdisk : (⟨1#8, 0#8, 0#8⟩ : PciFunc) ∈ (diskOnBusOne 0x10#8).functions 1#8 := by decide +kernel
  have hreach : (diskOnBusOne 0x10#8).Reachable (diskOnBusOne 0x10#8).hostBuses ⟨1#8, 0#8, 0#8⟩ :=
    ⟨1#8, by decide, 1#8, .refl, hdisk⟩
  have hd := (hmem _).mpr ⟨_, hreach, diskOnBusOne_not_bridge _ _, rfl⟩
  obtain ⟨f, hf, -, hdf⟩ := (mem_outputs _ hb).mp hd
  obtain rfl := device_injective _ hdf
  obtain ⟨r, hr, hf⟩ := diskOnBusOne_reachable _ hf
  obtain rfl := functions_disjoint _ _ _ _ hdisk hf
  exact absurd hr (by decide)

end Tree

end PciConfig

end HaiirOS
