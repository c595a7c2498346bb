import Mathlib.Data.Fintype.Card
import Mathlib.Data.Fintype.EquivFin
import Mathlib.Data.List.Nodup
import Mathlib.Logic.Relation
import Mathlib.Order.WellFounded

/-!
# Depth-first walks without a visited set

A walk lists the items of a node in order; an item is either an output or a link to another
node, whose items are listed in its place. Without a visited set the walk ends exactly if no
cycle can be reached, and its outputs correspond to the paths of links that lead to them.
-/

namespace DepthFirst

variable {ν ι α : Type} {items : ν → List ι} {classify : ι → α ⊕ ν}

/-- The outputs of a walk from a node, after those of `out`; `none` where the fuel runs out. -/
def visit (items : ν → List ι) (classify : ι → α ⊕ ν) : Nat → ν → List α → Option (List α)
  | 0, _, _ => none
  | fuel + 1, n, out => (items n).foldlM (fun out i =>
      match classify i with
      | .inl a => some (out ++ [a])
      | .inr c => visit items classify fuel c out) out

/-- All chains of links from the node are shorter than the fuel. -/
def Bounded (items : ν → List ι) (classify : ι → α ⊕ ν) : Nat → ν → Prop
  | 0, _ => False
  | fuel + 1, n => ∀ i ∈ items n, ∀ c, classify i = .inr c → Bounded items classify fuel c

/-- The paths to the outputs of a walk, each with its output. -/
def paths (items : ν → List ι) (classify : ι → α ⊕ ν) : Nat → ν → List (List ι × α)
  | 0, _ => []
  | fuel + 1, n => (items n).flatMap fun i =>
      match classify i with
      | .inl a => [([i], a)]
      | .inr c => (paths items classify fuel c).map fun q => (i :: q.1, q.2)

/-- A path of links from the node to an output. -/
inductive IsPath (items : ν → List ι) (classify : ι → α ⊕ ν) : ν → List ι → α → Prop where
  | output {n : ν} {i : ι} {a : α} : i ∈ items n → classify i = .inl a → IsPath items classify n [i] a
  | link {n c : ν} {i : ι} {p : List ι} {a : α} : i ∈ items n → classify i = .inr c →
      IsPath items classify c p a → IsPath items classify n (i :: p) a

/-- Some item of `n` is a link to `c`. -/
def Link (items : ν → List ι) (classify : ι → α ⊕ ν) (n c : ν) : Prop := ∃ i ∈ items n, classify i = .inr c

lemma Bounded.mono {fuel fuel' : Nat} {n : ν} (h : Bounded items classify fuel n) (hle : fuel ≤ fuel') :
    Bounded items classify fuel' n := by
  induction fuel generalizing fuel' n with
  | zero => exact h.elim
  | succ fuel ih =>
    obtain ⟨k, rfl⟩ : ∃ k, fuel' = k + 1 := ⟨fuel' - 1, by omega⟩
    intro i hi c hc
    exact ih (h i hi c hc) (by omega)

/-- With enough fuel a walk returns the outputs of its paths. -/
theorem visit_eq {fuel : Nat} {n : ν} (h : Bounded items classify fuel n) (out : List α) :
    visit items classify fuel n out = some (out ++ (paths items classify fuel n).map Prod.snd) := by
  induction fuel generalizing n out with
  | zero => exact h.elim
  | succ fuel ih =>
    rw [visit, paths]
    unfold Bounded at h
    generalize items n = l at h
    induction l generalizing out with
    | nil => simp
    | cons i l ihl =>
      have hi := h i List.mem_cons_self
      have hl (out : List α) := ihl out fun j hj => h j (List.mem_cons_of_mem i hj)
      rw [List.foldlM_cons, List.flatMap_cons]
      cases hc : classify i with
      | inl a =>
        simp only [Option.bind_eq_bind, Option.bind_some, hl]
        simp
      | inr c =>
        simp only [ih (hi c hc), Option.bind_eq_bind, Option.bind_some, hl]
        simp [Function.comp_def]

/-- A walk that returns had enough fuel. -/
theorem bounded_of_visit {fuel : Nat} {n : ν} {out out' : List α}
    (h : visit items classify fuel n out = some out') : Bounded items classify fuel n := by
  induction fuel generalizing n out out' with
  | zero => cases h
  | succ fuel ih =>
    rw [visit] at h
    unfold Bounded
    generalize items n = l at h
    induction l generalizing out with
    | nil => exact fun i hi => absurd hi List.not_mem_nil
    | cons i l ihl =>
      rw [List.foldlM_cons] at h
      obtain ⟨out1, h1, h2⟩ := Option.bind_eq_some_iff.mp h
      intro j hj c hc
      rcases List.mem_cons.mp hj with rfl | hj
      · rw [hc] at h1
        exact ih h1
      · exact ihl h2 j hj c hc

/-- A walk returns exactly if the links from the node are well-founded. -/
theorem exists_bounded_iff {n : ν} :
    (∃ fuel, Bounded items classify fuel n) ↔ Acc (fun c n => Link items classify n c) n := by
  constructor
  · rintro ⟨fuel, h⟩
    induction fuel generalizing n with
    | zero => exact h.elim
    | succ fuel ih =>
      refine ⟨n, fun c hc => ?_⟩
      obtain ⟨i, hi, hc⟩ := hc
      exact ih (h i hi c hc)
  · intro h
    induction h with
    | intro n _ ih =>
      -- enough fuel for each link of the list
      have hall : ∀ l : List ι, (∀ i ∈ l, i ∈ items n) →
          ∃ fuel, ∀ i ∈ l, ∀ c, classify i = .inr c → Bounded items classify fuel c := by
        intro l
        induction l with
        | nil => exact fun _ => ⟨0, fun i hi => absurd hi List.not_mem_nil⟩
        | cons i l ihl =>
          intro hl
          obtain ⟨fuel, hfuel⟩ := ihl fun j hj => hl j (List.mem_cons_of_mem i hj)
          cases hc : classify i with
          | inl a =>
            refine ⟨fuel, fun j hj c hjc => ?_⟩
            rcases List.mem_cons.mp hj with rfl | hj
            · rw [hc] at hjc
              cases hjc
            · exact hfuel j hj c hjc
          | inr d =>
            obtain ⟨fuel', hfuel'⟩ := ih d ⟨i, hl i List.mem_cons_self, hc⟩
            refine ⟨max fuel fuel', fun j hj c hjc => ?_⟩
            rcases List.mem_cons.mp hj with rfl | hj
            · rw [hc] at hjc
              cases hjc
              exact hfuel'.mono (Nat.le_max_right ..)
            · exact (hfuel j hj c hjc).mono (Nat.le_max_left ..)
      obtain ⟨fuel, hfuel⟩ := hall (items n) fun i hi => hi
      exact ⟨fuel + 1, hfuel⟩

/-- In a finite graph the links from a node are well-founded exactly if no cycle can be reached. -/
theorem acc_iff_no_cycle [Finite ν] {n : ν} : Acc (fun c n => Link items classify n c) n ↔
    ∀ b, Relation.ReflTransGen (Link items classify) n b → ¬ Relation.TransGen (Link items classify) b b := by
  constructor
  · intro h b hb hcycle
    have hacc : Acc (fun c n => Link items classify n c) b := by
      clear hcycle
      induction hb with
      | refl => exact h
      | tail _ hlink ih => exact ih.inv hlink
    have hself : Relation.TransGen (fun c n => Link items classify n c) b b := Relation.transGen_swap.mpr hcycle
    have htrans := hacc.transGen
    clear hacc hcycle hb
    induction htrans with
    | intro x _ ih => exact ih x hself hself
  · intro h
    let r : {b // Relation.ReflTransGen (Link items classify) n b} →
        {b // Relation.ReflTransGen (Link items classify) n b} → Prop :=
      fun x y => Relation.TransGen (Link items classify) y.1 x.1
    have htrans : IsTrans _ r := ⟨fun _ _ _ hxy hyz => hyz.trans hxy⟩
    have hirrefl : Std.Irrefl r := ⟨fun x => h x.1 x.2⟩
    have hwf := Finite.wellFounded_of_trans_of_irrefl r
    have hall : ∀ x : {b // Relation.ReflTransGen (Link items classify) n b},
        Acc (fun c n => Link items classify n c) x.1 := by
      intro x
      induction x using hwf.induction with
      | _ x ih => exact ⟨x.1, fun c hc => ih ⟨c, x.2.tail hc⟩ (.single hc)⟩
    exact hall ⟨n, .refl⟩

/-- The listed paths are the paths of links. -/
theorem mem_paths {fuel : Nat} {n : ν} (h : Bounded items classify fuel n) {p : List ι} {a : α} :
    (p, a) ∈ paths items classify fuel n ↔ IsPath items classify n p a := by
  constructor
  · intro hp
    clear h
    induction fuel generalizing n p with
    | zero => cases hp
    | succ fuel ih =>
      obtain ⟨i, hi, hp⟩ := List.mem_flatMap.mp hp
      cases hc : classify i with
      | inl b =>
        rw [hc] at hp
        cases List.mem_singleton.mp hp
        exact .output hi hc
      | inr c =>
        rw [hc] at hp
        obtain ⟨⟨q, b⟩, hq, heq⟩ := List.mem_map.mp hp
        cases heq
        exact .link hi hc (ih hq)
  · intro hp
    induction hp generalizing fuel with
    | @output n i a hi hc =>
      obtain ⟨k, rfl⟩ : ∃ k, fuel = k + 1 := by
        cases fuel with
        | zero => exact h.elim
        | succ k => exact ⟨k, rfl⟩
      refine List.mem_flatMap.mpr ⟨i, hi, ?_⟩
      rw [hc]
      exact List.mem_singleton_self _
    | @link n c i p a hi hc hp ih =>
      obtain ⟨k, rfl⟩ : ∃ k, fuel = k + 1 := by
        cases fuel with
        | zero => exact h.elim
        | succ k => exact ⟨k, rfl⟩
      refine List.mem_flatMap.mpr ⟨i, hi, ?_⟩
      rw [hc]
      exact List.mem_map.mpr ⟨(p, a), ih (h i hi c hc), rfl⟩

/-- No path is listed twice. -/
theorem nodup_paths (hitems : ∀ n, (items n).Nodup) (fuel : Nat) (n : ν) :
    ((paths items classify fuel n).map Prod.fst).Nodup := by
  induction fuel generalizing n with
  | zero => exact List.nodup_nil
  | succ fuel ih =>
    rw [paths, List.map_flatMap, List.nodup_flatMap]
    constructor
    · intro i hi
      cases hc : classify i with
      | inl a => exact List.nodup_singleton _
      | inr c =>
        rw [List.map_map]
        have hcomp : (Prod.fst ∘ fun q : List ι × α => (i :: q.1, q.2)) = (fun p => i :: p) ∘ Prod.fst := rfl
        rw [hcomp, ← List.map_map]
        exact (ih c).map fun p q h => (List.cons.inj h).2
    · refine (hitems n).imp_of_mem fun {i j} _ _ hij => ?_
      -- the paths of two items start with the one and with the other
      have hhead : ∀ k p, p ∈ ((match classify k with
          | .inl a => [([k], a)]
          | .inr c => (paths items classify fuel c).map fun (q : List ι × α) => (k :: q.1, q.2)).map Prod.fst) →
          p.head? = some k := by
        intro k p hp
        cases hc : classify k with
        | inl a =>
          rw [hc] at hp
          cases List.mem_singleton.mp hp
          rfl
        | inr c =>
          rw [hc] at hp
          simp only [List.map_map, List.mem_map] at hp
          obtain ⟨q, -, rfl⟩ := hp
          rfl
      intro p hpi hpj
      have heq := (hhead i p hpi).symm.trans (hhead j p hpj)
      exact hij (Option.some.inj heq)

/-- Some path leads to an output exactly if the output is an item of a node that links lead to. -/
theorem exists_path_iff {n : ν} {a : α} : (∃ p, IsPath items classify n p a) ↔
    ∃ m, Relation.ReflTransGen (Link items classify) n m ∧ ∃ i ∈ items m, classify i = .inl a := by
  constructor
  · rintro ⟨p, hp⟩
    induction hp with
    | @output n i a hi hc => exact ⟨n, .refl, i, hi, hc⟩
    | @link n c i p a hi hc hp ih =>
      obtain ⟨m, hm, h⟩ := ih
      exact ⟨m, .head ⟨i, hi, hc⟩ hm, h⟩
  · rintro ⟨m, hm, i, hi, hc⟩
    induction hm using Relation.ReflTransGen.head_induction_on with
    | refl => exact ⟨[i], .output hi hc⟩
    | head hlink _ ih =>
      obtain ⟨p, hp⟩ := ih
      obtain ⟨j, hj, hcj⟩ := hlink
      exact ⟨j :: p, .link hj hcj hp⟩

lemma IsPath.exists_cons {n : ν} {p : List ι} {a : α} (h : IsPath items classify n p a) :
    ∃ i q, p = i :: q ∧ i ∈ items n := by
  cases h with
  | @output _ i _ hi hc => exact ⟨i, [], rfl, hi⟩
  | @link _ c i q _ hi hc hq => exact ⟨i, q, rfl, hi⟩

section Forest

/-- A chain of links from one of the roots to a node. -/
inductive Chain (items : ν → List ι) (classify : ι → α ⊕ ν) (roots : List ν) : List ι → ν → Prop where
  | root {n : ν} : n ∈ roots → Chain items classify roots [] n
  | link {n c : ν} {i : ι} {p : List ι} : Chain items classify roots p n → i ∈ items n → classify i = .inr c →
      Chain items classify roots (p ++ [i]) c

variable {roots : List ν}

lemma IsPath.chain {n : ν} {p q : List ι} {a : α} (h : IsPath items classify n p a)
    (hq : Chain items classify roots q n) :
    ∃ r i m, q ++ p = r ++ [i] ∧ Chain items classify roots r m ∧ i ∈ items m ∧ classify i = .inl a := by
  induction h generalizing q with
  | @output n i a hi hc => exact ⟨q, i, n, rfl, hq, hi, hc⟩
  | @link n c i p a hi hc hp ih =>
    obtain ⟨r, j, m, heq, hr⟩ := ih (hq.link hi hc)
    exact ⟨r, j, m, by rw [← heq, List.append_assoc, List.singleton_append], hr⟩

variable (hdisjoint : ∀ m n i, i ∈ items m → i ∈ items n → m = n)
  (hroot : ∀ n i c, i ∈ items n → classify i = .inr c → c ∉ roots)
  (hone : ∀ m n i j c, i ∈ items m → j ∈ items n → classify i = .inr c → classify j = .inr c → i = j)
include hdisjoint hroot hone

/-- Where no link leads to a root and each node has at most one link to it, one chain leads to
each node. -/
lemma Chain.unique {c : ν} {p q : List ι} (hp : Chain items classify roots p c) (hq : Chain items classify roots q c) :
    p = q := by
  induction hp generalizing q with
  | root hc =>
    cases hq with
    | root _ => rfl
    | link _ hi hci => exact absurd hc (hroot _ _ _ hi hci)
  | @link m c i p hp hi hci ih =>
    cases hq with
    | root hc => exact absurd hc (hroot _ _ _ hi hci)
    | @link n _ j q hq hj hcj =>
      obtain rfl := hone m n i j c hi hj hci hcj
      obtain rfl := hdisjoint m n i hi hj
      rw [ih hq]

/-- In such a forest one path leads to each output. -/
theorem IsPath.unique (hout : ∀ i j a, classify i = .inl a → classify j = .inl a → i = j) {m n : ν} {p q : List ι}
    {a : α} (hm : m ∈ roots) (hn : n ∈ roots) (hp : IsPath items classify m p a) (hq : IsPath items classify n q a) :
    p = q := by
  obtain ⟨r, i, x, hpr, hr, hi, hci⟩ := hp.chain (.root hm)
  obtain ⟨s, j, y, hqs, hs, hj, hcj⟩ := hq.chain (.root hn)
  obtain rfl := hout i j a hci hcj
  obtain rfl := hdisjoint x y i hi hj
  have hrs := hr.unique hdisjoint hroot hone hs
  rw [List.nil_append] at hpr hqs
  rw [hpr, hqs, hrs]

end Forest

section Roots

/-- The outputs of the walks from several nodes, one after the other. -/
def visitAll (items : ν → List ι) (classify : ι → α ⊕ ν) (fuel : Nat) (roots : List ν) (out : List α) :
    Option (List α) :=
  roots.foldlM (fun out r => visit items classify fuel r out) out

def pathsAll (items : ν → List ι) (classify : ι → α ⊕ ν) (fuel : Nat) (roots : List ν) : List (List ι × α) :=
  roots.flatMap (paths items classify fuel)

variable {roots : List ν}

theorem visitAll_eq {fuel : Nat} (h : ∀ r ∈ roots, Bounded items classify fuel r) (out : List α) :
    visitAll items classify fuel roots out = some (out ++ (pathsAll items classify fuel roots).map Prod.snd) := by
  unfold visitAll pathsAll
  induction roots generalizing out with
  | nil => simp
  | cons r roots ih =>
    have hr := visit_eq (h r List.mem_cons_self) out
    rw [List.foldlM_cons, hr, Option.bind_eq_bind, Option.bind_some,
      ih fun s hs => h s (List.mem_cons_of_mem r hs)]
    simp

theorem bounded_of_visitAll {fuel : Nat} {out out' : List α}
    (h : visitAll items classify fuel roots out = some out') : ∀ r ∈ roots, Bounded items classify fuel r := by
  unfold visitAll at h
  induction roots generalizing out with
  | nil => exact fun r hr => absurd hr List.not_mem_nil
  | cons r roots ih =>
    rw [List.foldlM_cons] at h
    obtain ⟨out1, h1, h2⟩ := Option.bind_eq_some_iff.mp h
    intro s hs
    rcases List.mem_cons.mp hs with rfl | hs
    · exact bounded_of_visit h1
    · exact ih h2 s hs

/-- Some fuel is enough for all roots exactly if the links from each root are well-founded. -/
theorem exists_bounded_all_iff : (∃ fuel, ∀ r ∈ roots, Bounded items classify fuel r) ↔
    ∀ r ∈ roots, Acc (fun c n => Link items classify n c) r := by
  constructor
  · rintro ⟨fuel, h⟩ r hr
    exact exists_bounded_iff.mp ⟨fuel, h r hr⟩
  · intro h
    induction roots with
    | nil => exact ⟨0, fun r hr => absurd hr List.not_mem_nil⟩
    | cons r roots ih =>
      obtain ⟨fuel, hfuel⟩ := ih fun s hs => h s (List.mem_cons_of_mem r hs)
      obtain ⟨fuel', hfuel'⟩ := exists_bounded_iff.mpr (h r List.mem_cons_self)
      refine ⟨max fuel fuel', fun s hs => ?_⟩
      rcases List.mem_cons.mp hs with rfl | hs
      · exact hfuel'.mono (Nat.le_max_right ..)
      · exact (hfuel s hs).mono (Nat.le_max_left ..)

theorem mem_pathsAll {fuel : Nat} (h : ∀ r ∈ roots, Bounded items classify fuel r) {p : List ι} {a : α} :
    (p, a) ∈ pathsAll items classify fuel roots ↔ ∃ r ∈ roots, IsPath items classify r p a := by
  unfold pathsAll
  rw [List.mem_flatMap]
  constructor
  · rintro ⟨r, hr, hp⟩
    exact ⟨r, hr, (mem_paths (h r hr)).mp hp⟩
  · rintro ⟨r, hr, hp⟩
    exact ⟨r, hr, (mem_paths (h r hr)).mpr hp⟩

theorem nodup_pathsAll (hitems : ∀ n, (items n).Nodup) (hdisjoint : ∀ m n i, i ∈ items m → i ∈ items n → m = n)
    (hroots : roots.Nodup) {fuel : Nat} (h : ∀ r ∈ roots, Bounded items classify fuel r) :
    ((pathsAll items classify fuel roots).map Prod.fst).Nodup := by
  unfold pathsAll
  rw [List.map_flatMap, List.nodup_flatMap]
  constructor
  · intro r _
    exact nodup_paths hitems fuel r
  · refine hroots.imp_of_mem fun {r s} hr hs hrs => ?_
    intro p hpr hps
    obtain ⟨⟨p', a⟩, hpa, rfl⟩ := List.mem_map.mp hpr
    obtain ⟨⟨q, b⟩, hqb, hpq⟩ := List.mem_map.mp hps
    obtain rfl : q = p' := hpq
    obtain ⟨i, t, heq, hi⟩ := ((mem_paths (h r hr)).mp hpa).exists_cons
    obtain ⟨j, u, heq', hj⟩ := ((mem_paths (h s hs)).mp hqb).exists_cons
    obtain ⟨rfl, -⟩ := List.cons.inj (heq.symm.trans heq')
    exact hrs (hdisjoint r s i hi hj)

end Roots

end DepthFirst
