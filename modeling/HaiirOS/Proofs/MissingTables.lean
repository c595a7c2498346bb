import HaiirOS.Lib.Loop
import HaiirOS.Proofs.MapLoop
import Mathlib.Algebra.Order.BigOperators.Group.Finset
import Mathlib.Order.Interval.Finset.Nat

/-!
# Which tables are missing

The tables that pages lack, by level and place in the address space. A map makes the ones that
its page lacks, and then they are missing for no page. A loop of maps takes a frame for each of
the tables that its pages lack together.
-/

namespace HaiirOS

open AddressWord

/-- Down to level `k + 1` the walks for `v` and `v'` from a table of level `n + 1` pass the same tables. -/
def Agree (v v' : Word) (k n : Nat) : Prop := ∀ lvl, k + 2 ≤ lvl → lvl ≤ n + 1 → lvIndex v lvl = lvIndex v' lvl

/-- The tables missing on the way to the leaf entry for `v`: each by its level and by its place. -/
def missingTables (mem : Mem) (root : Nat) (v : Word) : Finset (Nat × Nat) :=
  (Finset.range (missing mem v 3 root)).image fun k => (k + 1, pageNo v / 512 ^ (k + 1))

/-- The tables missing for the pages `page i`, …, `page (n - 1)` together. -/
def missingRange (mem : Mem) (root : Nat) (page : Nat → Word) (i n : Nat) : Finset (Nat × Nat) :=
  (Finset.Ico i n).biUnion fun j => missingTables mem root (page j)

section

variable {mem : Mem} {root : Nat} {v v' : Word} {k n t : Nat}

lemma agree_top : Agree v v' k 3 ↔ pageNo v / 512 ^ (k + 1) = pageNo v' / 512 ^ (k + 1) ∨ 3 ≤ k := by
  have hlt : pageNo v < 2 ^ 36 := Nat.mod_lt _ (by decide)
  have hlt' : pageNo v' < 2 ^ 36 := Nat.mod_lt _ (by decide)
  have hidx (u : Word) (lvl : Nat) (h1 : 1 ≤ lvl) (h4 : lvl ≤ 4) : lvIndex u lvl = pageNo u / 512 ^ (lvl - 1) % 512 := by
    obtain rfl | rfl | rfl | rfl : lvl = 1 ∨ lvl = 2 ∨ lvl = 3 ∨ lvl = 4 := by omega
    all_goals
      simp only [lvIndex, pageNo]
      omega
  have hall : Agree v v' k 3 ↔ ∀ lvl, k + 2 ≤ lvl → lvl ≤ 4 →
      pageNo v / 512 ^ (lvl - 1) % 512 = pageNo v' / 512 ^ (lvl - 1) % 512 := by
    refine forall_congr' fun lvl => forall_congr' fun h2 => forall_congr' fun h4 => ?_
    rw [hidx v lvl (by omega) h4, hidx v' lvl (by omega) h4]
  rw [hall]
  by_cases h3 : 3 ≤ k
  · exact iff_of_true (fun lvl h2 h4 => by omega) (Or.inr h3)
  · obtain rfl | rfl | rfl : k = 0 ∨ k = 1 ∨ k = 2 := by omega
    · constructor
      · intro h
        have h2 := h 2 (by omega) (by omega)
        have h3 := h 3 (by omega) (by omega)
        have h4 := h 4 (by omega) (by omega)
        left
        omega
      · intro h lvl h2 h4
        obtain rfl | rfl | rfl : lvl = 2 ∨ lvl = 3 ∨ lvl = 4 := by omega
        all_goals omega
    · constructor
      · intro h
        have h3 := h 3 (by omega) (by omega)
        have h4 := h 4 (by omega) (by omega)
        left
        omega
      · intro h lvl h2 h4
        obtain rfl | rfl : lvl = 3 ∨ lvl = 4 := by omega
        all_goals omega
    · constructor
      · intro h
        have h4 := h 4 (by omega) (by omega)
        left
        omega
      · intro h lvl h2 h4
        obtain rfl : lvl = 4 := by omega
        omega

/-- A table that two pages have in common is missing for both or for none. -/
lemma missing_of_agree (h : Agree v v' k n) : k < missing mem v n t ↔ k < missing mem v' n t := by
  induction n generalizing t with
  | zero => exact Iff.rfl
  | succ n ih =>
    by_cases hk : n < k
    · have hle := missing_le mem v (n + 1) t
      have hle' := missing_le mem v' (n + 1) t
      omega
    · have hidx : lvIndex v (n + 2) = lvIndex v' (n + 2) := h (n + 2) (by omega) (by omega)
      simp only [missing, hidx]
      split_ifs
      · rfl
      · exact ih fun lvl h2 hn => h lvl h2 (by omega)

lemma mem_missingTables {x : Nat × Nat} : x ∈ missingTables mem root v ↔
    ∃ k, k < missing mem v 3 root ∧ x = (k + 1, pageNo v / 512 ^ (k + 1)) := by
  simp only [missingTables, Finset.mem_image, Finset.mem_range, eq_comm]

lemma card_missingTables : (missingTables mem root v).card = missing mem v 3 root := by
  rw [missingTables, Finset.card_image_of_injective, Finset.card_range]
  intro k k' h
  exact Nat.succ.inj (congrArg Prod.fst h)

end

lemma card_missingRange_le (mem : Mem) (root : Nat) (page : Nat → Word) (n : Nat) :
    (missingRange mem root page 0 n).card ≤ 3 * n := by
  have hcard := Finset.card_biUnion_le_card_mul (Finset.Ico 0 n) (fun i => missingTables mem root (page i)) 3 fun i _ => by
    rw [card_missingTables]
    exact missing_le mem (page i) 3 root
  rw [Nat.card_Ico] at hcard
  rw [missingRange]
  omega

namespace Tables

variable {rank : Nat → Nat} {w : WindowTables} {d d' : Machine} {v page : Word} {n t t' k x : Nat} {flags : PageFlags}

lemma rank_below_le (h : Tables rank w d) (ht : rank t = n + 1) (hb : Below d.mem n t x) : rank x ≤ n + 1 := by
  induction n generalizing t with
  | zero =>
    obtain rfl : x = t := hb
    omega
  | succ n ih =>
    rcases hb with rfl | ⟨i, h0, hb⟩
    · omega
    · have hc := (h.child t i (by omega) h0).1
      have hle := ih (by omega) hb
      omega

/-- Trees below different tables of one level have no table in common. -/
lemma below_unique (h : Tables rank w d) (ht : rank t = n + 1) (ht' : rank t' = n + 1) (hn : n < 3)
    (hb : Below d.mem n t x) (hb' : Below d.mem n t' x) : t = t' := by
  induction n generalizing t t' with
  | zero =>
    obtain rfl : x = t := hb
    exact hb'
  | succ n ih =>
    rcases hb with rfl | ⟨i, h0, hb⟩
    · rcases hb' with hb' | ⟨i', h0', hb'⟩
      · exact hb'
      · have hc' := (h.child t' i' (by omega) h0').1
        have hle := h.rank_below_le (by omega) hb'
        omega
    · have hc := (h.child t i (by omega) h0).1
      rcases hb' with rfl | ⟨i', h0', hb'⟩
      · have hle := h.rank_below_le (by omega) hb
        omega
      · have hc' := (h.child t' i' (by omega) h0').1
        have hsame := ih (by omega) (by omega) (by omega) hb hb'
        rcases (h.parent t i t' i' (by omega) (by omega) h0 h0' hsame).2 with heq | ⟨h4, -⟩
        · exact heq
        · omega

lemma missing_congr_below (h : Tables rank w d) (ht : rank t = n + 1) {mem' : Mem}
    (hmem : ∀ x (i : Fin 512), Below d.mem n t x → mem' (slot x i) = d.mem (slot x i)) :
    missing mem' v n t = missing d.mem v n t := by
  induction n generalizing t with
  | zero => rfl
  | succ n ih =>
    have he : mem' (slot t (lvIndex v (n + 2))) = d.mem (slot t (lvIndex v (n + 2))) :=
      hmem t (index v (n + 2)) (.refl _ _ _)
    simp only [missing, he]
    split_ifs with h0
    · rfl
    · have hc := (h.child_index (by omega) h0).1
      exact ih (by omega) fun x i hb => hmem x i (Or.inr ⟨index v (n + 2), h0, hb⟩)

/-- A walk leaves alone what hangs below the other entries of the tables that it passes. -/
lemma beside {rank1 rank' : Nat → Nat} {u p : Nat} {d1 : Machine} (h : Tables rank w d) (ht : rank t = n + 2) (hn : n < 3)
    (h1 : Entered w rank rank1 flags t (index page (n + 2)) u d d1) (h2 : Opened w rank1 rank' flags page n u p d1 d')
    (hidx : lvIndex v (n + 2) ≠ lvIndex page (n + 2)) :
    d'.mem (slot t (lvIndex v (n + 2))) = d.mem (slot t (lvIndex v (n + 2))) ∧
      (d.mem (slot t (lvIndex v (n + 2))) ≠ 0#64 → ∀ x (i : Fin 512),
        Below d.mem n (frame (d.mem (slot t (lvIndex v (n + 2))))) x → d'.mem (slot x i) = d.mem (slot x i)) := by
  have hrt : rank1 t = n + 2 := by rw [h1.grown.ranks t (by omega), ht]
  have hru := h1.rank_child
  have hlower (x : Nat) (i : Fin 512) (hx : rank x ≤ n + 1) : d1.mem (slot x i) = d.mem (slot x i) :=
    h1.mem _ (slot_ne (by omega : rank x ≠ rank t) i _)
  have habove (i : Fin 512) : d'.mem (slot t i) = d1.mem (slot t i) := h2.above t i (by omega)
  have he1 : d1.mem (slot t (index v (n + 2))) = d.mem (slot t (lvIndex v (n + 2))) := by
    refine h1.mem _ fun heq => hidx ?_
    exact (slot_inj (lvIndex_lt v (n + 2)) (lvIndex_lt page (n + 2)) heq).2
  refine ⟨(habove (index v (n + 2))).trans he1, fun h0 x i hb => ?_⟩
  have hc := (h.child_index (by omega) h0).1
  have hle := h.rank_below_le (by omega) hb
  rw [← hlower x i hle]
  have hb1 := (h.below_congr (by omega) (fun y j hy _ => hlower y j (by omega)) x).mpr hb
  have hc1 := h1.tables.child t (index v (n + 2)) (by omega) (by rw [he1]; exact h0)
  rw [he1] at hc1
  obtain ⟨l, -, hchanged, hstores, -⟩ := h2.written
  by_contra hch
  obtain ⟨y, j, heq, -, hy⟩ := hstores _ (hchanged _ hch)
  obtain ⟨rfl, -⟩ := slot_inj i.isLt j.isLt heq
  have hx0 := h1.tables.rank_below (by omega) hb1
  have hu := h1.tables.below_unique (by omega) (by omega) (by omega) hb1 (hy.resolve_left hx0)
  have hpar := h1.tables.parent t (index v (n + 2)) t (index page (n + 2)) (by omega) (by omega)
    (by rw [he1]; exact h0) h1.ne_zero (by rw [he1, hu, h1.frame_eq])
  exact hidx (congrArg Fin.val hpar.1)

/-- A walk that creates tables makes those on its own way, and no others. -/
theorem missing_directEntry (h : Tables rank w d) (ht : rank t = n + 1) (hn : n ≤ 3) (hf : PlainFlags flags)
    (hlit : flags.getLsbD 0 = true → Lit rank d t) (hsup : Supplied d.mem (missing d.mem page n t) d.pmm)
    {r : Option Nat} (hwalk : d.directEntry flags page n t = (r, d')) :
    k < missing d'.mem v n t ↔ k < missing d.mem v n t ∧ ¬ Agree v page k n := by
  induction n generalizing rank d t with
  | zero => exact iff_of_false (Nat.not_lt_zero k) fun hk => Nat.not_lt_zero k hk.1
  | succ n ih =>
    obtain ⟨u, d1, rank1, henter, h1, hnew, hsup1⟩ := h.enter_create ht hf hlit hsup
    have hru := h1.rank_child
    have hrt : rank1 t = n + 2 := by rw [h1.grown.ranks t (by omega), ht]
    rw [index_val] at henter
    rw [Machine.directEntry] at hwalk
    simp only [henter] at hwalk
    have hrest := ih h1.tables (by omega) (by omega) h1.lit hsup1 hwalk
    obtain ⟨-, p, d2, rank', hwalk', h2⟩ := @directEntry_create rank1 w d1 page n u flags
      h1.tables (fun _ => True) (by omega) (fun _ _ _ => trivial) hf h1.lit hsup1
    obtain rfl : d2 = d' := congrArg Prod.snd (hwalk'.symm.trans hwalk)
    have hlower (x : Nat) (i : Fin 512) (hx : rank x ≤ n + 1) : d1.mem (slot x i) = d.mem (slot x i) :=
      h1.mem _ (slot_ne (by omega : rank x ≠ rank t) i _)
    have habove (i : Fin 512) : d2.mem (slot t i) = d1.mem (slot t i) := h2.above t i (by omega)
    by_cases hidx : lvIndex v (n + 2) = lvIndex page (n + 2)
    · -- the walk for `v` goes through the same entry
      have hagree : Agree v page k (n + 1) ↔ Agree v page k n := by
        refine ⟨fun hag lvl h2 hl => hag lvl h2 (by omega), fun hag lvl h2 hl => ?_⟩
        by_cases htop : lvl = n + 2
        · rw [htop, hidx]
        · exact hag lvl h2 (by omega)
      have hne := h1.ne_zero
      have hframe := h1.frame_eq
      rw [← habove, index_val] at hne hframe
      have hafter : missing d2.mem v (n + 1) t = missing d2.mem v n u := by
        simp only [missing, hidx, if_neg hne, hframe]
      rw [hafter, hagree, hrest]
      by_cases h0 : d.mem (slot t (index page (n + 2))) = 0#64
      · have hbefore : missing d.mem v (n + 1) t = n + 1 := by
          rw [index_val, ← hidx] at h0
          exact if_pos h0
        rw [missing_of_zero (hnew h0), hbefore]
        refine ⟨fun hk => ⟨by omega, hk.2⟩, fun hk => ⟨?_, hk.2⟩⟩
        -- the table made here is on the way to `v`
        by_contra hge
        exact hk.2 fun lvl h2 hl => by omega
      · obtain ⟨rfl, -, rfl, -⟩ := h1.named h0
        rw [h.missing_congr (by rw [index_val] at hru ⊢; omega) fun x i hx _ => hlower x i hx]
        rw [index_val, ← hidx] at h0 ⊢
        simp only [missing, if_neg h0]
    · -- the walk for `v` has left the way already
      have hdiff : k < n + 1 → ¬ Agree v page k (n + 1) := fun hk hag => hidx (hag (n + 2) (by omega) (by omega))
      have hsame : missing d2.mem v (n + 1) t = missing d.mem v (n + 1) t := by
        obtain ⟨he, hbelow⟩ := h.beside ht (by omega) h1 h2 hidx
        simp only [missing, he]
        split_ifs with h0
        · rfl
        · have hc := (h.child_index (by omega) h0).1
          exact h.missing_congr_below (by omega) (hbelow h0)
      rw [hsame]
      have hle := missing_le d.mem v (n + 1) t
      exact ⟨fun hk => ⟨hk, hdiff (by omega)⟩, fun hk => hk.1⟩

/-- So does a map. -/
theorem missing_map (h : Tables rank w d) {root : Nat} (hr : rank root = 4) (hf : PlainFlags flags)
    (hsup : Supplied d.mem (missing d.mem page 3 root) d.pmm) {f : Word}
    (hmap : d.map (frameAddr root) page f flags = some d') :
    k < missing d'.mem v 3 root ↔ k < missing d.mem v 3 root ∧ ¬ Agree v page k 3 := by
  have hlow : ∀ f, f < 0x800 → rank f ≠ 0 → f < 0x800 ∧ rank f ≠ 0 := fun f hlt h0 => ⟨hlt, h0⟩
  obtain ⟨hclear, p, d1, rank', hwalk, ho⟩ := h.directEntry_create hr hlow hf (fun _ => h.lit_root hr) hsup
  obtain ⟨d2, hmap', hs, -⟩ := h.ready.map_eq (h.root_ok hr).1 (h.root_ok hr).2 hclear f
  obtain rfl : d2 = d' := Option.some.inj (hmap'.symm.trans hmap)
  rw [Machine.directMap, hwalk] at hs
  rw [← h.missing_directEntry hr (by decide) hf (fun _ => h.lit_root hr) hsup hwalk]
  have hroot : rank' root = 3 + 1 := by rw [ho.grown.ranks root (by omega), hr]
  rw [ho.tables.missing_congr hroot fun x i _ hx => ?_]
  rw [hs.mem _ (ho.tables.slot_ne_win hx i.isLt)]
  exact put_leaf_upper ho.rank_leaf (index page 1) _ hx i

/-- A map of one page of a range makes the tables that the page lacks, which leaves those that the others
lack besides. -/
lemma card_missingRange (h : Tables rank w d) {root : Nat} (hr : rank root = 4) (hf : PlainFlags flags) {page : Nat → Word}
    {i n : Nat} (hi : i < n) (hsup : Supplied d.mem (missing d.mem (page i) 3 root) d.pmm) {f : Word}
    (hmap : d.map (frameAddr root) (page i) f flags = some d') :
    (missingRange d.mem root page i n).card =
      missing d.mem (page i) 3 root + (missingRange d'.mem root page (i + 1) n).card := by
  have hafter (v : Word) : missingTables d'.mem root v = missingTables d.mem root v \ missingTables d.mem root (page i) := by
    ext x
    simp only [Finset.mem_sdiff, mem_missingTables, h.missing_map hr hf hsup hmap]
    constructor
    · rintro ⟨k, ⟨hk, hnot⟩, rfl⟩
      refine ⟨⟨k, hk, rfl⟩, ?_⟩
      rintro ⟨k', hk', heq⟩
      obtain rfl : k = k' := Nat.succ.inj (congrArg Prod.fst heq)
      exact hnot (agree_top.mpr (Or.inl (congrArg Prod.snd heq)))
    · rintro ⟨⟨k, hk, rfl⟩, hnot⟩
      refine ⟨k, ⟨hk, fun hag => hnot ⟨k, (missing_of_agree hag).mp hk, ?_⟩⟩, rfl⟩
      have hle := missing_le d.mem v 3 root
      rw [(agree_top.mp hag).resolve_right (by omega)]
  have hrest : missingRange d'.mem root page (i + 1) n =
      missingRange d.mem root page (i + 1) n \ missingTables d.mem root (page i) := by
    ext x
    simp only [missingRange, Finset.mem_biUnion, Finset.mem_sdiff, hafter]
    exact ⟨fun ⟨j, hj, hx, hn⟩ => ⟨⟨j, hj, hx⟩, hn⟩, fun ⟨⟨j, hj, hx⟩, hn⟩ => ⟨j, hj, hx, hn⟩⟩
  have hall : missingRange d.mem root page i n =
      missingRange d.mem root page (i + 1) n ∪ missingTables d.mem root (page i) := by
    have hfirst : Finset.Ico i n = insert i (Finset.Ico (i + 1) n) := by
      ext j
      simp only [Finset.mem_insert, Finset.mem_Ico]
      omega
    rw [missingRange, hfirst, Finset.biUnion_insert, Finset.union_comm]
    rfl
  rw [hall, hrest, ← card_missingTables, Nat.add_comm (missingTables ..).card]
  exact (Finset.card_sdiff_add_card ..).symm

end Tables

/-- The loop of `n` maps after `i` rounds, with a supply for the tables that the pages from `page i` on lack. -/
structure LoopAt (w : WindowTables) (rank rank' : Nat → Nat) (roots : List Nat) (root : Nat) (page : Nat → Word)
    (f : Nat → Nat) (flags : PageFlags) (n i : Nat) (m d : Machine) : Prop where
  loop : MapLoop w rank rank' roots root page f flags i m d
  supplied : Supplied d.mem (missingRange d.mem root page i n).card d.pmm
  data : ∀ g (j : Fin 512), rank' g = 0 → d.mem (slot g j) = m.mem (slot g j)

section

variable {w : WindowTables} {rank rank' : Nat → Nat} {roots : List Nat} {root : Nat} {page : Nat → Word}
  {f : Nat → Nat} {flags : PageFlags} {n i : Nat} {m d : Machine}

lemma LoopAt.succ (h : LoopAt w rank rank' roots root page f flags n i m d) (hr : rank root = 4)
    (hplain : PlainFlags flags) (hfits : ∀ i < n, f i < 2 ^ 40) (hpage : ∀ i < n, 0x800 ≤ pageNo (page i))
    (hsame : ∀ i < n, ∀ j < n, pageNo (page i) = pageNo (page j) → f i = f j) (hi : i < n) :
    Supplied d.mem (missing d.mem (page i) 3 root) d.pmm ∧
      ∃ d' rank'', d.map (frameAddr root) (page i) (frameAddr (f i)) flags = some d' ∧
        LoopAt w rank rank'' roots root page f flags n (i + 1) m d' ∧
        ∀ t, rank' t = 0 → rank'' t ≠ 0 → d.pmm.used t = false := by
  have ht := h.loop.inv.tables
  have hr' : rank' root = 4 := by rw [h.loop.ranks root (by omega), hr]
  have hle : missing d.mem (page i) 3 root ≤ (missingRange d.mem root page i n).card := by
    rw [← card_missingTables]
    exact Finset.card_le_card (Finset.subset_biUnion_of_mem (fun j => missingTables d.mem root (page j))
      (Finset.mem_Ico.mpr ⟨Nat.le_refl i, hi⟩))
  have hsup : Supplied d.mem (missing d.mem (page i) 3 root) d.pmm := by
    have hall := h.supplied
    rw [← Nat.add_sub_cancel' hle] at hall
    exact hall.take
  have hok : Session.MapOk ⟨d, roots⟩ root (page i) (f i) flags :=
    ⟨(h.loop.inv.roots root).mpr hr', hplain, hfits i hi, Session.pageOk_of_le _ (hpage i hi), hsup⟩
  obtain ⟨d', rank'', p, hmap, hinv, hm, -⟩ := h.loop.inv.map hok
  have hcard := ht.card_missingRange hr' hplain hi hsup hmap
  have hrest := h.supplied
  rw [hcard] at hrest
  have hwin (j : Nat) (hj : j < i) : pageNo (page j) ≠ 0x200 := by
    have hge := hpage j (by omega)
    omega
  refine ⟨hsup, d', rank'', hmap, ⟨h.loop.succ hr hinv hm hwin fun j hj => hsame j (by omega) i hi,
    hm.supplied ht hrest, fun g j hg => ?_⟩, fun t h0 h1 => (hm.fresh t h0 h1).2.2⟩
  have hg' : rank' g = 0 := by
    by_contra h0
    exact h0 ((hm.ranks g h0).symm.trans hg)
  exact (hm.data hg j).trans (h.data g j hg')

/-- A loop of maps with a supply for the tables that its pages lack returns. -/
theorem Session.Inv.map_loop (h : Session.Inv w rank ⟨m, roots⟩) (hroot : root ∈ roots) (hplain : PlainFlags flags)
    (hfits : ∀ i < n, f i < 2 ^ 40) (hpage : ∀ i < n, 0x800 ≤ pageNo (page i))
    (hsame : ∀ i < n, ∀ j < n, pageNo (page i) = pageNo (page j) → f i = f j)
    (hsup : Supplied m.mem (missingRange m.mem root page 0 n).card m.pmm) :
    ∃ m', Loop.upTo (fun i m => m.mapUserFrame (frameAddr root) (page i) (frameAddr (f i)) flags) n m = some m' ∧
      ∃ rank', LoopAt w rank rank' roots root page f flags n n m m' := by
  refine Loop.upTo_total (fun i d => ∃ rank', LoopAt w rank rank' roots root page f flags n i m d)
    ⟨rank, .zero h, hsup, fun _ _ _ => rfl⟩ ?_
  rintro i hi d ⟨rank1, hl⟩
  obtain ⟨-, d', rank2, hmap, hl', -⟩ := hl.succ ((h.roots root).mp hroot) hplain hfits hpage hsame hi
  exact ⟨d', hmap, rank2, hl'⟩

end

end HaiirOS
