import HaiirOS.Proofs.MissingTables

/-!
# Maps on two machines

Two machines that agree on their page tables go on doing so while both make the same map: a walk
reads tables only, and a frame that becomes a table holds zeros in both. A loop of maps leaves the
words of all other frames as it found them.
-/

namespace HaiirOS

open AddressWord

/-- Two machines that agree on the words of the frames in use, but for the frames `apart` and the window's
entry. -/
structure Twin (apart : Nat → Prop) (win : Nat) (d e : Machine) : Prop where
  pmm : e.pmm = d.pmm
  mem : ∀ f (i : Fin 512), d.pmm.used f = true → ¬ apart f → slot f i ≠ win → e.mem (slot f i) = d.mem (slot f i)
  used : ∀ f, apart f → d.pmm.used f = true

/-- No frame that becomes a table is one of the frames apart, which are in use. -/
lemma Twin.data {apart : Nat → Prop} {win : Nat} {d e : Machine} (h : Twin apart win d e) {rank rank' : Nat → Nat}
    (hdata : ∀ f, apart f → rank f = 0) (hfree : ∀ t, rank t = 0 → rank' t ≠ 0 → d.pmm.used t = false) (f : Nat)
    (hf : apart f) : rank' f = 0 := by
  by_contra h0
  have hnot := hfree f (hdata f hf) h0
  rw [h.used f hf] at hnot
  cases hnot

namespace Tables

variable {apart : Nat → Prop} {rank rank₁ : Nat → Nat} {w : WindowTables} {d e d' e' : Machine} {v page : Word}
  {n t : Nat} {flags : PageFlags}

lemma twin_table (h : Tables rank w d) (hdata : ∀ f, apart f → rank f = 0) (ht : Twin apart w.win d e) {x : Nat}
    (hx : 2 ≤ rank x) (i : Fin 512) : e.mem (slot x i) = d.mem (slot x i) := by
  have hapart : ¬ apart x := by
    intro ha
    have h0 := hdata x ha
    omega
  exact ht.mem x i (h.frame_ok x (by omega)).2.2.2 hapart (h.slot_ne_win hx i.isLt)

lemma twin_enter {rank' rank₁' : Nat → Nat} {u u₁ : Nat} {i : Fin 512} (h : Tables rank w d)
    (hdata : ∀ f, apart f → rank f = 0) (ht : Twin apart w.win d e) (hr : 2 ≤ rank t)
    (hd : Entered w rank rank' flags t i u d d') (he : Entered w rank₁ rank₁' flags t i u₁ e e') :
    u₁ = u ∧ Twin apart w.win d' e' := by
  have hsame := h.twin_table hdata ht hr i
  have hused (f : Nat) (hf : apart f) : d'.pmm.used f = true := hd.grown.used f (ht.used f hf)
  by_cases h0 : d.mem (slot t i) = 0#64
  · obtain ⟨-, hnext, hpmm, hentry, hzero⟩ := hd.made h0
    obtain ⟨-, hnext', hpmm', hentry', hzero'⟩ := he.made (hsame.trans h0)
    rw [ht.pmm] at hnext' hpmm'
    obtain rfl : u₁ = u := hnext'.unique hnext
    refine ⟨rfl, hpmm'.trans hpmm.symm, fun f j hf hapart hwin => ?_, hused⟩
    rw [hpmm, h.valid.used_handOut_one hnext] at hf
    by_cases ha : slot f j = slot t i
    · rw [ha, hentry, hentry']
    · rw [hd.mem _ ha, he.mem _ ha]
      rcases hf with rfl | hf
      · rw [hzero, hzero']
      · exact ht.mem f j hf hapart hwin
  · obtain ⟨-, hpmm, hframe, hentry⟩ := hd.named h0
    obtain ⟨-, hpmm', hframe', hentry'⟩ := he.named (by rwa [hsame])
    rw [hsame] at hframe' hentry'
    refine ⟨hframe'.symm.trans hframe, by rw [hpmm, hpmm', ht.pmm], fun f j hf hapart hwin => ?_, hused⟩
    rw [hpmm] at hf
    by_cases ha : slot f j = slot t i
    · rw [ha, hentry, hentry']
    · rw [hd.mem _ ha, he.mem _ ha]
      exact ht.mem f j hf hapart hwin

/-- The whole walk on both. -/
theorem twin_directEntry (h : Tables rank w d) (h₁ : Tables rank₁ w e) (hdata : ∀ f, apart f → rank f = 0)
    (ht : Twin apart w.win d e) (hr : rank t = n + 1) (hr₁ : rank₁ t = n + 1) (hf : PlainFlags flags)
    (hlit : flags.getLsbD 0 = true → Lit rank d t) (hlit₁ : flags.getLsbD 0 = true → Lit rank₁ e t)
    (hsup : Supplied d.mem (missing d.mem v n t) d.pmm) (hsup₁ : Supplied e.mem (missing e.mem v n t) e.pmm) :
    (e.directEntry flags v n t).1 = (d.directEntry flags v n t).1 ∧
      Twin apart w.win (d.directEntry flags v n t).2 (e.directEntry flags v n t).2 := by
  induction n generalizing rank rank₁ d e t with
  | zero => exact ⟨rfl, ht⟩
  | succ n ih =>
    obtain ⟨u, d1, rank', henter, hd, -, hsup1⟩ := h.enter_create hr hf hlit hsup
    obtain ⟨u₁, e1, rank₁', henter₁, he, -, hsup1₁⟩ := h₁.enter_create hr₁ hf hlit₁ hsup₁
    obtain ⟨rfl, htwin⟩ := h.twin_enter hdata ht (by omega) hd he
    have hdata' := ht.data hdata fun x h0 h1 => (hd.grown.fresh x h0 h1).2.2
    have hru := hd.rank_child
    have hru₁ := he.rank_child
    rw [index_val] at henter henter₁
    rw [Machine.directEntry, Machine.directEntry, henter, henter₁]
    exact ih hd.tables he.tables hdata' htwin (by omega) (by omega) hd.lit he.lit hsup1 hsup1₁

/-- A map on both. -/
theorem twin_map (h : Tables rank w d) (h₁ : Tables rank₁ w e) (hdata : ∀ f, apart f → rank f = 0)
    (ht : Twin apart w.win d e) {root : Nat} (hr : rank root = 4) (hr₁ : rank₁ root = 4) (hf : PlainFlags flags)
    (hsup : Supplied d.mem (missing d.mem page 3 root) d.pmm)
    (hsup₁ : Supplied e.mem (missing e.mem page 3 root) e.pmm) {f : Word}
    (hmap : d.map (frameAddr root) page f flags = some d') (hmap₁ : e.map (frameAddr root) page f flags = some e') :
    Twin apart w.win d' e' := by
  have hlow : ∀ f, f < 0x800 → rank f ≠ 0 → f < 0x800 ∧ rank f ≠ 0 := fun f hlt h0 => ⟨hlt, h0⟩
  have hlow₁ : ∀ f, f < 0x800 → rank₁ f ≠ 0 → f < 0x800 ∧ rank₁ f ≠ 0 := fun f hlt h0 => ⟨hlt, h0⟩
  obtain ⟨hclear, p, d1, -, hwalk, -⟩ := h.directEntry_create hr hlow hf (fun _ => h.lit_root hr) hsup
  obtain ⟨hclear₁, p₁, e1, -, hwalk₁, -⟩ := h₁.directEntry_create hr₁ hlow₁ hf (fun _ => h₁.lit_root hr₁) hsup₁
  obtain ⟨d2, hmap2, hs, -⟩ := h.ready.map_eq (h.root_ok hr).1 (h.root_ok hr).2 hclear f
  obtain ⟨e2, hmap2₁, hs₁, -⟩ := h₁.ready.map_eq (h₁.root_ok hr₁).1 (h₁.root_ok hr₁).2 hclear₁ f
  obtain rfl : d2 = d' := Option.some.inj (hmap2.symm.trans hmap)
  obtain rfl : e2 = e' := Option.some.inj (hmap2₁.symm.trans hmap₁)
  obtain ⟨hentry, htwin⟩ := h.twin_directEntry h₁ hdata ht hr hr₁ hf (fun _ => h.lit_root hr)
    (fun _ => h₁.lit_root hr₁) hsup hsup₁
  rw [hwalk, hwalk₁] at hentry htwin
  rw [Machine.directMap, hwalk] at hs
  rw [Machine.directMap, hwalk₁, Option.some.inj hentry] at hs₁
  have hput (m : Machine) (a b : Nat) (x : Word) : (m.put a x).mem b = if b = a then x else m.mem b :=
    Function.update_apply ..
  refine ⟨by rw [hs.pmm, hs₁.pmm]; exact htwin.pmm, fun g i hg hapart hwin => ?_, fun g hg => ?_⟩
  · rw [hs.pmm] at hg
    rw [hs.mem _ hwin, hs₁.mem _ hwin, Machine.putEntry, Machine.putEntry, hput, hput]
    split_ifs
    · rfl
    · exact htwin.mem g i hg hapart hwin
  · rw [hs.pmm]
    exact htwin.used g hg

end Tables

section

variable {w : WindowTables} {rank rank' rank₁ : Nat → Nat} {roots roots₁ : List Nat} {root : Nat} {page : Nat → Word}
  {f : Nat → Nat} {flags : PageFlags} {n i : Nat} {m d e : Machine}

/-- The same loop of maps on two machines. -/
theorem twin_loop {apart : Nat → Prop} (h : Session.Inv w rank ⟨d, roots⟩) (h₁ : Session.Inv w rank₁ ⟨e, roots₁⟩)
    (ht : Twin apart w.win d e) (hdata : ∀ f, apart f → rank f = 0) (hdata₁ : ∀ f, apart f → rank₁ f = 0)
    (hr : rank root = 4) (hr₁ : rank₁ root = 4) (hplain : PlainFlags flags) (hfits : ∀ i < n, f i < 2 ^ 40)
    (hpage : ∀ i < n, 0x800 ≤ pageNo (page i))
    (hsame : ∀ i < n, ∀ j < n, pageNo (page i) = pageNo (page j) → f i = f j)
    (hsup : Supplied d.mem (missingRange d.mem root page 0 n).card d.pmm)
    (hsup₁ : Supplied e.mem (missingRange e.mem root page 0 n).card e.pmm) :
    ∃ d' e' rank' rank₁',
      Loop.upTo (fun i m => m.mapUserFrame (frameAddr root) (page i) (frameAddr (f i)) flags) n d = some d' ∧
      Loop.upTo (fun i m => m.mapUserFrame (frameAddr root) (page i) (frameAddr (f i)) flags) n e = some e' ∧
      LoopAt w rank rank' roots root page f flags n n d d' ∧ LoopAt w rank₁ rank₁' roots₁ root page f flags n n e e' ∧
      Twin apart w.win d' e' ∧ (∀ f, apart f → rank' f = 0) ∧ ∀ f, apart f → rank₁' f = 0 := by
  obtain ⟨d', hloop, e', rank', rank₁', hrest⟩ := Loop.upTo_total
    (fun i d' => ∃ e' rank' rank₁',
      Loop.upTo (fun i m => m.mapUserFrame (frameAddr root) (page i) (frameAddr (f i)) flags) i e = some e' ∧
      LoopAt w rank rank' roots root page f flags n i d d' ∧ LoopAt w rank₁ rank₁' roots₁ root page f flags n i e e' ∧
      Twin apart w.win d' e' ∧ (∀ f, apart f → rank' f = 0) ∧ ∀ f, apart f → rank₁' f = 0)
    ⟨e, rank, rank₁, rfl, ⟨.zero h, hsup, fun _ _ _ => rfl⟩, ⟨.zero h₁, hsup₁, fun _ _ _ => rfl⟩, ht, hdata, hdata₁⟩
    (fun i hi d' ⟨e', rank', rank₁', hloop₁, hl, hl₁, ht, hdata, hdata₁⟩ => by
      obtain ⟨hsup, d'', rank'', hmap, hl', hfresh⟩ := hl.succ hr hplain hfits hpage hsame hi
      obtain ⟨hsup₁, e'', rank₁'', hmap₁, hl₁', hfresh₁⟩ := hl₁.succ hr₁ hplain hfits hpage hsame hi
      have hr' : rank' root = 4 := by rw [hl.loop.ranks root (by omega), hr]
      have hr₁' : rank₁' root = 4 := by rw [hl₁.loop.ranks root (by omega), hr₁]
      rw [ht.pmm] at hfresh₁
      refine ⟨d'', hmap, e'', rank'', rank₁'', ?_, hl', hl₁', ?_, ht.data hdata hfresh, ht.data hdata₁ hfresh₁⟩
      · rw [Loop.upTo, hloop₁]
        exact hmap₁
      · exact hl.loop.inv.tables.twin_map hl₁.loop.inv.tables hdata ht hr' hr₁' hplain hsup hsup₁ hmap hmap₁)
  exact ⟨d', e', rank', rank₁', hloop, hrest⟩

end

end HaiirOS
