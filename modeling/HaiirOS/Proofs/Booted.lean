import HaiirOS.Memory.Boot
import HaiirOS.Proofs.PagingRuns

/-!
# The first session

What the boot loader hands over: one PML4, PDPT and PD and four page tables below 8 MiB that
map these 8 MiB one to one. With the allocator in use and the first 8 MiB reserved this is a
session with its page tables in order, and the window works for every frame below 8 MiB.
-/

namespace HaiirOS

open AddressWord

/-- An upper entry for the table in frame `t`. -/
def TableEntry (e : Word) (t : Nat) : Prop := Names e t ∧ e.getLsbD 7 = false

/-- The machine with the loader's page tables, `pts` being the page tables of the four 2 MiB regions. -/
structure Booted (w : WindowTables) (pts : Nat → Nat) (m : Machine) : Prop where
  valid : m.pmm.Valid
  low_used : ∀ f, f < 0x800 → m.pmm.used f = true
  pml4 : m.sPml4Table = frameAddr w.pml4
  cr3 : m.cr3 = frameAddr w.pml4
  pt : pts 1 = w.pt
  distinct : [w.pml4, w.pdp, w.pd, pts 0, pts 1, pts 2, pts 3].Nodup
  low : ∀ t ∈ [w.pml4, w.pdp, w.pd, pts 0, pts 1, pts 2, pts 3], 0 < t ∧ t < 0x800 ∧ t ≠ 0x200
  pml4_first : TableEntry (m.mem (slot w.pml4 0)) w.pdp
  pml4_rest : ∀ i, 0 < i → i < 512 → m.mem (slot w.pml4 i) = 0#64
  pdp_first : TableEntry (m.mem (slot w.pdp 0)) w.pd
  pdp_rest : ∀ i, 0 < i → i < 512 → m.mem (slot w.pdp i) = 0#64
  pd_first : ∀ i, i < 4 → TableEntry (m.mem (slot w.pd i)) (pts i)
  pd_rest : ∀ i, 4 ≤ i → i < 512 → m.mem (slot w.pd i) = 0#64
  pages : ∀ f, 0 < f → f < 0x800 → f ≠ 0x200 → (m.mem (slot (pts (f / 512)) (f % 512))).getLsbD 0 = true ∧
    frame (m.mem (slot (pts (f / 512)) (f % 512))) = f

/-- The tables of the boot loader. -/
def loaderTables (w : WindowTables) (pts : Nat → Nat) : List Nat := [w.pml4, w.pdp, w.pd, pts 0, pts 1, pts 2, pts 3]

/-- The levels of the loader's tables. -/
def bootRank (w : WindowTables) (pts : Nat → Nat) (t : Nat) : Nat :=
  if t = w.pml4 then 4 else if t = w.pdp then 3 else if t = w.pd then 2
  else if t = pts 0 ∨ t = pts 1 ∨ t = pts 2 ∨ t = pts 3 then 1 else 0

/-- The frames below 8 MiB that the window is not needed for. -/
def lowFrame (f : Nat) : Prop := 0 < f ∧ f < 0x800 ∧ f ≠ 0x200

instance (f : Nat) : Decidable (lowFrame f) := inferInstanceAs (Decidable (_ ∧ _))

namespace Booted

variable {w : WindowTables} {pts : Nat → Nat} {m : Machine}

lemma pts_cases {i : Nat} (hi : i < 4) : pts i = pts 0 ∨ pts i = pts 1 ∨ pts i = pts 2 ∨ pts i = pts 3 := by
  obtain rfl | rfl | rfl | rfl : i = 0 ∨ i = 1 ∨ i = 2 ∨ i = 3 := by omega
  all_goals simp

lemma pts_low (h : Booted w pts m) {i : Nat} (hi : i < 4) : 0 < pts i ∧ pts i < 0x800 ∧ pts i ≠ 0x200 := by
  refine h.low (pts i) ?_
  have hcases : pts i = pts 0 ∨ pts i = pts 1 ∨ pts i = pts 2 ∨ pts i = pts 3 := pts_cases hi
  rcases hcases with he | he | he | he <;> simp [he]

lemma rank_pml4 : bootRank w pts w.pml4 = 4 := if_pos rfl

lemma rank_pdp (h : Booted w pts m) : bootRank w pts w.pdp = 3 := by
  have hd := h.distinct
  simp only [List.nodup_cons, List.mem_cons, not_or] at hd
  rw [bootRank, if_neg (fun he => hd.1.1 he.symm), if_pos rfl]

lemma rank_pd (h : Booted w pts m) : bootRank w pts w.pd = 2 := by
  have hd := h.distinct
  simp only [List.nodup_cons, List.mem_cons, not_or] at hd
  rw [bootRank, if_neg (fun he => hd.1.2.1 he.symm), if_neg (fun he => hd.2.1.1 he.symm), if_pos rfl]

lemma rank_pts (h : Booted w pts m) {i : Nat} (hi : i < 4) : bootRank w pts (pts i) = 1 := by
  have hd := h.distinct
  simp only [List.nodup_cons, List.mem_cons, not_or] at hd
  have hne : pts i ≠ w.pml4 ∧ pts i ≠ w.pdp ∧ pts i ≠ w.pd := by
    obtain rfl | rfl | rfl | rfl : i = 0 ∨ i = 1 ∨ i = 2 ∨ i = 3 := by omega
    · exact ⟨Ne.symm hd.1.2.2.1, Ne.symm hd.2.1.2.1, Ne.symm hd.2.2.1.1⟩
    · exact ⟨Ne.symm hd.1.2.2.2.1, Ne.symm hd.2.1.2.2.1, Ne.symm hd.2.2.1.2.1⟩
    · exact ⟨Ne.symm hd.1.2.2.2.2.1, Ne.symm hd.2.1.2.2.2.1, Ne.symm hd.2.2.1.2.2.1⟩
    · exact ⟨Ne.symm hd.1.2.2.2.2.2.1, Ne.symm hd.2.1.2.2.2.2.1, Ne.symm hd.2.2.1.2.2.2.1⟩
  rw [bootRank, if_neg hne.1, if_neg hne.2.1, if_neg hne.2.2, if_pos (pts_cases hi)]

lemma pts_inj (h : Booted w pts m) {i j : Nat} (hi : i < 4) (hj : j < 4) (he : pts i = pts j) : i = j := by
  have hd := h.distinct
  simp only [List.nodup_cons, List.mem_cons, not_or] at hd
  obtain ⟨-, -, -, ⟨h01, h02, h03, -⟩, ⟨h12, h13, -⟩, ⟨h23, -⟩, -⟩ := hd
  obtain rfl | rfl | rfl | rfl : i = 0 ∨ i = 1 ∨ i = 2 ∨ i = 3 := by omega
  all_goals obtain rfl | rfl | rfl | rfl : j = 0 ∨ j = 1 ∨ j = 2 ∨ j = 3 := by omega
  all_goals first | rfl | (exact absurd he (by assumption)) | (exact absurd he.symm (by assumption))

lemma upper_cases (h : Booted w pts m) {t : Nat} {i : Fin 512} (ht : 2 ≤ bootRank w pts t)
    (h0 : m.mem (slot t i) ≠ 0#64) : (t = w.pml4 ∧ i = 0 ∧ TableEntry (m.mem (slot t i)) w.pdp) ∨
      (t = w.pdp ∧ i = 0 ∧ TableEntry (m.mem (slot t i)) w.pd) ∨
      (t = w.pd ∧ (i : Nat) < 4 ∧ TableEntry (m.mem (slot t i)) (pts i)) := by
  have hzero (hrest : ∀ j, 0 < j → j < 512 → m.mem (slot t j) = 0#64) : i = 0 := by
    by_contra hi
    exact h0 (hrest i (Nat.pos_of_ne_zero fun hz => hi (Fin.ext hz)) i.isLt)
  by_cases h4 : t = w.pml4
  · subst h4
    obtain rfl := hzero h.pml4_rest
    exact Or.inl ⟨rfl, rfl, h.pml4_first⟩
  · by_cases h3 : t = w.pdp
    · subst h3
      obtain rfl := hzero h.pdp_rest
      exact Or.inr (Or.inl ⟨rfl, rfl, h.pdp_first⟩)
    · by_cases h2 : t = w.pd
      · subst h2
        by_cases hi : (i : Nat) < 4
        · exact Or.inr (Or.inr ⟨rfl, hi, h.pd_first i hi⟩)
        · exact (h0 (h.pd_rest i (by omega) i.isLt)).elim
      · rw [bootRank, if_neg h4, if_neg h3, if_neg h2] at ht
        split_ifs at ht <;> omega

lemma pml4_low (h : Booted w pts m) : 0 < w.pml4 ∧ w.pml4 < 0x800 ∧ w.pml4 ≠ 0x200 := h.low _ (by simp)

lemma pdp_low (h : Booted w pts m) : 0 < w.pdp ∧ w.pdp < 0x800 ∧ w.pdp ≠ 0x200 := h.low _ (by simp)

lemma pd_low (h : Booted w pts m) : 0 < w.pd ∧ w.pd < 0x800 ∧ w.pd ≠ 0x200 := h.low _ (by simp)

lemma leafTable_low (h : Booted w pts m) {v : Word} (hv : v.toNat < 0x800000) :
    leafTable m.mem v 3 w.pml4 = some (pts (v.toNat / 4096 / 512)) := by
  have i4 : lvIndex v 4 = 0 := by
    simp only [lvIndex]
    omega
  have i3 : lvIndex v 3 = 0 := by
    simp only [lvIndex]
    omega
  have i2 : lvIndex v 2 = v.toNat / 4096 / 512 := by
    simp only [lvIndex]
    omega
  have hi : v.toNat / 4096 / 512 < 4 := by omega
  rw [leafTable_succ, i4, if_neg (ne_zero_of_present h.pml4_first.1.2), h.pml4_first.1.frame_eq h.pdp_low.2.1,
    leafTable_succ, i3, if_neg (ne_zero_of_present h.pdp_first.1.2), h.pdp_first.1.frame_eq h.pd_low.2.1,
    leafTable_succ, i2, if_neg (ne_zero_of_present (h.pd_first _ hi).1.2), (h.pd_first _ hi).1.frame_eq (h.pts_low hi).2.1]
  rfl

lemma rank_ne_zero_cases {t : Nat} (ht : bootRank w pts t ≠ 0) :
    t ∈ [w.pml4, w.pdp, w.pd, pts 0, pts 1, pts 2, pts 3] := by
  rw [bootRank] at ht
  split_ifs at ht with h4 h3 h2 h1
  · simp [h4]
  · simp [h3]
  · simp [h2]
  · rcases h1 with h1 | h1 | h1 | h1 <;> simp [h1]
  · exact (ht rfl).elim

lemma lvIndex_one {v : Word} : lvIndex v 1 = v.toNat / 4096 % 512 := rfl

/-- The pages below 8 MiB are mapped one to one, but for the window. -/
lemma home (h : Booted w pts m) {f : Nat} (hf : lowFrame f) : Tables.Home w m f := by
  obtain ⟨hpos, hlt, h200⟩ := hf
  have hval : (BitVec.ofNat 64 (f * 4096)).toNat = f * 4096 := by
    rw [BitVec.toNat_ofNat]
    omega
  have hdiv : f * 4096 / 4096 = f := Nat.mul_div_cancel f (by decide)
  obtain ⟨hpres, hframe⟩ := h.pages f hpos hlt h200
  refine ⟨hpos, hlt, h200, pts (f / 512), ?_, ?_, ?_⟩
  · rw [h.leafTable_low (by omega), hval, hdiv]
  · rw [index_val, lvIndex_one, hval, hdiv]
    exact hpres
  · rw [index_val, lvIndex_one, hval, hdiv]
    exact hframe

/-- The loader's tables are in order. -/
theorem tables (h : Booted w pts m) : Tables (bootRank w pts) w m := by
  have h4 : bootRank w pts w.pml4 = 4 := rank_pml4
  have h3 := h.rank_pdp
  have h2 := h.rank_pd
  refine ⟨h.valid, h.low_used, ?_, ?_, ?_, ?_, ?_, ?_, h.pml4, ?_, h4, ?_, ?_, ?_⟩
  · intro t
    rw [bootRank]
    split_ifs <;> decide
  · intro t ht
    obtain ⟨hpos, hlt, h200⟩ := h.low t (rank_ne_zero_cases ht)
    exact ⟨by omega, h200, by omega, h.low_used t hlt⟩
  · intro t i ht h0
    rcases h.upper_cases ht h0 with ⟨rfl, rfl, he⟩ | ⟨rfl, rfl, he⟩ | ⟨rfl, hi, he⟩
    · rw [he.1.frame_eq h.pdp_low.2.1, h3, h4]
      exact ⟨rfl, he.2⟩
    · rw [he.1.frame_eq h.pd_low.2.1, h3, h2]
      exact ⟨rfl, he.2⟩
    · rw [he.1.frame_eq (h.pts_low hi).2.1, h2, h.rank_pts hi]
      exact ⟨rfl, he.2⟩
  · intro t i t' i' ht ht' h0 h0' hf
    have hclash {u u' : Nat} (hu : frame (m.mem (slot t i)) = frame (m.mem (slot t' i'))) (he : frame (m.mem (slot t i)) = u)
        (he' : frame (m.mem (slot t' i')) = u') (hne : bootRank w pts u ≠ bootRank w pts u') : False :=
      hne (by rw [← he, hu, he'])
    rcases h.upper_cases ht h0 with ⟨rfl, rfl, he⟩ | ⟨rfl, rfl, he⟩ | ⟨rfl, hi, he⟩ <;>
      rcases h.upper_cases ht' h0' with ⟨rfl, rfl, he'⟩ | ⟨rfl, rfl, he'⟩ | ⟨rfl, hi', he'⟩
    · exact ⟨rfl, Or.inl rfl⟩
    · exact (hclash hf (he.1.frame_eq h.pdp_low.2.1) (he'.1.frame_eq h.pd_low.2.1) (by omega)).elim
    · exact (hclash hf (he.1.frame_eq h.pdp_low.2.1) (he'.1.frame_eq (h.pts_low hi').2.1) (by have := h.rank_pts hi'; omega)).elim
    · exact (hclash hf (he.1.frame_eq h.pd_low.2.1) (he'.1.frame_eq h.pdp_low.2.1) (by omega)).elim
    · exact ⟨rfl, Or.inl rfl⟩
    · exact (hclash hf (he.1.frame_eq h.pd_low.2.1) (he'.1.frame_eq (h.pts_low hi').2.1) (by have := h.rank_pts hi'; omega)).elim
    · exact (hclash hf (he.1.frame_eq (h.pts_low hi).2.1) (he'.1.frame_eq h.pdp_low.2.1) (by have := h.rank_pts hi; omega)).elim
    · exact (hclash hf (he.1.frame_eq (h.pts_low hi).2.1) (he'.1.frame_eq h.pd_low.2.1) (by have := h.rank_pts hi; omega)).elim
    · rw [he.1.frame_eq (h.pts_low hi).2.1, he'.1.frame_eq (h.pts_low hi').2.1] at hf
      exact ⟨Fin.ext (h.pts_inj hi hi' hf), Or.inl rfl⟩
  · intro t i ht h0 hp
    rcases h.upper_cases ht h0 with ⟨-, -, he⟩ | ⟨-, -, he⟩ | ⟨-, -, he⟩ <;>
    · rw [he.1.2] at hp
      cases hp
  · intro t t' ht ht'
    have hroot {u : Nat} (hu : bootRank w pts u = 4) : u = w.pml4 := by
      rw [bootRank] at hu
      split_ifs at hu with h4
      · exact h4
      all_goals omega
    rw [hroot ht, hroot ht']
  · have hlow := h.pml4_low
    rw [h.cr3, frameAddr, frame_ofNat (by omega)]
    exact h4
  · have hpt := (h.pts_low (i := 1) (by decide)).2.1
    rw [h.pt] at hpt
    exact ⟨h.pml4_low.2.1, h.pdp_low.2.1, h.pd_low.2.1, hpt⟩
  · have hpd := h.pd_first 1 (by decide)
    rw [h.pt] at hpd
    exact ⟨h.pml4_first.1, h.pdp_first.1, hpd.1⟩
  · intro t hlt ht
    obtain ⟨hpos, -, h200⟩ := h.low t (rank_ne_zero_cases ht)
    exact (h.home ⟨hpos, hlt, h200⟩).mapped

/-- The window works for all frames below 8 MiB but its own. -/
theorem ready (h : Booted w pts m) : WindowReady w lowFrame m := by
  have hpt := h.pts_low (i := 1) (by decide)
  rw [h.pt] at hpt
  exact h.tables.ready_of_home (fun f hf => h.home hf) ⟨h.pml4_low, h.pdp_low, h.pd_low, hpt⟩

lemma pts_mem {i : Nat} (hi : i < 4) : pts i ∈ loaderTables w pts := by
  have hcases : pts i = pts 0 ∨ pts i = pts 1 ∨ pts i = pts 2 ∨ pts i = pts 3 := pts_cases hi
  rcases hcases with he | he | he | he <;> simp [loaderTables, he]

lemma upper_ne_pts (h : Booted w pts m) {t : Nat} (ht : t = w.pml4 ∨ t = w.pdp ∨ t = w.pd) {i : Nat} (hi : i < 4) :
    t ≠ pts i := by
  have hr := h.rank_pts hi
  rintro rfl
  rcases ht with ht | ht | ht <;> rw [ht] at hr
  · rw [rank_pml4] at hr
    cases hr
  · rw [h.rank_pdp] at hr
    cases hr
  · rw [h.rank_pd] at hr
    cases hr

lemma upper_ne_win (h : Booted w pts m) {t i : Nat} (ht : t = w.pml4 ∨ t = w.pdp ∨ t = w.pd) (hi : i < 512) :
    slot t i ≠ w.win := by
  intro heq
  refine h.upper_ne_pts ht (i := 1) (by decide) ?_
  rw [h.pt]
  exact (slot_inj hi (by decide) heq).1

lemma page_ne_win (h : Booted w pts m) {f : Nat} (hlt : f < 0x800) (hne : f ≠ 0x200) :
    slot (pts (f / 512)) (f % 512) ≠ w.win := by
  intro heq
  obtain ⟨hpt, hzero⟩ := slot_inj (Nat.mod_lt f (by decide)) (by decide) heq
  have hone := h.pts_inj (i := f / 512) (j := 1) (by omega) (by decide) (hpt.trans h.pt.symm)
  omega

section

variable {p : Pmm}

lemma pinned_of_used {a t : Nat} (hwin : a ≠ w.win) (hpres : (m.mem a).getLsbD 0 = true) (hframe : frame (m.mem a) = t)
    (ht : 0 < t ∧ t < 0x800 ∧ t ≠ 0x200) (hu : p.used t = true) : Pinned w.win { m with pmm := p } a := by
  subst hframe
  have hlt : frame (m.mem a) < 2 ^ 35 := Nat.lt_trans ht.2.1 (by decide)
  exact ⟨hwin, hpres, Tables.not_absent_of_used (m := { m with pmm := p }) (Nat.pos_iff_ne_zero.mp ht.1) hlt hu⟩

/-- The entries on the way from the PML4 to the page tables, under an allocator that has the loader's tables in use. -/
lemma path_pinned (h : Booted w pts m) (hused : ∀ t ∈ loaderTables w pts, p.used t = true) {i : Nat} (hi : i < 4) :
    (Pinned w.win { m with pmm := p } (slot w.pml4 0) ∧ frame (m.mem (slot w.pml4 0)) = w.pdp) ∧
    (Pinned w.win { m with pmm := p } (slot w.pdp 0) ∧ frame (m.mem (slot w.pdp 0)) = w.pd) ∧
    Pinned w.win { m with pmm := p } (slot w.pd i) ∧ frame (m.mem (slot w.pd i)) = pts i := by
  have h3 := h.pml4_first.1.frame_eq h.pdp_low.2.1
  have h2 := h.pdp_first.1.frame_eq h.pd_low.2.1
  have h1 := (h.pd_first i hi).1.frame_eq (h.pts_low hi).2.1
  refine ⟨⟨?_, h3⟩, ⟨?_, h2⟩, ?_, h1⟩
  · exact pinned_of_used (h.upper_ne_win (Or.inl rfl) (by decide)) h.pml4_first.1.2 h3 h.pdp_low
      (hused _ (by simp [loaderTables]))
  · exact pinned_of_used (h.upper_ne_win (Or.inr (Or.inl rfl)) (by decide)) h.pdp_first.1.2 h2 h.pd_low
      (hused _ (by simp [loaderTables]))
  · exact pinned_of_used (h.upper_ne_win (Or.inr (Or.inr rfl)) (by omega)) (h.pd_first i hi).1.2 h1 (h.pts_low hi)
      (hused _ (pts_mem hi))

/-- The MMU's way to a page below 8 MiB. -/
lemma settled (h : Booted w pts m) (hused : ∀ t ∈ loaderTables w pts, p.used t = true) {f o : Nat} (hf : lowFrame f)
    (hu : p.used f = true) (ho : o < 4096) :
    Settled (Pinned w.win { m with pmm := p }) m.mem (BitVec.ofNat 64 (f * 4096 + o)) 4 w.pml4 := by
  have hlt := hf.2.1
  obtain ⟨⟨p4, e4⟩, ⟨p3, e3⟩, p2, e2⟩ := h.path_pinned hused (i := f / 512) (by omega)
  obtain ⟨hpres, hframe⟩ := h.pages f hf.1 hlt hf.2.2
  have hval : (BitVec.ofNat 64 (f * 4096 + o)).toNat = f * 4096 + o := by
    rw [BitVec.toNat_ofNat]
    omega
  have i4 : lvIndex (BitVec.ofNat 64 (f * 4096 + o)) 4 = 0 := by
    simp only [lvIndex, hval]
    omega
  have i3 : lvIndex (BitVec.ofNat 64 (f * 4096 + o)) 3 = 0 := by
    simp only [lvIndex, hval]
    omega
  have i2 : lvIndex (BitVec.ofNat 64 (f * 4096 + o)) 2 = f / 512 := by
    simp only [lvIndex, hval]
    omega
  have i1 : lvIndex (BitVec.ofNat 64 (f * 4096 + o)) 1 = f % 512 := by
    simp only [lvIndex, hval]
    omega
  have hleaf := pinned_of_used (h.page_ne_win hlt hf.2.2) hpres hframe hf hu
  simp only [Settled, i4, i3, i2, i1, e4, e3, e2]
  exact ⟨p4, fun _ _ => ⟨p3, fun _ _ => ⟨p2, fun _ _ => ⟨hleaf, fun _ _ => trivial⟩⟩⟩⟩

/-- Under any allocator that has the loader's tables in use the window works for the low frames in use. -/
theorem ready_under (h : Booted w pts m) (hv : p.Valid) (hused : ∀ t ∈ loaderTables w pts, p.used t = true) :
    WindowReady w (fun f => lowFrame f ∧ p.used f = true) { m with pmm := p } := by
  have hr := h.ready
  have hcr3 : frame m.cr3 = w.pml4 := by
    have hlt := h.pml4_low.2.1
    rw [h.cr3, frameAddr, frame_ofNat (by omega)]
  obtain ⟨⟨p4, -⟩, ⟨p3, -⟩, p2, -⟩ := h.path_pinned hused (i := 1) (by decide)
  have hlow (t : Nat) (ht : t ∈ loaderTables w pts) : lowFrame t ∧ p.used t = true := ⟨h.low t ht, hused t ht⟩
  refine ⟨hv, fun f hf => ⟨hf.1.1, hf.1.2.1⟩, fun f o hf ho => ?_, fun f o hf ho => hr.identity f o hf.1 ho,
    ⟨hlow _ (by simp [loaderTables]), hlow _ (by simp [loaderTables]), hlow _ (by simp [loaderTables]), ?_⟩,
    ⟨p4, p3, p2, ?_⟩, hr.pml4, hr.pdp, hr.pd, hr.pt, hr.cr3, hr.small⟩
  · change Settled _ _ _ 4 (frame m.cr3)
    rw [hcr3]
    exact h.settled hused hf.1 hf.2 ho
  · rw [← h.pt]
    exact hlow _ (pts_mem (by decide))
  · change Pinned _ _ (slot (frame m.cr3) 0)
    rw [hcr3]
    exact p4

end

/-- What leaves the words of the loader's tables alone. -/
lemma congr_mem (h : Booted w pts m) {mem : Mem}
    (hmem : ∀ t ∈ loaderTables w pts, ∀ i < 512, mem (slot t i) = m.mem (slot t i)) :
    Booted w pts { m with mem := mem } := by
  have hpml4 (i : Nat) (hi : i < 512) := hmem w.pml4 (by simp [loaderTables]) i hi
  have hpdp (i : Nat) (hi : i < 512) := hmem w.pdp (by simp [loaderTables]) i hi
  have hpd (i : Nat) (hi : i < 512) := hmem w.pd (by simp [loaderTables]) i hi
  refine ⟨h.valid, h.low_used, h.pml4, h.cr3, h.pt, h.distinct, h.low, ?_, fun i hi hlt => ?_, ?_, fun i hi hlt => ?_,
    fun i hi => ?_, fun i hi hlt => ?_, fun f hpos hlt hne => ?_⟩
  · exact (congrArg (TableEntry · w.pdp) (hpml4 0 (by decide))).mpr h.pml4_first
  · exact (hpml4 i hlt).trans (h.pml4_rest i hi hlt)
  · exact (congrArg (TableEntry · w.pd) (hpdp 0 (by decide))).mpr h.pdp_first
  · exact (hpdp i hlt).trans (h.pdp_rest i hi hlt)
  · exact (congrArg (TableEntry · (pts i)) (hpd i (by omega))).mpr (h.pd_first i hi)
  · exact (hpd i hlt).trans (h.pd_rest i hi hlt)
  · have hleaf := hmem (pts (f / 512)) (pts_mem (by omega)) (f % 512) (Nat.mod_lt f (by decide))
    simp only [hleaf]
    exact h.pages f hpos hlt hne

/-- The loader's tables are the first session. -/
theorem inv (h : Booted w pts m) : Session.Inv w (bootRank w pts) ⟨m, [w.pml4]⟩ := by
  refine ⟨h.tables, fun r => ?_, fun t ht => ⟨w.pml4, List.mem_singleton_self _, ?_⟩⟩
  · rw [List.mem_singleton]
    constructor
    · rintro rfl
      exact rank_pml4
    · intro hr
      rw [bootRank] at hr
      split_ifs at hr with h4
      · exact h4
      all_goals omega
  · have hpdp {u : Nat} (hb : Below m.mem 2 w.pdp u) : Below m.mem 3 w.pml4 u := by
      refine Or.inr ⟨0, ne_zero_of_present h.pml4_first.1.2, ?_⟩
      change Below m.mem 2 (frame (m.mem (slot w.pml4 0))) u
      rwa [h.pml4_first.1.frame_eq h.pdp_low.2.1]
    have hpd {u : Nat} (hb : Below m.mem 1 w.pd u) : Below m.mem 3 w.pml4 u := by
      refine hpdp (Or.inr ⟨0, ne_zero_of_present h.pdp_first.1.2, ?_⟩)
      change Below m.mem 1 (frame (m.mem (slot w.pdp 0))) u
      rwa [h.pdp_first.1.frame_eq h.pd_low.2.1]
    have hpt {i : Nat} (hi : i < 4) : Below m.mem 3 w.pml4 (pts i) := by
      refine hpd (Or.inr ⟨⟨i, by omega⟩, ne_zero_of_present (h.pd_first i hi).1.2, ?_⟩)
      exact ((h.pd_first i hi).1.frame_eq (h.pts_low hi).2.1).symm
    have hmem := rank_ne_zero_cases ht
    simp only [List.mem_cons, List.not_mem_nil, or_false] at hmem
    rcases hmem with rfl | rfl | rfl | rfl | rfl | rfl | rfl
    · exact .refl _ _ _
    · exact hpdp (.refl _ _ _)
    · exact hpd (.refl _ _ _)
    · exact hpt (by decide)
    · exact hpt (by decide)
    · exact hpt (by decide)
    · exact hpt (by decide)

end Booted

/-- The tables of the window among the boot tables. -/
def bootWindow : WindowTables := ⟨1, 2, 3, 5⟩

lemma identityTables_page {f : Nat} (hf : f < 0x800) :
    identityTables 1 (slot (4 + f / 512) (f % 512)) = BitVec.ofNat 64 (f * 4096 + 3) := by
  have h1 : slot (4 + f / 512) (f % 512) - slot 4 0 = 8 * f := by
    unfold slot
    omega
  have h2 : 8 * f / 8 = f := Nat.mul_div_cancel_left f (by decide)
  unfold identityTables
  rw [if_neg, if_neg, if_neg, if_pos, h1, h2]
  all_goals
    unfold slot
    omega

lemma identityTables_upper {t i : Nat} (ht : 1 ≤ t) (ht4 : t < 4) (hi : i < 512)
    (hne : t < 3 → 0 < i) (hne3 : t = 3 → 4 ≤ i) : identityTables 1 (slot t i) = 0#64 := by
  unfold identityTables
  rw [if_neg, if_neg, if_neg, if_neg]
  all_goals
    unfold slot
    omega

lemma tableEntry_ofNat {t : Nat} (ht : t < 0x800) : TableEntry (BitVec.ofNat 64 (t * 4096 + 3)) t := by
  have hval : (BitVec.ofNat 64 (t * 4096 + 3)).toNat = t * 4096 + 3 := by
    rw [BitVec.toNat_ofNat]
    omega
  refine ⟨⟨BitVec.eq_of_toNat_eq ?_, ?_⟩, ?_⟩
  · rw [base_toNat, hval, BitVec.toNat_ofNat]
    omega
  · rw [BitVec.getLsbD, hval, Nat.testBit_zero]
    exact decide_eq_true (by omega)
  · rw [BitVec.getLsbD, hval, Nat.testBit_eq_decide_div_mod_eq]
    exact decide_eq_false (by omega)

/-- Any memory from 8 MiB on and any allocator in use make a first session. -/
theorem booted_running (mem : Mem) {pmm : Pmm} (hv : pmm.Valid) (hlow : ∀ f, f < 0x800 → pmm.used f = true) :
    Booted bootWindow (4 + ·) (runningMachine mem pmm) := by
  have hmem {t i : Nat} (ht : t < 0x800) (hi : i < 512) :
      (runningMachine mem pmm).mem (slot t i) = identityTables 1 (slot t i) := by
    refine if_pos ?_
    unfold slot
    omega
  have hentry {t i u : Nat} (ht : t < 0x800) (hi : i < 512) (hu : u < 0x800)
      (he : identityTables 1 (slot t i) = BitVec.ofNat 64 (u * 4096 + 3)) :
      TableEntry ((runningMachine mem pmm).mem (slot t i)) u := by
    rw [hmem ht hi, he]
    exact tableEntry_ofNat hu
  refine ⟨hv, hlow, rfl, rfl, rfl, by decide, by decide, ?_, ?_, ?_, ?_, ?_, ?_, ?_⟩
  · exact hentry (t := 1) (i := 0) (u := 2) (by decide) (by decide) (by decide) (by decide)
  · intro i hi hlt
    exact (hmem (t := 1) (by decide) hlt).trans
      (identityTables_upper (by decide) (by decide) hlt (fun _ => hi) (fun h => by cases h))
  · exact hentry (t := 2) (i := 0) (u := 3) (by decide) (by decide) (by decide) (by decide)
  · intro i hi hlt
    exact (hmem (t := 2) (by decide) hlt).trans
      (identityTables_upper (by decide) (by decide) hlt (fun _ => hi) (fun h => by cases h))
  · intro i hi
    refine hentry (t := 3) (i := i) (u := 4 + i) (by decide) (by omega) (by omega) ?_
    obtain rfl | rfl | rfl | rfl : i = 0 ∨ i = 1 ∨ i = 2 ∨ i = 3 := by omega
    all_goals decide
  · intro i hi hlt
    exact (hmem (t := 3) (by decide) hlt).trans
      (identityTables_upper (by decide) (by decide) hlt (fun _ => by omega) (fun _ => hi))
  · intro f _ hlt _
    have ht := tableEntry_ofNat hlt
    rw [hmem (by omega) (by omega), identityTables_page hlt]
    exact ⟨ht.1.2, ht.1.frame_eq hlt⟩

lemma reservedPmm_used {f : Nat} (hf : f < 0x800) : reservedPmm.used f = true := by
  have hget : reservedPmm.get (f / 8) = 0xff#8 := by
    change (if 0 + f / 8 < 256 then 0xff#8 else 0#8) = _
    rw [if_pos (by omega)]
  rw [Pmm.used, PackedBits.member, hget]
  obtain h | h | h | h | h | h | h | h : f % 8 = 0 ∨ f % 8 = 1 ∨ f % 8 = 2 ∨ f % 8 = 3 ∨ f % 8 = 4 ∨ f % 8 = 5 ∨
    f % 8 = 6 ∨ f % 8 = 7 := by omega
  all_goals
    rw [h]
    decide

lemma reservedPmm_valid : reservedPmm.Valid := ⟨by decide, reservedPmm_used (by decide), by decide⟩

/-- The frames that the next `n` single-frame allocations hand out. -/
def Pmm.nextFrames : Nat → Pmm → List Nat
  | 0, _ => []
  | n + 1, p => (p.pmmAllocUnmapped 1).1 / 4096 :: nextFrames n (p.pmmAllocUnmapped 1).2

lemma Pmm.Valid.nextRun_of_alloc {p : Pmm} {n s : Nat} (h : p.Valid) (halloc : (p.pmmAllocUnmapped n).1 = s * 4096)
    (hs : s ≠ 0) : p.NextRun n s := by
  have hn : 0 < n := by
    by_contra h0
    obtain rfl : n = 0 := by omega
    change 0 = s * 4096 at halloc
    omega
  rcases p.pmmAllocUnmapped_spec hn h.lastIdxBit h.zero with ⟨t, -, ht, hr⟩ | ⟨-, -, hr⟩
  · rw [hr] at halloc
    rwa [← Nat.eq_of_mul_eq_mul_right (by decide) halloc]
  · rw [hr] at halloc
    omega

lemma Pmm.Valid.supplied {mem : Mem} {n : Nat} {p : Pmm} (h : p.Valid)
    (hn : ∀ s ∈ p.nextFrames n, s ≠ 0 ∧ ∀ i : Fin 512, mem (slot s i) = 0#64) : Supplied mem n p := by
  induction n generalizing p with
  | zero => trivial
  | succ n ih =>
    obtain ⟨⟨h0, hz⟩, hrest⟩ := List.forall_mem_cons.mp hn
    rcases p.pmmAllocUnmapped_spec (by decide : 0 < 1) h.lastIdxBit h.zero with ⟨s, -, hs, hr⟩ | ⟨-, -, hr⟩
    · rw [hr, Nat.mul_div_cancel s (by decide)] at hz
      have hrec := ih (h.alloc 1) hrest
      rw [hr] at hrec
      exact ⟨s, hs, hz, hrec⟩
    · rw [hr] at h0
      exact (h0 (Nat.zero_div 4096)).elim

/-- Frames from 8 MiB on that hold zeros are a supply. -/
lemma supplied_running {mem : Mem} {p : Pmm} {n : Nat} (hp : p.Valid) (hhigh : ∀ f ∈ p.nextFrames n, 0x800 ≤ f)
    (hzero : ∀ f ∈ p.nextFrames n, ∀ i : Fin 512, mem (slot f i) = 0#64) (q : Pmm) :
    Supplied (runningMachine mem q).mem n p := by
  refine hp.supplied fun f hf => ?_
  have hge := hhigh f hf
  refine ⟨by omega, fun i => (if_neg ?_).trans (hzero f hf i)⟩
  unfold slot
  omega

/-- A mapping in a new PML4 slot, right after boot. -/
lemma Session.mapOk_running {page : Word} {f : Nat} {flags : PageFlags} (hpage : 0 < lvIndex page 4)
    (hplain : PlainFlags flags) (hf : f < 2 ^ 40) :
    Session.MapOk ⟨runningMachine (fun _ => 0#64) reservedPmm, [1]⟩ 1 page f flags := by
  have hslot : (runningMachine (fun _ => 0#64) reservedPmm).mem (slot 1 (lvIndex page 4)) = 0#64 :=
    (booted_running (fun _ => 0#64) reservedPmm_valid fun _ h => reservedPmm_used h).pml4_rest _ hpage
      (lvIndex_lt page 4)
  have hmissing : missing (runningMachine (fun _ => 0#64) reservedPmm).mem page 3 1 = 3 := if_pos hslot
  refine ⟨List.mem_singleton_self 1, hplain, hf, Session.pageOk_of_le _ ?_, ?_⟩
  · unfold lvIndex at hpage
    unfold pageNo
    omega
  · rw [hmissing]
    exact supplied_running reservedPmm_valid (by decide +kernel) (fun _ _ _ => rfl) reservedPmm

end HaiirOS
