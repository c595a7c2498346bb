import HaiirOS.Proofs.TableUpdate

/-!
# A walk that creates tables

The walk on physical memory under the page-table invariant, given that the frames it takes
for new tables hold zeros. It ends at the leaf entry of the page, leaves every translation as
it was, and writes entries of its own tables only.
-/

namespace HaiirOS

open AddressWord

/-- Page flags without frame bits and without the bit that makes an upper entry a large page. -/
structure PlainFlags (flags : PageFlags) : Prop where
  frame : frame flags = 0
  small : flags.getLsbD 7 = false

/-- The next `n` frames that single-frame allocations hand out exist and hold zeros in `mem`. -/
def Supplied (mem : Mem) : Nat → Pmm → Prop
  | 0, _ => True
  | n + 1, p => ∃ s, p.NextRun 1 s ∧ (∀ i : Fin 512, mem (slot s i) = 0#64) ∧ Supplied mem n (p.handOut s 1)

/-- The allocator after `n` single-frame allocations. -/
def Pmm.singles : Nat → Pmm → Pmm
  | 0, p => p
  | n + 1, p => singles n (p.pmmAllocUnmapped 1).2

/-- The number of tables missing on the way to the leaf entry for `v`. -/
def missing (mem : Mem) (v : Word) : Nat → Nat → Nat
  | 0, _ => 0
  | n + 1, t =>
    let e := mem (slot t (lvIndex v (n + 2)))
    if e = 0#64 then n + 1 else missing mem v n (frame e)

lemma missing_succ (mem : Mem) (v : Word) (n t : Nat) : missing mem v (n + 1) t =
    if mem (slot t (index v (n + 2))) = 0#64 then n + 1 else missing mem v n (frame (mem (slot t (index v (n + 2))))) := rfl

/-- The frames of the tables in the tree below the table in frame `t` of level `n + 1`. -/
def Below (mem : Mem) : Nat → Nat → Nat → Prop
  | 0, t, u => u = t
  | n + 1, t, u => u = t ∨ ∃ i : Fin 512, mem (slot t i) ≠ 0#64 ∧ Below mem n (frame (mem (slot t i))) u

/-- The rights `r` allow what `flags` ask for, and forbid execution only where they do. -/
def Grants (r : Rights) (flags : PageFlags) : Prop :=
  (flags.getLsbD 1 = true → r.writeable = true) ∧ (flags.getLsbD 2 = true → r.user = true) ∧
    (r.execDisable = true → flags.getLsbD 63 = true)

/-- An entry on the way does not take away what `flags` ask for: one that is not present will get
the flags, one that is keeps its own. -/
def EntryPermits (e flags : Word) : Prop :=
  (e.getLsbD 0 = true → (flags.getLsbD 1 = true → e.getLsbD 1 = true) ∧
    (flags.getLsbD 2 = true → e.getLsbD 2 = true)) ∧
  (e.getLsbD 63 = true → flags.getLsbD 63 = true)

/-- The existing entries on the way to the leaf entry for `v` permit `flags`. -/
def Permits (mem : Mem) (flags : PageFlags) (v : Word) : Nat → Nat → Prop
  | 0, _ => True
  | n + 1, t =>
    let e := mem (slot t (lvIndex v (n + 2)))
    e ≠ 0#64 → EntryPermits e flags ∧ Permits mem flags v n (frame e)

lemma permits_succ (mem : Mem) {flags : PageFlags} {v : Word} {n t : Nat} : Permits mem flags v (n + 1) t ↔
    (mem (slot t (index v (n + 2))) ≠ 0#64 → EntryPermits (mem (slot t (index v (n + 2)))) flags ∧
      Permits mem flags v n (frame (mem (slot t (index v (n + 2)))))) := Iff.rfl

/-- The rights that the upper entries on the way to the leaf entry for `v` leave. -/
def pathRights (mem : Mem) (v : Word) : Nat → Nat → Rights → Rights
  | 0, _, r => r
  | n + 1, t, r =>
    let e := mem (slot t (lvIndex v (n + 2)))
    pathRights mem v n (frame e) (r.meet e)

/-- From `d` to `d'` the tables have only grown, into frames that were free and held zeros, and all
translations are as before. -/
structure Grown (rank rank' : Nat → Nat) (d d' : Machine) : Prop where
  ranks : ∀ t, rank t ≠ 0 → rank' t = rank t
  fresh : ∀ t, rank t = 0 → rank' t ≠ 0 → 0x800 ≤ t ∧ rank' t < 4 ∧ d.pmm.used t = false
  used : ∀ f, d.pmm.used f = true → d'.pmm.used f = true
  child : ∀ t (i : Fin 512), 2 ≤ rank t → d.mem (slot t i) ≠ 0#64 →
    d'.mem (slot t i) ≠ 0#64 ∧ frame (d'.mem (slot t i)) = frame (d.mem (slot t i))
  leaf : ∀ t (i : Fin 512), rank t = 1 → d'.mem (slot t i) = d.mem (slot t i)
  same : ∀ n t v r, rank t = n + 1 → mmuWalk d'.mem v (n + 1) t r = mmuWalk d.mem v (n + 1) t r
  sPml4Table : d'.sPml4Table = d.sPml4Table
  cr3 : d'.cr3 = d.cr3

lemma Grown.refl (rank : Nat → Nat) (d d' : Machine) (hmem : d'.mem = d.mem) (hpmm : d'.pmm = d.pmm)
    (hs : d'.sPml4Table = d.sPml4Table) (hc : d'.cr3 = d.cr3) : Grown rank rank d d' := by
  refine ⟨fun _ _ => rfl, fun t h0 h1 => (h1 h0).elim, fun f hf => by rw [hpmm]; exact hf, ?_, ?_, ?_, hs, hc⟩
  · intro t i _ h0
    rw [hmem]
    exact ⟨h0, rfl⟩
  · intro t i _
    rw [hmem]
  · intro n t v r _
    rw [hmem]

lemma Grown.trans {rank rank1 rank' : Nat → Nat} {d d1 d' : Machine} (h : Grown rank rank1 d d1)
    (h' : Grown rank1 rank' d1 d') : Grown rank rank' d d' where
  ranks t ht := by
    have h1 := h.ranks t ht
    rw [h'.ranks t (by omega), h1]
  fresh t h0 h2 := by
    by_cases h1 : rank1 t = 0
    · obtain ⟨hlow, hlt, hfree⟩ := h'.fresh t h1 h2
      refine ⟨hlow, hlt, ?_⟩
      by_contra hu
      rw [Bool.not_eq_false] at hu
      rw [h.used t hu] at hfree
      cases hfree
    · obtain ⟨hlow, hlt, hfree⟩ := h.fresh t h0 h1
      exact ⟨hlow, by rw [h'.ranks t h1]; exact hlt, hfree⟩
  used f hf := h'.used f (h.used f hf)
  child t i ht h0 := by
    obtain ⟨h1, hf1⟩ := h.child t i ht h0
    obtain ⟨h2, hf2⟩ := h'.child t i (by rw [h.ranks t (by omega)]; exact ht) h1
    exact ⟨h2, hf2.trans hf1⟩
  leaf t i ht := by
    rw [h'.leaf t i (by rw [h.ranks t (by omega)]; exact ht), h.leaf t i ht]
  same n t v r ht := by
    rw [h'.same n t v r (by rw [h.ranks t (by omega)]; exact ht), h.same n t v r ht]
  sPml4Table := h'.sPml4Table.trans h.sPml4Table
  cr3 := h'.cr3.trans h.cr3

/-- One level of a creating walk: from entry `i` of the table in frame `t` to the table in frame `u`. -/
structure Entered (w : WindowTables) (rank rank' : Nat → Nat) (flags : PageFlags) (t : Nat) (i : Fin 512)
    (u : Nat) (d d' : Machine) : Prop where
  tables : Tables rank' w d'
  grown : Grown rank rank' d d'
  rank_child : rank' u + 1 = rank t
  ne_zero : d'.mem (slot t i) ≠ 0#64
  frame_eq : frame (d'.mem (slot t i)) = u
  lit : flags.getLsbD 0 = true → Lit rank' d' u
  mem : ∀ a, a ≠ slot t i → d'.mem a = d.mem a
  named : d.mem (slot t i) ≠ 0#64 → rank' = rank ∧ d'.pmm = d.pmm ∧ frame (d.mem (slot t i)) = u ∧
    d'.mem (slot t i) =
      if (d.mem (slot t i)).getLsbD 0 = true then d.mem (slot t i) else d.mem (slot t i) ||| flags
  made : d.mem (slot t i) = 0#64 → rank u = 0 ∧ d.pmm.NextRun 1 u ∧ d'.pmm = d.pmm.handOut u 1 ∧
    d'.mem (slot t i) = BitVec.ofNat 64 (u * 4096) ||| flags ∧ ∀ j : Fin 512, d.mem (slot u j) = 0#64
  log : ∃ l, d'.log = l ++ d.log ∧ (∀ a, .store a ∈ l → a = slot t i) ∧
    (d'.mem (slot t i) ≠ d.mem (slot t i) → .store (slot t i) ∈ l) ∧
    (∀ x, rank x = 0 → rank' x ≠ 0 → x = u ∧ .alloc 1 (x * 4096) ∈ l)

lemma PlainFlags.ne_lookupOnly {flags : PageFlags} (h : PlainFlags flags) : flags ≠ lookupOnly := by
  rintro rfl
  exact absurd h.frame (by decide)

namespace Tables

variable {rank : Nat → Nat} {w : WindowTables} {d d' : Machine} {v : Word} {n t p : Nat} {flags : PageFlags}

lemma lit_of_present (h : Tables rank w d) {i : Fin 512} (ht : 2 ≤ rank t)
    (hp : (d.mem (slot t i)).getLsbD 0 = true) : Lit rank d (frame (d.mem (slot t i))) := by
  intro u j hu h0 hf
  obtain ⟨rfl, hpar⟩ := h.parent u j t i hu ht h0 (ne_zero_of_present hp) hf
  rcases hpar with rfl | ⟨h4, rfl⟩
  · exact hp
  · have hfirst : d.mem (slot u (0 : Fin 512)) = d.mem (slot w.pml4 0) := h.shared u w.pml4 h4 h.top
    rw [hfirst]
    exact h.path.1.2

lemma of_eq (h : Tables rank w d) (hmem : d'.mem = d.mem) (hpmm : d'.pmm = d.pmm)
    (hs : d'.sPml4Table = d.sPml4Table) (hc : d'.cr3 = d.cr3) : Tables rank w d' := by
  refine h.congr (fun t i _ _ => by rw [hmem]) ?_ ?_ ?_ hs ?_
  · rw [hpmm]
    exact h.valid
  · rw [hpmm]
    exact h.low_used
  · rw [hpmm]
    exact fun t ht => (h.frame_ok t ht).2.2.2
  · rw [hc]
    exact h.cr3

lemma grown_put_upper (h : Tables rank w d) {i : Fin 512} {e : Word} (ho : Opens rank d t i e) :
    Grown rank rank d (d.put (slot t i) e) := by
  have hupper := ho.upper
  refine ⟨fun _ _ => rfl, fun x h0 h1 => (h1 h0).elim, fun f hf => hf, ?_, ?_, ?_, rfl, rfl⟩
  · intro u j hu h0
    rcases put_mem_cases (m := d) t i e u j with ⟨rfl, rfl, he⟩ | he
    · rw [he]
      exact ⟨ho.ne_zero, (ho.keeps.resolve_left h0).symm⟩
    · rw [he]
      exact ⟨h0, rfl⟩
  · intro u j hu
    exact put_mem_ne (slot_ne (by omega : rank u ≠ rank t) j i) e
  · intro n u v r hu
    exact h.mmuWalk_put_upper ho hu r

lemma opens_named (h : Tables rank w d) (ht : 2 ≤ rank t) {i : Fin 512} (h0 : d.mem (slot t i) ≠ 0#64)
    (hp : (d.mem (slot t i)).getLsbD 0 = false) (hf : PlainFlags flags)
    (hlit : flags.getLsbD 0 = true → Lit rank d t) : Opens rank d t i (d.mem (slot t i) ||| flags) := by
  obtain ⟨hrank, hsmall⟩ := h.child t i ht h0
  have hframe : frame (d.mem (slot t i) ||| flags) = frame (d.mem (slot t i)) := frame_or_of_zero _ hf.frame
  refine ⟨ht, hp, Or.inr hframe.symm, ?_, ?_, ?_, ?_, ?_, ?_⟩
  · intro hz
    rw [hz] at hframe
    have h00 := (h.frame_ok (frame (d.mem (slot t i))) (by omega)).1
    exact h00 (hframe.symm.trans (by decide))
  · rw [hframe]
    exact hrank
  · rw [BitVec.getLsbD_or, hsmall, hf.small]
    rfl
  · rw [hframe]
    exact h.dark t i ht h0 hp
  · intro u j hu hu0 hfu
    rw [hframe] at hfu
    obtain ⟨rfl, hpar⟩ := h.parent u j t i hu ht hu0 h0 hfu
    rcases hpar with rfl | ⟨h4, rfl⟩
    · exact ⟨rfl, rfl⟩
    · -- the shared entry is present
      have hrank0 := (h.child u 0 hu hu0).1
      rw [hfu] at hrank0
      have hpres : d.mem (slot t (0 : Fin 512)) = d.mem (slot w.pml4 0) := h.shared t w.pml4 (by omega) h.top
      rw [hpres, h.path.1.2] at hp
      cases hp
  · intro hbit
    rw [BitVec.getLsbD_or, hp, Bool.false_or] at hbit
    exact hlit hbit

lemma enter_named (h : Tables rank w d) (ht : 2 ≤ rank t) {i : Fin 512} (h0 : d.mem (slot t i) ≠ 0#64)
    (hf : PlainFlags flags) (hlit : flags.getLsbD 0 = true → Lit rank d t) :
    ∃ u d', d.enter (slot t i) flags = (some u, d') ∧ Entered w rank rank flags t i u d d' := by
  have habs : ¬ (d.fetch (slot t i)).Absent (d.mem (slot t i)) := (h.absent_iff ht i).not.mpr h0
  have hrank := (h.child t i ht h0).1
  have hfresh (x : Nat) (hx : rank x = 0) (hx' : rank x ≠ 0) (l : List Event) :
      x = frame (d.mem (slot t i)) ∧ .alloc 1 (x * 4096) ∈ l := (hx' hx).elim
  refine ⟨frame (d.mem (slot t i)), ((d.fetch (slot t i)).fetch (slot t i)).light (slot t i) flags, ?_, ?_⟩
  · rw [Machine.enter, if_neg habs]
  by_cases hp : (d.mem (slot t i)).getLsbD 0 = true
  · have hlight : ((d.fetch (slot t i)).fetch (slot t i)).light (slot t i) flags =
        (d.fetch (slot t i)).fetch (slot t i) := Machine.light_of_present (m := (d.fetch (slot t i)).fetch (slot t i)) hp flags
    rw [hlight]
    have htab : Tables rank w ((d.fetch (slot t i)).fetch (slot t i)) := h.of_eq rfl rfl rfl rfl
    refine ⟨htab, .refl rank d _ rfl rfl rfl rfl, hrank, h0, rfl, fun _ => ?_, fun _ _ => rfl,
      fun _ => ⟨rfl, rfl, rfl, (if_pos hp).symm⟩, fun hz => (h0 hz).elim,
      [.load (slot t i), .load (slot t i)], rfl, ?_, fun hch => (hch rfl).elim, fun x hx hx' => hfresh x hx hx' _⟩
    · exact htab.lit_of_present ht hp
    · intro a ha
      simp at ha
  · rw [Bool.not_eq_true] at hp
    have hlight : ((d.fetch (slot t i)).fetch (slot t i)).light (slot t i) flags =
        (((d.fetch (slot t i)).fetch (slot t i)).fetch (slot t i)).put (slot t i) (d.mem (slot t i) ||| flags) :=
      Machine.light_of_not_present (m := (d.fetch (slot t i)).fetch (slot t i)) hp hf.ne_lookupOnly
    rw [hlight]
    have hframe : frame (d.mem (slot t i) ||| flags) = frame (d.mem (slot t i)) := frame_or_of_zero _ hf.frame
    have htab : Tables rank w (((d.fetch (slot t i)).fetch (slot t i)).fetch (slot t i)) := h.of_eq rfl rfl rfl rfl
    have ho : Opens rank (((d.fetch (slot t i)).fetch (slot t i)).fetch (slot t i)) t i
        (d.mem (slot t i) ||| flags) := (h.opens_named ht h0 hp hf hlit).of_mem rfl
    have hmem : ((((d.fetch (slot t i)).fetch (slot t i)).fetch (slot t i)).put (slot t i)
        (d.mem (slot t i) ||| flags)).mem (slot t i) = d.mem (slot t i) ||| flags := put_mem_self _ _
    have htab' := htab.put_upper ho
    have hgrown : Grown rank rank d (((d.fetch (slot t i)).fetch (slot t i)).fetch (slot t i)) :=
      .refl rank d _ rfl rfl rfl rfl
    refine ⟨htab', hgrown.trans (htab.grown_put_upper ho), hrank, ?_, ?_, fun hbit => ?_,
      fun a ha => put_mem_ne ha _, fun _ => ⟨rfl, rfl, rfl, ?_⟩, fun hz => (h0 hz).elim,
      [.store (slot t i), .load (slot t i), .load (slot t i), .load (slot t i)], rfl, ?_,
      fun _ => List.mem_cons_self, fun x hx hx' => hfresh x hx hx' _⟩
    · rw [hmem]
      exact ho.ne_zero
    · rw [hmem]
      exact hframe
    · have hl := htab'.lit_of_present (i := i) ht (by rw [hmem, BitVec.getLsbD_or, hbit, Bool.or_true])
      rwa [hmem, hframe] at hl
    · rw [hmem, if_neg (by rw [hp]; decide)]
    · intro a ha
      simp at ha
      exact ha

lemma alloc (h : Tables rank w d) (count : Nat) : Tables rank w (d.pmmAllocUnmapped count).2 :=
  h.congr (fun _ _ _ _ => rfl) (h.valid.alloc count) (fun f hf => h.valid.used_mono count (h.low_used f hf))
    (fun t ht => h.valid.used_mono count (h.frame_ok t ht).2.2.2) rfl h.cr3

/-- The frame that the next allocation of one frame hands out is no table. -/
lemma next_frame (h : Tables rank w d) {s : Nat} (hs : d.pmm.NextRun 1 s) :
    rank s = 0 ∧ 0x800 ≤ s ∧ s < 2 ^ 35 ∧ d.pmm.used s = false := by
  have hfree := hs.allFree s (Nat.le_refl s) (Nat.lt_succ_self s)
  rw [Pmm.free, Bool.not_eq_true'] at hfree
  have hle := hs.le_bitmap
  have hsize := h.valid.size
  refine ⟨?_, ?_, by omega, hfree⟩
  · by_contra h0
    have hu := (h.frame_ok s h0).2.2.2
    rw [hfree] at hu
    cases hu
  · by_contra hlt
    have hu := h.low_used s (by omega)
    rw [hfree] at hu
    cases hu

/-- The machine that has taken frame `s` for the table that the entry at `a` lacks. -/
def taken (d : Machine) (a s : Nat) : Machine := ((d.fetch a).pmmAllocUnmapped 1).2.noteTable s

section Making

variable {s : Nat} {i : Fin 512}

lemma enter_eq_taken (h : Tables rank w d) (ht : 2 ≤ rank t) (h0 : d.mem (slot t i) = 0#64) (hf : PlainFlags flags)
    (hs : d.pmm.NextRun 1 s) : d.enter (slot t i) flags =
      (some s, (taken d (slot t i) s).put (slot t i) (BitVec.ofNat 64 (s * 4096) ||| flags)) := by
  have habs : (d.fetch (slot t i)).Absent (d.mem (slot t i)) := (h.absent_iff ht i).mpr h0
  have hlt := (h.next_frame hs).2.2.1
  have hframe : frame (BitVec.ofNat 64 (s * 4096)) = s := frame_ofNat (by omega)
  have haddr : ((d.fetch (slot t i)).pmmAllocUnmapped 1).1 = BitVec.ofNat 64 (s * 4096) := by
    change BitVec.ofNat 64 (d.pmm.pmmAllocUnmapped 1).1 = _
    rw [h.valid.alloc_eq (by decide : 0 < 1) hs]
  rw [Machine.enter, if_pos habs, if_pos hf.ne_lookupOnly]
  simp only [Machine.attach, haddr, hframe]
  rfl

lemma taken_pmm (h : Tables rank w d) (a : Nat) (hs : d.pmm.NextRun 1 s) : (taken d a s).pmm = d.pmm.handOut s 1 :=
  congrArg Prod.snd (h.valid.alloc_eq (by decide : 0 < 1) hs)

/-- At first the new frame is a table without a parent. -/
lemma taken_tables (h : Tables rank w d) (a : Nat) (hs : d.pmm.NextRun 1 s) (hz : ∀ j : Fin 512, d.mem (slot s j) = 0#64)
    {k : Nat} (hk : 0 < k) (hk4 : k < 4) : Tables (Function.update rank s k) w (taken d a s) := by
  obtain ⟨hrs, hlow, hlt, -⟩ := h.next_frame hs
  have hfetch : Tables rank w (d.fetch a) := h.of_eq rfl rfl rfl rfl
  have hbase : Tables rank w (taken d a s) := (hfetch.alloc 1).of_eq rfl rfl rfl rfl
  refine hbase.adopt hrs (by omega) (by omega) hlow hlt ?_ (fun j => Or.inl (hz j)) (fun h4 => by omega)
  rw [h.taken_pmm a hs]
  exact (h.valid.used_handOut_one hs s).mpr (Or.inl rfl)

lemma taken_grown (h : Tables rank w d) (a : Nat) (hs : d.pmm.NextRun 1 s) {k : Nat} (hk4 : k < 4) :
    Grown rank (Function.update rank s k) d (taken d a s) := by
  obtain ⟨hrs, hlow, -, hfree⟩ := h.next_frame hs
  refine ⟨fun u hu => Function.update_of_ne (by rintro rfl; exact hu hrs) .., fun u hu hu' => ?_, fun f hfu => ?_,
    fun _ _ _ hu0 => ⟨hu0, rfl⟩, fun _ _ _ => rfl, fun _ _ _ _ _ => rfl, rfl, rfl⟩
  · by_cases hus : u = s
    · subst hus
      rw [Function.update_self]
      exact ⟨hlow, hk4, hfree⟩
    · rw [Function.update_of_ne hus] at hu'
      exact (hu' hu).elim
  · rw [h.taken_pmm a hs]
    exact (h.valid.used_handOut_one hs f).mpr (Or.inr hfu)

/-- No entry names the new frame yet, and the one for it opens it. -/
lemma taken_opens (h : Tables rank w d) (ht : 2 ≤ rank t) (h0 : d.mem (slot t i) = 0#64) (hf : PlainFlags flags)
    (hlit : flags.getLsbD 0 = true → Lit rank d t) (hs : d.pmm.NextRun 1 s) (hz : ∀ j : Fin 512, d.mem (slot s j) = 0#64) :
    Opens (Function.update rank s (rank t - 1)) (taken d (slot t i) s) t i (BitVec.ofNat 64 (s * 4096) ||| flags) := by
  obtain ⟨hrs, hlow, hlt, -⟩ := h.next_frame hs
  have hst : t ≠ s := by
    rintro rfl
    omega
  have hmem : (taken d (slot t i) s).mem = d.mem := rfl
  have hframe : frame (BitVec.ofNat 64 (s * 4096) ||| flags) = s := by
    rw [frame_or_of_zero _ hf.frame, frame_ofNat (by omega)]
  have hrt : Function.update rank s (rank t - 1) t = rank t := Function.update_of_ne hst ..
  have hrs' : Function.update rank s (rank t - 1) s = rank t - 1 := Function.update_self ..
  have horphan (u : Nat) (j : Fin 512) (hu : 2 ≤ Function.update rank s (rank t - 1) u)
      (hu0 : d.mem (slot u j) ≠ 0#64) : u ≠ s ∧ 2 ≤ rank u ∧ frame (d.mem (slot u j)) ≠ s := by
    have hus : u ≠ s := by
      rintro rfl
      exact hu0 (hz j)
    rw [Function.update_of_ne hus] at hu
    have hc := (h.child u j hu hu0).1
    refine ⟨hus, hu, fun hfs => ?_⟩
    rw [hfs] at hc
    omega
  refine ⟨by rw [hrt]; exact ht, ?_, Or.inl h0, fun hzero => ?_, ?_, ?_, fun j => ?_, fun u j hu hu0 hfu => ?_,
    fun hbit u j hu hu0 hfu => ?_⟩
  · rw [hmem, h0]
    rfl
  · rw [hzero] at hframe
    have : frame (0#64) = 0 := by decide
    omega
  · rw [hframe, hrs', hrt]
    omega
  · rw [BitVec.getLsbD_or, getLsbD_ofNat_frame (by omega) (by decide), hf.small]
    rfl
  · rw [hframe, hmem, hz j]
    rfl
  · rw [hframe] at hfu
    exact ((horphan u j hu hu0).2.2 hfu).elim
  · rw [BitVec.getLsbD_or, getLsbD_ofNat_frame (by omega) (by decide), Bool.false_or] at hbit
    exact hlit hbit u j (horphan u j hu hu0).2.1 hu0 hfu

/-- An entry that is missing gets the next free frame, which becomes a table. -/
lemma enter_made (h : Tables rank w d) (ht : 2 ≤ rank t) (h0 : d.mem (slot t i) = 0#64)
    (hf : PlainFlags flags) (hlit : flags.getLsbD 0 = true → Lit rank d t)
    (hs : d.pmm.NextRun 1 s) (hz : ∀ j : Fin 512, d.mem (slot s j) = 0#64) :
    ∃ d', d.enter (slot t i) flags = (some s, d') ∧
      Entered w rank (Function.update rank s (rank t - 1)) flags t i s d d' := by
  obtain ⟨hrs, -, hlt, -⟩ := h.next_frame hs
  have hle := h.rank_le t
  have hnew : Tables (Function.update rank s (rank t - 1)) w (taken d (slot t i) s) :=
    h.taken_tables (slot t i) hs hz (by omega) (by omega)
  have ho := h.taken_opens ht h0 hf hlit hs hz
  have hgrown : Grown rank (Function.update rank s (rank t - 1)) d (taken d (slot t i) s) :=
    h.taken_grown (slot t i) hs (by omega)
  have htab := hnew.put_upper ho
  have hframe : frame (BitVec.ofNat 64 (s * 4096) ||| flags) = s := by
    rw [frame_or_of_zero _ hf.frame, frame_ofNat (by omega)]
  have hmem : ((taken d (slot t i) s).put (slot t i) (BitVec.ofNat 64 (s * 4096) ||| flags)).mem (slot t i) =
      BitVec.ofNat 64 (s * 4096) ||| flags := put_mem_self _ _
  refine ⟨_, h.enter_eq_taken ht h0 hf hs, htab, hgrown.trans (hnew.grown_put_upper ho), ?_, ?_, ?_, fun hbit => ?_,
    fun a ha => put_mem_ne ha _, fun hne => (hne h0).elim, fun _ => ⟨hrs, hs, h.taken_pmm _ hs, hmem, hz⟩,
    [.store (slot t i), .table s, .alloc 1 (s * 4096), .load (slot t i)], ?_, ?_, fun _ => List.mem_cons_self, ?_⟩
  · rw [Function.update_self]
    omega
  · rw [hmem]
    exact ho.ne_zero
  · rw [hmem]
    exact hframe
  · have hl := htab.lit_of_present (i := i) ho.upper (by rw [hmem, BitVec.getLsbD_or, hbit, Bool.or_true])
    rwa [hmem, hframe] at hl
  · have hlog : (d.pmm.pmmAllocUnmapped 1).1 = s * 4096 := congrArg Prod.fst (h.valid.alloc_eq (by decide : 0 < 1) hs)
    rw [← hlog]
    rfl
  · intro a ha
    simp at ha
    exact ha
  · intro x hx hx'
    by_cases hxs : x = s
    · subst hxs
      exact ⟨rfl, by simp⟩
    · rw [Function.update_of_ne hxs] at hx'
      exact (hx' hx).elim

end Making

/-! ### What a walk reads below a table -/

section

variable {mem' : Mem}

lemma missing_congr (h : Tables rank w d) (ht : rank t = n + 1)
    (hmem : ∀ x (i : Fin 512), rank x ≤ n + 1 → 2 ≤ rank x → mem' (slot x i) = d.mem (slot x i)) :
    missing mem' v n t = missing d.mem v n t := by
  induction n generalizing t with
  | zero => rfl
  | succ n ih =>
    have he : mem' (slot t (lvIndex v (n + 2))) = d.mem (slot t (lvIndex v (n + 2))) :=
      hmem t (index v (n + 2)) (by omega) (by omega)
    simp only [missing, he]
    split_ifs with h0
    · rfl
    · have hc := (h.child_index (by omega) h0).1
      exact ih (by omega) fun x i hx hx0 => hmem x i (by omega) hx0

lemma permits_congr (h : Tables rank w d) (ht : rank t = n + 1)
    (hmem : ∀ x (i : Fin 512), rank x ≤ n + 1 → 2 ≤ rank x → mem' (slot x i) = d.mem (slot x i)) :
    Permits mem' flags v n t ↔ Permits d.mem flags v n t := by
  induction n generalizing t with
  | zero => rfl
  | succ n ih =>
    have he : mem' (slot t (lvIndex v (n + 2))) = d.mem (slot t (lvIndex v (n + 2))) :=
      hmem t (index v (n + 2)) (by omega) (by omega)
    simp only [Permits, he]
    refine imp_congr_right fun h0 => and_congr_right fun _ => ?_
    have hc := (h.child_index (by omega) h0).1
    exact ih (by omega) fun x i hx hx0 => hmem x i (by omega) hx0

lemma below_congr (h : Tables rank w d) (ht : rank t = n + 1)
    (hmem : ∀ x (i : Fin 512), rank x ≤ n + 1 → 2 ≤ rank x → mem' (slot x i) = d.mem (slot x i)) (u : Nat) :
    Below mem' n t u ↔ Below d.mem n t u := by
  induction n generalizing t with
  | zero => rfl
  | succ n ih =>
    refine or_congr_right (exists_congr fun i => ?_)
    rw [hmem t i (by omega) (by omega)]
    refine and_congr_right fun h0 => ?_
    have hc := (h.child t i (by omega) h0).1
    exact ih (by omega) fun x i hx hx0 => hmem x i (by omega) hx0

end

end Tables

/-! ### Below a table of zeros -/

section

variable {mem : Mem} {v : Word} {n s : Nat} (hz : ∀ i : Fin 512, mem (slot s i) = 0#64)
include hz

lemma missing_of_zero : missing mem v n s = n := by
  cases n with
  | zero => rfl
  | succ n => exact if_pos (hz (index v (n + 2)))

lemma permits_of_zero (flags : PageFlags) : Permits mem flags v n s := by
  cases n with
  | zero => trivial
  | succ n => exact fun h0 => (h0 (hz (index v (n + 2)))).elim

lemma below_of_zero {u : Nat} (h : Below mem n s u) : u = s := by
  cases n with
  | zero => exact h
  | succ n =>
    rcases h with h | ⟨i, h0, -⟩
    · exact h
    · exact (h0 (hz i)).elim

end

lemma Below.refl (mem : Mem) (n t : Nat) : Below mem n t t := by
  cases n with
  | zero => rfl
  | succ n => exact Or.inl rfl

/-- A supply stays one where frames in use change only. -/
lemma Supplied.mono {mem mem' : Mem} {n : Nat} {p : Pmm} (hp : p.Valid)
    (hmem : ∀ s, p.used s = false → ∀ i : Fin 512, mem' (slot s i) = mem (slot s i)) (h : Supplied mem n p) :
    Supplied mem' n p := by
  induction n generalizing p with
  | zero => trivial
  | succ n ih =>
    obtain ⟨s, hs, hz, hrest⟩ := h
    have hfree := hs.allFree s (Nat.le_refl s) (Nat.lt_succ_self s)
    rw [Pmm.free, Bool.not_eq_true'] at hfree
    have hnext := hp.handOut (by decide) hs
    refine ⟨s, hs, fun i => by rw [hmem s hfree i, hz i], ih hnext (fun x hx => hmem x ?_) hrest⟩
    by_contra hu
    rw [Bool.not_eq_false] at hu
    rw [(hp.used_handOut_one hs x).mpr (Or.inr hu)] at hx
    cases hx

/-! ### Rights along the way -/

lemma grants_meet_present {r : Rights} {e flags : Word} (hp : e.getLsbD 0 = true) :
    Grants (r.meet e) flags ↔ Grants r flags ∧ EntryPermits e flags := by
  simp only [Grants, Rights.meet, EntryPermits, hp, Bool.and_eq_true, Bool.or_eq_true, true_implies]
  grind

lemma grants_meet_or {r : Rights} {e flags : Word} (hp : e.getLsbD 0 = false) :
    Grants (r.meet (e ||| flags)) flags ↔ Grants r flags ∧ EntryPermits e flags := by
  simp only [Grants, Rights.meet, EntryPermits, hp, BitVec.getLsbD_or, Bool.and_eq_true, Bool.or_eq_true,
    Bool.false_eq_true, false_implies, true_and]
  grind

lemma grants_meet_new {r : Rights} {s : Nat} (hs : s < 2 ^ 40) {flags : Word} :
    Grants (r.meet (BitVec.ofNat 64 (s * 4096) ||| flags)) flags ↔ Grants r flags := by
  simp only [Grants, Rights.meet, BitVec.getLsbD_or, getLsbD_ofNat_frame hs (by decide : 1 < 12 ∨ 52 ≤ 1),
    getLsbD_ofNat_frame hs (by decide : 2 < 12 ∨ 52 ≤ 2), getLsbD_ofNat_frame hs (by decide : 63 < 12 ∨ 52 ≤ 63),
    Bool.and_eq_true, Bool.or_eq_true, Bool.false_eq_true, false_or]
  grind

/-! ### The whole walk -/

/-- The log of a walk from the table in frame `t` of level `n + 1` covers all words written, which are
entries of upper tables of that tree or of new tables, and the allocation of each new table. -/
def Written (rank rank' : Nat → Nat) (n t : Nat) (d d' : Machine) : Prop :=
  ∃ l, d'.log = l ++ d.log ∧ (∀ a, d'.mem a ≠ d.mem a → .store a ∈ l) ∧
    (∀ a, .store a ∈ l → ∃ u, ∃ i : Fin 512, a = slot u i ∧ 2 ≤ rank' u ∧ (rank u = 0 ∨ Below d.mem n t u)) ∧
    (∀ u, rank u = 0 → rank' u ≠ 0 → .alloc 1 (u * 4096) ∈ l)

/-- A walk for `v` from the table in frame `t` of level `n + 1` to the table in frame `p` of level 1. The
new tables hang in the tree of the table it started from. -/
structure Reached (w : WindowTables) (rank rank' : Nat → Nat) (flags : PageFlags) (v : Word) (n t p : Nat)
    (d d' : Machine) : Prop where
  tables : Tables rank' w d'
  grown : Grown rank rank' d d'
  leaf : leafTable d'.mem v n t = some p
  rank_leaf : rank' p = 1
  lit : flags.getLsbD 0 = true → Lit rank' d' p
  tree : rank p = 0 ∨ Below d.mem n t p
  hangs : ∀ x, rank x = 0 → rank' x ≠ 0 → Below d'.mem n t x
  pmm : d'.pmm = d.pmm.singles (missing d.mem v n t)
  written : Written rank rank' n t d d'

/-- What a creating walk achieves: it leaves the tables above alone, and the way grants the flags if the
entries that existed permit them. -/
structure Opened (w : WindowTables) (rank rank' : Nat → Nat) (flags : PageFlags) (v : Word) (n t p : Nat)
    (d d' : Machine) : Prop extends Reached w rank rank' flags v n t p d d' where
  above : ∀ u (i : Fin 512), n + 1 < rank u → d'.mem (slot u i) = d.mem (slot u i)
  rights : ∀ r, Grants (pathRights d'.mem v n t r) flags ↔ Grants r flags ∧ Permits d.mem flags v n t

variable {rank : Nat → Nat} {w : WindowTables} {d : Machine} {v : Word} {n t : Nat} {flags : PageFlags}

lemma below_leafTable {mem : Mem} {p : Nat} (hp : leafTable mem v n t = some p) : Below mem n t p := by
  induction n generalizing t with
  | zero => exact (Option.some.inj hp).symm
  | succ n ih =>
    rw [leafTable_succ] at hp
    split_ifs at hp with h0
    exact Or.inr ⟨index v (n + 2), h0, ih hp⟩

lemma missing_of_leafTable {mem : Mem} {p : Nat} (hp : leafTable mem v n t = some p) : missing mem v n t = 0 := by
  induction n generalizing t with
  | zero => rfl
  | succ n ih =>
    rw [leafTable_succ] at hp
    split_ifs at hp with h0
    simp only [missing, if_neg h0]
    exact ih hp

lemma Tables.reached_of_log (h : Tables rank w d) (ht : rank t = n + 1) {p : Nat}
    (hp : leafTable d.mem v n t = some p) (hlit : flags.getLsbD 0 = true → Lit rank d p) {l : List Event}
    {d' : Machine} (hd : d' = { d with log := l ++ d.log }) (hl : ∀ a, .store a ∉ l) :
    Reached w rank rank flags v n t p d d' := by
  subst hd
  refine ⟨h.of_eq rfl rfl rfl rfl, .refl rank d _ rfl rfl rfl rfl, hp, h.rank_leafTable ht hp, hlit,
    Or.inr (below_leafTable hp), fun x hx hx' => (hx' hx).elim, ?_, l, rfl, fun a ha => (ha rfl).elim,
    fun a ha => (hl a ha).elim, fun u hu hu' => (hu' hu).elim⟩
  rw [missing_of_leafTable hp]
  rfl

section Level

variable {rank1 rank' : Nat → Nat} {u p : Nat} {d1 d' : Machine}

/-- One level leaves the tables below it alone. -/
lemma Entered.lower (h1 : Entered w rank rank1 flags t (index v (n + 2)) u d d1) (ht : rank t = n + 2) (x : Nat) (i : Fin 512)
    (hx : rank x ≤ n + 1) : d1.mem (slot x i) = d.mem (slot x i) :=
  h1.mem _ (Tables.slot_ne (by omega : rank x ≠ rank t) i _)

/-- The tree that the rest of the walk is in hangs in the tree that it started in. -/
lemma Entered.tree (h : Tables rank w d) (ht : rank t = n + 2) (h1 : Entered w rank rank1 flags t (index v (n + 2)) u d d1)
    (hnew : d.mem (slot t (index v (n + 2))) = 0#64 → ∀ i : Fin 512, d1.mem (slot u i) = 0#64) {x : Nat}
    (hx : rank1 x = 0 ∨ Below d1.mem n u x) : rank x = 0 ∨ Below d.mem (n + 1) t x := by
  have hru := h1.rank_child
  rcases hx with hx1 | hbel
  · left
    by_contra hx0
    exact hx0 ((h1.grown.ranks x hx0).symm.trans hx1)
  · by_cases h0 : d.mem (slot t (index v (n + 2))) = 0#64
    · left
      rw [below_of_zero (hnew h0) hbel]
      exact (h1.made h0).1
    · right
      obtain ⟨rfl, -, rfl, -⟩ := h1.named h0
      exact Or.inr ⟨index v (n + 2), h0, (h.below_congr (by omega) (fun y j hy _ => h1.lower ht y j hy) x).mp hbel⟩

/-- One level and the rest of the walk take one frame for each table that was missing. -/
lemma Entered.singles (h : Tables rank w d) (ht : rank t = n + 2)
    (h1 : Entered w rank rank1 flags t (index v (n + 2)) u d d1)
    (hnew : d.mem (slot t (index v (n + 2))) = 0#64 → ∀ i : Fin 512, d1.mem (slot u i) = 0#64) :
    d1.pmm.singles (missing d1.mem v n u) = d.pmm.singles (missing d.mem v (n + 1) t) := by
  have hru := h1.rank_child
  rw [missing_succ d.mem v n t]
  by_cases h0 : d.mem (slot t (index v (n + 2))) = 0#64
  · obtain ⟨-, hnext, hpmm, -⟩ := h1.made h0
    rw [missing_of_zero (hnew h0), hpmm, if_pos h0, Pmm.singles, h.valid.alloc_eq (by decide) hnext]
  · obtain ⟨rfl, hpmm, rfl, -⟩ := h1.named h0
    rw [hpmm, if_neg h0, h.missing_congr (by omega) (fun x i hx _ => h1.lower ht x i hx)]

lemma Entered.written (h : Tables rank w d) (ht : rank t = n + 2)
    (h1 : Entered w rank rank1 flags t (index v (n + 2)) u d d1) (hgrown : Grown rank rank' d d')
    (hnew : d.mem (slot t (index v (n + 2))) = 0#64 → ∀ i : Fin 512, d1.mem (slot u i) = 0#64)
    (h2 : Written rank1 rank' n u d1 d') : Written rank rank' (n + 1) t d d' := by
  obtain ⟨l1, hl1, hst1, hch1, hal1⟩ := h1.log
  obtain ⟨l2, hl2, hch2, hst2, hal2⟩ := h2
  refine ⟨l2 ++ l1, by rw [hl2, hl1, List.append_assoc], fun a ha => ?_, fun a ha => ?_, fun x hx hx' => ?_⟩
  · by_cases ha2 : d'.mem a = d1.mem a
    · rw [ha2] at ha
      have hat : a = slot t (index v (n + 2)) := by
        by_contra hn
        exact ha (h1.mem a hn)
      subst hat
      exact List.mem_append_right _ (hch1 ha)
    · exact List.mem_append_left _ (hch2 a ha2)
  · rcases List.mem_append.mp ha with ha | ha
    · obtain ⟨x, i, rfl, hx, hor⟩ := hst2 a ha
      exact ⟨x, i, rfl, hx, h1.tree h ht hnew hor⟩
    · refine ⟨t, index v (n + 2), hst1 a ha, ?_, Or.inr (.refl _ _ _)⟩
      rw [hgrown.ranks t (by omega), ht]
      omega
  · by_cases hx1 : rank1 x = 0
    · exact List.mem_append_left _ (hal2 x hx1 hx')
    · exact List.mem_append_right _ (hal1 x hx hx1).2

/-- The entry of a level that the walk went through grants what was asked for, if it permits it. -/
lemma Entered.rights (h : Tables rank w d) (ht : rank t = n + 2)
    (h1 : Entered w rank rank1 flags t (index v (n + 2)) u d d1)
    (hnew : d.mem (slot t (index v (n + 2))) = 0#64 → ∀ i : Fin 512, d1.mem (slot u i) = 0#64) (r : Rights) :
    Grants (r.meet (d1.mem (slot t (index v (n + 2))))) flags ∧ Permits d1.mem flags v n u ↔
      Grants r flags ∧ Permits d.mem flags v (n + 1) t := by
  have hru := h1.rank_child
  rw [permits_succ d.mem]
  by_cases h0 : d.mem (slot t (index v (n + 2))) = 0#64
  · obtain ⟨-, hnext, -, he, -⟩ := h1.made h0
    have hlt := (h.next_frame hnext).2.2.1
    rw [he, grants_meet_new (by omega)]
    exact and_congr_right fun _ => ⟨fun _ hn => (hn h0).elim, fun _ => permits_of_zero (hnew h0) flags⟩
  · obtain ⟨rfl, -, rfl, he⟩ := h1.named h0
    have hperm : Permits d1.mem flags v n (frame (d.mem (slot t (index v (n + 2))))) ↔
        Permits d.mem flags v n (frame (d.mem (slot t (index v (n + 2))))) :=
      h.permits_congr (by omega) fun x i hx _ => h1.lower ht x i hx
    rw [hperm, he]
    split_ifs with hp
    · rw [grants_meet_present hp, and_assoc]
      exact and_congr_right fun _ => ⟨fun hh _ => hh, fun hh => hh h0⟩
    · rw [Bool.not_eq_true] at hp
      rw [grants_meet_or hp, and_assoc]
      exact and_congr_right fun _ => ⟨fun hh _ => hh, fun hh => hh h0⟩

lemma Entered.opened (h : Tables rank w d)
    (ht : rank t = n + 2) (h1 : Entered w rank rank1 flags t (index v (n + 2)) u d d1)
    (h2 : Opened w rank1 rank' flags v n u p d1 d')
    (hnew : d.mem (slot t (index v (n + 2))) = 0#64 → ∀ i : Fin 512, d1.mem (slot u i) = 0#64) :
    Opened w rank rank' flags v (n + 1) t p d d' := by
  have hrt : rank1 t = n + 2 := by rw [h1.grown.ranks t (by omega), ht]
  have hentry : d'.mem (slot t (index v (n + 2))) = d1.mem (slot t (index v (n + 2))) :=
    h2.above t (index v (n + 2)) (by omega)
  have hframe := h1.frame_eq
  have hne := h1.ne_zero
  rw [← hentry] at hframe hne
  have hgrown := h1.grown.trans h2.grown
  refine ⟨⟨h2.tables, hgrown, ?_, h2.rank_leaf, h2.lit, h1.tree h ht hnew h2.tree, fun x hx hx' => ?_,
    h2.pmm.trans (h1.singles h ht hnew), h1.written h ht hgrown hnew h2.written⟩, fun x i hx => ?_, fun r => ?_⟩
  · rw [index_val] at hframe hne
    rw [leafTable_succ, if_neg hne, hframe]
    exact h2.leaf
  · refine Or.inr ⟨index v (n + 2), hne, ?_⟩
    rw [hframe]
    by_cases hx1 : rank1 x = 0
    · exact h2.hangs x hx1 hx'
    · obtain ⟨l1, hlog⟩ := h1.log
      rw [(hlog.2.2.2 x hx hx1).1]
      exact .refl _ _ _
  · rw [h2.above x i (by rw [h1.grown.ranks x (by omega)]; omega)]
    exact h1.mem _ (Tables.slot_ne (by omega : rank x ≠ rank t) i _)
  · rw [pathRights]
    rw [index_val] at hframe
    simp only [hframe]
    have hrights := h1.rights h ht hnew r
    rw [← hentry, index_val] at hrights
    rw [h2.rights, hrights]

end Level

/-- One level of a walk, with a supply for the rest of it. -/
lemma Tables.enter_create (h : Tables rank w d) (ht : rank t = n + 2) (hf : PlainFlags flags)
    (hlit : flags.getLsbD 0 = true → Lit rank d t) (hsup : Supplied d.mem (missing d.mem v (n + 1) t) d.pmm) :
    ∃ u d1 rank1, d.enter (slot t (index v (n + 2))) flags = (some u, d1) ∧
      Entered w rank rank1 flags t (index v (n + 2)) u d d1 ∧
      (d.mem (slot t (index v (n + 2))) = 0#64 → ∀ i : Fin 512, d1.mem (slot u i) = 0#64) ∧
      Supplied d1.mem (missing d1.mem v n u) d1.pmm := by
  -- frames that are free do not change
  have hfree {d1 : Machine} (hm : ∀ a, a ≠ slot t (index v (n + 2)) → d1.mem a = d.mem a) (s : Nat)
      (hs : d.pmm.used s = false) (i : Fin 512) : d1.mem (slot s i) = d.mem (slot s i) := by
    refine hm _ fun heq => ?_
    obtain ⟨rfl, -⟩ := slot_inj i.isLt (index v (n + 2)).isLt heq
    rw [(h.frame_ok s (by omega)).2.2.2] at hs
    cases hs
  by_cases h0 : d.mem (slot t (index v (n + 2))) = 0#64
  · rw [missing_succ, if_pos h0] at hsup
    obtain ⟨s, hs, hz, hrest⟩ := hsup
    obtain ⟨d1, henter, h1⟩ := h.enter_made (i := index v (n + 2)) (by omega) h0 hf hlit hs hz
    have hns := (h.next_frame hs).2.2.2
    have hz1 (i : Fin 512) : d1.mem (slot s i) = 0#64 := by rw [hfree h1.mem s hns i, hz i]
    have hvalid := h.valid.handOut (by decide) hs
    refine ⟨s, d1, _, henter, h1, fun _ => hz1, ?_⟩
    rw [missing_of_zero hz1, (h1.made h0).2.2.1]
    refine hrest.mono hvalid fun x hx => hfree h1.mem x ?_
    by_contra hu
    rw [Bool.not_eq_false] at hu
    rw [(h.valid.used_handOut_one hs x).mpr (Or.inr hu)] at hx
    cases hx
  · obtain ⟨u, d1, henter, h1⟩ := h.enter_named (i := index v (n + 2)) (by omega) h0 hf hlit
    obtain ⟨-, hpmm, rfl, -⟩ := h1.named h0
    have hru := h1.rank_child
    refine ⟨_, d1, rank, henter, h1, fun hz => (h0 hz).elim, ?_⟩
    rw [hpmm, h.missing_congr (by omega) (fun x i hx _ => h1.mem _ (slot_ne (by omega : rank x ≠ rank t) i _))]
    refine Supplied.mono h.valid (fun s hs => hfree h1.mem s hs) ?_
    rwa [missing_succ, if_neg h0] at hsup

/-- With a supply of empty frames a creating walk reaches a leaf entry, and it stays clear of the window. -/
theorem Tables.directEntry_create (h : Tables rank w d) {low : Nat → Prop} (ht : rank t = n + 1)
    (hlow : ∀ f, f < 0x800 → rank f ≠ 0 → low f) (hf : PlainFlags flags)
    (hlit : flags.getLsbD 0 = true → Lit rank d t) (hsup : Supplied d.mem (missing d.mem v n t) d.pmm) :
    Clear w low flags v n d t ∧ ∃ p d' rank', d.directEntry flags v n t = (some (slot p (lvIndex v 1)), d') ∧
      Opened w rank rank' flags v n t p d d' := by
  induction n generalizing rank d t with
  | zero =>
    refine ⟨trivial, t, d, rank, rfl, ?_, fun _ _ _ => rfl, fun r => (and_iff_left trivial).symm⟩
    exact h.reached_of_log ht rfl hlit (l := []) rfl (fun a ha => by cases ha)
  | succ n ih =>
    obtain ⟨u, d1, rank1, henter, h1, hnew, hsup1⟩ := h.enter_create ht hf hlit hsup
    have hru := h1.rank_child
    obtain ⟨hclear, p, d', rank', hwalk, h2⟩ := ih h1.tables (by omega)
      (fun f hf hr => hlow f hf fun h0 => by
        have hge := (h1.grown.fresh f h0 hr).1
        omega) h1.lit hsup1
    refine ⟨⟨h.slot_ne_win (by omega) (lvIndex_lt v (n + 2)), fun habs hlt => ?_, ?_⟩, p, d', rank', ?_,
      h1.opened h ht h2 hnew⟩
    · have h0 := (h.absent_iff (by omega) (index v (n + 2))).not.mp habs
      have hc := (h.child t (index v (n + 2)) (by omega) h0).1
      rw [index_val] at hc
      refine hlow _ ?_ (by omega)
      rw [base_toNat, identityEnd] at hlt
      unfold frame
      omega
    · rw [index_val] at henter
      simp only [henter]
      exact hclear
    · rw [index_val] at henter
      rw [Machine.directEntry]
      simp only [henter]
      exact hwalk

end HaiirOS
