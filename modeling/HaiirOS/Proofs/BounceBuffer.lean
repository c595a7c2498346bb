import HaiirOS.Proofs.AhciTransfer
import HaiirOS.Proofs.AllOrNothing
import HaiirOS.Proofs.PmmFree

/-!
# The driver's buffer of a request

A read asks for the frames that its bytes fill and gives the same run back; a write takes the
number of bytes for the number of frames. Neither looks at the address that it gets.
-/

namespace HaiirOS

open AddressWord

section Frames

lemma Supplied.used_singles {mem : Mem} {n : Nat} {p : Pmm} (h : Supplied mem n p) (hv : p.Valid) (f : Nat) :
    (p.singles n).used f = true ↔ p.used f = true ∨ f ∈ p.nextFrames n := by
  induction n generalizing p with
  | zero => exact ⟨Or.inl, fun h => h.resolve_right List.not_mem_nil⟩
  | succ n ih =>
    obtain ⟨s, hs, -, hrest⟩ := h
    have hv' := hv.handOut (by decide) hs
    have hsingles : p.singles (n + 1) = (p.handOut s 1).singles n := by
      rw [Pmm.singles, hv.alloc_eq (by decide) hs]
    have hnext : p.nextFrames (n + 1) = s :: (p.handOut s 1).nextFrames n := by
      rw [Pmm.nextFrames, hv.alloc_eq (by decide) hs, Nat.mul_div_cancel s (by decide)]
    rw [hsingles, hnext, ih hrest hv', hv.used_handOut_one hs, List.mem_cons, or_assoc]
    exact or_left_comm

lemma Supplied.nextFrames_free {mem : Mem} {n : Nat} {p : Pmm} (h : Supplied mem n p) (hv : p.Valid) {f : Nat}
    (hf : f ∈ p.nextFrames n) : p.used f = false := by
  induction n generalizing p with
  | zero => cases hf
  | succ n ih =>
    obtain ⟨s, hs, -, hrest⟩ := h
    have hv' := hv.handOut (by decide) hs
    rw [Pmm.nextFrames, hv.alloc_eq (by decide) hs, Nat.mul_div_cancel s (by decide), List.mem_cons] at hf
    rcases hf with rfl | hf
    · exact (Pmm.free_iff p f).mp (hs.allFree f (Nat.le_refl f) (Nat.lt_succ_self f))
    · have hfree := ih hrest hv' hf
      rw [← Bool.not_eq_true, hv.used_handOut_one hs, not_or, Bool.not_eq_true] at hfree
      exact hfree.2

end Frames

section Size

variable {size : BitVec 64}

lemma alignedBufSize_toNat : (alignedBufSize size).toNat = (size.toNat + 4095) % 2 ^ 64 / 4096 * 4096 := by
  have hbase : alignedBufSize size = base (size + 0x1000#64 - 1#64) := rfl
  have hsum : (size + 0x1000#64 - 1#64).toNat = (size.toNat + 4095) % 2 ^ 64 := by
    have := size.isLt
    rw [BitVec.toNat_sub, BitVec.toNat_add]
    change (2 ^ 64 - 1 + (size.toNat + 4096) % 2 ^ 64) % 2 ^ 64 = _
    omega
  rw [hbase, base_toNat, hsum]

lemma bounceFrames_read : bounceFrames false size = (size.toNat + 4095) % 2 ^ 64 / 4096 := by
  change (alignedBufSize size / 0x1000#64).toNat = _
  rw [BitVec.toNat_udiv, alignedBufSize_toNat]
  exact Nat.mul_div_cancel _ (by decide)

lemma bounceFrames_write : bounceFrames true size = (size.toNat + 4095) % 2 ^ 64 / 4096 * 4096 := alignedBufSize_toNat

/-- The number of frames asked for is right for a read that does not wrap, and where nothing is read or written. -/
lemma bounceFrames_iff (write : Bool) : bounceFrames write size = (size.toNat + 4095) / 4096 ↔
    size = 0#64 ∨ write = false ∧ size.toNat + 4095 < 2 ^ 64 := by
  have := size.isLt
  have hzero : size = 0#64 ↔ size.toNat = 0 := by
    rw [← BitVec.toNat_inj]
    rfl
  rw [hzero]
  cases write with
  | false =>
    rw [bounceFrames_read]
    simp only [true_and]
    omega
  | true =>
    rw [bounceFrames_write]
    simp only [Bool.true_eq_false, false_and, or_false]
    omega

lemma bounceFrames_zero {write : Bool} : bounceFrames write 0#64 = 0 := by
  rw [(bounceFrames_iff write).mpr (Or.inl rfl)]
  rfl

end Size

namespace Session

/-- The tables that the pages of the next run of `n` frames from `g` on lack. -/
def tablesFor (s : Session) (n g : Nat) : Nat := (missingRange s.machine.mem s.kernelRoot (fun i => frameAddr (g + i)) 0 n).card

/-- None of the frames that become tables for the next run of `n` frames lies in the run. -/
def TablesApart (s : Session) (n : Nat) : Prop := ∀ g, s.machine.pmm.NextRun n g →
  ∀ f ∈ (s.machine.pmm.handOut g n).nextFrames (s.tablesFor n g), f < g ∨ g + n ≤ f

variable {w : WindowTables} {rank : Nat → Nat} {s : Session} {n : Nat}

/-- The frames for the buffer, which are mapped one to one. -/
structure Buffer (w : WindowTables) (s : Session) (n g : Nat) (m : Machine) : Prop where
  run : s.machine.pmm.NextRun n g
  high : 0x800 ≤ g ∧ g + n < 2 ^ 35
  tables : ∃ rank', Tables rank' w m ∧ ∀ t, rank' t ≠ 0 → Session.IsTable ⟨m, s.roots⟩ t
  mapped : ∀ i < n, m.pageFrame (frameAddr (g + i)) = some (g + i)
  fresh : ∀ f ∈ (s.machine.pmm.handOut g n).nextFrames (s.tablesFor n g), (s.machine.pmm.handOut g n).used f = false
  marks : ∀ f, m.pmm.used f = true ↔
    (s.machine.pmm.handOut g n).used f = true ∨ f ∈ (s.machine.pmm.handOut g n).nextFrames (s.tablesFor n g)

lemma Inv.pmmAlloc_buffer (h : s.Inv w rank) (hclean : Clean s.machine) (hn : 0 < n)
    (henough : s.EnoughFrames (.pmmAllocCustom n 3#64)) :
    ∃ g m, s.machine.pmmAlloc n = some (frameAddr g, m) ∧ s.Buffer w n g m := by
  obtain ⟨g, hnext, hcard⟩ := henough.resolve_left hn.ne'
  rw [h.kernelRoot_eq] at hcard
  obtain ⟨hlow, hfit⟩ := h.nextRun_high hn hnext
  have hplain : PlainFlags 3#64 := ⟨by decide, by decide⟩
  have halloc := h.tables.valid.alloc_eq hn hnext
  have hcustom : s.machine.pmmAllocCustom n 3#64 = _ :=
    Session.Inv.pmmAllocCustom_eq s.machine (congrArg Prod.fst halloc)
  have hpmm : (s.machine.pmmAllocUnmapped n).2.pmm = s.machine.pmm.handOut g n := congrArg Prod.snd halloc
  have h1 := h.alloc n
  have hclean1 : Clean (s.machine.pmmAllocUnmapped n).2 :=
    fun f hf => hclean f ((h.tables.valid.freeSet_alloc n).1 hf)
  rw [← hpmm] at hcard
  obtain ⟨m, hloop, ⟨rank', l, hl, -⟩, hsingles⟩ := h1.mapRun_enough hplain hlow hfit hclean1 hcard
  have hsup : Supplied (s.machine.pmmAllocUnmapped n).2.mem (s.tablesFor n g) (s.machine.pmmAllocUnmapped n).2.pmm := by
    apply Stocked.supplied ⟨hclean1, ?_⟩ h1.tables.valid fun f hf => h1.tables.low_used f (by omega)
    rw [tablesFor, h.kernelRoot_eq]
    exact hcard
  have hsize := h.tables.valid.size
  have hend := hnext.le_bitmap
  refine ⟨g, m, ?_, hnext, ⟨hlow, by omega⟩, ⟨rank', hl.inv.tables, hl.inv.reach⟩, fun i hi => ?_, fun f hf => ?_,
    fun f => ?_⟩
  · have hflags : (PageFlags.present ||| PageFlags.writeable) = 3#64 := by decide
    rw [Machine.pmmAlloc, hflags, hcustom, hloop]
    rfl
  · have hmaps := hl.maps h.tables.top hplain (by omega) hi
    have hfound := hmaps.found (by decide)
    have hpage : (frameAddr (g + i)).toNat % 4096 = 0 := by
      rw [frameAddr, BitVec.toNat_ofNat]
      omega
    rw [Machine.pageFrame, hl.inv.tables.frame_pml4]
    have hphys := congrArg (Option.map (· / 4096)) hfound
    rw [Option.map_map, hpage] at hphys
    rw [Option.map_some, Nat.add_zero, Nat.mul_div_cancel _ (by decide)] at hphys
    exact hphys
  · rw [← hpmm] at hf ⊢
    exact hsup.nextFrames_free h1.tables.valid hf
  · have hused := hsup.used_singles h1.tables.valid f
    have hcount : s.tablesFor n g = (missingRange s.machine.mem w.pml4 (fun j => frameAddr (g + j)) 0 n).card := by
      rw [tablesFor, h.kernelRoot_eq]
    rw [hcount] at hused
    rw [hcount, hsingles, ← hpmm]
    exact hused

section Moved

variable {g : Nat} {m : Machine} {moved : Mem → Mem}

/-- Data is moved into no page table. -/
def KeepsTables (s : Session) (m : Machine) (moved : Mem → Mem) : Prop :=
  ∀ t (i : Fin 512), Session.IsTable ⟨m, s.roots⟩ t → moved m.mem (slot t i) = m.mem (slot t i)

lemma KeepsTables.tables (hmoved : s.KeepsTables m moved) (h : Tables rank w m)
    (hreach : ∀ t, rank t ≠ 0 → Session.IsTable ⟨m, s.roots⟩ t) :
    Tables rank w (m.move moved) ∧ ∀ page, (m.move moved).pageFrame page = m.pageFrame page := by
  have hmem (t : Nat) (i : Fin 512) (ht : rank t ≠ 0) : (m.move moved).mem (slot t i) = m.mem (slot t i) :=
    hmoved t i (hreach t ht)
  have h' : Tables rank w (m.move moved) := h.congr (fun t i ht _ => hmem t i ht) h.valid h.low_used
    (fun t ht => (h.frame_ok t ht).2.2.2) rfl h.cr3
  refine ⟨h', fun page => ?_⟩
  rw [h.pageFrame_eq, h'.pageFrame_eq, h.leafTable_eq (fun t i ht => hmem t i (by omega)) h.top]
  cases hp : leafTable m.mem page 3 w.pml4 with
  | none => rfl
  | some p =>
    have hr := h.rank_leafTable h.top hp
    have he := hmem p (index page 1) (by omega)
    rw [index_val] at he
    simp only [Option.bind_some, he]

lemma Buffer.mapsTo_iff (hb : s.Buffer w n g m) (hmoved : s.KeepsTables m moved) (f : Nat) :
    (m.move moved).MapsTo (frameAddr g) n f ↔ g ≤ f ∧ f < g + n := by
  obtain ⟨rank', h, hreach⟩ := hb.tables
  have hframe := (hmoved.tables h hreach).2
  have hpage (i : Nat) (hi : i < n) : (m.move moved).pageFrame (frameAddr g + BitVec.ofNat 64 (i * frameSize)) =
      some (g + i) := by
    rw [hframe, Session.Inv.frameAddr_add, hb.mapped i hi]
  constructor
  · rintro ⟨i, hi, hf⟩
    rw [hpage i hi] at hf
    obtain rfl := Option.some.inj hf
    omega
  · rintro ⟨hlow, hlt⟩
    refine ⟨f - g, by omega, ?_⟩
    rw [hpage (f - g) (by omega), Nat.add_sub_cancel' hlow]

/-- The buffer's pages map to the run that is freed exactly if no table lies in it. -/
lemma Buffer.mapsRun_iff (hb : s.Buffer w n g m) (hmoved : s.KeepsTables m moved) (hn : 0 < n) :
    MapsRun (· < 0x800) (frameAddr g) n (m.move moved) ↔ s.TablesApart n := by
  obtain ⟨rank', h, hreach⟩ := hb.tables
  have hframe := (hmoved.tables h hreach).2
  obtain ⟨hlow, hfit⟩ := hb.high
  have hmod := Nat.mod_le n (2 ^ 32)
  have hfirst : (m.move moved).pageFrame (frameAddr g) = some g := by
    rw [hframe]
    exact hb.mapped 0 hn
  have htouched (f : Nat) : Pmm.blockTouched g (n % 2 ^ 32) f ↔ Pmm.touched g (n % 2 ^ 32) f :=
    Pmm.blockTouched_iff (by omega)
  have hused (f : Nat) := Pmm.used_handOut s.machine.pmm (show g + n % 2 ^ 32 < 2 ^ 35 by omega) f
  have hmarks : (m.move moved).pmm = m.pmm := rfl
  constructor
  · intro hrun g' hnext f hf
    obtain rfl := hb.run.unique hnext
    by_contra hin
    have hbefore := hb.fresh f hf
    have hinside := (hrun.inside f ((hb.mapsTo_iff hmoved f).mpr (by omega)) ((hb.marks f).mpr (Or.inr hf))).2
    rw [hfirst, Option.getD_some, htouched] at hinside
    rw [hused, if_pos hinside] at hbefore
    cases hbefore
  · intro hapart
    refine ⟨fun _ => by rw [hfirst]; rfl, fun f hf hu => ?_, fun f hf _ => ?_⟩
    · rw [hb.mapsTo_iff hmoved] at hf
      rw [hmarks, hb.marks] at hu
      refine ⟨by omega, ?_⟩
      rw [hfirst, Option.getD_some, htouched]
      rcases hu with hu | hu
      · by_contra hnot
        have hfree := (Pmm.free_iff _ f).mp (hb.run.allFree f hf.1 hf.2)
        rw [hused, if_neg hnot, hfree] at hu
        cases hu
      · have := hapart g hb.run f hu
        omega
    · rw [hfirst, Option.getD_some, htouched] at hf
      rw [hb.mapsTo_iff hmoved]
      obtain ⟨h1, h2, -⟩ := hf
      omega

end Moved

section Handled

variable {write : Bool} {busy : Nat → Nat → BitVec 32} {moved : Mem → Mem} {sectorCount start size buffer : BitVec 64}
  {dev : AhciDev}

/-- The buffer of a request is handled soundly. A request that is refused touches no frame. Any other asks for the
frames that its bytes fill. If there are none for it, it returns 0 and leaves the device, the caller's buffer and
the marks alone; else it returns where its commands do, and gives back the run of frames that it got. -/
structure BufferHandled (write : Bool) (busy : Nat → Nat → BitVec 32) (moved : Mem → Mem)
    (sectorCount start size buffer : BitVec 64) (dev : AhciDev) (s : Session) : Prop where
  refused : Misaligned sectorCount start size → ∀ fuel res,
    ahciRw write fuel busy moved sectorCount start size buffer dev s.machine = some res → res.machine = s.machine
  requested : ¬ Misaligned sectorCount start size →
    bounceFrames write (clampSize sectorCount start size) = ((clampSize sectorCount start size).toNat + 4095) / 4096
  failed : ¬ Misaligned sectorCount start size →
    ¬ s.EnoughFrames (.pmmAllocCustom (bounceFrames write (clampSize sectorCount start size)) 3#64) →
    ∃ fuel res, ahciRw write fuel busy moved sectorCount start size buffer dev s.machine = some res ∧ res.ret = 0#64 ∧
      res.dev.issued = dev.issued ∧ res.copies = [] ∧ ∀ f, res.machine.pmm.used f = s.machine.pmm.used f
  returns : ¬ Misaligned sectorCount start size →
    s.EnoughFrames (.pmmAllocCustom (bounceFrames write (clampSize sectorCount start size)) 3#64) → ∀ alignedBuf m,
    s.machine.pmmAlloc (bounceFrames write (clampSize sectorCount start size)) = some (alignedBuf, m) →
    (∃ fuel dev', sendRwCmds fuel busy (start / ahciSectorSize) (clampSize sectorCount start size / ahciSectorSize)
      alignedBuf write dev = some dev') →
    ∃ fuel res, ahciRw write fuel busy moved sectorCount start size buffer dev s.machine = some res
  released : ¬ Misaligned sectorCount start size → ∀ alignedBuf m fuel res,
    s.machine.pmmAlloc (bounceFrames write (clampSize sectorCount start size)) = some (alignedBuf, m) →
    ahciRw write fuel busy moved sectorCount start size buffer dev s.machine = some res →
    ∀ f, res.machine.pmm.used f = true ↔ m.pmm.used f = true ∧
      ¬ (alignedBuf.toNat / 4096 ≤ f ∧ f < alignedBuf.toNat / 4096 + bounceFrames write (clampSize sectorCount start size))

lemma bufferHandled_refused (hmis : Misaligned sectorCount start size) :
    BufferHandled write busy moved sectorCount start size buffer dev s where
  refused _ fuel res hrun := by
    rw [ahciRw_eq, if_pos hmis] at hrun
    cases hrun
    rfl
  requested h := absurd hmis h
  failed h := absurd hmis h
  returns h := absurd hmis h
  released h := absurd hmis h

/-- A request is handled soundly if there are frames for its buffer and these are given back. -/
lemma bufferHandled_of_free (halign : ¬ Misaligned sectorCount start size)
    (hcount : bounceFrames write (clampSize sectorCount start size) = ((clampSize sectorCount start size).toNat + 4095) / 4096)
    (henough : s.EnoughFrames (.pmmAllocCustom (bounceFrames write (clampSize sectorCount start size)) 3#64))
    {alignedBuf : Word} {m : Machine}
    (halloc : s.machine.pmmAlloc (bounceFrames write (clampSize sectorCount start size)) = some (alignedBuf, m))
    (hfree : (∃ fuel dev', sendRwCmds fuel busy (start / ahciSectorSize) (clampSize sectorCount start size / ahciSectorSize)
        alignedBuf write dev = some dev') →
      ∃ m', (m.move moved).pmmFree (toFrame alignedBuf) (bounceFrames write (clampSize sectorCount start size)) = some m' ∧
        ∀ f, m'.pmm.used f = true ↔ m.pmm.used f = true ∧ ¬ (alignedBuf.toNat / 4096 ≤ f ∧
          f < alignedBuf.toNat / 4096 + bounceFrames write (clampSize sectorCount start size))) :
    BufferHandled write busy moved sectorCount start size buffer dev s where
  refused h := absurd h halign
  requested _ := hcount
  failed _ h := absurd henough h
  returns _ _ buf1 m1 halloc1 hsend := by
    obtain ⟨rfl, rfl⟩ : alignedBuf = buf1 ∧ m = m1 := Prod.mk.inj (Option.some.inj (halloc.symm.trans halloc1))
    obtain ⟨m', hm', -⟩ := hfree hsend
    obtain ⟨fuel, dev', hdev⟩ := hsend
    exact ⟨fuel, _, (ahciRw_eq_some_iff halign).mpr ⟨alignedBuf, m, dev', m', halloc, hdev, hm', rfl⟩⟩
  released _ buf1 m1 fuel res halloc1 hrun := by
    obtain ⟨rfl, rfl⟩ : alignedBuf = buf1 ∧ m = m1 := Prod.mk.inj (Option.some.inj (halloc.symm.trans halloc1))
    obtain ⟨buf2, m2, dev', m3, halloc2, hdev, hm3, rfl⟩ := (ahciRw_eq_some_iff halign).mp hrun
    obtain ⟨rfl, rfl⟩ : alignedBuf = buf2 ∧ m = m2 := Prod.mk.inj (Option.some.inj (halloc.symm.trans halloc2))
    obtain ⟨m', hm', hmarks⟩ := hfree ⟨fuel, dev', hdev⟩
    obtain rfl : m' = m3 := Option.some.inj (hm'.symm.trans hm3)
    exact hmarks

lemma bufferHandled_empty (h : s.Inv w rank) (halign : ¬ Misaligned sectorCount start size)
    (hzero : clampSize sectorCount start size = 0#64)
    (hmoved : s.KeepsTables (s.machine.pmmAllocUnmapped 0).2 moved) :
    BufferHandled write busy moved sectorCount start size buffer dev s := by
  have hcount := (bounceFrames_iff write).mpr (Or.inl hzero)
  have hframes : bounceFrames write (clampSize sectorCount start size) = 0 := by rw [hzero, bounceFrames_zero]
  have h1 := h.alloc 0
  have htables := (hmoved.tables h1.tables h1.reach).1
  have hnone (f : Nat) : ¬ ((s.machine.pmmAllocUnmapped 0).2.move moved).MapsTo (toFrame 0#64) 0 f := by
    rintro ⟨i, hi, -⟩
    exact Nat.not_lt_zero i hi
  have htouched (t f : Nat) : ¬ Pmm.blockTouched t (0 % 2 ^ 32) f := by
    simp [Pmm.blockTouched]
  have hiff := htables.pmmFree_pages_iff (fun _ (hf : _ < 0x800) => hf) (toFrame 0#64) 0
  obtain ⟨m', hm', hfrees⟩ := hiff.mpr
    ⟨fun hne => absurd rfl hne, fun f hf => absurd hf (hnone f), fun f hf => absurd hf (htouched _ f)⟩
  have halloc : s.machine.pmmAlloc (bounceFrames write (clampSize sectorCount start size)) =
      some (0#64, (s.machine.pmmAllocUnmapped 0).2) := by
    rw [hframes]
    rfl
  refine bufferHandled_of_free halign hcount ?_ halloc fun _ => ?_
  · rw [hframes]
    exact Or.inl rfl
  · rw [hframes]
    refine ⟨m', hm', fun f => ?_⟩
    rw [hfrees.exact]
    have hrange : ¬ ((0#64).toNat / 4096 ≤ f ∧ f < (0#64).toNat / 4096 + 0) := fun hf => by
      rw [Nat.add_zero] at hf
      omega
    exact and_congr_right fun _ => iff_of_true (hnone f) hrange

lemma bufferHandled_some (h : s.Inv w rank) (hclean : Clean s.machine) (halign : ¬ Misaligned sectorCount start size)
    (hne : clampSize sectorCount start size ≠ 0#64)
    (hmoved : ∀ alignedBuf m, s.machine.pmmAlloc (bounceFrames write (clampSize sectorCount start size)) =
      some (alignedBuf, m) → s.KeepsTables m moved) :
    BufferHandled write busy moved sectorCount start size buffer dev s ↔
      bounceFrames write (clampSize sectorCount start size) = ((clampSize sectorCount start size).toNat + 4095) / 4096 ∧
      s.EnoughFrames (.pmmAllocCustom (bounceFrames write (clampSize sectorCount start size)) 3#64) ∧
      ((∃ t, restCount ((clampSize sectorCount start size).toNat / 512) (Nat.count (FreeAt dev.cmdSlots busy) t) = 0) →
        s.TablesApart (bounceFrames write (clampSize sectorCount start size))) := by
  have hsectors : (clampSize sectorCount start size / ahciSectorSize).toNat =
      (clampSize sectorCount start size).toNat / 512 := by
    have hsector : ahciSectorSize.toNat = 512 := rfl
    rw [BitVec.toNat_udiv, hsector]
  have hpos : 0 < (clampSize sectorCount start size).toNat :=
    Nat.pos_of_ne_zero fun h => hne (BitVec.eq_of_toNat_eq h)
  have hrest : clampSize sectorCount start size / ahciSectorSize ≠ 0#64 := by
    intro h0
    rw [h0] at hsectors
    rw [Misaligned] at halign
    change 0 = _ at hsectors
    omega
  have hsend (buf : Word) := @sendRwCmds_returns_iff busy (start / ahciSectorSize) _ write dev buf hrest
  rw [hsectors] at hsend
  have hfree {g : Nat} {m : Machine} (hb : s.Buffer w (bounceFrames write (clampSize sectorCount start size)) g m)
      (hk : s.KeepsTables m moved) (hn : 0 < bounceFrames write (clampSize sectorCount start size)) :
      (∃ m', (m.move moved).pmmFree (toFrame (frameAddr g)) (bounceFrames write (clampSize sectorCount start size)) = some m' ∧
        ∀ f, m'.pmm.used f = true ↔ m.pmm.used f = true ∧ ¬ ((frameAddr g).toNat / 4096 ≤ f ∧
          f < (frameAddr g).toNat / 4096 + bounceFrames write (clampSize sectorCount start size))) ↔
      s.TablesApart (bounceFrames write (clampSize sectorCount start size)) := by
    obtain ⟨rank', ht, hreach⟩ := hb.tables
    obtain ⟨hlow, hfit⟩ := hb.high
    have hg : (frameAddr g).toNat / 4096 = g := by
      rw [frameAddr, BitVec.toNat_ofNat]
      omega
    rw [← hb.mapsRun_iff hk hn, ← (hk.tables ht hreach).1.pmmFree_pages_iff fun _ hf => hf, toFrame,
      Session.Inv.base_frameAddr, hg]
    constructor
    · rintro ⟨m', hm', hmarks⟩
      refine ⟨m', hm', fun f => ?_, fun f hf hu => ?_⟩
      · rw [hmarks, hb.mapsTo_iff hk]
        rfl
      · rw [hmarks]
        exact ⟨hu, by omega⟩
    · rintro ⟨m', hm', hfrees⟩
      refine ⟨m', hm', fun f => ?_⟩
      rw [hfrees.exact, hb.mapsTo_iff hk]
      rfl
  constructor
  · intro hp
    have hcount := hp.requested halign
    have hn : 0 < bounceFrames write (clampSize sectorCount start size) := by omega
    have henough : s.EnoughFrames (.pmmAllocCustom (bounceFrames write (clampSize sectorCount start size)) 3#64) := by
      by_contra hfew
      obtain ⟨fuel, res, hrun, hret, -⟩ := hp.failed halign hfew
      obtain ⟨_, _, _, _, _, _, _, rfl⟩ := (ahciRw_eq_some_iff halign).mp hrun
      exact hne hret
    refine ⟨hcount, henough, fun hend => ?_⟩
    obtain ⟨g, m, halloc, hb⟩ := h.pmmAlloc_buffer hclean hn henough
    obtain ⟨fuel, res, hrun⟩ := hp.returns halign henough _ m halloc ((hsend _).mpr hend)
    have hmarks := hp.released halign _ m fuel res halloc hrun
    obtain ⟨buf2, m2, dev', m3, halloc2, -, hm3, rfl⟩ := (ahciRw_eq_some_iff halign).mp hrun
    obtain ⟨rfl, rfl⟩ : frameAddr g = buf2 ∧ m = m2 := Prod.mk.inj (Option.some.inj (halloc.symm.trans halloc2))
    exact (hfree hb (hmoved _ m halloc) hn).mp ⟨m3, hm3, hmarks⟩
  · rintro ⟨hcount, henough, hapart⟩
    have hn : 0 < bounceFrames write (clampSize sectorCount start size) := by omega
    obtain ⟨g, m, halloc, hb⟩ := h.pmmAlloc_buffer hclean hn henough
    refine bufferHandled_of_free halign hcount henough halloc fun hrun => ?_
    exact (hfree hb (hmoved _ m halloc) hn).mpr (hapart ((hsend _).mp hrun))

/-- The buffer is handled soundly exactly for requests that are refused or come to nothing, and for reads that do
not wrap, have frames for their buffer and its tables and, if they return, have no such table in the buffer. -/
theorem bufferHandled_iff (h : s.Inv w rank) (hclean : Clean s.machine)
    (hmoved : ∀ alignedBuf m, s.machine.pmmAlloc (bounceFrames write (clampSize sectorCount start size)) =
      some (alignedBuf, m) → s.KeepsTables m moved) :
    BufferHandled write busy moved sectorCount start size buffer dev s ↔
      Misaligned sectorCount start size ∨ clampSize sectorCount start size = 0#64 ∨
      write = false ∧ (clampSize sectorCount start size).toNat + 4095 < 2 ^ 64 ∧
        s.EnoughFrames (.pmmAllocCustom (((clampSize sectorCount start size).toNat + 4095) / 4096) 3#64) ∧
        ((∃ t, restCount ((clampSize sectorCount start size).toNat / 512) (Nat.count (FreeAt dev.cmdSlots busy) t) = 0) →
          s.TablesApart (((clampSize sectorCount start size).toNat + 4095) / 4096)) := by
  by_cases halign : Misaligned sectorCount start size
  · exact iff_of_true (bufferHandled_refused halign) (Or.inl halign)
  by_cases hzero : clampSize sectorCount start size = 0#64
  · refine iff_of_true (bufferHandled_empty h halign hzero ?_) (Or.inr (Or.inl hzero))
    apply hmoved 0#64
    rw [hzero, bounceFrames_zero]
    rfl
  rw [bufferHandled_some h hclean halign hzero hmoved]
  have hright := @bounceFrames_iff (clampSize sectorCount start size) write
  constructor
  · rintro ⟨hcount, henough, hapart⟩
    obtain ⟨hwrite, hwrap⟩ := (hright.mp hcount).resolve_left hzero
    rw [hcount] at henough hapart
    exact Or.inr (Or.inr ⟨hwrite, hwrap, henough, hapart⟩)
  · rintro (hmis | h0 | ⟨hwrite, hwrap, henough, hapart⟩)
    · exact absurd hmis halign
    · exact absurd h0 hzero
    · have hcount := hright.mpr (Or.inr ⟨hwrite, hwrap⟩)
      rw [hcount]
      exact ⟨rfl, henough, hapart⟩

end Handled

/-- A buffer is marked as a whole, but where it has 8 to 15 frames. -/
lemma Inv.tablesApart_whole (h : s.Inv w rank) (hclean : Clean s.machine) (hn : 0 < n) (hlt : n < 2 ^ 32) (hhole : n / 8 ≠ 1)
    (henough : s.EnoughFrames (.pmmAllocCustom n 3#64)) : s.TablesApart n := by
  obtain ⟨g, m, -, hb⟩ := h.pmmAlloc_buffer hclean hn henough
  intro g' hnext f hf
  obtain rfl := hb.run.unique hnext
  by_contra hin
  have hmod : n % 2 ^ 32 = n := Nat.mod_eq_of_lt hlt
  have hused := Pmm.used_handOut s.machine.pmm (n := n) (s := g) (by rw [hmod]; exact hb.high.2) f
  rw [hmod, if_pos ⟨by omega, by omega, fun hskip => hhole hskip.1⟩] at hused
  exact Bool.false_ne_true ((hb.fresh f hf).symm.trans hused)

end Session

/-- Right after boot a read of one sector gives its frame back. -/
theorem read_handled : Session.BufferHandled false (fun _ _ => 0#32) id 8#64 0#64 512#64 0x100000#64 blankDev
    (runningSession reservedPmm) := by
  refine (@Session.bufferHandled_iff _ _ (runningSession reservedPmm) false (fun _ _ => 0#32) id 8#64 0#64 512#64
    0x100000#64 blankDev runningSession_inv runningSession_clean fun _ _ _ _ _ _ => rfl).mpr (Or.inr (Or.inr ?_))
  have hcount : ((clampSize 8#64 0#64 512#64).toNat + 4095) / 4096 = 1 := by decide
  rw [hcount]
  exact ⟨rfl, by decide, runningSession_enough,
    fun _ => runningSession_inv.tablesApart_whole runningSession_clean Nat.one_pos (by decide) (by decide) runningSession_enough⟩

/-- A write of one sector asks for 4096 frames, and a read of one with no frame left goes on. -/
theorem buffer_mishandled :
    ¬ (Session.BufferHandled true (fun _ _ => 0#32) id 8#64 0#64 512#64 0x100000#64 blankDev (runningSession reservedPmm) ∨
      Session.BufferHandled false (fun _ _ => 0#32) id 8#64 0#64 512#64 0x100000#64 blankDev
        (runningSession Kernel.fullPmm)) := by
  have halign : ¬ Misaligned 8#64 0#64 512#64 := by decide
  rintro (h | h)
  · have hcount := h.requested halign
    revert hcount
    decide
  · have hnone : ¬ (runningSession Kernel.fullPmm).EnoughFrames
        (.pmmAllocCustom (bounceFrames false (clampSize 8#64 0#64 512#64)) 3#64) := by
      rintro (h0 | ⟨g, hnext, -⟩)
      · revert h0
        decide
      · have hfree := hnext.allFree g (Nat.le_refl g) (Nat.lt_succ_self g)
        have hused : Kernel.fullPmm.free g = false := Pmm.used_of_full Kernel.fullPmm (i := g / 8) rfl rfl
        exact absurd (hused.symm.trans hfree) Bool.false_ne_true
    obtain ⟨fuel, res, hrun, hret, -⟩ := h.failed halign hnone
    obtain ⟨_, _, _, _, _, _, _, rfl⟩ := (ahciRw_eq_some_iff halign).mp hrun
    have hsize : clampSize 8#64 0#64 512#64 ≠ 0#64 := by decide
    exact hsize hret

end HaiirOS
