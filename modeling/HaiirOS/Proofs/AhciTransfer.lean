import HaiirOS.Driver.AhciTransfer
import HaiirOS.Memory.Boot
import HaiirOS.Proofs.AhciRanges

/-!
# Requests to an AHCI device

A request is cut to the end of the device before anything is checked, in 64-bit arithmetic. When
the start lies past the end, when the end of the request wraps around or when nothing is left, the
rest goes on as for any other request.
-/

namespace HaiirOS

/-- `ahci_read` or `ahci_write` -/
def ahciRw (write : Bool) : Nat → (Nat → Nat → BitVec 32) → (Mem → Mem) → BitVec 64 → BitVec 64 → BitVec 64 → BitVec 64 →
    AhciDev → Machine → Option AhciReturn :=
  if write then ahciWrite else ahciRead

/-- The number of frames that the two ask for. -/
def bounceFrames (write : Bool) (size : BitVec 64) : Nat :=
  if write then (alignedBufSize size).toNat else (alignedBufSize size / 0x1000#64).toNat

/-- The copy between the caller's buffer and the driver's. -/
def callerCopy (write : Bool) (buffer alignedBuf size : BitVec 64) : AhciCopy :=
  if write then ⟨alignedBuf, buffer, size⟩ else ⟨buffer, alignedBuf, size⟩

section Attempts

variable {free : Nat → Prop} [DecidablePred free]

/-- The rest count before attempt `t`. -/
def leftAt (free : Nat → Prop) [DecidablePred free] (rest : BitVec 64) (t : Nat) : BitVec 64 :=
  restAfter^[Nat.count free t] rest

lemma leftAt_failed (h : ¬ free 0) (rest : BitVec 64) (t : Nat) :
    leftAt free rest (t + 1) = leftAt (fun k => free (k + 1)) rest t := by
  rw [leftAt, Nat.count_succ', if_neg h]
  rfl

lemma leftAt_sent (h : free 0) (rest : BitVec 64) (t : Nat) :
    leftAt free rest (t + 1) = leftAt (fun k => free (k + 1)) (restAfter rest) t := by
  rw [leftAt, Nat.count_succ', if_pos h]
  rfl

lemma leftAt_zero (t : Nat) : leftAt free 0#64 t = 0#64 := by
  unfold leftAt
  have hzero : restAfter 0#64 = 0#64 := by decide
  exact Function.iterate_fixed hzero _

/-- The range of attempt `t`, if that finds a slot. -/
def rangeAt (free : Nat → Prop) [DecidablePred free] (lba rest buffer : BitVec 64) (t : Nat) : AhciRange :=
  rangeOf (lba + BitVec.ofNat 64 (t * fullCount.toNat)) (leftAt free rest t) (buffer + BitVec.ofNat 64 (t * fullBytes.toNat))

lemma add_attempt (v c : BitVec 64) (t : Nat) :
    v + BitVec.ofNat 64 ((t + 1) * c.toNat) = v + c + BitVec.ofNat 64 (t * c.toNat) := by
  rw [← add_failed_succ, add_failed_comm]

lemma rangeAt_failed (h : ¬ free 0) (lba rest buffer : BitVec 64) (t : Nat) :
    rangeAt free lba rest buffer (t + 1) =
      rangeAt (fun k => free (k + 1)) (lba + fullCount) rest (buffer + fullBytes) t := by
  rw [rangeAt, leftAt_failed h, add_attempt, add_attempt]
  rfl

lemma rangeAt_sent (h : free 0) (lba rest buffer : BitVec 64) (t : Nat) :
    rangeAt free lba rest buffer (t + 1) =
      rangeAt (fun k => free (k + 1)) (lba + fullCount) (restAfter rest) (buffer + fullBytes) t := by
  rw [rangeAt, leftAt_sent h, add_attempt, add_attempt]
  rfl

lemma rangeAt_zero (lba rest buffer : BitVec 64) : rangeAt free lba rest buffer 0 = rangeOf lba rest buffer := by
  simp [rangeAt, leftAt]

end Attempts

variable {Q : AhciRange → Prop}

/-- The attempts that find a slot while sectors are left use ranges with property `Q`. -/
def AllAttempts (free : Nat → Prop) [DecidablePred free] (lba rest buffer : BitVec 64) (Q : AhciRange → Prop) : Prop :=
  ∀ t, free t → leftAt free rest t ≠ 0#64 → Q (rangeAt free lba rest buffer t)

lemma Assigns.finished {free : Nat → Prop} [d : DecidablePred free] {lba rest buffer : BitVec 64} {rs : List AhciRange}
    (h : Assigns free lba rest buffer rs) : ∃ t, leftAt free rest t = 0#64 := by
  revert d
  induction h with
  | done =>
    intro d
    exact ⟨0, rfl⟩
  | failed _ hnot _ ih =>
    intro d
    obtain ⟨t, ht⟩ := ih
    exact ⟨t + 1, (leftAt_failed hnot _ t).trans ht⟩
  | sent _ hfree _ ih =>
    intro d
    obtain ⟨t, ht⟩ := ih
    exact ⟨t + 1, (leftAt_sent hfree _ t).trans ht⟩

lemma Assigns.all_iff {free : Nat → Prop} [d : DecidablePred free] {lba rest buffer : BitVec 64} {rs : List AhciRange}
    (h : Assigns free lba rest buffer rs) : (∀ r ∈ rs, Q r) ↔ AllAttempts free lba rest buffer Q := by
  revert d
  induction h with
  | done =>
    intro d
    exact iff_of_true (fun r hr => by cases hr) fun t _ hne => absurd (leftAt_zero t) hne
  | @failed free lba rest buffer rs _ hnot _ ih =>
    intro d
    rw [ih]
    constructor
    · intro hall t ht hne
      cases t with
      | zero => exact absurd ht hnot
      | succ t =>
        rw [rangeAt_failed hnot]
        exact hall t ht (leftAt_failed hnot rest t ▸ hne)
    · intro hall t ht hne
      rw [← rangeAt_failed hnot]
      exact hall (t + 1) ht ((leftAt_failed hnot rest t).symm ▸ hne)
  | @sent free lba rest buffer rs hrest hfree _ ih =>
    intro d
    rw [List.forall_mem_cons, ih]
    constructor
    · rintro ⟨hfirst, hall⟩ t ht hne
      cases t with
      | zero =>
        rw [rangeAt_zero]
        exact hfirst
      | succ t =>
        rw [rangeAt_sent hfree]
        exact hall t ht (leftAt_sent hfree rest t ▸ hne)
    · intro hall
      constructor
      · rw [← @rangeAt_zero free _]
        exact hall 0 hfree hrest
      · intro t ht hne
        rw [← rangeAt_sent hfree]
        exact hall (t + 1) ht ((leftAt_sent hfree rest t).symm ▸ hne)

lemma assigns_of_finished {free : Nat → Prop} [d : DecidablePred free] (lba : BitVec 64) {rest : BitVec 64}
    (buffer : BitVec 64) {t : Nat} (h : leftAt free rest t = 0#64) : ∃ rs, Assigns free lba rest buffer rs := by
  induction t generalizing free lba rest buffer with
  | zero =>
    obtain rfl : rest = 0#64 := h
    exact ⟨[], .done⟩
  | succ t ih =>
    by_cases hrest : rest = 0#64
    · subst hrest
      exact ⟨[], .done⟩
    by_cases hfree : free 0
    · rw [leftAt_sent hfree] at h
      obtain ⟨rs, hrs⟩ := ih (lba + fullCount) (buffer + fullBytes) h
      exact ⟨_, .sent hrest hfree hrs⟩
    · rw [leftAt_failed hfree] at h
      obtain ⟨rs, hrs⟩ := ih (lba + fullCount) (buffer + fullBytes) h
      exact ⟨rs, .failed hrest hfree hrs⟩

/-- The attempts come to an end with ranges of property `Q` exactly if a rest of 0 is reached and the
range of each attempt that sends a command has the property. -/
lemma assigns_all_iff {free : Nat → Prop} [DecidablePred free] {lba rest buffer : BitVec 64} :
    (∃ rs, Assigns free lba rest buffer rs ∧ ∀ r ∈ rs, Q r) ↔
      (∃ t, leftAt free rest t = 0#64) ∧ AllAttempts free lba rest buffer Q := by
  constructor
  · rintro ⟨rs, ha, hall⟩
    exact ⟨ha.finished, ha.all_iff.mp hall⟩
  · rintro ⟨⟨t, ht⟩, hall⟩
    obtain ⟨rs, ha⟩ := assigns_of_finished lba buffer ht
    exact ⟨rs, ha, ha.all_iff.mpr hall⟩

section Slots

/-- The sectors that are left after `k` commands for a transfer of `n` sectors, where the first rest
passes through 32 bits. -/
def restCount (n k : Nat) : Nat := if k = 0 then n else (n - 0x400000) % 2 ^ 32 - (k - 1) * 0x400000

lemma restAfter_toNat (rest : BitVec 64) : (restAfter rest).toNat = (rest.toNat - 0x400000) % 2 ^ 32 := by
  have h := restAfter_ofNat rest.isLt
  rw [BitVec.ofNat_toNat, BitVec.setWidth_eq] at h
  rw [h, BitVec.toNat_ofNat]
  omega

lemma iterate_restAfter (rest : BitVec 64) (k : Nat) : (restAfter^[k] rest).toNat = restCount rest.toNat k := by
  induction k with
  | zero => exact (if_pos rfl).symm
  | succ k ih =>
    rw [Function.iterate_succ_apply', restAfter_toNat, ih, restCount, restCount, if_neg k.succ_ne_zero]
    split_ifs with hk
    · subst hk
      rw [Nat.sub_self, Nat.zero_mul, Nat.sub_zero]
    · omega

/-- The sectors of a command lie between `first` and the end of the device. -/
def AhciRange.Within (first sectorCount : Nat) (r : AhciRange) : Prop :=
  first ≤ r.lba.toNat ∧ r.lba.toNat + r.sectorCount.toNat ≤ sectorCount

/-- There are attempts enough that find a slot, and with the full commands skipped by those before it, sent or
not, each of them stays on the device. -/
structure SlotsFit (free : Nat → Prop) [DecidablePred free] (lba n sectorCount : Nat) : Prop where
  enough : ∃ t, restCount n (Nat.count free t) = 0
  placed : ∀ t, free t → restCount n (Nat.count free t) ≠ 0 →
    lba ≤ (lba + t * 0x400000) % 2 ^ 64 ∧
    (lba + t * 0x400000) % 2 ^ 64 + min (restCount n (Nat.count free t)) 0x400000 ≤ sectorCount

variable {busy : Nat → Nat → BitVec 32} {lba rest buffer : BitVec 64} {write : Bool} {dev : AhciDev} {sectorCount : Nat}

lemma rangeAt_within {free : Nat → Prop} [DecidablePred free] {first t : Nat} :
    (rangeAt free lba rest buffer t).Within first sectorCount ↔
      first ≤ (lba.toNat + t * 0x400000) % 2 ^ 64 ∧
      (lba.toNat + t * 0x400000) % 2 ^ 64 + min (restCount rest.toNat (Nat.count free t)) 0x400000 ≤ sectorCount := by
  have hfull : fullCount.toNat = 0x400000 := rfl
  have hcount : (rangeAt free lba rest buffer t).sectorCount.toNat =
      min (restCount rest.toNat (Nat.count free t)) 0x400000 := by
    rw [← iterate_restAfter, rangeAt, rangeOf, leftAt]
    split_ifs with h
    · rw [gt_iff_lt, BitVec.lt_def, hfull] at h
      exact hfull.trans (Nat.min_eq_right h.le).symm
    · rw [gt_iff_lt, BitVec.lt_def, hfull] at h
      exact (Nat.min_eq_left (Nat.not_lt.mp h)).symm
  have hlba : (rangeAt free lba rest buffer t).lba.toNat = (lba.toNat + t * 0x400000) % 2 ^ 64 := by
    rw [rangeAt, rangeOf, BitVec.toNat_add, BitVec.toNat_ofNat, hfull]
    omega
  rw [AhciRange.Within, hcount, hlba]

lemma leftAt_eq_zero_iff {free : Nat → Prop} [DecidablePred free] {t : Nat} :
    leftAt free rest t = 0#64 ↔ restCount rest.toNat (Nat.count free t) = 0 := by
  rw [← iterate_restAfter, leftAt]
  exact ⟨fun h => by rw [h]; rfl, fun h => BitVec.eq_of_toNat_eq h⟩

/-- The commands of a transfer come to an end with enough attempts that find a slot. -/
lemma sendRwCmds_returns_iff (buffer : BitVec 64) (hrest : rest ≠ 0#64) :
    (∃ fuel dev', sendRwCmds fuel busy lba rest buffer write dev = some dev') ↔
      ∃ t, restCount rest.toNat (Nat.count (FreeAt dev.cmdSlots busy) t) = 0 := by
  constructor
  · rintro ⟨fuel, dev', hrun⟩
    rw [sendRwCmds_eq hrest] at hrun
    obtain ⟨rs, -, ha⟩ := assigns_of_sendRest hrun
    obtain ⟨t, ht⟩ := ha.finished
    exact ⟨t, leftAt_eq_zero_iff.mp ht⟩
  · rintro ⟨t, ht⟩
    obtain ⟨rs, ha⟩ := assigns_of_finished lba buffer (leftAt_eq_zero_iff.mpr ht)
    obtain ⟨fuel, dev', hrun, -⟩ := (@sendRwCmds_iff busy lba rest buffer write dev hrest rs).mpr ha
    exact ⟨fuel, dev', hrun⟩

/-- The commands of a transfer stay between its first sector and the end of the device. -/
lemma sendRwCmds_within_iff (buffer : BitVec 64) (hrest : rest ≠ 0#64) :
    (∃ fuel dev' rs, sendRwCmds fuel busy lba rest buffer write dev = some dev' ∧
      dev'.issued.map Prod.snd = dev.issued.map Prod.snd ++ rs ∧ ∀ r ∈ rs, r.Within lba.toNat sectorCount) ↔
    SlotsFit (FreeAt dev.cmdSlots busy) lba.toNat rest.toNat sectorCount := by
  have hassigns := @assigns_all_iff (·.Within lba.toNat sectorCount) (FreeAt dev.cmdSlots busy) _ lba rest buffer
  simp only [AllAttempts, ne_eq, leftAt_eq_zero_iff, rangeAt_within] at hassigns
  have hfit : SlotsFit (FreeAt dev.cmdSlots busy) lba.toNat rest.toNat sectorCount ↔ _ ∧ _ :=
    ⟨fun h => ⟨h.enough, h.placed⟩, fun h => ⟨h.1, h.2⟩⟩
  rw [hfit]
  apply Iff.trans _ hassigns
  constructor
  · rintro ⟨fuel, dev', rs, hrun, hissued, hall⟩
    exact ⟨rs, (sendRwCmds_iff hrest).mp ⟨fuel, dev', hrun, hissued⟩, hall⟩
  · rintro ⟨rs, ha, hall⟩
    obtain ⟨fuel, dev', hrun, hissued⟩ := (@sendRwCmds_iff busy lba rest buffer write dev hrest rs).mpr ha
    exact ⟨fuel, dev', rs, hrun, hissued, hall⟩

/-- A transfer of no sectors, which issues a command all the same if it finds a slot. -/
lemma sendRwCmds_zero (busy : Nat → Nat → BitVec 32) (lba buffer : BitVec 64) (write : Bool) (dev : AhciDev) :
    ∃ dev', (∀ fuel, sendRwCmds (fuel + 1) busy lba 0#64 buffer write dev = some dev') ∧
      dev'.issued.map Prod.snd =
        dev.issued.map Prod.snd ++ if FreeAt dev.cmdSlots busy 0 then [⟨lba, 0#64, buffer⟩] else [] := by
  by_cases hfree : FreeAt dev.cmdSlots busy 0
  · obtain ⟨dev', heq, -, hissued⟩ := sendRwCmd_some lba 0#64 buffer write hfree
    refine ⟨dev', fun fuel => ?_, by rw [hissued, if_pos hfree]; rfl⟩
    rw [sendRwCmds, heq]
    rfl
  · have hnone : findCmdSlot dev.cmdSlots (busy 0) = none := by simpa [FreeAt] using hfree
    refine ⟨dev, fun fuel => ?_, by rw [if_neg hfree, List.append_nil]⟩
    rw [sendRwCmds, sendRwCmd_none hnone]
    rfl

end Slots

section Clamp

variable {sectorCount start size : BitVec 64}

/-- The end of a request, as far as it is cut: the request ends before the end of the device, or it starts
before it; or both sums wrap around. -/
def EndsOnDevice (sectorCount start size : Nat) : Prop :=
  if (start + size) % 2 ^ 64 < 512 * sectorCount % 2 ^ 64 then start + size ≤ 512 * sectorCount
  else start ≤ 512 * sectorCount % 2 ^ 64 ∨ 2 ^ 64 ≤ start + size ∧ 2 ^ 64 ≤ 512 * sectorCount

lemma clampSize_toNat : (clampSize sectorCount start size).toNat =
    if (start.toNat + size.toNat) % 2 ^ 64 < 512 * sectorCount.toNat % 2 ^ 64 then size.toNat
    else (512 * sectorCount.toNat % 2 ^ 64 + 2 ^ 64 - start.toNat) % 2 ^ 64 := by
  have hsector : ahciSectorSize.toNat = 512 := rfl
  have := start.isLt
  have := size.isLt
  unfold clampSize
  split_ifs with h1 h2 h2
  · rw [ge_iff_le, BitVec.le_def, BitVec.toNat_add, BitVec.toNat_mul, hsector] at h1
    omega
  · rw [BitVec.toNat_sub, BitVec.toNat_mul, hsector]
    omega
  · rfl
  · rw [ge_iff_le, BitVec.le_def, BitVec.toNat_add, BitVec.toNat_mul, hsector] at h1
    omega

/-- The bytes that a request comes to are within it and on the device. -/
lemma clampSize_fits_iff : (clampSize sectorCount start size).toNat ≤ size.toNat ∧
    start.toNat + (clampSize sectorCount start size).toNat ≤ sectorCount.toNat * 512 ↔
      EndsOnDevice sectorCount.toNat start.toNat size.toNat := by
  have := start.isLt
  have := size.isLt
  rw [clampSize_toNat, EndsOnDevice]
  split_ifs <;> omega

end Clamp

section Requests

variable {write : Bool} {busy : Nat → Nat → BitVec 32} {moved : Mem → Mem} {sectorCount start size buffer : BitVec 64}
  {dev : AhciDev} {m : Machine}

/-- The start or the bytes that a request comes to are not whole sectors. -/
def Misaligned (sectorCount start size : BitVec 64) : Prop :=
  start.toNat % 512 ≠ 0 ∨ (clampSize sectorCount start size).toNat % 512 ≠ 0

instance (sectorCount start size : BitVec 64) : Decidable (Misaligned sectorCount start size) :=
  inferInstanceAs (Decidable (_ ∨ _))

/-- Both calls, up to the number of frames and the side of the copy. -/
lemma ahciRw_eq (fuel : Nat) : ahciRw write fuel busy moved sectorCount start size buffer dev m =
    if Misaligned sectorCount start size then some ⟨0#64, dev, m, []⟩
    else (m.pmmAlloc (bounceFrames write (clampSize sectorCount start size))).bind fun r =>
      (sendRwCmds fuel busy (start / ahciSectorSize) (clampSize sectorCount start size / ahciSectorSize) r.1 write
        dev).bind fun dev' =>
      ((r.2.move moved).pmmFree (toFrame r.1) (bounceFrames write (clampSize sectorCount start size))).map fun m' =>
        ⟨clampSize sectorCount start size, dev', m',
          [callerCopy write buffer r.1 (clampSize sectorCount start size)]⟩ := by
  have hmod (x : BitVec 64) : x % ahciSectorSize ≠ 0#64 ↔ x.toNat % 512 ≠ 0 := by
    have hsector : ahciSectorSize.toNat = 512 := rfl
    rw [ne_eq, ← BitVec.toNat_inj, BitVec.toNat_umod, hsector]
    rfl
  have hmis : Misaligned sectorCount start size ↔
      (start % ahciSectorSize ≠ 0#64 ∨ clampSize sectorCount start size % ahciSectorSize ≠ 0#64) := by
    rw [hmod, hmod]
    rfl
  simp only [hmis, Option.map_eq_bind]
  cases write with
  | false => rfl
  | true => rfl

/-- The call returns; if it has issued commands, they stay on the device, and the value is the number of
bytes moved, whole sectors of the request that are on the device. -/
def StaysOnDevice (write : Bool) (busy : Nat → Nat → BitVec 32) (moved : Mem → Mem)
    (sectorCount start size buffer : BitVec 64) (dev : AhciDev) (m : Machine) : Prop :=
  ∃ fuel res rs, ahciRw write fuel busy moved sectorCount start size buffer dev m = some res ∧
    res.dev.issued.map Prod.snd = dev.issued.map Prod.snd ++ rs ∧
    (res.ret = 0#64 ∧ rs = [] ∨
      (∀ r ∈ rs, r.Within (start.toNat / 512) sectorCount.toNat) ∧ 0 < res.ret.toNat ∧ 512 ∣ res.ret.toNat ∧
      res.ret.toNat ≤ size.toNat ∧ start.toNat + res.ret.toNat ≤ sectorCount.toNat * 512 ∧
      ∃ alignedBuf, res.copies = [callerCopy write buffer alignedBuf res.ret])

/-- The allocation of the driver's buffer and its release return. -/
def BufferReturns (write : Bool) (moved : Mem → Mem) (size : BitVec 64) (m : Machine) : Prop :=
  ∃ alignedBuf m1 m2, m.pmmAlloc (bounceFrames write size) = some (alignedBuf, m1) ∧
    (m1.move moved).pmmFree (toFrame alignedBuf) (bounceFrames write size) = some m2

lemma ahciRw_eq_some_iff (halign : ¬ Misaligned sectorCount start size) {fuel : Nat} {res : AhciReturn} :
    ahciRw write fuel busy moved sectorCount start size buffer dev m = some res ↔
      ∃ alignedBuf m1 dev' m2, m.pmmAlloc (bounceFrames write (clampSize sectorCount start size)) = some (alignedBuf, m1) ∧
        sendRwCmds fuel busy (start / ahciSectorSize) (clampSize sectorCount start size / ahciSectorSize) alignedBuf write
          dev = some dev' ∧
        (m1.move moved).pmmFree (toFrame alignedBuf) (bounceFrames write (clampSize sectorCount start size)) = some m2 ∧
        res = ⟨clampSize sectorCount start size, dev', m2,
          [callerCopy write buffer alignedBuf (clampSize sectorCount start size)]⟩ := by
  rw [ahciRw_eq, if_neg halign]
  simp only [Option.bind_eq_some_iff, Option.map_eq_some_iff, Prod.exists]
  constructor
  · rintro ⟨alignedBuf, m1, halloc, dev', hsend, m2, hfree, rfl⟩
    exact ⟨alignedBuf, m1, dev', m2, halloc, hsend, hfree, rfl⟩
  · rintro ⟨alignedBuf, m1, dev', m2, halloc, hsend, hfree, rfl⟩
    exact ⟨alignedBuf, m1, halloc, dev', hsend, m2, hfree, rfl⟩

/-- A request of nothing issues no command exactly if no slot is free at first. -/
lemma staysOnDevice_empty (halign : ¬ Misaligned sectorCount start size) (hzero : clampSize sectorCount start size = 0#64) :
    StaysOnDevice write busy moved sectorCount start size buffer dev m ↔
      BufferReturns write moved (clampSize sectorCount start size) m ∧ ¬ FreeAt dev.cmdSlots busy 0 := by
  have hsectors : clampSize sectorCount start size / ahciSectorSize = 0#64 := by
    rw [hzero]
    decide
  simp only [StaysOnDevice, ahciRw_eq_some_iff halign, hsectors]
  constructor
  · rintro ⟨fuel, res, rs, ⟨alignedBuf, m1, dev', m2, halloc, hsend, hfree, rfl⟩, hissued, hor⟩
    refine ⟨⟨alignedBuf, m1, m2, halloc, hfree⟩, fun hslot => ?_⟩
    obtain ⟨dev1, hrun, hone⟩ := sendRwCmds_zero busy (start / ahciSectorSize) alignedBuf write dev
    cases fuel with
    | zero => cases hsend
    | succ fuel =>
      obtain rfl : dev1 = dev' := Option.some.inj ((hrun fuel).symm.trans hsend)
      rw [if_pos hslot] at hone
      obtain rfl : rs = [_] := List.append_cancel_left (hissued.symm.trans hone)
      rcases hor with ⟨-, hnone⟩ | ⟨-, hpos, -⟩
      · cases hnone
      · rw [hzero] at hpos
        exact absurd hpos (Nat.lt_irrefl 0)
  · rintro ⟨⟨alignedBuf, m1, m2, halloc, hfree⟩, hslot⟩
    obtain ⟨dev1, hrun, hone⟩ := sendRwCmds_zero busy (start / ahciSectorSize) alignedBuf write dev
    rw [if_neg hslot] at hone
    exact ⟨1, _, [], ⟨alignedBuf, m1, dev1, m2, halloc, hrun 0, hfree, rfl⟩, hone, Or.inl ⟨hzero, rfl⟩⟩

lemma staysOnDevice_some (halign : ¬ Misaligned sectorCount start size) (hne : clampSize sectorCount start size ≠ 0#64) :
    StaysOnDevice write busy moved sectorCount start size buffer dev m ↔
      BufferReturns write moved (clampSize sectorCount start size) m ∧
      EndsOnDevice sectorCount.toNat start.toNat size.toNat ∧
      SlotsFit (FreeAt dev.cmdSlots busy) (start.toNat / 512) ((clampSize sectorCount start size).toNat / 512)
        sectorCount.toNat := by
  have hsector : ahciSectorSize.toNat = 512 := rfl
  have hlba : (start / ahciSectorSize).toNat = start.toNat / 512 := by rw [BitVec.toNat_udiv, hsector]
  have hsectors : (clampSize sectorCount start size / ahciSectorSize).toNat =
      (clampSize sectorCount start size).toNat / 512 := by rw [BitVec.toNat_udiv, hsector]
  have hdvd : 512 ∣ (clampSize sectorCount start size).toNat := by
    rw [Misaligned] at halign
    omega
  have hpos : 0 < (clampSize sectorCount start size).toNat :=
    Nat.pos_of_ne_zero fun h => hne (BitVec.eq_of_toNat_eq h)
  have hrest : clampSize sectorCount start size / ahciSectorSize ≠ 0#64 := by
    intro h
    rw [h] at hsectors
    change 0 = _ at hsectors
    omega
  simp only [StaysOnDevice, ahciRw_eq_some_iff halign]
  constructor
  · rintro ⟨fuel, res, rs, ⟨alignedBuf, m1, dev', m2, halloc, hsend, hfree, rfl⟩, hissued, hor⟩
    rcases hor with ⟨hret, -⟩ | ⟨hall, -, -, hle, hend, -⟩
    · exact absurd hret hne
    · rw [← hlba] at hall
      have hfit := (sendRwCmds_within_iff alignedBuf hrest).mp ⟨fuel, dev', rs, hsend, hissued, hall⟩
      rw [hlba, hsectors] at hfit
      exact ⟨⟨alignedBuf, m1, m2, halloc, hfree⟩, clampSize_fits_iff.mp ⟨hle, hend⟩, hfit⟩
  · rintro ⟨⟨alignedBuf, m1, m2, halloc, hfree⟩, hends, hfit⟩
    rw [← hlba, ← hsectors] at hfit
    obtain ⟨fuel, dev', rs, hsend, hissued, hall⟩ : ∃ fuel dev' rs, sendRwCmds fuel busy (start / ahciSectorSize)
        (clampSize sectorCount start size / ahciSectorSize) alignedBuf write dev = some dev' ∧ _ :=
      (sendRwCmds_within_iff alignedBuf hrest).mpr hfit
    rw [hlba] at hall
    obtain ⟨hle, hend⟩ := clampSize_fits_iff.mpr hends
    exact ⟨fuel, _, rs, ⟨alignedBuf, m1, dev', m2, halloc, hsend, hfree, rfl⟩, hissued,
      Or.inr ⟨hall, hpos, hdvd, hle, hend, alignedBuf, rfl⟩⟩

/-- A request stays on the device exactly if it is refused, or it comes to nothing and finds no slot, or it ends
on the device and its commands are not moved off it by attempts without a slot. -/
theorem staysOnDevice_iff : StaysOnDevice write busy moved sectorCount start size buffer dev m ↔
    Misaligned sectorCount start size ∨ BufferReturns write moved (clampSize sectorCount start size) m ∧
      (clampSize sectorCount start size = 0#64 ∧ ¬ FreeAt dev.cmdSlots busy 0 ∨
        clampSize sectorCount start size ≠ 0#64 ∧ EndsOnDevice sectorCount.toNat start.toNat size.toNat ∧
        SlotsFit (FreeAt dev.cmdSlots busy) (start.toNat / 512) ((clampSize sectorCount start size).toNat / 512)
          sectorCount.toNat) := by
  by_cases halign : Misaligned sectorCount start size
  · refine iff_of_true ⟨0, ⟨0#64, dev, m, []⟩, [], ?_, (List.append_nil _).symm, Or.inl ⟨rfl, rfl⟩⟩ (Or.inl halign)
    rw [ahciRw_eq, if_pos halign]
  by_cases hzero : clampSize sectorCount start size = 0#64
  · rw [staysOnDevice_empty halign hzero]
    simp [halign, hzero]
  · rw [staysOnDevice_some halign hzero]
    simp [halign, hzero]

end Requests

/-- A read at the end of a device of eight sectors issues a command, and one further on issues commands for sectors
that the device does not have. -/
theorem request_at_end_sends :
    ¬ (StaysOnDevice false (fun _ _ => 0#32) id 8#64 4096#64 512#64 0x100000#64 blankDev
        (runningMachine (fun _ => 0#64) reservedPmm) ∨
      StaysOnDevice false (fun _ _ => 0#32) id 8#64 8192#64 512#64 0x100000#64 blankDev
        (runningMachine (fun _ => 0#64) reservedPmm)) := by
  have hfree : FreeAt blankDev.cmdSlots (fun _ _ => 0#32) 0 := by decide
  have hends : ¬ EndsOnDevice 8 8192 512 := by
    rw [EndsOnDevice, if_neg (by decide)]
    decide
  rintro (h | h)
  · rw [staysOnDevice_empty (by decide) (by decide)] at h
    exact h.2 hfree
  · rw [staysOnDevice_some (by decide) (by decide)] at h
    exact hends h.2.1

end HaiirOS
