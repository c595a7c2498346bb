import HaiirOS.Driver.Ahci
import Mathlib.Algebra.GroupWithZero.Nat
import Mathlib.Data.Nat.Count
import Mathlib.Tactic.SplitIfs

/-!
# The ranges of a transfer's commands

`send_rw_cmds` moves on by a full command after every attempt, also after one that found no free
slot, and the rest count passes through 32 bits. The ranges that it assigns are as they should
be exactly if neither shows.
-/

namespace HaiirOS

/-- The ranges are consecutive from `lba` on and have `n` sectors in all; the memory of the `k`-th
sector is at `buffer + 512 * k`. -/
def RangesCover : BitVec 64 → Nat → BitVec 64 → List AhciRange → Prop
  | _, n, _, [] => n = 0
  | lba, n, buffer, r :: rs =>
    r.lba = lba ∧ r.buffer = buffer ∧ 0 < r.sectorCount.toNat ∧ r.sectorCount.toNat ≤ n ∧
      RangesCover (lba + r.sectorCount) (n - r.sectorCount.toNat) (buffer + 512#64 * r.sectorCount) rs

lemma RangesCover.sum {lba buffer : BitVec 64} {n : Nat} {rs : List AhciRange} (h : RangesCover lba n buffer rs) :
    (rs.map fun r => r.sectorCount.toNat).sum = n := by
  induction rs generalizing lba n buffer with
  | nil => exact h.symm
  | cons r rs ih =>
    obtain ⟨-, -, -, hle, h⟩ := h
    rw [List.map_cons, List.sum_cons, ih h]
    omega

/-- The sectors of a full command. -/
def fullCount : BitVec 64 := 0x400000#64

/-- The bytes of a full command. -/
def fullBytes : BitVec 64 := 0x80000000#64

lemma fullCount_eq : maxPrdts * bytesPerPrdt / ahciSectorSize = fullCount := by decide

lemma fullBytes_eq : maxPrdts * bytesPerPrdt = fullBytes := by decide

/-- The range that `send_rw_cmd` issues a command for. -/
def rangeOf (lba rest buffer : BitVec 64) : AhciRange := ⟨lba, if rest > fullCount then fullCount else rest, buffer⟩

/-- The rest count that `send_rw_cmd` returns after it has issued a command. -/
def restAfter (rest : BitVec 64) : BitVec 64 :=
  (if rest > fullCount then (rest - fullCount).setWidth 32 else 0#32 : BitVec 32).setWidth 64

lemma sendRwCmd_none {lba rest buffer : BitVec 64} {write : Bool} {busy : Nat → BitVec 32} {dev : AhciDev}
    (h : findCmdSlot dev.cmdSlots busy = none) : sendRwCmd lba rest buffer write busy dev = (rest, dev) := by
  simp only [sendRwCmd, h]

lemma sendRwCmd_some (lba rest buffer : BitVec 64) (write : Bool) {busy : Nat → BitVec 32} {dev : AhciDev}
    (h : (findCmdSlot dev.cmdSlots busy).isSome) :
    ∃ dev', sendRwCmd lba rest buffer write busy dev = (restAfter rest, dev') ∧ dev'.cmdSlots = dev.cmdSlots ∧
      dev'.issued.map Prod.snd = dev.issued.map Prod.snd ++ [rangeOf lba rest buffer] := by
  obtain ⟨slot, hslot⟩ := Option.isSome_iff_exists.mp h
  simp only [sendRwCmd, hslot, fullCount_eq]
  exact ⟨_, rfl, rfl, by rw [List.map_append]; rfl⟩

section Attempts

/-- The ranges that the attempts from a place on assign; `free k` says if the `k`-th of them finds a slot. -/
inductive Assigns : (Nat → Prop) → BitVec 64 → BitVec 64 → BitVec 64 → List AhciRange → Prop where
  | done {free : Nat → Prop} {lba buffer : BitVec 64} : Assigns free lba 0#64 buffer []
  | failed {free : Nat → Prop} {lba rest buffer : BitVec 64} {rs : List AhciRange} : rest ≠ 0#64 → ¬ free 0 →
      Assigns (fun k => free (k + 1)) (lba + fullCount) rest (buffer + fullBytes) rs → Assigns free lba rest buffer rs
  | sent {free : Nat → Prop} {lba rest buffer : BitVec 64} {rs : List AhciRange} : rest ≠ 0#64 → free 0 →
      Assigns (fun k => free (k + 1)) (lba + fullCount) (restAfter rest) (buffer + fullBytes) rs →
      Assigns free lba rest buffer (rangeOf lba rest buffer :: rs)

/-- The attempts that find a free slot. -/
def FreeAt (cmdSlots : Nat) (busy : Nat → Nat → BitVec 32) (k : Nat) : Prop :=
  (findCmdSlot cmdSlots (busy k)).isSome

instance (cmdSlots : Nat) (busy : Nat → Nat → BitVec 32) : DecidablePred (FreeAt cmdSlots busy) :=
  fun _ => inferInstanceAs (Decidable (_ = true))

lemma assigns_of_sendRest {write : Bool} {fuel : Nat} {busy : Nat → Nat → BitVec 32} {lba rest buffer : BitVec 64}
    {dev dev' : AhciDev} (h : sendRest write fuel busy lba rest buffer dev = some dev') :
    ∃ rs, dev'.issued.map Prod.snd = dev.issued.map Prod.snd ++ rs ∧
      Assigns (FreeAt dev.cmdSlots busy) (lba + fullCount) rest (buffer + fullBytes) rs := by
  induction fuel generalizing busy lba rest buffer dev with
  | zero => cases h
  | succ fuel ih =>
    by_cases hrest : rest = 0#64
    · subst hrest
      cases h
      exact ⟨[], (List.append_nil _).symm, .done⟩
    · rw [sendRest, if_pos hrest, fullCount_eq, fullBytes_eq] at h
      by_cases hfree : FreeAt dev.cmdSlots busy 0
      · obtain ⟨dev1, heq, hslots, hissued⟩ := sendRwCmd_some (lba + fullCount) rest
          (buffer + fullBytes) write hfree
        simp only [heq] at h
        obtain ⟨rs, hrs, ha⟩ := ih h
        rw [hslots] at ha
        exact ⟨_, by rw [hrs, hissued, List.append_assoc, List.singleton_append], .sent hrest hfree ha⟩
      · have hnone : findCmdSlot dev.cmdSlots (busy 0) = none := by simpa [FreeAt] using hfree
        simp only [sendRwCmd_none hnone] at h
        obtain ⟨rs, hrs, ha⟩ := ih h
        exact ⟨rs, hrs, .failed hrest hfree ha⟩

lemma sendRest_of_assigns (write : Bool) {free : Nat → Prop} {lba rest buffer : BitVec 64} {rs : List AhciRange}
    (h : Assigns free (lba + fullCount) rest (buffer + fullBytes) rs) {busy : Nat → Nat → BitVec 32} {dev : AhciDev}
    (hfree : free = FreeAt dev.cmdSlots busy) :
    ∃ fuel dev', sendRest write fuel busy lba rest buffer dev = some dev' ∧
      dev'.issued.map Prod.snd = dev.issued.map Prod.snd ++ rs := by
  generalize hl : lba + fullCount = lba' at h
  generalize hb : buffer + fullBytes = buffer' at h
  induction h generalizing lba buffer busy dev with
  | done => exact ⟨1, dev, rfl, (List.append_nil _).symm⟩
  | failed hrest hnot _ ih =>
    subst hl hb hfree
    obtain ⟨fuel, dev', hrun, hissued⟩ := ih rfl rfl rfl
    refine ⟨fuel + 1, dev', ?_, hissued⟩
    have hnone : findCmdSlot dev.cmdSlots (busy 0) = none := by simpa [FreeAt] using hnot
    rw [sendRest, if_pos hrest, fullCount_eq, fullBytes_eq]
    simp only [sendRwCmd_none hnone]
    exact hrun
  | sent hrest hsome _ ih =>
    subst hl hb hfree
    obtain ⟨dev1, heq, hslots, hissued⟩ := sendRwCmd_some (lba + fullCount) _ (buffer + fullBytes) write
      hsome
    have hshift : (fun k => FreeAt dev.cmdSlots busy (k + 1)) = FreeAt dev1.cmdSlots fun k => busy (k + 1) := by
      rw [hslots]
      rfl
    obtain ⟨fuel, dev', hrun, hissued'⟩ := ih hshift rfl rfl
    refine ⟨fuel + 1, dev', ?_, by rw [hissued', hissued, List.append_assoc, List.singleton_append]⟩
    rw [sendRest, if_pos hrest, fullCount_eq, fullBytes_eq]
    simp only [heq]
    exact hrun

/-- The first command is sent as the loop would send it. -/
lemma sendRwCmds_eq {fuel : Nat} {busy : Nat → Nat → BitVec 32} {lba rest buffer : BitVec 64} {write : Bool}
    {dev : AhciDev} (hrest : rest ≠ 0#64) : sendRwCmds fuel busy lba rest buffer write dev =
      sendRest write (fuel + 1) busy (lba - fullCount) rest (buffer - fullBytes) dev := by
  rw [sendRest, if_pos hrest, fullCount_eq, fullBytes_eq, BitVec.sub_add_cancel, BitVec.sub_add_cancel]
  rfl

/-- `send_rw_cmds` issues commands for the ranges that its attempts assign. -/
theorem sendRwCmds_iff {busy : Nat → Nat → BitVec 32} {lba rest buffer : BitVec 64} {write : Bool} {dev : AhciDev}
    (hrest : rest ≠ 0#64) {rs : List AhciRange} :
    (∃ fuel dev', sendRwCmds fuel busy lba rest buffer write dev = some dev' ∧
      dev'.issued.map Prod.snd = dev.issued.map Prod.snd ++ rs) ↔
    Assigns (FreeAt dev.cmdSlots busy) lba rest buffer rs := by
  have hlba : lba - fullCount + fullCount = lba := BitVec.sub_add_cancel ..
  have hbuffer : buffer - fullBytes + fullBytes = buffer := BitVec.sub_add_cancel ..
  constructor
  · rintro ⟨fuel, dev', hrun, hissued⟩
    rw [sendRwCmds_eq hrest] at hrun
    obtain ⟨rs', hissued', ha⟩ := assigns_of_sendRest hrun
    rw [hlba, hbuffer] at ha
    rwa [List.append_cancel_left (hissued.symm.trans hissued')]
  · intro h
    rw [← hlba, ← hbuffer] at h
    have hfree : FreeAt dev.cmdSlots busy = FreeAt dev.cmdSlots busy := rfl
    obtain ⟨fuel, dev', hrun, hissued⟩ := sendRest_of_assigns write h hfree
    cases fuel with
    | zero => cases hrun
    | succ fuel => exact ⟨fuel, dev', (sendRwCmds_eq hrest).trans hrun, hissued⟩

end Attempts

section Coverage

lemma restAfter_le (rest : BitVec 64) :
    (restAfter rest).toNat + (rangeOf 0#64 rest 0#64).sectorCount.toNat ≤ rest.toNat := by
  unfold restAfter rangeOf
  by_cases h : rest > fullCount
  · have hlt : fullCount.toNat < rest.toNat := h
    have hfull : fullCount.toNat = 4194304 := rfl
    have := rest.isLt
    simp only [if_pos h, BitVec.toNat_setWidth, BitVec.toNat_sub, hfull] at hlt ⊢
    omega
  · simp only [if_neg h]
    simp

lemma Assigns.sum_le {free : Nat → Prop} {lba rest buffer : BitVec 64} {rs : List AhciRange}
    (h : Assigns free lba rest buffer rs) : (rs.map fun r => r.sectorCount.toNat).sum ≤ rest.toNat := by
  induction h with
  | done => exact Nat.zero_le _
  | failed _ _ _ ih => exact ih
  | @sent _ _ rest _ rs _ _ _ ih =>
    have hle := restAfter_le rest
    simp only [rangeOf, List.map_cons, List.sum_cons] at hle ⊢
    omega

variable {free : Nat → Prop}

lemma add_failed_eq_iff (lba : BitVec 64) (failed : Nat) :
    lba + BitVec.ofNat 64 (failed * 0x400000) = lba ↔ 2 ^ 42 ∣ failed := by
  constructor
  · intro h
    have hnat := congrArg BitVec.toNat h
    have := lba.isLt
    rw [BitVec.toNat_add, BitVec.toNat_ofNat] at hnat
    omega
  · rintro ⟨k, rfl⟩
    apply BitVec.eq_of_toNat_eq
    have := lba.isLt
    rw [BitVec.toNat_add, BitVec.toNat_ofNat]
    omega

lemma add_failed_eq (buffer : BitVec 64) {failed : Nat} (h : 2 ^ 42 ∣ failed) :
    buffer + BitVec.ofNat 64 (failed * 0x80000000) = buffer := by
  obtain ⟨k, rfl⟩ := h
  apply BitVec.eq_of_toNat_eq
  have := buffer.isLt
  rw [BitVec.toNat_add, BitVec.toNat_ofNat]
  omega

lemma add_failed_succ (v : BitVec 64) (failed : Nat) (c : BitVec 64) :
    v + BitVec.ofNat 64 (failed * c.toNat) + c = v + BitVec.ofNat 64 ((failed + 1) * c.toNat) := by
  rw [Nat.succ_mul, BitVec.ofNat_add, BitVec.ofNat_toNat, BitVec.setWidth_eq, BitVec.add_assoc]

lemma add_failed_comm (v : BitVec 64) (failed : Nat) (c : BitVec 64) :
    v + BitVec.ofNat 64 (failed * c.toNat) + c = v + c + BitVec.ofNat 64 (failed * c.toNat) := by
  rw [BitVec.add_assoc, BitVec.add_comm _ c, ← BitVec.add_assoc]

/-- After the given number of failed attempts the ranges that are assigned are as they should be. -/
def AssignsCover (free : Nat → Prop) (lba buffer : BitVec 64) (failed n : Nat) : Prop :=
  ∃ rs, Assigns free (lba + BitVec.ofNat 64 (failed * fullCount.toNat)) (BitVec.ofNat 64 n)
    (buffer + BitVec.ofNat 64 (failed * fullBytes.toNat)) rs ∧ RangesCover lba n buffer rs

lemma ofNat_ne_zero {n : Nat} (hn : 0 < n) (hlt : n < 2 ^ 64) : BitVec.ofNat 64 n ≠ 0#64 := by
  intro h
  have hnat := congrArg BitVec.toNat h
  rw [BitVec.toNat_ofNat, Nat.mod_eq_of_lt hlt] at hnat
  exact hn.ne' hnat

lemma covered_failed (h : ¬ free 0) {lba buffer : BitVec 64} {failed n : Nat} (hn : 0 < n) (hlt : n < 2 ^ 64) :
    AssignsCover free lba buffer failed n ↔ AssignsCover (fun k => free (k + 1)) lba buffer (failed + 1) n := by
  have hrest := ofNat_ne_zero hn hlt
  unfold AssignsCover
  rw [← add_failed_succ, ← add_failed_succ]
  constructor
  · rintro ⟨rs, ha, hc⟩
    generalize BitVec.ofNat 64 n = rest at ha hrest
    cases ha with
    | done => exact absurd rfl hrest
    | failed _ _ ha => exact ⟨rs, ha, hc⟩
    | sent _ hfree _ => exact absurd hfree h
  · rintro ⟨rs, ha, hc⟩
    exact ⟨rs, .failed hrest h ha, hc⟩

lemma ofNat_gt_fullCount {n : Nat} (hlt : n < 2 ^ 64) : BitVec.ofNat 64 n > fullCount ↔ 0x400000 < n := by
  have hfull : fullCount.toNat = 0x400000 := rfl
  rw [gt_iff_lt, BitVec.lt_def, BitVec.toNat_ofNat, Nat.mod_eq_of_lt hlt, hfull]

lemma restAfter_ofNat {n : Nat} (hlt : n < 2 ^ 64) :
    restAfter (BitVec.ofNat 64 n) = BitVec.ofNat 64 ((n - 0x400000) % 2 ^ 32) := by
  have hfull : fullCount.toNat = 0x400000 := rfl
  apply BitVec.eq_of_toNat_eq
  unfold restAfter
  by_cases h : 0x400000 < n
  · rw [if_pos ((ofNat_gt_fullCount hlt).mpr h)]
    simp only [BitVec.toNat_setWidth, BitVec.toNat_sub, BitVec.toNat_ofNat, hfull]
    omega
  · rw [if_neg (mt (ofNat_gt_fullCount hlt).mp h), Nat.sub_eq_zero_of_le (by omega)]
    rfl

lemma covered_sent (h : free 0) {lba buffer : BitVec 64} {failed n : Nat} (hn : 0 < n) (hlt : n < 2 ^ 64) :
    AssignsCover free lba buffer failed n ↔ n < 2 ^ 32 + 0x400000 ∧ 2 ^ 42 ∣ failed ∧
      (0x400000 < n → AssignsCover (fun k => free (k + 1)) (lba + fullCount) (buffer + fullBytes) failed (n - 0x400000)) := by
  have hrest := ofNat_ne_zero hn hlt
  have hfull : fullCount.toNat = 0x400000 := rfl
  have hbytes : 512#64 * fullCount = fullBytes := rfl
  have hsent : AssignsCover free lba buffer failed n ↔ ∃ rs,
      Assigns (fun k => free (k + 1)) (lba + fullCount + BitVec.ofNat 64 (failed * fullCount.toNat))
        (BitVec.ofNat 64 ((n - 0x400000) % 2 ^ 32)) (buffer + fullBytes + BitVec.ofNat 64 (failed * fullBytes.toNat)) rs ∧
      RangesCover lba n buffer (rangeOf (lba + BitVec.ofNat 64 (failed * fullCount.toNat)) (BitVec.ofNat 64 n)
        (buffer + BitVec.ofNat 64 (failed * fullBytes.toNat)) :: rs) := by
    unfold AssignsCover
    rw [← add_failed_comm, ← add_failed_comm, ← restAfter_ofNat hlt]
    constructor
    · rintro ⟨rs, ha, hc⟩
      generalize BitVec.ofNat 64 n = rest at ha hc hrest
      cases ha with
      | done => exact absurd rfl hrest
      | failed _ hnot _ => exact absurd h hnot
      | sent _ _ ha => exact ⟨_, ha, hc⟩
    · rintro ⟨rs, ha, hc⟩
      exact ⟨_, .sent hrest h ha, hc⟩
  rw [hsent]
  by_cases hfit : 0x400000 < n
  · have hrange (l b : BitVec 64) : rangeOf l (BitVec.ofNat 64 n) b = ⟨l, fullCount, b⟩ := by
      rw [rangeOf, if_pos ((ofNat_gt_fullCount hlt).mpr hfit)]
    simp only [hrange, RangesCover, hfull, hbytes]
    constructor
    · rintro ⟨rs, ha, hl, hb, -, -, hc⟩
      have hsum := ha.sum_le
      rw [hc.sum, BitVec.toNat_ofNat] at hsum
      have hmod : (n - 0x400000) % 2 ^ 32 = n - 0x400000 := by omega
      rw [hmod] at ha
      exact ⟨by omega, (add_failed_eq_iff lba failed).mp hl, fun _ => ⟨rs, ha, hc⟩⟩
    · rintro ⟨hsmall, hdvd, hc⟩
      obtain ⟨rs, ha, hc⟩ := hc hfit
      have hmod : (n - 0x400000) % 2 ^ 32 = n - 0x400000 := Nat.mod_eq_of_lt (by omega)
      rw [hmod]
      exact ⟨rs, ha, (add_failed_eq_iff lba failed).mpr hdvd, add_failed_eq buffer hdvd, by omega, by omega, hc⟩
  · have hrange (l b : BitVec 64) : rangeOf l (BitVec.ofNat 64 n) b = ⟨l, BitVec.ofNat 64 n, b⟩ := by
      rw [rangeOf, if_neg (mt (ofNat_gt_fullCount hlt).mp hfit)]
    have hzero : (n - 0x400000) % 2 ^ 32 = 0 := by omega
    simp only [hrange, RangesCover, hzero, BitVec.toNat_ofNat, Nat.mod_eq_of_lt hlt, Nat.sub_self]
    constructor
    · rintro ⟨rs, -, hl, -⟩
      exact ⟨by omega, (add_failed_eq_iff lba failed).mp hl, fun hlt => absurd hlt hfit⟩
    · rintro ⟨-, hdvd, -⟩
      exact ⟨[], .done, (add_failed_eq_iff lba failed).mpr hdvd, add_failed_eq buffer hdvd, hn, le_rfl, rfl⟩

lemma recurring_shift (hrec : ∀ t, ∃ k ≥ t, free k) (t : Nat) : ∃ k ≥ t, free (k + 1) := by
  obtain ⟨k, hk, hfree⟩ := hrec (t + 1)
  exact ⟨k - 1, by omega, by rwa [Nat.sub_add_cancel (by omega)]⟩

/-- The attempts that send a command come after a number of failed ones that the 64-bit address and
sector count do not show. -/
def Aligned (free : Nat → Prop) [DecidablePred free] (failed n : Nat) : Prop :=
  ∀ t, free t → Nat.count free t * 0x400000 < n → 2 ^ 42 ∣ failed + Nat.count (fun k => ¬ free k) t

variable [DecidablePred free]

lemma aligned_failed (h : ¬ free 0) {failed n : Nat} :
    Aligned free failed n ↔ Aligned (fun k => free (k + 1)) (failed + 1) n := by
  constructor
  · intro ha t ht hn
    have hstep := ha (t + 1) ht
    rw [Nat.count_succ', Nat.count_succ', if_neg h, if_pos h] at hstep
    have := hstep hn
    rwa [Nat.add_assoc, Nat.add_comm 1]
  · intro ha t ht hn
    cases t with
    | zero => exact absurd ht h
    | succ t =>
      rw [Nat.count_succ', if_neg h] at hn
      have hstep := ha t ht hn
      rw [Nat.add_assoc, Nat.add_comm 1] at hstep
      rw [Nat.count_succ', if_pos h]
      exact hstep

lemma mul_lt_sub_iff (k n : Nat) : k * 0x400000 < n - 0x400000 ↔ (k + 1) * 0x400000 < n := by omega

lemma aligned_sent (h : free 0) {failed n : Nat} (hn : 0 < n) :
    Aligned free failed n ↔ 2 ^ 42 ∣ failed ∧ Aligned (fun k => free (k + 1)) failed (n - 0x400000) := by
  constructor
  · intro ha
    constructor
    · have h0 := ha 0 h
      simp only [Nat.count_zero, Nat.zero_mul, Nat.add_zero] at h0
      exact h0 hn
    · intro t ht hlt
      have hstep := ha (t + 1) ht
      rw [Nat.count_succ', Nat.count_succ', if_pos h, if_neg (not_not.mpr h)] at hstep
      exact hstep ((mul_lt_sub_iff _ n).mp hlt)
  · rintro ⟨hdvd, ha⟩ t ht hlt
    cases t with
    | zero => simpa using hdvd
    | succ t =>
      rw [Nat.count_succ', if_pos h] at hlt
      rw [Nat.count_succ', if_neg (not_not.mpr h)]
      exact ha t ht ((mul_lt_sub_iff _ n).mpr hlt)

/-- The ranges are as they should be exactly if the rest count fits and the attempts to come are aligned. -/
lemma covered_iff (hrec : ∀ t, ∃ k ≥ t, free k) {lba buffer : BitVec 64} {failed n : Nat} (hn : 0 < n)
    (hlt : n < 2 ^ 64) :
    AssignsCover free lba buffer failed n ↔ n < 2 ^ 32 + 0x400000 ∧ Aligned free failed n := by
  induction n using Nat.strong_induction_on generalizing free failed lba buffer with
  | _ n ih =>
  obtain ⟨k, -, hk⟩ := hrec 0
  have hsent {free : Nat → Prop} [DecidablePred free] (hrec : ∀ t, ∃ k ≥ t, free k) {failed : Nat} (h : free 0) :
      AssignsCover free lba buffer failed n ↔ n < 2 ^ 32 + 0x400000 ∧ Aligned free failed n := by
    rw [covered_sent h hn hlt, aligned_sent h hn]
    by_cases hfit : 0x400000 < n
    · rw [ih (n - 0x400000) (by omega) (recurring_shift hrec) (by omega) (by omega)]
      constructor
      · rintro ⟨hn, hdvd, h⟩
        exact ⟨hn, hdvd, (h hfit).2⟩
      · rintro ⟨hn, hdvd, h⟩
        exact ⟨hn, hdvd, fun _ => ⟨(Nat.sub_le _ _).trans_lt hn, h⟩⟩
    · have hall : Aligned (fun k => free (k + 1)) failed (n - 0x400000) := by
        have hzero : n - 0x400000 = 0 := by omega
        rw [hzero]
        exact fun t _ hlt => absurd hlt (Nat.not_lt_zero _)
      constructor
      · rintro ⟨hn, hdvd, -⟩
        exact ⟨hn, hdvd, hall⟩
      · rintro ⟨hn, hdvd, -⟩
        exact ⟨hn, hdvd, fun h => absurd h hfit⟩
  -- the failed attempts before the next free one
  induction k generalizing free failed with
  | zero => exact hsent hrec hk
  | succ k ihk =>
    by_cases h0 : free 0
    · exact hsent hrec h0
    · rw [aligned_failed h0, covered_failed h0 hn hlt]
      exact ihk (recurring_shift hrec) hk

end Coverage

/-- `send_rw_cmds` returns, and the ranges of its commands are as they should be, exactly if the
rest count fits in 32 bits and no failed attempt shows in the place of a command. -/
theorem sendRwCmds_covers_iff {busy : Nat → Nat → BitVec 32} {lba sectorCount buffer : BitVec 64} {write : Bool}
    {dev : AhciDev} (hcount : sectorCount ≠ 0#64) (hrec : ∀ t, ∃ k ≥ t, FreeAt dev.cmdSlots busy k) :
    (∃ fuel dev' rs, sendRwCmds fuel busy lba sectorCount buffer write dev = some dev' ∧
      dev'.issued.map Prod.snd = dev.issued.map Prod.snd ++ rs ∧ RangesCover lba sectorCount.toNat buffer rs) ↔
    sectorCount.toNat < 2 ^ 32 + 0x400000 ∧
      ∀ t, FreeAt dev.cmdSlots busy t → Nat.count (FreeAt dev.cmdSlots busy) t * 0x400000 < sectorCount.toNat →
        2 ^ 42 ∣ Nat.count (fun k => ¬ FreeAt dev.cmdSlots busy k) t := by
  have hpos : 0 < sectorCount.toNat := by
    apply Nat.pos_of_ne_zero
    intro h
    exact hcount (BitVec.eq_of_toNat_eq h)
  have hcov : AssignsCover (FreeAt dev.cmdSlots busy) lba buffer 0 sectorCount.toNat ↔ _ :=
    covered_iff hrec hpos sectorCount.isLt
  simp only [AssignsCover, Aligned, Nat.zero_mul, Nat.zero_add, BitVec.add_zero, BitVec.ofNat_toNat,
    BitVec.setWidth_eq] at hcov
  rw [← hcov]
  constructor
  · rintro ⟨fuel, dev', rs, hrun, hissued, hc⟩
    exact ⟨rs, (sendRwCmds_iff hcount).mp ⟨fuel, dev', hrun, hissued⟩, hc⟩
  · rintro ⟨rs, ha, hc⟩
    have hrun : ∃ fuel dev', sendRwCmds fuel busy lba sectorCount buffer write dev = some dev' ∧ _ :=
      (sendRwCmds_iff hcount).mpr ha
    obtain ⟨fuel, dev', hrun, hissued⟩ := hrun
    exact ⟨fuel, dev', rs, hrun, hissued, hc⟩

/-- A device with one command slot that has issued no command. -/
def blankDev : AhciDev where
  cmdSlots := 1
  cmds _ :=
    { cfl := 0#5
      w := false
      prdtl := 0#16
      cfis := ⟨0#8, false, 0#8, 0#8, 0#8, 0#8, 0#8, 0#8, 0#8, 0#8, 0#8, 0#8⟩
      entries := fun _ => ⟨0#32, 0#32, 0#22, false⟩ }
  issued := []

/-- A port whose slots are always free takes a transfer of three commands. -/
theorem blankDev_covers : ∃ fuel dev' rs,
    sendRwCmds fuel (fun _ _ => 0#32) 7#64 0x800001#64 0x100000#64 false blankDev = some dev' ∧
    dev'.issued.map Prod.snd = blankDev.issued.map Prod.snd ++ rs ∧ RangesCover 7#64 (0x800001#64).toNat 0x100000#64 rs := by
  have hfree (t : Nat) : FreeAt blankDev.cmdSlots (fun _ _ => 0#32) t := by
    have h : (findCmdSlot 1 fun _ => 0#32).isSome := by decide
    exact h
  apply (sendRwCmds_covers_iff (by decide) fun t => ⟨t, le_rfl, hfree t⟩).mpr
  refine ⟨by decide, fun t _ _ => ?_⟩
  have hnone : Nat.count (fun k => ¬ FreeAt blankDev.cmdSlots (fun _ _ => 0#32) k) t = 0 :=
    Nat.count_iff_forall_not.mpr fun k _ => not_not.mpr (hfree k)
  rw [hnone]
  exact Nat.dvd_zero _

/-- Where the slot is busy at the first attempt, a transfer of one sector goes to another place. -/
theorem busy_slot_skips : ¬ ∃ fuel dev' rs, sendRwCmds fuel (fun k _ => if k = 0 then 0xffffffff#32 else 0#32)
      7#64 1#64 0x100000#64 true blankDev = some dev' ∧
    dev'.issued.map Prod.snd = blankDev.issued.map Prod.snd ++ rs ∧ RangesCover 7#64 1 0x100000#64 rs := by
  rintro ⟨fuel, dev', rs, hrun, hissued, hc⟩
  have hbusy : ¬ FreeAt 1 (fun k _ => if k = 0 then 0xffffffff#32 else 0#32) 0 := by decide
  have hfree : FreeAt 1 (fun k _ => if k + 1 = 0 then 0xffffffff#32 else 0#32) 0 := by decide
  cases (sendRwCmds_iff (by decide)).mp ⟨fuel, dev', hrun, hissued⟩ with
  | sent _ h _ => exact hbusy h
  | failed _ _ h =>
    cases h with
    | failed _ h _ => exact h hfree
    | sent _ _ _ => exact absurd hc.1 (by decide)

end HaiirOS
