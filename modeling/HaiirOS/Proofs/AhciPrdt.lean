import HaiirOS.Proofs.AhciRanges
import Mathlib.Algebra.BigOperators.Group.Finset.Basic
import Mathlib.Algebra.BigOperators.Intervals

/-!
# The descriptor table of a command

The entries that `set_prdts` writes describe the buffer without gaps, whatever the number of
sectors. The count registers of the command have 16 bits, so that they agree with the table for
65536 sectors at most.
-/

namespace HaiirOS

open Finset

namespace AhciPrdtEntry

/-- The data base address in its two halves. -/
def addr (e : AhciPrdtEntry) : Nat := e.dba.toNat + 2 ^ 32 * e.dbau.toNat

/-- The bytes that the entry describes, one more than its count field. -/
def bytes (e : AhciPrdtEntry) : Nat := e.dbc.toNat + 1

end AhciPrdtEntry

/-- The bytes that the entries of a command's table describe in all. -/
def AhciCmd.prdtBytes (cmd : AhciCmd) : Nat := ∑ i ∈ range cmd.prdtl.toNat, (cmd.entries i).bytes

/-- What `set_prdts` writes into an entry. -/
def prdtEntry (buffer : BitVec 64) (dbc : BitVec 32) (interrupt : Bool) : AhciPrdtEntry :=
  ⟨buffer.setWidth 32, (buffer >>> 32).setWidth 32, dbc.setWidth 22, interrupt⟩

lemma prdtEntry_addr (buffer : BitVec 64) (dbc : BitVec 32) (interrupt : Bool) :
    (prdtEntry buffer dbc interrupt).addr = buffer.toNat := by
  have := buffer.isLt
  simp only [AhciPrdtEntry.addr, prdtEntry, BitVec.toNat_setWidth, BitVec.toNat_ushiftRight, Nat.shiftRight_eq_div_pow]
  omega

section Loop

variable (entries : Int → AhciPrdtEntry) (buffer : BitVec 64) (size : BitVec 32) (interrupt : Bool)

/-- The table after `n` passes of the loop of `set_prdts`. -/
def fullEntries (n : Nat) (k : Int) : AhciPrdtEntry :=
  if 0 ≤ k ∧ k < n then prdtEntry (buffer + BitVec.ofNat 64 (k.toNat * 0x200000)) 0x1fffff#32 interrupt else entries k

lemma fullEntries_succ (n : Nat) : fullEntries entries buffer interrupt (n + 1) = fun k =>
    if k = (n : Int) then prdtEntry (buffer + BitVec.ofNat 64 (n * 0x200000)) 0x1fffff#32 interrupt
    else fullEntries entries buffer interrupt n k := by
  funext k
  unfold fullEntries
  by_cases hk : k = n
  · rw [if_pos hk, if_pos (by omega), hk, Int.toNat_natCast]
  · have hiff : (0 ≤ k ∧ k < (n + 1 : Nat)) ↔ 0 ≤ k ∧ k < n := by omega
    rw [if_neg hk]
    simp only [hiff]

/-- The table that `set_prdts` writes. -/
lemma setPrdts_entries (cmd : AhciCmd) : (setPrdts cmd buffer size interrupt).entries =
    fun k => if k = (cmd.prdtl.toNat : Int) - 1 then
        prdtEntry (buffer + BitVec.ofNat 64 ((cmd.prdtl.toNat - 1) * 0x200000))
          (size - BitVec.ofNat 32 ((cmd.prdtl.toNat - 1) * 0x200000) - 1#32) interrupt
      else fullEntries cmd.entries buffer interrupt (cmd.prdtl.toNat - 1) k := by
  have hloop (n : Nat) : (List.range n).foldl (fun (r : (Int → AhciPrdtEntry) × BitVec 64 × BitVec 32) (i : Nat) =>
      (fun k => if k = (i : Int) then prdtEntry r.2.1 (bytesPerPrdt.setWidth 32 - 1#32) interrupt else r.1 k,
        r.2.1 + bytesPerPrdt, r.2.2 - bytesPerPrdt.setWidth 32)) (cmd.entries, buffer, size) =
      (fullEntries cmd.entries buffer interrupt n, buffer + BitVec.ofNat 64 (n * 0x200000),
        size - BitVec.ofNat 32 (n * 0x200000)) := by
    induction n with
    | zero =>
      have hnone : fullEntries cmd.entries buffer interrupt 0 = cmd.entries := by
        funext k
        exact if_neg (by omega)
      simp [hnone]
    | succ n ih =>
      rw [List.range_succ, List.foldl_append, ih, fullEntries_succ]
      simp only [List.foldl_cons, List.foldl_nil, Prod.mk.injEq]
      refine ⟨rfl, ?_, ?_⟩
      · rw [Nat.succ_mul, BitVec.ofNat_add, ← BitVec.add_assoc]
        rfl
      · rw [Nat.succ_mul, BitVec.ofNat_add, BitVec.sub_eq_add_neg, BitVec.sub_eq_add_neg, BitVec.sub_eq_add_neg,
          BitVec.neg_add, BitVec.sub_eq_add_neg, ← BitVec.add_assoc]
        rfl
  exact congrArg (fun r : (Int → AhciPrdtEntry) × BitVec 64 × BitVec 32 => fun k =>
    if k = (cmd.prdtl.toNat : Int) - 1 then prdtEntry r.2.1 (r.2.2 - 1#32) interrupt else r.1 k)
    (hloop (cmd.prdtl.toNat - 1))

end Loop

section Command

variable {lba sectorCount buffer : BitVec 64} {write : Bool} {busy : Nat → BitVec 32} {dev : AhciDev} {slot : Nat}

/-- The sectors of a command for `sectorCount` sectors. -/
def cmdSectors (sectorCount : BitVec 64) : Nat := min sectorCount.toNat (2 ^ 22)

/-- The number of descriptors that `send_rw_cmd` asks for. -/
lemma prdtl_toNat (hcount : sectorCount ≠ 0#64) :
    (if sectorCount > maxPrdts * bytesPerPrdt / ahciSectorSize then maxPrdts.setWidth 16
      else ((sectorCount - 1#64) * ahciSectorSize / bytesPerPrdt + 1#64).setWidth 16 : BitVec 16).toNat =
    (cmdSectors sectorCount - 1) / 4096 + 1 := by
  have hpos : 0 < sectorCount.toNat := Nat.pos_of_ne_zero fun h => hcount (BitVec.eq_of_toNat_eq h)
  have hmax : (maxPrdts * bytesPerPrdt / ahciSectorSize).toNat = 2 ^ 22 := by decide
  have := sectorCount.isLt
  unfold cmdSectors
  split_ifs with h
  · rw [gt_iff_lt, BitVec.lt_def, hmax] at h
    rw [Nat.min_eq_right (by omega)]
    decide
  · rw [gt_iff_lt, BitVec.lt_def, hmax] at h
    have hone : (1#64).toNat = 1 := rfl
    have hsector : ahciSectorSize.toNat = 512 := rfl
    have hbytes : bytesPerPrdt.toNat = 2097152 := rfl
    rw [Nat.min_eq_left (by omega)]
    simp only [BitVec.toNat_setWidth, BitVec.toNat_add, BitVec.toNat_udiv, BitVec.toNat_mul, BitVec.toNat_sub,
      hone, hsector, hbytes]
    omega

/-- The size that `send_rw_cmd` hands to `set_prdts`. -/
lemma prdt_size (sectorCount : BitVec 64) :
    ((if sectorCount > maxPrdts * bytesPerPrdt / ahciSectorSize then maxPrdts * bytesPerPrdt / ahciSectorSize
      else sectorCount) * ahciSectorSize).setWidth 32 = BitVec.ofNat 32 (512 * cmdSectors sectorCount) := by
  have hmax : (maxPrdts * bytesPerPrdt / ahciSectorSize).toNat = 2 ^ 22 := by decide
  have hsector : ahciSectorSize.toNat = 512 := rfl
  have := sectorCount.isLt
  unfold cmdSectors
  apply BitVec.eq_of_toNat_eq
  split_ifs with h
  · rw [gt_iff_lt, BitVec.lt_def, hmax] at h
    rw [Nat.min_eq_right (by omega)]
    decide
  · rw [gt_iff_lt, BitVec.lt_def, hmax] at h
    rw [Nat.min_eq_left (by omega)]
    simp only [BitVec.toNat_setWidth, BitVec.toNat_mul, BitVec.toNat_ofNat, hsector]
    omega

/-- The count of the last entry, which describes what the full entries leave over. -/
lemma last_dbc {n : Nat} (hpos : 0 < n) (hle : n ≤ 2 ^ 22) :
    BitVec.ofNat 32 (512 * n) - BitVec.ofNat 32 ((n - 1) / 4096 * 0x200000) - 1#32 =
      BitVec.ofNat 32 (min 0x200000 (512 * n - (n - 1) / 4096 * 0x200000) - 1) := by
  have hrest : 512 * n - (n - 1) / 4096 * 0x200000 ≤ 0x200000 := by omega
  rw [Nat.min_eq_right hrest, BitVec.ofNat_sub_ofNat_of_le _ _ (by omega) (by omega),
    BitVec.ofNat_sub_ofNat_of_le _ _ (by omega) (by omega)]

lemma full_dbc {n i : Nat} (hi : i < (n - 1) / 4096) :
    0x1fffff#32 = BitVec.ofNat 32 (min 0x200000 (512 * n - i * 0x200000) - 1) := by
  rw [Nat.min_eq_left (by omega)]

/-- The command that `send_rw_cmd` leaves in the slot. -/
lemma sendRwCmd_cmd (hslot : findCmdSlot dev.cmdSlots busy = some slot) (hcount : sectorCount ≠ 0#64) :
    ((sendRwCmd lba sectorCount buffer write busy dev).2.cmds slot).prdtl.toNat =
      (cmdSectors sectorCount - 1) / 4096 + 1 ∧
    ∀ k : Int, ((sendRwCmd lba sectorCount buffer write busy dev).2.cmds slot).entries k =
      if 0 ≤ k ∧ k < ((cmdSectors sectorCount - 1) / 4096 + 1 : Nat) then
        prdtEntry (buffer + BitVec.ofNat 64 (k.toNat * 0x200000))
          (BitVec.ofNat 32 (min 0x200000 (512 * cmdSectors sectorCount - k.toNat * 0x200000) - 1)) true
      else (dev.cmds slot).entries k := by
  have hpos : 0 < cmdSectors sectorCount := by
    have hne : sectorCount.toNat ≠ 0 := fun h => hcount (BitVec.eq_of_toNat_eq h)
    unfold cmdSectors
    omega
  have hle : cmdSectors sectorCount ≤ 2 ^ 22 := Nat.min_le_right ..
  have hprdtl := prdtl_toNat hcount
  have hsize := prdt_size sectorCount
  simp only [sendRwCmd, hslot, if_true, hsize]
  constructor
  · exact hprdtl
  · intro k
    rw [setPrdts_entries]
    simp only [hprdtl, Nat.add_sub_cancel, fullEntries]
    generalize cmdSectors sectorCount = n at hpos hle
    by_cases hlast : k = ((n - 1) / 4096 : Nat)
    · rw [if_pos (by omega), if_pos (by omega), hlast, Int.toNat_natCast]
      rw [last_dbc hpos hle]
    · rw [if_neg (by omega)]
      by_cases hk : 0 ≤ k ∧ k < ((n - 1) / 4096 : Nat)
      · have hi : k.toNat < (n - 1) / 4096 := by omega
        rw [if_pos hk, if_pos (by omega), full_dbc hi]
      · rw [if_neg hk, if_neg (by omega)]

lemma prdtEntry_bytes (n i : Nat) (hn : i * 0x200000 < 512 * n) :
    (prdtEntry buffer (BitVec.ofNat 32 (min 0x200000 (512 * n - i * 0x200000) - 1)) true).bytes =
      min 0x200000 (512 * n - i * 0x200000) := by
  simp only [AhciPrdtEntry.bytes, prdtEntry, BitVec.toNat_setWidth, BitVec.toNat_ofNat]
  omega

lemma sum_bytes (n k : Nat) : ∑ i ∈ range k, min 0x200000 (n - i * 0x200000) = min (k * 0x200000) n := by
  induction k with
  | zero => simp
  | succ k ih =>
    rw [sum_range_succ, ih]
    omega

variable (hslot : findCmdSlot dev.cmdSlots busy = some slot) (hcount : sectorCount ≠ 0#64)
include hslot hcount

lemma sendRwCmd_bytes {i : Nat} (hi : i < (cmdSectors sectorCount - 1) / 4096 + 1) :
    (((sendRwCmd lba sectorCount buffer write busy dev).2.cmds slot).entries i).bytes =
      min 0x200000 (512 * cmdSectors sectorCount - i * 0x200000) := by
  have hne : sectorCount.toNat ≠ 0 := fun h => hcount (BitVec.eq_of_toNat_eq h)
  have hpos : 0 < cmdSectors sectorCount := by
    unfold cmdSectors
    omega
  rw [(sendRwCmd_cmd hslot hcount).2, if_pos (by omega), Int.toNat_natCast, prdtEntry_bytes]
  omega

lemma sendRwCmd_prdtBytes :
    ((sendRwCmd lba sectorCount buffer write busy dev).2.cmds slot).prdtBytes = 512 * cmdSectors sectorCount := by
  rw [AhciCmd.prdtBytes, (sendRwCmd_cmd hslot hcount).1,
    sum_congr rfl fun i hi => sendRwCmd_bytes hslot hcount (mem_range.mp hi), sum_bytes]
  omega

end Command

/-- The descriptor table of a command describes `size` bytes from `buffer` on without gaps. -/
structure DescribesBuffer (cmd : AhciCmd) (buffer size : Nat) : Prop where
  nonempty : 1 ≤ cmd.prdtl.toNat
  prdtl_le : cmd.prdtl.toNat ≤ 1024
  first : (cmd.entries 0).addr = buffer
  next : ∀ i : Nat, i + 1 < cmd.prdtl.toNat →
    (cmd.entries (i + 1 : Nat)).addr = (cmd.entries i).addr + (cmd.entries i).bytes
  bytes_le : ∀ i < cmd.prdtl.toNat, (cmd.entries i).bytes ≤ 0x200000
  total : cmd.prdtBytes = size

/-- `send_rw_cmd` describes exactly the sectors of its command and writes no entry beyond them. -/
theorem sendRwCmd_describes {lba sectorCount buffer : BitVec 64} {write : Bool} {busy : Nat → BitVec 32}
    {dev : AhciDev} {slot : Nat} (hslot : findCmdSlot dev.cmdSlots busy = some slot) (hcount : sectorCount ≠ 0#64)
    (hwrap : buffer.toNat + 512 * min sectorCount.toNat (2 ^ 22) ≤ 2 ^ 64) :
    DescribesBuffer ((sendRwCmd lba sectorCount buffer write busy dev).2.cmds slot) buffer.toNat
      (512 * min sectorCount.toNat (2 ^ 22)) ∧
    (∀ k : Int, k < 0 ∨ ((sendRwCmd lba sectorCount buffer write busy dev).2.cmds slot).prdtl.toNat ≤ k →
      ((sendRwCmd lba sectorCount buffer write busy dev).2.cmds slot).entries k = (dev.cmds slot).entries k) ∧
    ∀ other ≠ slot, (sendRwCmd lba sectorCount buffer write busy dev).2.cmds other = dev.cmds other := by
  have hn : min sectorCount.toNat (2 ^ 22) = cmdSectors sectorCount := rfl
  have hle : cmdSectors sectorCount ≤ 2 ^ 22 := Nat.min_le_right ..
  have hpos : 0 < cmdSectors sectorCount := by
    have hne : sectorCount.toNat ≠ 0 := fun h => hcount (BitVec.eq_of_toNat_eq h)
    unfold cmdSectors
    omega
  rw [hn] at hwrap ⊢
  obtain ⟨hprdtl, hentries⟩ := @sendRwCmd_cmd lba sectorCount buffer write busy dev slot hslot hcount
  have haddr (i : Nat) (hi : i < (cmdSectors sectorCount - 1) / 4096 + 1) :
      (((sendRwCmd lba sectorCount buffer write busy dev).2.cmds slot).entries i).addr =
        buffer.toNat + i * 0x200000 := by
    rw [hentries, if_pos (by omega), Int.toNat_natCast, prdtEntry_addr, BitVec.toNat_add, BitVec.toNat_ofNat]
    omega
  refine ⟨⟨by omega, by omega, haddr 0 (by omega), fun i hi => ?_, fun i hi => ?_,
    sendRwCmd_prdtBytes hslot hcount⟩, fun k hk => ?_, fun other hother => ?_⟩
  · rw [haddr (i + 1) (by omega), haddr i (by omega), sendRwCmd_bytes hslot hcount (by omega)]
    omega
  · rw [sendRwCmd_bytes hslot hcount (by omega)]
    exact Nat.min_le_left ..
  · rw [hentries, if_neg (by omega)]
  · simp only [sendRwCmd, hslot, if_neg hother]

/-- A transfer beyond the cap fills all 1024 entries. -/
theorem capped_describes :
    DescribesBuffer ((sendRwCmd 7#64 0x400001#64 0x100000#64 false (fun _ => 0#32) blankDev).2.cmds 0)
      (0x100000#64).toNat (512 * min (0x400001#64).toNat (2 ^ 22)) :=
  (@sendRwCmd_describes 7#64 0x400001#64 0x100000#64 false (fun _ => 0#32) blankDev 0 (by decide) (by decide)
    (by decide)).1

/-- The 48-bit sector address that a controller reads from the command. -/
def AhciFisH2d.lba (fis : AhciFisH2d) : Nat :=
  fis.lba0.toNat + 2 ^ 8 * fis.lba1.toNat + 2 ^ 16 * fis.lba2.toNat + 2 ^ 24 * fis.lba3.toNat +
    2 ^ 32 * fis.lba4.toNat + 2 ^ 40 * fis.lba5.toNat

/-- The sectors that a controller transfers for the count registers, where 0 stands for 65536. -/
def AhciFisH2d.sectors (fis : AhciFisH2d) : Nat :=
  if fis.countl.toNat + 2 ^ 8 * fis.counth.toNat = 0 then 65536 else fis.countl.toNat + 2 ^ 8 * fis.counth.toNat

lemma low_byte (x : BitVec 64) : ((x &&& 0xff#64).setWidth 8).toNat = x.toNat % 256 := by
  have hand : (x &&& 0xff#64).toNat = x.toNat % 2 ^ 8 := Nat.and_two_pow_sub_one_eq_mod x.toNat 8
  rw [BitVec.toNat_setWidth, hand]
  omega

/-- Command, descriptor table and rest count agree on what is transferred. -/
structure Consistent (cmd : AhciCmd) (lba sectorCount restSectors : Nat) : Prop where
  lba : cmd.cfis.lba = lba
  table : 512 * cmd.cfis.sectors = cmd.prdtBytes
  rest : cmd.cfis.sectors + restSectors = sectorCount

/-- The command that `send_rw_cmd` issues is consistent up to the largest count that its registers hold. -/
theorem sendRwCmd_consistent_iff {lba sectorCount buffer : BitVec 64} {write : Bool} {busy : Nat → BitVec 32}
    {dev : AhciDev} {slot : Nat} (hslot : findCmdSlot dev.cmdSlots busy = some slot) (hlba : lba.toNat < 2 ^ 48)
    (hcount : sectorCount ≠ 0#64) :
    Consistent ((sendRwCmd lba sectorCount buffer write busy dev).2.cmds slot) lba.toNat sectorCount.toNat
      (sendRwCmd lba sectorCount buffer write busy dev).1.toNat ↔ sectorCount.toNat ≤ 65536 := by
  have hne : sectorCount.toNat ≠ 0 := fun h => hcount (BitVec.eq_of_toNat_eq h)
  have hmax : (maxPrdts * bytesPerPrdt / ahciSectorSize).toNat = 2 ^ 22 := by decide
  have hbytes := @sendRwCmd_prdtBytes lba sectorCount buffer write busy dev slot hslot hcount
  have hsectors : ((sendRwCmd lba sectorCount buffer write busy dev).2.cmds slot).cfis.sectors =
      if cmdSectors sectorCount % 65536 = 0 then 65536 else cmdSectors sectorCount % 65536 := by
    have hn : (if sectorCount > maxPrdts * bytesPerPrdt / ahciSectorSize then
        maxPrdts * bytesPerPrdt / ahciSectorSize else sectorCount).toNat = cmdSectors sectorCount := by
      unfold cmdSectors
      split_ifs with h <;> rw [gt_iff_lt, BitVec.lt_def, hmax] at h <;> omega
    simp only [sendRwCmd, hslot, if_true, AhciFisH2d.sectors, low_byte, BitVec.toNat_ushiftRight,
      Nat.shiftRight_eq_div_pow, hn]
    have hmod : cmdSectors sectorCount % 256 + 2 ^ 8 * (cmdSectors sectorCount / 2 ^ 8 % 256) =
        cmdSectors sectorCount % 65536 := by omega
    rw [hmod]
  constructor
  · intro h
    have htable := h.table
    rw [hbytes, hsectors] at htable
    have hle : cmdSectors sectorCount ≤ 65536 := by
      split_ifs at htable <;> omega
    unfold cmdSectors at hle
    omega
  · intro h
    have hn : cmdSectors sectorCount = sectorCount.toNat := Nat.min_eq_left (by omega)
    have hcountEq : (if cmdSectors sectorCount % 65536 = 0 then 65536 else cmdSectors sectorCount % 65536) =
        sectorCount.toNat := by
      rw [hn]
      split_ifs <;> omega
    have hrest : (sendRwCmd lba sectorCount buffer write busy dev).1 = 0#64 := by
      have hnot : ¬ sectorCount > maxPrdts * bytesPerPrdt / ahciSectorSize := by
        rw [gt_iff_lt, BitVec.lt_def, hmax]
        omega
      simp only [sendRwCmd, hslot, if_neg hnot]
      rfl
    refine ⟨?_, ?_, ?_⟩
    · simp only [sendRwCmd, hslot, if_true, AhciFisH2d.lba, low_byte, BitVec.toNat_ushiftRight,
        Nat.shiftRight_eq_div_pow]
      omega
    · rw [hbytes, hsectors, hcountEq, hn]
    · rw [hsectors, hcountEq, hrest]
      rfl

/-- The largest transfer whose count fits the registers, where they hold 0. -/
theorem largest_consistent :
    Consistent ((sendRwCmd 7#64 65536#64 0x100000#64 true (fun _ => 0#32) blankDev).2.cmds 0) (7#64).toNat
      (65536#64).toNat (sendRwCmd 7#64 65536#64 0x100000#64 true (fun _ => 0#32) blankDev).1.toNat := by
  have h := @sendRwCmd_consistent_iff 7#64 65536#64 0x100000#64 true (fun _ => 0#32) blankDev 0 (by decide)
    (by decide) (by decide)
  exact h.mpr (by decide)

/-- With one sector more the registers say one sector, and no sector is left over. -/
theorem next_inconsistent :
    ¬ Consistent ((sendRwCmd 7#64 65537#64 0x100000#64 true (fun _ => 0#32) blankDev).2.cmds 0) 7 65537
      (sendRwCmd 7#64 65537#64 0x100000#64 true (fun _ => 0#32) blankDev).1.toNat := by
  intro h
  have hsectors : ((sendRwCmd 7#64 65537#64 0x100000#64 true (fun _ => 0#32) blankDev).2.cmds 0).cfis.sectors = 1 := by
    decide
  have hrest : (sendRwCmd 7#64 65537#64 0x100000#64 true (fun _ => 0#32) blankDev).1.toNat = 0 := by decide
  have htotal := h.rest
  rw [hsectors, hrest] at htotal
  cases htotal

end HaiirOS
