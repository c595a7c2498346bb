import HaiirOS.Lib.ScatterGather
import HaiirOS.Proofs.AhciPrdt
import HaiirOS.Proofs.BounceBuffer

/-!
# The data that requests move

A device and its controller with the bytes on the device and in memory, which the driver and the controller address
alike. A read brings the bytes of the request into the buffer of the caller, a write brings them from there to the
device, and a read after it returns what was written.
-/

namespace HaiirOS

open ScatterGather

/-- The bytes in memory and on the device. -/
structure Storage where
  mem : Nat → BitVec 8
  disk : Nat → BitVec 8

/-- The regions of a command's descriptor table. -/
def AhciCmd.regions (cmd : AhciCmd) : List Region :=
  (List.range cmd.prdtl.toNat).map fun i : Nat => ⟨(cmd.entries i).addr, (cmd.entries i).bytes⟩

namespace Storage

/-- The controller and the device carry out a command: READ DMA EXT or WRITE DMA EXT, with the direction in the
header, moves the sectors of the command as far as its descriptor table reaches. -/
def execute (s : Storage) (cmd : AhciCmd) : Storage :=
  let as := (addresses cmd.regions).take (512 * cmd.cfis.sectors)
  let first := 512 * cmd.cfis.lba
  if cmd.cfis.cmd = 0x25#8 ∧ cmd.w = false then { s with mem := store as (fun i => s.disk (first + i)) s.mem }
  else if cmd.cfis.cmd = 0x35#8 ∧ cmd.w = true then
    { s with disk := store (List.range' first as.length) (fun i => s.mem (as.getD i 0)) s.disk }
  else s

def copy (s : Storage) (c : AhciCopy) : Storage :=
  { s with mem := ScatterGather.copy c.dst.toNat c.src.toNat c.size.toNat s.mem }

/-- What a call of `ahci_read` or `ahci_write` with this result does with the data: a write copies to its own buffer
before its commands, a read from there after them. -/
def request (write : Bool) (dev : AhciDev) (r : AhciReturn) (s : Storage) : Storage :=
  let cmds := (r.dev.issued.drop dev.issued.length).map Prod.fst
  if write then cmds.foldl execute (r.copies.foldl copy s) else r.copies.foldl copy (cmds.foldl execute s)

end Storage

section Command

variable {lba sectorCount buffer : BitVec 64} {write : Bool} {busy : Nat → BitVec 32} {dev : AhciDev} {slot : Nat}

/-- The regions of a command are the memory of its sectors. -/
lemma sendRwCmd_addresses (hslot : findCmdSlot dev.cmdSlots busy = some slot) (hcount : sectorCount ≠ 0#64)
    (hle : sectorCount.toNat ≤ 65536) (hwrap : buffer.toNat + 512 * sectorCount.toNat ≤ 2 ^ 64) :
    addresses ((sendRwCmd lba sectorCount buffer write busy dev).2.cmds slot).regions =
      List.range' buffer.toNat (512 * sectorCount.toNat) := by
  have hn : cmdSectors sectorCount = sectorCount.toNat := Nat.min_eq_left (by omega)
  have hpos : 0 < sectorCount.toNat := Nat.pos_of_ne_zero fun h => hcount (BitVec.eq_of_toNat_eq h)
  obtain ⟨hprdtl, hentries⟩ := @sendRwCmd_cmd lba sectorCount buffer write busy dev slot hslot hcount
  rw [hn] at hprdtl
  have haddr (i : Nat) (hi : i < (sectorCount.toNat - 1) / 4096 + 1) :
      (((sendRwCmd lba sectorCount buffer write busy dev).2.cmds slot).entries i).addr =
        buffer.toNat + i * 0x200000 := by
    rw [hentries, hn, if_pos (by omega), Int.toNat_natCast, prdtEntry_addr, BitVec.toNat_add, BitVec.toNat_ofNat]
    omega
  have hbytes (i : Nat) (hi : i < (sectorCount.toNat - 1) / 4096 + 1) :
      (((sendRwCmd lba sectorCount buffer write busy dev).2.cmds slot).entries i).bytes =
        min 0x200000 (512 * sectorCount.toNat - i * 0x200000) := by
    have h := @sendRwCmd_bytes lba sectorCount buffer write busy dev slot hslot hcount i (by rw [hn]; exact hi)
    rwa [hn] at h
  -- the entries before the k-th are the first k * 2 MiB
  have hprefix (k : Nat) (hk : k ≤ (sectorCount.toNat - 1) / 4096 + 1) :
      addresses ((List.range k).map fun i : Nat =>
        ⟨(((sendRwCmd lba sectorCount buffer write busy dev).2.cmds slot).entries i).addr,
          (((sendRwCmd lba sectorCount buffer write busy dev).2.cmds slot).entries i).bytes⟩) =
        List.range' buffer.toNat (min (k * 0x200000) (512 * sectorCount.toNat)) := by
    induction k with
    | zero => simp [addresses]
    | succ k ih =>
      have hstep : k * 0x200000 ≤ 512 * sectorCount.toNat := by omega
      have hnext : min ((k + 1) * 0x200000) (512 * sectorCount.toNat) =
          k * 0x200000 + min 0x200000 (512 * sectorCount.toNat - k * 0x200000) := by omega
      have ih := ih (by omega)
      unfold addresses at ih ⊢
      rw [List.range_succ, List.map_append, List.flatMap_append, ih, List.map_singleton, List.flatMap_singleton,
        haddr k (by omega), hbytes k (by omega), Nat.min_eq_left hstep, hnext, List.range'_append_1]
  unfold AhciCmd.regions
  rw [hprdtl, hprefix _ (Nat.le_refl _)]
  congr 1
  omega

/-- The command that is issued. -/
lemma sendRwCmd_execute (hslot : findCmdSlot dev.cmdSlots busy = some slot) (hcount : sectorCount ≠ 0#64)
    (hle : sectorCount.toNat ≤ 65536) (hwrap : buffer.toNat + 512 * sectorCount.toNat ≤ 2 ^ 64)
    (hlba : lba.toNat < 2 ^ 48) (s : Storage) :
    s.execute ((sendRwCmd lba sectorCount buffer write busy dev).2.cmds slot) =
      if write then
        ⟨s.mem, store (List.range' (512 * lba.toNat) (512 * sectorCount.toNat))
          (fun i => s.mem ((List.range' buffer.toNat (512 * sectorCount.toNat)).getD i 0)) s.disk⟩
      else
        ⟨store (List.range' buffer.toNat (512 * sectorCount.toNat)) (fun i => s.disk (512 * lba.toNat + i)) s.mem,
          s.disk⟩ := by
  have hpos : 0 < sectorCount.toNat := Nat.pos_of_ne_zero fun h => hcount (BitVec.eq_of_toNat_eq h)
  have hmax : (maxPrdts * bytesPerPrdt / ahciSectorSize).toNat = 2 ^ 22 := by decide
  have hnot : ¬ sectorCount > maxPrdts * bytesPerPrdt / ahciSectorSize := by
    rw [gt_iff_lt, BitVec.lt_def, hmax]
    omega
  have has := @sendRwCmd_addresses lba sectorCount buffer write busy dev slot hslot hcount hle hwrap
  have hsectors : ((sendRwCmd lba sectorCount buffer write busy dev).2.cmds slot).cfis.sectors = sectorCount.toNat := by
    simp only [sendRwCmd, hslot, if_true, if_neg hnot, AhciFisH2d.sectors, low_byte, BitVec.toNat_ushiftRight,
      Nat.shiftRight_eq_div_pow]
    split_ifs <;> omega
  have hfirst : ((sendRwCmd lba sectorCount buffer write busy dev).2.cmds slot).cfis.lba = lba.toNat := by
    simp only [sendRwCmd, hslot, if_true, AhciFisH2d.lba, low_byte, BitVec.toNat_ushiftRight,
      Nat.shiftRight_eq_div_pow]
    omega
  have hw : ((sendRwCmd lba sectorCount buffer write busy dev).2.cmds slot).w = write := by
    simp only [sendRwCmd, hslot, if_true]
    rfl
  have hcmd : ((sendRwCmd lba sectorCount buffer write busy dev).2.cmds slot).cfis.cmd =
      if write then ahciWriteCmd else ahciReadCmd := by
    simp only [sendRwCmd, hslot, if_true]
  unfold Storage.execute
  rw [has, hsectors, hfirst, hw, hcmd, List.take_of_length_le (by rw [List.length_range'])]
  dsimp only
  rw [List.length_range']
  cases write with
  | false =>
    rw [if_pos ⟨rfl, rfl⟩]
    rfl
  | true =>
    rw [if_neg (by decide), if_pos ⟨rfl, rfl⟩]
    rfl

lemma sendRwCmds_one {busy : Nat → Nat → BitVec 32} {fuel : Nat} {dev' : AhciDev}
    (hslot : findCmdSlot dev.cmdSlots (busy 0) = some slot) (hle : sectorCount.toNat ≤ 65536)
    (h : sendRwCmds fuel busy lba sectorCount buffer write dev = some dev') :
    dev'.issued = dev.issued ++
      [((sendRwCmd lba sectorCount buffer write (busy 0) dev).2.cmds slot, rangeOf lba sectorCount buffer)] := by
  have hnot : ¬ sectorCount > fullCount := by
    rw [gt_iff_lt, BitVec.lt_def]
    change ¬ 4194304 < sectorCount.toNat
    omega
  have hrest : (sendRwCmd lba sectorCount buffer write (busy 0) dev).1 = 0#64 := by
    simp only [sendRwCmd, hslot, fullCount_eq, if_neg hnot]
    rfl
  cases fuel with
  | zero => cases h
  | succ fuel =>
    have hfirst : sendRwCmd lba sectorCount buffer write (busy 0) dev =
        (0#64, (sendRwCmd lba sectorCount buffer write (busy 0) dev).2) := Prod.ext hrest rfl
    unfold sendRwCmds at h
    rw [hfirst] at h
    dsimp only at h
    rw [sendRest, if_neg (not_not.mpr rfl)] at h
    obtain rfl := Option.some.inj h
    simp only [sendRwCmd, hslot, if_true, fullCount_eq, rangeOf]

end Command

section Requests

variable {write : Bool} {fuel : Nat} {busy : Nat → Nat → BitVec 32} {moved : Mem → Mem}
  {sectorCount start size buffer : BitVec 64} {dev : AhciDev} {m : Machine} {r : AhciReturn}

/-- The call has moved some bytes, no more than one command can, and found a command slot at once. Its start is a
sector number of 48 bits, and its two buffers are apart and do not wrap around. -/
structure OneCommand (busy : Nat → Nat → BitVec 32) (start : BitVec 64) (dev : AhciDev) (r : AhciReturn) : Prop where
  pos : 0 < r.ret.toNat
  le : r.ret.toNat ≤ 512 * 65536
  free : FreeAt dev.cmdSlots busy 0
  sector : start.toNat / 512 < 2 ^ 48
  apart : ∀ c ∈ r.copies, c.dst.toNat + c.size.toNat ≤ c.src.toNat ∨ c.src.toNat + c.size.toNat ≤ c.dst.toNat
  wraps : ∀ c ∈ r.copies, c.src.toNat + c.size.toNat ≤ 2 ^ 64 ∧ c.dst.toNat + c.size.toNat ≤ 2 ^ 64

/-- What such a call comes to: one command between its own buffer and the device. -/
lemma request_eq (hcall : ahciRw write fuel busy moved sectorCount start size buffer dev m = some r)
    (h : OneCommand busy start dev r) : r.ret = clampSize sectorCount start size ∧
      ∃ alignedBuf, r.copies = [callerCopy write buffer alignedBuf r.ret] ∧ ∀ s : Storage,
        s.request write dev r = if write then
          ⟨(s.copy (callerCopy write buffer alignedBuf r.ret)).mem, store (List.range' start.toNat r.ret.toNat)
            (fun i => (s.copy (callerCopy write buffer alignedBuf r.ret)).mem
              ((List.range' alignedBuf.toNat r.ret.toNat).getD i 0)) s.disk⟩
        else (⟨store (List.range' alignedBuf.toNat r.ret.toNat) (fun i => s.disk (start.toNat + i)) s.mem,
          s.disk⟩ : Storage).copy (callerCopy write buffer alignedBuf r.ret) := by
  have hsector : ahciSectorSize.toNat = 512 := rfl
  have halign : ¬ Misaligned sectorCount start size := by
    intro hmis
    rw [ahciRw_eq, if_pos hmis] at hcall
    cases hcall
    exact absurd h.pos (Nat.lt_irrefl 0)
  obtain ⟨alignedBuf, m1, dev', m2, -, hsend, -, rfl⟩ := (ahciRw_eq_some_iff halign).mp hcall
  refine ⟨rfl, alignedBuf, rfl, fun s => ?_⟩
  generalize hn : clampSize sectorCount start size = n at *
  unfold Misaligned at halign
  rw [hn, not_or, not_not, not_not] at halign
  obtain ⟨slot, hslot⟩ := Option.isSome_iff_exists.mp h.free
  have hlba : (start / ahciSectorSize).toNat = start.toNat / 512 := by rw [BitVec.toNat_udiv, hsector]
  have hcount : (n / ahciSectorSize).toNat = n.toNat / 512 := by rw [BitVec.toNat_udiv, hsector]
  have hpos : 0 < n.toNat := h.pos
  have hle : n.toNat ≤ 512 * 65536 := h.le
  have hne : n / ahciSectorSize ≠ 0#64 := by
    intro h0
    rw [h0] at hcount
    change 0 = _ at hcount
    omega
  have hstart : 512 * (start / ahciSectorSize).toNat = start.toNat := by omega
  have hbytes : 512 * (n / ahciSectorSize).toNat = n.toNat := by omega
  have hwrap : alignedBuf.toNat + 512 * (n / ahciSectorSize).toNat ≤ 2 ^ 64 := by
    have hwraps := h.wraps _ (List.mem_singleton_self _)
    rw [hbytes]
    cases write with
    | false => exact hwraps.1
    | true => exact hwraps.2
  have hissued := sendRwCmds_one hslot (by omega) hsend
  have hexec := @sendRwCmd_execute (start / ahciSectorSize) (n / ahciSectorSize) alignedBuf write (busy 0) dev slot hslot
    hne (by omega) hwrap (by rw [hlba]; exact h.sector)
  rw [hstart, hbytes] at hexec
  unfold Storage.request
  dsimp only
  rw [hissued, List.drop_left, List.map_singleton, List.foldl_cons, List.foldl_cons, List.foldl_nil, List.foldl_nil,
    List.foldl_cons, List.foldl_nil, List.foldl_cons, List.foldl_nil, hexec, hexec]
  cases write with
  | false => rfl
  | true => rfl

end Requests

/-- A call of `ahci_read` or `ahci_write` that moves data with one command. -/
structure AhciRequest where
  write : Bool
  fuel : Nat
  busy : Nat → Nat → BitVec 32
  moved : Mem → Mem
  sectorCount : BitVec 64
  start : BitVec 64
  size : BitVec 64
  buffer : BitVec 64
  dev : AhciDev
  machine : Machine
  result : AhciReturn
  called : ahciRw write fuel busy moved sectorCount start size buffer dev machine = some result
  oneCommand : OneCommand busy start dev result

namespace AhciRequest

variable {q : AhciRequest} {s : Storage} {a b : Nat}

/-- The byte of the device is one of those requested. -/
def Covers (q : AhciRequest) (b : Nat) : Prop := q.start.toNat ≤ b ∧ b < q.start.toNat + q.result.ret.toNat

instance (q : AhciRequest) (b : Nat) : Decidable (q.Covers b) := inferInstanceAs (Decidable (_ ∧ _))

def exec (s : Storage) (q : AhciRequest) : Storage := s.request q.write q.dev q.result

/-- A write changes the bytes that it covers to those in the caller's buffer. -/
lemma exec_write (hw : q.write = true) (s : Storage) (b : Nat) :
    (exec s q).disk b = if q.Covers b then s.mem (q.buffer.toNat + (b - q.start.toNat)) else s.disk b := by
  obtain ⟨-, alignedBuf, hcopies, hrequest⟩ := request_eq q.called q.oneCommand
  have hapart := q.oneCommand.apart _ (hcopies ▸ List.mem_singleton_self _)
  rw [hw] at hapart
  change alignedBuf.toNat + q.result.ret.toNat ≤ q.buffer.toNat ∨ q.buffer.toNat + q.result.ret.toNat ≤ alignedBuf.toNat
    at hapart
  rw [exec, hrequest, hw, if_pos rfl]
  change store _ _ s.disk b = _
  rw [store_range']
  by_cases hb : q.Covers b
  · have hlt : b - q.start.toNat < q.result.ret.toNat := by
      obtain ⟨hge, hlt⟩ := hb
      omega
    refine (if_pos hb).trans ?_
    rw [if_pos hb, getD_range' hlt]
    change ScatterGather.copy alignedBuf.toNat q.buffer.toNat q.result.ret.toNat s.mem _ = _
    rw [copy_apart hapart, if_pos ⟨Nat.le_add_right .., by omega⟩, Nat.add_sub_cancel_left]
  · exact (if_neg hb).trans (if_neg hb).symm

lemma exec_read_disk (hw : q.write = false) (s : Storage) : (exec s q).disk = s.disk := by
  obtain ⟨-, alignedBuf, -, hrequest⟩ := request_eq q.called q.oneCommand
  rw [exec, hrequest, hw, if_neg Bool.false_ne_true]
  rfl

/-- A read brings the bytes that it covers to the caller's buffer. -/
lemma exec_read (hw : q.write = false) (s : Storage) (hb : q.Covers b) :
    (exec s q).mem (q.buffer.toNat + (b - q.start.toNat)) = s.disk b := by
  obtain ⟨-, alignedBuf, hcopies, hrequest⟩ := request_eq q.called q.oneCommand
  have hapart := q.oneCommand.apart _ (hcopies ▸ List.mem_singleton_self _)
  rw [hw] at hapart
  change q.buffer.toNat + q.result.ret.toNat ≤ alignedBuf.toNat ∨ alignedBuf.toNat + q.result.ret.toNat ≤ q.buffer.toNat
    at hapart
  obtain ⟨hge, hlt⟩ := hb
  have hi : b - q.start.toNat < q.result.ret.toNat := by omega
  rw [exec, hrequest, hw, if_neg Bool.false_ne_true]
  change ScatterGather.copy q.buffer.toNat alignedBuf.toNat q.result.ret.toNat (store _ _ s.mem) _ = _
  rw [copy_apart hapart, if_pos ⟨Nat.le_add_right .., by omega⟩, Nat.add_sub_cancel_left, store_range',
    if_pos ⟨Nat.le_add_right .., by omega⟩, Nat.add_sub_cancel_left, Nat.add_sub_cancel' hge]

end AhciRequest

/-- What happens to the bytes: a request, or the processor computes, whatever is in memory then. -/
inductive StorageOp where
  | compute (mem : Nat → BitVec 8)
  | request (q : AhciRequest)

namespace StorageOp

def exec (s : Storage) : StorageOp → Storage
  | .compute mem => { s with mem := mem }
  | .request q => q.exec s

/-- The value that a write stores to a byte of the device. -/
def stores (s : Storage) (b : Nat) : StorageOp → Option (BitVec 8)
  | .compute _ => none
  | .request q => if q.write ∧ q.Covers b then some (s.mem (q.buffer.toNat + (b - q.start.toNat))) else none

/-- The value that was written last to a byte of the device, or else the one before. -/
def lastStored (b : Nat) : Storage → BitVec 8 → List StorageOp → BitVec 8
  | _, v, [] => v
  | s, v, op :: ops => lastStored b (op.exec s) ((op.stores s b).getD v) ops

/-- One step changes a byte of the device to what it stores there. -/
lemma exec_disk (s : Storage) (op : StorageOp) (b : Nat) : (op.exec s).disk b = (op.stores s b).getD (s.disk b) := by
  cases op with
  | compute mem => rfl
  | request q =>
    cases hw : q.write with
    | false =>
      have hnone : ¬ (q.write = true ∧ q.Covers b) := fun h => absurd (hw.symm.trans h.1) Bool.false_ne_true
      rw [exec, q.exec_read_disk hw, stores, if_neg hnone]
      rfl
    | true =>
      rw [exec, q.exec_write hw, stores]
      by_cases hb : q.Covers b
      · rw [if_pos hb, if_pos ⟨hw, hb⟩]
        rfl
      · rw [if_neg hb, if_neg fun h => hb h.2]
        rfl

lemma run_disk (s : Storage) (ops : List StorageOp) (b : Nat) :
    (ops.foldl exec s).disk b = lastStored b s (s.disk b) ops := by
  induction ops generalizing s with
  | nil => rfl
  | cons op ops ih => rw [List.foldl_cons, ih, exec_disk, lastStored]

/-- Behind any run a read delivers for each byte what was written to it last. -/
theorem read_delivers_last_stored (s : Storage) (ops : List StorageOp) {q : AhciRequest} (hread : q.write = false) {b : Nat}
    (hb : q.Covers b) :
    (q.exec (ops.foldl exec s)).mem (q.buffer.toNat + (b - q.start.toNat)) = lastStored b s (s.disk b) ops := by
  rw [q.exec_read hread _ hb, run_disk]

end StorageOp

/-- The allocator of a machine with 128 MiB, of which the first 8 are reserved. -/
def widePmm : Pmm := { reservedPmm with bitmapSize := 4096 }

lemma widePmm_booted : Booted bootWindow (4 + ·) (runningSession widePmm).machine :=
  booted_running (fun _ => 0#64) ⟨by decide, reservedPmm_used (by decide), by decide⟩ fun _ hf => reservedPmm_used hf

lemma widePmm_clean : Clean (runningSession widePmm).machine := clean_running widePmm_booted.low_used

/-- There are frames for a run at the start of its free frames and for the tables that it lacks. -/
lemma widePmm_enough {n : Nat} (hn : n ≤ 4096) (halloc : (widePmm.pmmAllocUnmapped n).1 = 0x800 * 4096) :
    (runningSession widePmm).EnoughFrames (.pmmAllocCustom n 3#64) := by
  have hnext := widePmm_booted.valid.nextRun_of_alloc halloc (by decide)
  have htake := widePmm_booted.valid.card_handOut hnext
  have hrange := card_missingRange_le (runningSession widePmm).machine.mem (runningSession widePmm).kernelRoot
    (fun i => frameAddr (0x800 + i)) n
  have hfree : Finset.Ico 0x800 0x8000 ⊆ widePmm.freeSet := by
    intro f hf
    obtain ⟨hge, hlt⟩ := Finset.mem_Ico.mp hf
    refine Pmm.mem_freeSet.mpr ⟨hlt, ?_⟩
    have hbyte : widePmm.get (f / 8) = 0#8 := by
      change (if 0 + f / 8 < 256 then 0xff#8 else 0#8) = _
      rw [if_neg (by omega)]
    rw [Pmm.free_iff, Pmm.used, PackedBits.member, hbyte]
    exact BitVec.getLsbD_zero
  have hcard := Finset.card_le_card hfree
  rw [Nat.card_Ico] at hcard
  change widePmm.freeSet.card ≤ _ at htake
  exact Or.inr ⟨0x800, hnext, by omega⟩

/-- The request for the first sector, with a buffer at 1 MiB, gets frames for its own buffer and returns. -/
lemma first_sector_returns (write : Bool) : ∃ g dev' m', 0x800 ≤ g ∧ g < 2 ^ 35 ∧
    ahciRw write 1 (fun _ _ => 0#32) id 8#64 0#64 512#64 0x100000#64 blankDev (runningSession widePmm).machine =
      some ⟨512#64, dev', m', [callerCopy write 0x100000#64 (frameAddr g) 512#64]⟩ := by
  obtain ⟨n, hn⟩ : ∃ n, bounceFrames write (clampSize 8#64 0#64 512#64) = n := ⟨_, rfl⟩
  obtain ⟨hpos, hle, hhole, halloc⟩ :
      0 < n ∧ n ≤ 4096 ∧ n / 8 ≠ 1 ∧ (widePmm.pmmAllocUnmapped n).1 = 0x800 * 4096 := by
    subst hn
    cases write <;> decide +kernel
  have henough := widePmm_enough hle halloc
  obtain ⟨g, m, hgot, hb⟩ := widePmm_booted.inv.pmmAlloc_buffer widePmm_clean hpos henough
  have hapart := widePmm_booted.inv.tablesApart_whole widePmm_clean hpos (by omega) hhole henough
  have hkeeps : Session.KeepsTables (runningSession widePmm) m id := fun _ _ _ => rfl
  obtain ⟨rank', ht, hreach⟩ := hb.tables
  obtain ⟨m', hfree, -⟩ := ((hkeeps.tables ht hreach).1.pmmFree_pages_iff (fun _ hf => hf) (frameAddr g) n).mpr
    ((hb.mapsRun_iff hkeeps hpos).mpr hapart)
  obtain ⟨dev', hsend⟩ : ∃ dev', sendRwCmds 1 (fun _ _ => 0#32) (0#64 / ahciSectorSize)
      (clampSize 8#64 0#64 512#64 / ahciSectorSize) (frameAddr g) write blankDev = some dev' := ⟨_, rfl⟩
  have hhigh := hb.high
  refine ⟨g, dev', m', hhigh.1, by omega, (ahciRw_eq_some_iff (by decide)).mpr ⟨frameAddr g, m, dev', m', ?_, hsend, ?_, rfl⟩⟩
  · rw [hn]
    exact hgot
  · rw [hn, toFrame, Session.Inv.base_frameAddr]
    exact hfree

lemma exists_request (write : Bool) : ∃ q : AhciRequest, q.write = write ∧ q.buffer = 0x100000#64 ∧ q.start = 0#64 ∧
    q.Covers 0 := by
  obtain ⟨g, dev', m', hlow, hhigh, hcall⟩ := first_sector_returns write
  have haddr : (frameAddr g).toNat = g * 4096 := by
    rw [frameAddr, BitVec.toNat_ofNat]
    omega
  have hsize : (512#64).toNat = 512 := rfl
  have hbuffer : (0x100000#64).toNat = 0x100000 := rfl
  have hpos : 0 < (512#64).toNat := by decide
  have hle : (512#64).toNat ≤ 512 * 65536 := by decide
  have hcover : 0 < (0#64).toNat + (512#64).toNat := by decide
  have hone : OneCommand (fun _ _ => 0#32) 0#64 blankDev
      ⟨512#64, dev', m', [callerCopy write 0x100000#64 (frameAddr g) 512#64]⟩ := by
    refine ⟨hpos, hle, by decide, by decide, fun c hc => ?_, fun c hc => ?_⟩
    all_goals
      rw [List.mem_singleton.mp hc]
      cases write
      all_goals
        simp only [callerCopy, if_true, Bool.false_eq_true, if_false, haddr, hsize, hbuffer]
        omega
  exact ⟨⟨write, 1, fun _ _ => 0#32, id, 8#64, 0#64, 512#64, 0x100000#64, blankDev, _, _, hcall, hone⟩, rfl, rfl, rfl,
    Nat.le_refl 0, hcover⟩

/-- What is written to the first sector is read back, whatever is in memory in between. -/
theorem first_byte_read_back : ∃ p q : AhciRequest, ∀ s mem,
    (q.exec ([StorageOp.request p, .compute mem].foldl StorageOp.exec s)).mem 0x100000 = s.mem 0x100000 := by
  obtain ⟨p, hwrite, hpbuffer, hpstart, hp⟩ := exists_request true
  obtain ⟨q, hread, hqbuffer, hqstart, hq⟩ := exists_request false
  refine ⟨p, q, fun s mem => ?_⟩
  have hback := StorageOp.read_delivers_last_stored s [.request p, .compute mem] hread hq
  have hstored : StorageOp.stores s 0 (.request p) = some (s.mem 0x100000) := by
    rw [StorageOp.stores, if_pos ⟨hwrite, hp⟩, hpbuffer, hpstart]
    rfl
  rw [hqbuffer, hqstart, StorageOp.lastStored, hstored] at hback
  exact hback

end HaiirOS
