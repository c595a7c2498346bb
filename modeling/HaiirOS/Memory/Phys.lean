import HaiirOS.Lib.PackedBits
import HaiirOS.Lib.RunSearch

/-!
# The frame allocator

The bitmap of `phys.c` with its reserve, free and next-fit search routines. Addresses and
sizes are 64-bit and do not overflow here: a bitmap has at most `2 ^ 49` bytes, since its
size is a 64-bit address divided by the memory that one byte describes. Page counts and
block numbers are 32-bit in the source and are reduced where the source reduces them.
-/

namespace HaiirOS

/-- One block of the frame bitmap, eight frames. -/
abbrev Byte := BitVec 8

/-- Bytes of a frame. -/
abbrev frameSize : Nat := 4096

/-- Frames of a bitmap block. -/
abbrev bitmapBlockSize : Nat := 8

/-- The static variables of `phys.c`, and the memory that the `bitmap` pointer points into. -/
structure Pmm where
  bytes : Nat → Byte
  bitmap : Nat
  bitmapSize : Nat
  lastIdx : Nat
  lastIdxBit : Nat

namespace Pmm

/-- `bitmap[i]` -/
def get (p : Pmm) (i : Nat) : Byte := p.bytes (p.bitmap + i)

/-- `bitmap[i] = b` -/
def set (p : Pmm) (i : Nat) (b : Byte) : Pmm :=
  { p with bytes := Function.update p.bytes (p.bitmap + i) b }

/-- `for (i = first; i < first + n; i++) bitmap[i] = b` -/
def fill (p : Pmm) (b : Byte) (first : Nat) : Nat → Pmm
  | 0 => p
  | n + 1 => fill (p.set first b) b (first + 1) n

section

variable (put : Byte → Byte → Byte) (full : Byte)

/-- The part of `reserve_frames` and `free_frames` under `blocks != 0`. -/
def updateBlocks (p : Pmm) (startBlock offset blocks endBlock : Nat) : Pmm :=
  if blocks ≠ 0 then
    let p := p.set startBlock (put (p.get startBlock) (0xff#8 >>> offset))
    let first := (startBlock + 1) % 2 ^ 32
    let p := p.fill full first (endBlock - first)
    if blocks > 1 then
      p.set endBlock (put (p.get endBlock) (0xff#8 <<< (bitmapBlockSize - offset)))
    else p
  else p

/-- The part of `reserve_frames` and `free_frames` under `rest != 0`. -/
def updateRest (p : Pmm) (offset rest endBlock : Nat) : Pmm :=
  if rest ≠ 0 then
    let bits := (0xff#8 >>> (bitmapBlockSize - rest)) <<< (bitmapBlockSize - rest)
    let p := p.set endBlock (put (p.get endBlock) (bits >>> offset))
    let next := (endBlock + 1) % 2 ^ 32
    p.set next (put (p.get next) (bits <<< (bitmapBlockSize - offset)))
  else p

/-- The common shape of `reserve_frames` and `free_frames`. -/
def updateFrames (p : Pmm) (startAddr size : Nat) : Pmm :=
  if size = 0 then p else
    let pages := ((size - 1) / frameSize + 1) % 2 ^ 32
    let blocks := pages / bitmapBlockSize
    let startBlock := startAddr / frameSize / bitmapBlockSize % 2 ^ 32
    let offset := startAddr / frameSize % bitmapBlockSize
    let endBlock := (startBlock + blocks) % 2 ^ 32
    let p := p.updateBlocks put full startBlock offset blocks endBlock
    p.updateRest put offset (pages % bitmapBlockSize) endBlock

end

def reserveFrames (p : Pmm) (startAddr size : Nat) : Pmm :=
  p.updateFrames (fun b mask => b ||| mask) 0xff#8 startAddr size

def freeFrames (p : Pmm) (startAddr size : Nat) : Pmm :=
  p.updateFrames (fun b mask => b &&& ~~~mask) 0#8 startAddr size

def pmmIsFree (p : Pmm) (addr : Nat) : Bool :=
  let block := addr / frameSize / bitmapBlockSize % 2 ^ 32
  let offset := addr / frameSize % bitmapBlockSize
  ((p.get block >>> (bitmapBlockSize - offset - 1)) &&& 1#8) == 0#8

/-- The inner loop of `pmm_alloc_unmapped_` over the bits `j, …, 0` of a block, where the
first argument after `count` is `j + 1`. -/
def scanBits (b : Byte) (count : Nat) : Nat → Nat → RunSearch.Scan
  | 0, continuesFrames => .more continuesFrames
  | j + 1, continuesFrames =>
    if (b >>> j) &&& 1#8 = 0#8 then
      if continuesFrames + 1 ≥ count then .found j (continuesFrames + 1)
      else scanBits b count j (continuesFrames + 1)
    else scanBits b count j 0

/-- The outer loop of `pmm_alloc_unmapped_` over `n` blocks from block `i` on. -/
def scanBlocks (p : Pmm) (count : Nat) : Nat → Nat → Nat → Nat → Option (Nat × Nat × Nat)
  | 0, _, _, _ => none
  | n + 1, i, bit, continuesFrames =>
    if p.get i ≠ 0xff#8 then
      match scanBits (p.get i) count (bit + 1) continuesFrames with
      | .found j c => some (i, j, c)
      | .more c => scanBlocks p count n (i + 1) (bitmapBlockSize - 1) c
    else scanBlocks p count n (i + 1) (bitmapBlockSize - 1) 0

/-- `pmm_alloc_unmapped_`: one search from the cursor to the end of the bitmap. -/
def pmmAllocUnmapped_ (p : Pmm) (count : Nat) : Nat × Pmm :=
  if count = 0 then (0, p) else
    match p.scanBlocks count (p.bitmapSize - p.lastIdx) p.lastIdx p.lastIdxBit 0 with
    | some (i, j, continuesFrames) =>
      let addr := (i * bitmapBlockSize + (bitmapBlockSize - j) - continuesFrames) * frameSize
      let p := { p with lastIdx := i, lastIdxBit := j }
      (addr, p.reserveFrames addr (continuesFrames * frameSize))
    | none =>
      -- `last_idx_bit` is reset at the end of every pass of the outer loop
      (0, { p with
        lastIdxBit := if p.lastIdx < p.bitmapSize then bitmapBlockSize - 1 else p.lastIdxBit })

/-- `pmm_alloc_unmapped`: the address of `count` frames in a row, 0 when there are none. -/
def pmmAllocUnmapped (p : Pmm) (count : Nat) : Nat × Pmm :=
  let r := p.pmmAllocUnmapped_ count
  if r.1 = 0 then { r.2 with lastIdx := 0 }.pmmAllocUnmapped_ count else r

/-! ### Bits of the bitmap -/

/-- Frame `f` is marked used. -/
def used (p : Pmm) (f : Nat) : Bool := PackedBits.member p.get f

/-- Frame `f` is marked free. -/
def free (p : Pmm) (f : Nat) : Bool := !p.used f

lemma get_set (p : Pmm) (i : Nat) (b : Byte) : (p.set i b).get = Function.update p.get i b := by
  funext k
  by_cases h : k = i
  · rw [h, Function.update_self]
    exact Function.update_self ..
  · rw [Function.update_of_ne h]
    have hne : p.bitmap + k ≠ p.bitmap + i := by omega
    exact Function.update_of_ne hne ..

/-- Two allocator states that differ in the bitmap bytes at most. -/
structure SameCursor (p q : Pmm) : Prop where
  bitmap : q.bitmap = p.bitmap
  bitmapSize : q.bitmapSize = p.bitmapSize
  lastIdx : q.lastIdx = p.lastIdx
  lastIdxBit : q.lastIdxBit = p.lastIdxBit

lemma SameCursor.refl (p : Pmm) : SameCursor p p := ⟨rfl, rfl, rfl, rfl⟩

lemma SameCursor.trans {p q r : Pmm} (h : SameCursor p q) (h' : SameCursor q r) : SameCursor p r :=
  ⟨h'.1.trans h.1, h'.2.trans h.2, h'.3.trans h.3, h'.4.trans h.4⟩

lemma sameCursor_set (p : Pmm) (i : Nat) (b : Byte) : SameCursor p (p.set i b) := ⟨rfl, rfl, rfl, rfl⟩

lemma sameCursor_fill (p : Pmm) (b : Byte) (first n : Nat) : SameCursor p (p.fill b first n) := by
  induction n generalizing p first with
  | zero => exact .refl p
  | succ n ih => exact (sameCursor_set p first b).trans (ih (p.set first b) (first + 1))

section

variable {put : Byte → Byte → Byte} {full : Byte}

lemma sameCursor_updateBlocks (p : Pmm) (startBlock offset blocks endBlock : Nat) :
    SameCursor p (p.updateBlocks put full startBlock offset blocks endBlock) := by
  unfold updateBlocks
  have hfill (b : Byte) (first n : Nat) := (sameCursor_set p startBlock b).trans
    (sameCursor_fill (p.set startBlock b) full first n)
  split_ifs
  · exact (hfill ..).trans (sameCursor_set ..)
  · exact hfill ..
  · exact .refl p

lemma sameCursor_updateRest (p : Pmm) (offset rest endBlock : Nat) :
    SameCursor p (p.updateRest put offset rest endBlock) := by
  unfold updateRest
  split_ifs
  · exact (sameCursor_set p ..).trans (sameCursor_set ..)
  · exact .refl p

lemma sameCursor_updateFrames (p : Pmm) (startAddr size : Nat) :
    SameCursor p (p.updateFrames put full startAddr size) := by
  unfold updateFrames
  split_ifs
  · exact .refl p
  · exact (sameCursor_updateBlocks p ..).trans (sameCursor_updateRest ..)

lemma sameCursor_reserveFrames (p : Pmm) (startAddr size : Nat) :
    SameCursor p (p.reserveFrames startAddr size) := sameCursor_updateFrames p startAddr size

lemma sameCursor_freeFrames (p : Pmm) (startAddr size : Nat) :
    SameCursor p (p.freeFrames startAddr size) := sameCursor_updateFrames p startAddr size

lemma used_set (p : Pmm) (i : Nat) (b : Byte) (f : Nat) :
    (p.set i b).used f = if f / 8 = i then b.getLsbD (7 - f % 8) else p.used f := by
  rw [used, get_set, PackedBits.member_update, used]

lemma used_fill {v : Bool} {b : Byte} (hb : ∀ i < 8, b.getLsbD i = v) (p : Pmm) (first n f : Nat) :
    (p.fill b first n).used f = if first ≤ f / 8 ∧ f / 8 < first + n then v else p.used f := by
  induction n generalizing p first with
  | zero => simp only [fill]; rw [if_neg (by omega)]
  | succ n ih =>
    rw [fill, ih, used_set, hb _ (by omega)]
    split_ifs <;> first | rfl | omega

lemma used_paint {v : Bool} (hp : PackedBits.Paints put v) (p : Pmm) (i : Nat) (mask : Byte) (f : Nat) :
    (p.set i (put (p.get i) mask)).used f =
      if f / 8 = i ∧ mask.getLsbD (7 - f % 8) = true then v else p.used f := by
  rw [used, get_set, PackedBits.member_paint hp, used]

/-- What a paint of frames is about: the mask update sets bits to `v`, the whole byte is `v`. -/
structure PaintsFrames (put : Byte → Byte → Byte) (full : Byte) (v : Bool) : Prop where
  paints : PackedBits.Paints put v
  full : ∀ i < 8, full.getLsbD i = v

lemma paintsFrames_reserve : PaintsFrames (fun b mask => b ||| mask) 0xff#8 true :=
  ⟨PackedBits.paints_or, by decide⟩

lemma paintsFrames_free : PaintsFrames (fun b mask => b &&& ~~~mask) 0#8 false :=
  ⟨PackedBits.paints_and_not, by decide⟩

variable {v : Bool} (hv : PaintsFrames put full v)
include hv

lemma used_updateBlocks (p : Pmm) {startBlock offset blocks endBlock : Nat} (ho : offset < 8) (f : Nat) :
    (p.updateBlocks put full startBlock offset blocks endBlock).used f =
      if blocks ≠ 0 ∧ (f / 8 = startBlock ∧ offset ≤ f % 8 ∨
        (startBlock + 1) % 2 ^ 32 ≤ f / 8 ∧ f / 8 < endBlock ∨
        1 < blocks ∧ f / 8 = endBlock ∧ f % 8 < offset) then v else p.used f := by
  have hm : f % 8 < 8 := Nat.mod_lt _ (by omega)
  unfold updateBlocks
  by_cases h0 : blocks = 0
  · rw [if_neg (by omega), if_neg (by omega)]
  · rw [if_pos h0]
    simp only
    generalize (startBlock + 1) % 2 ^ 32 = first
    by_cases h1 : blocks > 1
    · rw [if_pos h1, used_paint hv.paints, used_fill hv.full, used_paint hv.paints,
        PackedBits.tailMask_bit (by omega) hm, PackedBits.headMask_bit (by omega) hm]
      simp only [decide_eq_true_eq]
      split_ifs <;> first | rfl | omega
    · rw [if_neg h1, used_fill hv.full, used_paint hv.paints, PackedBits.tailMask_bit (by omega) hm]
      simp only [decide_eq_true_eq]
      split_ifs <;> first | rfl | omega

lemma used_updateRest (p : Pmm) {offset rest endBlock : Nat} (ho : offset < 8) (hr : rest < 8) (f : Nat) :
    (p.updateRest put offset rest endBlock).used f =
      if rest ≠ 0 ∧ (f / 8 = endBlock ∧ offset ≤ f % 8 ∧ f % 8 < offset + rest ∨
        f / 8 = (endBlock + 1) % 2 ^ 32 ∧ f % 8 + 8 < offset + rest) then v else p.used f := by
  have hm : f % 8 < 8 := Nat.mod_lt _ (by omega)
  unfold updateRest
  by_cases h0 : rest = 0
  · rw [if_neg (by omega), if_neg (by omega)]
  · rw [if_pos h0]
    simp only
    rw [used_paint hv.paints, used_paint hv.paints, PackedBits.runMask_bit ho hr hm,
      PackedBits.spillMask_bit ho hr hm]
    simp only [decide_eq_true_eq]
    split_ifs <;> first | rfl | omega

end

/-- The frames `[s, s + n)` that a reserve or free of `n` frames skips: with one whole block
the source leaves out the first `s % 8` frames of the block after the first. -/
def hole (s n f : Nat) : Prop := n / 8 = 1 ∧ f / 8 = s / 8 + 1 ∧ f % 8 < s % 8

/-- The frames that a reserve or free of `n` frames from frame `s` on touches. -/
def touched (s n f : Nat) : Prop := s ≤ f ∧ f < s + n ∧ ¬ hole s n f

instance (s n f : Nat) : Decidable (hole s n f) := inferInstanceAs (Decidable (_ ∧ _))

instance (s n f : Nat) : Decidable (touched s n f) := inferInstanceAs (Decidable (_ ∧ _))

/-- The number of frames that `reserve_frames` and `free_frames` update for a size. -/
def pageCount (size : Nat) : Nat := (size + 4095) / 4096

/-- The frames that a reserve or free of `n` frames from frame `s` on touches by its 32-bit block
numbers, which wrap for a range beyond frame `2 ^ 35`. -/
def blockTouched (s n f : Nat) : Prop :=
  let startBlock := s / 8 % 2 ^ 32
  let endBlock := (startBlock + n / 8) % 2 ^ 32
  (n % 8 ≠ 0 ∧ (f / 8 = endBlock ∧ s % 8 ≤ f % 8 ∧ f % 8 < s % 8 + n % 8 ∨
      f / 8 = (endBlock + 1) % 2 ^ 32 ∧ f % 8 + 8 < s % 8 + n % 8)) ∨
    (n / 8 ≠ 0 ∧ (f / 8 = startBlock ∧ s % 8 ≤ f % 8 ∨
      (startBlock + 1) % 2 ^ 32 ≤ f / 8 ∧ f / 8 < endBlock ∨ 1 < n / 8 ∧ f / 8 = endBlock ∧ f % 8 < s % 8))

instance (s n f : Nat) : Decidable (blockTouched s n f) := inferInstanceAs (Decidable (_ ∨ _))

/-- As long as block numbers fit their 32 bits, the frames of the range but for the hole are touched. -/
lemma blockTouched_iff {s n f : Nat} (hfit : s + n < 2 ^ 35) : blockTouched s n f ↔ touched s n f := by
  have hstart : s / 8 % 2 ^ 32 = s / 8 := Nat.mod_eq_of_lt (by omega)
  have hend : (s / 8 + n / 8) % 2 ^ 32 = s / 8 + n / 8 := Nat.mod_eq_of_lt (by omega)
  -- the block after the last one wraps to 0 only where nothing spills into it
  simp only [blockTouched, touched, hole, hstart, hend]
  omega

section

variable {put : Byte → Byte → Byte} {full : Byte} {v : Bool} (hv : PaintsFrames put full v)
include hv

/-- Exactly the touched frames get the new mark. -/
theorem used_updateFrames_blocks (p : Pmm) (startAddr size f : Nat) :
    (p.updateFrames put full startAddr size).used f =
      if blockTouched (startAddr / 4096) (pageCount size % 2 ^ 32) f then v else p.used f := by
  unfold updateFrames
  by_cases h0 : size = 0
  · have hz : pageCount size = 0 := by unfold pageCount; omega
    rw [if_pos h0, hz, if_neg (by simp [blockTouched])]
  · have hpages : (size - 1) / frameSize + 1 = pageCount size := by
      simp only [pageCount, frameSize]
      omega
    rw [if_neg h0]
    simp only [hpages, frameSize, bitmapBlockSize]
    rw [used_updateRest hv _ (by omega) (by omega), used_updateBlocks hv _ (by omega), ← ite_or]
    rfl

/-- The same in terms of the range, as long as block numbers fit their 32 bits. -/
theorem used_updateFrames (p : Pmm) (startAddr size : Nat)
    (hfit : startAddr / 4096 + pageCount size % 2 ^ 32 < 2 ^ 35) (f : Nat) :
    (p.updateFrames put full startAddr size).used f =
      if touched (startAddr / 4096) (pageCount size % 2 ^ 32) f then v else p.used f := by
  rw [used_updateFrames_blocks hv]
  simp only [blockTouched_iff hfit]

end

end Pmm

end HaiirOS
