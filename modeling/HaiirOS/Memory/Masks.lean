import HaiirOS.Memory.Alloc

/-!
# The stores of a reserve or free

`reserve_frames` and `free_frames` store to the same bytes under the same masks and differ
only in how a mask is applied. The list of these stores holds for all arguments, also where
the 32-bit block numbers wrap, and so does what it says about the bitmap.
-/

namespace HaiirOS

namespace Pmm

open PackedBits

/-- The stores under `blocks != 0`. -/
def blockMasks (startBlock offset blocks endBlock : Nat) : List (Nat × Byte) :=
  if blocks ≠ 0 then
    let first := (startBlock + 1) % 2 ^ 32
    (startBlock, 0xff#8 >>> offset) :: (List.range' first (endBlock - first)).map (fun i => (i, 0xff#8)) ++
      if blocks > 1 then [(endBlock, 0xff#8 <<< (bitmapBlockSize - offset))] else []
  else []

/-- The stores under `rest != 0`. -/
def restMasks (offset rest endBlock : Nat) : List (Nat × Byte) :=
  if rest ≠ 0 then
    let bits := (0xff#8 >>> (bitmapBlockSize - rest)) <<< (bitmapBlockSize - rest)
    [(endBlock, bits >>> offset), ((endBlock + 1) % 2 ^ 32, bits <<< (bitmapBlockSize - offset))]
  else []

/-- The stores of `reserve_frames` and `free_frames`. -/
def frameMasks (startAddr size : Nat) : List (Nat × Byte) :=
  if size = 0 then [] else
    let pages := ((size - 1) / frameSize + 1) % 2 ^ 32
    let blocks := pages / bitmapBlockSize
    let startBlock := startAddr / frameSize / bitmapBlockSize % 2 ^ 32
    let offset := startAddr / frameSize % bitmapBlockSize
    let endBlock := (startBlock + blocks) % 2 ^ 32
    blockMasks startBlock offset blocks endBlock ++ restMasks offset (pages % bitmapBlockSize) endBlock

section

variable {put : Byte → Byte → Byte} {full : Byte} {v : Bool}

lemma get_fill (hfull : ∀ b, put b 0xff#8 = full) (p : Pmm) (first n : Nat) :
    (p.fill full first n).get = paintAll put p.get ((List.range' first n).map fun i => (i, 0xff#8)) := by
  induction n generalizing p first with
  | zero => rfl
  | succ n ih =>
    rw [fill, ih, get_set, List.range'_succ, List.map_cons, paintAll, hfull]

lemma get_updateBlocks (hfull : ∀ b, put b 0xff#8 = full) (p : Pmm) (startBlock offset blocks endBlock : Nat) :
    (p.updateBlocks put full startBlock offset blocks endBlock).get =
      paintAll put p.get (blockMasks startBlock offset blocks endBlock) := by
  unfold updateBlocks blockMasks
  split_ifs
  · simp only [get_set, get_fill hfull, paintAll_append, paintAll, List.cons_append]
  · simp only [get_set, get_fill hfull, paintAll, List.append_nil]
  · rfl

lemma get_updateRest (p : Pmm) (offset rest endBlock : Nat) :
    (p.updateRest put offset rest endBlock).get = paintAll put p.get (restMasks offset rest endBlock) := by
  unfold updateRest restMasks
  split_ifs
  · simp only [get_set, paintAll]
  · rfl

/-- `reserve_frames` and `free_frames` are their stores. -/
theorem get_updateFrames (hfull : ∀ b, put b 0xff#8 = full) (p : Pmm) (startAddr size : Nat) :
    (p.updateFrames put full startAddr size).get = paintAll put p.get (frameMasks startAddr size) := by
  unfold updateFrames frameMasks
  split_ifs
  · rfl
  · simp only [get_updateRest, get_updateBlocks hfull, paintAll_append]

end

/-- The two ways to apply a mask. -/
def applyMask (reserve : Bool) (b mask : Byte) : Byte := if reserve then b ||| mask else b &&& ~~~mask

lemma paints_applyMask (reserve : Bool) : Paints (applyMask reserve) reserve := by
  cases reserve
  · exact paints_and_not
  · exact paints_or

lemma get_reserveFrames (p : Pmm) (startAddr size : Nat) :
    (p.reserveFrames startAddr size).get = paintAll (applyMask true) p.get (frameMasks startAddr size) :=
  get_updateFrames (fun _ => BitVec.or_allOnes) p startAddr size

lemma get_freeFrames (p : Pmm) (startAddr size : Nat) :
    (p.freeFrames startAddr size).get = paintAll (applyMask false) p.get (frameMasks startAddr size) :=
  get_updateFrames (fun _ => BitVec.and_zero) p startAddr size

lemma used_reserveFrames_masks (p : Pmm) (startAddr size f : Nat) :
    (p.reserveFrames startAddr size).used f = if Covered (frameMasks startAddr size) f then true else p.used f := by
  rw [used, get_reserveFrames, member_paintAll (paints_applyMask true), used]

lemma used_freeFrames_masks (p : Pmm) (startAddr size f : Nat) :
    (p.freeFrames startAddr size).used f = if Covered (frameMasks startAddr size) f then false else p.used f := by
  rw [used, get_freeFrames, member_paintAll (paints_applyMask false), used]

lemma covered_iff_blockTouched (startAddr size f : Nat) :
    Covered (frameMasks startAddr size) f ↔ blockTouched (startAddr / 4096) (pageCount size % 2 ^ 32) f := by
  let p : Pmm := ⟨fun _ => 0#8, 0, 0, 0, 0⟩
  have hmasks := p.used_reserveFrames_masks startAddr size f
  rw [reserveFrames, used_updateFrames_blocks paintsFrames_reserve p startAddr size f] at hmasks
  have hzero : p.used f = false := BitVec.getLsbD_zero
  rw [hzero] at hmasks
  split_ifs at hmasks <;> simp_all

end Pmm

end HaiirOS
