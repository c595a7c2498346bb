import HaiirOS.Memory.Masks

/-!
# Which frames a reserve or free is about

`reserve_frames` and `free_frames` count the pages of a size from the first frame of the range on,
so they miss the last frame of a range that starts late in its first one. With one whole
block they leave a hole in front of the end, and their page counts and block numbers have 32 bits.
-/

namespace HaiirOS

namespace Pmm

/-- Frame `f` has bytes in common with the `size` bytes from `startAddr` on. -/
def MeetsFrame (startAddr size f : Nat) : Prop := startAddr < (f + 1) * frameSize ∧ f * frameSize < startAddr + size

instance (startAddr size f : Nat) : Decidable (MeetsFrame startAddr size f) := inferInstanceAs (Decidable (_ ∧ _))

/-- On every bitmap that has the range, `reserve_frames` sets and `free_frames` clears the marks of the frames
that meet it and leaves all other marks alone. -/
def UpdatesRange (startAddr size : Nat) : Prop :=
  ∀ p : Pmm, startAddr + size ≤ p.bitmapSize * bitmapBlockSize * frameSize → ∀ f,
    ((p.reserveFrames startAddr size).used f = if MeetsFrame startAddr size f then true else p.used f) ∧
      ((p.freeFrames startAddr size).used f = if MeetsFrame startAddr size f then false else p.used f)

/-- The range meets as many frames as its size has pages; the pages fit 32 bits and the frames 35 bits; with
one whole block of pages the range starts at a block; and whole blocks do not end exactly at frame `2 ^ 35`, unless there is
one only. -/
structure PlainRange (startAddr size : Nat) : Prop where
  pages : startAddr % frameSize + (size - 1) % frameSize < frameSize
  count : pageCount size < 2 ^ 32
  low : startAddr + size ≤ 2 ^ 47
  block : pageCount size / 8 = 1 → startAddr / frameSize % 8 = 0
  last : startAddr / frameSize + pageCount size = 2 ^ 35 → startAddr / frameSize % 8 = 0 → pageCount size = 8

section

variable {startAddr size s n f : Nat}

lemma updatesRange_iff_blocks : UpdatesRange startAddr size ↔
    ∀ f, blockTouched (startAddr / 4096) (pageCount size % 2 ^ 32) f ↔ MeetsFrame startAddr size f := by
  constructor
  · intro h f
    let p : Pmm := ⟨fun _ => 0#8, 0, startAddr + size, 0, 7⟩
    have hfit : startAddr + size ≤ p.bitmapSize * bitmapBlockSize * frameSize := by
      change startAddr + size ≤ (startAddr + size) * 8 * 4096
      omega
    have hmark := (h p hfit f).1
    have hzero : p.used f = false := BitVec.getLsbD_zero
    rw [reserveFrames, used_updateFrames_blocks paintsFrames_reserve, hzero] at hmark
    by_cases hmeets : MeetsFrame startAddr size f
    · rw [if_pos hmeets] at hmark
      refine iff_of_true ?_ hmeets
      by_contra hnot
      rw [if_neg hnot] at hmark
      cases hmark
    · rw [if_neg hmeets] at hmark
      refine iff_of_false (fun htouched => ?_) hmeets
      rw [if_pos htouched] at hmark
      cases hmark
  · intro h p _ f
    rw [reserveFrames, freeFrames, used_updateFrames_blocks paintsFrames_reserve,
      used_updateFrames_blocks paintsFrames_free]
    simp only [h f, and_self]

lemma blockTouched_lt (h : blockTouched s n f) : f < 2 ^ 35 := by
  unfold blockTouched at h
  simp only at h
  have h1 := Nat.mod_lt (s / 8) (by decide : 0 < 2 ^ 32)
  have h2 := Nat.mod_lt (s / 8 % 2 ^ 32 + n / 8) (by decide : 0 < 2 ^ 32)
  have h3 := Nat.mod_lt ((s / 8 % 2 ^ 32 + n / 8) % 2 ^ 32 + 1) (by decide : 0 < 2 ^ 32)
  omega

/-- At the end of what 32-bit block numbers reach, the end block of a range of whole blocks wraps to 0. -/
lemma blockTouched_top (hend : s + n = 2 ^ 35) : blockTouched s n f ↔
    touched s n f ∧ (s % 8 = 0 → f / 8 = s / 8) := by
  by_cases hn : n = 0
  · subst hn
    unfold blockTouched touched
    simp only
    omega
  have hstart : s / 8 % 2 ^ 32 = s / 8 := Nat.mod_eq_of_lt (by omega)
  by_cases hs : s % 8 = 0
  · have hn8 : n % 8 = 0 := by omega
    have hwrap : (s / 8 + n / 8) % 2 ^ 32 = 0 := by omega
    unfold blockTouched touched hole
    simp only [hstart, hwrap, hn8, hs, true_implies]
    omega
  · have hlast : (s / 8 + n / 8) % 2 ^ 32 = 2 ^ 32 - 1 := by omega
    unfold blockTouched touched hole
    simp only [hstart, hlast]
    omega

/-- Up to frame `2 ^ 35` only frames of the range are touched. -/
lemma touched_of_blockTouched (h : blockTouched s n f) (hend : s + n ≤ 2 ^ 35) : touched s n f := by
  rcases Nat.lt_or_ge (s + n) (2 ^ 35) with hfit | hfit
  · exact (blockTouched_iff hfit).mp h
  · exact ((blockTouched_top (by omega)).mp h).1

/-- The frames of the range are touched exactly if the range is plain. -/
lemma blockTouched_meets_iff (hsize : 0 < size) :
    (∀ f, blockTouched (startAddr / 4096) (pageCount size % 2 ^ 32) f ↔ MeetsFrame startAddr size f) ↔
      PlainRange startAddr size := by
  have hcount : pageCount size = (size - 1) / 4096 + 1 := by
    unfold pageCount
    omega
  constructor
  · intro h
    -- the last frame that the range meets
    have hlast := (h ((startAddr + size - 1) / 4096)).mpr (by unfold MeetsFrame frameSize; omega)
    have hlow := blockTouched_lt hlast
    have hmod := Nat.mod_le (pageCount size) (2 ^ 32)
    have hlt := Nat.mod_lt (pageCount size) (by decide : 0 < 2 ^ 32)
    have htouched := touched_of_blockTouched hlast (by omega)
    obtain ⟨-, hreach, -⟩ := htouched
    have hwhole : pageCount size % 2 ^ 32 = pageCount size := by omega
    rw [hwhole] at h hreach hlt
    refine ⟨?_, hlt, by omega, fun hone => ?_, fun htop hs => ?_⟩
    · unfold frameSize
      omega
    · by_contra hs
      unfold frameSize at hs
      -- the first frame of the hole
      have hhole := (h (8 * (startAddr / 4096 / 8 + 1))).mpr (by unfold MeetsFrame frameSize; omega)
      have htouched := touched_of_blockTouched hhole (by omega)
      apply htouched.2.2
      unfold hole
      omega
    · by_contra hn
      unfold frameSize at htop hs
      -- the second block of the range
      have hnext := (h (startAddr / 4096 + 8)).mpr (by unfold MeetsFrame frameSize; omega)
      have hblock := ((blockTouched_top htop).mp hnext).2 hs
      omega
  · rintro ⟨hpages, hlt, hlow, hblock, hlast⟩ f
    unfold frameSize at hpages hblock hlast
    rw [Nat.mod_eq_of_lt hlt]
    have hhole : ¬ hole (startAddr / 4096) (pageCount size) f := by
      unfold hole
      omega
    have hmeets : touched (startAddr / 4096) (pageCount size) f ↔ MeetsFrame startAddr size f := by
      simp only [touched, MeetsFrame, frameSize, hhole, not_false_eq_true, and_true]
      omega
    rcases Nat.lt_or_ge (startAddr / 4096 + pageCount size) (2 ^ 35) with hfit | hfit
    · rw [blockTouched_iff hfit, hmeets]
    · rw [blockTouched_top (by omega), ← hmeets]
      refine and_iff_left_of_imp fun htouched hs => ?_
      have hone := hlast (by omega) hs
      obtain ⟨hge, hlt, -⟩ := htouched
      omega

end

/-- Frames from `2 ^ 35` on are in use. Their block numbers do not fit the 32 bits of `free_frames`, so none of them
becomes free. -/
def HighReserved (p : Pmm) : Prop := ∀ f, 2 ^ 35 ≤ f → f < 8 * p.bitmapSize → p.used f = true

/-- `reserve_frames` and `free_frames` update the marks of the frames of a range exactly if the range is plain. -/
theorem updatesRange_iff (startAddr size : Nat) (hsize : 0 < size) :
    UpdatesRange startAddr size ↔ PlainRange startAddr size :=
  updatesRange_iff_blocks.trans (blockTouched_meets_iff hsize)

/-- Sixteen pages from the fourth frame of a block on. -/
theorem updatesRange_sixteen : UpdatesRange 0x3000 0x10000 := by
  apply (updatesRange_iff 0x3000 0x10000 (by decide)).mpr
  exact ⟨by decide, by decide, by decide, by decide, by decide⟩

/-- Of eight frames from frame 1 on the last is left out, and so is the second of two that a page meets. -/
theorem not_updatesRange_hole : ¬ UpdatesRange 0x1000 0x8000 ∧ ¬ UpdatesRange 0x800 0x1000 := by
  let p : Pmm := ⟨fun _ => 0#8, 0, 2, 0, 7⟩
  constructor
  · intro h
    have hmark := (h p (by decide) 8).1
    exact absurd hmark (by decide)
  · intro h
    have hmark := (h p (by decide) 1).1
    exact absurd hmark (by decide)

end Pmm

end HaiirOS
