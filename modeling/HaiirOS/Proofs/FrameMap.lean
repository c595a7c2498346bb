import HaiirOS.Memory.Alloc
import HaiirOS.Memory.FrameMap
import HaiirOS.Lib.Segments
import Mathlib.Data.List.ModifyLast

/-!
# What the frame map shows

`print_frame_map` follows the segments of used and free frames, whole blocks at once and others
frame by frame. The last of them is printed one frame too long; and where the first frame is free
an empty segment of used frames comes first.
-/

namespace HaiirOS

open Segments (Segment Segmentation Tracker Follows)

/-- A used frame has a 1 in the bitmap. -/
def usedMark (v : Bool) : Byte := if v then 0xff#8 else 0#8

namespace Pmm

variable {p : Pmm} {t : Tracker} {block : Byte} {lines : List MapLine} {f : Nat → Bool} {i k n : Nat}

/-- The lines are the ranges of used and free frames, from address 0 to the end of the bitmap's frames. -/
structure ShowsFrames (p : Pmm) (lines : List MapLine) : Prop where
  nonempty : ∀ l ∈ lines, l.first ≤ l.last
  chain : lines.IsChain fun l m => m.free = !l.free ∧ m.first = l.last + 1
  first : ∃ l, lines.head? = some l ∧ l.first = 0
  last : ∃ l, lines.getLast? = some l ∧ l.last = p.bitmapSize * bitmapBlockSize * frameSize - 1
  frames : ∀ f < p.bitmapSize * bitmapBlockSize,
    p.pmmIsFree (f * frameSize) = true ↔ ∃ l ∈ lines, l.free = true ∧ l.first ≤ f * frameSize ∧ (f + 1) * frameSize ≤ l.last + 1

/-- The line of a segment of frames. -/
def mapLine (s : Segment) : MapLine := ⟨!s.value, s.first * frameSize, (s.stop * frameSize + 2 ^ 64 - 1) % 2 ^ 64⟩

/-- The state of `print_frame_map` where the tracker is. -/
def mapState (t : Tracker) : MapState :=
  ⟨usedMark t.value, (t.next - t.start) * frameSize, t.start * frameSize, t.done.map mapLine⟩

/-! ### The tracker -/

lemma newRun_eq (hstart : t.start ≤ t.next) {v : Bool} (hv : v ≠ t.value) (n : Nat) :
    (mapState t).newRun v (n * frameSize) = mapState (t.feed v n) := by
  have hvalue : t.value = !v := Bool.eq_not_of_ne (Ne.symm hv)
  have hsum : t.start * frameSize + (t.next - t.start) * frameSize = t.next * frameSize := by
    rw [← Nat.add_mul]
    congr 1
    omega
  have hsize : t.next + n - t.next = n := Nat.add_sub_cancel_left _ _
  have hmark : ~~~usedMark (!v) = usedMark v := by
    cases v <;> decide
  rw [Tracker.feed, if_neg hv, MapState.newRun]
  simp only [mapState, hsum, hsize, hvalue, hmark, Tracker.segments, List.map_append, List.map_cons, List.map_nil, mapLine,
    Bool.not_not]

lemma extend_eq (hstart : t.start ≤ t.next) (n : Nat) :
    { mapState t with size := (mapState t).size + n * frameSize } = mapState (t.feed t.value n) := by
  have hsize : t.next + n - t.start = t.next - t.start + n := by omega
  rw [Tracker.feed, if_pos rfl]
  simp only [mapState, hsize, Nat.add_mul]

lemma feed_start (hstart : t.start ≤ t.next) (v : Bool) (n : Nat) : (t.feed v n).start ≤ (t.feed v n).next := by
  unfold Tracker.feed
  split_ifs
  · exact Nat.le_trans hstart (Nat.le_add_right _ _)
  · exact Nat.le_add_right _ _

lemma run_start (hstart : t.start ≤ t.next) : (t.run f n).start ≤ (t.run f n).next := by
  induction n generalizing t with
  | zero => exact hstart
  | succ n ih => exact ih (feed_start hstart _ 1)

lemma usedMark_and_one_inj : ∀ u v : Bool, usedMark u &&& 1#8 = usedMark v &&& 1#8 ↔ u = v := by decide

lemma usedMark_and_one_eq_one : ∀ v : Bool, usedMark v &&& 1#8 = 1#8 ↔ v = true := by decide

lemma shift_and_one (block : Byte) (j : Nat) : (block >>> j) &&& 1#8 = usedMark (block.getLsbD j) &&& 1#8 := by
  rw [BitVec.and_one_eq_setWidth_ofBool_getLsbD, BitVec.getLsbD_ushiftRight, Nat.add_zero]
  cases block.getLsbD j <;> decide

/-- The loop over the bits of a block feeds them to the tracker. -/
lemma printBits_eq (hstart : t.start ≤ t.next) (hbits : ∀ j < n, f (t.next + j) = block.getLsbD (n - 1 - j)) :
    MapState.printBits block n (mapState t) = mapState (t.run f n) := by
  induction n generalizing t with
  | zero => rfl
  | succ n ih =>
    have hbit : f t.next = block.getLsbD n := hbits 0 (Nat.succ_pos n)
    have hstep : (if (mapState t).lastVal &&& 1#8 ≠ (block >>> n) &&& 1#8 then
        if (block >>> n) &&& 1#8 = 1#8 then (mapState t).newRun true frameSize else (mapState t).newRun false frameSize
        else { mapState t with size := (mapState t).size + frameSize }) = mapState (t.feed (f t.next) 1) := by
      have hmark : (mapState t).lastVal = usedMark t.value := rfl
      rw [shift_and_one, ← hbit, hmark, ← Nat.one_mul frameSize]
      simp only [ne_eq, usedMark_and_one_inj, usedMark_and_one_eq_one]
      by_cases hv : t.value = f t.next
      · rw [if_neg (not_not.mpr hv), ← hv]
        exact extend_eq hstart 1
      · rw [if_pos hv, ← newRun_eq hstart (Ne.symm hv)]
        cases f t.next <;> rfl
    rw [MapState.printBits, hstep, Tracker.run, ih (feed_start hstart _ 1)]
    intro j hj
    rw [Tracker.feed_next, Nat.add_assoc, Nat.add_comm 1, hbits (j + 1) (Nat.succ_lt_succ hj)]
    congr 1
    omega

lemma printBlock_eq (hstart : t.start ≤ t.next) (hnext : t.next = 8 * i) :
    (mapState t).printBlock (p.get i) = mapState (t.run p.used 8) := by
  have hbits : ∀ j < 8, p.used (t.next + j) = (p.get i).getLsbD (7 - j) := by
    intro j hj
    have hblock : (8 * i + j) / 8 = i := by omega
    have hbit : (8 * i + j) % 8 = j := by omega
    rw [hnext, used, PackedBits.member, hblock, hbit]
  -- a block of equal bits is fed at once
  have hfull : ∀ v, p.get i = usedMark v → t.run p.used 8 = t.feed v 8 := by
    intro v hblock
    apply Tracker.run_eq_feed
    intro j hj
    rw [hbits j hj, hblock]
    have hmark : ∀ v : Bool, ∀ j < 8, (usedMark v).getLsbD j = v := by decide
    exact hmark v (7 - j) (by omega)
  have hmark : (mapState t).lastVal = usedMark t.value := rfl
  rw [MapState.printBlock, MapState.printBitmapBlock, hmark]
  by_cases hlast : p.get i = usedMark t.value
  · rw [hfull _ hlast, if_neg (not_not.mpr hlast)]
    exact extend_eq hstart 8
  rw [if_pos hlast]
  by_cases hones : p.get i = 0xff#8
  · rw [hfull true hones, if_pos hones]
    exact newRun_eq hstart (fun hv : true = t.value => hlast (hones.trans (congrArg usedMark hv))) 8
  by_cases hzero : p.get i = 0#8
  · rw [hfull false hzero, if_neg hones, if_pos hzero]
    exact newRun_eq hstart (fun hv : false = t.value => hlast (hzero.trans (congrArg usedMark hv))) 8
  rw [if_neg hones, if_neg hzero]
  exact printBits_eq hstart hbits

lemma printBlocks_eq (hstart : t.start ≤ t.next) (hnext : t.next = 8 * i) :
    p.printBlocks n i (mapState t) = mapState (t.run p.used (8 * n)) := by
  induction n generalizing t i with
  | zero => rfl
  | succ n ih =>
    rw [printBlocks, printBlock_eq hstart hnext, ih (run_start hstart), ← Tracker.run_add]
    · congr 2
      omega
    · rw [Tracker.run_next]
      omega

/-- The tracker before the first frame. -/
def mapTracker : Tracker := ⟨[], true, 0, 0⟩

/-- The tracker behind the last frame. -/
def tracked (p : Pmm) : Tracker := mapTracker.run p.used (p.bitmapSize * bitmapBlockSize)

lemma tracked_next (p : Pmm) : p.tracked.next = p.bitmapSize * bitmapBlockSize := by
  rw [tracked, Tracker.run_next]
  exact Nat.zero_add _

/-- The lines are those of the segments, but for the end of the last one. -/
theorem printFrameMap_eq (p : Pmm) : p.printFrameMap = p.tracked.done.map mapLine ++
    [⟨!p.tracked.value, p.tracked.start * frameSize,
      ((p.bitmapSize * bitmapBlockSize + 1) * frameSize - 1) % 2 ^ 64⟩] := by
  have hrun : p.printBlocks p.bitmapSize 0 ⟨0xff#8, 0, 0, []⟩ = mapState p.tracked := by
    rw [tracked, Nat.mul_comm]
    exact printBlocks_eq (t := mapTracker) (Nat.le_refl 0) rfl
  have hstart : p.tracked.start ≤ p.tracked.next := run_start (t := mapTracker) (Nat.le_refl 0)
  have hend : p.tracked.start * frameSize + (p.tracked.next - p.tracked.start) * frameSize + frameSize - 1 =
      (p.bitmapSize * bitmapBlockSize + 1) * frameSize - 1 := by
    rw [← Nat.add_mul, ← tracked_next, Nat.add_sub_of_le hstart, Nat.add_mul, Nat.one_mul]
  have hfree : ∀ v : Bool, (usedMark v == 0#8) = !v := by decide
  rw [printFrameMap, hrun]
  simp only [mapState, hend, hfree]

/-- The map ends one frame behind the bitmap's last one, whatever the bitmap. -/
theorem not_showsFrames_printFrameMap (p : Pmm) (hsize : 1 ≤ p.bitmapSize) : ¬ p.ShowsFrames p.printFrameMap := by
  rintro ⟨-, -, -, ⟨l, hlast, hend⟩, -⟩
  rw [printFrameMap_eq, List.getLast?_concat] at hlast
  obtain rfl := Option.some.inj hlast
  change ((p.bitmapSize * 8 + 1) * 4096 - 1) % 2 ^ 64 = p.bitmapSize * 8 * 4096 - 1 at hend
  omega

/-- Four used and four free frames. -/
theorem not_showsFrames_half : ¬ ShowsFrames ⟨fun _ => 0xf0#8, 0, 1, 0, 7⟩ (printFrameMap ⟨fun _ => 0xf0#8, 0, 1, 0, 7⟩) :=
  not_showsFrames_printFrameMap ⟨fun _ => 0xf0#8, 0, 1, 0, 7⟩ (by decide)

/-- Eight used frames end at `0x7fff`, and their map at `0x8fff`. -/
theorem not_showsFrames_block : ¬ ShowsFrames ⟨fun _ => 0xff#8, 0, 1, 0, 7⟩ (printFrameMap ⟨fun _ => 0xff#8, 0, 1, 0, 7⟩) := by
  have hmap : printFrameMap ⟨fun _ => 0xff#8, 0, 1, 0, 7⟩ = [⟨false, 0, 0x8fff⟩] := by decide
  intro h
  obtain ⟨l, hlast, hend⟩ := h.last
  rw [hmap] at hlast
  obtain rfl := Option.some.inj hlast
  exact absurd hend (by decide)

/-! ### The map without the last line's extra frame -/

lemma segmentation_tracked (p : Pmm) : Segmentation p.used (p.bitmapSize * bitmapBlockSize) p.tracked.segments := by
  have hstart : Segmentation p.used mapTracker.next mapTracker.segments :=
    ⟨.singleton _, ⟨_, rfl, rfl⟩, ⟨_, rfl, rfl⟩, fun s hs k _ hstop => by
      rw [List.mem_singleton.mp hs] at hstop
      exact absurd hstop (Nat.not_lt_zero k)⟩
  have hrun := Tracker.segmentation_run hstart (n := p.bitmapSize * bitmapBlockSize)
  rwa [show mapTracker.next = 0 from rfl, Nat.zero_add] at hrun

lemma tracked_succ (hsize : 1 ≤ p.bitmapSize) :
    p.tracked = (mapTracker.feed (p.used 0) 1).run p.used (p.bitmapSize * bitmapBlockSize - 1) := by
  have hsucc : p.bitmapSize * bitmapBlockSize = p.bitmapSize * bitmapBlockSize - 1 + 1 := by
    change p.bitmapSize * 8 = p.bitmapSize * 8 - 1 + 1
    omega
  rw [tracked, hsucc, Tracker.run, Nat.add_sub_cancel]
  rfl

/-- A used first frame keeps the first segment from being empty. -/
lemma proper_tracked (hsize : 1 ≤ p.bitmapSize) (hused : p.used 0 = true) : p.tracked.Proper := by
  rw [tracked_succ hsize, hused]
  apply Tracker.proper_run
  intro s hs
  obtain rfl := List.mem_singleton.mp hs
  exact ⟨Nat.zero_lt_one, Nat.le_refl 1⟩

/-- The lines with the last one a frame shorter. -/
def shortened (lines : List MapLine) : List MapLine := lines.modifyLast fun l => { l with last := l.last - frameSize }

lemma shortened_printFrameMap (hsize : 1 ≤ p.bitmapSize) (hbound : p.bitmapSize ≤ 2 ^ 32) :
    shortened p.printFrameMap = p.tracked.segments.map mapLine := by
  have hend : ((p.bitmapSize * bitmapBlockSize + 1) * frameSize - 1) % 2 ^ 64 - frameSize =
      (p.bitmapSize * bitmapBlockSize * frameSize + 2 ^ 64 - 1) % 2 ^ 64 := by
    simp only [bitmapBlockSize, frameSize]
    omega
  rw [printFrameMap_eq, shortened, List.modifyLast_concat, hend, Tracker.segments, List.map_append, List.map_singleton, mapLine,
    tracked_next]

/-- But for the last line's extra frame the map is right, if the first frame is used: it begins with an empty range of used
frames otherwise. -/
theorem showsFrames_shortened_iff (hsize : 1 ≤ p.bitmapSize) (hbound : p.bitmapSize ≤ 2 ^ 32) :
    p.ShowsFrames (shortened p.printFrameMap) ↔ p.pmmIsFree 0 = false := by
  have hseg := segmentation_tracked p
  have hfree0 : p.pmmIsFree 0 = !p.used 0 := pmmIsFree_eq p (by omega)
  rw [shortened_printFrameMap hsize hbound, hfree0, Bool.not_eq_false']
  constructor
  · intro h
    by_contra hfree
    -- the tracker has begun with an empty segment of used frames, whose line ends at 2^64 - 1
    have hdone : [⟨true, 0, 0⟩] <+: p.tracked.done := by
      rw [tracked_succ hsize, (Bool.not_eq_true _).mp hfree]
      exact Tracker.done_run (t := ⟨[⟨true, 0, 0⟩], false, 0, 1⟩)
    obtain ⟨l, hl⟩ := hdone
    obtain ⟨u, rest, hrest⟩ := List.exists_cons_of_ne_nil
      (List.append_ne_nil_of_right_ne_nil l (List.cons_ne_nil (⟨p.tracked.value, p.tracked.start, p.tracked.next⟩ : Segment) []))
    have hsegments : p.tracked.segments = ⟨true, 0, 0⟩ :: u :: rest := by
      rw [Tracker.segments, ← hl, List.append_assoc, hrest]
      rfl
    have hfollows := (List.isChain_cons_cons.mp (hsegments ▸ hseg.chain)).1
    have hlines := h.chain
    rw [hsegments] at hlines
    have hnext := (List.isChain_cons_cons.mp hlines).1.2
    have hfirst : u.first = 0 := hfollows.2
    change u.first * 4096 = (0 * 4096 + 2 ^ 64 - 1) % 2 ^ 64 + 1 at hnext
    omega
  · intro hused
    have hproper := proper_tracked hsize hused
    have hline : ∀ s ∈ p.tracked.segments, (mapLine s).last + 1 = s.stop * frameSize ∧ s.first < s.stop := by
      intro s hs
      obtain ⟨hlt, hle⟩ := hproper s hs
      rw [tracked_next] at hle
      change s.stop ≤ p.bitmapSize * 8 at hle
      change (s.stop * 4096 + 2 ^ 64 - 1) % 2 ^ 64 + 1 = s.stop * 4096 ∧ s.first < s.stop
      omega
    refine ⟨fun l hl => ?_, ?_, ?_, ?_, fun f hf => ?_⟩
    · obtain ⟨s, hs, rfl⟩ := List.mem_map.mp hl
      obtain ⟨hlast, hlt⟩ := hline s hs
      change s.first * 4096 ≤ (mapLine s).last
      change (mapLine s).last + 1 = s.stop * 4096 at hlast
      omega
    · apply (List.isChain_map mapLine).mpr
      refine hseg.chain.imp_of_mem_imp fun a b ha _ hab => ⟨congrArg not hab.1, ?_⟩
      rw [(hline a ha).1, mapLine, hab.2]
    · obtain ⟨s, hhead, h0⟩ := hseg.first
      refine ⟨mapLine s, by rw [List.head?_map, hhead]; rfl, ?_⟩
      rw [mapLine, h0, Nat.zero_mul]
    · obtain ⟨s, hlast, hstop⟩ := hseg.stop
      refine ⟨mapLine s, by rw [List.getLast?_map, hlast]; rfl, ?_⟩
      rw [← hstop, ← (hline s (List.mem_of_getLast? hlast)).1, Nat.add_sub_cancel]
    · have hbits : f < p.bitmapSize * 8 := hf
      have hframe : f * frameSize / 4096 = f := Nat.mul_div_cancel f (by decide)
      rw [pmmIsFree_eq p (by omega), hframe, free, Bool.not_eq_true', hseg.value_iff hf false]
      constructor
      · rintro ⟨s, hs, hvalue, hfirst, hstop⟩
        refine ⟨mapLine s, List.mem_map_of_mem hs, by rw [mapLine, hvalue]; rfl, Nat.mul_le_mul_right _ hfirst, ?_⟩
        rw [(hline s hs).1]
        exact Nat.mul_le_mul_right _ hstop
      · rintro ⟨l, hl, hfree, hfirst, hlast⟩
        obtain ⟨s, hs, rfl⟩ := List.mem_map.mp hl
        rw [(hline s hs).1] at hlast
        have hvalue : (!s.value) = true := hfree
        rw [Bool.not_eq_true'] at hvalue
        refine ⟨s, hs, hvalue, ?_, ?_⟩
        · exact Nat.le_of_mul_le_mul_right hfirst (by decide)
        · exact Nat.le_of_mul_le_mul_right hlast (by decide)

end Pmm

end HaiirOS
