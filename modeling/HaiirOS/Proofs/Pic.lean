import HaiirOS.Interrupt.Pic
import HaiirOS.Lib.Runs
import HaiirOS.Proofs.Idt
import Mathlib.Data.Fintype.Card

/-!
# Interrupts by way of the two 8259 chips

`remap_pic` works from any state of the chips. The handlers end an interrupt at the first chip only: it is free for the
next one, but on the second chip whatever was in service stays so.
-/

namespace HaiirOS

namespace Pic

open Pic8259 Runs

/-- A chip after the four words of an initialisation and the mask. -/
structure Programmed (c : Chip) (offset icw3 : BitVec 8) : Prop where
  expects : c.expects = .mask
  offset : c.offset = offset
  icw3 : c.icw3 = icw3
  icw4 : c.icw4 = 0x01#8
  imr : c.imr = 0x00#8

/-- The chips after `remap_pic`. -/
structure Remapped (p : Pair) : Prop where
  master : Programmed p.master 0x20#8 0x04#8
  slave : Programmed p.slave 0x28#8 0x02#8

/-- The chip that `remap_pic` leaves. -/
def remapped (c : Chip) (offset icw3 : BitVec 8) : Chip :=
  { c with
    expects := .mask
    single := false
    needsIcw4 := true
    offset := offset
    icw3 := icw3
    icw4 := 0x01#8
    imr := 0x00#8
    irr := fun _ => false }

lemma remapPic_eq (p : Pair) :
    remapPic p = some ⟨remapped p.master 0x20#8 0x04#8, remapped p.slave 0x28#8 0x02#8⟩ := rfl

/-- A request of a device on one of the chips, or an interrupt of the processor with its vector. -/
inductive PicOp where
  | raiseMaster (l : Fin 8)
  | raiseSlave (l : Fin 8)
  | interrupt (vector : BitVec 8)

/-- For an interrupt the processor reads the vector from the chips, and the handler behind its gate runs. -/
def step (p : Pair) (op : PicOp) (q : Pair) : Prop :=
  match op with
  | .raiseMaster l => q = { p with master := p.master.raise l }
  | .raiseSlave l => q = { p with slave := p.slave.raise l }
  | .interrupt vector => ∃ taken handler ist, p.accept = some (vector, taken) ∧
      Idt.handlerAt false vector = some (handler, ist) ∧ handler.endInterrupt taken = some q

/-- The vector of a line of the second chip. -/
def slaveVector (l : Fin 8) : BitVec 8 := 0x28#8 + BitVec.ofNat 8 l

section Accept

variable {p q : Pair} {v : BitVec 8}

lemma icw3_iff : ∀ l : Fin 8, (0x04#8).getLsbD l = true ↔ l = cascade := by decide

/-- An interrupt is for a line of the first chip, or for one of the second. -/
lemma accept_cases (h : Remapped p) (haccept : p.accept = some (v, q)) :
    (∃ l ≠ cascade, (∀ k ≤ l, p.master.isr k = false) ∧ v = 0x20#8 + BitVec.ofNat 8 l ∧
      q = { p with master := p.master.take l }) ∨
    ∃ k, (∀ j ≤ cascade, p.master.isr j = false) ∧ (∀ j ≤ k, p.slave.isr j = false) ∧ v = slaveVector k ∧
      q = ⟨p.master.take cascade, p.slave.take k⟩ := by
  obtain ⟨l, hl, haccept⟩ := Option.bind_eq_some_iff.mp haccept
  obtain ⟨-, -, hisr⟩ := Chip.next_eq_some hl
  rw [h.master.icw3, h.slave.icw3, h.master.offset, h.slave.offset] at haccept
  by_cases hcascade : l = cascade
  · rw [if_pos ((icw3_iff l).mpr hcascade), hcascade, if_pos (by decide)] at haccept
    obtain ⟨k, hk, haccept⟩ := Option.bind_eq_some_iff.mp haccept
    obtain ⟨-, -, hslave⟩ := Chip.next_eq_some hk
    cases haccept
    exact .inr ⟨k, hcascade ▸ hisr, hslave, rfl, rfl⟩
  · rw [if_neg fun hbit => hcascade ((icw3_iff l).mp hbit)] at haccept
    cases haccept
    exact .inl ⟨l, hcascade, hisr, rfl, rfl⟩

/-- With nothing in service on the first chip, a request there leads to an interrupt. -/
lemma accept_isSome (h : Remapped p) (hidle : ∀ k, p.master.isr k = false) {l : Fin 8} (hirr : p.master.irr l = true)
    (hne : l ≠ cascade) : ∃ v q, p.accept = some (v, q) := by
  have hmask : p.master.imr.getLsbD l = false := by rw [h.master.imr, BitVec.getLsbD_zero]
  have hrequest : p.requests l = true := by rw [Pair.requests, Function.update_of_ne hne, hirr]
  obtain ⟨k, -, hk⟩ := Chip.next_le hrequest hmask fun k _ => hidle k
  obtain ⟨hrequest, -, -⟩ := Chip.next_eq_some hk
  unfold Pair.accept
  rw [hk, Option.bind_eq_bind, Option.bind_some, h.master.icw3, h.slave.icw3]
  by_cases hcascade : k = cascade
  · rw [if_pos ((icw3_iff k).mpr hcascade), hcascade, if_pos (by decide)]
    rw [hcascade, Pair.requests, Function.update_self] at hrequest
    obtain ⟨j, hj⟩ := Option.isSome_iff_exists.mp hrequest
    rw [hj]
    exact ⟨_, _, rfl⟩
  · rw [if_neg fun hbit => hcascade ((icw3_iff k).mp hbit)]
    exact ⟨_, _, rfl⟩

end Accept

section Handlers

variable {p q : Pair} {v : BitVec 8} {handler : IdtHandler} {ist : BitVec 3}

/-- The vectors of the lines, apart from that of the cascade, have handlers. -/
lemma line_handlers : ∀ l : Fin 8, (l ≠ cascade → (Idt.handlerAt false (0x20#8 + BitVec.ofNat 8 l)).isSome) ∧
    (Idt.handlerAt false (slaveVector l)).isSome := by decide

/-- Each of these handlers ends the interrupt at the first chip. -/
lemma endInterrupt_eq (hv : 0x20 ≤ v.toNat) (h : Idt.handlerAt false v = some (handler, ist)) (p : Pair) :
    handler.endInterrupt p = some { p with master := p.master.eoi } := by
  unfold Idt.handlerAt at h
  simp only [BitVec.lt_def, BitVec.toNat_ofNat] at h
  rw [if_neg (by omega), if_neg (by omega), if_neg Bool.false_ne_true] at h
  by_cases h34 : v = 34#8
  · rw [if_pos h34] at h
    cases h
  · rw [if_neg h34] at h
    obtain ⟨rfl, -⟩ := Prod.mk.inj (Option.some.inj h)
    split_ifs <;> rfl

lemma programmed_take_eoi {c : Chip} {offset icw3 : BitVec 8} (h : Programmed c offset icw3) (l : Fin 8) :
    Programmed (c.take l).eoi offset icw3 := by
  unfold Chip.eoi
  cases Fin.find? (c.take l).isr with
  | none => exact ⟨h.expects, h.offset, h.icw3, h.icw4, h.imr⟩
  | some k => exact ⟨h.expects, h.offset, h.icw3, h.icw4, h.imr⟩

lemma line_toNat : ∀ l : Fin 8, 0x20 ≤ (0x20#8 + BitVec.ofNat 8 l).toNat ∧ 0x20 ≤ (slaveVector l).toNat := by decide

lemma line_ne_slave : ∀ l k : Fin 8, 0x20#8 + BitVec.ofNat 8 l ≠ slaveVector k := by decide

lemma slaveVector_inj : ∀ k l : Fin 8, slaveVector k = slaveVector l → k = l := by decide

/-- What an interrupt and its handler do: the first chip serves again what it served before, and a line of the second
one stays in service. -/
structure Handled (p : Pair) (v : BitVec 8) (q : Pair) : Prop where
  remapped : Remapped q
  master : q.master.isr = p.master.isr
  slave : ∀ l, q.slave.isr l = true ↔ p.slave.isr l = true ∨ v = slaveVector l
  free : ∀ l, v = slaveVector l → ∀ j ≤ l, p.slave.isr j = false

/-- The step lemma for interrupts. -/
lemma interrupt_handled (h : Remapped p) (hstep : step p (.interrupt v) q) : Handled p v q := by
  obtain ⟨taken, handler, ist, haccept, hhandler, hend⟩ := hstep
  have hauto : p.master.icw4.getLsbD 1 = false := by
    rw [h.master.icw4]
    decide
  obtain ⟨l, hl, hisr, rfl, rfl⟩ | ⟨k, hisr, hslave, rfl, rfl⟩ := accept_cases h haccept
  · rw [endInterrupt_eq (line_toNat l).1 hhandler] at hend
    cases hend
    have hother (k : Fin 8) : ¬ 0x20#8 + BitVec.ofNat 8 l = slaveVector k := line_ne_slave l k
    exact
      { remapped := ⟨programmed_take_eoi h.master l, h.slave⟩
        master := Chip.take_eoi hisr hauto
        slave := fun k => (or_iff_left (hother k)).symm
        free := fun k hk => absurd hk (hother k) }
  · rw [endInterrupt_eq (line_toNat k).2 hhandler] at hend
    cases hend
    have hservice : (p.slave.take k).isr = Function.update p.slave.isr k true := by
      refine if_neg ?_
      rw [h.slave.icw4]
      decide
    refine ⟨⟨programmed_take_eoi h.master cascade, ?_⟩, Chip.take_eoi hisr hauto, fun l => ?_, fun l hl => ?_⟩
    · exact ⟨h.slave.expects, h.slave.offset, h.slave.icw3, h.slave.icw4, h.slave.imr⟩
    · change (p.slave.take k).isr l = true ↔ _
      rw [hservice]
      by_cases hlk : l = k
      · rw [hlk, Function.update_self]
        exact iff_of_true rfl (.inr rfl)
      · rw [Function.update_of_ne hlk]
        exact (or_iff_left fun heq => hlk (slaveVector_inj k l heq).symm).symm
    · rw [← slaveVector_inj k l hl]
      exact hslave

end Handlers

section Runs

variable {p s q : Pair} {ops : List PicOp}

/-- The line of the second chip that an interrupt is for. -/
def PicOp.slaveLine : PicOp → Option (Fin 8)
  | .interrupt v => (List.finRange 8).find? fun l => decide (v = slaveVector l)
  | _ => none

lemma slaveLine_eq_some {op : PicOp} {l : Fin 8} (h : op.slaveLine = some l) : op = .interrupt (slaveVector l) := by
  cases op with
  | raiseMaster k => cases h
  | raiseSlave k => cases h
  | interrupt v =>
    have hv := List.find?_some h
    rw [of_decide_eq_true hv]

/-- What every run keeps. -/
structure Kept (s : Pair) (ops : List PicOp) (q : Pair) : Prop where
  remapped : Remapped q
  master : q.master.isr = s.master.isr
  slave : ∀ l, q.slave.isr l = true ↔ s.slave.isr l = true ∨ .interrupt (slaveVector l) ∈ ops

lemma kept_run (h : Remapped s) (hrun : Run step s ops q) : Kept s ops q := by
  induction hrun with
  | nil s =>
    refine ⟨h, rfl, fun l => ?_⟩
    rw [or_iff_left List.not_mem_nil]
  | @cons s t u op ops hstep _ ih =>
    cases op with
    | raiseMaster l =>
      cases hstep
      have ih := ih ⟨⟨h.master.expects, h.master.offset, h.master.icw3, h.master.icw4, h.master.imr⟩, h.slave⟩
      refine ⟨ih.remapped, ih.master, fun k => ?_⟩
      simp only [ih.slave, List.mem_cons, reduceCtorEq, false_or]
    | raiseSlave l =>
      cases hstep
      have ih := ih ⟨h.master, ⟨h.slave.expects, h.slave.offset, h.slave.icw3, h.slave.icw4, h.slave.imr⟩⟩
      refine ⟨ih.remapped, ih.master, fun k => ?_⟩
      simp only [ih.slave, List.mem_cons, reduceCtorEq, false_or]
      rfl
    | interrupt v =>
      have hhandled := interrupt_handled h hstep
      have ih := ih hhandled.remapped
      refine ⟨ih.remapped, ih.master.trans hhandled.master, fun k => ?_⟩
      rw [ih.slave, hhandled.slave, List.mem_cons, PicOp.interrupt.injEq, or_assoc, eq_comm (a := v)]

/-- Behind a line of the second chip only more urgent ones are taken. -/
lemma later_lines (h : Remapped s) (hrun : Run step s ops q) {l : Fin 8} (hl : s.slave.isr l = true) {k : Fin 8}
    (hk : .interrupt (slaveVector k) ∈ ops) : k < l := by
  induction hrun with
  | nil s => cases hk
  | @cons s t u op ops hstep hrest ih =>
    have hkept := kept_run h (.cons hstep (.nil t))
    obtain rfl | hk := List.mem_cons.mp hk
    · have hfree := (interrupt_handled h hstep).free k rfl
      by_contra hlt
      exact Bool.false_ne_true ((hfree l (Fin.not_lt.mp hlt)).symm.trans hl)
    · exact ih hkept.remapped ((hkept.slave l).mpr (.inl hl)) hk

lemma lines_fall (h : Remapped s) (hrun : Run step s ops q) : (ops.filterMap PicOp.slaveLine).Pairwise (· > ·) := by
  induction hrun with
  | nil s => exact .nil
  | @cons s t u op ops hstep hrest ih =>
    have hkept := kept_run h (.cons hstep (.nil t))
    rw [List.filterMap_cons]
    cases hline : op.slaveLine with
    | none => exact ih hkept.remapped
    | some l =>
      obtain rfl := slaveLine_eq_some hline
      refine List.pairwise_cons.mpr ⟨fun k hk => ?_, ih hkept.remapped⟩
      obtain ⟨op, hop, hop'⟩ := List.mem_filterMap.mp hk
      rw [slaveLine_eq_some hop'] at hop
      exact later_lines hkept.remapped hrest ((hkept.slave l).mpr (.inr List.mem_cons_self)) hop

/-- Whatever the chips were before `remap_pic`, with nothing in service on the first one: in every run after it, the
interrupts of the second chip are for ever more urgent lines, so that there are eight of them at most, while each
request on the first chip leads to an interrupt. -/
theorem second_chip_dries_up (hremap : remapPic p = some s) (hidle : ∀ l, p.master.isr l = false)
    (hrun : Run step s ops q) :
    (ops.filterMap PicOp.slaveLine).Pairwise (· > ·) ∧ (ops.filterMap PicOp.slaveLine).length ≤ 8 ∧
      ∀ l ≠ cascade, q.master.irr l = true → ∃ v t, step q (.interrupt v) t := by
  have hs : Remapped s := by
    rw [remapPic_eq] at hremap
    cases hremap
    exact ⟨⟨rfl, rfl, rfl, rfl, rfl⟩, ⟨rfl, rfl, rfl, rfl, rfl⟩⟩
  have hsidle : ∀ l, s.master.isr l = false := by
    rw [remapPic_eq] at hremap
    cases hremap
    exact hidle
  have hfall := lines_fall hs hrun
  refine ⟨hfall, ?_, fun l hl hirr => ?_⟩
  · have hnodup : (ops.filterMap PicOp.slaveLine).Nodup := hfall.imp fun hgt => Fin.ne_of_gt hgt
    exact hnodup.length_le_card
  · have hkept := kept_run hs hrun
    have hqidle : ∀ k, q.master.isr k = false := by
      rw [hkept.master]
      exact hsidle
    obtain ⟨v, t, haccept⟩ := accept_isSome hkept.remapped hqidle hirr hl
    -- the vector is that of a line, so that it has a handler, which ends the interrupt
    have hvector : (Idt.handlerAt false v).isSome ∧ 0x20 ≤ v.toNat := by
      obtain ⟨k, hk, -, rfl, -⟩ | ⟨k, -, -, rfl, -⟩ := accept_cases hkept.remapped haccept
      · exact ⟨(line_handlers k).1 hk, (line_toNat k).1⟩
      · exact ⟨(line_handlers k).2, (line_toNat k).2⟩
    obtain ⟨⟨handler, ist⟩, hhandler⟩ := Option.isSome_iff_exists.mp hvector.1
    exact ⟨v, _, t, handler, ist, haccept, hhandler, endInterrupt_eq hvector.2 hhandler t⟩

/-- The chips with their power on. -/
def chipOn : Chip := ⟨.mask, false, false, 0#8, 0#8, 0#8, 0#8, fun _ => false, fun _ => false⟩

theorem keyboard_behind_second_chip : ∃ s q, remapPic ⟨chipOn, chipOn⟩ = some s ∧
    Run step s [.raiseSlave 3, .interrupt (slaveVector 3), .raiseSlave 3, .raiseMaster 1] q ∧
      ∃ v t, step q (.interrupt v) t := by
  have hfirst : ∃ t, step ⟨remapped chipOn 0x20#8 0x04#8, (remapped chipOn 0x28#8 0x02#8).raise 3⟩
      (.interrupt (slaveVector 3)) t := ⟨_, _, .interruptHandler, 0#3, rfl, rfl, rfl⟩
  obtain ⟨t, ht⟩ := hfirst
  have hrun : Run step ⟨remapped chipOn 0x20#8 0x04#8, remapped chipOn 0x28#8 0x02#8⟩
      [.raiseSlave 3, .interrupt (slaveVector 3), .raiseSlave 3, .raiseMaster 1] _ :=
    .cons rfl (.cons ht (.cons rfl (.cons rfl (.nil _))))
  have hremap := remapPic_eq ⟨chipOn, chipOn⟩
  have hirr : (t.master.raise 1).irr 1 = true := by simp [Chip.raise]
  have h := second_chip_dries_up hremap (fun _ => rfl) hrun
  exact ⟨_, _, hremap, hrun, h.2.2 1 (by decide) hirr⟩

end Runs

section Disabled

variable {p s q : Pair} {ops : List PicOp}

/-- After `disable_pic` the chips interrupt no more, where the first one is not amid its initialisation. -/
theorem disabled_pic_silent (hmaster : p.master.expects = .mask) (hdisable : disablePic p = some s)
    (hrun : Run step s ops q) (v : BitVec 8) : .interrupt v ∉ ops := by
  have hdata {c : Chip} (hc : c.expects = .mask) : c.data 0xff#8 = { c with imr := 0xff#8 } := by
    unfold Chip.data
    rw [hc]
  have hs : s = ⟨p.master.data 0xff#8, p.slave.data 0xff#8⟩ := (Option.some.inj hdisable).symm
  have hmasked : s.master.imr = 0xff#8 := by rw [hs, hdata hmaster]
  clear hdisable hs
  induction hrun with
  | nil s => exact List.not_mem_nil
  | cons hstep _ ih =>
    rename_i op ops _
    cases op with
    | raiseMaster l =>
      cases hstep
      simpa using ih hmasked
    | raiseSlave l =>
      cases hstep
      simpa using ih hmasked
    | interrupt w =>
      obtain ⟨taken, -, -, haccept, -⟩ := hstep
      obtain ⟨l, hl, -⟩ := Option.bind_eq_some_iff.mp haccept
      rw [Chip.next_masked hmasked] at hl
      cases hl

end Disabled

end Pic

end HaiirOS
