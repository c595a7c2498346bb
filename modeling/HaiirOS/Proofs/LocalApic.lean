import HaiirOS.Lib.LocalApic
import HaiirOS.Proofs.Idt
import HaiirOS.Proofs.IrqTables

/-!
# Interrupts by way of the local APIC

The wrappers end each interrupt once, so that nothing is in service between two handlers. The handler of the local
APIC's error interrupt ends none: behind one of these no interrupt gets through any more. A spurious interrupt is not
in service, and its handler has nothing to end.
-/

namespace HaiirOS

open X86 (LocalApic)
open Runs Checked

/-- What a handler makes happen. -/
def IdtHandler.events {H : Type} (tables : IoApics H) (depth : Nat) : IdtHandler → Except Stop (List (IrqEvent H))
  | .apicInterruptHandlerWrapper v => tables.apicInterruptHandler depth v
  | _ => .ok []

/-- The calls of `apic_eoi` among the events. -/
def IrqEvent.acknowledge {H : Type} (events : List (IrqEvent H)) (a : LocalApic) : LocalApic :=
  events.foldl (fun a event => match event with
    | .eoi => a.eoi
    | .call _ _ => a) a

structure ApicSystem (H : Type) where
  tables : IoApics H
  apic : LocalApic

/-- A call on the tables, a request for one of the vectors from 32 to 254, an interrupt of the processor, or a spurious
one on the vector of the SVR. -/
inductive ApicOp (H : Type) where
  | table (op : IoApics.TableOp H)
  | request (vector : BitVec 8)
  | interrupt (vector : BitVec 8)
  | spurious

namespace ApicSystem

variable {H : Type} {s t u : ApicSystem H} {v : BitVec 8} {ops : List (ApicOp H)}

/-- The vector that `init_spurious_interrupts` puts into the SVR. -/
def spuriousVector : BitVec 8 := 255#8

/-- For an interrupt the handler behind the gate of the vector runs with interrupts off. The local APIC delivers a
spurious interrupt without a request, and it does not enter service. -/
def step (s : ApicSystem H) (op : ApicOp H) (t : ApicSystem H) : Prop :=
  match op with
  | .table op => IoApics.tableStep s.tables op t.tables ∧ t.apic = s.apic
  | .request v => 32 ≤ v.toNat ∧ v ≠ spuriousVector ∧ t = { s with apic := s.apic.request v }
  | .interrupt v => s.apic.Next v ∧ ∃ handler ist depth events, Idt.handlerAt true v = some (handler, ist) ∧
      handler.events s.tables depth = .ok events ∧ t = { s with apic := IrqEvent.acknowledge events (s.apic.take v) }
  | .spurious => ∃ handler ist depth events, Idt.handlerAt true spuriousVector = some (handler, ist) ∧
      handler.events s.tables depth = .ok events ∧ t = { s with apic := IrqEvent.acknowledge events s.apic }

lemma exec_acknowledge {tables : IoApics H} {depth : Nat} {events : List (IrqEvent H)}
    (h : tables.execIoHandler depth v = .ok events) (a : LocalApic) : IrqEvent.acknowledge events a = a := by
  induction depth generalizing v with
  | zero => cases h
  | succ depth ih =>
    rw [IoApics.execIoHandler] at h
    by_cases hv : v.toNat ≥ ioVectorCount
    · rw [if_pos hv] at h
      cases h
    · rw [if_neg hv] at h
      cases hfunc : (tables.handlers v).func with
      | none =>
        rw [hfunc] at h
        cases h
      | some func =>
        rw [hfunc] at h
        cases func with
        | ioHandlerSourceOverride => exact ih h
        | driver handler =>
          cases h
          rfl

lemma wrapper_acknowledge {tables : IoApics H} {depth : Nat} {events : List (IrqEvent H)} (hv : 32 ≤ v.toNat)
    (h : (IdtHandler.apicInterruptHandlerWrapper v).events tables depth = .ok events) (a : LocalApic) :
    IrqEvent.acknowledge events a = a.eoi := by
  have hge : ¬ v < interruptBase := BitVec.not_lt.mpr hv
  change tables.apicInterruptHandler depth v = .ok events at h
  rw [IoApics.apicInterruptHandler, if_neg hge] at h
  obtain ⟨calls, hcalls, h⟩ := bind_eq_ok.mp h
  cases h
  unfold IrqEvent.acknowledge
  rw [List.foldl_append]
  exact congrArg LocalApic.eoi (exec_acknowledge hcalls a)

/-- The vector of the local APIC's error interrupt. -/
def Own (v : BitVec 8) : Prop := v = 254#8

lemma handlerAt_cases (hv : 32 ≤ v.toNat) (hspurious : v ≠ spuriousVector) {handler : IdtHandler} {ist : BitVec 3}
    (h : Idt.handlerAt true v = some (handler, ist)) :
    (Own v ∧ handler = .apicErrHandler) ∨ (¬ Own v ∧ handler = .apicInterruptHandlerWrapper v) := by
  have h20 : ¬ v < 20#8 := fun hlt => absurd (BitVec.lt_def.mp hlt) (Nat.not_lt.mpr (Nat.le_trans (by decide) hv))
  unfold Idt.handlerAt at h
  rw [if_neg h20, if_neg (BitVec.not_lt.mpr hv), if_pos rfl] at h
  obtain ⟨rfl, -⟩ := Prod.mk.inj (Option.some.inj h)
  by_cases h254 : v = 254#8
  · rw [if_pos h254]
    exact .inl ⟨h254, rfl⟩
  · have h255 : v ≠ 255#8 := hspurious
    rw [if_neg h254, if_neg h255]
    exact .inr ⟨h254, rfl⟩

/-- The handler of the spurious interrupt ends nothing. -/
lemma step_spurious (h : step s .spurious t) : t = s := by
  obtain ⟨handler, ist, depth, events, hhandler, hevents, rfl⟩ := h
  have hat : Idt.handlerAt true spuriousVector = some (.apicSpuriousInterruptHandler, 0#3) := by decide
  obtain ⟨rfl, -⟩ := Prod.mk.inj (Option.some.inj (hhandler.symm.trans hat))
  cases hevents
  rfl

/-- Requests are for the vectors from 32 to 254, and nothing is in service. -/
structure Ready (s : ApicSystem H) : Prop where
  requests : ∀ w, s.apic.irr w = true → 32 ≤ w.toNat ∧ w ≠ spuriousVector
  idle : ∀ w, s.apic.isr w = false

/-- A vector of the highest class is in service. -/
def Stuck (s : ApicSystem H) : Prop := ∃ w, s.apic.isr w = true ∧ 240 ≤ w.toNat

lemma Stuck.not_next (h : s.Stuck) : ¬ s.apic.Next v := by
  intro hnext
  obtain ⟨w, hw, hge⟩ := h
  have hlevel := hnext.above w hw
  have hlt := v.isLt
  unfold LocalApic.level at hlevel
  omega

lemma Stuck.after {op : ApicOp H} (h : s.Stuck) (hstep : step s op t) : t.Stuck ∧ ∀ v, op ≠ .interrupt v := by
  cases op with
  | table op =>
    refine ⟨?_, fun v heq => absurd heq (by simp)⟩
    unfold Stuck
    rw [hstep.2]
    exact h
  | request v =>
    obtain ⟨-, -, rfl⟩ := hstep
    exact ⟨h, fun v heq => absurd heq (by simp)⟩
  | interrupt v => exact absurd hstep.1 h.not_next
  | spurious =>
    obtain rfl := step_spurious hstep
    exact ⟨h, fun v heq => absurd heq (by simp)⟩

lemma Stuck.run (h : s.Stuck) (hrun : Run step s ops t) (v : BitVec 8) : .interrupt v ∉ ops := by
  induction hrun with
  | nil s => exact List.not_mem_nil
  | cons hstep _ ih =>
    obtain ⟨hstuck, hop⟩ := h.after hstep
    intro hmem
    obtain heq | hmem := List.mem_cons.mp hmem
    · exact hop v heq.symm
    · exact ih hstuck hmem

/-- The step lemma: the local APIC's error interrupt is never ended, and all others leave nothing in service. -/
lemma Ready.after {op : ApicOp H} (h : s.Ready) (hstep : step s op t) :
    (∃ v, op = .interrupt v ∧ Own v ∧ t.Stuck) ∨ ((∀ v, op = .interrupt v → ¬ Own v) ∧ t.Ready) := by
  cases op with
  | table op =>
    refine .inr ⟨fun v heq => absurd heq (by simp), ?_⟩
    constructor
    · rw [hstep.2]
      exact h.requests
    · rw [hstep.2]
      exact h.idle
  | request v =>
    obtain ⟨hv, hspurious, rfl⟩ := hstep
    refine .inr ⟨fun v heq => absurd heq (by simp), fun w hw => ?_, h.idle⟩
    obtain hw | hw := Bool.or_eq_true_iff.mp hw
    · exact h.requests w hw
    · rw [of_decide_eq_true hw]
      exact ⟨hv, hspurious⟩
  | interrupt v =>
    obtain ⟨hnext, handler, ist, depth, events, hhandler, hevents, rfl⟩ := hstep
    obtain ⟨hv, hspurious⟩ := h.requests v hnext.requested
    obtain ⟨rfl, rfl⟩ | ⟨hother, rfl⟩ := handlerAt_cases hv hspurious hhandler
    · obtain rfl : [] = events := Except.ok.inj hevents
      refine .inl ⟨254#8, rfl, rfl, 254#8, ?_, by decide⟩
      change (s.apic.isr 254#8 || decide (254#8 = 254#8)) = true
      rw [decide_eq_true rfl, Bool.or_true]
    · have hack := wrapper_acknowledge hv hevents (s.apic.take v)
      refine .inr ⟨fun w hw => ?_, fun w hw => ?_, fun w => ?_⟩
      · cases hw
        exact hother
      · rw [hack] at hw
        exact h.requests w (Bool.and_eq_true_iff.mp hw).1
      · rw [hack, LocalApic.take_eoi hnext]
        exact h.idle w
  | spurious =>
    obtain rfl := step_spurious hstep
    exact .inr ⟨fun v heq => absurd heq (by simp), h⟩

/-- As long as there is no error interrupt, nothing stays in service. -/
lemma Ready.run (h : s.Ready) (hrun : Run step s ops t) (hown : ∀ v, .interrupt v ∈ ops → ¬ Own v) : t.Ready := by
  induction hrun with
  | nil s => exact h
  | @cons s t u op ops hstep _ ih =>
    obtain ⟨v, rfl, hv, -⟩ | ⟨-, hready⟩ := h.after hstep
    · exact absurd hv (hown v List.mem_cons_self)
    · exact ih hready fun v hv => hown v (List.mem_cons_of_mem op hv)

/-- From a state with nothing in service, behind an error interrupt no request leads to an interrupt any more; until then
the processor is interrupted whenever there is a request. -/
theorem own_interrupt_is_last (h : s.Ready) (hrun : Run step s ops t) :
    (∀ pre v post, ops = pre ++ .interrupt v :: post → Own v → ∀ w, .interrupt w ∉ post) ∧
      ((∀ v, .interrupt v ∈ ops → ¬ Own v) → (∃ w, t.apic.irr w = true) → ∃ v, t.apic.Next v) := by
  constructor
  · intro pre v post hops hown w hw
    induction hrun generalizing pre with
    | nil s => exact absurd hops.symm (List.append_ne_nil_of_right_ne_nil pre (List.cons_ne_nil _ _))
    | @cons s t u op ops hstep hrest ih =>
      obtain ⟨x, hx, -, hstuck⟩ | ⟨hother, hready⟩ := h.after hstep
      · -- the run ends with this interrupt, so that no other follows in the rest
        have hrest := Stuck.run hstuck hrest
        cases pre with
        | nil =>
          obtain ⟨-, rfl⟩ := List.cons.inj hops
          exact hrest w hw
        | cons a pre =>
          obtain ⟨-, rfl⟩ := List.cons.inj hops
          exact hrest v (List.mem_append_right pre List.mem_cons_self)
      · cases pre with
        | nil =>
          obtain ⟨rfl, -⟩ := List.cons.inj hops
          exact hother v rfl hown
        | cons a pre =>
          obtain ⟨-, rfl⟩ := List.cons.inj hops
          exact ih hready pre rfl
  · intro hown hrequest
    exact LocalApic.exists_next (h.run hrun hown).idle hrequest

/-- Nothing is requested or in service. -/
def quiet : LocalApic := ⟨fun _ => false, fun _ => false⟩

/-- On the PC a second interrupt gets through behind the keyboard's and a spurious one. -/
theorem interrupt_behind_keyboard : ∃ t : ApicSystem Unit,
    Run step ⟨IoApics.pcApicState, quiet⟩ [.request 33#8, .interrupt 33#8, .spurious, .request 34#8] t ∧ ∃ v, t.apic.Next v := by
  obtain ⟨events, hevents⟩ : ∃ events, IoApics.pcApicState.apicInterruptHandler 2 33#8 = .ok events := by
    have hok : (IoApics.pcApicState.apicInterruptHandler 2 33#8).toBool = true := by decide +kernel
    cases h : IoApics.pcApicState.apicInterruptHandler 2 33#8 with
    | ok events => exact ⟨events, rfl⟩
    | error e =>
      rw [h] at hok
      cases hok
  have hnext : (quiet.request 33#8).Next 33#8 := by
    refine ⟨rfl, fun w hw => absurd hw Bool.false_ne_true, fun w hw => ?_⟩
    obtain rfl : w = 33#8 := of_decide_eq_true hw
    exact BitVec.le_refl _
  have hrun : Run step ⟨IoApics.pcApicState, quiet⟩ [.request 33#8, .interrupt 33#8, .spurious, .request 34#8] _ :=
    .cons ⟨by decide, by decide, rfl⟩
      (.cons ⟨hnext, .apicInterruptHandlerWrapper 33#8, 0#3, 2, events, by decide, hevents, rfl⟩
        (.cons ⟨.apicSpuriousInterruptHandler, 0#3, 0, [], by decide, rfl, rfl⟩ (.cons ⟨by decide, by decide, rfl⟩ (.nil _))))
  have hready : Ready ⟨IoApics.pcApicState, quiet⟩ := ⟨fun w hw => absurd hw Bool.false_ne_true, fun _ => rfl⟩
  refine ⟨_, hrun, (own_interrupt_is_last hready hrun).2 (fun v hv => ?_) ⟨34#8, ?_⟩⟩
  · simp at hv
    rw [hv]
    unfold Own
    decide
  · change (_ || decide (34#8 = 34#8)) = true
    rw [decide_eq_true rfl, Bool.or_true]

end ApicSystem

end HaiirOS
