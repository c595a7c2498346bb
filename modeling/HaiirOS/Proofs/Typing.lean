import HaiirOS.Proofs.Keyboard

/-!
# From keys to the screen

`init_apic` enables the line that the keyboard's IRQ is wired to and installs the keyboard's handler for it.
So what is typed on the keyboard ends up on the screen, in order, and each byte of the keyboard is
acknowledged once.
-/

namespace HaiirOS

open Checked

/-- The handlers that `init_apic` installs. -/
inductive KernelHandler where
  | debugKeyboardHandler
deriving DecidableEq

/-- The keyboard's input and the writes to the EOI register. -/
structure Desk where
  input : KeyInput
  eois : Nat

namespace Desk

/-- A part of an interrupt, while the keyboard's byte is in its port. -/
def event (fuel : Nat) (keyboard : Keyboard) (byte : BitVec 8) (s : Desk) : IrqEvent KernelHandler → Option Desk
  | .call .debugKeyboardHandler _ => (debugKeyboardHandler fuel keyboard s.input byte).map fun input => ⟨input, s.eois⟩
  | .eoi => some ⟨s.input, s.eois + 1⟩

/-- The interrupt with this vector, while the keyboard's byte is in its port. -/
def interrupt (depth fuel : Nat) (keyboard : Keyboard) (t : IoApics KernelHandler) (vector : BitVec 8) (s : Desk)
    (byte : BitVec 8) : Option Desk :=
  match t.apicInterruptHandler depth vector with
  | .ok events => events.foldlM (event fuel keyboard byte) s
  | .error _ => none

end Desk

section Typing

variable {depth fuel : Nat} {keyboard : Keyboard} {t : IoApics KernelHandler} {vector byte : BitVec 8} {s : Desk}

lemma desk_interrupt (h : t.apicInterruptHandler depth vector = .ok [.call .debugKeyboardHandler 0#64, .eoi]) :
    s.interrupt depth fuel keyboard t vector byte =
      (debugKeyboardHandler fuel keyboard s.input byte).map fun input => ⟨input, s.eois + 1⟩ := by
  rw [Desk.interrupt, h]
  simp only [List.foldlM_cons, List.foldlM_nil, Desk.event]
  cases debugKeyboardHandler fuel keyboard s.input byte <;> rfl

/-- A run of such interrupts is a run of the handler, and as many acknowledgements. -/
lemma desk_interrupts (h : t.apicInterruptHandler depth vector = .ok [.call .debugKeyboardHandler 0#64, .eoi])
    (bytes : List (BitVec 8)) (s : Desk) : bytes.foldlM (Desk.interrupt depth fuel keyboard t vector) s =
      (bytes.foldlM (debugKeyboardHandler fuel keyboard) s.input).map fun input => ⟨input, s.eois + bytes.length⟩ := by
  induction bytes generalizing s with
  | nil => rfl
  | cons byte bytes ih =>
    rw [List.foldlM_cons, List.foldlM_cons, desk_interrupt h]
    cases debugKeyboardHandler fuel keyboard s.input byte with
    | none => rfl
    | some input =>
      change bytes.foldlM (Desk.interrupt depth fuel keyboard t vector) ⟨input, s.eois + 1⟩ = _
      rw [ih, List.length_cons, Nat.add_right_comm, ← Nat.add_assoc]
      rfl

variable {madt : Madt} {es : List MadtEntry} {regs : BitVec 32 → BitVec 8 → BitVec 32}

namespace IoApics

lemma SameTables.of_reserve {s s' : IoApics KernelHandler} {v : BitVec 8} (h : s.reserveIoInterrupt v = .ok s') :
    SameTables s s' := by
  rw [reserve_eq] at h
  by_cases hv : v.toNat < ioVectorCount
  · rw [if_pos hv] at h
    cases h
    exact ⟨rfl, rfl, rfl⟩
  · rw [if_neg hv] at h
    cases h

/-- The last call of `init_apic`. -/
def keyboardCall : DriverCall KernelHandler := ⟨1#8, .debugKeyboardHandler, 0#64⟩

/-- After `init_apic` the keyboard's handler runs for the interrupts on the line that the keyboard is wired to. -/
lemma keyboard_dispatched (h : IsaTable madt es regs)
    (hfree : ∀ o ∈ overridesOf es, o.globalSystemInt.setWidth 8 ≠ 1#8) {localApicId : BitVec 8} {bootFuel : Nat}
    (hinit : (blank regs).initApic madt localApicId KernelHandler.debugKeyboardHandler bootFuel = .ok t) :
    t.apicInterruptHandler 2 (interruptBase + gsiOf (overridesOf es) 1#8) =
      .ok [.call .debugKeyboardHandler 0#64, .eoi] := by
  obtain ⟨s1, hs1, hinit⟩ := bind_eq_ok.mp hinit
  obtain ⟨s2, hs2, hinit⟩ := bind_eq_ok.mp hinit
  obtain ⟨s3, hs3, hinit⟩ := bind_eq_ok.mp hinit
  obtain ⟨⟨r, t'⟩, hinstall, hinit⟩ := bind_eq_ok.mp hinit
  have hret : t' = t := Except.ok.inj hinit
  rw [hret] at hinstall
  -- the tables behind `init_io_apics` hold the overrides
  have hs1 := initIoApics_mono hs1 (Nat.le_max_left bootFuel (es.length + 1))
  obtain ⟨u, hu, hs1⟩ := bind_eq_ok.mp hs1
  obtain ⟨v, hv, hs1⟩ := bind_eq_ok.mp hs1
  obtain ⟨-, -, -, v', hv', hrouted, -⟩ := h.overrides_entered (by omega) hu
  obtain rfl := Except.ok.inj (hv.symm.trans hv')
  have hrouted1 := (foldlM_initEntries_sameTables hs1).routed hrouted
  have hrouted3 := ((SameTables.of_reserve hs2).trans (SameTables.of_reserve hs3)).routed hrouted1
  have hempty : s3.SlotEmpty 1#8 := by
    unfold SlotEmpty
    rw [hrouted3.noHandler 1#8 hfree]
    exact ⟨rfl, rfl, rfl⟩
  have hr : r = true := by
    obtain ⟨-, -, hfull⟩ | ⟨hr, -⟩ := install_cases hinstall
    · exact absurd hempty (hfull.resolve_left (by decide))
    · exact hr
  have hall : s3.installAll [keyboardCall] = .ok (true, t) := by
    rw [installAll, keyboardCall, hinstall, hr]
    rfl
  obtain ⟨hslots, hothers⟩ := installAll_ok hall (List.pairwise_singleton _ _)
  have honly : ∀ c ∈ [keyboardCall], c = keyboardCall := fun c hc => List.mem_singleton.mp hc
  have hgsi : ∀ c ∈ [keyboardCall], ∀ o ∈ overridesOf es, o.globalSystemInt.setWidth 8 ≠ c.irq := by
    intro c hc o ho
    rw [honly c hc]
    exact hfree o ho
  have hisa : ∀ c ∈ [keyboardCall], c.irq.toNat < isaInterruptCount := by
    intro c hc
    rw [honly c hc]
    decide
  have hdispatch := dispatch_driver hrouted3 h.isa hgsi hisa (fun c hc => (hslots c hc).2) hothers
    (List.mem_singleton_self keyboardCall)
  exact hdispatch

/-- After `init_apic`, as long as no override's target is GSI 1: the interrupts for the keys that are typed print
the characters of the keys that go down, in order, and acknowledge each byte once. -/
theorem keys_reach_screen (h : IsaTable madt es regs)
    (hfree : ∀ o ∈ overridesOf es, o.globalSystemInt.setWidth 8 ≠ 1#8) {localApicId : BitVec 8} {bootFuel : Nat}
    (hinit : (blank regs).initApic madt localApicId KernelHandler.debugKeyboardHandler bootFuel = .ok t)
    (keyboard : Keyboard) (keys : List KeyEvent) (console : Console) (eois : Nat) :
    (keys.flatMap KeyEvent.bytes).foldlM (Desk.interrupt 2 fuel keyboard t (interruptBase + gsiOf (overridesOf es) 1#8))
      ⟨⟨0#8, console⟩, eois⟩ =
      ((keyboard.typed keys).foldlM (Console.echo fuel) console).map fun console =>
        ⟨⟨0#8, console⟩, eois + (keys.flatMap KeyEvent.bytes).length⟩ := by
  rw [desk_interrupts (keyboard_dispatched h hfree hinit), handler_events, Option.map_map]
  rfl

lemma pc_keyboard_installed : ∃ t, (blank pcRegs).initApic pcMadt 0#8 KernelHandler.debugKeyboardHandler 4 = .ok t := by
  have hok : ((blank pcRegs).initApic pcMadt 0#8 KernelHandler.debugKeyboardHandler 4).toBool = true := by decide +kernel
  cases h : (blank pcRegs).initApic pcMadt 0#8 KernelHandler.debugKeyboardHandler 4 with
  | ok t => exact ⟨t, rfl⟩
  | error e =>
    rw [h] at hok
    cases hok

lemma pc_keyboard_free : ∀ o ∈ overridesOf pcEntries, o.globalSystemInt.setWidth 8 ≠ 1#8 := by decide

theorem pc_keys_reach_screen : ∃ t, (blank pcRegs).initApic pcMadt 0#8 KernelHandler.debugKeyboardHandler 4 = .ok t ∧
    ∀ console : Console, ((keyA :: slashAfterA).flatMap KeyEvent.bytes).foldlM
      (Desk.interrupt 2 0 qwertz t (interruptBase + gsiOf (overridesOf pcEntries) 1#8)) ⟨⟨0#8, console⟩, 0⟩ =
      ([0x41#8, 0x2f#8].foldlM (Console.echo 0) console).map fun console => ⟨⟨0#8, console⟩, 4⟩ := by
  obtain ⟨t, ht⟩ := pc_keyboard_installed
  have htyped : qwertz.typed (keyA :: slashAfterA) = [0x41#8, 0x2f#8] := by decide
  refine ⟨t, ht, fun console => ?_⟩
  rw [keys_reach_screen pcTable pc_keyboard_free ht qwertz (keyA :: slashAfterA) console 0, htyped]
  rfl

end IoApics

end Typing

end HaiirOS
