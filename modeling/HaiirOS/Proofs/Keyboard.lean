import HaiirOS.Io.Keyboard
import HaiirOS.Proofs.IrqRouting

/-!
# From keys to characters

A keyboard sends a key as the byte of its number, with bit 7 set when the key goes up, and with 0xe0
in front for the keys outside of the main block. The handler keeps in `seq` that it has read 0xe0. It
prints the character of each key that goes down, in order, and one byte other than 0xe0 brings it back
into step, whatever was read before.
-/

namespace HaiirOS

open Checked

/-- A key that goes up or down, by its number. -/
structure KeyEvent where
  extended : Bool
  code : BitVec 8
  released : Bool
  code_pos : 0#8 < code
  code_lt : code < 0x60#8

namespace KeyEvent

/-- What the keyboard sends. -/
def bytes (e : KeyEvent) : List (BitVec 8) :=
  (if e.extended then [0xe0#8] else []) ++ [if e.released then e.code + 0x80#8 else e.code]

/-- The index of the key in the layout. -/
def index (e : KeyEvent) : BitVec 8 := if e.extended then e.code + 0x80#8 else e.code

end KeyEvent

/-- The characters of the keys that go down. -/
def Keyboard.typed (keyboard : Keyboard) (es : List KeyEvent) : List (BitVec 8) :=
  (es.filter fun e => !e.released).map fun e => keyboard.scancodeToAscii e.index

section Decoding

variable {fuel : Nat} {keyboard : Keyboard} {s t : KeyInput} {e : KeyEvent} {b : BitVec 8}

lemma handler_prefix : debugKeyboardHandler fuel keyboard s 0xe0#8 = some { s with seq := 1#8 } := if_pos rfl

lemma KeyEvent.last_ne (e : KeyEvent) : (if e.released then e.code + 0x80#8 else e.code) ≠ 0xe0#8 := by
  have hlt := e.code_lt
  intro heq
  cases hr : e.released
  · rw [hr, if_neg Bool.false_ne_true] at heq
    rw [heq] at hlt
    exact absurd hlt (by decide)
  · rw [hr, if_pos rfl] at heq
    have hcode : e.code = 0x60#8 := by
      rw [← BitVec.add_sub_cancel e.code 0x80#8, heq]
      rfl
    rw [hcode] at hlt
    exact absurd hlt (by decide)

lemma KeyEvent.released_iff (e : KeyEvent) :
    (if e.released then e.code + 0x80#8 else e.code) > 0x80#8 ↔ e.released = true := by
  have hlt := e.code_lt
  have hpos := e.code_pos
  simp only [gt_iff_lt, BitVec.lt_def] at hlt hpos ⊢
  cases hr : e.released
  · rw [if_neg Bool.false_ne_true]
    apply iff_of_false _ Bool.false_ne_true
    change e.code.toNat < 96 at hlt
    change ¬ 128 < e.code.toNat
    omega
  · rw [if_pos rfl]
    apply iff_of_true _ rfl
    change 0 < e.code.toNat at hpos
    change e.code.toNat < 96 at hlt
    rw [BitVec.toNat_add]
    change 128 < (e.code.toNat + 128) % 256
    omega

lemma handler_eq (hb : b ≠ 0xe0#8) : debugKeyboardHandler fuel keyboard s b =
    (if b > 0x80#8 then some s.console
      else s.console.echo fuel (keyboard.scancodeToAscii (if s.seq = 1#8 then b + 0x80#8 else b))).map
      (KeyInput.mk (if s.seq = 1#8 then 0#8 else s.seq)) := by
  unfold debugKeyboardHandler
  rw [if_neg hb]
  by_cases hup : b > 0x80#8 <;> by_cases h1 : s.seq = 1#8 <;> simp [hup, h1]

/-- The last byte of a key, where `seq` says if 0xe0 was in front. -/
lemma handler_key (fuel : Nat) (keyboard : Keyboard) (hseq : s.seq = if e.extended then 1#8 else 0#8) :
    debugKeyboardHandler fuel keyboard s (if e.released then e.code + 0x80#8 else e.code) =
      (if e.released then some s.console else s.console.echo fuel (keyboard.scancodeToAscii e.index)).map
        (KeyInput.mk 0#8) := by
  have hne : (0#8 : BitVec 8) ≠ 1#8 := by decide
  rw [handler_eq e.last_ne, KeyEvent.index]
  simp only [e.released_iff]
  cases hx : e.extended with
  | false =>
    rw [hx, if_neg Bool.false_ne_true] at hseq
    rw [hseq, if_neg hne, if_neg hne, if_neg Bool.false_ne_true]
    cases e.released with
    | false => simp only [Bool.false_eq_true, if_false]
    | true => simp only [if_true]
  | true =>
    rw [hx, if_pos rfl] at hseq
    rw [hseq, if_pos rfl, if_pos rfl, if_pos rfl]
    cases e.released with
    | false => simp only [Bool.false_eq_true, if_false]
    | true => simp only [if_true]

lemma handler_event (c : Console) :
    e.bytes.foldlM (debugKeyboardHandler fuel keyboard) ⟨0#8, c⟩ =
      (if e.released then some c else c.echo fuel (keyboard.scancodeToAscii e.index)).map (KeyInput.mk 0#8) := by
  unfold KeyEvent.bytes
  cases he : e.extended with
  | false =>
    have hseq : (⟨0#8, c⟩ : KeyInput).seq = if e.extended then 1#8 else 0#8 := by
      rw [he]
      rfl
    have hkey := handler_key fuel keyboard hseq
    simp only [Bool.false_eq_true, if_false, List.nil_append, List.foldlM_cons, List.foldlM_nil, hkey]
    exact bind_pure _
  | true =>
    have hseq : (⟨1#8, c⟩ : KeyInput).seq = if e.extended then 1#8 else 0#8 := by
      rw [he]
      rfl
    have hkey := handler_key fuel keyboard hseq
    simp only [if_true, List.cons_append, List.nil_append, List.foldlM_cons, List.foldlM_nil, handler_prefix]
    change (debugKeyboardHandler fuel keyboard ⟨1#8, c⟩ _ >>= pure) = _
    rw [hkey]
    exact bind_pure _

lemma handler_events (es : List KeyEvent) (c : Console) :
    (es.flatMap KeyEvent.bytes).foldlM (debugKeyboardHandler fuel keyboard) ⟨0#8, c⟩ =
      ((keyboard.typed es).foldlM (Console.echo fuel) c).map (KeyInput.mk 0#8) := by
  induction es generalizing c with
  | nil => rfl
  | cons e es ih =>
    rw [List.flatMap_cons, List.foldlM_append, handler_event]
    unfold Keyboard.typed at ih ⊢
    cases hr : e.released with
    | true =>
      rw [List.filter_cons_of_neg (by simp [hr]), if_pos rfl]
      exact ih c
    | false =>
      rw [List.filter_cons_of_pos (by simp [hr]), if_neg Bool.false_ne_true, List.map_cons, List.foldlM_cons]
      cases c.echo fuel (keyboard.scancodeToAscii e.index) with
      | none => rfl
      | some d => exact ih d

/-- Behind 0xe0 and a byte other than that, the handler is in step. -/
lemma handler_inStep (hs : s.seq = 0#8 ∨ s.seq = 1#8) (h : debugKeyboardHandler fuel keyboard s b = some t) :
    (t.seq = 0#8 ∨ t.seq = 1#8) ∧ (b ≠ 0xe0#8 → t.seq = 0#8) := by
  by_cases hb : b = 0xe0#8
  · rw [hb, handler_prefix] at h
    cases h
    exact ⟨Or.inr rfl, fun hne => absurd hb hne⟩
  · rw [handler_eq hb] at h
    obtain ⟨c, -, rfl⟩ := Option.map_eq_some_iff.mp h
    have hseq : (if s.seq = 1#8 then 0#8 else s.seq) = 0#8 := by
      by_cases h1 : s.seq = 1#8
      · exact if_pos h1
      · rw [if_neg h1]
        exact hs.resolve_right h1
    exact ⟨Or.inl hseq, fun _ => hseq⟩

lemma handler_run_inStep {noise : List (BitVec 8)} (hlast : noise.getLast? ≠ some 0xe0#8) (hs : s.seq = 0#8)
    (h : noise.foldlM (debugKeyboardHandler fuel keyboard) s = some t) : t.seq = 0#8 := by
  have hbit {l : List (BitVec 8)} {u v : KeyInput} (hu : u.seq = 0#8 ∨ u.seq = 1#8)
      (hv : l.foldlM (debugKeyboardHandler fuel keyboard) u = some v) : v.seq = 0#8 ∨ v.seq = 1#8 := by
    induction l generalizing u with
    | nil =>
      cases hv
      exact hu
    | cons b l ih =>
      rw [List.foldlM_cons] at hv
      obtain ⟨w, hw, hv⟩ := Option.bind_eq_some_iff.mp hv
      exact ih (handler_inStep hu hw).1 hv
  obtain rfl | ⟨l, b, rfl⟩ := noise.eq_nil_or_concat'
  · cases h
    exact hs
  · rw [List.foldlM_append] at h
    obtain ⟨u, hu, h⟩ := Option.bind_eq_some_iff.mp h
    rw [List.foldlM_cons] at h
    obtain ⟨v, hv, h⟩ := Option.bind_eq_some_iff.mp h
    cases h
    rw [List.getLast?_append] at hlast
    exact (handler_inStep (hbit (Or.inl hs) hu) hv).2 fun hb => hlast (by rw [hb]; rfl)

/-- Behind any bytes that do not end in 0xe0, the handler prints the characters of the keys that go
down, in order, and is in step again. -/
theorem keys_decoded {fuel : Nat} {keyboard : Keyboard} {s : KeyInput} (hs : s.seq = 0#8) {noise : List (BitVec 8)}
    (hlast : noise.getLast? ≠ some 0xe0#8) (es : List KeyEvent) :
    (noise ++ es.flatMap KeyEvent.bytes).foldlM (debugKeyboardHandler fuel keyboard) s =
      (noise.foldlM (debugKeyboardHandler fuel keyboard) s).bind fun t =>
        ((keyboard.typed es).foldlM (Console.echo fuel) t.console).map (KeyInput.mk 0#8) := by
  rw [List.foldlM_append]
  cases hnoise : noise.foldlM (debugKeyboardHandler fuel keyboard) s with
  | none => rfl
  | some t =>
    obtain ⟨seq, c⟩ := t
    obtain rfl : seq = 0#8 := handler_run_inStep hlast hs hnoise
    exact handler_events es c

/-- The layout that `kernel_main` selects. -/
def qwertz : Keyboard := Keyboard.zero.selectKeyboardLayout .qwertzLayout

/-- The key A goes down. -/
def keyA : KeyEvent := ⟨false, 0x1e#8, false, by decide, by decide⟩

/-- The key A goes up, and the slash of the number pad goes down. -/
def slashAfterA : List KeyEvent := [⟨false, 0x1e#8, true, by decide, by decide⟩, ⟨true, 0x35#8, false, by decide, by decide⟩]

/-- Behind the end of a key that went up, the keys print `A/` on an empty screen. -/
theorem keys_decoded_slash : (([0x9c#8] ++ (keyA :: slashAfterA).flatMap KeyEvent.bytes).foldlM
    (debugKeyboardHandler 0 qwertz) ⟨0#8, 0#8, 0#8, 0x0f#8, fun _ => 0#16⟩).map
      (fun t => (t.seq, t.console.buffer 0, t.console.buffer 1)) = some (0#8, 0x341#16, 0x32f#16) := by
  rw [keys_decoded rfl (by decide)]
  decide

end Decoding

end HaiirOS
