import Mathlib.Algebra.Group.Nat.Defs
import Mathlib.Data.List.Basic
import Mathlib.Data.Nat.Find
import Mathlib.Logic.Function.Basic
import Mathlib.Tactic.SplitIfs

/-!
# Straight-line x86-64 code

The general registers, memory by bytes behind a page map, and the instructions with which code
saves and restores registers. An access to a page that is not mapped is a fault and stops the
code. Translations do not change while the code runs, and the code is not itself in memory.
-/

namespace X86

/-- Physical memory, by bytes. -/
abbrev Bytes := Nat → BitVec 8

/-- The frame of each virtual page that the code may access. -/
abbrev PageMap := Nat → Option Nat

inductive Reg where
  | rax | rbx | rcx | rdx | rsi | rdi | rbp | rsp
  | r8 | r9 | r10 | r11 | r12 | r13 | r14 | r15
deriving DecidableEq

/-! ### Words in memory -/

/-- The physical address of a virtual one, none on a fault. -/
def phys (pm : PageMap) (v : BitVec 64) : Option Nat :=
  (pm (v.toNat / 4096)).map fun f => f * 4096 + v.toNat % 4096

/-- Byte `i` of a word, the lowest first. -/
def byteOf (w : BitVec 64) (i : Nat) : BitVec 8 := BitVec.ofNat 8 (w.toNat / 2 ^ (8 * i))

/-- The word of eight bytes, the lowest first. -/
def ofBytes (b : Nat → BitVec 8) : BitVec 64 :=
  BitVec.ofNat 64 ((b 0).toNat + 2 ^ 8 * (b 1).toNat + 2 ^ 16 * (b 2).toNat + 2 ^ 24 * (b 3).toNat +
    2 ^ 32 * (b 4).toNat + 2 ^ 40 * (b 5).toNat + 2 ^ 48 * (b 6).toNat + 2 ^ 56 * (b 7).toNat)

/-- All eight bytes of the word at `v` can be accessed. -/
def Accessible (pm : PageMap) (v : BitVec 64) : Prop :=
  ∀ i < 8, (phys pm (v + BitVec.ofNat 64 i)).isSome

instance (pm : PageMap) (v : BitVec 64) : Decidable (Accessible pm v) :=
  inferInstanceAs (Decidable (∀ i < 8, _))

/-- Byte `i` of the word at `v`. -/
def byteAt (pm : PageMap) (mem : Bytes) (v : BitVec 64) (i : Nat) : BitVec 8 :=
  mem ((phys pm (v + BitVec.ofNat 64 i)).getD 0)

/-- The word at `v`. -/
def word (pm : PageMap) (mem : Bytes) (v : BitVec 64) : BitVec 64 := ofBytes (byteAt pm mem v)

/-- Memory after a write of `w` at `v`. -/
def poke (pm : PageMap) (mem : Bytes) (v w : BitVec 64) : Bytes := fun a =>
  match (List.range 8).find? fun i => phys pm (v + BitVec.ofNat 64 i) = some a with
  | some i => byteOf w i
  | none => mem a

/-! ### Instructions -/

/-- The processor and memory. `rip` is where control went last, and `written` the addresses of the
words written, newest first. -/
structure State where
  regs : Reg → BitVec 64
  rip : BitVec 64
  interrupts : Bool
  mem : Bytes
  written : List (BitVec 64)

def State.set (s : State) (r : Reg) (w : BitVec 64) : State :=
  { s with regs := Function.update s.regs r w }

/-- `mov [v], w` -/
def State.store (pm : PageMap) (s : State) (v w : BitVec 64) : Option State :=
  if Accessible pm v then some { s with mem := poke pm s.mem v w, written := v :: s.written } else none

/-- The push of a value. -/
def State.pushWord (pm : PageMap) (s : State) (w : BitVec 64) : Option State :=
  (s.store pm (s.regs .rsp - 8#64) w).map fun t => t.set .rsp (s.regs .rsp - 8#64)

inductive Instr where
  | push (r : Reg)
  | pop (r : Reg)
  | mov (dst src : Reg)
  | movImm (dst : Reg) (w : BitVec 64)
  /-- `mov dst, [base + index * 8]` -/
  | load (dst : Reg) (base : BitVec 64) (index : Reg)
  | cli
  | sti
  /-- `call r`, with the address of the next instruction -/
  | call (r : Reg) (next : BitVec 64)
  | sysret

/-- One instruction, none on a fault. -/
def step (pm : PageMap) (s : State) : Instr → Option State
  | .push r => s.pushWord pm (s.regs r)
  | .pop r =>
    if Accessible pm (s.regs .rsp) then
      some ((s.set .rsp (s.regs .rsp + 8#64)).set r (word pm s.mem (s.regs .rsp)))
    else none
  | .mov dst src => some (s.set dst (s.regs src))
  | .movImm dst w => some (s.set dst w)
  | .load dst base index =>
    if Accessible pm (base + s.regs index * 8#64) then
      some (s.set dst (word pm s.mem (base + s.regs index * 8#64)))
    else none
  | .cli => some { s with interrupts := false }
  | .sti => some { s with interrupts := true }
  | .call r next => (s.pushWord pm next).map fun t => { t with rip := s.regs r }
  | .sysret => some { s with rip := s.regs .rcx, interrupts := (s.regs .r11).getLsbD 9 }

/-- Instructions one after the other: the state at the end or before the first fault, and the
instructions that are left. -/
def exec (pm : PageMap) : List Instr → State → State × List Instr
  | [], s => (s, [])
  | i :: is, s =>
    match step pm s i with
    | some t => exec pm is t
    | none => (s, i :: is)

section

variable {pm : PageMap} {s t : State} {i : Instr} {is : List Instr}

lemma exec_cons (h : step pm s i = some t) : exec pm (i :: is) s = exec pm is t := by
  rw [exec, h]

lemma exec_fault (h : step pm s i = none) : exec pm (i :: is) s = (s, i :: is) := by
  rw [exec, h]

/-- The state after a push of `w`. -/
def State.pushedWord (pm : PageMap) (s : State) (w : BitVec 64) : State :=
  { s with
    regs := Function.update s.regs .rsp (s.regs .rsp - 8#64)
    mem := poke pm s.mem (s.regs .rsp - 8#64) w
    written := (s.regs .rsp - 8#64) :: s.written }

lemma pushWord_eq {w : BitVec 64} (h : Accessible pm (s.regs .rsp - 8#64)) :
    s.pushWord pm w = some (s.pushedWord pm w) := by
  rw [State.pushWord, State.store, if_pos h]
  rfl

lemma step_push {r : Reg} (h : Accessible pm (s.regs .rsp - 8#64)) :
    step pm s (.push r) = some (s.pushedWord pm (s.regs r)) := pushWord_eq h

lemma step_push_fault {r : Reg} (h : ¬ Accessible pm (s.regs .rsp - 8#64)) :
    step pm s (.push r) = none := by
  rw [step, State.pushWord, State.store, if_neg h]
  rfl

end

/-! ### Bytes and words -/

section

variable {pm : PageMap} {mem mem' : Bytes} {v v' w top : BitVec 64} {a i j : Nat}

@[simp] lemma ofBytes_byteOf (w : BitVec 64) : ofBytes (byteOf w) = w := by
  apply BitVec.eq_of_toNat_eq
  have hlt := w.isLt
  simp only [ofBytes, byteOf, BitVec.toNat_ofNat]
  omega

lemma byteOf_ofBytes (b : Nat → BitVec 8) (hi : i < 8) : byteOf (ofBytes b) i = b i := by
  apply BitVec.eq_of_toNat_eq
  have h0 := (b 0).isLt
  have h1 := (b 1).isLt
  have h2 := (b 2).isLt
  have h3 := (b 3).isLt
  have h4 := (b 4).isLt
  have h5 := (b 5).isLt
  have h6 := (b 6).isLt
  have h7 := (b 7).isLt
  simp only [ofBytes, byteOf, BitVec.toNat_ofNat]
  obtain rfl | rfl | rfl | rfl | rfl | rfl | rfl | rfl :
    i = 0 ∨ i = 1 ∨ i = 2 ∨ i = 3 ∨ i = 4 ∨ i = 5 ∨ i = 6 ∨ i = 7 := by omega
  all_goals omega

lemma ofBytes_congr {b b' : Nat → BitVec 8} (h : ∀ i < 8, b i = b' i) : ofBytes b = ofBytes b' := by
  simp only [ofBytes, h 0 (by decide), h 1 (by decide), h 2 (by decide), h 3 (by decide),
    h 4 (by decide), h 5 (by decide), h 6 (by decide), h 7 (by decide)]

lemma word_eq_iff : word pm mem v = w ↔ ∀ i < 8, byteAt pm mem v i = byteOf w i := by
  constructor
  · rintro rfl i hi
    exact (byteOf_ofBytes _ hi).symm
  · intro h
    exact (ofBytes_congr h).trans (ofBytes_byteOf w)

lemma phys_mod (h : phys pm v = some a) : a % 4096 = v.toNat % 4096 := by
  obtain ⟨f, -, rfl⟩ := Option.map_eq_some_iff.mp h
  omega

lemma byteAt_of_phys (h : phys pm (v + BitVec.ofNat 64 i) = some a) : byteAt pm mem v i = mem a := by
  rw [byteAt, h, Option.getD_some]

lemma Accessible.phys_eq (h : Accessible pm v) (hi : i < 8) :
    ∃ a, phys pm (v + BitVec.ofNat 64 i) = some a :=
  Option.isSome_iff_exists.mp (h i hi)

lemma poke_hit (h : phys pm (v + BitVec.ofNat 64 i) = some a) (hi : i < 8) :
    poke pm mem v w a = byteOf w i := by
  have huniq (j : Nat) (hj : j < 8) (h' : phys pm (v + BitVec.ofNat 64 j) = some a) : j = i := by
    have hmod := (phys_mod h').symm.trans (phys_mod h)
    rw [BitVec.toNat_add, BitVec.toNat_add, BitVec.toNat_ofNat, BitVec.toNat_ofNat] at hmod
    omega
  rw [poke]
  cases hf : (List.range 8).find? fun i => decide (phys pm (v + BitVec.ofNat 64 i) = some a) with
  | none =>
    have hnone := List.find?_eq_none.mp hf i (List.mem_range.mpr hi)
    rw [decide_eq_true_eq] at hnone
    exact (hnone h).elim
  | some k =>
    have hk := List.find?_some (p := fun i => decide (phys pm (v + BitVec.ofNat 64 i) = some a)) hf
    have hlt := List.mem_range.mp (List.mem_of_find?_eq_some hf)
    rw [huniq k hlt (of_decide_eq_true hk)]

lemma poke_miss (h : ∀ i < 8, phys pm (v + BitVec.ofNat 64 i) ≠ some a) :
    poke pm mem v w a = mem a := by
  rw [poke]
  cases hf : (List.range 8).find? fun i => decide (phys pm (v + BitVec.ofNat 64 i) = some a) with
  | none => rfl
  | some k =>
    have hk := List.find?_some (p := fun i => decide (phys pm (v + BitVec.ofNat 64 i) = some a)) hf
    have hlt := List.mem_range.mp (List.mem_of_find?_eq_some hf)
    exact (h k hlt (of_decide_eq_true hk)).elim

/-! ### Slots below a stack pointer -/

/-- Where the push number `j` goes that starts at the stack pointer `top`. -/
def stackSlot (top : BitVec 64) (j : Nat) : BitVec 64 := top - BitVec.ofNat 64 (8 * (j + 1))

lemma stackSlot_succ (top : BitVec 64) (j : Nat) : stackSlot top (j + 1) = stackSlot (top - 8#64) j := by
  apply BitVec.eq_of_toNat_eq
  simp only [stackSlot, BitVec.toNat_sub, BitVec.toNat_ofNat]
  omega

/-- The bytes of the slots in one page's length have different addresses. -/
lemma stackSlot_phys_inj {j' i' : Nat} (hj : j < 512) (hj' : j' < 512) (hi : i < 8) (hi' : i' < 8)
    (h : phys pm (stackSlot top j + BitVec.ofNat 64 i) = some a)
    (h' : phys pm (stackSlot top j' + BitVec.ofNat 64 i') = some a) :
    j = j' ∧ i = i' := by
  have hmod := (phys_mod h).symm.trans (phys_mod h')
  simp only [stackSlot, BitVec.toNat_add, BitVec.toNat_sub, BitVec.toNat_ofNat] at hmod
  omega

/-- Memory after the pushes of `ws` from `top` down. -/
def pokeAll (pm : PageMap) (mem : Bytes) (top : BitVec 64) : List (BitVec 64) → Bytes
  | [] => mem
  | w :: ws => pokeAll pm (poke pm mem (top - 8#64) w) (top - 8#64) ws

lemma pokeAll_miss {ws : List (BitVec 64)}
    (h : ∀ j < ws.length, ∀ i < 8, phys pm (stackSlot top j + BitVec.ofNat 64 i) ≠ some a) :
    pokeAll pm mem top ws a = mem a := by
  induction ws generalizing mem top with
  | nil => rfl
  | cons w ws ih =>
    rw [pokeAll, ih, poke_miss]
    · exact h 0 (Nat.succ_pos _)
    · intro j hj i hi
      rw [← stackSlot_succ]
      exact h (j + 1) (Nat.succ_lt_succ hj) i hi

lemma pokeAll_hit {ws : List (BitVec 64)} (hlen : ws.length ≤ 512) {w : BitVec 64}
    (hw : ws[j]? = some w) (hi : i < 8)
    (h : phys pm (stackSlot top j + BitVec.ofNat 64 i) = some a) :
    pokeAll pm mem top ws a = byteOf w i := by
  induction ws generalizing mem top j with
  | nil => cases hw
  | cons u ws ih =>
    rw [List.length_cons] at hlen
    cases j with
    | zero =>
      obtain rfl : u = w := Option.some.inj hw
      rw [pokeAll, pokeAll_miss]
      · exact poke_hit h hi
      · intro k hk i' hi' h'
        rw [← stackSlot_succ] at h'
        have := (stackSlot_phys_inj (by omega) (by omega) hi hi' h h').1
        omega
    | succ j =>
      rw [stackSlot_succ] at h
      exact ih (by omega) hw h

lemma word_pokeAll_slot {ws : List (BitVec 64)} (hlen : ws.length ≤ 512)
    (hacc : Accessible pm (stackSlot top j)) (hw : ws[j]? = some w) :
    word pm (pokeAll pm mem top ws) (stackSlot top j) = w := by
  refine word_eq_iff.mpr fun i hi => ?_
  obtain ⟨a, ha⟩ := hacc.phys_eq hi
  rw [byteAt_of_phys ha]
  exact pokeAll_hit hlen hw hi ha

/-! ### Words that share bytes -/

/-- The words `w` at `v` and `w'` at `v'` agree on the bytes that they share. -/
def Agree (pm : PageMap) (v w v' w' : BitVec 64) : Prop :=
  ∀ i < 8, ∀ j < 8, phys pm (v + BitVec.ofNat 64 i) = phys pm (v' + BitVec.ofNat 64 j) →
    byteOf w i = byteOf w' j

instance (pm : PageMap) (v w v' w' : BitVec 64) : Decidable (Agree pm v w v' w') :=
  inferInstanceAs (Decidable (∀ i < 8, ∀ j < 8, _ → _))

/-- The pushes of `ws` from `top` down leave the byte `b` at `a`, where `old` says that it is there
before: those that write to `a` write `b`, and it is old when none does. -/
def PushedByte (pm : PageMap) (top : BitVec 64) (ws : List (BitVec 64)) (a : Nat) (b : BitVec 8)
    (old : Prop) : Prop :=
  (∀ j w, ws[j]? = some w → ∀ i < 8, phys pm (stackSlot top j + BitVec.ofNat 64 i) = some a →
    byteOf w i = b) ∧
  ((∀ j < ws.length, ∀ i < 8, phys pm (stackSlot top j + BitVec.ofNat 64 i) ≠ some a) → old)

lemma pokeAll_eq_iff {ws : List (BitVec 64)} {b : BitVec 8} (hlen : ws.length ≤ 512) :
    pokeAll pm mem top ws a = b ↔ PushedByte pm top ws a b (mem a = b) := by
  constructor
  · rintro rfl
    exact ⟨fun j w hw i hi h => (pokeAll_hit hlen hw hi h).symm, fun h => (pokeAll_miss h).symm⟩
  · rintro ⟨hhit, hmiss⟩
    by_cases h : ∃ j < ws.length, ∃ i < 8, phys pm (stackSlot top j + BitVec.ofNat 64 i) = some a
    · obtain ⟨j, hj, i, hi, hslot⟩ := h
      have hw : ws[j]? = some ws[j] := List.getElem?_eq_getElem hj
      rw [pokeAll_hit hlen hw hi hslot]
      exact hhit j _ hw i hi hslot
    · have hnone : ∀ j < ws.length, ∀ i < 8, phys pm (stackSlot top j + BitVec.ofNat 64 i) ≠ some a :=
        fun j hj i hi hslot => h ⟨j, hj, i, hi, hslot⟩
      rw [pokeAll_miss hnone]
      exact hmiss hnone

/-- A word survives pushes exactly when it agrees with each of them. -/
theorem word_pokeAll_eq_iff {ws : List (BitVec 64)} (hlen : ws.length ≤ 512)
    (hv : Accessible pm v) :
    word pm (pokeAll pm mem top ws) v = word pm mem v ↔
      ∀ j u, ws[j]? = some u → Agree pm (stackSlot top j) u v (word pm mem v) := by
  rw [word_eq_iff]
  constructor
  · intro h j u hu i hi i' hi' heq
    obtain ⟨a, ha⟩ := hv.phys_eq hi'
    have hbyte := h i' hi'
    rw [byteAt_of_phys ha, pokeAll_eq_iff hlen] at hbyte
    exact hbyte.1 j u hu i hi (heq.trans ha)
  · intro h i' hi'
    obtain ⟨a, ha⟩ := hv.phys_eq hi'
    rw [byteAt_of_phys ha, pokeAll_eq_iff hlen]
    refine ⟨fun j u hu i hi hslot => h j u hu i hi i' hi' (hslot.trans ha.symm), fun _ => ?_⟩
    have hold := (word_eq_iff (w := word pm mem v)).mp rfl i' hi'
    rwa [byteAt_of_phys ha] at hold

end

/-! ### Saving and restoring registers -/

/-- The state after the pushes of the registers `rs`. -/
def State.pushed (pm : PageMap) (s : State) (rs : List Reg) : State :=
  { s with
    regs := Function.update s.regs .rsp (s.regs .rsp - BitVec.ofNat 64 (8 * rs.length))
    mem := pokeAll pm s.mem (s.regs .rsp) (rs.map s.regs)
    written := ((List.range rs.length).map (stackSlot (s.regs .rsp))).reverse ++ s.written }

section

variable {pm : PageMap} {s : State} {rs : List Reg} {is : List Instr}

/-- Pushes into slots that are mapped. -/
theorem exec_pushes (hrsp : .rsp ∉ rs)
    (hmap : ∀ j < rs.length, Accessible pm (stackSlot (s.regs .rsp) j)) :
    exec pm (rs.map .push ++ is) s = exec pm is (s.pushed pm rs) := by
  induction rs generalizing s with
  | nil =>
    have hs : s.pushed pm [] = s := by
      simp [State.pushed, pokeAll]
    rw [hs]
    rfl
  | cons r rs ih =>
    obtain ⟨-, hrs⟩ := not_or.mp (List.mem_cons.not.mp hrsp)
    have h0 : Accessible pm (s.regs .rsp - 8#64) := hmap 0 (Nat.succ_pos _)
    rw [List.map_cons, List.cons_append, exec_cons (step_push h0), ih hrs]
    · have hregs (w : BitVec 64) : rs.map (Function.update s.regs .rsp w) = rs.map s.regs :=
        List.map_congr_left fun x hx => Function.update_of_ne (ne_of_mem_of_not_mem hx hrs) ..
      congr 1
      simp only [State.pushed, State.pushedWord, State.mk.injEq, Function.update_self,
        Function.update_idem, hregs, true_and]
      refine ⟨?_, rfl, ?_⟩
      · congr 1
        apply BitVec.eq_of_toNat_eq
        simp only [List.length_cons, BitVec.toNat_sub, BitVec.toNat_ofNat]
        omega
      · rw [List.length_cons, List.range_succ_eq_map, List.map_cons, List.reverse_cons,
          List.append_assoc, List.map_map]
        have hslots : (List.range rs.length).map (stackSlot (s.regs .rsp) ∘ Nat.succ) =
            (List.range rs.length).map (stackSlot (s.regs .rsp - 8#64)) :=
          List.map_congr_left fun j _ => stackSlot_succ _ j
        rw [hslots]
        rfl
    · intro j hj
      simp only [State.pushedWord, Function.update_self]
      rw [← stackSlot_succ]
      exact hmap (j + 1) (Nat.succ_lt_succ hj)

/-- Pushes up to the first slot that is not mapped. -/
theorem exec_pushes_fault {r : Reg} {rs' : List Reg} (hrsp : .rsp ∉ rs)
    (hmap : ∀ j < rs.length, Accessible pm (stackSlot (s.regs .rsp) j))
    (hfault : ¬ Accessible pm (stackSlot (s.regs .rsp) rs.length)) :
    exec pm ((rs ++ r :: rs').map .push ++ is) s = (s.pushed pm rs, (r :: rs').map .push ++ is) := by
  have hslot : (s.pushed pm rs).regs .rsp - 8#64 = stackSlot (s.regs .rsp) rs.length := by
    apply BitVec.eq_of_toNat_eq
    simp only [State.pushed, stackSlot, Function.update_self, BitVec.toNat_sub, BitVec.toNat_ofNat]
    omega
  rw [← hslot] at hfault
  rw [List.map_append, List.append_assoc, exec_pushes hrsp hmap, List.map_cons, List.cons_append]
  exact exec_fault (step_push_fault hfault)

lemma exec_pushes_stops (hrsp : .rsp ∉ rs)
    (h : ¬ ∀ j < rs.length, Accessible pm (stackSlot (s.regs .rsp) j)) :
    ∃ n < rs.length, (∀ j < n, Accessible pm (stackSlot (s.regs .rsp) j)) ∧
      ¬ Accessible pm (stackSlot (s.regs .rsp) n) ∧
      exec pm (rs.map .push ++ is) s = (s.pushed pm (rs.take n), (rs.drop n).map .push ++ is) := by
  have hex : ∃ n, n < rs.length ∧ ¬ Accessible pm (stackSlot (s.regs .rsp) n) := by
    by_contra hnone
    exact h fun j hj => by_contra fun hj' => hnone ⟨j, hj, hj'⟩
  obtain ⟨hlt, hfault⟩ := Nat.find_spec hex
  have hmap (j : Nat) (hj : j < Nat.find hex) : Accessible pm (stackSlot (s.regs .rsp) j) :=
    by_contra fun hj' => Nat.find_min hex hj ⟨Nat.lt_trans hj hlt, hj'⟩
  generalize Nat.find hex = n at hlt hfault hmap
  have hlen : (rs.take n).length = n := List.length_take_of_le (Nat.le_of_lt hlt)
  refine ⟨n, hlt, hmap, hfault, ?_⟩
  have hdrop : rs.drop n = rs[n] :: rs.drop (n + 1) := List.drop_eq_getElem_cons hlt
  have hsplit : rs = rs.take n ++ rs[n] :: rs.drop (n + 1) := by
    rw [← hdrop, List.take_append_drop]
  have hrun : exec pm ((rs.take n ++ rs[n] :: rs.drop (n + 1)).map .push ++ is) s =
      (s.pushed pm (rs.take n), (rs[n] :: rs.drop (n + 1)).map .push ++ is) :=
    exec_pushes_fault (fun hmem => hrsp (List.mem_of_mem_take hmem)) (hlen.symm ▸ hmap)
      (hlen.symm ▸ hfault)
  rwa [← hsplit, ← hdrop] at hrun

lemma exec_pushes_slots {t : State} (h : exec pm (rs.map .push ++ is) s = (t, [])) :
    ∀ j < rs.length, Accessible pm (stackSlot (s.regs .rsp) j) := by
  induction rs generalizing s with
  | nil =>
    intro j hj
    cases hj
  | cons r rs ih =>
    rw [List.map_cons, List.cons_append] at h
    by_cases h0 : Accessible pm (s.regs .rsp - 8#64)
    · rw [exec_cons (step_push h0)] at h
      intro j hj
      cases j with
      | zero => exact h0
      | succ j =>
        have hj' := ih h j (Nat.lt_of_succ_lt_succ hj)
        simp only [State.pushedWord, Function.update_self] at hj'
        rw [stackSlot_succ]
        exact hj'
    · rw [exec_fault (step_push_fault h0)] at h
      cases h

/-- Pops of words that are mapped: each register gets the word that is there for it. -/
theorem exec_pops {w : Reg → BitVec 64} (hrsp : .rsp ∉ rs)
    (hmap : ∀ j < rs.length, Accessible pm (s.regs .rsp + BitVec.ofNat 64 (8 * j)))
    (hw : ∀ j r, rs[j]? = some r → word pm s.mem (s.regs .rsp + BitVec.ofNat 64 (8 * j)) = w r) :
    exec pm (rs.map .pop ++ is) s = exec pm is { s with
      regs := fun r => if r = .rsp then s.regs .rsp + BitVec.ofNat 64 (8 * rs.length)
        else if r ∈ rs then w r else s.regs r } := by
  induction rs generalizing s with
  | nil =>
    have hs : s = { s with
        regs := fun r => if r = .rsp then s.regs .rsp + BitVec.ofNat 64 (8 * ([] : List Reg).length)
          else if r ∈ ([] : List Reg) then w r else s.regs r } := by
      cases s
      simp only [State.mk.injEq, and_self, and_true]
      funext r
      split_ifs with hr hmem
      · rw [hr]
        exact (BitVec.add_zero _).symm
      · cases hmem
      · rfl
    rw [← hs]
    rfl
  | cons r rs ih =>
    obtain ⟨hr, hrs⟩ := not_or.mp (List.mem_cons.not.mp hrsp)
    have hzero : s.regs .rsp + BitVec.ofNat 64 (8 * 0) = s.regs .rsp := BitVec.add_zero _
    have h0 := hmap 0 (Nat.succ_pos _)
    have hw0 := hw 0 r rfl
    rw [hzero] at h0 hw0
    have hstep : step pm s (.pop r) = some ((s.set .rsp (s.regs .rsp + 8#64)).set r (w r)) := by
      rw [step, if_pos h0, hw0]
    have hsp : ((s.set .rsp (s.regs .rsp + 8#64)).set r (w r)).regs .rsp = s.regs .rsp + 8#64 := by
      simp only [State.set, Function.update_of_ne hr, Function.update_self]
    have hnext (j : Nat) :
        s.regs .rsp + 8#64 + BitVec.ofNat 64 (8 * j) = s.regs .rsp + BitVec.ofNat 64 (8 * (j + 1)) := by
      apply BitVec.eq_of_toNat_eq
      simp only [BitVec.toNat_add, BitVec.toNat_ofNat]
      omega
    rw [List.map_cons, List.cons_append, exec_cons hstep, ih hrs]
    · congr 1
      simp only [State.set, State.mk.injEq, and_self, and_true]
      funext x
      rw [Function.update_of_ne hr, Function.update_self, hnext]
      by_cases hx : x = .rsp
      · rw [if_pos hx, if_pos hx]
        rfl
      · rw [if_neg hx, if_neg hx]
        by_cases hxr : x = r
        · subst hxr
          rw [Function.update_self, if_pos List.mem_cons_self]
          split_ifs <;> rfl
        · rw [Function.update_of_ne hxr, Function.update_of_ne hx]
          simp only [List.mem_cons, hxr, false_or]
    · intro j hj
      rw [hsp, hnext]
      exact hmap (j + 1) (Nat.succ_lt_succ hj)
    · intro j x hx
      rw [hsp, hnext]
      exact hw (j + 1) x hx

end

end X86
