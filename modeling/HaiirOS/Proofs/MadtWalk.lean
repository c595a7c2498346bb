import HaiirOS.Boot.Madt
import HaiirOS.Lib.Checked

/-!
# The walk over a well-formed MADT

Where the entries area is a list of entries, the walk visits each of them once and in order.
-/

namespace HaiirOS

/-- An entry of the MADT: its type, and the bytes after its length byte. -/
structure MadtEntry where
  type : BitVec 8
  payload : List (BitVec 8)
  length_le : payload.length ≤ 253

namespace MadtEntry

def bytes (e : MadtEntry) : List (BitVec 8) := e.type :: BitVec.ofNat 8 (e.payload.length + 2) :: e.payload

/-- The byte at an offset from the start of the entry. -/
def byte (e : MadtEntry) (k : Nat) : BitVec 8 := e.bytes.getD k 0#8

def word (e : MadtEntry) (k : Nat) : BitVec 16 := e.byte (k + 1) ++ e.byte k

def dword (e : MadtEntry) (k : Nat) : BitVec 32 := e.word (k + 2) ++ e.word k

/-- The entry as a `madt_io_apic_t`. -/
def ioApic (e : MadtEntry) : MadtIoApic := ⟨e.byte 2, e.dword 4, e.dword 8⟩

/-- The entry as a `madt_io_apic_override_t`. -/
def override (e : MadtEntry) : MadtOverride := ⟨e.byte 3, e.dword 4, e.word 8⟩

/-- The entry has the length of its type. -/
def WellFormed (e : MadtEntry) : Prop :=
  (e.type = madtEntryIoApic → e.bytes.length = 12) ∧ (e.type = madtEntryIntSrcOverride → e.bytes.length = 10)

lemma bytes_length (e : MadtEntry) : e.bytes.length = e.payload.length + 2 := rfl

end MadtEntry

namespace Madt

/-- The entries area is the list of these entries. -/
def Lists (madt : Madt) (es : List MadtEntry) : Prop := madt.entries = es.flatMap MadtEntry.bytes

variable {madt : Madt} {es pre post : List MadtEntry} {e : MadtEntry}

/-- The index of the entry that comes after the given ones. -/
def offset (pre : List MadtEntry) : Nat := (pre.flatMap MadtEntry.bytes).length

lemma Lists.byte (h : madt.Lists (pre ++ e :: post)) {k : Nat} (hk : k < e.bytes.length) :
    madt.byte (offset pre + k) = .ok (e.byte k) := by
  have hget : madt.entries[offset pre + k]? = some (e.byte k) := by
    rw [h, List.flatMap_append, List.flatMap_cons, offset, List.getElem?_append_right (Nat.le_add_right ..),
      Nat.add_sub_cancel_left, List.getElem?_append_left hk, MadtEntry.byte, List.getD_eq_getElem?_getD,
      List.getElem?_eq_getElem hk]
    rfl
  rw [Madt.byte, hget]

lemma Lists.word (h : madt.Lists (pre ++ e :: post)) {k : Nat} (hk : k + 1 < e.bytes.length) :
    madt.word (offset pre + k) = .ok (e.word k) := by
  rw [Madt.word, h.byte (by omega), Nat.add_assoc, h.byte hk]
  rfl

lemma Lists.dword (h : madt.Lists (pre ++ e :: post)) {k : Nat} (hk : k + 3 < e.bytes.length) :
    madt.dword (offset pre + k) = .ok (e.dword k) := by
  rw [Madt.dword, h.word (by omega), Nat.add_assoc, h.word hk]
  rfl

lemma Lists.ioApicAt (h : madt.Lists (pre ++ e :: post)) (hlen : e.bytes.length = 12) :
    madt.ioApicAt (offset pre) = .ok e.ioApic := by
  rw [Madt.ioApicAt, h.byte (by omega), h.dword (by omega), h.dword (by omega)]
  rfl

lemma Lists.overrideAt (h : madt.Lists (pre ++ e :: post)) (hlen : e.bytes.length = 10) :
    madt.overrideAt (offset pre) = .ok e.override := by
  rw [Madt.overrideAt, h.byte (by omega), h.dword (by omega), h.word (by omega)]
  rfl

lemma idx_lt_iff {i : Nat} (hi : i < 2 ^ 32) (hne : madt.entries ≠ []) :
    BitVec.ofNat 32 i < madt.length - 44#32 - 1#32 ↔ i + 1 < madt.entries.length := by
  have hlt := madt.length_lt
  have hpos := List.length_pos_of_ne_nil hne
  rw [BitVec.lt_def, length, BitVec.toNat_sub, BitVec.toNat_sub]
  simp only [BitVec.toNat_ofNat]
  omega

lemma entries_length (h : madt.Lists (pre ++ post)) : madt.entries.length = offset pre + offset post := by
  rw [h, List.flatMap_append, List.length_append, offset, offset]

lemma offset_cons (e : MadtEntry) (es : List MadtEntry) : offset (e :: es) = e.bytes.length + offset es := by
  rw [offset, List.flatMap_cons, List.length_append, offset]

lemma offset_append_singleton (es : List MadtEntry) (e : MadtEntry) :
    offset (es ++ [e]) = offset es + e.bytes.length := by
  rw [offset, List.flatMap_append, List.length_append, offset, List.flatMap_singleton]

/-- The walk from the first of the entries `post` on visits these in order. -/
theorem walk_eq {σ : Type} {visit : BitVec 8 → Nat → σ → Except Stop σ} {body : σ → MadtEntry → Except Stop σ}
    (h : madt.Lists (pre ++ post)) (hne : madt.entries ≠ [])
    (hvisit : ∀ pre' e post', pre' ++ e :: post' = pre ++ post → ∀ s, visit e.type (offset pre') s = body s e)
    {fuel : Nat} (hfuel : post.length < fuel) (s : σ) :
    madt.walk visit fuel (BitVec.ofNat 32 (offset pre)) s = post.foldlM body s := by
  induction post generalizing pre fuel s with
  | nil =>
    obtain ⟨fuel, rfl⟩ : ∃ k, fuel = k + 1 := ⟨fuel - 1, by omega⟩
    have hlen := entries_length h
    have hlt := madt.length_lt
    have hend : offset [] = 0 := rfl
    rw [walk, if_neg]
    · rfl
    · rw [idx_lt_iff (by omega) hne]
      omega
  | cons e post ih =>
    obtain ⟨fuel, rfl⟩ : ∃ k, fuel = k + 1 := ⟨fuel - 1, by omega⟩
    have hlen := entries_length h
    have hlt := madt.length_lt
    have hbytes := e.bytes_length
    have hle := e.length_le
    rw [offset_cons] at hlen
    have hidx : (BitVec.ofNat 32 (offset pre)).toNat = offset pre := by
      rw [BitVec.toNat_ofNat]
      exact Nat.mod_eq_of_lt (by omega)
    have htype : madt.byte (offset pre) = .ok e.type := h.byte (k := 0) (by omega)
    have hsize : madt.byte (offset pre + 1) = .ok (BitVec.ofNat 8 (e.payload.length + 2)) := h.byte (k := 1) (by omega)
    have hnext : BitVec.ofNat 32 (offset pre) + (BitVec.ofNat 8 (e.payload.length + 2)).setWidth 32 =
        BitVec.ofNat 32 (offset (pre ++ [e])) := by
      apply BitVec.eq_of_toNat_eq
      rw [offset_append_singleton, hbytes]
      simp only [BitVec.toNat_add, BitVec.toNat_setWidth, BitVec.toNat_ofNat]
      omega
    rw [walk, if_pos ((idx_lt_iff (by omega) hne).mpr (by omega))]
    rw [hidx, htype, hsize]
    simp only [List.foldlM_cons]
    change (visit e.type (offset pre) s >>= _) = _
    rw [hvisit pre e post rfl s]
    congr 1
    funext t
    rw [hnext]
    have happ : pre ++ [e] ++ post = pre ++ e :: post := by rw [List.append_assoc, List.singleton_append]
    exact ih (by rw [happ]; exact h) (by rw [happ]; exact hvisit) (by simpa using hfuel) t

lemma walk_invariant {σ : Type} {visit : BitVec 8 → Nat → σ → Except Stop σ} {fuel : Nat} {i : BitVec 32} {s s' : σ}
    (P : σ → Prop) (h0 : P s) (hstep : ∀ type i t t', P t → visit type i t = .ok t' → P t')
    (h : madt.walk visit fuel i s = .ok s') : P s' := by
  induction fuel generalizing i s with
  | zero => cases h
  | succ fuel ih =>
    rw [walk] at h
    by_cases hi : i < madt.length - 44#32 - 1#32
    · rw [if_pos hi] at h
      obtain ⟨type, -, h⟩ := Checked.bind_eq_ok.mp h
      obtain ⟨len, -, h⟩ := Checked.bind_eq_ok.mp h
      obtain ⟨t, ht, h⟩ := Checked.bind_eq_ok.mp h
      exact ih (hstep type i.toNat s t h0 ht) h
    · rw [if_neg hi] at h
      cases h
      exact h0

lemma walk_mono {σ : Type} {visit : BitVec 8 → Nat → σ → Except Stop σ} {fuel fuel' : Nat} {i : BitVec 32} {s s' : σ}
    (h : madt.walk visit fuel i s = .ok s') (hle : fuel ≤ fuel') : madt.walk visit fuel' i s = .ok s' := by
  induction fuel generalizing fuel' i s with
  | zero => cases h
  | succ fuel ih =>
    obtain ⟨fuel', rfl⟩ : ∃ k, fuel' = k + 1 := ⟨fuel' - 1, by omega⟩
    rw [walk] at h ⊢
    by_cases hi : i < madt.length - 44#32 - 1#32
    · rw [if_pos hi] at h ⊢
      obtain ⟨type, htype, h⟩ := Checked.bind_eq_ok.mp h
      obtain ⟨len, hlen, h⟩ := Checked.bind_eq_ok.mp h
      obtain ⟨t, ht, h⟩ := Checked.bind_eq_ok.mp h
      rw [htype, hlen]
      change (visit type i.toNat s >>= _) = _
      rw [ht]
      exact ih h (by omega)
    · rwa [if_neg hi] at h ⊢

/-- The walk over a well-formed table visits every entry once, in order. -/
theorem walk_lists {σ : Type} {visit : BitVec 8 → Nat → σ → Except Stop σ} {body : σ → MadtEntry → Except Stop σ}
    (h : madt.Lists es) (hne : es ≠ [])
    (hvisit : ∀ pre e post, pre ++ e :: post = es → ∀ s, visit e.type (offset pre) s = body s e)
    {fuel : Nat} (hfuel : es.length < fuel) (s : σ) : madt.walk visit fuel 0#32 s = es.foldlM body s := by
  have hbytes : madt.entries ≠ [] := by
    rw [h]
    obtain ⟨e, rest, rfl⟩ := List.exists_cons_of_ne_nil hne
    simp [MadtEntry.bytes]
  have hall : madt.Lists ([] ++ es) := h
  exact walk_eq hall hbytes hvisit hfuel s

end Madt

end HaiirOS
