import HaiirOS.Lib.Words

/-!
# Address translation

The hardware side: physical memory as words, and the four-level walk of the MMU from the
table that CR3 names. A set bit 7 ends the walk early at levels 3 and 2 with a large page
and is reserved at level 4.
-/

namespace HaiirOS

open AddressWord

/-- A 64-bit machine word. -/
abbrev Word := BitVec 64

/-- Physical memory, by the address of an aligned word. -/
abbrev Mem := Nat → Word

abbrev PageFlags := Word

namespace PageFlags

def present : PageFlags := 1#64
def writeable : PageFlags := 1#64 <<< 1
def user : PageFlags := 1#64 <<< 2
def execDisable : PageFlags := 1#64 <<< 63

end PageFlags

/-- What a translation permits. -/
structure Rights where
  writeable : Bool
  user : Bool
  execDisable : Bool
deriving DecidableEq

namespace Rights

/-- The rights before the first entry. -/
def all : Rights := ⟨true, true, false⟩

/-- The rights after one more entry: writing and user access need every level, one level is
enough to forbid execution. -/
def meet (r : Rights) (e : Word) : Rights :=
  ⟨r.writeable && e.getLsbD 1, r.user && e.getLsbD 2, r.execDisable || e.getLsbD 63⟩

end Rights

/-- The physical address and the rights that a walk ends with. -/
structure Translation where
  phys : Nat
  rights : Rights
deriving DecidableEq

/-- The address of entry `i` of the table in frame `t`. -/
def slot (t i : Nat) : Nat := t * 4096 + 8 * i

/-- The index of an address into a table of level `lvl`. -/
def lvIndex (v : Word) (lvl : Nat) : Nat := v.toNat / 2 ^ (9 * lvl + 3) % 512

/-- The number of the page of an address, as far as the MMU translates it. -/
def pageNo (v : Word) : Nat := v.toNat / 4096 % 2 ^ 36

/-- The walk of the MMU for address `v` from the table in frame `t` of level `lvl`. -/
def mmuWalk (mem : Mem) (v : Word) : Nat → Nat → Rights → Option Translation
  | 0, _, _ => none
  | lvl + 1, t, r =>
    let e := mem (slot t (lvIndex v (lvl + 1)))
    if e.getLsbD 0 = false then none
    else if lvl = 0 then some ⟨frame e * 4096 + v.toNat % 4096, r.meet e⟩
    else if e.getLsbD 7 = true then
      if lvl = 3 then none
      else
        let size := 2 ^ (9 * lvl + 12)
        some ⟨frame e * 4096 / size * size + v.toNat % size, r.meet e⟩
    else mmuWalk mem v lvl (frame e) (r.meet e)

/-- The translation of address `v` in the address space whose PML4 lies in frame `root`. -/
def mmu (mem : Mem) (root : Nat) (v : Word) : Option Translation := mmuWalk mem v 4 root .all

/-- Bits 63:48 repeat bit 47. -/
def Canonical (v : Word) : Prop := v.toNat < 2 ^ 47 ∨ 2 ^ 64 - 2 ^ 47 ≤ v.toNat

instance (v : Word) : Decidable (Canonical v) := inferInstanceAs (Decidable (_ ∨ _))

lemma lvIndex_lt (v : Word) (lvl : Nat) : lvIndex v lvl < 512 := Nat.mod_lt _ (by decide)

lemma slot_inj {t i u j : Nat} (hi : i < 512) (hj : j < 512) (h : slot t i = slot u j) : t = u ∧ i = j := by
  unfold slot at h
  omega

section

variable {mem : Mem} {v : Word} {lvl t : Nat} (r : Rights)

lemma mmuWalk_absent (h : (mem (slot t (lvIndex v (lvl + 1)))).getLsbD 0 = false) :
    mmuWalk mem v (lvl + 1) t r = none := by
  rw [mmuWalk]
  exact if_pos h

lemma mmuWalk_leaf (h : (mem (slot t (lvIndex v 1))).getLsbD 0 = true) :
    mmuWalk mem v 1 t r = some ⟨frame (mem (slot t (lvIndex v 1))) * 4096 + v.toNat % 4096,
      r.meet (mem (slot t (lvIndex v 1)))⟩ := by
  rw [mmuWalk]
  simp only [Nat.zero_add, if_neg (Bool.eq_false_iff.not.mpr (not_not.mpr h)), if_true]

lemma mmuWalk_table (h : (mem (slot t (lvIndex v (lvl + 2)))).getLsbD 0 = true)
    (hs : (mem (slot t (lvIndex v (lvl + 2)))).getLsbD 7 = false) :
    mmuWalk mem v (lvl + 2) t r = mmuWalk mem v (lvl + 1) (frame (mem (slot t (lvIndex v (lvl + 2)))))
      (r.meet (mem (slot t (lvIndex v (lvl + 2))))) := by
  rw [mmuWalk]
  simp only [if_neg (Bool.eq_false_iff.not.mpr (not_not.mpr h)), if_neg (Nat.succ_ne_zero lvl),
    if_neg (Bool.eq_false_iff.mp hs)]

end

end HaiirOS
