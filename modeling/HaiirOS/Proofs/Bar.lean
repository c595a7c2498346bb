import HaiirOS.Pci.Bar
import Mathlib.Tactic.IntervalCases

/-!
# Reading base address registers

`get_bar` leaves every configuration dword as it was. It describes 32-bit memory BARs and I/O BARs
of at least 16 bytes; it takes the type of a 64-bit BAR for a 32-bit one.
-/

namespace HaiirOS

lemma barOffset (bar : BitVec 8) : (0x10#32 + bar.setWidth 32 * 4#32).setWidth 8 = 0x10#8 + bar * 4#8 := by
  revert bar
  decide

lemma barOffset_next (bar : BitVec 8) :
    ((0x10#32 + bar.setWidth 32 * 4#32 + 4#32).setWidth 8 : BitVec 8) = 0x14#8 + bar * 4#8 := by
  revert bar
  decide

lemma barOffset_aligned (bar : BitVec 8) :
    (0x10#8 + bar * 4#8) &&& 2#8 = 0#8 ∧ (0x14#8 + bar * 4#8) &&& 2#8 = 0#8 := by
  revert bar
  decide

lemma readd_aligned (cfg : PciConfig) {bus slot func offset : BitVec 8} (h : offset &&& 2#8 = 0#8) :
    cfg.pciReadd bus slot func offset = cfg (pciAddr bus slot func offset) := by
  unfold PciConfig.pciReadd
  rw [h]
  exact BitVec.ushiftRight_zero _

/-- A write changes the writable bits only, so writing the old value back restores the dword. -/
lemma write_back (v w x : BitVec 32) : (((v &&& ~~~w) ||| (x &&& w)) &&& ~~~w) ||| (v &&& w) = v := by
  apply BitVec.eq_of_getLsbD_eq
  intro i hi
  simp only [BitVec.getLsbD_or, BitVec.getLsbD_and, BitVec.getLsbD_not, hi, decide_true, Bool.true_and]
  cases v.getLsbD i <;> cases w.getLsbD i <;> cases x.getLsbD i <;> rfl

namespace PciRegs

variable (regs : PciRegs) (dev : PciDev) (bar : BitVec 8)

lemma pciWrited_restore {bus slot func offset : BitVec 8} {x v : BitVec 32}
    (h : v = regs.value (pciAddr bus slot func offset)) :
    ((regs.pciWrited bus slot func offset x).pciWrited bus slot func offset v).value = regs.value := by
  funext a
  simp only [pciWrited, if_true]
  by_cases ha : a = pciAddr bus slot func offset
  · subst ha
    rw [if_pos rfl, h, write_back]
  · rw [if_neg ha, if_neg ha]

/-- What a dword reads after all ones are written to it. -/
def sizeProbe (addr : BitVec 32) : BitVec 32 :=
  (regs.value addr &&& ~~~regs.writable addr) ||| (-1#32 &&& regs.writable addr)

lemma probe_value {bus slot func offset : BitVec 8} :
    (regs.pciWrited bus slot func offset (-1#32)).value (pciAddr bus slot func offset) =
      regs.sizeProbe (pciAddr bus slot func offset) :=
  if_pos rfl

/-- `get_bar` leaves every dword of every device as it was. -/
theorem getBar_value : (regs.getBar dev bar).2.value = regs.value := by
  have ⟨hlow, hhigh⟩ := barOffset_aligned bar
  unfold getBar
  simp only [barOffset, barOffset_next, readd_aligned _ hlow, readd_aligned _ hhigh]
  split
  · have hfirst := @pciWrited_restore regs dev.bus dev.slot dev.func (0x10#8 + bar * 4#8) (-1#32) _ rfl
    change (pciWrited (pciWrited _ _ _ _ _ _) _ _ _ _ _).value = regs.value
    rw [pciWrited_restore _ (by rw [hfirst]), hfirst]
  · exact pciWrited_restore _ rfl

end PciRegs

/-! ### The bits of a register -/

lemma getLsbD_f (i : Nat) : (0xf#64).getLsbD i = decide (i < 4) := by
  rw [BitVec.getLsbD_ofNat, (by decide : 0xf = 2 ^ 4 - 1), Nat.testBit_two_pow_sub_one]
  by_cases h : i < 4
  · simp [h, (by omega : i < 64)]
  · simp [h]

lemma getLsbD_d {i : Nat} (hi : i < 64) : (0xd#64).getLsbD i = decide (i = 0 ∨ i = 2 ∨ i = 3) := by
  revert i
  decide

lemma size_of_mask (k : Nat) : ~~~(BitVec.allOnes 64 <<< k) + 1#64 = BitVec.twoPow 64 k := by
  have hmask : BitVec.allOnes 64 <<< k = -BitVec.twoPow 64 k := by
    rw [BitVec.shiftLeft_eq_mul_twoPow, ← BitVec.neg_one_eq_allOnes, BitVec.neg_mul, BitVec.one_mul]
  rw [hmask, ← BitVec.neg_eq_not_add, BitVec.neg_neg]

namespace Bar

variable (b : Bar)

lemma base_low {i : Nat} (hi : i < b.sizeBits) : b.base.getLsbD i = false := by
  have hbit := Nat.testBit_mod_two_pow b.base.toNat b.sizeBits i
  rw [b.base_mod, Nat.zero_testBit, decide_eq_true hi, Bool.true_and] at hbit
  exact hbit.symm

lemma base_high {i : Nat} (hi : b.kind.width ≤ i) : b.base.getLsbD i = false :=
  Nat.testBit_lt_two_pow (Nat.lt_of_lt_of_le b.base_lt (Nat.pow_le_pow_right (by decide) hi))

lemma flags_high {i : Nat} (hi : b.kind.typeBits ≤ i) : b.flags.getLsbD i = false := by
  have hlt : b.flags.toNat < 2 ^ b.kind.typeBits := by
    unfold flags
    cases b.kind <;> cases b.prefetchable <;> decide
  exact Nat.testBit_lt_two_pow (Nat.lt_of_lt_of_le hlt (Nat.pow_le_pow_right (by decide) hi))

lemma addressBits_bit {i : Nat} (hi : i < 64) : b.addressBits.getLsbD i = decide (b.sizeBits ≤ i) := by
  rw [addressBits, BitVec.getLsbD_shiftLeft, BitVec.getLsbD_allOnes]
  by_cases h : b.sizeBits ≤ i
  · simp [h, hi]
    omega
  · simp [h]

/-- The low register. -/
def low (b : Bar) : BitVec 32 := b.base.setWidth 32 ||| b.flags

lemma low_bit {i : Nat} (hi : i < 32) : b.low.getLsbD i = (b.base.getLsbD i || b.flags.getLsbD i) := by
  simp [low, hi]

lemma probe_eq : (b.low &&& ~~~b.addressBits.setWidth 32) ||| (-1#32 &&& b.addressBits.setWidth 32) =
    b.addressBits.setWidth 32 ||| b.flags := by
  apply BitVec.eq_of_getLsbD_eq
  intro i hi
  simp only [BitVec.getLsbD_or, BitVec.getLsbD_and, BitVec.getLsbD_not, BitVec.getLsbD_setWidth, hi, decide_true,
    Bool.true_and, b.addressBits_bit (by omega : i < 64), b.low_bit hi, BitVec.neg_one_eq_allOnes,
    BitVec.getLsbD_allOnes]
  by_cases hk : b.sizeBits ≤ i
  · simp [hk]
  · simp [hk, b.base_low (Nat.lt_of_not_le hk)]

lemma low_and {m : BitVec 32} (hm : ∀ i, b.kind.typeBits ≤ i → m.getLsbD i = false) :
    b.low &&& m = b.flags &&& m := by
  apply BitVec.eq_of_getLsbD_eq
  intro i hi
  rw [BitVec.getLsbD_and, BitVec.getLsbD_and, b.low_bit hi]
  by_cases ht : b.kind.typeBits ≤ i
  · simp [hm i ht]
  · rw [b.base_low (Nat.lt_of_lt_of_le (Nat.lt_of_not_le ht) b.typeBits_le), Bool.false_or]

lemma mask_above {m : BitVec 32} {n k : Nat} (hm : m.toNat < 2 ^ n) (hn : n ≤ k) :
    ∀ i, k ≤ i → m.getLsbD i = false :=
  fun _ hi => Nat.testBit_lt_two_pow (Nat.lt_of_lt_of_le hm (Nat.pow_le_pow_right (by decide) (Nat.le_trans hn hi)))

lemma low_and_one : b.low &&& 1#32 = if b.kind = BarKind.io then 1#32 else 0#32 := by
  have hbits : 1 ≤ b.kind.typeBits := by cases b.kind <;> decide
  rw [b.low_and (@mask_above _ 1 _ (by decide) hbits), flags]
  cases b.kind <;> cases b.prefetchable <;> rfl

lemma flags_io (h : b.kind = BarKind.io) : b.flags = 1#32 := by
  rw [flags, h]

lemma typeBits_memory (h : b.kind ≠ BarKind.io) : b.kind.typeBits = 4 := by
  cases hk : b.kind with
  | io => exact absurd hk h
  | mem32 => rfl
  | mem64 => rfl

lemma low_and_six (h : b.kind ≠ BarKind.io) :
    b.low &&& 6#32 = if b.kind = BarKind.mem64 then 4#32 else 0#32 := by
  rw [b.low_and (@mask_above _ 4 _ (by decide) (Nat.le_of_eq (b.typeBits_memory h).symm)), flags]
  cases hk : b.kind with
  | io => exact absurd hk h
  | mem32 => cases b.prefetchable <;> rfl
  | mem64 => cases b.prefetchable <;> rfl

lemma low_and_eight (h : b.kind ≠ BarKind.io) : b.low &&& (1#32 <<< 3) = if b.prefetchable then 8#32 else 0#32 := by
  rw [b.low_and (@mask_above _ 4 _ (by decide) (Nat.le_of_eq (b.typeBits_memory h).symm)), flags]
  cases hk : b.kind with
  | io => exact absurd hk h
  | mem32 => cases b.prefetchable <;> rfl
  | mem64 => cases b.prefetchable <;> rfl

/-- What `get_bar` makes a 64-bit word of, for a BAR that it takes for a 32-bit one. -/
def wide (high low : BitVec 32) : BitVec 64 := (high.setWidth 64 <<< 32) ||| low.setWidth 64

lemma wide_bit (high low : BitVec 32) {i : Nat} (hi : i < 64) :
    (wide high low).getLsbD i = if i < 32 then low.getLsbD i else high.getLsbD (i - 32) := by
  rw [wide, BitVec.getLsbD_or, BitVec.getLsbD_shiftLeft, BitVec.getLsbD_setWidth, BitVec.getLsbD_setWidth]
  by_cases h : i < 32
  · simp [h, hi]
  · have hlow : low.getLsbD i = false := BitVec.getLsbD_of_ge low i (Nat.le_of_not_lt h)
    simp [h, hi, hlow]
    omega

lemma base_memory (h : b.kind = BarKind.mem32) : wide 0#32 b.low &&& ~~~0xf#64 = b.base := by
  apply BitVec.eq_of_getLsbD_eq
  intro i hi
  have hkind : b.kind ≠ BarKind.io := by simp [h]
  have hk := b.typeBits_le
  rw [b.typeBits_memory hkind] at hk
  rw [BitVec.getLsbD_and, BitVec.getLsbD_not, getLsbD_f, wide_bit _ _ hi]
  by_cases h4 : i < 4
  · simp [h4, b.base_low (Nat.lt_of_lt_of_le h4 hk)]
  · by_cases h32 : i < 32
    · rw [if_pos h32, b.low_bit h32, b.flags_high (by rw [b.typeBits_memory hkind]; omega)]
      simp [h4, hi]
    · rw [if_neg h32, b.base_high (by rw [h]; exact Nat.le_of_not_lt h32)]
      simp

lemma base_io (h : b.kind = BarKind.io) (hk : 4 ≤ b.sizeBits) : wide 0#32 b.low &&& ~~~0xd#64 = b.base := by
  apply BitVec.eq_of_getLsbD_eq
  intro i hi
  rw [BitVec.getLsbD_and, BitVec.getLsbD_not, getLsbD_d hi, wide_bit _ _ hi]
  by_cases h4 : i < 4
  · rw [if_pos (by omega : i < 32), b.low_bit (by omega), b.base_low (Nat.lt_of_lt_of_le h4 hk), b.flags_io h]
    interval_cases i <;> decide
  · by_cases h32 : i < 32
    · have hflag : b.flags.getLsbD i = false := b.flags_high (by rw [h]; change 2 ≤ i; omega)
      rw [if_pos h32, b.low_bit h32, hflag]
      simp [hi]
      omega
    · rw [if_neg h32, b.base_high (by rw [h]; exact Nat.le_of_not_lt h32)]
      simp

lemma size_memory (h : b.kind = BarKind.mem32) :
    wide (-1#32) (b.addressBits.setWidth 32 ||| b.flags) &&& ~~~0xf#64 = BitVec.allOnes 64 <<< b.sizeBits := by
  apply BitVec.eq_of_getLsbD_eq
  intro i hi
  have hkind : b.kind ≠ BarKind.io := by simp [h]
  have hk := b.typeBits_le
  have hlt := b.sizeBits_lt
  rw [h] at hlt
  rw [b.typeBits_memory hkind] at hk
  have hbit := b.addressBits_bit hi
  rw [← addressBits, hbit, BitVec.getLsbD_and, BitVec.getLsbD_not, getLsbD_f, wide_bit _ _ hi]
  by_cases h4 : i < 4
  · simp [h4]
    omega
  · by_cases h32 : i < 32
    · have hflag : b.flags.getLsbD i = false := b.flags_high (by rw [b.typeBits_memory hkind]; omega)
      rw [if_pos h32, BitVec.getLsbD_or, hflag, BitVec.getLsbD_setWidth, hbit]
      simp [h4, hi, h32]
    · rw [if_neg h32, BitVec.neg_one_eq_allOnes, BitVec.getLsbD_allOnes]
      change b.sizeBits < 32 at hlt
      simp [h4, hi]
      omega

/-- For an I/O BAR the mask takes bits 2 and 3 for type bits, so the size is at least 16. -/
lemma size_io (h : b.kind = BarKind.io) :
    wide (-1#32) (b.addressBits.setWidth 32 ||| b.flags) &&& ~~~0xd#64 = BitVec.allOnes 64 <<< max b.sizeBits 4 := by
  apply BitVec.eq_of_getLsbD_eq
  intro i hi
  have hk := b.typeBits_le
  have hlt := b.sizeBits_lt
  rw [h] at hlt hk
  change 2 ≤ b.sizeBits at hk
  change b.sizeBits < 32 at hlt
  have hmask : (BitVec.allOnes 64 <<< max b.sizeBits 4).getLsbD i = decide (max b.sizeBits 4 ≤ i) := by
    rw [BitVec.getLsbD_shiftLeft, BitVec.getLsbD_allOnes]
    by_cases hi' : max b.sizeBits 4 ≤ i
    · simp only [hi, hi', Nat.not_lt.mpr hi', decide_true, decide_false, Bool.not_false, Bool.true_and,
        decide_eq_true_eq]
      omega
    · simp only [hi', Nat.lt_of_not_le hi', decide_true, decide_false, Bool.not_true, Bool.and_false,
        Bool.false_and]
  rw [hmask, BitVec.getLsbD_and, BitVec.getLsbD_not, getLsbD_d hi, wide_bit _ _ hi]
  by_cases h32 : i < 32
  · rw [if_pos h32, BitVec.getLsbD_or, BitVec.getLsbD_setWidth, b.addressBits_bit hi]
    by_cases h4 : i < 4
    · rw [b.flags_io h, decide_eq_false (by omega : ¬ max b.sizeBits 4 ≤ i)]
      interval_cases i
      · simp
      · simp
        omega
      · simp
      · simp
    · rw [b.flags_high (by rw [h]; change 2 ≤ i; omega), decide_eq_false (by omega : ¬ (i = 0 ∨ i = 2 ∨ i = 3))]
      have hmax : max b.sizeBits 4 ≤ i ↔ b.sizeBits ≤ i := by omega
      simp [hi, h32, hmax]
  · rw [if_neg h32, BitVec.neg_one_eq_allOnes, BitVec.getLsbD_allOnes,
      decide_eq_false (by omega : ¬ (i = 0 ∨ i = 2 ∨ i = 3)), decide_eq_true (by omega : max b.sizeBits 4 ≤ i)]
    simp [hi]
    omega

end Bar

namespace PciRegs

variable {regs : PciRegs} {dev : PciDev} {bar : BitVec 8} {b : Bar}

lemma HasBar.sizeProbe (h : regs.HasBar dev bar b) :
    regs.sizeProbe (pciAddr dev.bus dev.slot dev.func (0x10#8 + bar * 4#8)) =
      b.addressBits.setWidth 32 ||| b.flags := by
  rw [PciRegs.sizeProbe, h.low, h.lowWritable]
  exact b.probe_eq

/-- No BAR has the type field that `get_bar` takes for that of a 64-bit one. -/
lemma HasBar.getBar_eq (h : regs.HasBar dev bar b) (m : BitVec 64)
    (hm : m = if b.kind = BarKind.io then ~~~0xd#64 else ~~~0xf#64) : (regs.getBar dev bar).1 =
      ⟨Bar.wide 0#32 b.low &&& m, ~~~(Bar.wide (-1#32) (b.addressBits.setWidth 32 ||| b.flags) &&& m) + 1#64, false,
        b.prefetchable, b.kind != BarKind.io⟩ := by
  have ⟨hlow, _⟩ := barOffset_aligned bar
  have hvalue : regs.value (pciAddr dev.bus dev.slot dev.func (0x10#8 + bar * 4#8)) = b.low := h.low
  unfold getBar
  simp only [barOffset, readd_aligned _ hlow, probe_value, h.sizeProbe, hvalue, b.low_and_one]
  by_cases hio : b.kind = BarKind.io
  · rw [if_pos hio] at hm
    subst hm
    simp [hio, b.io_not_prefetchable hio, Bar.wide]
  · rw [if_neg hio] at hm
    subst hm
    rw [b.low_and_six hio, b.low_and_eight hio]
    by_cases h64 : b.kind = BarKind.mem64
    · cases hp : b.prefetchable <;> simp [h64, Bar.wide]
    · cases hp : b.prefetchable <;> simp [hio, h64, Bar.wide]

/-- `get_bar` describes the BAR, and leaves every configuration dword as it was. -/
def BarRead (regs : PciRegs) (dev : PciDev) (bar : BitVec 8) (b : Bar) : Prop :=
  (regs.getBar dev bar).1 = b.described ∧ (regs.getBar dev bar).2.value = regs.value

lemma HasBar.read_of_plain (h : regs.HasBar dev bar b) (h64 : b.kind ≠ BarKind.mem64) (hsize : 4 ≤ b.sizeBits) :
    regs.BarRead dev bar b := by
  refine ⟨?_, regs.getBar_value dev bar⟩
  rw [h.getBar_eq _ rfl, Bar.described]
  cases hk : b.kind with
  | mem64 => exact absurd hk h64
  | mem32 =>
    rw [if_neg (by decide), b.base_memory hk, b.size_memory hk, size_of_mask]
    rfl
  | io =>
    rw [if_pos rfl, b.base_io hk hsize, b.size_io hk, size_of_mask, Nat.max_eq_left hsize]
    rfl

lemma HasBar.plain_of_read (h : regs.HasBar dev bar b) (hr : regs.BarRead dev bar b) :
    b.kind ≠ BarKind.mem64 ∧ 4 ≤ b.sizeBits := by
  have hr := hr.1
  rw [h.getBar_eq _ rfl, Bar.described, PciBar.mk.injEq] at hr
  obtain ⟨_, hsize, h64, _, _⟩ := hr
  have hkind : b.kind ≠ BarKind.mem64 := by
    intro hk
    rw [hk] at h64
    exact Bool.false_ne_true h64
  refine ⟨hkind, ?_⟩
  have hle := b.typeBits_le
  cases hk : b.kind with
  | mem64 => exact absurd hk hkind
  | mem32 =>
    rw [hk] at hle
    exact hle
  | io =>
    rw [if_pos hk, b.size_io hk, size_of_mask] at hsize
    have hlt := b.sizeBits_lt
    rw [hk] at hlt
    change b.sizeBits < 32 at hlt
    have hnat := congrArg BitVec.toNat hsize
    rw [BitVec.toNat_twoPow_of_lt (by omega), BitVec.toNat_twoPow_of_lt (by omega)] at hnat
    have hmax := Nat.pow_right_injective (Nat.le_refl 2) hnat
    omega

theorem getBar_iff (h : regs.HasBar dev bar b) :
    regs.BarRead dev bar b ↔ b.kind ≠ BarKind.mem64 ∧ 4 ≤ b.sizeBits :=
  ⟨h.plain_of_read, fun ⟨h64, hsize⟩ => h.read_of_plain h64 hsize⟩

/-- The controller on slot 3 of bus 0. -/
def usbDev : PciDev := ⟨0#8, 3#8, 0#8, 0xc#8, 0x3#8, 0x30#8⟩

/-- Registers whose first BARs are that of `b`. -/
def withBar (b : Bar) : PciRegs where
  value a := if a = 0x80001810#32 then b.low else if a = 0x80001814#32 then (b.base >>> 32).setWidth 32 else 0#32
  writable a := if a = 0x80001810#32 then b.addressBits.setWidth 32
    else if a = 0x80001814#32 then (b.addressBits >>> 32).setWidth 32 else 0#32

lemma withBar_hasBar (b : Bar) : (withBar b).HasBar usbDev 0#8 b := by
  have hlow : pciAddr usbDev.bus usbDev.slot usbDev.func (0x10#8 + 0#8 * 4#8) = 0x80001810#32 := by decide
  have hhigh : pciAddr usbDev.bus usbDev.slot usbDev.func (0x14#8 + 0#8 * 4#8) = 0x80001814#32 := by decide
  constructor
  · rw [hlow]
    rfl
  · rw [hlow]
    rfl
  · intro _
    rw [hhigh]
    rfl
  · intro _
    rw [hhigh]
    rfl

/-- A BAR of 16 KiB at 0xfebf0000, with 32 or 64 address bits. -/
def registerBar (wide : Bool) : Bar where
  kind := if wide then BarKind.mem64 else BarKind.mem32
  prefetchable := false
  sizeBits := 14
  base := 0xfebf0000#64
  typeBits_le := by cases wide <;> decide
  sizeBits_lt := by cases wide <;> decide
  base_mod := by decide
  base_lt := by cases wide <;> decide
  io_not_prefetchable _ := rfl

theorem registerBar_read : (withBar (registerBar false)).BarRead usbDev 0#8 (registerBar false) :=
  (getBar_iff (withBar_hasBar (registerBar false))).mpr ⟨by decide, by decide⟩

/-- The same BAR with 64 address bits is not described as such. -/
theorem wideBar_misread : (withBar (registerBar true)).HasBar usbDev 0#8 (registerBar true) ∧
    ¬ (withBar (registerBar true)).BarRead usbDev 0#8 (registerBar true) := by
  have hbar := withBar_hasBar (registerBar true)
  refine ⟨hbar, ?_⟩
  intro h
  exact (hbar.plain_of_read h).1 rfl

end PciRegs

end HaiirOS
