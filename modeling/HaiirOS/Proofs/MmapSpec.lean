import HaiirOS.Proofs.MissingTables
import HaiirOS.Syscall.Mmap

/-!
# What mmap does

`mmap_syscall` is one allocation and a loop of maps. The 32-bit product in the loop makes the
pages and frames repeat after `2 ^ 20` rounds.
-/

namespace HaiirOS

open AddressWord

/-- The page that round `i` of the loop of `mmap_syscall` maps. -/
def mmapPage (addr : Word) (i : Nat) : Word := toPage (addr + BitVec.ofNat 64 (i * pageSize % 2 ^ 32))

lemma mmapPage_no (addr : Word) (i : Nat) : pageNo (mmapPage addr i) = (addr.toNat / 4096 + i % 2 ^ 20) % 2 ^ 36 := by
  have ha := addr.isLt
  rw [pageNo, mmapPage, toPage, base_toNat, BitVec.toNat_add, BitVec.toNat_ofNat, pageSize]
  omega

lemma mmapFrame_eq (b i : Nat) :
    toFrame (BitVec.ofNat 64 (b * 4096) + BitVec.ofNat 64 (i * pageSize % 2 ^ 32)) = frameAddr (b + i % 2 ^ 20) := by
  apply BitVec.eq_of_toNat_eq
  rw [toFrame, base_toNat, frameAddr, BitVec.toNat_add, BitVec.toNat_ofNat, BitVec.toNat_ofNat, BitVec.toNat_ofNat,
    pageSize]
  omega

lemma mapPages_eq (m : Machine) (pml4 addr : Word) (b : Nat) (flags : PageFlags) (n : Nat) :
    m.mapPages pml4 addr (BitVec.ofNat 64 (b * 4096)) flags n =
      Loop.upTo (fun i m => m.mapUserFrame pml4 (mmapPage addr i) (frameAddr (b + i % 2 ^ 20)) flags) n m := by
  rw [Machine.mapPages]
  congr 1
  funext i m
  rw [← mmapFrame_eq]
  rfl

lemma prot_toNat (prot : BitVec 32) : ((prot &&& 3#32).setWidth 64).toNat < 4 := by
  have hand : (prot &&& 3#32).toNat ≤ 3 := by
    rw [BitVec.toNat_and]
    exact Nat.and_le_right
  rw [BitVec.toNat_setWidth]
  omega

lemma plain_mmapFlags (prot : BitVec 32) : PlainFlags (mmapFlags prot) := by
  have hprot := prot_toNat prot
  have hframe : frame ((prot &&& 3#32).setWidth 64) = 0 := by
    unfold frame
    omega
  have hbit : ((prot &&& 3#32).setWidth 64).getLsbD 7 = false :=
    Nat.testBit_lt_two_pow (Nat.lt_of_lt_of_le hprot (by decide))
  have hrest : frame (PageFlags.user ||| (prot &&& 3#32).setWidth 64) = 0 ∧
      (PageFlags.user ||| (prot &&& 3#32).setWidth 64).getLsbD 7 = false := by
    rw [frame_or_of_zero _ hframe, BitVec.getLsbD_or, hbit]
    decide
  unfold mmapFlags
  simp only
  split_ifs
  · refine ⟨by rw [frame_or_of_zero _ (by decide), hrest.1], ?_⟩
    rw [BitVec.getLsbD_or, hrest.2]
    decide
  · exact ⟨hrest.1, hrest.2⟩

namespace Pmm.Valid

variable {p : Pmm}

/-- What an allocation returns is the address of a frame below `2 ^ 35`. -/
lemma alloc_frame (h : p.Valid) (n : Nat) : ∃ b, b < 2 ^ 35 ∧ (p.pmmAllocUnmapped n).1 = b * 4096 := by
  rcases Nat.eq_zero_or_pos n with rfl | hn
  · exact ⟨0, by decide, rfl⟩
  · rcases p.pmmAllocUnmapped_spec hn h.lastIdxBit h.zero with ⟨s, -, hs, hr⟩ | ⟨-, -, hr⟩
    · have hle := hs.le_bitmap
      have hlt := h.size
      exact ⟨s, by omega, by rw [hr]⟩
    · exact ⟨0, by decide, by rw [hr, Nat.zero_mul]⟩

end Pmm.Valid

namespace Kernel

variable {w : WindowTables} {rank : Nat → Nat} {roots : List Nat} {root : Nat} {k : Kernel}

/-- `mmap_syscall` returns if its loop of maps does. -/
lemma mmapSyscall_eq (hspace : k.getAddrSpace = frameAddr root) {addr len : Word} (prot : BitVec 32) {b : Nat}
    (halloc : (k.machine.pmm.pmmAllocUnmapped (mmapPagesCount len)).1 = b * 4096) {m' : Machine}
    (hloop : Loop.upTo (fun i m => m.mapUserFrame (frameAddr root) (mmapPage addr i) (frameAddr (b + i % 2 ^ 20))
      (mmapFlags prot)) (mmapPagesCount len) (k.machine.pmmAllocUnmapped (mmapPagesCount len)).2 = some m') :
    k.mmapSyscall addr len prot = some (addr &&& ~~~4096#64, { k with machine := m' }) := by
  have haddr : (k.machine.pmmAllocUnmapped (mmapPagesCount len)).1 = BitVec.ofNat 64 (b * 4096) := by
    rw [Machine.pmmAllocUnmapped, halloc]
  rw [mmapSyscall]
  simp only [haddr, hspace, mapPages_eq, hloop, Option.bind_eq_bind, Option.bind_some]
  rfl

/-- If its allocation leaves a frame for each table that its pages lack, and these frames hold zeros, `mmap_syscall`
returns; it maps frames in a row from the one that the allocator returned on. -/
theorem mmapSyscall_spec (h : Session.Inv w rank ⟨k.machine, roots⟩) (hroot : root ∈ roots)
    (hspace : k.getAddrSpace = frameAddr root) {addr len : Word} (prot : BitVec 32)
    (hpage : ∀ i < mmapPagesCount len, 0x800 ≤ pageNo (mmapPage addr i))
    (hsup : Supplied k.machine.mem (missingRange k.machine.mem root (mmapPage addr) 0 (mmapPagesCount len)).card
      (k.machine.pmm.pmmAllocUnmapped (mmapPagesCount len)).2) :
    ∃ b m' rank', (k.machine.pmm.pmmAllocUnmapped (mmapPagesCount len)).1 = b * 4096 ∧
      k.mmapSyscall addr len prot = some (addr &&& ~~~4096#64, { k with machine := m' }) ∧
      MapLoop w rank rank' roots root (mmapPage addr) (fun i => b + i % 2 ^ 20) (mmapFlags prot) (mmapPagesCount len)
        (k.machine.pmmAllocUnmapped (mmapPagesCount len)).2 m' := by
  obtain ⟨b, hb, halloc⟩ := h.tables.valid.alloc_frame (mmapPagesCount len)
  have hsame (i j : Nat) (hno : pageNo (mmapPage addr i) = pageNo (mmapPage addr j)) :
      b + i % 2 ^ 20 = b + j % 2 ^ 20 := by
    rw [mmapPage_no, mmapPage_no] at hno
    omega
  obtain ⟨m', hloop, rank', hl⟩ := (h.alloc (mmapPagesCount len)).map_loop hroot (plain_mmapFlags prot)
    (f := fun i => b + i % 2 ^ 20) (fun i _ => by omega) hpage (fun i _ j _ => hsame i j) hsup
  exact ⟨b, m', rank', halloc, mmapSyscall_eq hspace prot halloc hloop, hl.loop⟩

end Kernel

end HaiirOS
