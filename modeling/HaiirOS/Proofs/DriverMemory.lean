import HaiirOS.Lib.BlockHeap
import HaiirOS.Proofs.AllOrNothing
import HaiirOS.Proofs.TwinMaps

/-!
# The memory of the drivers

The drivers get their memory from `pmm_alloc_custom`, which maps the frames that it hands out one to
one, and store to it through the addresses that it returns. What they see is a heap of blocks: stores
reach no page table and no other block, and every word keeps what was stored to it last.
-/

namespace HaiirOS

open AddressWord
open BlockHeap Runs

/-- What a driver does to memory: an allocation, with the address that it returned, or the store of a word. -/
inductive DriverOp where
  | alloc (count : Nat) (flags : PageFlags) (a : Word)
  | store (a v : Word)

/-- The operation as one on a heap. -/
def DriverOp.shown : DriverOp → Op Word
  | .alloc count _ a => .alloc ⟨a.toNat, count * frameSize⟩
  | .store a v => .store a.toNat v

/-- The session that a driver runs in and the blocks that it was given, the newest first. -/
structure Driver where
  session : Session
  blocks : List Block

namespace Driver

def step (d : Driver) (op : DriverOp) (d' : Driver) : Prop :=
  match op with
  | .alloc count flags a => ∃ m', d.session.machine.pmmAllocCustom count flags = some (a, m') ∧
      d' = ⟨⟨m', d.session.roots⟩, ⟨a.toNat, count * frameSize⟩ :: d.blocks⟩
  | .store a v => ∃ m', d.session.machine.write a v = some m' ∧ d' = ⟨⟨m', d.session.roots⟩, d.blocks⟩

/-- A driver asks for a present mapping while there are frames for it, and not for a run that would be reserved with a
hole in it. It stores to words of its blocks. -/
def Sound (d : Driver) : DriverOp → Prop
  | .alloc count flags a => 0 < count ∧ count < 2 ^ 32 ∧ PlainFlags flags ∧ flags.getLsbD 0 = true ∧
      d.session.EnoughFrames (.pmmAllocCustom count flags) ∧ (count / 8 = 1 → a.toNat / 4096 % 8 = 0)
  | .store a _ => a.toNat % 8 = 0 ∧ ∃ b ∈ d.blocks, b.Has a.toNat

end Driver

/-- What an allocation of `count` frames from frame `g` on leaves behind: they were free, are in use, hold zeros and are
mapped one to one. Other frames in use keep their words, but for tables, and other pages their translations. -/
structure Session.Given (w : WindowTables) (rank rank' : Nat → Nat) (s : Session) (count g : Nat) (m' : Machine) : Prop where
  inv : Session.Inv w rank' ⟨m', s.roots⟩
  clean : Clean m'
  cr3 : m'.cr3 = s.machine.cr3
  high : 0x800 ≤ g ∧ g + count ≤ 2 ^ 35
  free : ∀ f, g ≤ f → f < g + count → s.machine.pmm.used f = false
  used : ∀ f, s.machine.pmm.used f = true ∨ g ≤ f ∧ f < g + count → m'.pmm.used f = true
  data : ∀ f, rank f = 0 → s.machine.pmm.used f = true ∨ g ≤ f ∧ f < g + count → rank' f = 0
  zeros : ∀ f (i : Fin 512), g ≤ f → f < g + count → m'.mem (slot f i) = 0#64
  words : ∀ f (i : Fin 512), rank' f = 0 → m'.mem (slot f i) = s.machine.mem (slot f i)
  mapped : ∀ v, g ≤ pageNo v → pageNo v < g + count →
    (mmu m'.mem w.pml4 v).map Translation.phys = some (pageNo v * 4096 + v.toNat % 4096)
  others : ∀ r ∈ s.roots, ∀ v, pageNo v ≠ 0x200 → pageNo v < g ∨ g + count ≤ pageNo v →
    mmu m'.mem r v = mmu s.machine.mem r v
  left : s.machine.pmm.freeSet.card ≤ m'.pmm.freeSet.card + 4 * count

/-- The pages of a loop of present maps lead to its frames. -/
lemma MapLoop.mapped {w : WindowTables} {rank rank' : Nat → Nat} {roots : List Nat} {root n i : Nat} {page : Nat → Word}
    {f : Nat → Nat} {flags : PageFlags} {m m' : Machine} {v : Word}
    (h : MapLoop w rank rank' roots root page f flags n m m') (hr : rank root = 4) (hplain : PlainFlags flags)
    (hpres : flags.getLsbD 0 = true) (hi : i < n) (hfit : f i < 2 ^ 40) (hv : pageNo v = pageNo (page i)) :
    (mmu m'.mem root v).map Translation.phys = some (f i * 4096 + v.toNat % 4096) := by
  have hr' : rank' root = 4 := by rw [h.ranks root (by omega), hr]
  obtain ⟨p, hp, he⟩ := h.leaves i hi
  have hp' : leafTable m'.mem v 3 root = some p := by
    rw [← hp]
    exact leafTable_congr fun k h2 hk => lvIndex_eq_of_pageNo hv (by omega) (by omega)
  have hbit : (m'.mem (slot p (lvIndex (page i) 1))).getLsbD 0 = true := by
    rw [he]
    exact (Tables.flag_word hfit (by decide)).trans hpres
  rw [mmu, h.inv.tables.phys_mmuWalk hr', hp', Option.bind_some, lvIndex_eq_of_pageNo hv (by decide) (by decide),
    if_pos hbit, he, frameAddr, Tables.frame_word hfit hplain]

namespace Session.Inv

variable {w : WindowTables} {rank : Nat → Nat} {s : Session} {flags : PageFlags} {count r : Nat} {v : Word}

/-- The run that an allocation gets is in use afterwards, unless it is reserved with a hole in it. -/
lemma used_alloc (h : s.Inv w rank) {g f : Nat} (hc : 0 < count) (hcount : count < 2 ^ 32)
    (hnext : s.machine.pmm.NextRun count g) (hhole : count / 8 = 1 → g % 8 = 0)
    (hf : s.machine.pmm.used f = true ∨ g ≤ f ∧ f < g + count) :
    (s.machine.pmmAllocUnmapped count).2.pmm.used f = true := by
  have hpmm : (s.machine.pmmAllocUnmapped count).2.pmm = s.machine.pmm.handOut g count :=
    congrArg Prod.snd (h.tables.valid.alloc_eq hc hnext)
  have hlen := hnext.le_bitmap
  have hbytes := h.tables.valid.size
  rw [hpmm, Pmm.used_handOut _ (by omega), Nat.mod_eq_of_lt hcount]
  split_ifs with ht
  · rfl
  · refine hf.resolve_right fun hin => ht ⟨hin.1, hin.2, ?_⟩
    unfold Pmm.hole
    omega

/-- With enough frames `pmm_alloc_custom` returns a run of frames, which are mapped. -/
lemma allocCustom (h : s.Inv w rank) (hplain : PlainFlags flags) (hpres : flags.getLsbD 0 = true)
    (hclean : Clean s.machine) (hc : 0 < count) (hcount : count < 2 ^ 32)
    (henough : s.EnoughFrames (.pmmAllocCustom count flags)) :
    ∃ g m', s.machine.pmmAllocCustom count flags = some (frameAddr g, m') ∧
      ((count / 8 = 1 → g % 8 = 0) → ∃ rank', s.Given w rank rank' count g m') := by
  obtain ⟨g, hnext, hcard⟩ := henough.resolve_left hc.ne'
  rw [h.kernelRoot_eq] at hcard
  obtain ⟨hlow, hfit⟩ := h.nextRun_high hc hnext
  have halloc := h.tables.valid.alloc_eq hc hnext
  have hpmm : (s.machine.pmmAllocUnmapped count).2.pmm = s.machine.pmm.handOut g count := congrArg Prod.snd halloc
  have h1 := h.alloc count
  have hclean1 : Clean (s.machine.pmmAllocUnmapped count).2 :=
    fun f hf => hclean f ((h.tables.valid.freeSet_alloc count).1 hf)
  rw [← hpmm] at hcard
  have hsup := Stocked.supplied ⟨hclean1, hcard⟩ h1.tables.valid fun f hf => h1.tables.low_used f (by omega)
  obtain ⟨m1, hloop1, ⟨-, -, -, hclean', -⟩, hsingles⟩ := h1.mapRun_enough hplain hlow hfit hclean1 hcard
  have hno (j : Nat) (hj : j < count) : pageNo (frameAddr (g + j)) = g + j := pageNo_ofNat (by omega)
  have htop := h.tables.top
  obtain ⟨m', hloop, rank', hl⟩ := @Loop.upTo_total _
    (fun i m => m.mapFrame (frameAddr (g + i)) (frameAddr (g + i)) flags)
    (fun i m => ∃ rank', LoopAt w rank rank' s.roots w.pml4 (fun j => frameAddr (g + j)) (g + ·) flags count i
      (s.machine.pmmAllocUnmapped count).2 m) count _
    ⟨rank, .zero h1, hsup, fun _ _ _ => rfl⟩ (by
      rintro i hi m ⟨rank1, hl⟩
      obtain ⟨-, m1, rank2, hmap, hl', -⟩ := hl.succ htop hplain (fun j _ => by omega)
        (fun j hj => by rw [hno j hj]; omega) (fun j hj k hk heq => by rwa [hno j hj, hno k hk] at heq) hi
      refine ⟨m1, ?_, rank2, hl'⟩
      rw [Machine.mapFrame, hl.loop.inv.tables.pml4]
      exact hmap)
  obtain rfl : m1 = m' := Option.some.inj (hloop1.symm.trans hloop)
  refine ⟨g, m1, ?_, fun hhole => ?_⟩
  · rw [pmmAllocCustom_eq s.machine (congrArg Prod.fst halloc), hloop1]
    rfl
  have hgot (f : Nat) (hf : s.machine.pmm.used f = true ∨ g ≤ f ∧ f < g + count) := h.used_alloc hc hcount hnext hhole hf
  have hnew (f : Nat) (h1 : g ≤ f) (h2 : f < g + count) : s.machine.pmm.used f = false :=
    (Pmm.free_iff _ f).mp (hnext.allFree f h1 h2)
  have hdata (f : Nat) (h0 : rank f = 0) (hf : s.machine.pmm.used f = true ∨ g ≤ f ∧ f < g + count) : rank' f = 0 := by
    by_contra hne
    have hfree := (hl.loop.fresh f h0 hne).2.2
    rw [hgot f hf] at hfree
    cases hfree
  refine ⟨rank', hl.loop.inv, hclean', hl.loop.cr3, ⟨hlow, hfit⟩, hnew, fun f hf => hl.loop.used f (hgot f hf), hdata,
    fun f i h1 h2 => ?_, fun f i h0 => hl.data f i h0, fun v h1 h2 => ?_, fun r hr v hv hout => ?_, ?_⟩
  · have hlen := hnext.le_bitmap
    rw [hl.data f i (hdata f (h.tables.rank_of_free (hnew f h1 h2)) (Or.inr ⟨h1, h2⟩))]
    exact hclean f (Pmm.mem_freeSet.mpr ⟨by omega, hnext.allFree f h1 h2⟩) i
  · have hcover : g + (pageNo v - g) = pageNo v := by omega
    have hmap := hl.loop.mapped (i := pageNo v - g) (v := v) htop hplain hpres (by omega) (by omega)
      (by rw [hno _ (by omega), hcover])
    rwa [hcover] at hmap
  · refine hl.loop.others r v ((h.roots r).mp hr) hv fun i hi => Or.inl ?_
    rw [hno i hi]
    omega
  · have htook := (hsup.card_singles h1.tables.valid).1
    have hgave := (h.tables.valid.freeSet_alloc count).2
    have hle := card_missingRange_le s.machine.mem w.pml4 (fun j => frameAddr (g + j)) count
    have hpmm' : m1.pmm = (s.machine.pmmAllocUnmapped count).2.pmm.singles
        (missingRange s.machine.mem w.pml4 (fun i => frameAddr (g + i)) 0 count).card := hsingles
    rw [← hpmm'] at htook
    change s.machine.pmm.freeSet.card ≤ (s.machine.pmmAllocUnmapped count).2.pmm.freeSet.card + count at hgave
    omega

/-- Four free frames are enough for one frame and its tables. -/
lemma enough_one (h : s.Inv w rank) (hfree : 4 ≤ s.machine.pmm.freeSet.card) :
    s.EnoughFrames (.pmmAllocCustom 1 flags) := by
  obtain ⟨g, hnext⟩ := h.tables.valid.exists_nextRun (fun f hf => h.tables.low_used f (by omega)) (by omega)
  have hcard := h.tables.valid.card_handOut_one hnext
  have hle := card_missingRange_le s.machine.mem s.kernelRoot (fun i => frameAddr (g + i)) 1
  exact Or.inr ⟨g, hnext, by omega⟩

lemma mmu_same (h : s.Inv w rank) {mem' : Mem}
    (hmem : ∀ t (i : Fin 512), rank t ≠ 0 → mem' (slot t i) = s.machine.mem (slot t i)) (hr : rank r = 4) :
    mmu mem' r v = mmu s.machine.mem r v := by
  refine h.tables.mmuWalk_eq (fun t i ht => hmem t i (by omega)) hr (fun p hp => ?_) .all
  have hrp := h.tables.rank_leafTable hr hp
  exact hmem p (index v 1) (by omega)

end Session.Inv

namespace Driver

/-- A block consists of frames in use from 8 MiB on, none of them a page table, that the kernel's address space maps one
to one. -/
structure Placed (w : WindowTables) (rank : Nat → Nat) (m : Machine) (b : Block) : Prop where
  base : b.base % 4096 = 0
  size : b.size % 4096 = 0
  high : 0x800000 ≤ b.base
  fits : b.base + b.size ≤ 2 ^ 47
  used : ∀ f, b.Has (f * 4096) → m.pmm.used f = true
  data : ∀ f, b.Has (f * 4096) → rank f = 0
  mapped : ∀ f, b.Has (f * 4096) → ∀ v, pageNo v = f →
    (mmu m.mem w.pml4 v).map Translation.phys = some (f * 4096 + v.toNat % 4096)

namespace Placed

variable {w : WindowTables} {rank : Nat → Nat} {m : Machine} {b : Block} {a : Nat}

lemma has_frame (h : Placed w rank m b) (ha : b.Has a) : b.Has (a / 4096 * 4096) := by
  have hbase := h.base
  have hsize := h.size
  unfold Block.Has at ha ⊢
  omega

/-- The driver reaches an address of its block at the address itself. -/
lemma deref (h : Placed w rank m b) (hcr3 : frame m.cr3 = w.pml4) {v : Word} (hv : b.Has v.toNat) :
    m.deref v = some v.toNat := by
  have hlt : v.toNat < 2 ^ 47 := Nat.lt_of_lt_of_le hv.2 h.fits
  have hpage : pageNo v = v.toNat / 4096 := by
    unfold pageNo
    omega
  have hmap := h.mapped _ (h.has_frame hv) v hpage
  rw [Nat.div_add_mod'] at hmap
  have hcan : Canonical v := Or.inl hlt
  rw [Machine.deref, if_pos hcan, hcr3, hmap]

end Placed

lemma slot_word {x : Nat} (hx : x % 8 = 0) : slot (x / 4096) (⟨x % 4096 / 8, by omega⟩ : Fin 512) = x := by
  simp only [slot]
  omega

end Driver

namespace Session.Given

open Driver

variable {w : WindowTables} {rank rank' : Nat → Nat} {s : Session} {count g : Nat} {m' : Machine} {b : Block}

lemma placed (h : s.Given w rank rank' count g m') (hinv : s.Inv w rank) :
    Placed w rank' m' ⟨g * 4096, count * 4096⟩ := by
  obtain ⟨hlow, hfit⟩ := h.high
  have hin (f : Nat) (hf : Block.Has ⟨g * 4096, count * 4096⟩ (f * 4096)) : g ≤ f ∧ f < g + count := by
    simp only [Block.Has] at hf
    omega
  refine ⟨Nat.mul_mod_left g 4096, Nat.mul_mod_left count 4096, ?_, ?_, fun f hf => h.used f (Or.inr (hin f hf)),
    fun f hf => ?_, fun f hf v hv => ?_⟩
  · change 0x800000 ≤ g * 4096
    omega
  · change g * 4096 + count * 4096 ≤ 2 ^ 47
    omega
  · obtain ⟨h1, h2⟩ := hin f hf
    exact h.data f (hinv.tables.rank_of_free (h.free f h1 h2)) (Or.inr ⟨h1, h2⟩)
  · obtain ⟨h1, h2⟩ := hin f hf
    rw [← hv] at h1 h2 ⊢
    exact h.mapped v h1 h2

lemma apart (h : s.Given w rank rank' count g m') (hb : Placed w rank s.machine b) :
    Block.Apart ⟨g * 4096, count * 4096⟩ b := by
  intro x hx hbx
  have hused := hb.used _ (hb.has_frame hbx)
  simp only [Block.Has] at hx
  rw [h.free (x / 4096) (by omega) (by omega)] at hused
  cases hused

lemma keeps (h : s.Given w rank rank' count g m') (hinv : s.Inv w rank) (hb : Placed w rank s.machine b) :
    Placed w rank' m' b := by
  refine ⟨hb.base, hb.size, hb.high, hb.fits, fun f hf => h.used f (Or.inl (hb.used f hf)),
    fun f hf => h.data f (hb.data f hf) (Or.inl (hb.used f hf)), fun f hf v hv => ?_⟩
  have hhigh := hb.high
  have hwin : pageNo v ≠ 0x200 := by
    simp only [Block.Has] at hf
    omega
  have hout : pageNo v < g ∨ g + count ≤ pageNo v := by
    by_contra hin
    have hused := hb.used f hf
    rw [h.free f (by omega) (by omega)] at hused
    cases hused
  rw [h.others w.pml4 ((hinv.roots _).mpr hinv.tables.top) v hwin hout]
  exact hb.mapped f hf v hv

lemma fresh (h : s.Given w rank rank' count g m') {x : Nat} (hx : Block.Has ⟨g * 4096, count * 4096⟩ x)
    (h8 : x % 8 = 0) : m'.mem x = 0#64 := by
  simp only [Block.Has] at hx
  have hzero := h.zeros (x / 4096) ⟨x % 4096 / 8, by omega⟩ (by omega) (by omega)
  rwa [slot_word h8] at hzero

lemma word (h : s.Given w rank rank' count g m') (hinv : s.Inv w rank) (hb : Placed w rank s.machine b) {x : Nat}
    (hx : b.Has x) (h8 : x % 8 = 0) : m'.mem x = s.machine.mem x := by
  have hword := h.words (x / 4096) ⟨x % 4096 / 8, by omega⟩ ((h.keeps hinv hb).data _ (hb.has_frame hx))
  rwa [slot_word h8] at hword

end Session.Given

namespace Driver

/-- What driver `d`, which started in session `s`, sees is the heap. -/
structure Shows (w : WindowTables) (rank : Nat → Nat) (s : Session) (d : Driver) (heap : Heap Word) : Prop where
  inv : d.session.Inv w rank
  clean : Clean d.session.machine
  cr3 : frame d.session.machine.cr3 = w.pml4
  roots : d.session.roots = s.roots
  blocks : heap.blocks = d.blocks
  placed : ∀ b ∈ d.blocks, Placed w rank d.session.machine b
  contents : ∀ b ∈ d.blocks, ∀ a, b.Has a → a % 8 = 0 → d.session.machine.mem a = heap.contents a
  translations : ∀ r ∈ s.roots, ∀ v, pageNo v ≠ 0x200 → (∀ b ∈ d.blocks, ¬ b.Has (pageNo v * 4096)) →
    mmu d.session.machine.mem r v = mmu s.machine.mem r v

namespace Shows

variable {w : WindowTables} {rank : Nat → Nat} {s : Session} {d d' : Driver} {heap : Heap Word} {count : Nat}
  {flags : PageFlags} {a v : Word}

/-- An allocation adds a block that holds zeros. -/
lemma alloc (h : Shows w rank s d heap) (hs : d.Sound (.alloc count flags a)) (hstep : d.step (.alloc count flags a) d') :
    ∃ heap', Heap.step 0#64 heap (DriverOp.alloc count flags a).shown heap' ∧ ∃ rank', Shows w rank' s d' heap' := by
  obtain ⟨hc, hcount, hplain, hpres, henough, hhole⟩ := hs
  obtain ⟨m', halloc, rfl⟩ := hstep
  obtain ⟨g, m1, halloc1, hgiven⟩ := h.inv.allocCustom hplain hpres h.clean hc hcount henough
  obtain ⟨rfl, rfl⟩ : a = frameAddr g ∧ m' = m1 := Prod.mk.injEq .. ▸ Option.some.inj (halloc.symm.trans halloc1)
  have haddr : (frameAddr g).toNat = g * 4096 % 2 ^ 64 := BitVec.toNat_ofNat ..
  obtain ⟨rank', hg⟩ := hgiven fun h8 => by
    have haligned := hhole h8
    omega
  obtain ⟨hlow, hfit⟩ := hg.high
  have hblock : (⟨(frameAddr g).toNat, count * frameSize⟩ : Block) = ⟨g * 4096, count * 4096⟩ := by
    rw [haddr, Nat.mod_eq_of_lt (by omega)]
  rw [DriverOp.shown, hblock]
  have hroots : d.session.roots = s.roots := h.roots
  have hnew := hg.placed h.inv
  refine ⟨heap.alloc 0#64 ⟨g * 4096, count * 4096⟩, ⟨fun b hb => hg.apart (h.placed b (h.blocks ▸ hb)), rfl⟩, rank', hg.inv,
    hg.clean, hg.cr3 ▸ h.cr3, hroots, congrArg _ h.blocks, fun b hb => ?_, fun b hb x hx h8 => ?_,
    fun r hr u hu hout => ?_⟩
  · rcases List.mem_cons.mp hb with rfl | hb
    · exact hnew
    · exact hg.keeps h.inv (h.placed b hb)
  · rcases List.mem_cons.mp hb with rfl | hb
    · have hfresh : (heap.alloc 0#64 ⟨g * 4096, count * 4096⟩).contents x = 0#64 := if_pos hx
      exact (hg.fresh hx h8).trans hfresh.symm
    · have hb' := h.placed b hb
      have hsame : (heap.alloc 0#64 ⟨g * 4096, count * 4096⟩).contents x = heap.contents x :=
        if_neg fun hin => hg.apart hb' x hin hx
      rw [hsame, ← h.contents b hb x hx h8]
      exact hg.word h.inv hb' hx h8
  · have hout' : pageNo u < g ∨ g + count ≤ pageNo u := by
      have hnot := hout ⟨g * 4096, count * 4096⟩ List.mem_cons_self
      simp only [Block.Has] at hnot
      omega
    rw [← h.translations r hr u hu fun b hb => hout b (List.mem_cons_of_mem _ hb)]
    exact hg.others r (hroots ▸ hr) u hu hout'

/-- A store changes its word of the heap only. -/
lemma store (h : Shows w rank s d heap) (hs : d.Sound (.store a v)) (hstep : d.step (.store a v) d') :
    ∃ heap', Heap.step 0#64 heap (DriverOp.store a v).shown heap' ∧ Shows w rank s d' heap' := by
  obtain ⟨-, b, hb, ha⟩ := hs
  obtain ⟨m', hwrite, rfl⟩ := hstep
  have hp := h.placed b hb
  rw [Machine.write, hp.deref h.cr3 ha, Option.map_some, Option.some.injEq] at hwrite
  subst hwrite
  have hframe := hp.has_frame ha
  have hother (t : Nat) (i : Fin 512) (ht : t ≠ a.toNat / 4096) :
      Function.update d.session.machine.mem a.toNat v (slot t i) = d.session.machine.mem (slot t i) := by
    refine Function.update_of_ne (fun heq => ht ?_) ..
    simp only [slot] at heq
    omega
  have htables (t : Nat) (i : Fin 512) (ht : rank t ≠ 0) := hother t i fun heq => ht (heq ▸ hp.data _ hframe)
  have hvalid := h.inv.tables
  refine ⟨heap.store a.toNat v, ⟨⟨b, h.blocks ▸ hb, ha⟩, rfl⟩, h.inv.of_same (fun t i ht _ => htables t i ht) hvalid.valid
    hvalid.low_used (fun t ht => (hvalid.frame_ok t ht).2.2.2) rfl hvalid.cr3, fun f hf i => ?_, h.cr3, h.roots, h.blocks,
    fun c hc => ?_, fun c hc x hx hx8 => ?_, fun r hr u hu hout => ?_⟩
  · refine (hother f i fun heq => ?_).trans (h.clean f hf i)
    have hfree := (Pmm.free_iff _ f).mp (Pmm.mem_freeSet.mp hf).2
    rw [heq] at hfree
    exact Bool.false_ne_true (hfree.symm.trans (hp.used _ hframe))
  · have hc' := h.placed c hc
    refine ⟨hc'.base, hc'.size, hc'.high, hc'.fits, hc'.used, hc'.data, fun f hf u hu => ?_⟩
    rw [h.inv.mmu_same htables hvalid.top]
    exact hc'.mapped f hf u hu
  · have hsame := h.contents c hc x hx hx8
    change Function.update d.session.machine.mem a.toNat v x = if x = a.toNat then v else heap.contents x
    rw [Function.update_apply, hsame]
  · rw [← h.translations r hr u hu hout]
    exact h.inv.mmu_same htables ((h.inv.roots r).mp (h.roots ▸ hr))

/-- A sound operation is one of the heap. -/
theorem step (h : Shows w rank s d heap) {op : DriverOp} (hs : d.Sound op) (hstep : d.step op d') :
    ∃ heap', Heap.step 0#64 heap op.shown heap' ∧ ∃ rank', Shows w rank' s d' heap' := by
  cases op with
  | alloc count flags a => exact h.alloc hs hstep
  | store a v =>
    obtain ⟨heap', hheap, h'⟩ := h.store hs hstep
    exact ⟨heap', hheap, rank, h'⟩

end Shows

/-- A run of sound operations is one of the heap. -/
lemma shows_run {w : WindowTables} {rank : Nat → Nat} {s : Session} (h : s.Inv w rank) (hclean : Clean s.machine)
    (hcr3 : frame s.machine.cr3 = w.pml4) {ops : List DriverOp} {d : Driver} (hrun : Run Driver.step ⟨s, []⟩ ops d)
    (hok : Along Driver.Sound Driver.step ⟨s, []⟩ ops) : ∃ heap,
      Run (Heap.step 0#64) ⟨[], fun _ => 0#64⟩ (ops.map DriverOp.shown) heap ∧ ∃ rank', Shows w rank' s d heap := by
  have hstart : Shows w rank s ⟨s, []⟩ ⟨[], fun _ => 0#64⟩ :=
    ⟨h, hclean, hcr3, rfl, rfl, fun b hb => absurd hb List.not_mem_nil, fun b hb => absurd hb List.not_mem_nil,
      fun _ _ _ _ _ => rfl⟩
  exact hrun.simulated (fun d heap => ∃ rank, Shows w rank s d heap) DriverOp.shown hok ⟨rank, hstart⟩
    fun d op d' heap ⟨rank, hd⟩ ho hstep => hd.step ho hstep

/-- What holds of the memory of a driver that started in session `s`, after the operations `ops`. -/
structure Kept (w : WindowTables) (s : Session) (ops : List DriverOp) (d : Driver) : Prop where
  apart : d.blocks.Pairwise Block.Apart
  reserved : ∀ b ∈ d.blocks, ∀ f, b.Has (f * 4096) →
    0x800 ≤ f ∧ d.session.machine.pmm.used f = true ∧ ¬ d.session.IsTable f
  reads : ∀ b ∈ d.blocks, ∀ a : Word, b.Has a.toNat → a.toNat % 8 = 0 →
    d.session.machine.read a = some (lastStored a.toNat 0#64 (ops.map DriverOp.shown))
  translations : ∀ r ∈ s.roots, ∀ v, pageNo v ≠ 0x200 → (∀ b ∈ d.blocks, ¬ b.Has (pageNo v * 4096)) →
    mmu d.session.machine.mem r v = mmu s.machine.mem r v
  tables : ∃ rank, d.session.Inv w rank

/-- In every run of sound allocations and stores the blocks that a driver got lie apart from each other and from the page
tables, each of their words reads as what was stored to it last (0 at first), and all other pages are translated as
before. -/
theorem memory_kept {w : WindowTables} {rank : Nat → Nat} {s : Session} (h : s.Inv w rank) (hclean : Clean s.machine)
    (hcr3 : frame s.machine.cr3 = w.pml4) {ops : List DriverOp} {d : Driver} (hrun : Run Driver.step ⟨s, []⟩ ops d)
    (hok : Along Driver.Sound Driver.step ⟨s, []⟩ ops) : Kept w s ops d := by
  obtain ⟨heap, hheap, rank', hend⟩ := shows_run h hclean hcr3 hrun hok
  have hblocks := hend.blocks
  refine ⟨?_, fun b hb f hf => ?_, fun b hb a ha h8 => ?_, hend.translations, rank', hend.inv⟩
  · rw [← hblocks]
    exact (blocks_run hheap .nil).2
  · have hp := hend.placed b hb
    have hhigh := hp.high
    refine ⟨?_, hp.used f hf, fun ht => (hend.inv.isTable_iff f).mp ht (hp.data f hf)⟩
    simp only [Block.Has] at hf
    omega
  · have hsince := contents_since hheap (fun b hb => absurd hb List.not_mem_nil) (hblocks ▸ hb) ha
    rw [Machine.read, (hend.placed b hb).deref hend.cr3 ha, Option.map_some, hend.contents b hb _ ha h8, hsince]

lemma step_unique {d d1 d2 : Driver} {op : DriverOp} (h1 : d.step op d1) (h2 : d.step op d2) : d1 = d2 := by
  cases op with
  | alloc count flags a =>
    obtain ⟨m1, halloc1, rfl⟩ := h1
    obtain ⟨m2, halloc2, rfl⟩ := h2
    obtain rfl : m1 = m2 := congrArg Prod.snd (Option.some.inj (halloc1.symm.trans halloc2))
    rfl
  | store a v =>
    obtain ⟨m1, hwrite1, rfl⟩ := h1
    obtain ⟨m2, hwrite2, rfl⟩ := h2
    obtain rfl : m1 = m2 := Option.some.inj (hwrite1.symm.trans hwrite2)
    rfl

lemma along_cons {d d' : Driver} {op : DriverOp} {ops : List DriverOp} (hs : d.Sound op) (hstep : d.step op d')
    (hrest : Along Driver.Sound Driver.step d' ops) : Along Driver.Sound Driver.step d (op :: ops) :=
  ⟨hs, fun _ ht => step_unique hstep ht ▸ hrest⟩

/-- One frame can be had while four are free. -/
lemma Shows.alloc_one {w : WindowTables} {rank : Nat → Nat} {s : Session} {d : Driver} {heap : Heap Word}
    (h : Shows w rank s d heap) {flags : PageFlags} (hplain : PlainFlags flags) (hpres : flags.getLsbD 0 = true)
    (hfree : 4 ≤ d.session.machine.pmm.freeSet.card) : ∃ a d', d.Sound (.alloc 1 flags a) ∧ d.step (.alloc 1 flags a) d' ∧
      d'.blocks = ⟨a.toNat, 4096⟩ :: d.blocks ∧
      d.session.machine.pmm.freeSet.card ≤ d'.session.machine.pmm.freeSet.card + 4 := by
  have henough : d.session.EnoughFrames (.pmmAllocCustom 1 flags) := h.inv.enough_one hfree
  obtain ⟨g, m', halloc, hgiven⟩ := h.inv.allocCustom hplain hpres h.clean (by decide) (by decide) henough
  have hone : 1 / 8 ≠ 1 := by decide
  obtain ⟨rank', hg⟩ := hgiven fun h8 => absurd h8 hone
  exact ⟨frameAddr g, _, ⟨by decide, by decide, hplain, hpres, henough, fun h8 => absurd h8 hone⟩, ⟨m', halloc, rfl⟩, rfl,
    hg.left⟩

/-- A word can be stored to the start of a block. -/
lemma Shows.store_first {w : WindowTables} {rank : Nat → Nat} {s : Session} {d : Driver} {heap : Heap Word}
    (h : Shows w rank s d heap) {a : Word} (hb : ⟨a.toNat, 4096⟩ ∈ d.blocks) (v : Word) : a.toNat % 8 = 0 ∧
      ∃ d', d.Sound (.store a v) ∧ d.step (.store a v) d' ∧ d'.blocks = d.blocks := by
  have hp := h.placed _ hb
  have ha : Block.Has ⟨a.toNat, 4096⟩ a.toNat := Block.has_base (by decide)
  have hbase : a.toNat % 4096 = 0 := hp.base
  have h8 : a.toNat % 8 = 0 := by omega
  obtain ⟨m', hwrite⟩ : ∃ m', d.session.machine.write a v = some m' := by
    rw [Machine.write, hp.deref h.cr3 ha]
    exact ⟨_, rfl⟩
  exact ⟨h8, ⟨⟨m', d.session.roots⟩, d.blocks⟩, ⟨h8, _, hb, ha⟩, ⟨m', hwrite, rfl⟩, rfl⟩

/-- Right after boot a driver gets two frames and stores a word to each. -/
theorem memory_kept_running : ∃ a b d, Kept bootWindow (runningSession reservedPmm)
    [.alloc 1 3#64 a, .alloc 1 3#64 b, .store a 0x2a#64, .store b 0x2b#64] d ∧ a ≠ b ∧
    d.session.machine.read a = some 0x2a#64 ∧ d.session.machine.read b = some 0x2b#64 := by
  have hplain : PlainFlags 3#64 := ⟨by decide, by decide⟩
  have hfree : 8 ≤ (runningSession reservedPmm).machine.pmm.freeSet.card :=
    (stocked_running (by decide : 8 ≤ 0x100)).enough
  have hcr3 : frame (runningSession reservedPmm).machine.cr3 = bootWindow.pml4 := by decide
  obtain ⟨_, -, rank, hstart⟩ := shows_run runningSession_inv runningSession_clean hcr3 (.nil _) trivial
  obtain ⟨a, d1, hs1, hstep1, hblocks1, hleft⟩ := hstart.alloc_one hplain (by decide) (Nat.le_trans (by decide) hfree)
  have hfree1 : 8 ≤ d1.session.machine.pmm.freeSet.card + 4 := hfree.trans hleft
  obtain ⟨_, -, rank1, h1⟩ := hstart.step hs1 hstep1
  obtain ⟨b, d2, hs2, hstep2, hblocks2, -⟩ := h1.alloc_one hplain (by decide) (by omega)
  obtain ⟨_, -, rank2, h2⟩ := h1.step hs2 hstep2
  have hblocks : d2.blocks = [⟨b.toNat, 4096⟩, ⟨a.toNat, 4096⟩] := by
    rw [hblocks2, hblocks1]
  obtain ⟨ha8, d3, hs3, hstep3, hblocks3⟩ := h2.store_first (a := a) (by rw [hblocks]; simp) 0x2a#64
  obtain ⟨_, -, rank3, h3⟩ := h2.step hs3 hstep3
  obtain ⟨hb8, d4, hs4, hstep4, hblocks4⟩ := h3.store_first (a := b) (by rw [hblocks3, hblocks]; simp) 0x2b#64
  have hkept := memory_kept runningSession_inv runningSession_clean hcr3
    (.cons hstep1 (.cons hstep2 (.cons hstep3 (.cons hstep4 (.nil _)))))
    (along_cons hs1 hstep1 (along_cons hs2 hstep2 (along_cons hs3 hstep3 (along_cons hs4 hstep4 trivial))))
  have hend : d4.blocks = [⟨b.toNat, 4096⟩, ⟨a.toNat, 4096⟩] := by
    rw [hblocks4, hblocks3, hblocks]
  have hin (c : Word) : Block.Has ⟨c.toNat, 4096⟩ c.toNat := Block.has_base (by decide)
  have hapart := hkept.apart
  rw [hend] at hapart
  have hne : a ≠ b := by
    rintro rfl
    exact (List.pairwise_cons.mp hapart).1 _ (List.mem_singleton_self _) a.toNat (hin a) (hin a)
  have hne' : b.toNat ≠ a.toNat := fun h => hne (BitVec.eq_of_toNat_eq h.symm)
  refine ⟨a, b, d4, hkept, hne, ?_, ?_⟩
  · rw [hkept.reads _ (by rw [hend]; simp) a (hin a) ha8]
    simp [lastStored, DriverOp.shown, hne']
  · rw [hkept.reads _ (by rw [hend]; simp) b (hin b) hb8]
    simp [lastStored, DriverOp.shown]

end Driver

end HaiirOS
