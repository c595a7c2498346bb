import HaiirOS.Proofs.Booted

/-!
# The rights of a mapping

A mapping reaches its frame. It grants the rights that its flags ask for exactly where the
entries that earlier mappings left on the way permit them: the walk gives the flags to an
entry that is not present and leaves a present one alone.
-/

namespace HaiirOS

open Runs

/-- The rights that flags ask for. -/
def PageFlags.rights (flags : PageFlags) : Rights := ⟨flags.getLsbD 1, flags.getLsbD 2, flags.getLsbD 63⟩

/-- Rights that grant what the flags ask for become the flags' own at the leaf entry. -/
lemma meet_leaf_eq_iff {flags : PageFlags} {f : Nat} (hf : f < 2 ^ 40) (r : Rights) :
    r.meet (BitVec.ofNat 64 (f * 4096) ||| flags) = flags.rights ↔ Grants r flags := by
  obtain ⟨rw, ru, rx⟩ := r
  have hbit {i : Nat} (hi : i < 12 ∨ 52 ≤ i) : (BitVec.ofNat 64 (f * 4096) ||| flags).getLsbD i = flags.getLsbD i :=
    Tables.flag_word hf hi
  simp only [Rights.meet, PageFlags.rights, Grants, hbit (by decide : 1 < 12 ∨ 52 ≤ 1), hbit (by decide : 2 < 12 ∨ 52 ≤ 2),
    hbit (by decide : 63 < 12 ∨ 52 ≤ 63), Rights.mk.injEq]
  cases flags.getLsbD 1 <;> cases flags.getLsbD 2 <;> cases flags.getLsbD 63 <;> cases rw <;> cases ru <;>
    cases rx <;> decide

namespace Session

/-- A sound map reaches its frame, and it grants what it asks for if and only if the entries on the way
permit it. -/
lemma Inv.map_reaches {w : WindowTables} {rank : Nat → Nat} {s : Session} (h : s.Inv w rank) {root f : Nat}
    {page : Word} {flags : PageFlags} (hs : s.MapOk root page f flags) (hpres : flags.getLsbD 0 = true) :
    ∃ m' rank' p, s.machine.map (frameAddr root) page (frameAddr f) flags = some m' ∧
      Session.Inv w rank' ⟨m', s.roots⟩ ∧ leafTable m'.mem page 3 root = some p ∧
      (mmu m'.mem root page).map Translation.phys = some (f * 4096 + page.toNat % 4096) ∧
      (mmu m'.mem root page = some ⟨f * 4096 + page.toNat % 4096, flags.rights⟩ ↔
        Permits s.machine.mem flags page 3 root) := by
  obtain ⟨m', rank', p, hmap, hinv, hmapped, hrights⟩ := h.map hs
  have hroot : rank' root = 4 := (hinv.roots root).mp hs.known
  have hleaf : (m'.mem (slot p (lvIndex page 1))).getLsbD 0 = true := by
    rw [hmapped.entry, frameAddr, Tables.flag_word hs.fits (by decide), hpres]
  have hwalk := hmapped.tables.mmuWalk_present hroot hmapped.leaf hleaf .all
  rw [hmapped.entry, frameAddr, Tables.frame_word hs.fits hs.plain] at hwalk
  have hall : Grants .all flags := ⟨fun _ => rfl, fun _ => rfl, fun h => by cases h⟩
  refine ⟨m', rank', p, hmap, hinv, hmapped.leaf, ?_, ?_⟩
  · rw [mmu, hwalk]
    rfl
  · rw [mmu, hwalk, Option.some.injEq, Translation.mk.injEq, meet_leaf_eq_iff hs.fits, hrights]
    constructor
    · rintro ⟨-, -, hp⟩
      exact hp
    · intro hp
      exact ⟨rfl, hall, hp⟩

/-- In every state that a sound run reaches, a map with enough empty frames reaches its frame, and it
grants what it asks for if and only if the entries on the way permit it. -/
theorem map_grants_iff {w : WindowTables} {pts : Nat → Nat} {m : Machine} (hboot : Booted w pts m)
    {ops : List PagingOp} {s : Session} (hrun : Run step ⟨m, [w.pml4]⟩ ops s)
    (hok : Along Sound step ⟨m, [w.pml4]⟩ ops) {root f : Nat} {page : Word} {flags : PageFlags}
    (hmap : s.MapOk root page f flags) (hpres : flags.getLsbD 0 = true) :
    ∃ m', s.machine.map (frameAddr root) page (frameAddr f) flags = some m' ∧
      (mmu m'.mem root page).map Translation.phys = some (f * 4096 + page.toNat % 4096) ∧
      (mmu m'.mem root page = some ⟨f * 4096 + page.toNat % 4096, flags.rights⟩ ↔
        Permits s.machine.mem flags page 3 root) := by
  obtain ⟨rank, hinv⟩ := hboot.inv.run hrun hok
  obtain ⟨m', -, -, hmap', -, -, hphys, hrights⟩ := hinv.map_reaches hmap hpres
  exact ⟨m', hmap', hphys, hrights⟩

/-- A user mapping in a new PML4 slot right after boot is granted. -/
theorem map_grants_iff_running : ∃ m',
    (runningMachine (fun _ => 0#64) reservedPmm).map (frameAddr 1) 0x8000000000#64 (frameAddr 0x900) 7#64 = some m' ∧
      (mmu m'.mem 1 0x8000000000#64).map Translation.phys = some (0x900 * 4096 + 0) ∧
      (mmu m'.mem 1 0x8000000000#64 = some ⟨0x900 * 4096 + 0, PageFlags.rights 7#64⟩ ↔
        Permits (runningMachine (fun _ => 0#64) reservedPmm).mem 7#64 0x8000000000#64 3 1) :=
  map_grants_iff (booted_running _ reservedPmm_valid fun _ hf => reservedPmm_used hf) (.nil _) trivial
    (mapOk_running (f := 0x900) (by decide) ⟨by decide, by decide⟩ (by decide)) (by decide)

/-- A user page next to a kernel page is not accessible to users. -/
theorem map_keeps_old_rights : ∃ s m', Booted bootWindow (4 + ·) (runningMachine (fun _ => 0#64) reservedPmm) ∧
    Run step ⟨runningMachine (fun _ => 0#64) reservedPmm, [1]⟩ [.mapFrame 0x8000000000#64 0x900 3#64] s ∧
    s.machine.map (frameAddr 1) 0x8000001000#64 (frameAddr 0x901) 7#64 = some m' ∧
    mmu m'.mem 1 0x8000001000#64 ≠ some ⟨0x901 * 4096, PageFlags.rights 7#64⟩ := by
  have hrun : (((runningMachine (fun _ => 0#64) reservedPmm).mapFrame 0x8000000000#64 (frameAddr 0x900) 3#64).bind fun m =>
      (m.map (frameAddr 1) 0x8000001000#64 (frameAddr 0x901) 7#64).map fun m' => mmu m'.mem 1 0x8000001000#64) =
      some (some ⟨0x901 * 4096, ⟨true, false, false⟩⟩) := by decide +kernel
  obtain ⟨m, hm, h⟩ := Option.bind_eq_some_iff.mp hrun
  obtain ⟨m', hm', hmmu⟩ := Option.map_eq_some_iff.mp h
  refine ⟨⟨m, [1]⟩, m', booted_running _ reservedPmm_valid fun _ hf => reservedPmm_used hf, .cons ?_ (.nil _), hm', ?_⟩
  · rw [step, exec, hm]
    rfl
  · rw [hmmu]
    decide

end Session

end HaiirOS
