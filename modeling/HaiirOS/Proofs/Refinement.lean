import HaiirOS.Proofs.BitmapPlacement
import HaiirOS.Proofs.Booted

/-!
# The window and physical memory

The walk through the window touches the words that the walk on physical memory touches, for
any placement of the PML4 and of the tables. The frames below 8 MiB that it reaches by their own
addresses have to be mapped one to one through entries that no walk writes, and the walk on
physical memory must not meet the window's entry as an entry of an upper table.
-/

namespace HaiirOS

theorem window_refines_physical {w : WindowTables} {low : Nat → Prop} {m : Machine} (h : WindowReady w low m) {root : Nat}
    (hroot : root < 2 ^ 40) (hlow : root < 0x800 → low root) (page frame : Word) (flags : PageFlags) :
    (Clear w low flags page 3 m root →
      (∃ p m', m.getEntry (frameAddr root) flags page = some (p, m') ∧
        Sim w.win (m.directEntry flags page 3 root).2 m' ∧ Found m' p (m.directEntry flags page 3 root).1) ∧
      ∃ m', m.map (frameAddr root) page frame flags = some m' ∧
        Sim w.win (m.directMap root page frame flags) m') ∧
    (Clear w low lookupOnly page 3 m root →
      ∃ m', m.unmap (frameAddr root) page = some m' ∧ Sim w.win (m.directUnmap root page) m') := by
  refine ⟨fun hclear => ⟨?_, ?_⟩, fun hclear => ?_⟩
  · obtain ⟨p, m', hget, -, hs, hfound⟩ := h.getEntry_eq (.refl _ _) hroot hlow hclear
    exact ⟨p, m', hget, hs, hfound⟩
  · obtain ⟨m', hmap, hs, -⟩ := h.map_eq hroot hlow hclear frame
    exact ⟨m', hmap, hs⟩
  · obtain ⟨m', hunmap, hs, -⟩ := h.unmap_eq hroot hlow hclear
    exact ⟨m', hunmap, hs⟩

/-- The machine that `map_bitmap` works on: the temporary allocator has the frames from `0x201` on as free. -/
def tmpMachine : Machine := runningMachine (fun _ => 0#64) reservedPmm.createTmpBitmap

/-- Under the temporary allocator a page in a new PML4 slot gets its three tables from below 8 MiB. -/
theorem window_refines_physical_tmp : ∃ m',
    tmpMachine.map (frameAddr 1) 0x8000000000#64 0x900000#64 3#64 = some m' ∧
      Sim bootWindow.win (tmpMachine.directMap 1 0x8000000000#64 0x900000#64 3#64) m' ∧
      leafTable m'.mem 0x8000000000#64 3 1 = some 0x203 := by
  have htmp := TmpPmm.create reservedPmm (by decide)
  have hused (f : Nat) (hf : f < 0x201) : reservedPmm.createTmpBitmap.used f = true := htmp.low f (by
    simp only [tmpBitmapFirstFrame, frameSize]
    omega)
  have hb := booted_running (fun _ => 0#64) reservedPmm_valid fun _ hf => reservedPmm_used hf
  have hready := hb.ready_under htmp.valid fun t ht => hused t (by
    have hall : ∀ t ∈ loaderTables bootWindow (4 + ·), t < 0x201 := by decide
    exact hall t ht)
  have hroot : 1 < 2 ^ 40 := by decide
  have hw := (window_refines_physical (m := tmpMachine) hready hroot (fun _ => ⟨by decide, hused 1 (by decide)⟩)
    0x8000000000#64 0x900000#64 3#64).1
  obtain ⟨m', hmap, hsim⟩ := (hw (by decide +kernel)).2
  refine ⟨m', hmap, hsim, ?_⟩
  have hrun : (tmpMachine.map (frameAddr 1) 0x8000000000#64 0x900000#64 3#64).map
      (fun m => leafTable m.mem 0x8000000000#64 3 1) = some (some 0x203) := by decide +kernel
  rw [hmap] at hrun
  exact Option.some.inj hrun

end HaiirOS
