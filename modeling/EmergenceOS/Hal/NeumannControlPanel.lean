/- Module: EmergenceOS/Hal/NeumannControlPanel
   digest: The numbers on the control panel and the buffers they are written to. -/

import EmergenceOS.Hal.IntToStr
import EmergenceOS.Mm.DynamicAllocator
import EmergenceOS.Vdev.Topology

set_option autoImplicit false
set_option relaxedAutoImplicit false

namespace EmergenceOS.Hal.NeumannControlPanel

open EmergenceOS.Lib.Bytes EmergenceOS.Lib.Decimal EmergenceOS.Hal.Graphics
open EmergenceOS.Mm EmergenceOS.Mm.DynamicResourceAllocator EmergenceOS.Vdev.Topology

/-- sizeof of c_buf, n_buf, b_buf and f_buf. -/
def bufferSize : Nat := 16

/-- SubstrateManifold::get_used_blocks. -/
def getUsedBlocks (m : SubstrateManifold) : BitVec 64 := m.vblockCounter.setWidth 64

/-- The numbers that draw_panel converts, in order. -/
def panelNumbers (activeCores activeNodes : BitVec 32) (manifold : SubstrateManifold)
    (frame : BitVec 32) : List (BitVec 64) :=
  [activeCores.setWidth 64, activeNodes.setWidth 64, getUsedBlocks manifold,
    (frame % 2048).setWidth 64]

/-- The panel as the shell draws it, from the allocator's counters. -/
def shownNumbers (resources : DynamicResourceAllocator) (manifold : SubstrateManifold)
    (frame : BitVec 32) : List (BitVec 64) :=
  panelNumbers resources.getActiveCores resources.getActiveNodes manifold frame

theorem toNat_setWidth_lt (x : BitVec 32) : (x.setWidth 64).toNat < 10 ^ 10 := by
  have hx := x.isLt
  rw [BitVec.toNat_setWidth]
  omega

/-- All of them are 32-bit counters. -/
theorem panelNumbers_lt {activeCores activeNodes : BitVec 32} {manifold : SubstrateManifold}
    {frame : BitVec 32} {n : BitVec 64}
    (hn : n ∈ panelNumbers activeCores activeNodes manifold frame) : n.toNat < 10 ^ 10 := by
  simp only [panelNumbers, List.mem_cons, List.not_mem_nil, or_false] at hn
  rcases hn with rfl | rfl | rfl | rfl
  · exact toNat_setWidth_lt activeCores
  · exact toNat_setWidth_lt activeNodes
  · exact toNat_setWidth_lt manifold.vblockCounter
  · exact toNat_setWidth_lt (frame % 2048)

/-- One digit for the cores, four for the phase, and what 32 bits take for the counters. -/
theorem shownNumbers_lengths (resources : DynamicResourceAllocator) (manifold : SubstrateManifold)
    (frame : BitVec 32) :
    List.Forall₂ (fun n k => (numeral n.toNat).length ≤ k)
      (shownNumbers resources manifold frame) [1, 10, 10, 4] := by
  have hcores := getActiveCores_le_two resources
  have hlit : (2048 : BitVec 32).toNat = 2048 := rfl
  refine .cons ?_ (.cons ?_ (.cons ?_ (.cons ?_ .nil)))
  · apply length_numeral_le (by decide)
    rw [BitVec.toNat_setWidth]
    omega
  · exact length_numeral_le (by decide) (toNat_setWidth_lt _)
  · exact length_numeral_le (by decide) (toNat_setWidth_lt _)
  · apply length_numeral_le (by decide)
    rw [BitVec.toNat_setWidth, BitVec.toNat_umod, hlit]
    omega

/-- Every number is written as its numeral, within tmp, and those on the panel fit their
buffers together with the terminator. -/
theorem numerals_fit :
    (∀ (n : BitVec 64) (tmp str : Buffer), ∃ r, intToStr n tmp str = some r ∧ Writes n str r) ∧
    ∀ (resources : DynamicResourceAllocator) (manifold : SubstrateManifold) (frame : BitVec 32),
      ∀ n ∈ shownNumbers resources manifold frame, ∀ tmp str : Buffer,
        ∃ r, intToStr n tmp str = some r ∧ Writes n str r ∧ r.1 + 1 ≤ bufferSize := by
  refine ⟨fun n tmp str => ?_, fun resources manifold frame n hn tmp str => ?_⟩
  · obtain ⟨r, hrun, hwrites, -⟩ := intToStr_writes n tmp str
    exact ⟨r, hrun, hwrites⟩
  · obtain ⟨r, hrun, hwrites, hlength⟩ := intToStr_writes n tmp str
    have hle := length_numeral_le (k := 10) (by decide) (panelNumbers_lt hn)
    refine ⟨r, hrun, hwrites, ?_⟩
    rw [bufferSize]
    omega

end EmergenceOS.Hal.NeumannControlPanel
