/- Module: EmergenceOS/Vdev/TopologyVictim
   digest: Which slot a creation takes over, next to slots that are still EMPTY. -/

import EmergenceOS.Lib.RingHand
import EmergenceOS.Vdev.TopologyRuns
import EmergenceOS.Vdev.TopologySlots
import Mathlib.Data.Fintype.Card

/-!
The victim is the counter modulo the pool size, whatever the states of the slots say.
Creations alone keep the two in step; write_slot and clear_slot change states and not
the counter.
-/

set_option autoImplicit false
set_option relaxedAutoImplicit false

namespace EmergenceOS.Vdev.Topology.SubstrateManifold

open EmergenceOS.Lib.Bytes EmergenceOS.Lib.GuardedRun EmergenceOS.Lib.RingHand

/-- The slots in the order in which creations take them over. -/
def ring (m : SubstrateManifold) : FreeRing cachePoolSize :=
  ⟨m.victim, fun i => m.cacheState i = .empty⟩

/-- Creating a vblock takes over an EMPTY slot, if there is one. -/
def Spares (m : SubstrateManifold) : Prop :=
  ∀ i, m.cacheState i = .empty → m.cacheState m.victim = .empty

/-- So it does after any operations of the address space. -/
def KeepsSparing (m : SubstrateManifold) : Prop := ∀ ops : List Op, (m.run ops).Spares

theorem slots_eq_none_iff {m : SubstrateManifold} {i : Fin cachePoolSize} :
    m.slots i = none ↔ m.cacheState i = .empty := by
  unfold slots
  split <;> simp_all

/-- The ring is determined by the slots and the counter. -/
theorem ring_congr {m m' : SubstrateManifold} (hslots : m'.slots = m.slots)
    (hcounter : m'.vblockCounter = m.vblockCounter) : m'.ring = m.ring := by
  refine FreeRing.ext ?_ (funext fun i => propext ?_)
  · simp only [ring, victim, hcounter]
  · simp only [ring, ← slots_eq_none_iff, hslots]

theorem toNat_victim (m : SubstrateManifold) : m.victim.val = m.vblockCounter.toNat % 1024 := rfl

/-- A creation takes the slot at the hand. -/
theorem ring_place_of_absent {m : SubstrateManifold} {v : BitVec 64}
    (h : m.findBlock v = none) : (m.place v).2.ring = m.ring.take := by
  obtain ⟨hvictim, hslots, hcounter⟩ := place_of_absent h
  refine FreeRing.ext (Fin.ext ?_) (funext fun i => propext ?_)
  · have hnext : (m.vblockCounter + 1).toNat = (m.vblockCounter.toNat + 1) % 2 ^ 32 :=
      BitVec.toNat_add _ _
    simp only [ring, FreeRing.take, toNat_victim, hcounter, hnext, cachePoolSize]
    omega
  · simp only [ring, FreeRing.take, ← slots_eq_none_iff, hslots, hvictim]
    by_cases hi : i = m.victim
    · subst hi
      simp
    · simp [hi]

theorem ring_materializeRange (m : SubstrateManifold) (vaddr : BitVec 64) (data : Buffer)
    (len : Nat) : (m.materializeRange vaddr data len).ring =
      if m.findBlock (vblockOf vaddr) = none then m.ring.take else m.ring := by
  have hcopy : (m.materializeRange vaddr data len).ring = (m.place (vblockOf vaddr)).2.ring :=
    ring_congr (materializeRange_slots m vaddr data len) (by rw [materializeRange_eq])
  rw [hcopy]
  split
  · rename_i habsent
    exact ring_place_of_absent habsent
  · rename_i hfound
    obtain ⟨i, hi⟩ := Option.ne_none_iff_exists'.mp hfound
    rw [place_of_findBlock hi]

theorem ring_writeSlot (m : SubstrateManifold) (slot : BitVec 16) (data : Buffer) (len : Nat) :
    (m.writeSlot slot data len).2.ring = m.ring.occupy (slotIndex slot) := by
  refine FreeRing.ext rfl (funext fun i => propext ?_)
  by_cases hi : i = slotIndex slot <;> simp [ring, FreeRing.occupy, writeSlot, hi]

theorem ring_clearSlot (m : SubstrateManifold) (slot : BitVec 16) :
    (m.clearSlot slot).ring = m.ring.release (slotIndex slot) := by
  refine FreeRing.ext rfl (funext fun i => propext ?_)
  by_cases hi : i = slotIndex slot <;> simp [ring, FreeRing.release, clearSlot, hi]

/-- The pool is too small for 1025 vblocks. -/
theorem exists_absent (m : SubstrateManifold) :
    ∃ vaddr, m.findBlock (vblockOf vaddr) = none := by
  by_contra hall
  have hfound (n : Fin (cachePoolSize + 1)) : ∃ i, m.slots i = some (BitVec.ofNat 64 n.val) := by
    have hn := n.isLt
    simp only [cachePoolSize] at hn
    obtain ⟨i, hi⟩ := Option.ne_none_iff_exists'.mp
      (not_exists.mp hall (BitVec.ofNat 64 (blockBytes * n.val)))
    rw [vblockOf_block (by omega)] at hi
    exact ⟨i, slots_of_findBlock hi⟩
  choose slot hslot using hfound
  have hinj : Function.Injective slot := by
    intro n n' he
    have hv := (hslot n).symm.trans (he ▸ hslot n')
    have hnat := congrArg BitVec.toNat (Option.some.inj hv)
    have hn := n.isLt
    have hn' := n'.isLt
    simp only [cachePoolSize] at hn hn'
    simp only [BitVec.toNat_ofNat] at hnat
    exact Fin.ext (by omega)
  have hcard := Fintype.card_le_of_injective slot hinj
  simp only [Fintype.card_fin] at hcard
  omega

theorem inFront_run {m : SubstrateManifold} (h : m.ring.InFront) (ops : List Op) :
    (m.run ops).ring.InFront := by
  refine List.foldlRecOn (motive := fun m => m.ring.InFront) ops Op.apply h fun m h op _ => ?_
  cases op with
  | materialize vaddr data len =>
    rw [Op.apply, ring_materializeRange]
    split
    · exact h.take
    · exact h
  | fetch vaddr => rwa [Op.apply, holographicFetch_snd]

/-- There are always vblocks left to create. -/
theorem exists_run_take (m : SubstrateManifold) (k : Nat) :
    ∃ ops, (m.run ops).ring = FreeRing.take^[k] m.ring := by
  induction k with
  | zero => exact ⟨[], rfl⟩
  | succ k ih =>
    obtain ⟨ops, hops⟩ := ih
    obtain ⟨vaddr, habsent⟩ := exists_absent (m.run ops)
    refine ⟨ops ++ [.materialize vaddr (fun _ => 0) 0], ?_⟩
    rw [run_append, run_singleton, Op.apply, ring_materializeRange, if_pos habsent, hops,
      Function.iterate_succ_apply']

theorem keepsSparing_iff (m : SubstrateManifold) : m.KeepsSparing ↔ m.ring.InFront := by
  constructor
  · intro h
    refine FreeRing.inFront_iff_spares_iterate.mpr fun k => ?_
    obtain ⟨ops, hops⟩ := exists_run_take m k
    rw [← hops]
    exact h ops
  · exact fun h ops => (inFront_run h ops).spares

namespace History

/-- write_slot leaves no EMPTY slot for creations to come to later than to its own;
clear_slot frees a slot that they come to only after EMPTY ones. -/
def InStep (h : History) : SlotOp → Prop
  | .writeSlot slot _ _ => ∀ i, h.manifold.cacheState i = .empty →
      h.manifold.ring.ahead i ≤ h.manifold.ring.ahead (slotIndex slot)
  | .clearSlot slot => ∀ i, h.manifold.ring.ahead i < h.manifold.ring.ahead (slotIndex slot) →
      h.manifold.cacheState i = .empty
  | _ => True

theorem keepsSparing_step_iff (h : History) (op : SlotOp) (hs : h.manifold.KeepsSparing) :
    (h.step op).manifold.KeepsSparing ↔ h.InStep op := by
  rw [keepsSparing_iff] at hs ⊢
  cases op with
  | materialize vaddr data len =>
    refine iff_of_true ?_ trivial
    rw [step, ring_materializeRange]
    split
    · exact hs.take
    · exact hs
  | fetch vaddr =>
    refine iff_of_true ?_ trivial
    rwa [step, holographicFetch_snd]
  | writeSlot slot data len =>
    rw [step, ring_writeSlot]
    exact FreeRing.inFront_occupy_iff hs (slotIndex slot)
  | clearSlot slot =>
    rw [step, ring_clearSlot]
    exact FreeRing.inFront_release_iff hs (slotIndex slot)

theorem start_keepsSparing (pool : Buffer) : (start pool).manifold.KeepsSparing :=
  (keepsSparing_iff _).mpr fun _ _ _ _ => rfl

/-- Creations take over EMPTY slots as long as there are any, in every state of a run and
however it goes on without slot operations, exactly if the slot operations of the run keep
the EMPTY slots in front of the victim. -/
theorem keepsSparing_iff_inStep (pool : Buffer) (ops : List SlotOp) :
    Throughout step (fun h => h.manifold.KeepsSparing) (start pool) ops ↔
      Guarded step InStep (start pool) ops :=
  throughout_iff_of_step_iff keepsSparing_step_iff (start_keepsSparing pool)

/-- Slot 0 is in use, slots 1 to 1023 are not, and the next vblock goes to slot 0. -/
theorem not_spares_after_writeSlot :
    ¬Throughout step (fun h => h.manifold.Spares) (start fun _ => 0)
      [.writeSlot 0 (fun _ => 1) 16] := by
  intro h
  have hspared := h.2 ⟨1, by decide⟩ (by simp only [step, writeSlot, start, construct]; decide)
  simp only [step, writeSlot, start, construct] at hspared
  exact absurd hspared (by decide)

end History

end EmergenceOS.Vdev.Topology.SubstrateManifold
