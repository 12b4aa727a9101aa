/- Module: EmergenceOS/Vdev/TopologySlots
   digest: The slot operations next to the address operations: when tags stay unique. -/

import EmergenceOS.Lib.GuardedRun
import EmergenceOS.Vdev.TopologyRange

/-!
write_slot and clear_slot change the state of a slot and leave its map entry alone.
A slot that write_slot revives answers for whatever vblock its entry still names.
-/

set_option autoImplicit false
set_option relaxedAutoImplicit false

namespace EmergenceOS.Vdev.Topology.SubstrateManifold

open EmergenceOS.Lib.Bytes EmergenceOS.Mm.Memory EmergenceOS.Lib.GuardedRun

/-- slot % CACHE_POOL_SIZE. -/
def slotIndex (slot : BitVec 16) : Fin cachePoolSize := Fin.ofNat cachePoolSize slot.toNat

def writeSlot (m : SubstrateManifold) (slot : BitVec 16) (data : Buffer) (len : Nat) :
    Nat × SubstrateManifold :=
  let physIdx := slotIndex slot
  let toWrite := if len < 16 then len else 16
  (toWrite, { m with
    cacheState := Function.update m.cacheState physIdx .resident
    cachePool := kmemcpy m.cachePool (blockBytes * physIdx.val) data 0 toWrite })

def clearSlot (m : SubstrateManifold) (slot : BitVec 16) : SubstrateManifold :=
  { m with cacheState := Function.update m.cacheState (slotIndex slot) .empty }

inductive SlotOp
  | materialize (vaddr : BitVec 64) (data : Buffer) (len : Nat)
  | fetch (vaddr : BitVec 64)
  | writeSlot (slot : BitVec 16) (data : Buffer) (len : Nat)
  | clearSlot (slot : BitVec 16)

/-- A manifold and the creations behind it: which vblock was created in which slot. -/
structure History where
  manifold : SubstrateManifold
  created : List (Fin cachePoolSize × BitVec 64)

/-- The creation of a materialize_range: none when the vblock is resident. -/
def creation (m : SubstrateManifold) (v : BitVec 64) : List (Fin cachePoolSize × BitVec 64) :=
  match m.findBlock v with
  | some _ => []
  | none => [(m.victim, v)]

namespace History

def step (h : History) : SlotOp → History
  | .materialize vaddr data len =>
    ⟨h.manifold.materializeRange vaddr data len, h.manifold.creation (vblockOf vaddr) ++ h.created⟩
  | .fetch vaddr => { h with manifold := (h.manifold.holographicFetch vaddr).2 }
  | .writeSlot slot data len => { h with manifold := (h.manifold.writeSlot slot data len).2 }
  | .clearSlot slot => { h with manifold := h.manifold.clearSlot slot }

/-- The object in zero-filled storage; the pool is whatever memory was allocated. -/
def start (pool : Buffer) : History := ⟨construct pool fun _ => 0, []⟩

/-- No two slots in use carry one vblock, and each carries one that was created in it. -/
structure Tagged (h : History) : Prop where
  distinct : h.manifold.Distinct
  created : ∀ i v, h.manifold.slots i = some v → (i, v) ∈ h.created

/-- write_slot on an EMPTY slot finds a map entry that was created there and that no slot in
use carries; the other operations are always allowed. -/
def Revives (h : History) : SlotOp → Prop
  | .writeSlot slot _ _ => h.manifold.slots (slotIndex slot) = none →
      (slotIndex slot, h.manifold.vblockMap (slotIndex slot)) ∈ h.created ∧
      ∀ i, h.manifold.slots i ≠ some (h.manifold.vblockMap (slotIndex slot))
  | _ => True

end History

theorem writeSlot_slots (m : SubstrateManifold) (slot : BitVec 16) (data : Buffer) (len : Nat) :
    (m.writeSlot slot data len).2.slots =
      Function.update m.slots (slotIndex slot) (some (m.vblockMap (slotIndex slot))) := by
  funext i
  by_cases hi : i = slotIndex slot <;> simp [writeSlot, slots, hi]

theorem clearSlot_slots (m : SubstrateManifold) (slot : BitVec 16) :
    (m.clearSlot slot).slots = Function.update m.slots (slotIndex slot) none := by
  funext i
  by_cases hi : i = slotIndex slot <;> simp [clearSlot, slots, hi]

theorem vblockMap_of_slots {m : SubstrateManifold} {i : Fin cachePoolSize} {v : BitVec 64}
    (h : m.slots i = some v) : m.vblockMap i = v := by
  unfold slots at h
  split at h
  · cases h
  · exact Option.some.inj h

namespace History

variable {h : History}

/-- A slot takes a new tag: the tags stay in order if no other slot carries it. -/
theorem Tagged.retag (hs : h.Tagged) {m : SubstrateManifold} {p : Fin cachePoolSize}
    {v : BitVec 64} {created : List (Fin cachePoolSize × BitVec 64)}
    (hslots : m.slots = Function.update h.manifold.slots p (some v))
    (hnew : ∀ i, h.manifold.slots i ≠ some v) (hv : (p, v) ∈ created)
    (hsub : ∀ c ∈ h.created, c ∈ created) : Tagged ⟨m, created⟩ := by
  refine ⟨fun i i' w hi hi' => ?_, fun i w hi => ?_⟩
  · simp only [hslots] at hi hi'
    by_cases hp : i = p
    · subst hp
      rw [Function.update_self, Option.some.injEq] at hi
      subst hi
      by_contra hne
      rw [Function.update_of_ne (Ne.symm hne)] at hi'
      exact hnew i' hi'
    · rw [Function.update_of_ne hp] at hi
      by_cases hp' : i' = p
      · subst hp'
        rw [Function.update_self, Option.some.injEq] at hi'
        exact absurd (hi' ▸ hi) (hnew i)
      · rw [Function.update_of_ne hp'] at hi'
        exact hs.distinct i i' w hi hi'
  · simp only [hslots] at hi
    by_cases hp : i = p
    · subst hp
      rw [Function.update_self, Option.some.injEq] at hi
      exact hi ▸ hv
    · rw [Function.update_of_ne hp] at hi
      exact hsub _ (hs.created i w hi)

theorem Tagged.materialize (hs : h.Tagged) (vaddr : BitVec 64) (data : Buffer) (len : Nat) :
    (h.step (.materialize vaddr data len)).Tagged := by
  cases hf : h.manifold.findBlock (vblockOf vaddr) with
  | some i =>
    have hslots : (h.manifold.materializeRange vaddr data len).slots = h.manifold.slots := by
      rw [materializeRange_slots, place_of_findBlock hf]
    simp only [step, creation, hf, List.nil_append]
    refine ⟨fun i i' v => ?_, fun i v => ?_⟩
    · simp only [hslots]
      exact hs.distinct i i' v
    · simp only [hslots]
      exact hs.created i v
  | none =>
    obtain ⟨hvictim, hslots, -⟩ := place_of_absent hf
    simp only [step, creation, hf]
    rw [← materializeRange_slots h.manifold vaddr data len, hvictim] at hslots
    exact hs.retag hslots (findBlock_eq_none_iff.mp hf) List.mem_cons_self
      fun c hc => List.mem_cons_of_mem _ hc

theorem Tagged.clearSlot (hs : h.Tagged) (slot : BitVec 16) :
    (h.step (.clearSlot slot)).Tagged := by
  have hold : ∀ i v, (h.manifold.clearSlot slot).slots i = some v →
      h.manifold.slots i = some v := by
    intro i v hi
    rw [clearSlot_slots] at hi
    by_cases hp : i = slotIndex slot
    · subst hp
      rw [Function.update_self] at hi
      cases hi
    · rwa [Function.update_of_ne hp] at hi
  exact ⟨fun i i' v hi hi' => hs.distinct i i' v (hold i v hi) (hold i' v hi'),
    fun i v hi => hs.created i v (hold i v hi)⟩

theorem tagged_writeSlot_iff (hs : h.Tagged) (slot : BitVec 16) (data : Buffer) (len : Nat) :
    (h.step (.writeSlot slot data len)).Tagged ↔ h.Revives (.writeSlot slot data len) := by
  have hslots := writeSlot_slots h.manifold slot data len
  constructor
  · intro hnext hempty
    have htag : (h.step (.writeSlot slot data len)).manifold.slots (slotIndex slot) =
        some (h.manifold.vblockMap (slotIndex slot)) := by
      simp only [step, hslots, Function.update_self]
    refine ⟨hnext.created _ _ htag, fun i hi => ?_⟩
    have hne : i ≠ slotIndex slot := by
      rintro rfl
      rw [hempty] at hi
      cases hi
    have hsame : (h.step (.writeSlot slot data len)).manifold.slots i =
        some (h.manifold.vblockMap (slotIndex slot)) := by
      simp only [step, hslots, Function.update_of_ne hne, hi]
    exact hne (hnext.distinct _ _ _ hsame htag)
  · intro hok
    cases hcur : h.manifold.slots (slotIndex slot) with
    | none =>
      obtain ⟨hcreated, hnew⟩ := hok hcur
      exact hs.retag hslots hnew hcreated fun c hc => hc
    | some v =>
      -- a slot in use keeps its tag
      have hsame : (h.manifold.writeSlot slot data len).2.slots = h.manifold.slots := by
        rw [hslots, vblockMap_of_slots hcur, ← hcur, Function.update_eq_self]
      refine ⟨fun i i' w => ?_, fun i w => ?_⟩
      · simp only [step, hsame]
        exact hs.distinct i i' w
      · simp only [step, hsame]
        exact hs.created i w

theorem tagged_step_iff (h : History) (op : SlotOp) (hs : h.Tagged) :
    (h.step op).Tagged ↔ h.Revives op := by
  cases op with
  | materialize vaddr data len => exact iff_of_true (hs.materialize vaddr data len) trivial
  | fetch vaddr =>
    refine iff_of_true ?_ trivial
    simpa only [step, holographicFetch_snd] using hs
  | writeSlot slot data len => exact tagged_writeSlot_iff hs slot data len
  | clearSlot slot => exact iff_of_true (hs.clearSlot slot) trivial

theorem start_tagged (pool : Buffer) : (start pool).Tagged := by
  refine ⟨fun i i' v hi => ?_, fun i v hi => ?_⟩
  · simp [start] at hi
  · simp [start] at hi

/-- The tags stay unique and created in place exactly as long as write_slot revives only
slots whose vblock was created there and has not come back elsewhere. -/
theorem tagged_iff_revives (pool : Buffer) (ops : List SlotOp) :
    Throughout step Tagged (start pool) ops ↔ Guarded step Revives (start pool) ops :=
  throughout_iff_of_step_iff tagged_step_iff (start_tagged pool)

/-- Two fresh slots both answer for vblock 0, which nobody created. -/
theorem not_tagged_fresh_slots : ¬Throughout step Tagged (start fun _ => 0)
    [.writeSlot 0 (fun _ => 1) 16, .writeSlot 1 (fun _ => 1) 16] := by
  intro h
  have hslot (i : Fin cachePoolSize) (hi : i.val < 2) :
      ([SlotOp.writeSlot 0 (fun _ => 1) 16, .writeSlot 1 (fun _ => 1) 16].foldl step
        (start fun _ => 0)).manifold.slots i = some 0 := by
    simp only [List.foldl_cons, List.foldl_nil, step, writeSlot_slots]
    rcases Nat.lt_succ_iff_lt_or_eq.mp hi with h0 | h1
    · obtain rfl : i = slotIndex 0 := Fin.ext (by rw [Nat.lt_one_iff.mp h0]; rfl)
      rw [Function.update_of_ne (by decide), Function.update_self]
      rfl
    · obtain rfl : i = slotIndex 1 := Fin.ext h1
      rw [Function.update_self]
      rfl
  have hsame := h.last.distinct ⟨0, by decide⟩ ⟨1, by decide⟩ 0 (hslot _ (by decide))
    (hslot _ (by decide))
  exact absurd (congrArg Fin.val hsame) (by decide)

end History

end EmergenceOS.Vdev.Topology.SubstrateManifold
