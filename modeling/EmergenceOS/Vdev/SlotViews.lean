/- Module: EmergenceOS/Vdev/SlotViews
   digest: The slot operations and the address operations as two views of the same blocks. -/

import EmergenceOS.Vdev.TopologySlots

/-!
A slot operation reaches the first atom of a block by its place in the pool, an address
operation by the first address of the vblock that the block is for. The slot operations
do not look at the tags of the other slots.
-/

set_option autoImplicit false
set_option relaxedAutoImplicit false

namespace EmergenceOS.Vdev.Topology.SubstrateManifold

open EmergenceOS.Lib.Bytes EmergenceOS.Mm.Memory EmergenceOS.Lib.GuardedRun

/-- The returned length, and the buffer. -/
def readSlot (m : SubstrateManifold) (slot : BitVec 16) (out : Buffer) (maxLen : Nat) :
    Nat × Buffer :=
  let physIdx := slotIndex slot
  if m.cacheState physIdx = .empty then (0, out)
  else
    let toRead := if maxLen < 16 then maxLen else 16
    (toRead, kmemcpy out 0 m.cachePool (blockBytes * physIdx.val) toRead)

/-- Where a vblock begins. -/
def firstAddr (v : BitVec 64) : BitVec 64 := v * (1024 * 16)

/-- A slot and the first address of a vblock are the same place: a read of the slot gives what
a fetch gives, and a write to the slot does what a materialization does. -/
structure SamePlace (m : SubstrateManifold) (slot : BitVec 16) (v : BitVec 64) : Prop where
  reads : ∀ out maxLen, m.readSlot slot out maxLen =
    (min maxLen 16,
      blit out 0 (m.holographicFetch (firstAddr v)).1.data 0 (min maxLen 16))
  writes : ∀ data len, m.writeSlot slot data len =
    (min len 16, m.materializeRange (firstAddr v) data (min len 16))

def ViewsAgree (m : SubstrateManifold) : Prop :=
  ∀ slot v, m.slots (slotIndex slot) = some v → m.SamePlace slot v

/-- Every tag has an address, and no slot is DIRTY. -/
structure Addressable (m : SubstrateManifold) : Prop where
  small : ∀ i, (m.vblockMap i).toNat < 2 ^ 50
  clean : ∀ i, m.cacheState i ≠ .dirty

/-- write_slot on an EMPTY slot finds a map entry that no slot in use carries. -/
def History.RevivesAlone (h : History) : SlotOp → Prop
  | .writeSlot slot _ _ => h.manifold.slots (slotIndex slot) = none →
      ∀ i, h.manifold.slots i ≠ some (h.manifold.vblockMap (slotIndex slot))
  | _ => True

theorem clamp_eq (n : Nat) : (if n < 16 then n else 16) = min n 16 := by
  split <;> omega

theorem vblockOf_firstAddr {v : BitVec 64} (hv : v.toNat < 2 ^ 50) :
    vblockOf (firstAddr v) = v ∧ atomOf (firstAddr v) = 0 := by
  have haddr : (firstAddr v).toNat = v.toNat * 16384 := by
    have hmul : (firstAddr v).toNat = v.toNat * 16384 % 2 ^ 64 := BitVec.toNat_mul _ _
    rw [hmul]
    omega
  constructor
  · apply BitVec.eq_of_toNat_eq
    rw [toNat_vblockOf, haddr]
    simp only [blockBytes]
    omega
  · rw [atomOf, haddr]
    omega

section
variable {m : SubstrateManifold} {slot : BitVec 16} {v : BitVec 64}

theorem cacheState_of_slots (hm : m.Addressable) {i : Fin cachePoolSize}
    (hi : m.slots i = some v) : m.cacheState i = .resident := by
  cases hstate : m.cacheState i with
  | empty =>
    rw [slots, if_pos hstate] at hi
    cases hi
  | resident => rfl
  | dirty => exact absurd hstate (hm.clean i)

/-- The only slot that carries a vblock is where its addresses are. -/
theorem samePlace_of_findBlock (hm : m.Addressable)
    (hslot : m.slots (slotIndex slot) = some v) (hfind : m.findBlock v = some (slotIndex slot)) :
    m.SamePlace slot v := by
  have hstate := cacheState_of_slots hm hslot
  have hsmall : v.toNat < 2 ^ 50 := vblockMap_of_slots hslot ▸ hm.small (slotIndex slot)
  obtain ⟨hblock, hatom⟩ := vblockOf_firstAddr hsmall
  constructor
  · intro out maxLen
    have hused : ¬m.cacheState (slotIndex slot) = .empty := by
      rw [hstate]
      decide
    rw [readSlot, if_neg hused, clamp_eq]
    simp only [kmemcpy_eq_blit]
    rw [holographicFetch_fst, hblock, hfind]
    refine congrArg _ (blit_congr out 0 fun k hk => ?_)
    simp only
    rw [readAtom_data _ _ (by omega), hatom, Nat.add_zero, Nat.zero_add]
  · intro data len
    rw [writeSlot, clamp_eq, kmemcpy_eq_blit, materializeRange_eq, hblock, hatom,
      place_of_findBlock hfind, ← hstate, Function.update_eq_self]
    rfl

/-- A slot whose vblock is found elsewhere is another place: a write there does not move. -/
theorem findBlock_of_samePlace (hm : m.Addressable) (hslot : m.slots (slotIndex slot) = some v)
    (h : m.SamePlace slot v) : m.findBlock v = some (slotIndex slot) := by
  have hsmall : v.toNat < 2 ^ 50 := vblockMap_of_slots hslot ▸ hm.small (slotIndex slot)
  obtain ⟨hblock, hatom⟩ := vblockOf_firstAddr hsmall
  cases hfind : m.findBlock v with
  | none => exact absurd hslot (findBlock_eq_none_iff.mp hfind (slotIndex slot))
  | some p =>
    by_contra hne
    have hp : p ≠ slotIndex slot := fun hp => hne (congrArg some hp)
    have hval : p.val ≠ (slotIndex slot).val := fun hp' => hp (Fin.ext hp')
    -- one byte that differs from the one at the address
    have hwrite := congrArg (fun r => r.2.cachePool (blockBytes * p.val))
      (h.writes (fun _ => ~~~m.cachePool (blockBytes * p.val)) 1)
    simp only [writeSlot, clamp_eq, kmemcpy_eq_blit, materializeRange_eq, hblock, hatom,
      place_of_findBlock hfind] at hwrite
    rw [blit_outside _ _ (by simp only [blockBytes]; omega),
      blit_inside _ _ (by omega) (by omega)] at hwrite
    have hbit := congrArg (BitVec.getLsbD · 0) hwrite
    simp at hbit

theorem slotIndex_ofNat (i : Fin cachePoolSize) : slotIndex (BitVec.ofNat 16 i.val) = i := by
  have hi : i.val < 1024 := i.isLt
  apply Fin.ext
  have hval : (slotIndex (BitVec.ofNat 16 i.val)).val = (BitVec.ofNat 16 i.val).toNat % 1024 := rfl
  rw [hval, BitVec.toNat_ofNat]
  omega

/-- The views agree exactly if no two slots in use carry one vblock. -/
theorem viewsAgree_iff (hm : m.Addressable) : m.ViewsAgree ↔ m.Distinct := by
  constructor
  · intro h i j v hi hj
    have hfind (i : Fin cachePoolSize) (hi : m.slots i = some v) : m.findBlock v = some i := by
      have hi' := hi
      rw [← slotIndex_ofNat i] at hi'
      rw [findBlock_of_samePlace hm hi' (h _ v hi'), slotIndex_ofNat]
    exact Option.some.inj ((hfind i hi).symm.trans (hfind j hj))
  · intro h slot v hslot
    exact samePlace_of_findBlock hm hslot
      (findBlock_of_unique hslot fun j hj => h j (slotIndex slot) v hj hslot)

theorem Addressable.place (hm : m.Addressable) (hv : v.toNat < 2 ^ 50) :
    (m.place v).2.Addressable := by
  cases hfind : m.findBlock v with
  | some i =>
    rw [place_of_findBlock hfind]
    exact hm
  | none =>
    have hplaced : (m.place v).2 = { m with
        vblockMap := Function.update m.vblockMap m.victim v
        cacheState := Function.update m.cacheState m.victim .resident
        vblockCounter := m.vblockCounter + 1 } := by
      simp [SubstrateManifold.place, getPhysicalBlock, hfind]
    rw [hplaced]
    refine ⟨?_, ?_⟩
    · exact (Function.forall_update_iff m.vblockMap (p := fun _ x => x.toNat < 2 ^ 50)).mpr
        ⟨hv, fun i _ => hm.small i⟩
    · exact (Function.forall_update_iff m.cacheState (p := fun _ x => x ≠ .dirty)).mpr
        ⟨BlockState.noConfusion, fun i _ => hm.clean i⟩

/-- A slot changes to a state that is not DIRTY. -/
theorem Addressable.setState (hm : m.Addressable) (i : Fin cachePoolSize) {state : BlockState}
    (hstate : state ≠ .dirty) (pool : Buffer) :
    Addressable { m with
      cacheState := Function.update m.cacheState i state
      cachePool := pool } :=
  ⟨hm.small, (Function.forall_update_iff m.cacheState (p := fun _ x => x ≠ .dirty)).mpr
    ⟨hstate, fun j _ => hm.clean j⟩⟩

theorem Addressable.materializeRange (hm : m.Addressable) (vaddr : BitVec 64) (data : Buffer)
    (len : Nat) : (m.materializeRange vaddr data len).Addressable := by
  have hlt := vaddr.isLt
  have hplaced := hm.place (v := vblockOf vaddr) (by
    rw [toNat_vblockOf]
    simp only [blockBytes]
    omega)
  rw [materializeRange_eq]
  exact ⟨hplaced.small, hplaced.clean⟩

end

namespace History

variable {h : History}

theorem addressable_step (h : History) (op : SlotOp) (hm : h.manifold.Addressable) :
    (h.step op).manifold.Addressable := by
  cases op with
  | materialize vaddr data len => exact hm.materializeRange vaddr data len
  | fetch vaddr =>
    simp only [step, holographicFetch_snd]
    exact hm
  | writeSlot slot data len => exact hm.setState _ (by decide) _
  | clearSlot slot => exact hm.setState _ (by decide) _

theorem exists_graph {n : Nat} {β : Type} (f : Fin n → β) :
    ∃ l : List (Fin n × β), ∀ i, (i, f i) ∈ l :=
  ⟨List.ofFn fun i => (i, f i), fun i => List.mem_ofFn.mpr ⟨i, rfl⟩⟩

/-- Distinct tags are in order where each counts as created. -/
theorem tagged_of_distinct {m : SubstrateManifold} (hm : m.Distinct)
    {created : List (Fin cachePoolSize × BitVec 64)} (h : ∀ i, (i, m.vblockMap i) ∈ created) :
    Tagged ⟨m, created⟩ :=
  ⟨hm, fun i _ hi => vblockMap_of_slots hi ▸ h i⟩

theorem distinct_step_iff (h : History) (op : SlotOp) (hm : h.manifold.Distinct) :
    (h.step op).manifold.Distinct ↔ h.RevivesAlone op := by
  obtain ⟨created, hcreated⟩ := exists_graph h.manifold.vblockMap
  have htagged := tagged_of_distinct hm hcreated
  cases op with
  | materialize vaddr data len =>
    exact iff_of_true (htagged.materialize vaddr data len).distinct trivial
  | fetch vaddr =>
    simp only [step, holographicFetch_snd]
    exact iff_of_true hm trivial
  | clearSlot slot => exact iff_of_true (htagged.clearSlot slot).distinct trivial
  | writeSlot slot data len =>
    have hiff := tagged_writeSlot_iff htagged slot data len
    constructor
    · intro hnext hempty
      -- write_slot leaves the tags
      have hnext' : Tagged (step ⟨h.manifold, created⟩ (.writeSlot slot data len)) :=
        tagged_of_distinct hnext hcreated
      exact (hiff.mp hnext' hempty).2
    · intro hok
      exact (hiff.mpr fun hempty => ⟨hcreated _, hok hempty⟩).distinct

/-- In every run, slots and addresses stay two views of the same blocks exactly as long as
write_slot revives no slot whose vblock another slot in use carries. -/
theorem viewsAgree_iff_revivesAlone (pool : Buffer) (ops : List SlotOp) :
    Throughout step (fun h => h.manifold.ViewsAgree) (start pool) ops ↔
      Guarded step RevivesAlone (start pool) ops := by
  have hstep (h : History) (op : SlotOp) (hm : h.manifold.Addressable)
      (hagree : h.manifold.ViewsAgree) :
      (h.step op).manifold.ViewsAgree ↔ h.RevivesAlone op :=
    (viewsAgree_iff (addressable_step h op hm)).trans
      (distinct_step_iff h op ((viewsAgree_iff hm).mp hagree))
  have hfirst : (start pool).manifold.Addressable :=
    ⟨fun _ => Nat.two_pow_pos 50, fun _ => BlockState.noConfusion⟩
  exact throughout_iff_guarded (fun h => h.manifold.Addressable) addressable_step hstep hfirst
    ((viewsAgree_iff hfirst).mpr (start_tagged pool).distinct)

end History

end EmergenceOS.Vdev.Topology.SubstrateManifold
