/- Module: EmergenceOS/Vdev/TopologyFilling
   digest: Before the pool is full, the manifold is a map from addresses to bytes. -/

import EmergenceOS.Vdev.TopologyRuns
import Mathlib.Data.Finset.Card

/-!
The first 1024 vblocks take the slots in order, and no slot has held anything before.
Until then nothing is discarded, and what was never written reads as zero.
-/

set_option autoImplicit false
set_option relaxedAutoImplicit false

namespace EmergenceOS.Vdev.Topology.SubstrateManifold

open EmergenceOS.Lib.Bytes

/-- An address rounded down to its atom. -/
def aligned (vaddr : BitVec 64) : BitVec 64 := BitVec.ofNat 64 (16 * (vaddr.toNat / 16))

theorem toNat_aligned (vaddr : BitVec 64) : (aligned vaddr).toNat = 16 * (vaddr.toNat / 16) := by
  have hlt := vaddr.isLt
  rw [aligned, BitVec.toNat_ofNat]
  omega

theorem vblockOf_aligned (vaddr : BitVec 64) : vblockOf (aligned vaddr) = vblockOf vaddr := by
  apply BitVec.eq_of_toNat_eq
  rw [toNat_vblockOf, toNat_vblockOf, toNat_aligned]
  simp only [blockBytes]
  omega

theorem atomOf_aligned (vaddr : BitVec 64) : atomOf (aligned vaddr) = atomOf vaddr := by
  rw [atomOf, atomOf, toNat_aligned]
  omega

/-- A write starts at the atom of its address. -/
theorem materializeRange_aligned (m : SubstrateManifold) (vaddr : BitVec 64) (data : Buffer)
    (len : Nat) :
    m.materializeRange (aligned vaddr) data len = m.materializeRange vaddr data len := by
  rw [materializeRange_eq, materializeRange_eq, vblockOf_aligned, atomOf_aligned]

/-- The vblocks touched so far are resident, in the first slots; the rest of the pool is blank. -/
structure Filling (m : SubstrateManifold) (touched : Finset (BitVec 64)) : Prop where
  counter : m.vblockCounter = BitVec.ofNat 32 touched.card
  resident : ∀ v, (∃ i, m.slots i = some v) ↔ v ∈ touched
  vacant : ∀ i : Fin cachePoolSize, touched.card ≤ i.val → m.slots i = none
  blank : ∀ i : Fin cachePoolSize, touched.card ≤ i.val → ∀ o, m.slotBytes i o = 0

theorem filling_zeroed : Filling zeroed ∅ := by
  refine ⟨rfl, fun v => ?_, fun i _ => ?_, fun i _ o => rfl⟩ <;> simp [zeroed]

section
variable {m : SubstrateManifold} {touched : Finset (BitVec 64)}

/-- The first slots, in order, have the vblocks touched so far, whatever the pool held before. -/
structure Occupied (m : SubstrateManifold) (touched : Finset (BitVec 64)) : Prop where
  counter : m.vblockCounter = BitVec.ofNat 32 touched.card
  resident : ∀ v, (∃ i, m.slots i = some v) ↔ v ∈ touched
  vacant : ∀ i : Fin cachePoolSize, touched.card ≤ i.val → m.slots i = none

theorem occupied_construct (pool : Buffer) (map : Fin cachePoolSize → BitVec 64) :
    Occupied (construct pool map) ∅ := by
  refine ⟨rfl, fun v => ?_, fun i _ => ?_⟩ <;> simp

theorem Filling.occupied (h : Filling m touched) : Occupied m touched :=
  ⟨h.counter, h.resident, h.vacant⟩

/-- While there is room, the victim is the next slot in order. -/
theorem Occupied.victim_val (h : Occupied m touched) (hroom : touched.card < cachePoolSize) :
    m.victim.val = touched.card := by
  simp only [cachePoolSize] at hroom
  rw [victim, h.counter, Fin.val_ofNat, BitVec.toNat_ofNat, cachePoolSize]
  omega

theorem Occupied.findBlock_eq_none_iff (h : Occupied m touched) (v : BitVec 64) :
    m.findBlock v = none ↔ v ∉ touched := by
  rw [← h.resident, SubstrateManifold.findBlock_eq_none_iff, not_exists]

theorem exists_update_iff {p : Fin cachePoolSize} (hp : m.slots p = none) (v v' : BitVec 64) :
    (∃ i, Function.update m.slots p (some v) i = some v') ↔ v' = v ∨ ∃ i, m.slots i = some v' := by
  constructor
  · rintro ⟨i, hi⟩
    by_cases hip : i = p
    · rw [hip, Function.update_self] at hi
      exact Or.inl (Option.some.inj hi).symm
    · rw [Function.update_of_ne hip] at hi
      exact Or.inr ⟨i, hi⟩
  · rintro (rfl | ⟨i, hi⟩)
    · exact ⟨p, Function.update_self ..⟩
    · have hip : i ≠ p := by
        rintro rfl
        rw [hp] at hi
        cases hi
      exact ⟨i, by rw [Function.update_of_ne hip, hi]⟩

/-- A write while there is room, or to a vblock that has been touched. -/
theorem Occupied.materializeRange (h : Occupied m touched) (vaddr : BitVec 64) (data : Buffer)
    (len : Nat) (hroom : (insert (vblockOf vaddr) touched).card ≤ cachePoolSize) :
    Occupied (m.materializeRange vaddr data len) (insert (vblockOf vaddr) touched) := by
  have hslots := materializeRange_slots m vaddr data len
  cases hf : m.findBlock (vblockOf vaddr) with
  | some p =>
    have hmem := (h.resident _).mp ⟨p, slots_of_findBlock hf⟩
    rw [place_of_findBlock hf] at hslots
    rw [Finset.insert_eq_of_mem hmem]
    refine ⟨?_, fun v => ?_, fun i hi => ?_⟩
    · rw [materializeRange_eq, place_of_findBlock hf]
      exact h.counter
    · rw [hslots]
      exact h.resident v
    · rw [hslots]
      exact h.vacant i hi
  | none =>
    have hnot := (h.findBlock_eq_none_iff _).mp hf
    have hcard := Finset.card_insert_of_notMem hnot
    obtain ⟨hvictim, hplace, hcounter⟩ := place_of_absent hf
    have hval := h.victim_val (by omega)
    rw [hplace, hvictim] at hslots
    refine ⟨?_, fun v => ?_, fun i hi => ?_⟩
    · rw [materializeRange_eq]
      simp only [hcounter, h.counter, hcard, BitVec.ofNat_add]
      rfl
    · rw [hslots, Finset.mem_insert, ← h.resident]
      exact exists_update_iff (h.vacant m.victim (by omega)) (vblockOf vaddr) v
    · have hne : i ≠ m.victim := by
        rintro rfl
        omega
      rw [hslots, Function.update_of_ne hne]
      exact h.vacant i (by omega)

theorem byteOf_of_findBlock {v : BitVec 64} {i : Fin cachePoolSize} (h : m.findBlock v = some i)
    (o : Fin blockBytes) : m.byteOf v o.val = m.slotBytes i o := by
  rw [byteOf, h]
  rfl

theorem byteOf_of_absent {v : BitVec 64} (h : m.findBlock v = none) (o : Nat) :
    m.byteOf v o = 0 := by
  rw [byteOf, h]

/-- A vblock created in a vacant slot hides no other one. -/
theorem findBlock_update {p : Fin cachePoolSize} (hp : m.slots p = none) {v v' : BitVec 64}
    (hne : v' ≠ v) {m' : SubstrateManifold}
    (hslots : m'.slots = Function.update m.slots p (some v)) :
    m'.findBlock v' = m.findBlock v' := by
  rw [findBlock_eq_find_slots, findBlock_eq_find_slots, hslots]
  congr 1
  funext i
  by_cases hip : i = p
  · simp [hip, hp, hne.symm]
  · rw [Function.update_of_ne hip]

/-- While there is room, a write leaves the lookup of every other vblock alone. -/
theorem Occupied.findBlock_materializeRange_ne (h : Occupied m touched) {vaddr : BitVec 64}
    (data : Buffer) (len : Nat) (hroom : (insert (vblockOf vaddr) touched).card ≤ cachePoolSize)
    {v : BitVec 64} (hv : v ≠ vblockOf vaddr) :
    (m.materializeRange vaddr data len).findBlock v = m.findBlock v := by
  rw [findBlock_materializeRange]
  cases hf : m.findBlock (vblockOf vaddr) with
  | some p => rw [place_of_findBlock hf]
  | none =>
    have hcard := Finset.card_insert_of_notMem ((h.findBlock_eq_none_iff _).mp hf)
    obtain ⟨hvictim, hplace, -⟩ := place_of_absent hf
    have hval := h.victim_val (by omega)
    rw [hvictim] at hplace
    exact findBlock_update (h.vacant m.victim (by omega)) hv hplace

/-- While there is room, an in-block write changes the bytes of its range, and what its vblock
has outside the range is what the slot had. -/
theorem Occupied.byteOf_materializeRange (h : Occupied m touched) {vaddr : BitVec 64}
    (data : Buffer) {len : Nat} (haligned : vaddr.toNat % 16 = 0)
    (hblock : vaddr.toNat % blockBytes + len ≤ blockBytes)
    (hroom : (insert (vblockOf vaddr) touched).card ≤ cachePoolSize) (v : BitVec 64)
    (o : Fin blockBytes) : (m.materializeRange vaddr data len).byteOf v o.val =
      if v = vblockOf vaddr then
        (rangeBytes vaddr data len o).getD (m.slotBytes (m.place (vblockOf vaddr)).1 o)
      else m.byteOf v o.val := by
  have hbytes := slotBytes_materializeRange m data haligned hblock
  by_cases hv : v = vblockOf vaddr
  · subst hv
    have hfind := findBlock_place m (vblockOf vaddr)
    rw [← findBlock_materializeRange data] at hfind
    rw [if_pos rfl, byteOf_of_findBlock hfind, hbytes, if_pos rfl]
  · have hfind := h.findBlock_materializeRange_ne data len hroom hv
    rw [if_neg hv]
    cases hcur : m.findBlock v with
    | none => rw [byteOf_of_absent hcur, byteOf_of_absent (hfind.trans hcur)]
    | some i =>
      have hne : i ≠ (m.place (vblockOf vaddr)).1 := by
        rintro rfl
        have hslot := slots_of_findBlock (findBlock_place m (vblockOf vaddr))
        rw [← materializeRange_slots m vaddr data len,
          slots_of_findBlock (hfind.trans hcur)] at hslot
        exact hv (Option.some.inj hslot)
      rw [byteOf_of_findBlock hcur, byteOf_of_findBlock (hfind.trans hcur), hbytes, if_neg hne]

/-- What the slot of a vblock holds before a write: its bytes, or zeros in a new one. -/
theorem Filling.slotBytes_place (h : Filling m touched) {v : BitVec 64}
    (hroom : (insert v touched).card ≤ cachePoolSize) (o : Fin blockBytes) :
    m.slotBytes (m.place v).1 o = m.byteOf v o.val := by
  cases hf : m.findBlock v with
  | some p => rw [place_of_findBlock hf, byteOf_of_findBlock hf]
  | none =>
    have hcard := Finset.card_insert_of_notMem ((h.occupied.findBlock_eq_none_iff _).mp hf)
    have hval := h.occupied.victim_val (by omega)
    rw [(place_of_absent hf).1, byteOf_of_absent hf, h.blank m.victim (by omega)]

/-- An in-block write while there is room, or to a vblock that has been touched. -/
theorem Filling.materializeRange (h : Filling m touched) {vaddr : BitVec 64} {data : Buffer}
    {len : Nat} (hop : (Op.materialize vaddr data len).InBlock)
    (hroom : (insert (vblockOf vaddr) touched).card ≤ cachePoolSize) :
    Filling (m.materializeRange vaddr data len) (insert (vblockOf vaddr) touched) := by
  have hnext := h.occupied.materializeRange vaddr data len hroom
  refine ⟨hnext.counter, hnext.resident, hnext.vacant, fun i hi o => ?_⟩
  have hslot := slots_of_findBlock (findBlock_place m (vblockOf vaddr))
  have hne : i ≠ (m.place (vblockOf vaddr)).1 := by
    rintro rfl
    rw [← materializeRange_slots m vaddr data len, hnext.vacant _ hi] at hslot
    cases hslot
  rw [slotBytes_materializeRange m data hop.1 hop.2.2, if_neg hne]
  exact h.blank i ((Finset.card_le_card (Finset.subset_insert _ _)).trans hi) o

/-- While there is room, a write changes the bytes of its range and no others. -/
theorem Filling.byteOf_materializeRange (h : Filling m touched) {vaddr : BitVec 64}
    {data : Buffer} {len : Nat} (hop : (Op.materialize vaddr data len).InBlock)
    (hroom : (insert (vblockOf vaddr) touched).card ≤ cachePoolSize) (v : BitVec 64)
    (o : Fin blockBytes) : (m.materializeRange vaddr data len).byteOf v o.val =
      if v = vblockOf vaddr then (rangeBytes vaddr data len o).getD (m.byteOf v o.val)
      else m.byteOf v o.val := by
  rw [h.occupied.byteOf_materializeRange data hop.1 hop.2.2 hroom, h.slotBytes_place hroom]
  by_cases hv : v = vblockOf vaddr
  · rw [if_pos hv, if_pos hv, hv]
  · rw [if_neg hv, if_neg hv]

end

end EmergenceOS.Vdev.Topology.SubstrateManifold
