/- Module: EmergenceOS/Vdev/Topology
   digest: The substrate manifold: a pool of 1024 blocks in front of a 64-bit address space. -/

import EmergenceOS.Lib.FifoCache
import EmergenceOS.Mm.Memory

/-!
The pool is byte memory seen from cache_pool_. Offsets from poolBytes on are the
memory behind the allocation, so a copy that leaves the pool is visible as such.
-/

set_option autoImplicit false
set_option relaxedAutoImplicit false

namespace EmergenceOS.Vdev.Topology

open EmergenceOS.Lib.Bytes EmergenceOS.Mm.Memory

/-- Two words with hi at the lower address. -/
@[ext] structure Value128 where
  hi : BitVec 64
  lo : BitVec 64
  deriving DecidableEq

/-- The sixteen bytes of the object, as data() exposes them. -/
def Value128.data (v : Value128) : Buffer :=
  fun k => if k < 8 then byteAt v.hi k else byteAt v.lo (k - 8)

def readAtom (mem : Buffer) (a : Nat) : Value128 :=
  ⟨ofBytes 64 (fun k => mem (a + k)) 8, ofBytes 64 (fun k => mem (a + 8 + k)) 8⟩

theorem readAtom_data (mem : Buffer) (a : Nat) {k : Nat} (hk : k < 16) :
    (readAtom mem a).data k = mem (a + k) := by
  by_cases h : k < 8
  · simp [Value128.data, readAtom, byteAt_ofBytes, h]
  · simp [Value128.data, readAtom, byteAt_ofBytes, h, show k - 8 < 8 by omega,
      show a + 8 + (k - 8) = a + k by omega]

theorem readAtom_congr {mem mem' : Buffer} {a a' : Nat}
    (h : ∀ k < 16, mem (a + k) = mem' (a' + k)) : readAtom mem a = readAtom mem' a' := by
  unfold readAtom
  congr 1
  · exact ofBytes_congr 64 8 fun k hk => h k (by omega)
  · apply ofBytes_congr 64 8
    intro k hk
    rw [Nat.add_assoc, Nat.add_assoc]
    exact h (8 + k) (by omega)

/-- Values with the same sixteen bytes are the same value. -/
theorem Value128.ext_data {x y : Value128} (h : ∀ k < 16, x.data k = y.data k) : x = y := by
  have parts (z : Value128) : z = readAtom z.data 0 := by
    have hhi := ofBytes_byteAt z.hi (m := 8) rfl
    have hlo := ofBytes_byteAt z.lo (m := 8) rfl
    apply Value128.ext
    · rw [← hhi]
      exact ofBytes_congr 64 8 fun k hk => by simp [Value128.data, hk]
    · rw [← hlo]
      exact ofBytes_congr 64 8 fun k _ => by simp [Value128.data]
  rw [parts x, parts y]
  exact readAtom_congr (by simpa using h)

structure Seed where
  hi : BitVec 64
  lo : BitVec 64
  deriving DecidableEq

inductive BlockState
  | empty | resident | dirty
  deriving DecidableEq

def cachePoolSize : Nat := 1024

instance : NeZero cachePoolSize := ⟨by decide⟩

/-- sizeof(Block): 1024 entries of 16 bytes. -/
def blockBytes : Nat := 1024 * 16

def poolBytes : Nat := blockBytes * cachePoolSize

structure SubstrateManifold where
  cachePool : Buffer
  cacheState : Fin cachePoolSize → BlockState
  vblockMap : Fin cachePoolSize → BitVec 64
  vblockCounter : BitVec 32

namespace SubstrateManifold

/-- The constructor empties the slots; pool and map keep what the storage held. -/
def construct (pool : Buffer) (map : Fin cachePoolSize → BitVec 64) : SubstrateManifold :=
  ⟨pool, fun _ => .empty, map, 0⟩

/-- The search loop of get_physical_block. Irreducible: no unifier should run 1024 turns of it. -/
@[irreducible] def findBlock (m : SubstrateManifold) (vblockIdx : BitVec 64) :
    Option (Fin cachePoolSize) :=
  (List.finRange cachePoolSize).find? fun i =>
    decide (m.cacheState i ≠ .empty) && decide (m.vblockMap i = vblockIdx)

/-- vblock_counter_ % CACHE_POOL_SIZE. -/
def victim (m : SubstrateManifold) : Fin cachePoolSize :=
  Fin.ofNat cachePoolSize m.vblockCounter.toNat

def getPhysicalBlock (m : SubstrateManifold) (vblockIdx : BitVec 64) (create : Bool) :
    BitVec 32 × SubstrateManifold :=
  match m.findBlock vblockIdx with
  | some i => (BitVec.ofNat 32 i.val, m)
  | none =>
    if !create then (0xFFFFFFFF, m) else
      (BitVec.ofNat 32 m.victim.val,
        { m with
          vblockMap := Function.update m.vblockMap m.victim vblockIdx
          cacheState := Function.update m.cacheState m.victim .resident
          vblockCounter := m.vblockCounter + 1 })

/-- The manifold that the constructor builds in zero-filled storage. -/
def zeroed : SubstrateManifold := construct (fun _ => 0) (fun _ => 0)

def vblockOf (vaddr : BitVec 64) : BitVec 64 := vaddr / (1024 * 16)

/-- Byte offset of cache_pool_[physIdx].entries[(vaddr / 16) % 1024] in the pool. -/
def entryOffset (physIdx : BitVec 32) (vaddr : BitVec 64) : Nat :=
  blockBytes * physIdx.toNat + 16 * (vaddr / 16 % 1024).toNat

def holographicFetch (m : SubstrateManifold) (vaddr : BitVec 64) :
    Value128 × SubstrateManifold :=
  let (physIdx, m) := m.getPhysicalBlock (vblockOf vaddr) false
  if physIdx = 0xFFFFFFFF then (⟨0, 0⟩, m)
  else (readAtom m.cachePool (entryOffset physIdx vaddr), m)

def materializeRange (m : SubstrateManifold) (vaddr : BitVec 64) (data : Buffer) (len : Nat) :
    SubstrateManifold :=
  let (physIdx, m) := m.getPhysicalBlock (vblockOf vaddr) true
  { m with cachePool := kmemcpy m.cachePool (entryOffset physIdx vaddr) data 0 len }

/-- What a slot carries: its vblock, unless it is EMPTY. -/
def slots (m : SubstrateManifold) : Fin cachePoolSize → Option (BitVec 64) :=
  fun i => if m.cacheState i = .empty then none else some (m.vblockMap i)

@[simp] theorem construct_slots (pool : Buffer) (map : Fin cachePoolSize → BitVec 64) :
    (construct pool map).slots = fun _ => none := by
  funext i
  simp [slots, construct]

/-- A vblock is resident when get_physical_block finds it without creating it. -/
def Resident (m : SubstrateManifold) (v : BitVec 64) : Prop :=
  (m.getPhysicalBlock v false).1 ≠ 0xFFFFFFFF

instance (m : SubstrateManifold) (v : BitVec 64) : Decidable (m.Resident v) :=
  inferInstanceAs (Decidable (_ ≠ _))

/-- Byte o of vblock v as a fetch sees it. -/
def byteOf (m : SubstrateManifold) (v : BitVec 64) (o : Nat) : Byte :=
  match m.findBlock v with
  | none => 0
  | some i => m.cachePool (blockBytes * i.val + o)

/-- The slot a creating lookup yields, and the manifold it leaves. -/
def place (m : SubstrateManifold) (v : BitVec 64) : Fin cachePoolSize × SubstrateManifold :=
  match m.findBlock v with
  | some i => (i, m)
  | none => (m.victim, (m.getPhysicalBlock v true).2)

/-- Byte offset of an address in its vblock, rounded down to its atom. -/
def atomOf (vaddr : BitVec 64) : Nat := 16 * (vaddr.toNat / 16 % 1024)

theorem findBlock_eq_find_slots (m : SubstrateManifold) (v : BitVec 64) :
    m.findBlock v = (List.finRange cachePoolSize).find? fun i => decide (m.slots i = some v) := by
  unfold findBlock slots
  congr 1
  funext i
  by_cases h : m.cacheState i = .empty <;> simp [h]

theorem findBlock_congr {m m' : SubstrateManifold} (h : m.slots = m'.slots) (v : BitVec 64) :
    m.findBlock v = m'.findBlock v := by
  rw [findBlock_eq_find_slots, findBlock_eq_find_slots, h]

theorem slots_of_findBlock {m : SubstrateManifold} {v : BitVec 64} {i : Fin cachePoolSize}
    (h : m.findBlock v = some i) : m.slots i = some v := by
  rw [findBlock_eq_find_slots] at h
  simpa using List.find?_some h

theorem findBlock_eq_none_iff {m : SubstrateManifold} {v : BitVec 64} :
    m.findBlock v = none ↔ ∀ i, m.slots i ≠ some v := by
  simp [findBlock_eq_find_slots]

/-- When a single slot carries v, the search finds that one. -/
theorem findBlock_of_unique {m : SubstrateManifold} {v : BitVec 64} {i : Fin cachePoolSize}
    (hi : m.slots i = some v) (huniq : ∀ j, m.slots j = some v → j = i) :
    m.findBlock v = some i := by
  cases hf : m.findBlock v with
  | none => exact absurd hi (findBlock_eq_none_iff.mp hf i)
  | some j => rw [huniq j (slots_of_findBlock hf)]

@[simp] theorem toNat_slotIndex (i : Fin cachePoolSize) :
    (BitVec.ofNat 32 i.val).toNat = i.val := by
  have := i.isLt
  simp only [cachePoolSize] at this
  simp only [BitVec.toNat_ofNat]
  omega

theorem slotIndex_ne_missing (i : Fin cachePoolSize) :
    BitVec.ofNat 32 i.val ≠ (0xFFFFFFFF : BitVec 32) := by
  intro h
  have hval := congrArg BitVec.toNat h
  have hlt := i.isLt
  rw [toNat_slotIndex] at hval
  simp only [cachePoolSize] at hlt
  have : (0xFFFFFFFF : BitVec 32).toNat = 4294967295 := rfl
  omega

theorem getPhysicalBlock_false (m : SubstrateManifold) (v : BitVec 64) :
    m.getPhysicalBlock v false =
      (((m.findBlock v).map fun i => BitVec.ofNat 32 i.val).getD 0xFFFFFFFF, m) := by
  unfold getPhysicalBlock
  cases m.findBlock v <;> rfl

theorem getPhysicalBlock_true (m : SubstrateManifold) (v : BitVec 64) :
    m.getPhysicalBlock v true = (BitVec.ofNat 32 (m.place v).1.val, (m.place v).2) := by
  unfold place
  cases h : m.findBlock v <;> simp [getPhysicalBlock, h]

theorem resident_iff {m : SubstrateManifold} {v : BitVec 64} :
    m.Resident v ↔ ∃ i, m.findBlock v = some i := by
  unfold Resident
  rw [getPhysicalBlock_false]
  cases h : m.findBlock v with
  | none => simp
  | some i => simpa using slotIndex_ne_missing i

theorem resident_iff_slots {m : SubstrateManifold} {v : BitVec 64} :
    m.Resident v ↔ ∃ i, m.slots i = some v := by
  rw [resident_iff]
  constructor
  · rintro ⟨i, hi⟩
    exact ⟨i, slots_of_findBlock hi⟩
  · rintro ⟨i, hi⟩
    cases hf : m.findBlock v with
    | none => exact absurd hi (findBlock_eq_none_iff.mp hf i)
    | some j => exact ⟨j, rfl⟩

theorem toNat_vblockOf (vaddr : BitVec 64) : (vblockOf vaddr).toNat = vaddr.toNat / blockBytes := by
  simp [vblockOf, blockBytes]

theorem entryOffset_slot (i : Fin cachePoolSize) (vaddr : BitVec 64) :
    entryOffset (BitVec.ofNat 32 i.val) vaddr = blockBytes * i.val + atomOf vaddr := by
  unfold entryOffset atomOf
  rw [toNat_slotIndex]
  simp

theorem atomOf_add_lt (vaddr : BitVec 64) {k : Nat} (hk : k < 16) :
    atomOf vaddr + k < blockBytes := by
  simp only [atomOf, blockBytes]
  omega

@[simp] theorem holographicFetch_snd (m : SubstrateManifold) (vaddr : BitVec 64) :
    (m.holographicFetch vaddr).2 = m := by
  unfold holographicFetch
  rw [getPhysicalBlock_false]
  dsimp only
  split <;> rfl

theorem holographicFetch_fst (m : SubstrateManifold) (vaddr : BitVec 64) :
    (m.holographicFetch vaddr).1 = match m.findBlock (vblockOf vaddr) with
      | none => ⟨0, 0⟩
      | some i => readAtom m.cachePool (blockBytes * i.val + atomOf vaddr) := by
  unfold holographicFetch
  rw [getPhysicalBlock_false]
  cases m.findBlock (vblockOf vaddr) with
  | none => simp
  | some i =>
    dsimp only [Option.map_some, Option.getD_some]
    rw [if_neg (slotIndex_ne_missing i), entryOffset_slot]

/-- The bytes a fetch returns. -/
theorem holographicFetch_data (m : SubstrateManifold) (vaddr : BitVec 64) {k : Nat} (hk : k < 16) :
    (m.holographicFetch vaddr).1.data k = m.byteOf (vblockOf vaddr) (atomOf vaddr + k) := by
  rw [holographicFetch_fst]
  unfold byteOf
  cases m.findBlock (vblockOf vaddr) with
  | none => simp [Value128.data, byteAt]
  | some i => rw [readAtom_data _ _ hk, Nat.add_assoc]

theorem holographicFetch_absent {m : SubstrateManifold} {vaddr : BitVec 64}
    (h : ¬m.Resident (vblockOf vaddr)) : (m.holographicFetch vaddr).1 = ⟨0, 0⟩ := by
  have hnone : m.findBlock (vblockOf vaddr) = none := by
    rw [resident_iff] at h
    exact Option.eq_none_iff_forall_ne_some.mpr fun i hi => h ⟨i, hi⟩
  rw [holographicFetch_fst, hnone]

@[simp] theorem place_cachePool (m : SubstrateManifold) (v : BitVec 64) :
    (m.place v).2.cachePool = m.cachePool := by
  unfold place
  cases h : m.findBlock v <;> simp [getPhysicalBlock, h]

theorem place_of_findBlock {m : SubstrateManifold} {v : BitVec 64} {i : Fin cachePoolSize}
    (h : m.findBlock v = some i) : m.place v = (i, m) := by
  simp [place, h]

theorem place_of_absent {m : SubstrateManifold} {v : BitVec 64} (h : m.findBlock v = none) :
    (m.place v).1 = m.victim ∧
      (m.place v).2.slots = Function.update m.slots (m.place v).1 (some v) ∧
      (m.place v).2.vblockCounter = m.vblockCounter + 1 := by
  refine ⟨by simp [place, h], ?_, by simp [place, getPhysicalBlock, h]⟩
  funext i
  by_cases hi : i = m.victim <;>
    simp [place, getPhysicalBlock, slots, h, hi]

/-- After a creating lookup its slot is the one the search finds. -/
theorem findBlock_place (m : SubstrateManifold) (v : BitVec 64) :
    (m.place v).2.findBlock v = some (m.place v).1 := by
  cases h : m.findBlock v with
  | some i => rw [place_of_findBlock h]; exact h
  | none =>
    obtain ⟨-, hslots, -⟩ := place_of_absent h
    apply findBlock_of_unique
    · rw [hslots, Function.update_self]
    · intro j hj
      by_contra hne
      rw [hslots, Function.update_of_ne hne] at hj
      exact findBlock_eq_none_iff.mp h j hj

/-- A write is a creating lookup followed by one linear copy into the pool. -/
theorem materializeRange_eq (m : SubstrateManifold) (vaddr : BitVec 64) (data : Buffer)
    (len : Nat) : m.materializeRange vaddr data len =
      { (m.place (vblockOf vaddr)).2 with
        cachePool := blit m.cachePool
          (blockBytes * (m.place (vblockOf vaddr)).1.val + atomOf vaddr) data 0 len } := by
  unfold materializeRange
  rw [getPhysicalBlock_true]
  dsimp only
  rw [kmemcpy_eq_blit, entryOffset_slot, place_cachePool]

@[simp] theorem materializeRange_slots (m : SubstrateManifold) (vaddr : BitVec 64)
    (data : Buffer) (len : Nat) :
    (m.materializeRange vaddr data len).slots = (m.place (vblockOf vaddr)).2.slots := by
  rw [materializeRange_eq]
  rfl

end SubstrateManifold

end EmergenceOS.Vdev.Topology
