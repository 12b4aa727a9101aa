/- Module: EmergenceOS/Core/SpatialResolve
   digest: Operations looked up at the exclusive or of their operands: which tables can hold. -/

import EmergenceOS.Core.LogicTransducer

/-!
The opcode and the operands share the bits of one coordinate, and the coordinate is a byte
address. What is lost on the way is lost for every manifold.
-/

set_option autoImplicit false
set_option relaxedAutoImplicit false

namespace EmergenceOS.Core.LogicTransducer

open EmergenceOS.Lib.Bytes EmergenceOS.Lib.Walk
open EmergenceOS.Vdev.Topology EmergenceOS.Vdev.Topology.SubstrateManifold

/-- ((uint64_t)opcode << 56) | (a ^ b) -/
def intentCoord (opcode : Byte) (a b : BitVec 64) : BitVec 64 :=
  (opcode.setWidth 64 <<< 56) ||| (a ^^^ b)

def resolveSpatial (manifold : SubstrateManifold) (opcode : Byte) (a b : BitVec 64) :
    BitVec 64 × SubstrateManifold :=
  let (resultAtom, manifold) := manifold.holographicFetch (intentCoord opcode a b)
  (resultAtom.lo, manifold)

def topologicalAesRound (manifold : SubstrateManifold) (state key : BitVec 64 × BitVec 64) :
    (BitVec 64 × BitVec 64) × SubstrateManifold :=
  let (first, manifold) := resolveSpatial manifold 0xAE state.1 key.1
  let (second, manifold) := resolveSpatial manifold 0xAE state.2 key.2
  ((first, second), manifold)

/-- A result that is burned for an operation and its operands. -/
structure SpatialEntry where
  opcode : Byte
  a : BitVec 64
  b : BitVec 64
  result : BitVec 64

def SpatialEntry.coord (e : SpatialEntry) : BitVec 64 := intentCoord e.opcode e.a e.b

/-- The burns that tabulate the entries. -/
def spatialBurns (entries : List SpatialEntry) : List (BitVec 64 × BitVec 64) :=
  entries.map fun e => (e.coord, e.result)

/-- Bits of the exclusive or that reach the atom: not the lowest four, and not those that the
opcode sets. -/
def distinguished (opcode : Byte) : BitVec 64 := ~~~(opcode.setWidth 64 <<< 56) &&& ~~~0xF#64

theorem resolveSpatial_fst (manifold : SubstrateManifold) (opcode : Byte) (a b : BitVec 64) :
    (resolveSpatial manifold opcode a b).1 =
      (manifold.holographicFetch (intentCoord opcode a b)).1.lo := rfl

theorem resolveSpatial_snd (manifold : SubstrateManifold) (opcode : Byte) (a b : BitVec 64) :
    (resolveSpatial manifold opcode a b).2 = manifold := holographicFetch_snd _ _

/-- The atom of a coordinate is all but its lowest four bits. -/
theorem div_sixteen_eq_iff (x y : BitVec 64) :
    x / 16 = y / 16 ↔ ∀ i, 4 ≤ i → x.getLsbD i = y.getLsbD i := by
  rw [← BitVec.toNat_inj, toNat_div_sixteen, toNat_div_sixteen]
  constructor
  · intro h i hi
    have hbit := congrArg (·.testBit (i - 4)) h
    simp only [show 16 = 2 ^ 4 from rfl, Nat.testBit_div_two_pow, Nat.sub_add_cancel hi] at hbit
    exact hbit
  · intro h
    apply Nat.eq_of_testBit_eq
    intro i
    rw [show 16 = 2 ^ 4 from rfl, Nat.testBit_div_two_pow, Nat.testBit_div_two_pow]
    exact h (i + 4) (Nat.le_add_left 4 i)

/-- For one operation the atoms tell the distinguished bits apart, and nothing else. -/
theorem sameAtom_coord_iff (opcode : Byte) (a b a' b' : BitVec 64) :
    intentCoord opcode a b / 16 = intentCoord opcode a' b' / 16 ↔
      (a ^^^ b) &&& distinguished opcode = (a' ^^^ b') &&& distinguished opcode := by
  rw [div_sixteen_eq_iff, intentCoord, intentCoord]
  generalize a ^^^ b = x
  generalize a' ^^^ b' = y
  have hmask (i : Nat) : (0xF#64).getLsbD i = decide (i < 4) :=
    getLsbD_lowMask (w := 64) (n := 4) (by decide) i
  constructor
  · intro h
    apply BitVec.eq_of_getLsbD_eq
    intro i hi
    simp only [distinguished, BitVec.getLsbD_and, BitVec.getLsbD_not, hmask, hi, decide_true,
      Bool.true_and]
    by_cases hlow : i < 4
    · rw [decide_eq_true hlow, Bool.not_true, Bool.and_false, Bool.and_false, Bool.and_false]
    · have hbit := h i (Nat.not_lt.mp hlow)
      rw [BitVec.getLsbD_or, BitVec.getLsbD_or] at hbit
      cases hop : (opcode.setWidth 64 <<< 56).getLsbD i with
      | false =>
        rw [hop, Bool.false_or, Bool.false_or] at hbit
        rw [hbit]
      | true => rw [Bool.not_true, Bool.false_and, Bool.and_false, Bool.and_false]
  · intro h i hi
    have hbit := congrArg (·.getLsbD i) h
    by_cases hlt : i < 64
    · simp only [distinguished, BitVec.getLsbD_and, BitVec.getLsbD_not, hmask, hlt, decide_true,
        Bool.true_and, decide_eq_false (Nat.not_lt.mpr hi), Bool.not_false, Bool.and_true] at hbit
      rw [BitVec.getLsbD_or, BitVec.getLsbD_or]
      cases hop : (opcode.setWidth 64 <<< 56).getLsbD i with
      | false =>
        rw [hop, Bool.not_false, Bool.and_true, Bool.and_true] at hbit
        rw [hbit]
      | true => rw [Bool.true_or, Bool.true_or]
    · rw [BitVec.getLsbD_of_ge _ _ (Nat.not_lt.mp hlt),
        BitVec.getLsbD_of_ge _ _ (Nat.not_lt.mp hlt)]

/-- What the lookups find after the burns of a table. -/
theorem resolveSpatial_transduced {entries : List SpatialEntry}
    (h : (touched (spatialBurns entries)).card ≤ cachePoolSize) (opcode : Byte) (a b : BitVec 64) :
    (resolveSpatial (transduced (spatialBurns entries)) opcode a b).1 =
      (table (entries.map fun e => (e.coord / 16, e.result))
        (intentCoord opcode a b / 16)).getD 0 := by
  rw [resolveSpatial_fst, fetch_transduced h, atoms, spatialBurns, List.map_map]
  rfl

/-- A table of operations holds, every entry with its own result, exactly if no two entries whose
coordinates lie in one atom have different results. -/
theorem resolvesAll_iff (entries : List SpatialEntry)
    (h : (touched (spatialBurns entries)).card ≤ 1024) :
    (∀ e ∈ entries, (resolveSpatial (transduced (spatialBurns entries)) e.opcode e.a e.b).1 =
        e.result) ↔
      ∀ e ∈ entries, ∀ e' ∈ entries, e.coord / 16 = e'.coord / 16 → e.result = e'.result := by
  have hcomplete := table_complete_iff (entries.map fun e => (e.coord / 16, e.result))
  simp only [List.forall_mem_map] at hcomplete
  rw [← hcomplete]
  refine forall₂_congr fun e he => ?_
  rw [resolveSpatial_transduced h]
  obtain ⟨v, hv⟩ := exists_table_of_mem (List.mem_map_of_mem (f := fun e : SpatialEntry =>
    (e.coord / 16, e.result)) he)
  change (table _ (e.coord / 16)).getD 0 = _ ↔ _
  simp only at hv
  rw [hv, Option.getD_some, Option.some.injEq]

/-- Sums and products of 3 and 4, at coordinates of their own. -/
theorem resolvesAll_sum_product :
    let entries : List SpatialEntry := [⟨1, 0x30, 0x40, 7⟩, ⟨2, 0x30, 0x40, 12⟩]
    ∀ e ∈ entries, (resolveSpatial (transduced (spatialBurns entries)) e.opcode e.a e.b).1 =
      e.result := by
  intro entries
  exact (resolvesAll_iff entries (by decide)).mpr (by decide)

/-- Words that the opcode of a round keeps apart are told apart by a manifold with one atom. -/
theorem exists_manifold_ne {opcode : Byte} {a b a' b' : BitVec 64}
    (h : (a ^^^ b) &&& distinguished opcode ≠ (a' ^^^ b') &&& distinguished opcode) :
    ∃ manifold,
      (resolveSpatial manifold opcode a b).1 ≠ (resolveSpatial manifold opcode a' b').1 := by
  have hcard : (touched (spatialBurns [⟨opcode, a, b, 1⟩])).card ≤ cachePoolSize :=
    Nat.le_trans (List.toFinset_card_le _) (show 1 ≤ cachePoolSize by decide)
  refine ⟨transduced (spatialBurns [⟨opcode, a, b, 1⟩]), ?_⟩
  rw [resolveSpatial_transduced hcard, resolveSpatial_transduced hcard]
  have hne := mt (sameAtom_coord_iff opcode a b a' b').mp h
  change (table [(intentCoord opcode a b / 16, (1 : BitVec 64))] _).getD 0 ≠
    (table [(intentCoord opcode a b / 16, (1 : BitVec 64))] _).getD 0
  rw [table_singleton, Function.update_self, Function.update_of_ne (Ne.symm hne),
    Option.getD_some, Option.getD_none]
  change (1 : BitVec 64) ≠ 0
  decide

/-- Operands that agree in the distinguished bits give the same result in every manifold. -/
theorem resolveSpatial_eq_iff (opcode : Byte) (a b a' b' : BitVec 64) :
    (∀ manifold, (resolveSpatial manifold opcode a b).1 =
        (resolveSpatial manifold opcode a' b').1) ↔
      (a ^^^ b) &&& distinguished opcode = (a' ^^^ b') &&& distinguished opcode := by
  constructor
  · intro h
    by_contra hne
    obtain ⟨manifold, hmanifold⟩ := exists_manifold_ne hne
    exact hmanifold (h manifold)
  · intro h manifold
    have hatom := (sameAtom_coord_iff opcode a b a' b').mpr h
    have hblock := vblockOf_of_sameAtom hatom
    rw [resolveSpatial_fst, resolveSpatial_fst, holographicFetch_fst, holographicFetch_fst, hblock,
      (sameAtom_iff hblock).mp hatom]

theorem aesRound_fst (manifold : SubstrateManifold) (state key : BitVec 64 × BitVec 64) :
    (topologicalAesRound manifold state key).1 =
      ((resolveSpatial manifold 0xAE state.1 key.1).1,
        (resolveSpatial manifold 0xAE state.2 key.2).1) := by
  rw [topologicalAesRound]
  simp only [resolveSpatial_snd]

/-- Two rounds agree in every manifold exactly if their words agree in the distinguished bits:
the lowest four bits of a word, and bits 57, 58, 59, 61 and 63, never reach the result. -/
theorem aesRound_eq_iff (state key state' key' : BitVec 64 × BitVec 64) :
    (∀ manifold, (topologicalAesRound manifold state key).1 =
        (topologicalAesRound manifold state' key').1) ↔
      (state.1 ^^^ key.1) &&& 0x51FFFFFFFFFFFFF0 = (state'.1 ^^^ key'.1) &&& 0x51FFFFFFFFFFFFF0 ∧
        (state.2 ^^^ key.2) &&& 0x51FFFFFFFFFFFFF0 =
          (state'.2 ^^^ key'.2) &&& 0x51FFFFFFFFFFFFF0 := by
  have hmask : distinguished 0xAE = 0x51FFFFFFFFFFFFF0 := by decide
  rw [← hmask, ← resolveSpatial_eq_iff, ← resolveSpatial_eq_iff, ← forall_and]
  refine forall_congr' fun manifold => ?_
  rw [aesRound_fst, aesRound_fst, Prod.mk.injEq]

end EmergenceOS.Core.LogicTransducer
