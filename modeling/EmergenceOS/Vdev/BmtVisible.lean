/- Module: EmergenceOS/Vdev/BmtVisible
   digest: What reads still show of blocks that were cleared. -/

import EmergenceOS.Vdev.BmtWalk

/-!
A read copies the payload of an entry first and looks at its route afterwards, and
packing a route leaves the payload alone: the first entry of a free block can be read.
-/

set_option autoImplicit false
set_option relaxedAutoImplicit false

namespace EmergenceOS.Vdev.BmtTopology

open EmergenceOS.Lib.Bytes EmergenceOS.Lib.ByteFile EmergenceOS.Lib.Keystream

theorem Linked.congr {es es' : Fin entriesPerBlock → Value128} {m : Nat}
    (h : ∀ e, (es' e).route = (es e).route) (hes : Linked es m) : Linked es' m := by
  refine ⟨fun e he => ?_, fun e he => ?_, hes.bound⟩
  · rw [h e]
    exact hes.link e he
  · rw [h e]
    exact hes.stop e he

/-- A read of all that a walk passes shows the payload, byte by byte. -/
theorem readHops_payload {b : Block} {m : Nat} (h : Linked b.entries m) (hm : 0 < m)
    (out : Buffer) {i : Nat} (hi : i < payloadBytesPerHop * m) :
    (readHops b.entries out 0 (payloadBytesPerHop * m) 0 0).1 = payloadBytesPerHop * m ∧
      (readHops b.entries out 0 (payloadBytesPerHop * m) 0 0).2 i = b.payload i := by
  rw [readHops_start h hm, Nat.min_self]
  refine ⟨rfl, ?_⟩
  simp only
  rw [blit_inside _ _ (Nat.zero_le i) (by omega), Nat.zero_add, Nat.sub_zero]

/-- Two walks over the same number of entries show the same exactly if these hold the same. -/
theorem readHops_eq_iff {b b' : Block} {m : Nat} (h : Linked b.entries m)
    (h' : Linked b'.entries m) (hm : 0 < m) :
    (∀ out o maxLen, readHops b.entries out o maxLen 0 0 = readHops b'.entries out o maxLen 0 0) ↔
      ∀ i < payloadBytesPerHop * m, b.payload i = b'.payload i := by
  constructor
  · intro hall i hi
    have hread := congrArg (fun r => r.2 i) (hall (fun _ => 0) 0 (payloadBytesPerHop * m))
    rwa [(readHops_payload h hm _ hi).2, (readHops_payload h' hm _ hi).2] at hread
  · intro hsame out o maxLen
    rw [readHops_start h hm, readHops_start h' hm]
    refine Prod.ext rfl (blit_congr out o fun k hk => ?_)
    rw [Nat.zero_add]
    exact hsame k (by omega)

/-! Cleared blocks. -/

theorem Value128.packRoute_packRoute (v : Value128) (r r' : BitVec 16) :
    (v.packRoute r).packRoute r' = v.packRoute r' := by
  have hpayload : (v.packRoute r).hi &&& (0x000FFFFFFFFFFFFF : BitVec 64) =
      v.hi &&& (0x000FFFFFFFFFFFFF : BitVec 64) := by
    apply BitVec.eq_of_getLsbD_eq
    intro i hi
    rw [BitVec.getLsbD_and, BitVec.getLsbD_and, payloadMask_getLsbD]
    by_cases h52 : i < 52
    · rw [packRoute_payloadBit v r h52]
    · simp only [h52, decide_false, Bool.and_false]
  rw [packRoute, hpayload]
  rfl

/-- What clear_blocks leaves of a block. -/
def Block.cleared (b : Block) : Block := ⟨fun e => (b.entries e).packRoute freeRoute⟩

theorem Block.cleared_cleared (b : Block) : b.cleared.cleared = b.cleared := by
  simp only [cleared, Value128.packRoute_packRoute]

theorem Block.cleared_linked (b : Block) : Linked b.cleared.entries 1 := by
  refine ⟨fun e he => ?_, fun e he => Or.inr (Value128.route_packRoute _ _), by decide⟩
  omega

theorem Block.payload_cleared (b : Block) : b.cleared.payload = b.payload := by
  funext i
  simp only [payload, cleared]
  split
  · exact Value128.payloadByte_packRoute _ _ (Nat.mod_lt i (by decide))
  · rfl

theorem entriesPerBlock_pos : 0 < entriesPerBlock := by decide

/-- The first entry of a block, where every walk begins. -/
def Block.head (b : Block) : Value128 := b.entries ⟨0, entriesPerBlock_pos⟩

theorem Block.payload_head (b : Block) {k : Nat} (hk : k < payloadBytesPerHop) :
    b.payload k = b.head.payloadByte k := by
  have hdiv : k / payloadBytesPerHop = 0 := Nat.div_eq_of_lt hk
  simp only [payload, hdiv, Nat.mod_eq_of_lt hk]
  rfl

namespace Topology

theorem clearBlocks_level1 (t : Topology) (blocks : List (BitVec 16)) (j : Fin lensCount) :
    (t.clearBlocks blocks).level1 j =
      if ∃ b ∈ blocks, b.toNat = j.val then (t.level1 j).map Block.cleared else t.level1 j := by
  unfold clearBlocks
  simp only
  induction blocks generalizing t with
  | nil => simp
  | cons c blocks ih =>
    rw [List.foldl_cons, ih]
    by_cases hc : c.toNat < lensCount
    · rw [dif_pos hc]
      by_cases hj : j = ⟨c.toNat, hc⟩
      · subst hj
        simp only [Function.update_self, List.mem_cons, exists_eq_or_imp, true_or, if_true]
        split
        · rw [Option.map_map]
          congr 1
          funext b
          exact b.cleared_cleared
        · rfl
      · have hne : c.toNat ≠ j.val := fun he => hj (Fin.ext he.symm)
        simp only [Function.update_of_ne hj, List.mem_cons, exists_eq_or_imp, hne, false_or]
    · have hne : c.toNat ≠ j.val := fun he => hc (he ▸ j.isLt)
      rw [dif_neg hc]
      simp only [List.mem_cons, exists_eq_or_imp, hne, false_or]

/-- Two topologies that differ in what the listed blocks hold, and in nothing else. -/
structure SameBut (blocks : List (BitVec 16)) (t t' : Topology) : Prop where
  seed : t'.seed = t.seed
  lensKeys : t'.lensKeys = t.lensKeys
  root : t'.root = t.root
  dirty : t'.dirty = t.dirty
  level1 : ∀ j : Fin lensCount, (∀ b ∈ blocks, b.toNat ≠ j.val) → t'.level1 j = t.level1 j
  allocated : ∀ j, (t'.level1 j).isSome = (t.level1 j).isSome

/-- After the listed blocks were cleared, no read of them tells the two apart. -/
def RevealsNothing (blocks : List (BitVec 16)) (t t' : Topology) : Prop :=
  (∀ b ∈ blocks, ∀ out o maxLen, (t.clearBlocks blocks).readBlockData b out o maxLen =
    (t'.clearBlocks blocks).readBlockData b out o maxLen) ∧
  ∀ chain, (∀ b ∈ chain, b ∈ blocks) → ∀ out maxLen,
    (t.clearBlocks blocks).readChain chain out maxLen =
      (t'.clearBlocks blocks).readChain chain out maxLen

/-- The listed blocks hold the same 13 bytes in their first entries. -/
def HeadsAgree (blocks : List (BitVec 16)) (t t' : Topology) : Prop :=
  ∀ b ∈ blocks, ∀ h : b.toNat < lensCount, ∀ block block',
    t.level1 ⟨b.toNat, h⟩ = some block → t'.level1 ⟨b.toNat, h⟩ = some block' →
      ∀ k < payloadBytesPerHop, block.head.payloadByte k = block'.head.payloadByte k

theorem readBlockData_clear {t : Topology} {blocks : List (BitVec 16)} {b : BitVec 16}
    (hb : b ∈ blocks) (h : b.toNat < lensCount) {block : Block}
    (hblock : t.level1 ⟨b.toNat, h⟩ = some block) (out : Buffer) (o maxLen : Nat) :
    (t.clearBlocks blocks).readBlockData b out o maxLen =
      readHops block.cleared.entries out o maxLen 0 0 := by
  refine readBlockData_eq h ?_ out o maxLen
  rw [clearBlocks_level1, if_pos ⟨b, hb, rfl⟩, hblock]
  rfl

/-- Clearing leaves the payload of a first entry to be read, and no other one. -/
theorem readHops_cleared_iff (block block' : Block) :
    (∀ out o maxLen, readHops block.cleared.entries out o maxLen 0 0 =
        readHops block'.cleared.entries out o maxLen 0 0) ↔
      ∀ k < payloadBytesPerHop, block.head.payloadByte k = block'.head.payloadByte k := by
  rw [readHops_eq_iff block.cleared_linked block'.cleared_linked Nat.one_pos, Nat.mul_one]
  refine forall₂_congr fun k hk => ?_
  rw [block.payload_cleared, block'.payload_cleared, block.payload_head hk, block'.payload_head hk]

/-- Cleared blocks read the same exactly if their first entries held the same bytes. -/
theorem revealsNothing_iff_headsAgree (blocks : List (BitVec 16)) (t t' : Topology)
    (h : SameBut blocks t t') : RevealsNothing blocks t t' ↔ HeadsAgree blocks t t' := by
  constructor
  · rintro ⟨hread, -⟩ b hb hlt block block' hblock hblock'
    refine (readHops_cleared_iff block block').mp fun out o maxLen => ?_
    rw [← readBlockData_clear hb hlt hblock, ← readBlockData_clear hb hlt hblock']
    exact hread b hb out o maxLen
  · intro hheads
    have hread (b : BitVec 16) (hb : b ∈ blocks) (out : Buffer) (o maxLen : Nat) :
        (t.clearBlocks blocks).readBlockData b out o maxLen =
          (t'.clearBlocks blocks).readBlockData b out o maxLen := by
      by_cases hlt : b.toNat < lensCount
      · have halloc := h.allocated ⟨b.toNat, hlt⟩
        cases hblock : t.level1 ⟨b.toNat, hlt⟩ with
        | none =>
          rw [hblock, Option.isSome_none, Option.isSome_eq_false_iff, Option.isNone_iff_eq_none]
            at halloc
          simp only [readBlockData, dif_pos hlt, clearBlocks_level1, hblock, halloc,
            Option.map_none, ite_self]
        | some block =>
          rw [hblock, Option.isSome_some] at halloc
          obtain ⟨block', hblock'⟩ := Option.isSome_iff_exists.mp halloc
          rw [readBlockData_clear hb hlt hblock, readBlockData_clear hb hlt hblock']
          exact (readHops_cleared_iff block block').mpr (hheads b hb hlt _ _ hblock hblock') out o
            maxLen
      · rw [readBlockData_of_not_lt _ hlt, readBlockData_of_not_lt _ hlt]
    exact ⟨hread, fun chain hchain out maxLen =>
      readChain_congr_of_mem (fun b hb => hread b (hchain b hb)) out maxLen⟩

theorem sameBut_writeBlockData {t : Topology} (ht : t.Initialized) {idx : BitVec 16}
    (h : idx.toNat < lensCount) (data data' : Buffer) (len len' : Nat) :
    SameBut [idx] (t.writeBlockData idx data 0 len).2 (t.writeBlockData idx data' 0 len').2 := by
  obtain ⟨b, hb⟩ := Option.isSome_iff_exists.mp (ht ⟨idx.toNat, h⟩)
  rw [writeBlockData_eq h hb, writeBlockData_eq h hb]
  refine ⟨rfl, rfl, rfl, rfl, fun j hj => ?_, fun j => ?_⟩
  · have hne : j ≠ ⟨idx.toNat, h⟩ := fun he => hj idx List.mem_cons_self (congrArg Fin.val he).symm
    simp only [Function.update_of_ne hne]
  · by_cases hj : j = ⟨idx.toNat, h⟩
    · simp only [hj, Function.update_self, Option.isSome_some]
    · simp only [Function.update_of_ne hj]

/-- The first entry of a block that received data. -/
theorem payloadByte_head_written {t : Topology} (ht : t.Initialized) {idx : BitVec 16}
    (h : idx.toNat < lensCount) {data : Buffer} {len : Nat} {block : Block}
    (hblock : (t.writeBlockData idx data 0 len).2.level1 ⟨idx.toNat, h⟩ = some block) {k : Nat}
    (hk : k < payloadBytesPerHop) (hlen : k < len) : block.head.payloadByte k = data k := by
  obtain ⟨b, hb⟩ := Option.isSome_iff_exists.mp (ht ⟨idx.toNat, h⟩)
  have hbytes : bytesPerBlock = 1024 * payloadBytesPerHop := rfl
  simp only [writeBlockData_eq h hb, Function.update_self, Option.some.injEq] at hblock
  rw [← hblock, ← Block.payload_head _ hk, b.payload_written data 0 hlen (by omega), Nat.zero_add]

/-- Data that differ from the second entry on. -/
theorem revealsNothing_second_entry :
    RevealsNothing [5] (sample.writeBlockData 5 ones 0 26).2
      (sample.writeBlockData 5 (fun i => if i < 13 then 1 else 2) 0 26).2 := by
  refine (revealsNothing_iff_headsAgree _ _ _
    (sameBut_writeBlockData sample_initialized (by decide) _ _ _ _)).mpr ?_
  intro b hb h block block' hblock hblock' k hk
  obtain rfl := List.mem_singleton.mp hb
  have hk13 : k < 13 := hk
  rw [payloadByte_head_written sample_initialized h hblock hk (by omega),
    payloadByte_head_written sample_initialized h hblock' hk (by omega), if_pos hk13]
  rfl

/-- One byte was written, the block was cleared, and the byte can be read. -/
theorem not_revealsNothing_first_byte :
    SameBut [5] (sample.writeBlockData 5 ones 0 1).2
        (sample.writeBlockData 5 (fun _ => 2) 0 1).2 ∧
      ¬RevealsNothing [5] (sample.writeBlockData 5 ones 0 1).2
        (sample.writeBlockData 5 (fun _ => 2) 0 1).2 := by
  refine ⟨sameBut_writeBlockData sample_initialized (by decide) _ _ _ _, fun h => ?_⟩
  have hlt : (5 : BitVec 16).toNat < lensCount := by decide
  have halloc (data : Buffer) :=
    Option.isSome_iff_exists.mp
      (writeBlockData_initialized sample_initialized 5 data 0 1 ⟨(5 : BitVec 16).toNat, hlt⟩)
  obtain ⟨block, hblock⟩ := halloc ones
  obtain ⟨block', hblock'⟩ := halloc fun _ => 2
  have hsame := (readHops_cleared_iff block block').mp fun out o maxLen => by
    rw [← readBlockData_clear List.mem_cons_self hlt hblock,
      ← readBlockData_clear List.mem_cons_self hlt hblock']
    exact h.1 5 List.mem_cons_self out o maxLen
  have hbyte := hsame 0 (by decide)
  rw [payloadByte_head_written sample_initialized hlt hblock (by decide) (by decide),
    payloadByte_head_written sample_initialized hlt hblock' (by decide) (by decide)] at hbyte
  exact absurd hbyte (by decide)

end Topology

end EmergenceOS.Vdev.BmtTopology
