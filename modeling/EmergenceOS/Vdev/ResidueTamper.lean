/- Module: EmergenceOS/Vdev/ResidueTamper
   digest: Which single-bit changes of a committed record recovery notices. -/

import EmergenceOS.Vdev.ResidueRecovery
import Mathlib.Data.List.TakeWhile

/-!
The checksum is the low half of a sum of 64-bit fields, so the upper 32 bits of the vblock
number and of both words of the delta do not reach it. And a change can turn a record into an
end marker, which the reader takes before it compares.
-/

set_option autoImplicit false
set_option relaxedAutoImplicit false

namespace EmergenceOS.Vdev.ResiduePersistence

open EmergenceOS.Lib.Bytes EmergenceOS.Vdev.BmtTopology

/-- One bit of what a record stores, its checksum apart. -/
inductive DataBit
  | vblockIdx (n : Fin 64)
  | localAtomIdx (n : Fin 16)
  | deltaHi (n : Fin 64)
  | deltaLo (n : Fin 64)
  deriving DecidableEq

/-- The place of the bit in its field. -/
def DataBit.position : DataBit → Nat
  | .vblockIdx n => n.val
  | .localAtomIdx n => n.val
  | .deltaHi n => n.val
  | .deltaLo n => n.val

def flipBit {w : Nat} (x : BitVec w) (n : Nat) : BitVec w := x ^^^ BitVec.twoPow w n

/-- The record with one bit changed. -/
def ResidueRecord.flip (r : ResidueRecord) : DataBit → ResidueRecord
  | .vblockIdx n => { r with vblockIdx := flipBit r.vblockIdx n.val }
  | .localAtomIdx n => { r with localAtomIdx := flipBit r.localAtomIdx n.val }
  | .deltaHi n => { r with delta := ⟨flipBit r.delta.hi n.val, r.delta.lo⟩ }
  | .deltaLo n => { r with delta := ⟨r.delta.hi, flipBit r.delta.lo n.val⟩ }

/-- Record p of the journal, in the order in which the reader takes them. -/
def recordAt (disk : Buffer) (behind : Nat → Buffer) (p : Nat) : ResidueRecord :=
  sectorRecord disk behind (p / 16) (p % 16)

/-- The reader passes on to the injection. -/
def accepted (r : ResidueRecord) : Bool := !isEnd r && calculateChecksum r == r.checksum

/-- Where the reader gets to the record, its comparison fails and recovery stops there, with the
calls for the records before it; and wherever on a disk the record is, none is for it: call p
is the one for record p. -/
structure Detected (speculativeRoute : BitVec 16) (r : ResidueRecord) : Prop where
  reported : ∀ (c : PersistenceController) (disk : Buffer) (behind : Nat → Buffer),
    c.disk = some disk → ∀ p < maxResidues, recordAt disk behind p = r →
      (∀ q < p, accepted (recordAt disk behind q) = true) →
      (c.recoverState speculativeRoute behind).1 = .corrupted ∧
        (c.recoverState speculativeRoute behind).2.length = p
  neverInjected : ∀ (c : PersistenceController) (disk : Buffer) (behind : Nat → Buffer),
    c.disk = some disk → ∀ p, recordAt disk behind p = r →
      (c.recoverState speculativeRoute behind).2[p]? = none

section Checksum

theorem twoPow_setWidth_eq_zero_iff {n : Nat} (hn : n < 64) :
    (BitVec.twoPow 64 n).setWidth 32 = 0 ↔ 32 ≤ n := by
  constructor
  · intro hzero
    by_contra hlt
    have hbit := congrArg (BitVec.getLsbD · n) hzero
    simp only [BitVec.getLsbD_setWidth, BitVec.getLsbD_twoPow] at hbit
    simp [hn, show n < 32 by omega] at hbit
  · intro hge
    apply BitVec.eq_of_getLsbD_eq
    intro i hi
    simp only [BitVec.getLsbD_setWidth, BitVec.getLsbD_twoPow]
    simp [show n ≠ i by omega]

theorem twoPow_setWidth_of_lt {n : Nat} (hn : n < 16) :
    (BitVec.twoPow 16 n).setWidth 64 = BitVec.twoPow 64 n := by
  apply BitVec.eq_of_getLsbD_eq
  intro i hi
  simp only [BitVec.getLsbD_setWidth, BitVec.getLsbD_twoPow, hi, hn, show n < 64 by omega,
    decide_true, Bool.true_and]

theorem DataBit.position_lt (b : DataBit) : b.position < 64 := by
  cases b with
  | vblockIdx n => exact n.isLt
  | localAtomIdx n => exact Nat.lt_trans n.isLt (by decide)
  | deltaHi n => exact n.isLt
  | deltaLo n => exact n.isLt

/-- All four fields enter the sum at the place they have. -/
theorem calculateChecksum_flip (r : ResidueRecord) (b : DataBit) :
    calculateChecksum (r.flip b) =
      calculateChecksum r ^^^ (BitVec.twoPow 64 b.position).setWidth 32 := by
  simp only [calculateChecksum, ← BitVec.setWidth_xor]
  congr 1
  cases b with
  | vblockIdx n =>
    simp only [ResidueRecord.flip, flipBit, DataBit.position]
    ac_rfl
  | localAtomIdx n =>
    simp only [ResidueRecord.flip, flipBit, DataBit.position, BitVec.setWidth_xor,
      twoPow_setWidth_of_lt n.isLt]
    ac_rfl
  | deltaHi n =>
    simp only [ResidueRecord.flip, flipBit, DataBit.position]
    ac_rfl
  | deltaLo n =>
    simp only [ResidueRecord.flip, flipBit, DataBit.position]
    ac_rfl

theorem checksum_flip (r : ResidueRecord) (b : DataBit) : (r.flip b).checksum = r.checksum := by
  cases b <;> rfl

theorem xor_eq_self_iff {w : Nat} (x y : BitVec w) : x ^^^ y = x ↔ y = 0 := by
  have h := BitVec.xor_right_inj (x := y) (y := 0) x
  rwa [BitVec.ofNat_eq_ofNat, BitVec.xor_zero] at h

/-- The comparison notices exactly the changes in the lower halves. -/
theorem comparison_flip_iff {r : ResidueRecord} (hr : calculateChecksum r = r.checksum)
    (b : DataBit) : calculateChecksum (r.flip b) ≠ (r.flip b).checksum ↔ b.position < 32 := by
  rw [calculateChecksum_flip, checksum_flip, ← hr, ne_eq, xor_eq_self_iff,
    twoPow_setWidth_eq_zero_iff b.position_lt, Nat.not_le]

end Checksum

section Calls
variable (speculativeRoute : BitVec 16) (seed : Seed) (disk : Buffer) (behind : Nat → Buffer)

theorem accepted_eq_false_iff {r : ResidueRecord} :
    accepted r = false ↔ isEnd r = true ∨ calculateChecksum r ≠ r.checksum := by
  cases hend : isEnd r with
  | true => simp [accepted, hend]
  | false => simp [accepted, hend]

/-- A sector's calls are those for its records up to the first that is not accepted, and this
one decides how recovery ends; it goes on when there is none. -/
theorem recoverSector_calls (lbaOffset left i : Nat) :
    let records := (List.range' i left).map (sectorRecord disk behind lbaOffset)
    let result := recoverSector speculativeRoute seed disk behind lbaOffset left i
    result.2 = (records.takeWhile accepted).map (restored speculativeRoute seed) ∧
      (result.1 = none ↔ ∀ r ∈ records, accepted r) ∧
      (result.1 = some .corrupted ↔
        ∃ r, records.find? (!accepted ·) = some r ∧ isEnd r = false) := by
  induction left generalizing i with
  | zero =>
    refine ⟨rfl, iff_of_true rfl fun r hr => absurd hr List.not_mem_nil, ?_⟩
    simp [recoverSector]
  | succ left ih =>
    obtain ⟨hcalls, hnone, hcorrupted⟩ := ih (i + 1)
    simp only [List.range'_succ, List.map_cons, List.takeWhile_cons, List.forall_mem_cons,
      List.find?_cons]
    rcases recoverSector_cases speculativeRoute seed disk behind lbaOffset left i with
      ⟨hend, tail, hresult⟩ | ⟨hend, hsum, hresult⟩ | ⟨hend, hsum, hresult⟩
    · have hstop := accepted_eq_false_iff.mpr (Or.inl hend)
      simp [hresult, hstop, hend]
    · have hstop := accepted_eq_false_iff.mpr (Or.inr hsum)
      simp [hresult, hstop, hend]
    · have hpass : accepted (sectorRecord disk behind lbaOffset i) = true := by
        simp [accepted, hend, hsum]
      rw [hresult, hpass]
      refine ⟨?_, ?_, ?_⟩
      · simp only [hcalls, if_true, List.map_cons]
      · simp only [hnone, true_and]
      · simp only [hcorrupted, Bool.not_true]

theorem sector_records (lbaOffset : Nat) :
    (List.range' 0 16).map (sectorRecord disk behind lbaOffset) =
      (List.range' (16 * lbaOffset) 16).map (recordAt disk behind) := by
  rw [← Nat.add_zero (16 * lbaOffset), ← List.map_add_range', List.map_map]
  apply List.map_congr_left
  intro i hi
  have hlt : i < 16 := by simpa using hi
  simp only [Function.comp_apply, recordAt, Nat.mul_add_div (show 0 < 16 by decide),
    Nat.div_eq_of_lt hlt, Nat.add_zero, Nat.mul_add_mod, Nat.mod_eq_of_lt hlt]

/-- So are the calls of a whole recovery, and its end. -/
theorem recoverSectors_calls (left lbaOffset : Nat) :
    let records := (List.range' (16 * lbaOffset) (16 * left)).map (recordAt disk behind)
    let result := recoverSectors speculativeRoute seed disk behind left lbaOffset
    result.2 = (records.takeWhile accepted).map (restored speculativeRoute seed) ∧
      (result.1 = .corrupted ↔
        ∃ r, records.find? (!accepted ·) = some r ∧ isEnd r = false) := by
  induction left generalizing lbaOffset with
  | zero =>
    refine ⟨rfl, ?_⟩
    simp [recoverSectors]
  | succ left ih =>
    obtain ⟨hmore, hlast⟩ := ih (lbaOffset + 1)
    obtain ⟨hcalls, hnone, hcorrupted⟩ :=
      recoverSector_calls speculativeRoute seed disk behind lbaOffset 16 0
    obtain ⟨-, hsome, hgo⟩ :=
      recoverSectors_succ speculativeRoute seed disk behind left lbaOffset
    have hsplit : List.range' (16 * lbaOffset) (16 * (left + 1)) =
        List.range' (16 * lbaOffset) 16 ++ List.range' (16 * (lbaOffset + 1)) (16 * left) := by
      rw [Nat.mul_succ, Nat.mul_succ, List.range'_append_1, Nat.add_comm]
    rw [sector_records] at hcalls hnone hcorrupted
    simp only
    rw [hsplit, List.map_append, List.find?_append]
    cases hresult : (recoverSector speculativeRoute seed disk behind lbaOffset 16 0).1 with
    | none =>
      have hall := hnone.mp hresult
      have hfind : ((List.range' (16 * lbaOffset) 16).map (recordAt disk behind)).find?
          (!accepted ·) = none := by
        rw [List.find?_eq_none]
        intro r hr
        simp [hall r hr]
      rw [hgo hresult, List.takeWhile_append_of_pos hall, hcalls, hmore,
        List.takeWhile_eq_self_iff.mpr hall, List.map_append, hfind, Option.none_or]
      exact ⟨rfl, hlast⟩
    | some ending =>
      -- a record of this sector ended recovery, so nothing behind it counts
      have hstop : ¬∀ r ∈ (List.range' (16 * lbaOffset) 16).map (recordAt disk behind),
          accepted r := fun hall => by rw [hnone.mpr hall] at hresult; cases hresult
      have hfind : (((List.range' (16 * lbaOffset) 16).map (recordAt disk behind)).find?
          (!accepted ·)).isSome := by
        by_contra hnot
        have hall := List.find?_eq_none.mp (Option.not_isSome_iff_eq_none.mp hnot)
        exact hstop fun r hr => by simpa using hall r hr
      obtain ⟨r, hr⟩ := Option.isSome_iff_exists.mp hfind
      rw [hresult, Option.some.injEq] at hcorrupted
      rw [hsome ending hresult, List.takeWhile_append, if_neg, hcalls, hr, Option.some_or]
      · rw [hr] at hcorrupted
        exact ⟨rfl, hcorrupted⟩
      · intro hlength
        exact hstop (List.takeWhile_eq_self_iff.mp
          ((List.takeWhile_prefix accepted).eq_of_length hlength))

variable {speculativeRoute disk behind}

variable (speculativeRoute behind) in
theorem recoverState_calls {c : PersistenceController} (hdisk : c.disk = some disk) :
    let records := (List.range' 0 maxResidues).map (recordAt disk behind)
    let result := c.recoverState speculativeRoute behind
    result.2 = (records.takeWhile accepted).map (restored speculativeRoute c.masterSeed) ∧
      (result.1 = .corrupted ↔
        ∃ r, records.find? (!accepted ·) = some r ∧ isEnd r = false) := by
  simp only [PersistenceController.recoverState, hdisk]
  exact recoverSectors_calls speculativeRoute c.masterSeed disk behind (maxResidues / 16) 0

/-- The records up to number p come first. -/
theorem records_split {p : Nat} (hp : p < maxResidues) :
    (List.range' 0 maxResidues).map (recordAt disk behind) =
      (List.range' 0 p).map (recordAt disk behind) ++ recordAt disk behind p ::
        (List.range' (p + 1) (maxResidues - (p + 1))).map (recordAt disk behind) := by
  have hsplit : List.range' 0 maxResidues =
      List.range' 0 p ++ List.range' (0 + p) (maxResidues - p) := by
    rw [List.range'_append_1, Nat.add_sub_cancel' hp.le]
  have hnext : maxResidues - p = maxResidues - (p + 1) + 1 := by omega
  rw [hsplit, hnext, Nat.zero_add, List.range'_succ, List.map_append, List.map_cons]

theorem accepted_before {p : Nat} (h : ∀ q < p, accepted (recordAt disk behind q) = true) :
    ∀ r ∈ (List.range' 0 p).map (recordAt disk behind), accepted r = true := by
  intro r hr
  obtain ⟨q, hq, rfl⟩ := List.mem_map.mp hr
  exact h q (by simpa using hq)

/-- Call p is made for record p, and only if that record was accepted. -/
theorem call_of_record {c : PersistenceController} (hdisk : c.disk = some disk)
    {p : Nat} {call : Injection}
    (h : (c.recoverState speculativeRoute behind).2[p]? = some call) :
    accepted (recordAt disk behind p) ∧
      call = restored speculativeRoute c.masterSeed (recordAt disk behind p) := by
  rw [(recoverState_calls speculativeRoute behind hdisk).1, List.getElem?_map,
    Option.map_eq_some_iff] at h
  obtain ⟨r, hr, rfl⟩ := h
  have hpass := List.mem_takeWhile_imp (List.mem_of_getElem? hr)
  obtain ⟨rest, hrest⟩ := List.takeWhile_prefix (l := (List.range' 0 maxResidues).map
    (recordAt disk behind)) accepted
  have hread : ((List.range' 0 maxResidues).map (recordAt disk behind))[p]? = some r := by
    rw [← hrest, List.getElem?_append_left (List.getElem?_eq_some_iff.mp hr).1, hr]
  rw [List.getElem?_map, Option.map_eq_some_iff] at hread
  obtain ⟨q, hq, rfl⟩ := hread
  obtain ⟨hlt, hindex⟩ := List.getElem?_eq_some_iff.mp hq
  rw [List.getElem_range', Nat.zero_add, Nat.one_mul] at hindex
  rw [hindex]
  exact ⟨hpass, rfl⟩

variable (speculativeRoute) in
/-- The first record that is not accepted ends recovery, with an error unless it is an end. -/
theorem stopped_at_record {c : PersistenceController} (hdisk : c.disk = some disk) {p : Nat}
    (hp : p < maxResidues) (hbefore : ∀ q < p, accepted (recordAt disk behind q) = true)
    (hstop : accepted (recordAt disk behind p) = false) :
    (c.recoverState speculativeRoute behind).2.length = p ∧
      ((c.recoverState speculativeRoute behind).1 = .corrupted ↔
        isEnd (recordAt disk behind p) = false) := by
  obtain ⟨hcalls, hcorrupted⟩ := recoverState_calls speculativeRoute behind hdisk
  have hpass := accepted_before hbefore
  have hfind : ((List.range' 0 p).map (recordAt disk behind)).find? (!accepted ·) = none := by
    rw [List.find?_eq_none]
    intro r hr
    simp [hpass r hr]
  rw [records_split hp] at hcalls hcorrupted
  rw [List.takeWhile_append_of_pos hpass, List.takeWhile_cons_of_neg (by simp [hstop]),
    List.append_nil] at hcalls
  rw [List.find?_append, hfind, Option.none_or, List.find?_cons_of_pos (by simp [hstop])]
    at hcorrupted
  refine ⟨by rw [hcalls]; simp, hcorrupted.trans ?_⟩
  simp

variable (speculativeRoute) in
theorem call_of_accepted {c : PersistenceController} (hdisk : c.disk = some disk)
    {p : Nat} (hp : p < maxResidues) (h : ∀ q ≤ p, accepted (recordAt disk behind q) = true) :
    (c.recoverState speculativeRoute behind).2[p]? =
      some (restored speculativeRoute c.masterSeed (recordAt disk behind p)) := by
  have hpass := accepted_before fun q hq => h q hq.le
  rw [(recoverState_calls speculativeRoute behind hdisk).1, records_split hp,
    List.takeWhile_append_of_pos hpass, List.takeWhile_cons_of_pos (h p (Nat.le_refl p)),
    List.getElem?_map, List.getElem?_append_right (by simp)]
  simp

end Calls

section Flips
variable {speculativeRoute : BitVec 16}

/-- A disk whose journal begins with the record. -/
def diskOf (r : ResidueRecord) : Buffer :=
  blit (fun _ => 0) (sectorBytes * journalStartLba.toNat) (fun k => (r.bytes k).getD 0) 0
    ResidueRecord.size

theorem recordAt_diskOf (r : ResidueRecord) (behind : Nat → Buffer) :
    recordAt (diskOf r) behind 0 = r := by
  have hS : ResidueRecord.size = 40 := rfl
  have hB : sectorBytes = 512 := rfl
  apply ResidueRecord.readAt_of_bytes
  intro k hk b hb
  have hlba : journalStartLba + BitVec.ofNat 64 0 = journalStartLba := by decide
  have hstart : sectorBytes * journalStartLba.toNat + (ResidueRecord.size * 0 + k) =
      sectorBytes * journalStartLba.toNat + k := by omega
  rw [Nat.zero_mod, sectorMemory, if_pos (by rw [hB]; omega), diskRead, Nat.zero_div, hlba,
    hstart, diskOf, blit_inside _ _ (Nat.le_add_right _ _) (by omega), Nat.zero_add,
    Nat.add_sub_cancel_left, hb, Option.getD_some]

theorem detected_iff (r : ResidueRecord) :
    Detected speculativeRoute r ↔ calculateChecksum r ≠ r.checksum ∧ isEnd r = false := by
  have hbegin := recordAt_diskOf r fun _ _ => 0
  constructor
  · intro h
    obtain ⟨hending, hcount⟩ := h.reported (.new (some (diskOf r)) ⟨0, 0⟩) (diskOf r)
      (fun _ _ => 0) rfl 0 (by decide) hbegin
      fun q hq => absurd hq (Nat.not_lt_zero q)
    cases hpass : accepted r with
    | true =>
      have hcall := call_of_accepted speculativeRoute (c := .new (some (diskOf r)) ⟨0, 0⟩) rfl
        (p := 0) (by decide) fun q hq => by rw [Nat.le_zero.mp hq, hbegin, hpass]
      have hlt := (List.getElem?_eq_some_iff.mp hcall).1
      rw [hcount] at hlt
      exact absurd hlt (Nat.lt_irrefl 0)
    | false =>
      obtain ⟨-, hiff⟩ := stopped_at_record speculativeRoute (c := .new (some (diskOf r)) ⟨0, 0⟩)
        rfl (p := 0) (by decide) (fun q hq => absurd hq (Nat.not_lt_zero q))
        (by rw [hbegin, hpass])
      have hend := hiff.mp hending
      rw [hbegin] at hend
      refine ⟨(accepted_eq_false_iff.mp hpass).resolve_left ?_, hend⟩
      rw [hend]
      exact Bool.false_ne_true
  · rintro ⟨hsum, hend⟩
    have hstop : accepted r = false := accepted_eq_false_iff.mpr (Or.inr hsum)
    refine ⟨fun c disk behind hdisk p hp hread hbefore => ?_, fun c disk behind hdisk p hread => ?_⟩
    · obtain ⟨hcount, hiff⟩ := stopped_at_record speculativeRoute hdisk hp
        hbefore (by rw [hread, hstop])
      exact ⟨hiff.mpr (by rw [hread, hend]), hcount⟩
    · cases hcall : (c.recoverState speculativeRoute behind).2[p]? with
      | none => rfl
      | some call =>
        obtain ⟨hpass, -⟩ := call_of_record hdisk hcall
        rw [hread, hstop] at hpass
        cases hpass

/-- Recovery reports a changed bit of a committed record exactly when it lies in the lower 32 of
its field and does not make the record an end marker. -/
theorem detected_flip_iff {seed : Seed} {vblock : BitVec 64} {block : Block} {r : ResidueRecord}
    (hr : r ∈ residues speculativeRoute seed vblock block) (b : DataBit) :
    Detected speculativeRoute (r.flip b) ↔ b.position < 32 ∧ isEnd (r.flip b) = false := by
  rw [detected_iff, comparison_flip_iff (mem_residues hr).2 b]

/-- A block that differs from the baseline of vblock 1 in one bit of atom 0. -/
def singleBlock : Block :=
  ⟨fun j =>
    let expected := baseline 0 ⟨0, 0⟩ 1 (BitVec.ofNat 16 j.val)
    if j.val = 0 then xorValue ⟨0, 1⟩ expected else expected⟩

theorem singleBlock_residue : recordOf 1 0 ⟨0, 1⟩ ∈ residues 0 ⟨0, 0⟩ 1 singleBlock := by
  refine List.mem_filterMap.mpr ⟨⟨0, by decide⟩, List.mem_finRange _,
    residueOf_eq_some_iff.mpr ⟨?_, ?_⟩⟩
  · simp only [singleBlock, if_true]
    decide
  · simp only [singleBlock, if_true]
    decide

theorem detected_flip_lowBit : Detected 0 ((recordOf 1 0 ⟨0, 1⟩).flip (.localAtomIdx 15)) :=
  (detected_flip_iff singleBlock_residue _).mpr (by decide)

/-- Bit 32 of the vblock number. -/
def highBit : DataBit := .vblockIdx ⟨32, by decide⟩

/-- From a disk that begins with that record, its vblock number changed in that bit, an atom of
vblock 1 is injected into vblock 2^32 + 1. -/
theorem highBit_undetected : (¬∀ (speculativeRoute : BitVec 16) (seed : Seed) (vblock : BitVec 64)
    (block : Block), ∀ r ∈ residues speculativeRoute seed vblock block, ∀ b : DataBit,
      Detected speculativeRoute (r.flip b)) ∧
    ((PersistenceController.new (some (diskOf ((recordOf 1 0 ⟨0, 1⟩).flip highBit))) ⟨0, 0⟩
      ).recoverState 0 fun _ _ => 0).2[0]? =
        some (restored 0 ⟨0, 0⟩ ((recordOf 1 0 ⟨0, 1⟩).flip highBit)) := by
  have hbegin := recordAt_diskOf ((recordOf 1 0 ⟨0, 1⟩).flip highBit) fun _ _ => 0
  have hcall := call_of_accepted 0
    (c := .new (some (diskOf ((recordOf 1 0 ⟨0, 1⟩).flip highBit))) ⟨0, 0⟩) rfl (p := 0)
    (by decide) fun q hq => by rw [Nat.le_zero.mp hq, hbegin]; decide
  rw [hbegin] at hcall
  refine ⟨fun h => ?_, hcall⟩
  have hnone := (h 0 ⟨0, 0⟩ 1 singleBlock _ singleBlock_residue highBit).neverInjected
    (.new (some (diskOf ((recordOf 1 0 ⟨0, 1⟩).flip highBit))) ⟨0, 0⟩) _ (fun _ _ => 0) rfl 0 hbegin
  rw [hnone] at hcall
  cases hcall

end Flips

end EmergenceOS.Vdev.ResiduePersistence
