/- Module: EmergenceOS/Vdev/ResidueReader
   digest: What recovery reads from a journal onto which one batch was written. -/

import EmergenceOS.Vdev.ResiduePersistence

/-!
Twelve records end inside the sector buffer. Of the thirteenth all fields but the checksum are
in it, so the reader compares with whatever lies behind. How a shorter batch ends is up to
the stack bytes that were written behind it.
-/

set_option autoImplicit false
set_option relaxedAutoImplicit false

namespace EmergenceOS.Vdev.ResiduePersistence

open EmergenceOS.Lib.Bytes EmergenceOS.Vdev.BmtTopology

variable (speculativeRoute : BitVec 16) (seed : Seed)

/-- The records that end inside a sector. -/
def wholeRecords : Nat := sectorBytes / ResidueRecord.size

/-- The stack bytes behind n records that the reader takes for vblock and index of the next one
are zero; the low word of its delta always is. -/
def StackEnds (stack : Buffer) (n : Nat) : Prop :=
  ∀ k < 10, stack (ResidueRecord.size * n + k) = 0

theorem isEnd_iff {r : ResidueRecord} :
    isEnd r ↔ r.vblockIdx = 0 ∧ r.localAtomIdx = 0 ∧ r.delta.lo = 0 := by
  simp only [isEnd, Bool.and_eq_true, beq_iff_eq, and_assoc]

section Reader
variable (disk : Buffer) (behind : Nat → Buffer)

/-- Records that are in place and in order are passed over. -/
theorem recoverSector_records (lbaOffset : Nat) (rs : List ResidueRecord) (left i : Nat)
    (hread : ∀ p r, rs[p]? = some r → sectorRecord disk behind lbaOffset (i + p) = r)
    (hrs : ∀ r ∈ rs, isEnd r = false ∧ calculateChecksum r = r.checksum) :
    recoverSector speculativeRoute seed disk behind lbaOffset (rs.length + left) i =
      ((recoverSector speculativeRoute seed disk behind lbaOffset left (i + rs.length)).1,
        rs.map (restored speculativeRoute seed) ++
          (recoverSector speculativeRoute seed disk behind lbaOffset left (i + rs.length)).2) := by
  induction rs generalizing i with
  | nil => simp
  | cons r rs ih =>
    obtain ⟨hend, hsum⟩ := hrs r List.mem_cons_self
    have hfirst : sectorRecord disk behind lbaOffset i = r := hread 0 r rfl
    have hrest := ih (i + 1)
      (fun p r' hr' => by
        rw [Nat.add_assoc, Nat.add_comm 1 p]
        exact hread (p + 1) r' hr')
      fun r' hr' => hrs r' (List.mem_cons_of_mem r hr')
    rw [List.length_cons, Nat.add_right_comm, recoverSector, hfirst, hend, hrest]
    simp only [hsum, ne_eq, not_true_eq_false, if_false, Bool.false_eq_true, List.map_cons,
      List.cons_append, Nat.add_assoc, Nat.add_comm 1]

/-- What the record at hand does to the loop: it ends it, or its injection comes first. -/
theorem recoverSector_cases (lbaOffset left i : Nat) :
    let r := sectorRecord disk behind lbaOffset i
    let result := recoverSector speculativeRoute seed disk behind lbaOffset (left + 1) i
    (isEnd r = true ∧ ∃ tail, result = (some (.complete tail), [])) ∨
      (isEnd r = false ∧ calculateChecksum r ≠ r.checksum ∧ result = (some .corrupted, [])) ∨
      isEnd r = false ∧ calculateChecksum r = r.checksum ∧
        result = ((recoverSector speculativeRoute seed disk behind lbaOffset left (i + 1)).1,
          restored speculativeRoute seed r ::
            (recoverSector speculativeRoute seed disk behind lbaOffset left (i + 1)).2) := by
  simp only [recoverSector]
  by_cases hend : isEnd (sectorRecord disk behind lbaOffset i) = true
  · rw [if_pos hend]
    exact Or.inl ⟨hend, _, rfl⟩
  · rw [if_neg hend]
    refine Or.inr ?_
    split
    · rename_i hsum
      exact Or.inl ⟨Bool.eq_false_iff.mpr hend, hsum, rfl⟩
    · rename_i hsum
      exact Or.inr ⟨Bool.eq_false_iff.mpr hend, not_not.mp hsum, rfl⟩

/-- The calls of a sector come first; if it ends recovery they are all. -/
theorem recoverSectors_succ (left lbaOffset : Nat) :
    let result := recoverSector speculativeRoute seed disk behind lbaOffset 16 0
    let rest := recoverSectors speculativeRoute seed disk behind left (lbaOffset + 1)
    (∃ more, (recoverSectors speculativeRoute seed disk behind (left + 1) lbaOffset).2 =
      result.2 ++ more) ∧
    (∀ ending, result.1 = some ending →
      recoverSectors speculativeRoute seed disk behind (left + 1) lbaOffset =
        (ending, result.2)) ∧
    (result.1 = none → recoverSectors speculativeRoute seed disk behind (left + 1) lbaOffset =
      (rest.1, result.2 ++ rest.2)) := by
  simp only [recoverSectors]
  cases recoverSector speculativeRoute seed disk behind lbaOffset 16 0 with
  | mk ending calls =>
    cases ending with
    | none => exact ⟨⟨_, rfl⟩, fun e he => (nomatch he), fun _ => rfl⟩
    | some ending =>
      refine ⟨⟨[], by simp⟩, fun e he => ?_, fun he => (nomatch he)⟩
      rw [Option.some.inj he]

/-- A sector whose first record reads as the end is the last one. -/
theorem recoverSectors_of_end (left : Nat) {lbaOffset : Nat}
    (hend : isEnd (sectorRecord disk behind lbaOffset 0) = true) :
    ∃ tail, recoverSectors speculativeRoute seed disk behind (left + 1) lbaOffset =
      (.complete tail, []) := by
  obtain ⟨-, hending, -⟩ := recoverSectors_succ speculativeRoute seed disk behind left lbaOffset
  rcases recoverSector_cases speculativeRoute seed disk behind lbaOffset 15 0 with
    ⟨-, tail, hsector⟩ | ⟨hnot, -⟩ | ⟨hnot, -⟩
  · have hresult := hending (.complete tail) (congrArg Prod.fst hsector)
    rw [hsector] at hresult
    exact ⟨tail, hresult⟩
  · exact absurd (hend.symm.trans hnot) (by decide)
  · exact absurd (hend.symm.trans hnot) (by decide)

end Reader

section Written
variable {speculativeRoute seed} (stack : Buffer) (behind : Nat → Buffer)

/-- A blank disk after a batch was written to its first journal sector. -/
def journalDisk (batch : List ResidueRecord) : Buffer :=
  diskWrite (fun _ => 0) journalStartLba (batch.length / 16 + 1) (journalBatch stack batch)

theorem recoverState_new (disk : Buffer) :
    (PersistenceController.new (some disk) seed).recoverState speculativeRoute behind =
      recoverSectors speculativeRoute seed disk behind (62499 + 1) 0 := by
  have hcount : maxResidues / 16 = 62499 + 1 := rfl
  simp only [PersistenceController.recoverState, PersistenceController.new, hcount]

/-- The sector buffer holds the memory that was written from. -/
theorem firstSector_byte (batch : List ResidueRecord) (above : Buffer) {k : Nat}
    (hk : k < sectorBytes) :
    sectorMemory (diskRead (journalDisk stack batch) (journalStartLba + BitVec.ofNat 64 0)) above
      k = journalBatch stack batch k := by
  have hstart : journalStartLba + BitVec.ofNat 64 0 = journalStartLba := by decide
  have hsectors : sectorBytes * 1 ≤ sectorBytes * (batch.length / 16 + 1) :=
    Nat.mul_le_mul_left _ (Nat.le_add_left _ _)
  rw [sectorMemory, if_pos hk, diskRead, hstart, journalDisk, diskWrite,
    blit_inside _ _ (Nat.le_add_right _ _) (by omega), Nat.zero_add, Nat.add_sub_cancel_left]

/-- The records that end inside the sector are where the reader looks for them. -/
theorem sectorRecord_whole {batch : List ResidueRecord} {i : Nat} (hi : i < wholeRecords)
    {r : ResidueRecord} (hr : batch[i]? = some r) :
    sectorRecord (journalDisk stack batch) behind 0 i = r := by
  have hS : ResidueRecord.size = 40 := rfl
  have hB : sectorBytes = 512 := rfl
  have hW : wholeRecords = 12 := rfl
  apply ResidueRecord.readAt_of_bytes
  intro k hk b hb
  rw [firstSector_byte stack batch _ (by rw [hS, hB] at *; omega),
    journalBatch_record stack hr hk hb]

/-- The record after them has its checksum behind the buffer. -/
theorem sectorRecord_cut {batch : List ResidueRecord} {r : ResidueRecord}
    (hr : batch[wholeRecords]? = some r) :
    sectorRecord (journalDisk stack batch) behind 0 wholeRecords =
      { r with checksum := ofBytes 32 (behind wholeRecords) 4 } := by
  have hS : ResidueRecord.size = 40 := rfl
  have hB : sectorBytes = 512 := rfl
  have hW : wholeRecords = 12 := rfl
  apply ResidueRecord.readAt_of_bytes
  intro k hk b hb
  by_cases hin : k < 32
  · have hsame : r.bytes k = some b := by
      simp only [ResidueRecord.bytes] at hb ⊢
      simpa only [hin, if_true] using hb
    rw [firstSector_byte stack batch _ (by rw [hS, hB, hW]; omega),
      journalBatch_record stack hr hk hsame]
  · simp only [ResidueRecord.bytes, show ¬k < 8 by omega, show ¬k < 10 by omega,
      show ¬k < 16 by omega, show ¬k < 24 by omega, hin, if_false] at hb
    split at hb
    · rename_i hsum
      cases hb
      have hplace : ResidueRecord.size * wholeRecords + k - sectorBytes = k - 32 := by
        rw [hS, hB, hW]
        omega
      rw [sectorMemory, if_neg (by rw [hS, hB, hW]; omega), hplace,
        byteAt_ofBytes _ (by decide), if_pos (by omega), Nat.zero_mul, Nat.zero_add]
    · cases hb

/-- Behind at most as many records the reader sees stack bytes and a zero delta. -/
theorem isEnd_behind_iff {batch : List ResidueRecord} (hn : batch.length ≤ wholeRecords) :
    isEnd (sectorRecord (journalDisk stack batch) behind 0 batch.length) ↔
      StackEnds stack batch.length := by
  have hS : ResidueRecord.size = 40 := rfl
  have hB : sectorBytes = 512 := rfl
  have hE : entriesPerBlock = 1024 := rfl
  have hW : wholeRecords = 12 := rfl
  have hbyte (above : Buffer) (k : Nat) (hk : k < 32) :
      sectorMemory (diskRead (journalDisk stack batch) (journalStartLba + BitVec.ofNat 64 0))
        above (ResidueRecord.size * batch.length + k) =
      if 16 ≤ k then 0 else stack (ResidueRecord.size * batch.length + k) := by
    rw [firstSector_byte stack batch above (by rw [hS, hB]; omega),
      journalBatch_behind stack (Nat.le_refl _) (by rw [hS]; omega)]
    simp only [show batch.length < entriesPerBlock by omega, hk, and_true, true_and]
  rw [isEnd_iff, StackEnds]
  simp only [sectorRecord, ResidueRecord.readAt, ofBytes_eq_zero_iff _ (show 8 * 8 ≤ 64 by decide),
    ofBytes_eq_zero_iff _ (show 8 * 2 ≤ 16 by decide), Nat.add_assoc]
  constructor
  · rintro ⟨hvblock, hatom, -⟩ k hk
    by_cases h8 : k < 8
    · have h := hvblock k h8
      rwa [hbyte _ k (by omega), if_neg (by omega)] at h
    · have h := hatom (k - 8) (by omega)
      rwa [hbyte _ (8 + (k - 8)) (by omega), if_neg (by omega),
        show 8 + (k - 8) = k by omega] at h
  · intro h
    refine ⟨fun k hk => ?_, fun k hk => ?_, fun k hk => ?_⟩
    · rw [hbyte _ k (by omega), if_neg (by omega)]
      exact h k (by omega)
    · rw [hbyte _ (8 + k) (by omega), if_neg (by omega)]
      exact h (8 + k) (by omega)
    · rw [hbyte _ (24 + k) (by omega), if_pos (by omega)]

end Written

end EmergenceOS.Vdev.ResiduePersistence
