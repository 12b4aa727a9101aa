/- Module: EmergenceOS/Vdev/ResidueRecovery
   digest: Which commits onto a blank journal recovery reads back. -/

import EmergenceOS.Vdev.ResidueReader
import Mathlib.Data.List.FinRange
import Mathlib.Data.List.Perm.Basic

/-!
The reader stops for good at the first record that looks like the end, so what a commit
leaves behind is read back only if that is the last thing it wrote.
-/

set_option autoImplicit false
set_option relaxedAutoImplicit false

namespace EmergenceOS.Vdev.ResiduePersistence

open EmergenceOS.Lib.Bytes EmergenceOS.Vdev.BmtTopology

variable (speculativeRoute : BitVec 16) (seed : Seed) (vblock : BitVec 64) (block : Block)

/-- The atoms that differ from the baseline, with their values. -/
def changed : List Injection :=
  (List.finRange entriesPerBlock).filterMap fun j =>
    let atom := BitVec.ofNat 16 j.val
    if block.entries j ≠ baseline speculativeRoute seed vblock atom then
      some ⟨vblock, atom, block.entries j⟩
    else none

/-- One commit onto a blank disk. -/
def committed (stack : Buffer) : PersistenceController :=
  (PersistenceController.new (some fun _ => 0) seed).commitResidue speculativeRoute vblock block
    stack

/-- recover_state of a fresh controller on that disk. -/
def recovery (stack : Buffer) (behind : Nat → Buffer) : Ending × List Injection :=
  (PersistenceController.new (committed speculativeRoute seed vblock block stack).disk
    seed).recoverState speculativeRoute behind

/-- Whatever lies behind the sector buffer, recovery finds no corruption and injects each changed
atom once, and nothing else. -/
structure Recovers (stack : Buffer) : Prop where
  ending : ∀ behind, (recovery speculativeRoute seed vblock block stack behind).1 ≠ .corrupted
  calls : ∀ behind, (recovery speculativeRoute seed vblock block stack behind).2.Perm
    (changed speculativeRoute seed vblock block)

/-- The first record reads as the end: atom 0 of vblock 0, changed in its high word only. -/
def FirstHidden : Prop :=
  vblock = 0 ∧ (block.entries ⟨0, by decide⟩).lo = (baseline speculativeRoute seed vblock 0).lo ∧
    (block.entries ⟨0, by decide⟩).hi ≠ (baseline speculativeRoute seed vblock 0).hi

/-- At most as many records as a sector takes, none of them hidden, and an end behind them. -/
def Recoverable (stack : Buffer) : Prop :=
  let n := (changed speculativeRoute seed vblock block).length
  n = 0 ∨ n ≤ wholeRecords ∧ ¬FirstHidden speculativeRoute seed vblock block ∧ StackEnds stack n

section Batch
variable {speculativeRoute seed vblock block}

theorem xorValue_xorValue (x y : Value128) : xorValue y (xorValue x y) = x := by
  apply Value128.ext
  · simp only [xorValue]
    rw [BitVec.xor_comm x.hi, ← BitVec.xor_assoc, BitVec.xor_self, BitVec.zero_xor]
  · simp only [xorValue]
    rw [BitVec.xor_comm x.lo, ← BitVec.xor_assoc, BitVec.xor_self, BitVec.zero_xor]

theorem xor_ne_zero_iff {w : Nat} (x y : BitVec w) : x ^^^ y ≠ 0 ↔ x ≠ y := by
  rw [ne_eq, ne_eq, not_iff_not]
  exact BitVec.xor_eq_zero_iff

theorem xorValue_ne_zero_iff (x y : Value128) :
    ((xorValue x y).hi ≠ 0 ∨ (xorValue x y).lo ≠ 0) ↔ x ≠ y := by
  simp only [xorValue, xor_ne_zero_iff]
  rw [← not_and_or, ← Value128.ext_iff]

/-- The record that stands for a delta. -/
def recordOf (vblock : BitVec 64) (atom : BitVec 16) (delta : Value128) : ResidueRecord :=
  ⟨vblock, atom, delta, calculateChecksum ⟨vblock, atom, delta, 0⟩⟩

theorem residueOf_eq (j : Fin entriesPerBlock) :
    residueOf speculativeRoute seed vblock block j =
      if block.entries j ≠ baseline speculativeRoute seed vblock (BitVec.ofNat 16 j.val) then
        some (recordOf vblock (BitVec.ofNat 16 j.val) (xorValue (block.entries j)
          (baseline speculativeRoute seed vblock (BitVec.ofNat 16 j.val))))
      else none := by
  simp only [residueOf, xorValue_ne_zero_iff]
  rfl

theorem residueOf_eq_some_iff {j : Fin entriesPerBlock} {r : ResidueRecord} :
    residueOf speculativeRoute seed vblock block j = some r ↔
      block.entries j ≠ baseline speculativeRoute seed vblock (BitVec.ofNat 16 j.val) ∧
      r = recordOf vblock (BitVec.ofNat 16 j.val) (xorValue (block.entries j)
        (baseline speculativeRoute seed vblock (BitVec.ofNat 16 j.val))) := by
  rw [residueOf_eq]
  split
  · rename_i hne
    rw [Option.some.injEq]
    exact ⟨fun h => ⟨hne, h.symm⟩, fun h => h.2.symm⟩
  · rename_i hsame
    exact ⟨fun h => (nomatch h), fun h => absurd h.1 hsame⟩

theorem map_restored_residues :
    (residues speculativeRoute seed vblock block).map (restored speculativeRoute seed) =
      changed speculativeRoute seed vblock block := by
  rw [residues, List.map_filterMap, changed]
  congr 1
  funext j
  rw [residueOf_eq]
  split
  · rename_i hne
    simp only [if_pos hne, Option.map_some, restored, recordOf, xorValue_xorValue]
  · rename_i hsame
    simp only [if_neg hsame, Option.map_none]

theorem mem_residues {r : ResidueRecord} (h : r ∈ residues speculativeRoute seed vblock block) :
    r.vblockIdx = vblock ∧ calculateChecksum r = r.checksum := by
  obtain ⟨j, -, hj⟩ := List.mem_filterMap.mp h
  obtain ⟨-, rfl⟩ := residueOf_eq_some_iff.mp hj
  exact ⟨rfl, rfl⟩

theorem toNat_atom (j : Fin entriesPerBlock) : (BitVec.ofNat 16 j.val).toNat = j.val := by
  have hE : entriesPerBlock = 1024 := rfl
  have hlt := j.isLt
  rw [BitVec.toNat_ofNat]
  omega

theorem residues_increasing : (residues speculativeRoute seed vblock block).Pairwise
    fun r r' => r.localAtomIdx.toNat < r'.localAtomIdx.toNat := by
  refine List.Pairwise.filterMap _ ?_ (List.pairwise_lt_finRange entriesPerBlock)
  intro j j' hjj r hr r' hr'
  obtain ⟨-, rfl⟩ := residueOf_eq_some_iff.mp hr
  obtain ⟨-, rfl⟩ := residueOf_eq_some_iff.mp hr'
  simp only [recordOf, toNat_atom]
  exact hjj

/-- Only the record of atom 0 can read as the end. -/
theorem exists_isEnd_iff :
    (∃ r ∈ residues speculativeRoute seed vblock block, isEnd r) ↔
      FirstHidden speculativeRoute seed vblock block := by
  constructor
  · rintro ⟨r, hr, hend⟩
    obtain ⟨hv, hatom, hlo⟩ := isEnd_iff.mp hend
    obtain ⟨j, -, hj⟩ := List.mem_filterMap.mp hr
    obtain ⟨hne, rfl⟩ := residueOf_eq_some_iff.mp hj
    have hval : j.val = 0 := by
      have hidx := congrArg BitVec.toNat hatom
      rwa [recordOf, toNat_atom] at hidx
    obtain rfl : j = ⟨0, by decide⟩ := Fin.ext hval
    have hsame := BitVec.xor_eq_zero_iff.mp hlo
    exact ⟨hv, hsame, fun hhi => hne (Value128.ext hhi hsame)⟩
  · rintro ⟨hv, hlo, hhi⟩
    refine ⟨_, List.mem_filterMap.mpr ⟨⟨0, by decide⟩, List.mem_finRange _,
      residueOf_eq_some_iff.mpr ⟨fun h => hhi (congrArg Value128.hi h), rfl⟩⟩,
      isEnd_iff.mpr ⟨hv, rfl, BitVec.xor_eq_zero_iff.mpr hlo⟩⟩

end Batch

section Commit
variable {speculativeRoute seed vblock block} (stack : Buffer) (behind : Nat → Buffer)

theorem length_residues : (residues speculativeRoute seed vblock block).length =
    (changed speculativeRoute seed vblock block).length := by
  rw [← map_restored_residues, List.length_map]

/-- Without records the disk stays blank. -/
theorem recovery_eq : recovery speculativeRoute seed vblock block stack behind =
    recoverSectors speculativeRoute seed
      (if residues speculativeRoute seed vblock block = [] then fun _ => 0
        else journalDisk stack (residues speculativeRoute seed vblock block)) behind (62499 + 1)
      0 := by
  have hcommit := commitResidue_disk speculativeRoute
    (c := PersistenceController.new (some fun _ => 0) seed) rfl vblock block stack
  have hmaster : (PersistenceController.new (some fun _ => 0) seed).masterSeed = seed := rfl
  have hstart : (PersistenceController.new (some fun _ => 0) seed).startLba = journalStartLba := by
    simp [PersistenceController.startLba, PersistenceController.new]
  rw [hmaster, hstart] at hcommit
  rw [recovery, committed, hcommit, recoverState_new]
  rfl

theorem recovery_of_residues (hne : residues speculativeRoute seed vblock block ≠ []) :
    recovery speculativeRoute seed vblock block stack behind =
      recoverSectors speculativeRoute seed
        (journalDisk stack (residues speculativeRoute seed vblock block)) behind (62499 + 1)
        0 := by
  rw [recovery_eq, if_neg hne]

end Commit

section Recovers
variable {speculativeRoute seed vblock block} {stack : Buffer}

theorem recovers_of_complete (h : ∀ behind, ∃ tail,
    recovery speculativeRoute seed vblock block stack behind =
      (.complete tail, changed speculativeRoute seed vblock block)) :
    Recovers speculativeRoute seed vblock block stack := by
  refine ⟨fun behind => ?_, fun behind => ?_⟩
  · obtain ⟨tail, hwalk⟩ := h behind
    rw [hwalk]
    exact Ending.noConfusion
  · obtain ⟨tail, hwalk⟩ := h behind
    rw [hwalk]

theorem recovers_of_no_residues (h : residues speculativeRoute seed vblock block = []) :
    Recovers speculativeRoute seed vblock block stack := by
  have hchanged : changed speculativeRoute seed vblock block = [] := by
    rw [← map_restored_residues, h, List.map_nil]
  refine recovers_of_complete fun behind => ?_
  have hzero (a k : Nat) (hk : a + k < sectorBytes) :
      sectorMemory (diskRead (fun _ => 0) (journalStartLba + BitVec.ofNat 64 0))
        (behind (0 * 16 + 0)) (ResidueRecord.size * 0 + a + k) = 0 :=
    if_pos (by omega)
  have hend : isEnd (sectorRecord (fun _ => 0) behind 0 0) = true :=
    isEnd_iff.mpr ⟨(ofBytes_eq_zero_iff _ (by decide)).mpr fun k hk =>
        hzero 0 k (by rw [sectorBytes]; omega),
      (ofBytes_eq_zero_iff _ (by decide)).mpr fun k hk => hzero 8 k (by rw [sectorBytes]; omega),
      (ofBytes_eq_zero_iff _ (by decide)).mpr fun k hk => hzero 24 k (by rw [sectorBytes]; omega)⟩
  obtain ⟨tail, hresult⟩ :=
    recoverSectors_of_end speculativeRoute seed (fun _ => 0) behind 62499 hend
  rw [recovery_eq, if_pos h, hresult, hchanged]
  exact ⟨tail, rfl⟩

/-- A hidden first record hides all of them. -/
theorem not_recovers_of_firstHidden (h : FirstHidden speculativeRoute seed vblock block) :
    ¬Recovers speculativeRoute seed vblock block stack := by
  intro hrec
  obtain ⟨r, hr, hend⟩ := exists_isEnd_iff.mpr h
  have hne : residues speculativeRoute seed vblock block ≠ [] := List.ne_nil_of_mem hr
  have hfirst : (residues speculativeRoute seed vblock block)[0]? = some r := by
    obtain ⟨p, hp, hpr⟩ := List.mem_iff_getElem.mp hr
    rcases Nat.eq_zero_or_pos p with rfl | hpos
    · rw [List.getElem?_eq_getElem hp, hpr]
    · have hlt := List.pairwise_iff_getElem.mp residues_increasing 0 p (by omega) hp hpos
      rw [hpr, (isEnd_iff.mp hend).2.1] at hlt
      exact absurd hlt (Nat.not_lt_zero _)
  have hread := sectorRecord_whole stack (fun _ _ => 0) (by decide : 0 < wholeRecords) hfirst
  obtain ⟨tail, hresult⟩ := recoverSectors_of_end speculativeRoute seed
    (journalDisk stack (residues speculativeRoute seed vblock block)) (fun _ _ => 0) 62499
    (by rw [hread, hend])
  have hcount := (hrec.calls fun _ _ => 0).length_eq
  rw [recovery_of_residues stack _ hne, hresult, ← length_residues, List.length_nil] at hcount
  exact hne (List.length_eq_zero_iff.mp hcount.symm)

theorem records_pass (h : ¬FirstHidden speculativeRoute seed vblock block) {r : ResidueRecord}
    (hr : r ∈ residues speculativeRoute seed vblock block) :
    isEnd r = false ∧ calculateChecksum r = r.checksum :=
  ⟨Bool.eq_false_iff.mpr fun hend => h (exists_isEnd_iff.mp ⟨r, hr, hend⟩), (mem_residues hr).2⟩

variable (stack) in
/-- The records that end inside the sector are passed over. -/
theorem recoverSector_whole (h : ¬FirstHidden speculativeRoute seed vblock block)
    (behind : Nat → Buffer) {n left : Nat} (hn : n ≤ wholeRecords)
    (hlen : n ≤ (residues speculativeRoute seed vblock block).length) (hleft : n + left = 16) :
    let batch := residues speculativeRoute seed vblock block
    let rest := recoverSector speculativeRoute seed (journalDisk stack batch) behind 0 left n
    recoverSector speculativeRoute seed (journalDisk stack batch) behind 0 16 0 =
      (rest.1, (batch.take n).map (restored speculativeRoute seed) ++ rest.2) := by
  have htake : ((residues speculativeRoute seed vblock block).take n).length = n := by
    rw [List.length_take]
    omega
  have hpassed := recoverSector_records speculativeRoute seed
    (journalDisk stack (residues speculativeRoute seed vblock block)) behind 0
    ((residues speculativeRoute seed vblock block).take n) left 0
    (fun p r hr => by
      have hp := (List.getElem?_eq_some_iff.mp hr).1
      rw [htake] at hp
      rw [List.getElem?_take_of_lt hp] at hr
      rw [Nat.zero_add]
      exact sectorRecord_whole stack behind (Nat.lt_of_lt_of_le hp hn) hr)
    fun r hr => records_pass h (List.mem_of_mem_take hr)
  rwa [htake, Nat.zero_add, hleft] at hpassed

/-- As many records as a sector takes: everything is up to what follows them. -/
theorem recovers_short_iff (hne : residues speculativeRoute seed vblock block ≠ [])
    (hlen : (residues speculativeRoute seed vblock block).length ≤ wholeRecords)
    (h : ¬FirstHidden speculativeRoute seed vblock block) :
    Recovers speculativeRoute seed vblock block stack ↔
      StackEnds stack (residues speculativeRoute seed vblock block).length := by
  have hW : wholeRecords = 12 := rfl
  obtain ⟨left, hleft⟩ :
      ∃ left, (residues speculativeRoute seed vblock block).length + (left + 1) = 16 :=
    ⟨15 - (residues speculativeRoute seed vblock block).length, by omega⟩
  have hpassed (behind : Nat → Buffer) :=
    recoverSector_whole stack h behind hlen (Nat.le_refl _) hleft
  simp only [List.take_length] at hpassed
  constructor
  · intro hrec
    rw [← isEnd_behind_iff stack (fun _ _ => 0) hlen]
    have hwalk := recovery_of_residues stack (fun _ _ => 0) hne
    have hpassed := hpassed fun _ _ => 0
    obtain ⟨⟨more, hmore⟩, hending, -⟩ := recoverSectors_succ speculativeRoute seed
      (journalDisk stack (residues speculativeRoute seed vblock block)) (fun _ _ => 0) 62499 0
    rw [← hwalk] at hmore hending
    rcases recoverSector_cases speculativeRoute seed
      (journalDisk stack (residues speculativeRoute seed vblock block)) (fun _ _ => 0) 0 left
      (residues speculativeRoute seed vblock block).length with
      ⟨hend, -⟩ | ⟨-, -, hsector⟩ | ⟨-, -, hsector⟩
    · exact hend
    · rw [hsector] at hpassed
      have hresult := hending .corrupted (congrArg Prod.fst hpassed)
      exact absurd (congrArg Prod.fst hresult) (hrec.ending _)
    · -- one call too many
      rw [hsector] at hpassed
      have hcount := (hrec.calls fun _ _ => 0).length_eq
      rw [hmore, hpassed, ← map_restored_residues] at hcount
      simp only [List.length_append, List.length_map, List.length_cons] at hcount
      omega
  · intro hends
    refine recovers_of_complete fun behind => ?_
    have hend := (isEnd_behind_iff stack behind hlen).mpr hends
    obtain ⟨-, hending, -⟩ := recoverSectors_succ speculativeRoute seed
      (journalDisk stack (residues speculativeRoute seed vblock block)) behind 62499 0
    have hpassed := hpassed behind
    rcases recoverSector_cases speculativeRoute seed
      (journalDisk stack (residues speculativeRoute seed vblock block)) behind 0 left
      (residues speculativeRoute seed vblock block).length with
      ⟨-, tail, hsector⟩ | ⟨hnot, -⟩ | ⟨hnot, -⟩
    · rw [hsector] at hpassed
      have hresult := hending (.complete tail) (congrArg Prod.fst hpassed)
      rw [recovery_of_residues stack behind hne]
      refine ⟨tail, hresult.trans ?_⟩
      rw [hpassed, ← map_restored_residues, List.append_nil]
    · exact absurd (hend.symm.trans hnot) (by decide)
    · exact absurd (hend.symm.trans hnot) (by decide)

/-- With more records the thirteenth is compared with a checksum that it need not have. -/
theorem not_recovers_of_long
    (hlen : wholeRecords < (residues speculativeRoute seed vblock block).length)
    (h : ¬FirstHidden speculativeRoute seed vblock block) :
    ¬Recovers speculativeRoute seed vblock block stack := by
  intro hrec
  have hne : residues speculativeRoute seed vblock block ≠ [] :=
    List.ne_nil_of_length_pos (Nat.zero_lt_of_lt hlen)
  have hr := List.getElem?_eq_getElem hlen
  generalize (residues speculativeRoute seed vblock block)[wholeRecords] = r at hr
  obtain ⟨hend, -⟩ := records_pass h (List.mem_of_getElem? hr)
  -- four bytes that are no checksum of this record
  let behind : Nat → Buffer := fun _ => byteAt (calculateChecksum r + 1)
  have hread := sectorRecord_cut stack behind hr
  have hword : ofBytes 32 (behind wholeRecords) 4 = calculateChecksum r + 1 :=
    ofBytes_byteAt (calculateChecksum r + 1) rfl
  rw [hword] at hread
  have hfour : wholeRecords + (3 + 1) = 16 := rfl
  have hpassed := recoverSector_whole stack h behind (Nat.le_refl wholeRecords) hlen.le hfour
  simp only at hpassed
  obtain ⟨-, hending, -⟩ := recoverSectors_succ speculativeRoute seed
    (journalDisk stack (residues speculativeRoute seed vblock block)) behind 62499 0
  rcases recoverSector_cases speculativeRoute seed
    (journalDisk stack (residues speculativeRoute seed vblock block)) behind 0 3 wholeRecords with
    ⟨hyes, -⟩ | ⟨-, -, hsector⟩ | ⟨-, hsum, -⟩
  · rw [hread] at hyes
    exact absurd (hend.symm.trans hyes) (by decide)
  · rw [hsector] at hpassed
    have hresult := hending .corrupted (congrArg Prod.fst hpassed)
    rw [← recovery_of_residues stack behind hne] at hresult
    exact hrec.ending behind (congrArg Prod.fst hresult)
  · rw [hread] at hsum
    have hsame : calculateChecksum r = calculateChecksum r + 1 := hsum
    simp at hsame

/-- Recovery gives the changed atoms back, whatever lies behind the sector buffer, exactly if
their records end inside a sector, the first does not read as the end, and the stack bytes
behind the last one do. -/
theorem recovers_iff_recoverable (speculativeRoute : BitVec 16) (seed : Seed)
    (vblock : BitVec 64) (block : Block) (stack : Buffer) :
    Recovers speculativeRoute seed vblock block stack ↔
      Recoverable speculativeRoute seed vblock block stack := by
  simp only [Recoverable, ← length_residues]
  by_cases hnil : residues speculativeRoute seed vblock block = []
  · exact iff_of_true (recovers_of_no_residues hnil) (Or.inl (by rw [hnil, List.length_nil]))
  have hpos : (residues speculativeRoute seed vblock block).length ≠ 0 :=
    fun hzero => hnil (List.length_eq_zero_iff.mp hzero)
  by_cases hhidden : FirstHidden speculativeRoute seed vblock block
  · refine iff_of_false (not_recovers_of_firstHidden hhidden) ?_
    rintro (hzero | ⟨-, hnot, -⟩)
    · exact hpos hzero
    · exact hnot hhidden
  simp only [hpos, hhidden, false_or, not_false_eq_true, true_and]
  rcases Nat.lt_or_ge wholeRecords (residues speculativeRoute seed vblock block).length with
    hgt | hle
  · exact iff_of_false (not_recovers_of_long hgt hhidden)
      fun hend => absurd hend.1 (Nat.not_le_of_lt hgt)
  · rw [recovers_short_iff hnil hle hhidden]
    exact (and_iff_right hle).symm

/-- Atom 0 of vblock 0 differs by its top bit: nothing is injected. -/
theorem not_recovers_hidden_first : ¬Recovers 0x3FB ⟨1, 2⟩ 0
    ⟨fun j => xorValue (baseline 0x3FB ⟨1, 2⟩ 0 (BitVec.ofNat 16 j.val))
      ⟨if j.val = 0 then 0x8000000000000000 else 0, 0⟩⟩ fun _ => 0 :=
  not_recovers_of_firstHidden ⟨rfl, by decide, by decide⟩

end Recovers

end EmergenceOS.Vdev.ResiduePersistence
