/- Module: EmergenceOS/Vdev/SubstrateJournal
   digest: What the journal on the disk holds for each sector after a run of requests. -/

import EmergenceOS.Vdev.PhaseFoldBounds
import Mathlib.Data.List.Forall2

/-!
serve_write persists one disk sector for each sector that it writes, at twice its number
behind 16384. Nobody reads them back, but what is there is the fold of the latest data.
-/

set_option autoImplicit false
set_option relaxedAutoImplicit false

namespace EmergenceOS.Vdev.SubstrateService

open EmergenceOS.Lib.Bytes EmergenceOS.Vdev.Topology EmergenceOS.Vdev.ContextDrivenEngine

/-- The residue that persist computes for one sector, if it fits. -/
def foldOf (sector : Buffer) : Option (List Correction) :=
  (phaseFold 0x1234567890ABCDEF 0xABCDEF0123456789 sector sectorBytes).filter fun residue =>
    decide (residue.length * Correction.size ≤ 512)

/-- The disk sector for sector s of the guest. -/
def journalLba (s : Nat) : BitVec 64 := BitVec.ofNat 64 (16384 + 2 * s)

/-- What the last write to a disk sector left in it. -/
def journalAt (written : List JournalWrite) (lba : BitVec 64) : Option (List Correction) :=
  (written.reverse.find? fun w => decide (w.lba = lba)).map JournalWrite.residue

/-- The data that a run wrote last to sector s. -/
def latest (ws : List (Nat × Buffer)) (s : Nat) : Option Buffer :=
  (ws.reverse.find? fun w => decide (w.1 = s)).map Prod.snd

/-- A journal write that belongs to a sector write. -/
def Records (w : Nat × Buffer) (j : JournalWrite) : Prop :=
  j.lba = journalLba w.1 ∧ foldOf w.2 = some j.residue

theorem journalLba_inj {s s' : Nat} (hs : s < 2 ^ 62) (hs' : s' < 2 ^ 62)
    (h : journalLba s = journalLba s') : s = s' := by
  have hval := congrArg BitVec.toNat h
  simp only [journalLba, BitVec.toNat_ofNat] at hval
  omega

theorem journalLba_eq (guestLba : BitVec 64) (i : Nat) :
    16384 + (guestLba + BitVec.ofNat 64 i) * 2 = journalLba (guestLba.toNat + i) := by
  have hstart : (16384 : BitVec 64).toNat = 16384 := rfl
  have htwo : (2 : BitVec 64).toNat = 2 := rfl
  apply BitVec.eq_of_toNat_eq
  simp only [journalLba, BitVec.toNat_add, BitVec.toNat_mul, BitVec.toNat_ofNat, hstart, htwo]
  omega

/-- Only the bytes of the sector are folded. -/
theorem persist_some {svc svc' : Service} {currentLba : BitVec 64} {sector : Buffer}
    {written : List JournalWrite} (hdisk : svc.physicalDisk = some written)
    (h : persist svc currentLba sector = some svc') :
    ∃ residue, foldOf sector = some residue ∧
      svc'.physicalDisk = some (written ++ [⟨16384 + currentLba * 2, residue⟩]) := by
  unfold persist at h
  rw [hdisk] at h
  obtain ⟨residue, hfold, h⟩ := Option.bind_eq_some_iff.mp h
  simp only at h
  split at h
  · rename_i hfits
    cases h
    refine ⟨residue, ?_, rfl⟩
    rw [foldOf, hfold, Option.filter_some, decide_eq_true hfits]
    rfl
  · cases h

/-- Each sector of a request appends its journal write. -/
theorem writeSectors_records {guestLba : BitVec 64} {buf : Buffer} {left i : Nat}
    {svc svc' : Service} {written : List JournalWrite} (hdisk : svc.physicalDisk = some written)
    (h : writeSectors guestLba buf left i svc = some svc') :
    ∃ js, svc'.physicalDisk = some (written ++ js) ∧ List.Forall₂ Records
      ((List.range' i left).map fun j => (guestLba.toNat + j, sectorOf buf j)) js := by
  induction left generalizing i svc written with
  | zero =>
    cases h
    exact ⟨[], by rw [hdisk, List.append_nil], List.Forall₂.nil⟩
  | succ left ih =>
    obtain ⟨mid, hpersist, hrest⟩ := Option.bind_eq_some_iff.mp h
    have hsame : (materialize svc (sectorVaddr guestLba i) (sectorOf buf i)).physicalDisk =
        some _ := hdisk
    obtain ⟨residue, hfold, hmid⟩ := persist_some hsame hpersist
    obtain ⟨js, hjs, hrecords⟩ := ih hmid hrest
    refine ⟨⟨16384 + (guestLba + BitVec.ofNat 64 i) * 2, residue⟩ :: js, ?_, ?_⟩
    · rw [hjs, List.append_assoc, List.singleton_append]
    · rw [List.range'_succ, List.map_cons]
      exact List.Forall₂.cons ⟨journalLba_eq guestLba i, hfold⟩ hrecords

theorem serve_records {build : Build} {r : Request} (hr : r.Admissible build) {svc svc' : Service}
    {written : List JournalWrite} (hdisk : svc.physicalDisk = some written)
    (h : svc.serve r = some svc') :
    ∃ js, svc'.physicalDisk = some (written ++ js) ∧ List.Forall₂ Records r.sectorWrites js := by
  cases r with
  | read lba count buf =>
    cases h
    refine ⟨[], ?_, List.Forall₂.nil⟩
    rw [List.append_nil, ← hdisk]
    simp only [Service.serveRead]
    split <;> rfl
  | write lba count buf =>
    obtain ⟨r, hwrite, rfl⟩ := Option.map_eq_some_iff.mp h
    obtain ⟨svc', hloop, rfl⟩ := Option.map_eq_some_iff.mp hwrite
    obtain ⟨js, hjs, hrecords⟩ := writeSectors_records hdisk hloop
    refine ⟨js, hjs, ?_⟩
    have hwrites : (Request.write lba count buf).sectorWrites =
        (List.range' 0 count.toNat).map fun j => (lba.toNat + j, sectorOf buf j) := by
      rw [Request.sectorWrites, List.range_eq_range']
      apply List.map_congr_left
      intro i hi
      have hlt := hr.2
      simp only [Request.sectorCount] at hlt
      simp only [List.mem_range'_1] at hi
      rw [Prod.mk.injEq]
      refine ⟨rfl, funext fun k => ?_⟩
      rw [sectorOf, bufferOffset_eq (by omega)]
    rwa [hwrites]

theorem serveAll_records {build : Build} {rs : List Request} (hrs : ∀ r ∈ rs, r.Admissible build)
    {svc svc' : Service} {written : List JournalWrite} (hdisk : svc.physicalDisk = some written)
    (h : svc.serveAll rs = some svc') :
    ∃ js, svc'.physicalDisk = some (written ++ js) ∧
      List.Forall₂ Records (allSectorWrites rs) js := by
  induction rs generalizing svc written with
  | nil =>
    cases h
    exact ⟨[], by rw [hdisk, List.append_nil], List.Forall₂.nil⟩
  | cons r rs ih =>
    obtain ⟨mid, hserve, hrest⟩ := Option.bind_eq_some_iff.mp h
    obtain ⟨js, hmid, hrecords⟩ := serve_records (hrs r List.mem_cons_self) hdisk hserve
    obtain ⟨js', hjs', hrecords'⟩ :=
      ih (fun r' hr' => hrs r' (List.mem_cons_of_mem r hr')) hmid hrest
    refine ⟨js ++ js', by rw [hjs', List.append_assoc], ?_⟩
    rw [allSectorWrites, List.flatMap_cons]
    exact List.rel_append hrecords hrecords'

/-- Sectors have disk sectors of their own, so the last write to each is the last one to both. -/
theorem journalAt_records {ws : List (Nat × Buffer)} {js : List JournalWrite}
    (h : List.Forall₂ Records ws js) (hws : ∀ w ∈ ws, w.1 < 2 ^ 62) {s : Nat} (hs : s < 2 ^ 62) :
    journalAt js (journalLba s) = (latest ws s).bind foldOf := by
  have hrev := List.forall₂_reverse_iff.mpr h
  have hbound : ∀ w ∈ ws.reverse, w.1 < 2 ^ 62 := fun w hw => hws w (List.mem_reverse.mp hw)
  unfold journalAt latest
  generalize ws.reverse = ws at hrev hbound
  generalize js.reverse = js at hrev
  induction hrev with
  | nil => rfl
  | @cons w j ws js hwj _ ih =>
    obtain ⟨hlba, hfold⟩ := hwj
    by_cases hsame : w.1 = s
    · rw [List.find?_cons_of_pos (by rw [hlba, hsame]; exact decide_eq_true rfl),
        List.find?_cons_of_pos (by exact decide_eq_true hsame)]
      exact hfold.symm
    · have hother : j.lba ≠ journalLba s := by
        intro he
        exact hsame (journalLba_inj (hbound w List.mem_cons_self) hs (hlba.symm.trans he))
      rw [List.find?_cons_of_neg (by simpa using hother),
        List.find?_cons_of_neg (by simpa using hsame)]
      exact ih fun w' hw' => hbound w' (List.mem_cons_of_mem w hw')

theorem exists_recorded {ws : List (Nat × Buffer)} {js : List JournalWrite}
    (h : List.Forall₂ Records ws js) {j : JournalWrite} (hj : j ∈ js) : ∃ w ∈ ws, Records w j := by
  induction h with
  | nil => exact absurd hj List.not_mem_nil
  | @cons w j' ws js hwj _ ih =>
    rcases List.mem_cons.mp hj with rfl | hold
    · exact ⟨w, List.mem_cons_self, hwj⟩
    · obtain ⟨w', hw', hrecords⟩ := ih hold
      exact ⟨w', List.mem_cons_of_mem w hw', hrecords⟩

theorem sectorWrites_lt {build : Build} {rs : List Request} (hrs : ∀ r ∈ rs, r.Admissible build)
    {w : Nat × Buffer} (hw : w ∈ allSectorWrites rs) : w.1 < 2 ^ 38 := by
  have hS : sectorBytes = 512 := rfl
  have hcap : build.capacityBytes.toNat ≤ 2 ^ 47 := by cases build <;> decide
  obtain ⟨r, hr, hmem⟩ := List.mem_flatMap.mp hw
  cases r with
  | read lba count buf => simp [Request.sectorWrites] at hmem
  | write lba count buf =>
    obtain ⟨i, hi, rfl⟩ := List.mem_map.mp hmem
    have hlt := (hrs _ hr).1 i (List.mem_range.mp hi)
    rw [hS] at hlt
    simp only [Request.guestLba] at hlt ⊢
    omega

/-- After any run of requests inside the capacity the journal sector of each sector holds the
fold of what was last written to it, or nothing if it was never written; the sectors below the
journal and the odd ones are not touched. -/
theorem journal_latest (build : Build) (manifold : SubstrateManifold) (rs : List Request)
    (hrs : ∀ r ∈ rs, r.Admissible build) (svc : Service)
    (hrun : (Service.new build manifold (some [])).serveAll rs = some svc) :
    ∃ written, svc.physicalDisk = some written ∧
      (∀ s < 2 ^ 62, journalAt written (journalLba s) =
        (latest (allSectorWrites rs) s).bind foldOf) ∧
      ∀ w ∈ written, 16384 ≤ w.lba.toNat ∧ w.lba.toNat % 2 = 0 := by
  obtain ⟨written, hwritten, hrecords⟩ := serveAll_records hrs rfl hrun
  rw [List.nil_append] at hwritten
  have hbound (w : Nat × Buffer) (hw : w ∈ allSectorWrites rs) : w.1 < 2 ^ 62 :=
    Nat.lt_trans (sectorWrites_lt hrs hw) (by decide)
  refine ⟨written, hwritten, fun s hs => journalAt_records hrecords hbound hs, fun j hj => ?_⟩
  obtain ⟨w, hw, hlba, -⟩ := exists_recorded hrecords hj
  have hlt := sectorWrites_lt hrs hw
  rw [hlba, journalLba, BitVec.toNat_ofNat]
  omega

/-- The one byte that layer 1 leaves of the folding sector becomes 36 records. -/
theorem foldOf_foldingSector {sector : Buffer} (hsame : ∀ i < 512, sector i = foldingSector i) :
    foldOf sector = some (heads crowdedLayer2 0 35) := by
  have hendless : endless = 917490 := rfl
  have hrep {i : Nat} (hi : i < 512) (hne : i ≠ 1) : Reproduced
      (0x1234567890ABCDEF ^^^ 0x1111111111111111) 0xABCDEF0123456789 sector i :=
    (reproduced_congr fun j hj => hsame j (by omega)).mpr (foldingSector_reproduced hi hne)
  have hbegins : ∀ i < 1 + (0 + 1), sector i = crowdedSector i := by
    intro i hi
    rw [hsame i (by omega), foldingSector, if_pos hi]
    rfl
  have hlayer1 : corrections (0x1234567890ABCDEF ^^^ 0x1111111111111111) 0xABCDEF0123456789
      sector 512 = heads crowdedSector 1 0 := by
    refine corrections_eq_heads (corrections_of_noneReproduced (by decide) (by decide +kernel)
      (fun i hi => ?_) hbegins (by decide)) ?_
    · refine (reproduced_congr fun j hj => (hbegins j (by omega)).symm).mpr ?_
      exact hrep (by omega) (by omega)
    · refine @missed_le_length _ _ _ _ [1] fun i hi hnot => hrep hi ?_
      rwa [List.mem_singleton] at hnot
  have hlayer2 : corrections (0x1234567890ABCDEF ^^^ 0x2222222222222222) 0xABCDEF0123456789
      (packed (heads crowdedSector 1 0)) 6 = heads crowdedLayer1 0 5 :=
    corrections_eq_heads (corrections_of_noneReproduced (by decide) (by decide +kernel)
      (fun i hi => absurd hi (Nat.not_lt_zero i)) (by decide) (Nat.le_refl _)) (missed_le ..)
  have hlayer3 : corrections (0x1234567890ABCDEF ^^^ 0x3333333333333333) 0xABCDEF0123456789
      (packed (heads crowdedLayer1 0 5)) 36 = heads crowdedLayer2 0 35 :=
    corrections_eq_heads (corrections_of_noneReproduced (by decide) (by decide +kernel)
      (fun i hi => absurd hi (Nat.not_lt_zero i)) (by decide) (Nat.le_refl _)) (missed_le ..)
  have hphase : phaseFold 0x1234567890ABCDEF 0xABCDEF0123456789 sector sectorBytes =
      some (heads crowdedLayer2 0 35) := by
    have hlen1 : (heads crowdedSector 1 0).length * Correction.size = 6 := rfl
    have hlen2 : (heads crowdedLayer1 0 5).length * Correction.size = 36 := rfl
    rw [phaseFold, sectorBytes, evaporateInto_eq 4096 _ _ _ (by omega), ← length_corrections,
      hlayer1, if_pos (by decide), Option.bind_some, if_neg (by simp [heads]), hlen1,
      evaporateInto_eq 1024 _ _ _ (by omega), ← length_corrections, hlayer2, if_pos (by decide),
      Option.bind_some, if_neg (by simp [heads]), hlen2, evaporateInto_eq 256 _ _ _ (by omega),
      ← length_corrections, hlayer3, if_pos (by decide)]
  rw [foldOf, hphase]
  rfl

/-- Sector 3 is written with another last byte first, then with its neighbour. -/
def journaled : List Request :=
  [.write 3 1 (Function.update foldingSector 511 0), .read 3 1 fun _ => 0,
    .write 3 2 fun i => foldingSector (i % 512)]

/-- Both sectors have the residue of what they were written with last, sector 5 has none. -/
theorem journal_latest_foldingSector :
    ∃ svc written, (Service.new .evaluation SubstrateManifold.zeroed (some [])).serveAll
        journaled = some svc ∧ svc.physicalDisk = some written ∧
      journalAt written (journalLba 3) = some (heads crowdedLayer2 0 35) ∧
      journalAt written (journalLba 4) = some (heads crowdedLayer2 0 35) ∧
      journalAt written (journalLba 5) = none := by
  have hrs : ∀ r ∈ journaled, r.Admissible .evaluation := by
    simp only [journaled, List.mem_cons, List.not_mem_nil, or_false, forall_eq_or_imp, forall_eq]
    refine ⟨⟨?_, ?_⟩, ⟨?_, ?_⟩, ?_, ?_⟩ <;> decide
  have hbut {sector : Buffer} (hsame : ∀ j < 511, sector j = foldingSector j) :
      NearlyReproduced 0x1234567890ABCDEF 0xABCDEF0123456789 sector := by
    refine ⟨1, 511, fun i hi hne hlast => ?_⟩
    exact (reproduced_congr fun j hj => hsame j (by omega)).mpr (foldingSector_reproduced hi hne)
  have hfold (lba : BitVec 64) (count : BitVec 32) (buf : Buffer)
      (hmem : .write lba count buf ∈ journaled) :
      (Service.new .evaluation SubstrateManifold.zeroed (some [])).Foldable count buf := by
    intro i hi
    refine .inr (hbut fun j hj => ?_).fits
    have hfirst : (1 : BitVec 32).toNat = 1 := rfl
    have hsecond : (2 : BitVec 32).toNat = 2 := rfl
    simp only [journaled, List.mem_cons, List.not_mem_nil, or_false, Request.write.injEq,
      reduceCtorEq, false_or] at hmem
    rcases hmem with ⟨-, rfl, rfl⟩ | ⟨-, rfl, rfl⟩
    · obtain rfl : i = 0 := by omega
      rw [sectorOf, bufferOffset_eq (by decide), Nat.mul_zero, Nat.zero_add,
        Function.update_of_ne (by omega)]
    · rw [sectorOf, bufferOffset_eq (by omega), sectorBytes, Nat.mul_add_mod,
        Nat.mod_eq_of_lt (by omega)]
  have hlatest (i : Nat) : foldOf (fun k => foldingSector ((sectorBytes * i + k) % 512)) =
      some (heads crowdedLayer2 0 35) := by
    refine foldOf_foldingSector fun k hk => ?_
    rw [sectorBytes, Nat.mul_add_mod, Nat.mod_eq_of_lt hk]
  obtain ⟨svc, hrun⟩ := exists_serveAll _ journaled hfold
  obtain ⟨written, hdisk, hjournal, -⟩ := journal_latest .evaluation SubstrateManifold.zeroed
    journaled hrs svc hrun
  have hthree : latest (allSectorWrites journaled) 3 =
      some fun k => foldingSector ((sectorBytes * 0 + k) % 512) := rfl
  have hfour : latest (allSectorWrites journaled) 4 =
      some fun k => foldingSector ((sectorBytes * 1 + k) % 512) := rfl
  have hfive : latest (allSectorWrites journaled) 5 = none := rfl
  refine ⟨svc, written, hrun, hdisk, ?_, ?_, ?_⟩
  · rw [hjournal 3 (by decide), hthree, Option.bind_some, hlatest]
  · rw [hjournal 4 (by decide), hfour, Option.bind_some, hlatest]
  · rw [hjournal 5 (by decide), hfive, Option.bind_none]

end EmergenceOS.Vdev.SubstrateService
