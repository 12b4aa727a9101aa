/- Module: EmergenceOS/Vdev/JournalDriver
   digest: Commits that go through the AHCI driver leave the journal on the disk behind the port. -/

import EmergenceOS.Hal.AhciDisk
import EmergenceOS.Vdev.ResiduePersistence

set_option autoImplicit false
set_option relaxedAutoImplicit false

namespace EmergenceOS.Vdev.ResiduePersistence

open EmergenceOS.Lib.Bytes EmergenceOS.Lib.GuardedRun EmergenceOS.Hal.Ahci
open EmergenceOS.Vdev.BmtTopology

/-- A commit, the address of its journal_batch, and what the port answers to the write. -/
structure DrivenCommit extends Commit where
  buffer : BitVec 64
  port : PortReads

/-- The journal on an AHCI disk. The disk of the controller is the one that it believes in. -/
structure DrivenJournal where
  system : System
  controller : PersistenceController

namespace DrivenJournal
variable (speculativeRoute : BitVec 16)

/-- The controller without the device. -/
def commitAlone (c : PersistenceController) (e : DrivenCommit) : PersistenceController :=
  c.commitResidue speculativeRoute e.vblock e.block e.stack

def batchOf (c : PersistenceController) (e : DrivenCommit) : List ResidueRecord :=
  residues speculativeRoute c.masterSeed e.vblock e.block

/-- commit_residue builds the batch and writes its sectors, if it is not empty. -/
def events (c : PersistenceController) (e : DrivenCommit) : List Event :=
  let batch := batchOf speculativeRoute c e
  if batch.length > 0 then
    let sectorsNeeded := batch.length / 16 + 1
    [.compute fun memory =>
        blit memory e.buffer.toNat (journalBatch e.stack batch) 0 (sectorBytes * sectorsNeeded),
      .call ⟨c.startLba, BitVec.ofNat 32 sectorsNeeded, e.buffer, true, e.port⟩]
  else []

def commit (fuel : Nat) (j : DrivenJournal) (e : DrivenCommit) : Option DrivenJournal := do
  let system ← (events speculativeRoute j.controller e).foldlM (System.step fuel) j.system
  return ⟨system, commitAlone speculativeRoute j.controller e⟩

/-- The sectors of the batch are inside the disk, and the device gets to write them. -/
structure Writable (sectors fuel : Nat) (c : PersistenceController) (e : DrivenCommit) : Prop where
  inside : c.startLba.toNat + ((batchOf speculativeRoute c e).length / 16 + 1) ≤ sectors
  below : e.buffer.toNat < 2 ^ 32
  even : e.buffer.toNat % 2 = 0
  ready : ¬StaysBusy e.port
  completes : Completes e.port fuel

/-- The device has the disk that the controller believes in, and no write failed. -/
structure Follows (tableAddr : BitVec 64) (sectors : Nat) (j : DrivenJournal)
    (c : PersistenceController) : Prop where
  controller : j.controller = c
  serves : ∃ d, Serves tableAddr j.system d ∧ d.failed = false ∧ d.sectors = sectors ∧
    c.disk = some d.disk ∧ ∀ r ∈ d.results, r = true

theorem length_batchOf_le (c : PersistenceController) (e : DrivenCommit) :
    (batchOf speculativeRoute c e).length ≤ entriesPerBlock := by
  have hle := List.length_filterMap_le (residueOf speculativeRoute c.masterSeed e.vblock e.block)
    (List.finRange entriesPerBlock)
  rwa [List.length_finRange] at hle

/-- What the device fetches from where the batch was put is the batch. -/
theorem blit_staged (disk memory src : Buffer) (place a n : Nat) :
    blit disk place (blit memory a src 0 n) a n = blit disk place src 0 n := by
  apply blit_congr
  intro k hk
  rw [blit_inside memory src (Nat.le_add_right a k) (Nat.add_lt_add_left hk a),
    Nat.add_sub_cancel_left]

variable {speculativeRoute}
variable {tableAddr : BitVec 64} {sectors fuel : Nat} {j : DrivenJournal}
  {c : PersistenceController} {e : DrivenCommit}

/-- A write of a batch that is in the memory. -/
theorem call_write {d : Ideal} (hrunning : d.failed = false) {lba : BitVec 64} {count : BitVec 32}
    (hinside : lba.toNat + count.toNat ≤ d.sectors) (buffer : BitVec 64) {port : PortReads}
    (hready : ¬StaysBusy port) :
    d.call ⟨lba, count, buffer, true, port⟩ =
      { d with
        disk := blit d.disk (512 * lba.toNat) d.memory buffer.toNat (512 * count.toNat)
        results := d.results ++ [true] } := by
  have hfailed : ¬d.failed = true := Bool.eq_false_iff.mp hrunning
  rw [Ideal.call, if_neg (not_or.mpr ⟨hready, hfailed⟩)]
  exact if_pos hinside

theorem Follows.commit (h : Follows tableAddr sectors j c) (htable : tableAddr.toNat < 2 ^ 32)
    (hsectors : sectors ≤ 2 ^ 48) (he : Writable speculativeRoute sectors fuel c e) :
    ∃ j', j.commit speculativeRoute fuel e = some j' ∧
      Follows tableAddr sectors j' (commitAlone speculativeRoute c e) := by
  obtain ⟨rfl, d, hserves, hrunning, hsize, hdisk, hresults⟩ := h
  obtain ⟨hinside, hbelow, heven, hready, hcompletes⟩ := he
  have hentries : entriesPerBlock = 1024 := rfl
  have hlength := length_batchOf_le speculativeRoute j.controller e
  have hnext : (commitAlone speculativeRoute j.controller e).disk =
      some (if batchOf speculativeRoute j.controller e = [] then d.disk
        else diskWrite d.disk j.controller.startLba
          ((batchOf speculativeRoute j.controller e).length / 16 + 1)
          (journalBatch e.stack (batchOf speculativeRoute j.controller e))) :=
    commitResidue_disk speculativeRoute hdisk e.vblock e.block e.stack
  simp only [DrivenJournal.commit, events]
  generalize batchOf speculativeRoute j.controller e = batch at hinside hlength hnext ⊢
  by_cases hbatch : batch.length > 0
  · have hcount : (BitVec.ofNat 32 (batch.length / 16 + 1)).toNat = batch.length / 16 + 1 := by
      rw [BitVec.toNat_ofNat]
      omega
    have hroom : j.controller.startLba.toNat + (BitVec.ofNat 32 (batch.length / 16 + 1)).toNat ≤
        d.sectors := by
      rw [hcount, hsize]
      exact hinside
    have hfits : j.controller.startLba.toNat < 2 ^ 48 ∧
        1 ≤ (BitVec.ofNat 32 (batch.length / 16 + 1)).toNat ∧
        (BitVec.ofNat 32 (batch.length / 16 + 1)).toNat ≤ 65536 := by omega
    have hstaged := hserves.compute fun memory => blit memory e.buffer.toNat
      (journalBatch e.stack batch) 0 (sectorBytes * (batch.length / 16 + 1))
    have hanswered : Answered fuel
        { d with
          memory := blit d.memory e.buffer.toNat (journalBatch e.stack batch) 0
            (sectorBytes * (batch.length / 16 + 1)) }
        ⟨j.controller.startLba, BitVec.ofNat 32 (batch.length / 16 + 1), e.buffer, true,
          e.port⟩ := by
      refine ⟨hfits, hbelow, heven, fun _ _ _ => hcompletes,
        fun _ hfails => ?_⟩
      rcases hfails with hfailed | houtside
      · exact absurd (hfailed.symm.trans hrunning) (by decide)
      · exact absurd hroom houtside
    obtain ⟨s', hcall, hserves'⟩ := hstaged.call htable hanswered
    rw [call_write (d := { d with
      memory := blit d.memory e.buffer.toNat (journalBatch e.stack batch) 0
        (sectorBytes * (batch.length / 16 + 1)) }) hrunning hroom e.buffer hready,
      hcount] at hserves'
    have hwritten := blit_staged d.disk d.memory (journalBatch e.stack batch)
      (512 * j.controller.startLba.toNat) e.buffer.toNat (sectorBytes * (batch.length / 16 + 1))
    rw [if_pos hbatch]
    simp only [List.foldlM_cons, List.foldlM_nil, System.step, Option.bind_eq_bind,
      Option.bind_some, hcall]
    refine ⟨_, rfl, rfl, _, hserves', hrunning, hsize, ?_, fun r hr => ?_⟩
    · rw [hnext, if_neg (List.length_pos_iff.mp hbatch)]
      exact congrArg some hwritten.symm
    · rcases List.mem_append.mp hr with hold | hnew
      · exact hresults r hold
      · exact List.mem_singleton.mp hnew
  · rw [if_neg hbatch]
    refine ⟨_, rfl, rfl, d, hserves, hrunning, hsize, ?_, hresults⟩
    rw [hnext, if_pos (List.eq_nil_of_length_eq_zero (by omega))]

/-- Whatever is committed: as long as the batches are inside the disk and the device gets to write
them, no write fails, and the disk behind the port is the one that commit_residue alone
produces. -/
theorem run_keepsJournal (driver : AHCIDriver) (hport : driver.activePort ≠ -1)
    (htable : driver.cmdTableAddr.toNat < 2 ^ 32) (memory disk : Buffer)
    (hsectors : sectors ≤ 2 ^ 48) (master : Seed) (commits : List DrivenCommit)
    (h : Guarded (commitAlone speculativeRoute) (Writable speculativeRoute sectors fuel)
      (.new (some disk) master) commits) :
    ∃ j, commits.foldlM (commit speculativeRoute fuel)
        ⟨⟨driver, ⟨memory, disk, sectors, false⟩, []⟩, .new (some disk) master⟩ = some j ∧
      j.controller = commits.foldl (commitAlone speculativeRoute) (.new (some disk) master) ∧
      j.controller.disk = some j.system.device.disk ∧ ∀ r ∈ j.system.results, r = true := by
  have hfirst : Follows driver.cmdTableAddr sectors
      ⟨⟨driver, ⟨memory, disk, sectors, false⟩, []⟩, .new (some disk) master⟩
      (.new (some disk) master) :=
    ⟨rfl, ⟨memory, disk, sectors, false, []⟩, ⟨hport, rfl, rfl, rfl, rfl, rfl, rfl⟩, rfl, rfl, rfl,
      fun r hr => absurd hr List.not_mem_nil⟩
  have hstep (j : DrivenJournal) (c : PersistenceController) (e : DrivenCommit)
      (hj : Follows driver.cmdTableAddr sectors j c)
      (he : Writable speculativeRoute sectors fuel c e) :
      ∃ j', j.commit speculativeRoute fuel e = some j' ∧
        Follows driver.cmdTableAddr sectors j' (commitAlone speculativeRoute c e) :=
    hj.commit htable hsectors he
  obtain ⟨j, hrun, hcontroller, d, hserves, -, -, hdisk, hresults⟩ :=
    foldlM_simulates hstep hfirst h
  refine ⟨j, hrun, hcontroller, ?_, ?_⟩
  · rw [hcontroller, hdisk, hserves.disk]
  · rw [hserves.results]
    exact hresults

/-- A commit moves the tail by a block at most. -/
theorem tail_commitAlone_le (speculativeRoute : BitVec 16) (c : PersistenceController)
    (e : DrivenCommit) :
    (commitAlone speculativeRoute c e).currentJournalTail.toNat ≤
      c.currentJournalTail.toNat + entriesPerBlock := by
  have hlength := length_batchOf_le speculativeRoute c e
  have hentries : entriesPerBlock = 1024 := rfl
  unfold commitAlone PersistenceController.commitResidue
  split
  · exact Nat.le_add_right _ _
  · simp only
    split
    · have hadd : (BitVec.ofNat 64 (batchOf speculativeRoute c e).length).toNat ≤
          (batchOf speculativeRoute c e).length := by
        rw [BitVec.toNat_ofNat]
        exact Nat.mod_le _ _
      have hsum := BitVec.toNat_add c.currentJournalTail
        (BitVec.ofNat 64 (batchOf speculativeRoute c e).length)
      have hmod := Nat.mod_le (c.currentJournalTail.toNat +
        (BitVec.ofNat 64 (batchOf speculativeRoute c e).length).toNat) (2 ^ 64)
      exact hsum.trans_le (hmod.trans (Nat.add_le_add_left (hadd.trans hlength) _))
    · exact Nat.le_add_right _ _

theorem startLba_le (c : PersistenceController) :
    c.startLba.toNat ≤ 8192 + c.currentJournalTail.toNat / 16 := by
  have hsum : c.startLba.toNat = (8192 + c.currentJournalTail.toNat / 16) % 2 ^ 64 := by
    rw [PersistenceController.startLba, BitVec.toNat_add, BitVec.toNat_udiv]
    rfl
  rw [hsum]
  exact Nat.mod_le _ _

/-- A fresh block is committed twice to a disk of 10000 sectors. -/
def sampleCommit : DrivenCommit := ⟨⟨7, Block.new, fun _ => 0⟩, 0x1000, readyPort⟩

theorem run_keepsJournal_fresh : ∃ j,
    [sampleCommit, sampleCommit].foldlM (commit 0xFFF0 1)
      ⟨⟨readyDriver, ⟨fun _ => 0, fun _ => 0, 10000, false⟩, []⟩,
        .new (some fun _ => 0) ⟨1, 2⟩⟩ = some j ∧
      j.controller.disk = some j.system.device.disk ∧ ∀ r ∈ j.system.results, r = true := by
  have hready : ¬StaysBusy readyPort := fun hbusy => hbusy 0 (by decide) (by decide)
  have hentries : entriesPerBlock = 1024 := rfl
  have hwritable (c : PersistenceController) (htail : c.currentJournalTail.toNat ≤ 1024) :
      Writable 0xFFF0 10000 1 c sampleCommit := by
    have hlba := startLba_le c
    have hlength := length_batchOf_le 0xFFF0 c sampleCommit
    exact ⟨by omega, by decide, by decide, hready, 0, by decide,
      fun j hj => absurd hj (Nat.not_lt_zero j), rfl⟩
  have hguard : Guarded (commitAlone 0xFFF0) (Writable 0xFFF0 10000 1)
      (.new (some fun _ => 0) ⟨1, 2⟩) [sampleCommit, sampleCommit] :=
    ⟨hwritable _ (by decide), hwritable _ (tail_commitAlone_le _ _ _), trivial⟩
  obtain ⟨j, hrun, -, hdisk, hresults⟩ := run_keepsJournal readyDriver (by decide) (by decide)
    (fun _ => 0) (fun _ => 0) (by decide) ⟨1, 2⟩ [sampleCommit, sampleCommit] hguard
  exact ⟨j, hrun, hdisk, hresults⟩

end DrivenJournal

end EmergenceOS.Vdev.ResiduePersistence
