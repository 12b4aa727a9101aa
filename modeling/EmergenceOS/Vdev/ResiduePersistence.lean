/- Module: EmergenceOS/Vdev/ResiduePersistence
   digest: The residue journal: commits, recovery, and the records that survive later commits. -/

import EmergenceOS.Lib.GuardedRun
import EmergenceOS.Vdev.BmtTopology

/-!
A record has a delta with constructors, which packed does not reach: it stays aligned, and
the record takes 40 bytes. The tail counts them as if 16 made up a sector, and so does the
reader, which looks behind its sector buffer for the last of them.
-/

set_option autoImplicit false
set_option relaxedAutoImplicit false

namespace EmergenceOS.Vdev.ResiduePersistence

open EmergenceOS.Lib.Bytes EmergenceOS.Lib.GuardedRun EmergenceOS.Vdev.BmtTopology

def sectorBytes : Nat := 512
def journalStartLba : BitVec 64 := 8192
def maxResidues : Nat := 1000000

structure ResidueRecord where
  vblockIdx : BitVec 64
  localAtomIdx : BitVec 16
  delta : Value128
  checksum : BitVec 32
  deriving DecidableEq

def calculateChecksum (r : ResidueRecord) : BitVec 32 :=
  (r.vblockIdx ^^^ r.localAtomIdx.setWidth 64 ^^^ r.delta.hi ^^^ r.delta.lo).setWidth 32

namespace ResidueRecord

/-- sizeof(ResidueRecord): Value128 has constructors, so the packed attribute leaves the delta
at a multiple of its alignment. -/
def size : Nat := 40

/-- The record in memory; none where the object has padding. -/
def bytes (r : ResidueRecord) (k : Nat) : Option Byte :=
  if k < 8 then some (byteAt r.vblockIdx k)
  else if k < 10 then some (byteAt r.localAtomIdx (k - 8))
  else if k < 16 then none
  else if k < 24 then some (byteAt r.delta.hi (k - 16))
  else if k < 32 then some (byteAt r.delta.lo (k - 24))
  else if k < 36 then some (byteAt r.checksum (k - 32))
  else none

/-- The record that a pointer to offset a sees. -/
def readAt (mem : Buffer) (a : Nat) : ResidueRecord where
  vblockIdx := ofBytes 64 (fun k => mem (a + k)) 8
  localAtomIdx := ofBytes 16 (fun k => mem (a + 8 + k)) 2
  delta := ⟨ofBytes 64 (fun k => mem (a + 16 + k)) 8, ofBytes 64 (fun k => mem (a + 24 + k)) 8⟩
  checksum := ofBytes 32 (fun k => mem (a + 32 + k)) 4

theorem readAt_of_bytes {mem : Buffer} {a : Nat} {r : ResidueRecord}
    (h : ∀ k < size, ∀ b, r.bytes k = some b → mem (a + k) = b) : readAt mem a = r := by
  have hS : size = 40 := rfl
  have field {w : Nat} (m : Nat) (x : BitVec w) (o : Nat) (hw : w = 8 * m) (ho : o + m ≤ size)
      (hx : ∀ k < m, r.bytes (o + k) = some (byteAt x k)) :
      ofBytes w (fun k => mem (a + o + k)) m = x := by
    rw [← ofBytes_byteAt x hw]
    apply ofBytes_congr
    intro k hk
    rw [Nat.add_assoc, h (o + k) (by omega) _ (hx k hk)]
  have hvblock := field 8 r.vblockIdx 0 rfl (by omega) fun k hk => by
    simp [bytes, hk]
  have hatom := field 2 r.localAtomIdx 8 rfl (by omega) fun k hk => by
    simp [bytes, show ¬8 + k < 8 by omega, show 8 + k < 10 by omega]
  have hhi := field 8 r.delta.hi 16 rfl (by omega) fun k hk => by
    simp [bytes, show ¬16 + k < 8 by omega, show ¬16 + k < 10 by omega,
      show ¬16 + k < 16 by omega, show 16 + k < 24 by omega]
  have hlo := field 8 r.delta.lo 24 rfl (by omega) fun k hk => by
    simp [bytes, show ¬24 + k < 8 by omega, show ¬24 + k < 10 by omega,
      show ¬24 + k < 16 by omega, show ¬24 + k < 24 by omega, show 24 + k < 32 by omega]
  have hsum := field 4 r.checksum 32 rfl (by omega) fun k hk => by
    simp [bytes, show ¬32 + k < 8 by omega, show ¬32 + k < 10 by omega,
      show ¬32 + k < 16 by omega, show ¬32 + k < 24 by omega, show ¬32 + k < 32 by omega,
      show 32 + k < 36 by omega]
  unfold readAt
  rw [hatom, hhi, hlo, hsum, show ofBytes 64 (fun k => mem (a + k)) 8 = r.vblockIdx from hvblock]

theorem readAt_congr {mem mem' : Buffer} {a a' : Nat}
    (h : ∀ k < size, mem (a + k) = mem' (a' + k)) : readAt mem a = readAt mem' a' := by
  have field (w m o : Nat) (ho : o + m ≤ size) :
      ofBytes w (fun k => mem (a + o + k)) m = ofBytes w (fun k => mem' (a' + o + k)) m := by
    apply ofBytes_congr
    intro k hk
    rw [Nat.add_assoc, Nat.add_assoc]
    exact h (o + k) (by omega)
  have hvblock : ofBytes 64 (fun k => mem (a + k)) 8 = ofBytes 64 (fun k => mem' (a' + k)) 8 :=
    ofBytes_congr 64 8 fun k hk => h k (Nat.lt_trans hk (by decide))
  unfold readAt
  rw [hvblock, field 16 2 8 (by decide), field 64 8 16 (by decide), field 64 8 24 (by decide),
    field 32 4 32 (by decide)]

end ResidueRecord

/-- A disk as bytes; sector lba starts at byte 512 * lba. -/
def diskWrite (disk : Buffer) (lba : BitVec 64) (count : Nat) (buffer : Buffer) : Buffer :=
  blit disk (sectorBytes * lba.toNat) buffer 0 (sectorBytes * count)

/-- One sector. -/
def diskRead (disk : Buffer) (lba : BitVec 64) : Buffer :=
  fun k => disk (sectorBytes * lba.toNat + k)

structure PersistenceController where
  currentJournalTail : BitVec 64
  disk : Option Buffer
  masterSeed : Seed

/-- The atom that stands for nothing stored: a packed route and a word of seed, vblock and index. -/
def baseline (speculativeRoute : BitVec 16) (seed : Seed) (vblock : BitVec 64) (j : BitVec 16) :
    Value128 :=
  let noise := (Value128.mk 0 0).packRoute speculativeRoute
  { noise with lo := seed.lo ^^^ (vblock * phiLo) ^^^ j.setWidth 64 }

def xorValue (x y : Value128) : Value128 := ⟨x.hi ^^^ y.hi, x.lo ^^^ y.lo⟩

/-- The record of atom j, if it differs from the baseline. -/
def residueOf (speculativeRoute : BitVec 16) (seed : Seed) (vblock : BitVec 64) (block : Block)
    (j : Fin entriesPerBlock) : Option ResidueRecord :=
  let atom := BitVec.ofNat 16 j.val
  let residue := xorValue (block.entries j) (baseline speculativeRoute seed vblock atom)
  if residue.hi ≠ 0 ∨ residue.lo ≠ 0 then
    let record := ResidueRecord.mk vblock atom residue 0
    some { record with checksum := calculateChecksum record }
  else none

def residues (speculativeRoute : BitVec 16) (seed : Seed) (vblock : BitVec 64) (block : Block) :
    List ResidueRecord :=
  (List.finRange entriesPerBlock).filterMap (residueOf speculativeRoute seed vblock block)

/-- The memory from journal_batch on. Behind the records that were stored, the deltas are
zero, as the array was constructed; all other bytes, and the padding, are what the stack held. -/
def journalBatch (stack : Buffer) (batch : List ResidueRecord) : Buffer := fun k =>
  let field := k % ResidueRecord.size
  match batch[k / ResidueRecord.size]? with
  | some r => (r.bytes field).getD (stack k)
  | none =>
    if k < ResidueRecord.size * entriesPerBlock ∧ 16 ≤ field ∧ field < 32 then 0 else stack k

namespace PersistenceController

def new (disk : Option Buffer) (master : Seed) : PersistenceController := ⟨0, disk, master⟩

/-- The sector at which the next batch starts. -/
def startLba (c : PersistenceController) : BitVec 64 :=
  journalStartLba + c.currentJournalTail / 16

def commitResidue (speculativeRoute : BitVec 16) (c : PersistenceController) (vblock : BitVec 64)
    (block : Block) (stack : Buffer) : PersistenceController :=
  match c.disk with
  | none => c
  | some disk =>
    let batch := residues speculativeRoute c.masterSeed vblock block
    if batch.length > 0 then
      let sectorsNeeded := batch.length / 16 + 1
      { c with
        disk := some (diskWrite disk c.startLba sectorsNeeded (journalBatch stack batch))
        currentJournalTail := c.currentJournalTail + BitVec.ofNat 64 batch.length }
    else c

end PersistenceController

/-- How recover_state ends: at an end marker, which sets the tail, in the endless loop after a
wrong checksum, or behind the last sector. -/
inductive Ending
  | complete (tail : BitVec 64)
  | corrupted
  | exhausted
  deriving DecidableEq

/-- One call of inject_restored_atom. -/
structure Injection where
  vblock : BitVec 64
  atom : BitVec 16
  value : Value128
  deriving DecidableEq

def isEnd (r : ResidueRecord) : Bool :=
  r.vblockIdx == 0 && r.localAtomIdx == 0 && r.delta.lo == 0

def restored (speculativeRoute : BitVec 16) (seed : Seed) (r : ResidueRecord) : Injection :=
  ⟨r.vblockIdx, r.localAtomIdx,
    xorValue (baseline speculativeRoute seed r.vblockIdx r.localAtomIdx) r.delta⟩

/-- The memory from sector_buffer on: 512 bytes of the sector, then what lies behind them. -/
def sectorMemory (sectorBuffer behind : Buffer) : Buffer := fun k =>
  if k < sectorBytes then sectorBuffer k else behind (k - sectorBytes)

/-- records[i], in the sector at an offset of the journal. The 13th and all after it reach out
of the buffer; what they see there may be another thing each time, so it has their number. -/
def sectorRecord (disk : Buffer) (behind : Nat → Buffer) (lbaOffset i : Nat) : ResidueRecord :=
  ResidueRecord.readAt
    (sectorMemory (diskRead disk (journalStartLba + BitVec.ofNat 64 lbaOffset))
      (behind (lbaOffset * 16 + i)))
    (ResidueRecord.size * i)

section
variable (speculativeRoute : BitVec 16) (seed : Seed) (disk : Buffer) (behind : Nat → Buffer)

/-- The loop over the records of one sector with `left` to go, the first of them number i. The
result is how recovery ended, if it did, and the calls made. -/
def recoverSector (lbaOffset : Nat) : Nat → Nat → Option Ending × List Injection
  | 0, _ => (none, [])
  | left + 1, i =>
    let r := sectorRecord disk behind lbaOffset i
    if isEnd r then (some (.complete (BitVec.ofNat 64 (lbaOffset * 16 + i))), [])
    else if calculateChecksum r ≠ r.checksum then (some .corrupted, [])
    else
      let (ending, calls) := recoverSector lbaOffset left (i + 1)
      (ending, restored speculativeRoute seed r :: calls)

/-- The loop over the sectors with `left` to go. -/
def recoverSectors : Nat → Nat → Ending × List Injection
  | 0, _ => (.exhausted, [])
  | left + 1, lbaOffset =>
    match recoverSector speculativeRoute seed disk behind lbaOffset 16 0 with
    | (some ending, calls) => (ending, calls)
    | (none, calls) =>
      let (ending, more) := recoverSectors left (lbaOffset + 1)
      (ending, calls ++ more)

end

/-- Without a disk nothing is read. -/
def PersistenceController.recoverState (speculativeRoute : BitVec 16)
    (c : PersistenceController) (behind : Nat → Buffer) : Ending × List Injection :=
  match c.disk with
  | none => (.exhausted, [])
  | some disk => recoverSectors speculativeRoute c.masterSeed disk behind (maxResidues / 16) 0

theorem record_div_mod (i : Nat) {k : Nat} (hk : k < ResidueRecord.size) :
    (ResidueRecord.size * i + k) / ResidueRecord.size = i ∧
      (ResidueRecord.size * i + k) % ResidueRecord.size = k := by
  have hpos : 0 < ResidueRecord.size := Nat.zero_lt_of_lt hk
  rw [Nat.mul_add_div hpos, Nat.div_eq_of_lt hk, Nat.mul_add_mod, Nat.mod_eq_of_lt hk]
  exact ⟨rfl, rfl⟩

theorem journalBatch_record (stack : Buffer) {batch : List ResidueRecord} {i : Nat}
    {r : ResidueRecord} (hi : batch[i]? = some r) {k : Nat} (hk : k < ResidueRecord.size)
    {b : Byte} (hb : r.bytes k = some b) :
    journalBatch stack batch (ResidueRecord.size * i + k) = b := by
  obtain ⟨hdiv, hmod⟩ := record_div_mod i hk
  simp only [journalBatch, hdiv, hmod, hi, hb, Option.getD_some]

/-- Behind the records. -/
theorem journalBatch_behind (stack : Buffer) {batch : List ResidueRecord} {i k : Nat}
    (hi : batch.length ≤ i) (hk : k < ResidueRecord.size) :
    journalBatch stack batch (ResidueRecord.size * i + k) =
      if i < entriesPerBlock ∧ 16 ≤ k ∧ k < 32 then 0
      else stack (ResidueRecord.size * i + k) := by
  have hS : ResidueRecord.size = 40 := rfl
  obtain ⟨hdiv, hmod⟩ := record_div_mod i hk
  have hlt : ResidueRecord.size * i + k < ResidueRecord.size * entriesPerBlock ↔
      i < entriesPerBlock := by
    rw [hS] at hk ⊢
    omega
  simp only [journalBatch, hdiv, hmod, List.getElem?_eq_none hi, hlt]

theorem commitResidue_disk (speculativeRoute : BitVec 16) {c : PersistenceController}
    {disk : Buffer} (hdisk : c.disk = some disk) (vblock : BitVec 64) (block : Block)
    (stack : Buffer) :
    (c.commitResidue speculativeRoute vblock block stack).disk =
      some (if residues speculativeRoute c.masterSeed vblock block = [] then disk
        else diskWrite disk c.startLba
          ((residues speculativeRoute c.masterSeed vblock block).length / 16 + 1)
          (journalBatch stack (residues speculativeRoute c.masterSeed vblock block))) := by
  simp only [PersistenceController.commitResidue, hdisk, gt_iff_lt, List.length_pos_iff]
  by_cases hbatch : residues speculativeRoute c.masterSeed vblock block = []
  · rw [if_neg (not_not_intro hbatch), if_pos hbatch, hdisk]
  · rw [if_pos hbatch, if_neg hbatch]

/-- The arguments of one call, and what the stack holds when it is made. -/
structure Commit where
  vblock : BitVec 64
  block : Block
  stack : Buffer

/-- A controller and the records it has written, each with the byte where it begins. -/
structure Journal where
  controller : PersistenceController
  written : List (Nat × ResidueRecord)

namespace Journal

def start (disk : Option Buffer) (master : Seed) : Journal := ⟨.new disk master, []⟩

/-- The records of a batch that starts at byte a. -/
def placed (a : Nat) (batch : List ResidueRecord) : List (Nat × ResidueRecord) :=
  batch.mapIdx fun i r => (a + ResidueRecord.size * i, r)

/-- The byte at which the next batch starts. -/
def startByte (j : Journal) : Nat := sectorBytes * j.controller.startLba.toNat

def batchOf (speculativeRoute : BitVec 16) (j : Journal) (e : Commit) : List ResidueRecord :=
  residues speculativeRoute j.controller.masterSeed e.vblock e.block

def commit (speculativeRoute : BitVec 16) (j : Journal) (e : Commit) : Journal :=
  ⟨j.controller.commitResidue speculativeRoute e.vblock e.block e.stack,
    if j.controller.disk.isSome then
      j.written ++ placed j.startByte (batchOf speculativeRoute j e)
    else j.written⟩

/-- Every record is on the disk, unchanged, where it was written. -/
def Intact (j : Journal) : Prop :=
  ∀ disk, j.controller.disk = some disk → ∀ w ∈ j.written, ResidueRecord.readAt disk w.1 = w.2

/-- The sectors of a batch of n records. -/
def sectorsNeeded (n : Nat) : Nat := n / 16 + 1

/-- A byte of the disk that the commit writes. -/
def Covers (speculativeRoute : BitVec 16) (j : Journal) (e : Commit) (x : Nat) : Prop :=
  j.startByte ≤ x ∧
    x < j.startByte + sectorBytes * sectorsNeeded (batchOf speculativeRoute j e).length

/-- A commit that stores something writes no byte of an earlier record, and all bytes of its own. -/
def Spares (speculativeRoute : BitVec 16) (j : Journal) (e : Commit) : Prop :=
  batchOf speculativeRoute j e ≠ [] →
    (∀ w ∈ j.written, ∀ k < ResidueRecord.size, ¬Covers speculativeRoute j e (w.1 + k)) ∧
    ∀ w ∈ placed j.startByte (batchOf speculativeRoute j e), ∀ k < ResidueRecord.size,
      Covers speculativeRoute j e (w.1 + k)

/-- Only the first commit that has something to store stores it, and its records fit the
sectors written. -/
def StoresFirst (speculativeRoute : BitVec 16) (j : Journal) (e : Commit) : Prop :=
  batchOf speculativeRoute j e ≠ [] → j.written = [] ∧
    ResidueRecord.size * (batchOf speculativeRoute j e).length ≤
      sectorBytes * sectorsNeeded (batchOf speculativeRoute j e).length

instance (speculativeRoute : BitVec 16) (j : Journal) (e : Commit) :
    Decidable (StoresFirst speculativeRoute j e) :=
  inferInstanceAs (Decidable (_ → _ ∧ _))

theorem mem_placed {a : Nat} {batch : List ResidueRecord} {w : Nat × ResidueRecord}
    (h : w ∈ placed a batch) :
    ∃ i, batch[i]? = some w.2 ∧ i < batch.length ∧ w.1 = a + ResidueRecord.size * i := by
  obtain ⟨i, hi, rfl⟩ := List.mem_mapIdx.mp h
  exact ⟨i, List.getElem?_eq_getElem hi, hi, rfl⟩

theorem placed_mem (a : Nat) {batch : List ResidueRecord} {i : Nat} (hi : i < batch.length) :
    (a + ResidueRecord.size * i, batch[i]) ∈ placed a batch :=
  List.mem_mapIdx.mpr ⟨i, hi, rfl⟩

/-- A record that lies in the sectors of its batch is on the disk after the batch was written. -/
theorem diskWrite_placed (disk : Buffer) (lba : BitVec 64) (stack : Buffer) {count : Nat}
    {batch : List ResidueRecord} {w : Nat × ResidueRecord}
    (hw : w ∈ placed (sectorBytes * lba.toNat) batch)
    (hinside : ∀ k < ResidueRecord.size,
      w.1 + k < sectorBytes * lba.toNat + sectorBytes * count) :
    ResidueRecord.readAt (diskWrite disk lba count (journalBatch stack batch)) w.1 = w.2 := by
  obtain ⟨i, hi, hlt, hstart⟩ := mem_placed hw
  apply ResidueRecord.readAt_of_bytes
  intro k hk b hb
  have hoffset : 0 + (w.1 + k - sectorBytes * lba.toNat) = ResidueRecord.size * i + k := by omega
  rw [diskWrite, blit_inside _ _ (by omega) (hinside k hk), hoffset,
    journalBatch_record stack hi hk hb]

theorem commit_intact (speculativeRoute : BitVec 16) (j : Journal) (e : Commit) (h : j.Intact)
    (hspares : Spares speculativeRoute j e) : (commit speculativeRoute j e).Intact := by
  intro disk' hdisk' w hw
  simp only [commit] at hdisk' hw
  cases hdisk : j.controller.disk with
  | none =>
    simp only [PersistenceController.commitResidue, hdisk, reduceCtorEq] at hdisk'
  | some disk =>
    have hnext : (j.controller.commitResidue speculativeRoute e.vblock e.block e.stack).disk =
        some (if batchOf speculativeRoute j e = [] then disk
          else diskWrite disk j.controller.startLba ((batchOf speculativeRoute j e).length / 16 + 1)
            (journalBatch e.stack (batchOf speculativeRoute j e))) :=
      commitResidue_disk speculativeRoute hdisk e.vblock e.block e.stack
    rw [hnext, Option.some.injEq] at hdisk'
    rw [hdisk, Option.isSome_some, if_pos rfl, List.mem_append] at hw
    by_cases hbatch : batchOf speculativeRoute j e = []
    · rw [if_pos hbatch] at hdisk'
      rw [hbatch, placed, List.mapIdx_nil] at hw
      exact hdisk' ▸ h disk hdisk w (hw.resolve_right List.not_mem_nil)
    · obtain ⟨hold, hown⟩ := hspares hbatch
      rw [if_neg hbatch] at hdisk'
      rw [← hdisk']
      rcases hw with hw | hw
      · -- the write leaves out the bytes of the record
        rw [← h disk hdisk w hw]
        apply ResidueRecord.readAt_congr
        intro k hk
        have hnot := hold w hw k hk
        simp only [Covers, startByte, sectorsNeeded] at hnot
        exact blit_outside _ _ (by omega)
      · exact diskWrite_placed disk j.controller.startLba e.stack hw fun k hk =>
          (hown w hw k hk).2

theorem commit_disk (speculativeRoute : BitVec 16) {j : Journal} (e : Commit) {disk : Buffer}
    (hdisk : j.controller.disk = some disk) :
    ∃ disk', (commit speculativeRoute j e).controller.disk = some disk' :=
  ⟨_, commitResidue_disk speculativeRoute hdisk e.vblock e.block e.stack⟩

/-! Sixteen records do not fit a sector, so the next batch starts inside the one before. -/

/-- Nothing was stored yet, or one batch from the start of the journal on. -/
inductive Early (j : Journal) : Prop
  | blank (written : j.written = []) (tail : j.controller.currentJournalTail = 0)
  | stored (batch : List ResidueRecord) (nonempty : batch ≠ [])
      (short : batch.length ≤ entriesPerBlock)
      (written : j.written = placed (sectorBytes * journalStartLba.toNat) batch)
      (tail : j.controller.currentJournalTail = BitVec.ofNat 64 batch.length)

theorem length_batchOf_le (speculativeRoute : BitVec 16) (j : Journal) (e : Commit) :
    (batchOf speculativeRoute j e).length ≤ entriesPerBlock := by
  have hle := List.length_filterMap_le
    (residueOf speculativeRoute j.controller.masterSeed e.vblock e.block)
    (List.finRange entriesPerBlock)
  rwa [List.length_finRange] at hle

theorem startByte_blank {j : Journal} (h : j.controller.currentJournalTail = 0) :
    j.startByte = sectorBytes * journalStartLba.toNat := by
  have hlba : journalStartLba + (0 : BitVec 64) / 16 = journalStartLba := by decide
  rw [startByte, PersistenceController.startLba, h, hlba]

theorem startByte_stored {j : Journal} {n : Nat} (hn : n ≤ entriesPerBlock)
    (h : j.controller.currentJournalTail = BitVec.ofNat 64 n) :
    j.startByte = sectorBytes * journalStartLba.toNat + sectorBytes * (n / 16) := by
  have hE : entriesPerBlock = 1024 := rfl
  have hstart : journalStartLba.toNat = 8192 := rfl
  have hsixteen : (16 : BitVec 64).toNat = 16 := rfl
  have hlba : j.controller.startLba.toNat = 8192 + n / 16 := by
    rw [PersistenceController.startLba, h, BitVec.toNat_add, BitVec.toNat_udiv,
      BitVec.toNat_ofNat, hstart, hsixteen]
    omega
  rw [startByte, hlba, hstart, Nat.mul_add]

/-- The first batch is in its sectors exactly if they are large enough. -/
theorem spares_blank_iff {speculativeRoute : BitVec 16} {j : Journal} {e : Commit}
    (hwritten : j.written = []) :
    Spares speculativeRoute j e ↔ StoresFirst speculativeRoute j e := by
  simp only [Spares, StoresFirst, hwritten, List.not_mem_nil, false_implies, implies_true,
    true_and]
  refine imp_congr_right fun hne => ?_
  have hpos := List.length_pos_iff.mpr hne
  constructor
  · intro hown
    have hlast := (hown _ (placed_mem j.startByte (Nat.sub_one_lt_of_lt hpos))
      (ResidueRecord.size - 1) (by decide)).2
    have hS : ResidueRecord.size = 40 := rfl
    simp only [hS] at hlast ⊢
    omega
  · intro hfits w hw k hk
    obtain ⟨i, -, hlt, hstart⟩ := mem_placed hw
    have hS : ResidueRecord.size = 40 := rfl
    rw [hS] at hfits hk hstart
    exact ⟨by omega, by omega⟩

/-- Behind one batch every other one writes over a record of it. -/
theorem not_spares_stored {speculativeRoute : BitVec 16} {j : Journal} {e : Commit}
    {batch : List ResidueRecord} (hne : batch ≠ []) (hshort : batch.length ≤ entriesPerBlock)
    (hwritten : j.written = placed (sectorBytes * journalStartLba.toNat) batch)
    (htail : j.controller.currentJournalTail = BitVec.ofNat 64 batch.length)
    (hbatch : batchOf speculativeRoute j e ≠ []) : ¬Spares speculativeRoute j e := by
  intro hspares
  have hS : ResidueRecord.size = 40 := rfl
  have hB : sectorBytes = 512 := rfl
  have hpos := List.length_pos_iff.mpr hne
  have hstart := startByte_stored hshort htail
  have hi : sectorBytes * (batch.length / 16) / ResidueRecord.size < batch.length := by
    rw [hS, hB]
    omega
  have hnot := (hspares hbatch).1 _ (hwritten ▸ placed_mem _ hi)
    (sectorBytes * (batch.length / 16) % ResidueRecord.size) (Nat.mod_lt _ (by decide))
  have hsplit := Nat.div_add_mod (sectorBytes * (batch.length / 16)) ResidueRecord.size
  refine hnot ⟨?_, ?_⟩
  · simp only
    omega
  · simp only [sectorsNeeded]
    rw [hB] at *
    omega

theorem Early.spares_iff {speculativeRoute : BitVec 16} {j : Journal} (h : Early j) (e : Commit) :
    Spares speculativeRoute j e ↔ StoresFirst speculativeRoute j e := by
  cases h with
  | blank hwritten => exact spares_blank_iff hwritten
  | stored batch hne hshort hwritten htail =>
    by_cases hbatch : batchOf speculativeRoute j e = []
    · exact iff_of_true (fun h => absurd hbatch h) fun h => absurd hbatch h
    · refine iff_of_false (not_spares_stored hne hshort hwritten htail hbatch) fun hfirst => ?_
      have hnil := (hfirst hbatch).1
      rw [hwritten, placed, List.mapIdx_eq_nil_iff] at hnil
      exact hne hnil

theorem Early.commit {speculativeRoute : BitVec 16} {j : Journal} {e : Commit} (h : Early j)
    (hfirst : StoresFirst speculativeRoute j e) : Early (commit speculativeRoute j e) := by
  by_cases hbatch : batchOf speculativeRoute j e = []
  · have hsame : Journal.commit speculativeRoute j e = j := by
      have hplaced : placed j.startByte ([] : List ResidueRecord) = [] := rfl
      have hnone : residues speculativeRoute j.controller.masterSeed e.vblock e.block = [] :=
        hbatch
      have hcontroller :
          j.controller.commitResidue speculativeRoute e.vblock e.block e.stack = j.controller := by
        unfold PersistenceController.commitResidue
        split
        · rfl
        · simp only [hnone, List.length_nil, gt_iff_lt, Nat.lt_irrefl, if_false]
      simp only [Journal.commit, hcontroller, hbatch, hplaced, List.append_nil, ite_self]
    rw [hsame]
    exact h
  · obtain ⟨hwritten, -⟩ := hfirst hbatch
    cases h with
    | stored batch hne hshort hwritten' htail =>
      rw [hwritten', placed, List.mapIdx_eq_nil_iff] at hwritten
      exact absurd hwritten hne
    | blank hwritten htail =>
      cases hdisk : j.controller.disk with
      | none =>
        refine .blank ?_ ?_
        · simp only [Journal.commit, hdisk, Option.isSome_none, Bool.false_eq_true, if_false,
            hwritten]
        · simp only [Journal.commit, PersistenceController.commitResidue, hdisk, htail]
      | some disk =>
        refine .stored (batchOf speculativeRoute j e) hbatch
          (length_batchOf_le speculativeRoute j e) ?_ ?_
        · simp only [Journal.commit, hdisk, Option.isSome_some, if_true, hwritten,
            List.nil_append, startByte_blank htail]
        · have hpos := List.length_pos_iff.mpr hbatch
          simp only [batchOf] at hpos
          simp only [Journal.commit, PersistenceController.commitResidue, hdisk, gt_iff_lt, hpos,
            if_true, htail, batchOf]
          exact BitVec.zero_add _

/-- As long as only one commit stores something, in sectors that take it, every record stays on
the disk; and these are exactly the runs in which no commit writes over an earlier record or
leaves out bytes of its own. -/
theorem intact_and_spares_iff (speculativeRoute : BitVec 16) (disk : Option Buffer)
    (master : Seed) (commits : List Commit) :
    (Guarded (commit speculativeRoute) (StoresFirst speculativeRoute) (start disk master)
        commits →
      Throughout (commit speculativeRoute) Intact (start disk master) commits) ∧
    (Guarded (commit speculativeRoute) (Spares speculativeRoute) (start disk master) commits ↔
      Guarded (commit speculativeRoute) (StoresFirst speculativeRoute) (start disk master)
        commits) := by
  have hexact : Guarded (commit speculativeRoute) (Spares speculativeRoute) (start disk master)
      commits ↔ Guarded (commit speculativeRoute) (StoresFirst speculativeRoute)
        (start disk master) commits :=
    guarded_congr_of_inv Early (fun j e h hok => h.commit ((h.spares_iff e).mp hok))
      (fun j e h => h.spares_iff e) (.blank rfl rfl)
  exact ⟨fun h => throughout_of_guarded (commit_intact speculativeRoute)
    (fun _ _ _ hw => absurd hw List.not_mem_nil) (hexact.mpr h), hexact⟩

end Journal

/-- A block that differs from the baseline in its first m atoms. -/
def touched (speculativeRoute : BitVec 16) (seed : Seed) (vblock : BitVec 64) (m : Nat) : Block :=
  ⟨fun j =>
    let noise := baseline speculativeRoute seed vblock (BitVec.ofNat 16 j.val)
    if j.val < m then xorValue noise ⟨0, 1⟩ else noise⟩

namespace Journal

/-- Calls with route 0x3FB, seed {1, 2}, and a zeroed stack. -/
def sampleCommit (vblock : BitVec 64) (m : Nat) : Commit :=
  ⟨vblock, touched 0x3FB ⟨1, 2⟩ vblock m, fun _ => 0⟩

/-- Twelve records are what one sector takes; the commits around them have none. -/
theorem intact_and_spares_twelve :
    Throughout (commit 0x3FB) Intact (start (some fun _ => 0) ⟨1, 2⟩)
      [sampleCommit 1 0, sampleCommit 1 12, sampleCommit 2 0] :=
  (intact_and_spares_iff 0x3FB (some fun _ => 0) ⟨1, 2⟩
    [sampleCommit 1 0, sampleCommit 1 12, sampleCommit 2 0]).1 (by decide +kernel)

/-- Two calls with one record each write to the same sector. -/
theorem not_intact_same_sector :
    ¬Throughout (commit 0x3FB) Intact (start (some fun _ => 0) ⟨1, 2⟩)
      [sampleCommit 1 1, sampleCommit 2 1] := by
  intro h
  obtain ⟨disk₁, hdisk₁⟩ := commit_disk 0x3FB (j := start (some fun _ => 0) ⟨1, 2⟩)
    (sampleCommit 1 1) rfl
  obtain ⟨disk, hdisk⟩ := commit_disk 0x3FB (sampleCommit 2 1) hdisk₁
  have hboth : (512 * 8192, ResidueRecord.mk 1 0 ⟨0, 1⟩ 0) ∈
        ([sampleCommit 1 1, sampleCommit 2 1].foldl (commit 0x3FB)
          (start (some fun _ => 0) ⟨1, 2⟩)).written ∧
      (512 * 8192, ResidueRecord.mk 2 0 ⟨0, 1⟩ 3) ∈
        ([sampleCommit 1 1, sampleCommit 2 1].foldl (commit 0x3FB)
          (start (some fun _ => 0) ⟨1, 2⟩)).written := by decide +kernel
  -- both records would have to be the one that begins there
  have hsame : ResidueRecord.mk 1 0 ⟨0, 1⟩ 0 = ResidueRecord.mk 2 0 ⟨0, 1⟩ 3 :=
    (h.last disk hdisk _ hboth.1).symm.trans (h.last disk hdisk _ hboth.2)
  exact absurd hsame (by decide)

end Journal

end EmergenceOS.Vdev.ResiduePersistence
