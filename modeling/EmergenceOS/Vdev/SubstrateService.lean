/- Module: EmergenceOS/Vdev/SubstrateService
   digest: Sector requests over the manifold, and which of them the capacity admits. -/

import EmergenceOS.Vdev.ContextDrivenEngine
import EmergenceOS.Vdev.TopologyRuns

/-!
Buffer offsets are 32-bit products, addresses are 64-bit products; both wrap. A
write that stores behind one of its arrays has no defined outcome.
-/

set_option autoImplicit false
set_option relaxedAutoImplicit false

namespace EmergenceOS.Vdev.SubstrateService

open EmergenceOS.Lib.Bytes EmergenceOS.Mm.Memory EmergenceOS.Vdev.Topology
open EmergenceOS.Vdev.ContextDrivenEngine

inductive Build
  | sovereign | evaluation | enterprise
  deriving DecidableEq

def Build.capacityBytes : Build → BitVec 64
  | .sovereign => 100 * 1024 * 1024 * 1024 * 1024
  | .evaluation => 1 * 1024 * 1024 * 1024 * 1024
  | .enterprise => 10 * 1024 * 1024 * 1024 * 1024

def sectorBytes : Nat := 512

/-- One sector handed to the disk. The bytes behind the residue are what the stack held. -/
structure JournalWrite where
  lba : BitVec 64
  residue : List Correction

/-- The physical disk is null or has received some writes. -/
structure Service where
  manifold : SubstrateManifold
  physicalDisk : Option (List JournalWrite)
  virtualCapacityBytes : BitVec 64
  highestAccessedVaddr : BitVec 64
  preemptionHorizon : BitVec 64
  totalBytesWritten : BitVec 64
  correctionBytesStored : BitVec 64

namespace Service

def new (build : Build) (manifold : SubstrateManifold) (phys : Option (List JournalWrite)) :
    Service :=
  ⟨manifold, phys, build.capacityBytes, 0, 0, 1, 1⟩

def getCapacity (svc : Service) : BitVec 64 := svc.virtualCapacityBytes

end Service

/-- (guest_lba + i) * 512 in 64 bits. -/
def sectorVaddr (guestLba : BitVec 64) (i : Nat) : BitVec 64 :=
  (guestLba + BitVec.ofNat 64 i) * 512

/-- i * 512 in 32 bits. -/
def bufferOffset (i : Nat) : Nat := (BitVec.ofNat 32 i * 512).toNat

/-- The copies of one sector out of the manifold, atom by atom, from atom j on. -/
def copyAtoms (m : SubstrateManifold) (vaddr : BitVec 64) (o : Nat) :
    Nat → Nat → Buffer → Buffer
  | 0, _, buf => buf
  | left + 1, j, buf =>
    let atom := (m.holographicFetch (vaddr + BitVec.ofNat 64 (16 * j))).1
    copyAtoms m vaddr o left (j + 1) (kmemcpy buf (o + 16 * j) atom.data 0 16)

/-- The loop of serve_read with `left` sectors to go, the first of them number i. -/
def readSectors (m : SubstrateManifold) (capacity guestLba : BitVec 64) :
    Nat → Nat → Buffer → Bool × Buffer
  | 0, _, buf => (true, buf)
  | left + 1, i, buf =>
    let vaddr := sectorVaddr guestLba i
    if capacity ≤ vaddr then (false, buf)
    else
      readSectors m capacity guestLba left (i + 1)
        (copyAtoms m vaddr (bufferOffset i) (sectorBytes / 16) 0 buf)

/-- Steps 2 and 3 of serve_write for one sector. -/
def persist (svc : Service) (currentLba : BitVec 64) (sector : Buffer) : Option Service :=
  match svc.physicalDisk with
  | none => some svc
  | some written =>
    (phaseFold 0x1234567890ABCDEF 0xABCDEF0123456789 sector sectorBytes).bind fun residue =>
      let count := residue.length * Correction.size
      if count ≤ 512 then
        some { svc with
          physicalDisk := some (written ++ [⟨16384 + currentLba * 2, residue⟩])
          totalBytesWritten := svc.totalBytesWritten + 512
          correctionBytesStored := svc.correctionBytesStored + BitVec.ofNat 64 count }
      else none

/-- The layers of phase_fold and the residue of one sector fit their arrays. -/
def Folds (sector : Buffer) : Prop :=
  ∃ residue, phaseFold 0x1234567890ABCDEF 0xABCDEF0123456789 sector sectorBytes = some residue ∧
    residue.length * Correction.size ≤ 512

/-- guest_buffer + (i * 512). -/
def sectorOf (buf : Buffer) (i : Nat) : Buffer := fun k => buf (bufferOffset i + k)

/-- Step 1 of serve_write for one sector. -/
def materialize (svc : Service) (vaddr : BitVec 64) (sector : Buffer) : Service :=
  { svc with manifold := svc.manifold.materializeRange vaddr sector sectorBytes }

/-- The loop of serve_write with `left` sectors to go, the first of them number i. -/
def writeSectors (guestLba : BitVec 64) (buf : Buffer) : Nat → Nat → Service → Option Service
  | 0, _, svc => some svc
  | left + 1, i, svc =>
    (persist (materialize svc (sectorVaddr guestLba i) (sectorOf buf i))
      (guestLba + BitVec.ofNat 64 i) (sectorOf buf i)).bind
        (writeSectors guestLba buf left (i + 1))

namespace Service

def serveRead (svc : Service) (guestLba : BitVec 64) (sectorCount : BitVec 32) (buf : Buffer) :
    Bool × Service × Buffer :=
  let startVaddr := guestLba * 512
  let svc :=
    if svc.highestAccessedVaddr ≤ startVaddr then
      { svc with
        highestAccessedVaddr := startVaddr
        preemptionHorizon := startVaddr + (sectorCount * 512).setWidth 64 }
    else svc
  let (ok, buf) :=
    readSectors svc.manifold svc.virtualCapacityBytes guestLba sectorCount.toNat 0 buf
  (ok, svc, buf)

/-- None when a layer or the residue does not fit its array. -/
def serveWrite (svc : Service) (guestLba : BitVec 64) (sectorCount : BitVec 32) (buf : Buffer) :
    Option (Bool × Service) :=
  (writeSectors guestLba buf sectorCount.toNat 0 svc).map fun svc => (true, svc)

/-- Every sector of the request lies below the capacity, counted without wrap-around. -/
def InCapacity (svc : Service) (guestLba : BitVec 64) (sectorCount : BitVec 32) : Prop :=
  ∀ i < sectorCount.toNat, (guestLba.toNat + i) * sectorBytes < svc.getCapacity.toNat

/-- Without a disk nothing is evaporated; with one every sector of the request must fold. -/
def Foldable (svc : Service) (sectorCount : BitVec 32) (buf : Buffer) : Prop :=
  ∀ i < sectorCount.toNat, svc.physicalDisk = none ∨ Folds (sectorOf buf i)

end Service

theorem sectorVaddr_eq (guestLba : BitVec 64) (i : Nat) :
    sectorVaddr guestLba i = BitVec.ofNat 64 ((guestLba.toNat + i) * sectorBytes) := by
  have h512 : (512 : BitVec 64).toNat = 512 := rfl
  apply BitVec.eq_of_toNat_eq
  simp only [sectorVaddr, BitVec.toNat_mul, BitVec.toNat_add, BitVec.toNat_ofNat, h512,
    sectorBytes]
  omega

theorem bufferOffset_eq {i : Nat} (h : i < 2 ^ 23) : bufferOffset i = sectorBytes * i := by
  have h512 : (512 : BitVec 32).toNat = 512 := rfl
  simp only [bufferOffset, BitVec.toNat_mul, BitVec.toNat_ofNat, sectorBytes, h512]
  omega

/-- Byte k of the sector at an address, as serve_read copies it. -/
def sectorByte (m : SubstrateManifold) (vaddr : BitVec 64) (k : Nat) : Byte :=
  (m.holographicFetch (vaddr + BitVec.ofNat 64 (16 * (k / 16)))).1.data (k % 16)

theorem copyAtoms_apply (m : SubstrateManifold) (vaddr : BitVec 64) (o left j : Nat)
    (buf : Buffer) (x : Nat) :
    copyAtoms m vaddr o left j buf x =
      if o + 16 * j ≤ x ∧ x < o + 16 * (j + left) then sectorByte m vaddr (x - o) else buf x := by
  induction left generalizing j buf with
  | zero => rw [copyAtoms, if_neg (by omega)]
  | succ left ih =>
    rw [copyAtoms, ih, kmemcpy_eq_blit]
    by_cases hin : o + 16 * j ≤ x ∧ x < o + 16 * j + 16
    · have hdiv : (x - o) / 16 = j := by omega
      rw [if_neg (by omega), if_pos (by omega), blit_inside _ _ hin.1 hin.2, sectorByte, hdiv]
      congr 1
      omega
    · rw [blit_outside _ _ (by omega)]
      simp only [show o + 16 * (j + 1) ≤ x ∧ x < o + 16 * (j + 1 + left) ↔
        o + 16 * j ≤ x ∧ x < o + 16 * (j + (left + 1)) by omega]

/-- The loop accepts when the address of each sector, wrapped as it may be, is below capacity. -/
theorem readSectors_fst (m : SubstrateManifold) (capacity guestLba : BitVec 64) (left i : Nat)
    (buf : Buffer) : (readSectors m capacity guestLba left i buf).1 = true ↔
      ∀ j, i ≤ j → j < i + left → sectorVaddr guestLba j < capacity := by
  induction left generalizing i buf with
  | zero => exact ⟨fun _ j hi hj => by omega, fun _ => rfl⟩
  | succ left ih =>
    rw [readSectors]
    by_cases hcap : capacity ≤ sectorVaddr guestLba i
    · rw [if_pos hcap]
      refine ⟨fun h => absurd h Bool.false_ne_true, fun h => ?_⟩
      exact absurd (h i (Nat.le_refl i) (by omega)) (BitVec.not_lt.mpr hcap)
    · rw [if_neg hcap, ih]
      constructor
      · intro h j hi hj
        rcases Nat.eq_or_lt_of_le hi with rfl | hlt
        · exact BitVec.not_le.mp hcap
        · exact h j hlt (by omega)
      · exact fun h j hi hj => h j (by omega) (by omega)

/-- An accepted read leaves the sectors one after another in the buffer. -/
theorem readSectors_snd {m : SubstrateManifold} {capacity guestLba : BitVec 64} {left i : Nat}
    (hcount : i + left ≤ 2 ^ 23) {buf : Buffer}
    (h : (readSectors m capacity guestLba left i buf).1 = true) (x : Nat) :
    (readSectors m capacity guestLba left i buf).2 x =
      if sectorBytes * i ≤ x ∧ x < sectorBytes * (i + left) then
        sectorByte m (sectorVaddr guestLba (x / sectorBytes)) (x % sectorBytes)
      else buf x := by
  have hS : sectorBytes = 512 := rfl
  induction left generalizing i buf with
  | zero => rw [readSectors, Nat.add_zero, if_neg (by omega)]
  | succ left ih =>
    rw [readSectors] at h ⊢
    by_cases hcap : capacity ≤ sectorVaddr guestLba i
    · rw [if_pos hcap] at h
      cases h
    · rw [if_neg hcap] at h ⊢
      rw [ih (by omega) h, copyAtoms_apply, bufferOffset_eq (by omega), hS]
      by_cases hin : 512 * i ≤ x ∧ x < 512 * (i + 1)
      · have hdiv : x / 512 = i := by omega
        have hmod : x - 512 * i = x % 512 := by omega
        rw [if_neg (by omega), if_pos (by omega), if_pos (by omega), hdiv, hmod]
      · rw [if_neg (c := 512 * i + 16 * 0 ≤ x ∧ x < 512 * i + 16 * (0 + 512 / 16)) (by omega)]
        simp only [show 512 * (i + 1) ≤ x ∧ x < 512 * (i + 1 + left) ↔
          512 * i ≤ x ∧ x < 512 * (i + (left + 1)) by omega]

theorem persist_frame {svc svc' : Service} {currentLba : BitVec 64} {sector : Buffer}
    (h : persist svc currentLba sector = some svc') :
    svc'.manifold = svc.manifold ∧ svc'.virtualCapacityBytes = svc.virtualCapacityBytes ∧
      (svc'.physicalDisk = none ↔ svc.physicalDisk = none) := by
  unfold persist at h
  split at h
  · cases h
    exact ⟨rfl, rfl, Iff.rfl⟩
  · rename_i written hdisk
    obtain ⟨residue, -, h⟩ := Option.bind_eq_some_iff.mp h
    simp only at h
    split at h
    · cases h
      exact ⟨rfl, rfl, by simp [hdisk]⟩
    · cases h

theorem exists_persist_iff (svc : Service) (currentLba : BitVec 64) (sector : Buffer) :
    (∃ svc', persist svc currentLba sector = some svc') ↔
      svc.physicalDisk = none ∨ Folds sector := by
  unfold persist Folds
  cases hdisk : svc.physicalDisk with
  | none => simp
  | some written =>
    simp only [Option.bind_eq_some_iff, reduceCtorEq, false_or]
    constructor
    · rintro ⟨svc', residue, hfold, h⟩
      refine ⟨residue, hfold, ?_⟩
      split at h
      · assumption
      · cases h
    · rintro ⟨residue, hfold, hfits⟩
      exact ⟨_, residue, hfold, if_pos hfits⟩

/-- The manifold operations of serve_write, sector by sector. -/
def writeOps (guestLba : BitVec 64) (buf : Buffer) (left i : Nat) : List SubstrateManifold.Op :=
  (List.range' i left).map fun j =>
    .materialize (sectorVaddr guestLba j) (sectorOf buf j) sectorBytes

theorem writeSectors_frame {guestLba : BitVec 64} {buf : Buffer} {left i : Nat}
    {svc svc' : Service} (h : writeSectors guestLba buf left i svc = some svc') :
    svc'.manifold = svc.manifold.run (writeOps guestLba buf left i) ∧
      svc'.virtualCapacityBytes = svc.virtualCapacityBytes ∧
      (svc'.physicalDisk = none ↔ svc.physicalDisk = none) := by
  induction left generalizing i svc with
  | zero =>
    cases h
    exact ⟨rfl, rfl, Iff.rfl⟩
  | succ left ih =>
    obtain ⟨mid, hpersist, hrest⟩ := Option.bind_eq_some_iff.mp h
    obtain ⟨hm, hcap, hdisk⟩ := persist_frame hpersist
    obtain ⟨hm', hcap', hdisk'⟩ := ih hrest
    rw [hm', hcap', hdisk', hm, hcap, hdisk]
    exact ⟨rfl, rfl, Iff.rfl⟩

theorem exists_writeSectors_iff (guestLba : BitVec 64) (buf : Buffer) (left i : Nat)
    (svc : Service) : (∃ svc', writeSectors guestLba buf left i svc = some svc') ↔
      ∀ j, i ≤ j → j < i + left → svc.physicalDisk = none ∨ Folds (sectorOf buf j) := by
  induction left generalizing i svc with
  | zero => exact ⟨fun _ j hi hj => by omega, fun _ => ⟨svc, rfl⟩⟩
  | succ left ih =>
    constructor
    · rintro ⟨svc', h⟩ j hi hj
      obtain ⟨mid, hpersist, hrest⟩ := Option.bind_eq_some_iff.mp h
      rcases Nat.eq_or_lt_of_le hi with rfl | hlt
      · exact (exists_persist_iff (materialize svc _ _) _ _).mp ⟨mid, hpersist⟩
      · have hfold := (ih _ _).mp ⟨svc', hrest⟩ j hlt (by omega)
        rwa [(persist_frame hpersist).2.2] at hfold
    · intro h
      obtain ⟨mid, hpersist⟩ := (exists_persist_iff
        (materialize svc (sectorVaddr guestLba i) (sectorOf buf i))
        (guestLba + BitVec.ofNat 64 i) (sectorOf buf i)).mpr (h i (Nat.le_refl i) (by omega))
      obtain ⟨svc', hrest⟩ := (ih (i + 1) mid).mpr fun j hi hj => by
        rw [(persist_frame hpersist).2.2]
        exact h j (by omega) (by omega)
      refine ⟨svc', ?_⟩
      rw [writeSectors, hpersist]
      exact hrest

namespace Service

@[simp] theorem serveRead_manifold (svc : Service) (guestLba : BitVec 64) (sectorCount : BitVec 32)
    (buf : Buffer) : (svc.serveRead guestLba sectorCount buf).2.1.manifold = svc.manifold := by
  simp only [serveRead]
  split <;> rfl

@[simp] theorem serveRead_capacity (svc : Service) (guestLba : BitVec 64) (sectorCount : BitVec 32)
    (buf : Buffer) : (svc.serveRead guestLba sectorCount buf).2.1.virtualCapacityBytes =
      svc.virtualCapacityBytes := by
  simp only [serveRead]
  split <;> rfl

/-- What a read answers depends on the manifold and the capacity only. -/
theorem serveRead_eq (svc : Service) (guestLba : BitVec 64) (sectorCount : BitVec 32)
    (buf : Buffer) :
    ((svc.serveRead guestLba sectorCount buf).1, (svc.serveRead guestLba sectorCount buf).2.2) =
      readSectors svc.manifold svc.virtualCapacityBytes guestLba sectorCount.toNat 0 buf := by
  simp only [serveRead]
  split <;> rfl

/-- A request inside the capacity does not wrap, so a read of it is accepted. -/
theorem serveRead_of_inCapacity {svc : Service} {guestLba : BitVec 64} {sectorCount : BitVec 32}
    (h : svc.InCapacity guestLba sectorCount) (buf : Buffer) :
    (svc.serveRead guestLba sectorCount buf).1 = true := by
  have hread := congrArg Prod.fst (svc.serveRead_eq guestLba sectorCount buf)
  simp only at hread
  rw [hread, readSectors_fst]
  intro i _ hi
  have hlt := h i (by omega)
  have hcap := svc.getCapacity.isLt
  rw [BitVec.lt_def, sectorVaddr_eq, BitVec.toNat_ofNat, Nat.mod_eq_of_lt (by omega)]
  exact hlt

theorem exists_serveWrite_iff {svc : Service} {guestLba : BitVec 64} {sectorCount : BitVec 32}
    {buf : Buffer} : (∃ r, svc.serveWrite guestLba sectorCount buf = some r) ↔
      svc.Foldable sectorCount buf := by
  have hloop := exists_writeSectors_iff guestLba buf sectorCount.toNat 0 svc
  unfold serveWrite Foldable
  constructor
  · rintro ⟨r, hr⟩ i hi
    obtain ⟨svc', hsvc, -⟩ := Option.map_eq_some_iff.mp hr
    exact hloop.mp ⟨svc', hsvc⟩ i (Nat.zero_le i) (by omega)
  · intro h
    obtain ⟨svc', hsvc⟩ := hloop.mpr fun j _ hj => h j (by omega)
    exact ⟨_, by rw [hsvc]; rfl⟩

theorem serveWrite_fst {svc : Service} {guestLba : BitVec 64} {sectorCount : BitVec 32}
    {buf : Buffer} {r : Bool × Service} (h : svc.serveWrite guestLba sectorCount buf = some r) :
    r.1 = true := by
  obtain ⟨svc', -, rfl⟩ := Option.map_eq_some_iff.mp h
  rfl

/-- What the capacity promises about one request: both operations accept exactly what lies
inside, and one that does not leaves every sector inside as it reads. -/
def CapacityGuarded (svc : Service) (guestLba : BitVec 64) (sectorCount : BitVec 32)
    (data out : Buffer) : Prop :=
  ∃ r, svc.serveWrite guestLba sectorCount data = some r ∧
    (r.1 = true ↔ svc.InCapacity guestLba sectorCount) ∧
    ((svc.serveRead guestLba sectorCount out).1 = true ↔ svc.InCapacity guestLba sectorCount) ∧
    (¬svc.InCapacity guestLba sectorCount → ∀ lba buf, svc.InCapacity lba 1 →
      (r.2.serveRead lba 1 buf).2.2 = (svc.serveRead lba 1 buf).2.2 ∧
      ((svc.serveRead guestLba sectorCount out).2.1.serveRead lba 1 buf).2.2 =
        (svc.serveRead lba 1 buf).2.2)

/-- serve_write checks nothing, so the capacity guards exactly the requests inside it. -/
theorem capacityGuarded_iff_inCapacity (svc : Service) (guestLba : BitVec 64)
    (sectorCount : BitVec 32) (data out : Buffer) :
    svc.CapacityGuarded guestLba sectorCount data out ↔
      svc.InCapacity guestLba sectorCount ∧ svc.Foldable sectorCount data := by
  constructor
  · rintro ⟨r, hr, hwrite, -, -⟩
    exact ⟨hwrite.mp (serveWrite_fst hr), exists_serveWrite_iff.mp ⟨r, hr⟩⟩
  · rintro ⟨hcap, hfold⟩
    obtain ⟨r, hr⟩ := exists_serveWrite_iff.mpr hfold
    exact ⟨r, hr, iff_of_true (serveWrite_fst hr) hcap,
      iff_of_true (serveRead_of_inCapacity hcap out) hcap, fun hout => absurd hcap hout⟩

/-- Sector 2^55 is accepted; its address wraps to that of sector 0. -/
theorem not_capacityGuarded_wrapped :
    (1 : BitVec 32).toNat < 2 ^ 23 ∧
      ¬(new .enterprise SubstrateManifold.zeroed none).CapacityGuarded
        (BitVec.ofNat 64 (2 ^ 55)) 1 (fun _ => 1) (fun _ => 0) := by
  refine ⟨by decide, fun ⟨r, hr, hwrite, _, _⟩ => ?_⟩
  have hin := hwrite.mp (serveWrite_fst hr) 0 (by decide)
  exact absurd hin (by decide)

end Service

end EmergenceOS.Vdev.SubstrateService
