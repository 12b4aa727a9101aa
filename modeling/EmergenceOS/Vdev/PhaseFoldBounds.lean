/- Module: EmergenceOS/Vdev/PhaseFoldBounds
   digest: When three layers fit their arrays, and the byte counters of the disk path. -/

import EmergenceOS.Lib.GuardedRun
import EmergenceOS.Vdev.CandidateTrail
import EmergenceOS.Vdev.SubstrateRuns

/-!
A correction takes six bytes and the next layer reads them all, so a layer that
reproduces little hands on more than it was given.
-/

set_option autoImplicit false
set_option relaxedAutoImplicit false

namespace EmergenceOS.Vdev.ContextDrivenEngine

open EmergenceOS.Lib.Bytes

/-- No layer of phase_fold stores behind its array, and the residue takes at most 512 bytes. -/
def Fits (masterSeedHi masterSeedLo : BitVec 64) (sector : Buffer) : Prop :=
  ∃ residue, phaseFold masterSeedHi masterSeedLo sector 512 = some residue ∧
    residue.length * Correction.size ≤ 512

/-- All bytes of the sector but two at most are reproduced. -/
def NearlyReproduced (masterSeedHi masterSeedLo : BitVec 64) (sector : Buffer) : Prop :=
  ∃ a b, ∀ i < 512, i ≠ a → i ≠ b →
    Reproduced (masterSeedHi ^^^ 0x1111111111111111) masterSeedLo sector i

/-- What is left in each layer fits its array, if the layer is reached. -/
def HasRoom (masterSeedHi masterSeedLo : BitVec 64) (sector : Buffer) : Prop :=
  let shi1 := masterSeedHi ^^^ 0x1111111111111111
  let shi2 := masterSeedHi ^^^ 0x2222222222222222
  let shi3 := masterSeedHi ^^^ 0x3333333333333333
  let layer1 := corrections shi1 masterSeedLo sector 512
  let layer2 := corrections shi2 masterSeedLo (packed layer1) (layer1.length * Correction.size)
  missed shi1 masterSeedLo sector 512 = 0 ∨
    missed shi2 masterSeedLo (packed layer1) (layer1.length * Correction.size) = 0 ∨
    (missed shi2 masterSeedLo (packed layer1) (layer1.length * Correction.size) ≤ 1024 ∧
      missed shi3 masterSeedLo (packed layer2) (layer2.length * Correction.size) ≤ 85)

/-- How many of the first len bytes some candidate reproduces. -/
def reproducedIn (shi slo : BitVec 64) (data : Buffer) (len : Nat) : Nat :=
  (List.range len).countP fun i => decide (Reproduced shi slo data i)

/-- A byte that is left of the sector costs 36 in the third layer. Each byte of the records that
is reproduced in the second gives 6 of them back, in the third one. -/
def Refunded (masterSeedHi masterSeedLo : BitVec 64) (sector : Buffer) : Prop :=
  let shi2 := masterSeedHi ^^^ 0x2222222222222222
  let layer1 := corrections (masterSeedHi ^^^ 0x1111111111111111) masterSeedLo sector 512
  let layer2 := corrections shi2 masterSeedLo (packed layer1) (layer1.length * Correction.size)
  let found2 := reproducedIn shi2 masterSeedLo (packed layer1) (layer1.length * Correction.size)
  let found3 := reproducedIn (masterSeedHi ^^^ 0x3333333333333333) masterSeedLo (packed layer2)
    (layer2.length * Correction.size)
  found2 = 6 * layer1.length ∨
    (6 * layer1.length ≤ 1024 + found2 ∧ 36 * layer1.length ≤ 85 + 6 * found2 + found3)

theorem evaporateInto_eq (capacity : Nat) (shi slo : BitVec 64) (data : Buffer) {len : Nat}
    (hlen : len ≤ endless) :
    evaporateInto capacity shi slo data len =
      if missed shi slo data len ≤ capacity then some (corrections shi slo data len) else none := by
  rw [evaporateInto, evaporateLayer_eq shi slo data hlen, Option.filter_some,
    length_corrections]
  simp only [decide_eq_true_eq]

theorem corrections_eq_nil_iff (shi slo : BitVec 64) (data : Buffer) (len : Nat) :
    corrections shi slo data len = [] ↔ missed shi slo data len = 0 := by
  rw [← List.length_eq_zero_iff, length_corrections]

theorem length_packed_le {shi slo : BitVec 64} {data : Buffer} {len bound : Nat}
    (hmissed : missed shi slo data len ≤ bound) (hbound : bound ≤ 1024) :
    (corrections shi slo data len).length * Correction.size ≤ endless := by
  have hsize : Correction.size = 6 := rfl
  have hendless : endless = 917490 := rfl
  rw [length_corrections, hsize]
  omega

theorem reproducedIn_add_missed (shi slo : BitVec 64) (data : Buffer) (len : Nat) :
    reproducedIn shi slo data len + missed shi slo data len = len := by
  have hsplit := List.length_eq_countP_add_countP (l := List.range len)
    fun i => decide (Reproduced shi slo data i)
  rw [List.length_range] at hsplit
  refine (congrArg (_ + ·) (List.countP_congr fun i _ => ?_)).trans hsplit.symm
  simp only [Bool.not_eq_true', decide_eq_true_eq, decide_eq_false_iff_not]

/-- Only the positions of a list are left. -/
theorem missed_le_length {shi slo : BitVec 64} {data : Buffer} {len : Nat} {left : List Nat}
    (h : ∀ i < len, i ∉ left → Reproduced shi slo data i) :
    missed shi slo data len ≤ left.length := by
  rw [missed, List.countP_eq_length_filter]
  refine (List.nodup_range.filter _).length_le_of_subset fun i hi => ?_
  obtain ⟨hlt, hmiss⟩ := List.mem_filter.mp hi
  by_contra hnot
  rw [decide_eq_true (h i (List.mem_range.mp hlt) hnot)] at hmiss
  cases hmiss

theorem NearlyReproduced.missed_le_two {masterSeedHi masterSeedLo : BitVec 64} {sector : Buffer}
    (h : NearlyReproduced masterSeedHi masterSeedLo sector) :
    missed (masterSeedHi ^^^ 0x1111111111111111) masterSeedLo sector 512 ≤ 2 := by
  obtain ⟨a, b, hrep⟩ := h
  refine @missed_le_length _ _ _ _ [a, b] fun i hi hnot => ?_
  rw [List.mem_cons, List.mem_singleton, not_or] at hnot
  exact hrep i hi hnot.1 hnot.2

/-- The first layer always fits; the others fit as far as they have little to store. -/
theorem fits_iff_hasRoom (masterSeedHi masterSeedLo : BitVec 64) (sector : Buffer) :
    Fits masterSeedHi masterSeedLo sector ↔ HasRoom masterSeedHi masterSeedLo sector := by
  have hendless : endless = 917490 := rfl
  have hresidue (n : Nat) : n * Correction.size ≤ 512 ↔ n ≤ 85 := by
    have hsize : Correction.size = 6 := rfl
    rw [hsize]
    omega
  have hfirst := missed_le (masterSeedHi ^^^ 0x1111111111111111) masterSeedLo sector 512
  have hlen2 := length_packed_le hfirst (by omega)
  unfold Fits HasRoom phaseFold
  rw [evaporateInto_eq 4096 _ _ _ (by omega), if_pos (by omega), Option.bind_some,
    evaporateInto_eq 1024 _ _ _ hlen2]
  simp only [corrections_eq_nil_iff]
  generalize corrections (masterSeedHi ^^^ 0x1111111111111111) masterSeedLo sector 512 = layer1
  by_cases hzero1 : missed (masterSeedHi ^^^ 0x1111111111111111) masterSeedLo sector 512 = 0
  · rw [if_pos hzero1]
    exact iff_of_true ⟨[], rfl, Nat.zero_le _⟩ (.inl hzero1)
  rw [if_neg hzero1]
  by_cases hfits2 : missed (masterSeedHi ^^^ 0x2222222222222222) masterSeedLo (packed layer1)
      (layer1.length * Correction.size) ≤ 1024
  · have hlen3 := length_packed_le hfits2 (Nat.le_refl _)
    rw [if_pos hfits2, Option.bind_some]
    simp only [corrections_eq_nil_iff]
    by_cases hzero2 : missed (masterSeedHi ^^^ 0x2222222222222222) masterSeedLo (packed layer1)
        (layer1.length * Correction.size) = 0
    · rw [if_pos hzero2]
      exact iff_of_true ⟨[], rfl, Nat.zero_le _⟩ (.inr (.inl hzero2))
    rw [if_neg hzero2, evaporateInto_eq 256 _ _ _ hlen3]
    simp only [hzero1, hzero2, false_or, hfits2, true_and]
    constructor
    · rintro ⟨residue, hfold, hsmall⟩
      split at hfold
      · cases hfold
        rwa [length_corrections, hresidue] at hsmall
      · cases hfold
    · intro hfits3
      rw [if_pos (Nat.le_trans hfits3 (by decide))]
      refine ⟨_, rfl, ?_⟩
      rwa [length_corrections, hresidue]
  · rw [if_neg hfits2]
    refine iff_of_false ?_ ?_
    · rintro ⟨residue, hfold, -⟩
      cases hfold
    · rintro (hzero | hzero | ⟨hfits, -⟩)
      · exact hzero1 hzero
      · exact hfits2 (hzero ▸ Nat.zero_le _)
      · exact hfits2 hfits

theorem fits_iff_refunded (masterSeedHi masterSeedLo : BitVec 64) (sector : Buffer) :
    Fits masterSeedHi masterSeedLo sector ↔ Refunded masterSeedHi masterSeedLo sector := by
  have hsize : Correction.size = 6 := rfl
  rw [fits_iff_hasRoom]
  simp only [HasRoom, Refunded, ← length_corrections]
  generalize corrections (masterSeedHi ^^^ 0x1111111111111111) masterSeedLo sector 512 = layer1
  have hfound2 := reproducedIn_add_missed (masterSeedHi ^^^ 0x2222222222222222) masterSeedLo
    (packed layer1) (layer1.length * Correction.size)
  rw [← length_corrections] at hfound2
  generalize corrections (masterSeedHi ^^^ 0x2222222222222222) masterSeedLo (packed layer1)
    (layer1.length * Correction.size) = layer2 at hfound2 ⊢
  have hfound3 := reproducedIn_add_missed (masterSeedHi ^^^ 0x3333333333333333) masterSeedLo
    (packed layer2) (layer2.length * Correction.size)
  rw [← length_corrections] at hfound3
  rw [hsize] at hfound2 hfound3 ⊢
  omega

/-- Two bytes that are left cost 72 at most. -/
theorem NearlyReproduced.fits {masterSeedHi masterSeedLo : BitVec 64} {sector : Buffer}
    (h : NearlyReproduced masterSeedHi masterSeedLo sector) :
    Fits masterSeedHi masterSeedLo sector := by
  have htwo := h.missed_le_two
  rw [← length_corrections] at htwo
  rw [fits_iff_refunded]
  exact .inr ⟨by omega, by omega⟩

end EmergenceOS.Vdev.ContextDrivenEngine

namespace EmergenceOS.Vdev.SubstrateService

open EmergenceOS.Lib.Bytes EmergenceOS.Lib.GuardedRun EmergenceOS.Vdev.Topology
open EmergenceOS.Vdev.ContextDrivenEngine

/-- The loop of utilize_idle_cycles with `left` fetches to go. -/
def idleLoop (capacity : BitVec 64) : Nat → SubstrateManifold → BitVec 64 →
    SubstrateManifold × BitVec 64
  | 0, m, target => (m, target)
  | left + 1, m, target =>
    if capacity ≤ target then (m, target)
    else idleLoop capacity left (m.holographicFetch target).2 (target + 16)

namespace Service

def getMatchRateScaled (svc : Service) : BitVec 64 :=
  10000 - svc.correctionBytesStored * 10000 / svc.totalBytesWritten

def utilizeIdleCycles (svc : Service) (availableCyclesHint : BitVec 32) : Service :=
  let (m, target) := idleLoop svc.virtualCapacityBytes availableCyclesHint.toNat svc.manifold
    svc.preemptionHorizon
  { svc with manifold := m, preemptionHorizon := target }

end Service

inductive Event
  | request (r : Request)
  | idle (availableCyclesHint : BitVec 32)

/-- None once a write has stored behind one of its arrays. -/
def handle (s : Option Service) : Event → Option Service
  | .request r => s.bind fun svc => svc.serve r
  | .idle hint => s.map fun svc => svc.utilizeIdleCycles hint

/-- The stored bytes are at most the written ones, of which there is one at least. -/
def Service.Ledger (svc : Service) : Prop :=
  0 < svc.totalBytesWritten.toNat ∧
    svc.correctionBytesStored.toNat ≤ svc.totalBytesWritten.toNat

/-- Nothing was stored behind an array, and the counters give a rate. -/
def Accounted (s : Option Service) : Prop :=
  ∃ svc, s = some svc ∧ svc.totalBytesWritten ≠ 0 ∧
    svc.correctionBytesStored ≤ svc.totalBytesWritten ∧ svc.getMatchRateScaled ≤ 10000

/-- With a disk, a write hands over sectors of which at most two bytes are left, and the written
bytes stay countable. -/
def Writable (s : Option Service) : Event → Prop
  | .request (.write _ count buf) => ∀ svc, s = some svc → svc.physicalDisk ≠ none →
    (∀ i < count.toNat,
      NearlyReproduced 0x1234567890ABCDEF 0xABCDEF0123456789 (sectorOf buf i)) ∧
      svc.totalBytesWritten.toNat + sectorBytes * count.toNat < 2 ^ 64
  | _ => True

namespace Service

theorem Ledger.rate_le {svc : Service} (h : svc.Ledger) : svc.getMatchRateScaled ≤ 10000 := by
  obtain ⟨hpos, hle⟩ := h
  have hscale : (10000 : BitVec 64).toNat = 10000 := rfl
  have hquot : svc.correctionBytesStored.toNat * 10000 % 2 ^ 64 / svc.totalBytesWritten.toNat ≤
      10000 := by
    apply Nat.div_le_of_le_mul
    calc svc.correctionBytesStored.toNat * 10000 % 2 ^ 64
        ≤ svc.correctionBytesStored.toNat * 10000 := Nat.mod_le _ _
      _ ≤ svc.totalBytesWritten.toNat * 10000 := Nat.mul_le_mul_right _ hle
  rw [BitVec.le_def, getMatchRateScaled, BitVec.toNat_sub, BitVec.toNat_udiv, BitVec.toNat_mul,
    hscale]
  generalize svc.correctionBytesStored.toNat * 10000 % 2 ^ 64 / svc.totalBytesWritten.toNat =
    quot at hquot ⊢
  omega

theorem Ledger.accounted {svc : Service} (h : svc.Ledger) : Accounted (some svc) := by
  refine ⟨svc, rfl, ?_, h.2, h.rate_le⟩
  intro hzero
  have hpos := h.1
  rw [hzero] at hpos
  exact absurd hpos (Nat.lt_irrefl 0)

end Service

/-- One sector that folds adds at most as much to the one counter as to the other. -/
theorem persist_ledger {svc : Service} (h : svc.Ledger) (currentLba : BitVec 64)
    (sector : Buffer) (hsector : svc.physicalDisk ≠ none →
      NearlyReproduced 0x1234567890ABCDEF 0xABCDEF0123456789 sector ∧
        svc.totalBytesWritten.toNat + sectorBytes < 2 ^ 64) :
    ∃ svc', persist svc currentLba sector = some svc' ∧ svc'.Ledger ∧
      (svc'.physicalDisk ≠ none → svc.physicalDisk ≠ none ∧
        svc'.totalBytesWritten.toNat = svc.totalBytesWritten.toNat + sectorBytes) := by
  have hS : sectorBytes = 512 := rfl
  unfold persist
  cases hdisk : svc.physicalDisk with
  | none => exact ⟨svc, rfl, h, fun hne => absurd hdisk hne⟩
  | some written =>
    obtain ⟨hnearly, hcount⟩ := hsector (by rw [hdisk]; exact Option.some_ne_none _)
    obtain ⟨residue, hfold, hfits⟩ := hnearly.fits
    obtain ⟨hpos, hle⟩ := h
    have hstep : (512 : BitVec 64).toNat = 512 := rfl
    simp only [hS, hfold, Option.bind_some]
    refine ⟨_, if_pos hfits, ⟨?_, ?_⟩, fun _ => ⟨Option.some_ne_none _, ?_⟩⟩
    · simp only [BitVec.toNat_add, hstep]
      omega
    · simp only [BitVec.toNat_add, BitVec.toNat_ofNat, hstep]
      omega
    · simp only [BitVec.toNat_add, hstep]
      omega

theorem writeSectors_ledger (guestLba : BitVec 64) (buf : Buffer) (left i : Nat) {svc : Service}
    (h : svc.Ledger) (hsectors : svc.physicalDisk ≠ none →
      (∀ j, i ≤ j → j < i + left →
        NearlyReproduced 0x1234567890ABCDEF 0xABCDEF0123456789 (sectorOf buf j)) ∧
      svc.totalBytesWritten.toNat + sectorBytes * left < 2 ^ 64) :
    ∃ svc', writeSectors guestLba buf left i svc = some svc' ∧ svc'.Ledger := by
  induction left generalizing i svc with
  | zero => exact ⟨svc, rfl, h⟩
  | succ left ih =>
    have hmat : (materialize svc (sectorVaddr guestLba i) (sectorOf buf i)).Ledger := h
    obtain ⟨mid, hpersist, hmid, hcount⟩ :=
      persist_ledger hmat (guestLba + BitVec.ofNat 64 i) (sectorOf buf i) fun hdisk => by
        obtain ⟨hnearly, hbytes⟩ := hsectors hdisk
        refine ⟨hnearly i (Nat.le_refl i) (by omega), ?_⟩
        rw [Nat.mul_succ] at hbytes
        exact Nat.lt_of_le_of_lt (Nat.add_le_add_left (Nat.le_add_left _ _) _) hbytes
    obtain ⟨svc', hrest, hledger⟩ := ih (i + 1) hmid fun hdisk => by
      obtain ⟨hdisk, htotal⟩ := hcount hdisk
      obtain ⟨hnearly, hbytes⟩ := hsectors hdisk
      refine ⟨fun j hj hlt => hnearly j (by omega) (by omega), ?_⟩
      rwa [htotal, Nat.add_assoc, Nat.add_comm sectorBytes, ← Nat.mul_succ]
    refine ⟨svc', ?_, hledger⟩
    rw [writeSectors, hpersist]
    exact hrest

/-- Reads and idle cycles do not touch the counters; a write that is allowed keeps the ledger. -/
theorem handle_ledger {s : Option Service} {e : Event} (hs : ∃ svc, s = some svc ∧ svc.Ledger)
    (he : Writable s e) : ∃ svc, handle s e = some svc ∧ svc.Ledger := by
  obtain ⟨svc, rfl, hledger⟩ := hs
  cases e with
  | idle hint => exact ⟨svc.utilizeIdleCycles hint, rfl, hledger⟩
  | request r =>
    cases r with
    | read lba count buf =>
      refine ⟨(svc.serveRead lba count buf).2.1, rfl, ?_⟩
      simp only [Service.serveRead]
      split <;> exact hledger
    | write lba count buf =>
      obtain ⟨svc', hwrite, hledger'⟩ :=
        writeSectors_ledger lba buf count.toNat 0 hledger fun hdisk => by
          obtain ⟨hnearly, hbytes⟩ := he svc rfl hdisk
          exact ⟨fun j _ hj => hnearly j (by omega), hbytes⟩
      refine ⟨svc', ?_, hledger'⟩
      simp only [handle, Option.bind_some, Service.serve, Service.serveWrite, hwrite,
        Option.map_some]

/-- A sector that begins with 74 and 5. -/
def crowdedSector : Buffer := fun i => [74, 5].getD i 0

/-- The first bytes of its first layer. -/
def crowdedLayer1 : Buffer := fun i => [1, 0, 0, 0, 5, 4].getD i 0

/-- The first bytes of its second layer. -/
def crowdedLayer2 : Buffer := fun i =>
  if i % 6 < 4 then 0 else [1, 0, 0, 0, 5, 4].getD (i / 6) 0

theorem crowdedLayer1_eq : ∀ i < 15, packed (heads crowdedSector 1 2) i = crowdedLayer1 i := by
  decide

theorem crowdedLayer2_eq : ∀ i < 86, packed (heads crowdedLayer1 0 14) i = crowdedLayer2 i := by
  decide

/-- With the seeds of serve_write byte 0 of the sector is reproduced and the next three are not. -/
theorem crowdedSector_heads : heads crowdedSector 1 2 <+:
    corrections (0x1234567890ABCDEF ^^^ 0x1111111111111111) 0xABCDEF0123456789 crowdedSector
      512 := by
  have hcheck : noneReproduced (0x1234567890ABCDEF ^^^ 0x1111111111111111) 0xABCDEF0123456789
      crowdedSector 1 3 = true := by
    decide +kernel
  refine corrections_of_noneReproduced (by decide) hcheck (fun i hi => ?_) (fun _ _ => rfl)
    (by decide)
  obtain rfl : i = 0 := by omega
  refine (reproduced_congr fun j hj => ?_).mpr (reproduced_first 74 (.inl rfl))
  obtain rfl : j = 0 := by omega
  rfl

/-- None of the first 15 bytes of its first layer is. -/
theorem crowdedLayer1_heads {data : Buffer} (hsame : ∀ i < 15, data i = crowdedLayer1 i)
    {len : Nat} (hlen : 15 ≤ len) : heads crowdedLayer1 0 14 <+:
      corrections (0x1234567890ABCDEF ^^^ 0x2222222222222222) 0xABCDEF0123456789 data len := by
  have hcheck : noneReproduced (0x1234567890ABCDEF ^^^ 0x2222222222222222) 0xABCDEF0123456789
      crowdedLayer1 0 15 = true := by
    decide +kernel
  exact corrections_of_noneReproduced (by decide) hcheck (fun i hi => absurd hi (Nat.not_lt_zero i))
    hsame hlen

/-- None of the first 86 bytes of its second layer is. -/
theorem crowdedLayer2_heads {data : Buffer} (hsame : ∀ i < 86, data i = crowdedLayer2 i)
    {len : Nat} (hlen : 86 ≤ len) : heads crowdedLayer2 0 85 <+:
      corrections (0x1234567890ABCDEF ^^^ 0x3333333333333333) 0xABCDEF0123456789 data len := by
  have hcheck : noneReproduced (0x1234567890ABCDEF ^^^ 0x3333333333333333) 0xABCDEF0123456789
      crowdedLayer2 0 86 = true := by
    decide +kernel
  exact corrections_of_noneReproduced (by decide) hcheck (fun i hi => absurd hi (Nat.not_lt_zero i))
    hsame hlen

/-- Three records in the first layer lead to 86 in the third. -/
theorem not_fits_crowdedSector : ¬Fits 0x1234567890ABCDEF 0xABCDEF0123456789 crowdedSector := by
  have hsize : Correction.size = 6 := rfl
  rw [fits_iff_hasRoom]
  intro h
  simp only [HasRoom, ← length_corrections] at h
  have hlayer1 := crowdedSector_heads
  generalize corrections (0x1234567890ABCDEF ^^^ 0x1111111111111111) 0xABCDEF0123456789
    crowdedSector 512 = layer1 at h hlayer1
  have hlen1 := hlayer1.length_le
  rw [length_heads] at hlen1
  have hlayer2 : heads crowdedLayer1 0 14 <+:
      corrections (0x1234567890ABCDEF ^^^ 0x2222222222222222) 0xABCDEF0123456789 (packed layer1)
        (layer1.length * Correction.size) := by
    refine crowdedLayer1_heads (fun i hi => ?_) (by rw [hsize]; omega)
    rw [packed_begins hlayer1 (by rw [length_heads, hsize]; omega), crowdedLayer1_eq i hi]
  generalize corrections (0x1234567890ABCDEF ^^^ 0x2222222222222222) 0xABCDEF0123456789
    (packed layer1) (layer1.length * Correction.size) = layer2 at h hlayer2
  have hlen2 := hlayer2.length_le
  rw [length_heads] at hlen2
  have hlayer3 : heads crowdedLayer2 0 85 <+:
      corrections (0x1234567890ABCDEF ^^^ 0x3333333333333333) 0xABCDEF0123456789 (packed layer2)
        (layer2.length * Correction.size) := by
    refine crowdedLayer2_heads (fun i hi => ?_) (by rw [hsize]; omega)
    rw [packed_begins hlayer2 (by rw [length_heads, hsize]; omega), crowdedLayer2_eq i hi]
  have hlen3 := hlayer3.length_le
  rw [length_heads] at hlen3
  omega

end EmergenceOS.Vdev.SubstrateService
