/- Module: EmergenceOS/Vdev/EvaporateStream
   digest: The corrections of one evaporation layer as a gap code, and what they leave open. -/

import EmergenceOS.Lib.GapCode
import EmergenceOS.Vdev.ContextDrivenEngine

/-!
A byte is left out of the stream when one of 2048 candidates gives it and passes an
8-bit check. About eight of the 2048 pass the check, and each may give another byte.
-/

set_option autoImplicit false
set_option relaxedAutoImplicit false

namespace EmergenceOS.Vdev.ContextDrivenEngine

open EmergenceOS.Lib.Bytes EmergenceOS.Lib.GapCode

/-- The context after the first i bytes. -/
def contextAt (data : Buffer) : Nat → ContextAccumulator
  | 0 => .new
  | i + 1 => (contextAt data i).absorb (data i)

/-- The probe for candidate k. -/
def probeAt (ctx : ContextAccumulator) : Nat → ContextAccumulator
  | 0 => ctx
  | k + 1 => (probeAt ctx k).absorb (BitVec.ofNat 8 k)

/-- Candidate k of position i gives the byte and passes the check. -/
def Candidate (shi slo : BitVec 64) (ctx : ContextAccumulator) (i k : Nat) (datum : Byte) : Prop :=
  let position := BitVec.ofNat 64 i
  let entry := BitVec.ofNat 16 (i / 14)
  let bytePos := BitVec.ofNat 8 (i % 14)
  let basis := (probeAt ctx k).basis 64
  let slot := (probeAt ctx k).slot 1024
  noiseAt shi slo slot basis entry bytePos = some datum ∧
    candidateCrc shi slo slot basis entry bytePos position ctx.hi ctx.lo =
      positionCrc shi slo ctx position

instance (shi slo : BitVec 64) (ctx : ContextAccumulator) (i k : Nat) (datum : Byte) :
    Decidable (Candidate shi slo ctx i k datum) :=
  inferInstanceAs (Decidable (_ ∧ _))

/-- Some candidate reproduces byte i of the data in its context. -/
def Reproduced (shi slo : BitVec 64) (data : Buffer) (i : Nat) : Prop :=
  ∃ k < candidates, Candidate shi slo (contextAt data i) i k (data i)

instance (shi slo : BitVec 64) (data : Buffer) (i : Nat) :
    Decidable (Reproduced shi slo data i) :=
  inferInstanceAs (Decidable (∃ k < candidates, _))

/-- The first position whose 16-bit entry index is 0xFFFF. -/
def endless : Nat := 14 * 0xFFFF

/-- Byte i as the stream has it: none for a reproduced one. -/
def kept (shi slo : BitVec 64) (data : Buffer) (i : Nat) : Option Byte :=
  if Reproduced shi slo data i then none else some (data i)

def keptFrom (shi slo : BitVec 64) (data : Buffer) (i left : Nat) : List (Option Byte) :=
  (List.range' i left).map (kept shi slo data)

/-- How many of the first len bytes no candidate reproduces. -/
def missed (shi slo : BitVec 64) (data : Buffer) (len : Nat) : Nat :=
  (List.range len).countP fun i => !decide (Reproduced shi slo data i)

/-- The stored record for a gap and the byte behind it. -/
def toCorrection (p : Nat × Byte) : Correction :=
  (Correction.mk (BitVec.ofNat 32 p.1) p.2 0).generateEcc

/-- The gap and the byte of a stored record. -/
def ofCorrection (c : Correction) : Nat × Byte := (c.delta.toNat, c.value)

/-- The records for the bytes that are kept. -/
def corrections (shi slo : BitVec 64) (data : Buffer) (len : Nat) : List Correction :=
  (gaps (keptFrom shi slo data 0 len) 0).map toCorrection

/-- The records for n + 1 bytes that are kept one after another, the first of them at
position `first`. -/
def heads (data : Buffer) (first n : Nat) : List Correction :=
  toCorrection (first, data first) ::
    (List.range' (first + 1) n).map fun i => toCorrection (0, data i)

/-- What noise_at returns for an entry below 0xFFFF. -/
def noiseByte (shi slo : BitVec 64) (slot : BitVec 16) (basis : Byte) (entry : BitVec 16)
    (bytePos : Byte) : Byte :=
  let sh := shi ^^^ (slot.setWidth 64 * phiLo) ^^^ (basis.setWidth 64 * 0xBF58476D1CE4E5B9)
  let sl := slo ^^^ (slot.setWidth 64 * phiHi) ^^^ (basis.setWidth 64 * 0x94D049BB133111EB)
  let s := noiseStep^[entry.toNat + 1] (sh, sl)
  if bytePos < 8 then byteAt s.2 bytePos.toNat else byteAt s.1 (bytePos.toNat - 8)

theorem succ_counter {j : BitVec 16} (hj : j.toNat < 0xFFFF) :
    j ≠ 0xFFFF ∧ (j + 1).toNat = j.toNat + 1 := by
  have hone : (1 : BitVec 16).toNat = 1 := rfl
  have hmax : (0xFFFF : BitVec 16).toNat = 0xFFFF := rfl
  constructor
  · rintro rfl
    omega
  · rw [BitVec.toNat_add, hone]
    omega

theorem noiseLoop_eq {entry : BitVec 16} (hentry : entry.toNat < 0xFFFF) (left : Nat)
    {j : BitVec 16} (hj : j.toNat + left = entry.toNat + 1) (s : BitVec 64 × BitVec 64) :
    noiseLoop entry j s = some (noiseStep^[left] s) := by
  induction left generalizing j s with
  | zero =>
    rw [noiseLoop, if_neg (by rw [BitVec.le_def]; omega)]
    rfl
  | succ left ih =>
    obtain ⟨hne, hnext⟩ := succ_counter (j := j) (by omega)
    rw [noiseLoop, if_pos (by rw [BitVec.le_def]; omega), dif_neg hne, ih (by omega),
      Function.iterate_succ_apply]

theorem noiseLoop_endless (j : BitVec 16) (s : BitVec 64 × BitVec 64) :
    noiseLoop 0xFFFF j s = none := by
  have hmax : (0xFFFF : BitVec 16).toNat = 0xFFFF := rfl
  obtain ⟨left, hleft⟩ : ∃ left, j.toNat + left = 0xFFFF := ⟨0xFFFF - j.toNat, by omega⟩
  induction left generalizing j s with
  | zero =>
    obtain rfl : j = 0xFFFF := BitVec.eq_of_toNat_eq (by omega)
    rw [noiseLoop, if_pos (BitVec.le_refl _), dif_pos rfl]
  | succ left ih =>
    obtain ⟨hne, hnext⟩ := succ_counter (j := j) (by omega)
    rw [noiseLoop, if_pos (by rw [BitVec.le_def]; omega), dif_neg hne, ih _ _ (by omega)]

theorem noiseAt_eq {entry : BitVec 16} (hentry : entry.toNat < 0xFFFF) (shi slo : BitVec 64)
    (slot : BitVec 16) (basis bytePos : Byte) :
    noiseAt shi slo slot basis entry bytePos =
      some (noiseByte shi slo slot basis entry bytePos) := by
  have hzero : (0 : BitVec 16).toNat = 0 := rfl
  rw [noiseAt, noiseLoop_eq hentry (entry.toNat + 1) (by omega)]
  rfl

theorem entry_lt {i : Nat} (hi : i < endless) : (BitVec.ofNat 16 (i / 14)).toNat < 0xFFFF := by
  have hlt : i / 14 < 0xFFFF := Nat.div_lt_of_lt_mul hi
  rw [BitVec.toNat_ofNat]
  omega

theorem candidate_iff {shi slo : BitVec 64} {ctx : ContextAccumulator} {i k : Nat} {datum : Byte}
    (hi : i < endless) : Candidate shi slo ctx i k datum ↔
      noiseByte shi slo ((probeAt ctx k).slot 1024) ((probeAt ctx k).basis 64)
          (BitVec.ofNat 16 (i / 14)) (BitVec.ofNat 8 (i % 14)) = datum ∧
        candidateCrc shi slo ((probeAt ctx k).slot 1024) ((probeAt ctx k).basis 64)
            (BitVec.ofNat 16 (i / 14)) (BitVec.ofNat 8 (i % 14)) (BitVec.ofNat 64 i) ctx.hi
            ctx.lo =
          positionCrc shi slo ctx (BitVec.ofNat 64 i) := by
  simp only [Candidate, noiseAt_eq (entry_lt hi), Option.some.injEq]

/-- The probing loop answers whether one of its candidates matches. -/
theorem probe_eq {i : Nat} (hi : i < endless) (shi slo : BitVec 64) (ctx : ContextAccumulator)
    (datum : Byte) (left k : Nat) :
    ∃ found, probe shi slo ctx (BitVec.ofNat 64 i) (BitVec.ofNat 16 (i / 14))
        (BitVec.ofNat 8 (i % 14)) (positionCrc shi slo ctx (BitVec.ofNat 64 i)) datum left k
        (probeAt ctx k) = some found ∧
      (found = true ↔ ∃ j, k ≤ j ∧ j < k + left ∧ Candidate shi slo ctx i j datum) := by
  induction left generalizing k with
  | zero => exact ⟨false, rfl, by simp only [Bool.false_eq_true, false_iff]; rintro ⟨j, h⟩; omega⟩
  | succ left ih =>
    rw [probe, noiseAt_eq (entry_lt hi)]
    simp only [Option.bind_some]
    split
    · rename_i hmatch
      refine ⟨true, rfl, iff_of_true rfl ⟨k, Nat.le_refl k, by omega, ?_, hmatch.2⟩⟩
      rw [noiseAt_eq (entry_lt hi), hmatch.1]
    · rename_i hmiss
      obtain ⟨found, hprobe, hfound⟩ := ih (k + 1)
      refine ⟨found, hprobe, hfound.trans ⟨?_, ?_⟩⟩
      · rintro ⟨j, hkj, hj, hcand⟩
        exact ⟨j, by omega, by omega, hcand⟩
      · rintro ⟨j, hkj, hj, hcand⟩
        refine ⟨j, ?_, by omega, hcand⟩
        rcases Nat.eq_or_lt_of_le hkj with rfl | hlt
        · obtain ⟨hbyte, hcrc⟩ := hcand
          rw [noiseAt_eq (entry_lt hi)] at hbyte
          exact absurd ⟨Option.some.inj hbyte, hcrc⟩ hmiss
        · exact hlt

theorem matched_eq {i : Nat} (hi : i < endless) (shi slo : BitVec 64) (data : Buffer) :
    matched shi slo (contextAt data i) i (data i) = some (decide (Reproduced shi slo data i)) := by
  obtain ⟨found, hprobe, hfound⟩ :=
    probe_eq hi shi slo (contextAt data i) (data i) candidates 0
  rw [matched]
  refine hprobe.trans (congrArg some ?_)
  rw [Bool.eq_iff_iff, hfound, decide_eq_true_iff]
  simp only [Reproduced, Nat.zero_le, true_and, Nat.zero_add]

/-- At the first endless position the first candidate is never computed. -/
theorem matched_endless (shi slo : BitVec 64) (ctx : ContextAccumulator) (datum : Byte) :
    matched shi slo ctx endless datum = none := by
  have hentry : BitVec.ofNat 16 (endless / 14) = 0xFFFF := by decide
  rw [matched, hentry, candidates, probe, noiseAt, noiseLoop_endless]
  rfl

/-- The corrections are the gap code of the bytes that are kept. -/
theorem evaporateFrom_eq (shi slo : BitVec 64) (data : Buffer) {left i : Nat}
    (hend : i + left ≤ endless) (s : Nat) :
    evaporateFrom shi slo data left i (contextAt data i) (BitVec.ofNat 32 s) =
      some ((gaps (keptFrom shi slo data i left) s).map toCorrection) := by
  induction left generalizing i s with
  | zero => rfl
  | succ left ih =>
    have hkept : keptFrom shi slo data i (left + 1) =
        kept shi slo data i :: keptFrom shi slo data (i + 1) left := by
      rw [keptFrom, List.range'_succ, List.map_cons]
      rfl
    have hnext : BitVec.ofNat 32 s + 1 = BitVec.ofNat 32 (s + 1) := (BitVec.ofNat_add s 1).symm
    rw [evaporateFrom, matched_eq (by omega), Option.bind_some, hkept, hnext]
    by_cases hrep : Reproduced shi slo data i
    · rw [if_pos (decide_eq_true hrep), kept, if_pos hrep, gaps]
      exact ih (by omega) (s + 1)
    · have hrest := ih (i := i + 1) (by omega) 0
      rw [contextAt] at hrest
      rw [if_neg (by simpa using hrep), kept, if_neg hrep, gaps, List.map_cons]
      exact congrArg (Option.map _) hrest

theorem evaporateLayer_eq (shi slo : BitVec 64) (data : Buffer) {len : Nat}
    (hlen : len ≤ endless) :
    evaporateLayer shi slo data len = some (corrections shi slo data len) :=
  evaporateFrom_eq shi slo data (i := 0) (by rwa [Nat.zero_add]) 0

theorem evaporateFrom_endless (shi slo : BitVec 64) (data : Buffer) {left i : Nat}
    (hi : i ≤ endless) (hend : endless < i + left) (sinceLast : BitVec 32) :
    evaporateFrom shi slo data left i (contextAt data i) sinceLast = none := by
  induction left generalizing i sinceLast with
  | zero => omega
  | succ left ih =>
    rw [evaporateFrom]
    rcases Nat.eq_or_lt_of_le hi with rfl | hlt
    · rw [matched_endless]
      rfl
    · have hrest := ih hlt (by omega)
      simp only [contextAt] at hrest
      rw [matched_eq hlt, Option.bind_some, hrest, hrest]
      split <;> rfl

theorem evaporateLayer_endless (shi slo : BitVec 64) (data : Buffer) {len : Nat}
    (hlen : endless < len) : evaporateLayer shi slo data len = none := by
  have hend : endless < 0 + len := by omega
  exact evaporateFrom_endless shi slo data (Nat.zero_le endless) hend 0

theorem length_corrections (shi slo : BitVec 64) (data : Buffer) (len : Nat) :
    (corrections shi slo data len).length = missed shi slo data len := by
  rw [corrections, List.length_map, length_gaps, keptFrom, List.countP_map, missed,
    List.range_eq_range']
  apply List.countP_congr
  intro i _
  rw [Function.comp_apply, kept]
  split
  · rename_i hrep
    rw [decide_eq_true hrep]
    simp only [Option.isSome_none, Bool.not_true]
  · rename_i hrep
    rw [decide_eq_false hrep]
    simp only [Option.isSome_some, Bool.not_false]

theorem missed_le (shi slo : BitVec 64) (data : Buffer) (len : Nat) :
    missed shi slo data len ≤ len :=
  Nat.le_trans List.countP_le_length (Nat.le_of_eq List.length_range)

theorem ofCorrection_toCorrection {p : Nat × Byte} (hp : p.1 < 2 ^ 32) :
    ofCorrection (toCorrection p) = p :=
  Prod.ext (Nat.mod_eq_of_lt hp) rfl

/-- The two streams of corrections exist and differ. -/
def Distinguishes (shi slo : BitVec 64) (len : Nat) (x y : Buffer) : Prop :=
  ∃ cx cy, evaporateLayer shi slo x len = some cx ∧ evaporateLayer shi slo y len = some cy ∧
    cx ≠ cy

/-- Exactly one of the two bytes at position i is reproduced, or neither is and they differ. -/
def Separated (shi slo : BitVec 64) (x y : Buffer) (i : Nat) : Prop :=
  (Reproduced shi slo x i ∧ ¬Reproduced shi slo y i) ∨
    (¬Reproduced shi slo x i ∧ (Reproduced shi slo y i ∨ x i ≠ y i))

theorem separated_iff (shi slo : BitVec 64) (x y : Buffer) (i : Nat) :
    Separated shi slo x y i ↔ kept shi slo x i ≠ kept shi slo y i := by
  unfold Separated kept
  by_cases hx : Reproduced shi slo x i <;> by_cases hy : Reproduced shi slo y i <;>
    simp [hx, hy]

theorem keptFrom_inj {shi slo : BitVec 64} {x y : Buffer} {len : Nat} :
    keptFrom shi slo x 0 len = keptFrom shi slo y 0 len ↔
      ∀ i < len, kept shi slo x i = kept shi slo y i := by
  rw [keptFrom, keptFrom, List.map_inj_left]
  simp only [List.mem_range'_1, Nat.zero_le, true_and, Nat.zero_add]

/-- The gaps of a layer fit their field. -/
theorem map_ofCorrection {shi slo : BitVec 64} {data : Buffer} {len : Nat}
    (hlen : len ≤ endless) :
    (corrections shi slo data len).map ofCorrection =
      gaps (keptFrom shi slo data 0 len) 0 := by
  have hendless : endless < 2 ^ 32 := by decide
  rw [corrections, List.map_map]
  refine (List.map_congr_left fun p hp => ?_).trans (List.map_id _)
  have hgap := gap_lt hp
  rw [keptFrom, List.length_map, List.length_range'] at hgap
  exact ofCorrection_toCorrection (by omega)

theorem contextAt_congr {x y : Buffer} {i : Nat} (h : ∀ j < i, x j = y j) :
    contextAt x i = contextAt y i := by
  induction i with
  | zero => rfl
  | succ i ih =>
    rw [contextAt, contextAt, ih fun j hj => h j (Nat.lt_succ_of_lt hj), h i (Nat.lt_succ_self i)]

/-- Whether a byte is reproduced is decided by the bytes up to it. -/
theorem reproduced_congr {shi slo : BitVec 64} {x y : Buffer} {i : Nat}
    (h : ∀ j ≤ i, x j = y j) : Reproduced shi slo x i ↔ Reproduced shi slo y i := by
  unfold Reproduced
  rw [contextAt_congr fun j hj => h j (Nat.le_of_lt hj), h i (Nat.le_refl i)]

theorem keptFrom_add (shi slo : BitVec 64) (data : Buffer) (i m n : Nat) :
    keptFrom shi slo data i (m + n) =
      keptFrom shi slo data i m ++ keptFrom shi slo data (i + m) n := by
  rw [keptFrom, keptFrom, keptFrom, ← List.map_append, List.range'_append_1]

theorem keptFrom_absent {shi slo : BitVec 64} {data : Buffer} {n : Nat}
    (h : ∀ i < n, Reproduced shi slo data i) :
    keptFrom shi slo data 0 n = List.replicate n none := by
  refine List.eq_replicate_iff.mpr ⟨by rw [keptFrom, List.length_map, List.length_range'], ?_⟩
  intro x hx
  obtain ⟨i, hi, rfl⟩ := List.mem_map.mp hx
  obtain ⟨-, hlt⟩ := List.mem_range'_1.mp hi
  exact if_pos (h i (by omega))

theorem keptFrom_present {shi slo : BitVec 64} {data : Buffer} {first n : Nat}
    (h : ∀ i < n, ¬Reproduced shi slo data (first + i)) :
    keptFrom shi slo data first n = ((List.range' first n).map data).map some := by
  rw [keptFrom, List.map_map]
  refine List.map_congr_left fun i hi => if_neg ?_
  obtain ⟨hle, hlt⟩ := List.mem_range'_1.mp hi
  obtain ⟨k, rfl⟩ := Nat.exists_eq_add_of_le hle
  exact h k (by omega)

/-- How a stream begins, from which of the first bytes are reproduced. -/
theorem corrections_heads {shi slo : BitVec 64} {data : Buffer} {first n len : Nat}
    (hrep : ∀ i < first, Reproduced shi slo data i)
    (hkept : ∀ i < n + 1, ¬Reproduced shi slo data (first + i)) (hlen : first + (n + 1) ≤ len) :
    heads data first n <+: corrections shi slo data len := by
  obtain ⟨rest, rfl⟩ := Nat.exists_eq_add_of_le hlen
  rw [corrections, Nat.add_assoc, keptFrom_add, keptFrom_add, keptFrom_absent hrep, gaps_absent,
    Nat.zero_add, keptFrom_present hkept, List.range'_succ, List.map_cons, List.map_cons,
    List.cons_append, gaps, gaps_present, List.map_cons, List.map_append, List.map_map,
    List.map_map]
  exact ⟨_, rfl⟩

theorem packed_begins {cs ds : List Correction} (h : cs <+: ds) {i : Nat}
    (hi : i < Correction.size * cs.length) : packed ds i = packed cs i := by
  obtain ⟨more, rfl⟩ := h
  have hindex : i / Correction.size < cs.length := Nat.div_lt_of_lt_mul hi
  rw [packed, packed, List.getElem?_append_left hindex]

/-- Below the endless position the stream is as good as the bytes that are kept. -/
theorem corrections_inj {shi slo : BitVec 64} {x y : Buffer} {len : Nat} (hlen : len ≤ endless) :
    evaporateLayer shi slo x len = evaporateLayer shi slo y len ↔
      ∀ i < len, kept shi slo x i = kept shi slo y i := by
  rw [evaporateLayer_eq shi slo x hlen, evaporateLayer_eq shi slo y hlen, ← keptFrom_inj]
  constructor
  · intro h
    have hgaps := congrArg (List.map ofCorrection) (Option.some.inj h)
    rw [map_ofCorrection hlen, map_ofCorrection hlen] at hgaps
    refine gaps_injective ?_ hgaps
    simp only [keptFrom, List.length_map]
  · intro h
    rw [corrections, corrections, h]

/-- A layer tells two strings apart exactly when it returns and treats some position
differently. -/
theorem distinguishes_iff_separated (shi slo : BitVec 64) (len : Nat) (x y : Buffer) :
    Distinguishes shi slo len x y ↔
      len ≤ endless ∧ ∃ i < len, Separated shi slo x y i := by
  constructor
  · rintro ⟨cx, cy, hx, hy, hne⟩
    have hlen : len ≤ endless := by
      by_contra hlong
      rw [evaporateLayer_endless shi slo x (by omega)] at hx
      cases hx
    refine ⟨hlen, ?_⟩
    by_contra hsame
    have hstream : evaporateLayer shi slo x len = evaporateLayer shi slo y len :=
      (corrections_inj hlen).mpr fun i hi =>
        not_not.mp fun hdiff => hsame ⟨i, hi, (separated_iff shi slo x y i).mpr hdiff⟩
    exact hne (Option.some.inj (hx.symm.trans (hstream.trans hy)))
  · rintro ⟨hlen, i, hi, hsep⟩
    refine ⟨_, _, evaporateLayer_eq shi slo x hlen, evaporateLayer_eq shi slo y hlen, ?_⟩
    intro hstream
    have hall := (corrections_inj hlen).mp ((evaporateLayer_eq shi slo x hlen).trans
      ((congrArg some hstream).trans (evaporateLayer_eq shi slo y hlen).symm))
    exact (separated_iff shi slo x y i).mp hsep (hall i hi)

/-- With the seeds of layer 1 of serve_write candidate 205 reproduces the byte 74 and
candidate 428 the byte 23. -/
theorem reproduced_first (datum : Byte) (hdatum : datum = 74 ∨ datum = 23) :
    Reproduced (0x1234567890ABCDEF ^^^ 0x1111111111111111) 0xABCDEF0123456789
      (fun _ => datum) 0 := by
  have hi : 0 < endless := by decide
  rcases hdatum with rfl | rfl
  · exact ⟨205, by decide, (candidate_iff hi).mpr (by decide +kernel)⟩
  · exact ⟨428, by decide, (candidate_iff hi).mpr (by decide +kernel)⟩

/-- Both bytes leave an empty stream. -/
theorem not_distinguishes_one_byte :
    (74 : Byte) ≠ 23 ∧
      ¬Distinguishes (0x1234567890ABCDEF ^^^ 0x1111111111111111) 0xABCDEF0123456789 1
        (fun _ => 74) (fun _ => 23) := by
  refine ⟨by decide, fun ⟨cx, cy, hx, hy, hne⟩ => hne (Option.some.inj ?_)⟩
  have hlen : 1 ≤ endless := by decide
  rw [← hx, ← hy, corrections_inj hlen]
  intro i hi
  obtain rfl : i = 0 := by omega
  rw [kept, kept, if_pos (reproduced_first 74 (.inl rfl)),
    if_pos (reproduced_first 23 (.inr rfl))]

end EmergenceOS.Vdev.ContextDrivenEngine
