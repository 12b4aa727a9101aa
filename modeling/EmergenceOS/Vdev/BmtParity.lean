/- Module: EmergenceOS/Vdev/BmtParity
   digest: The checksum of an entry as two parities, and the errors that keep both. -/

import EmergenceOS.Lib.Parity
import EmergenceOS.Vdev.BmtWalk
import Mathlib.Algebra.Ring.Parity

/-!
Every fold is by an even distance, so even and odd places never meet. What remains are
two parities, each over 26 places of the high word and 32 of the low one.
-/

set_option autoImplicit false
set_option relaxedAutoImplicit false

namespace EmergenceOS.Vdev.BmtTopology

open EmergenceOS.Lib.Bytes EmergenceOS.Lib.Parity

/-- Changed bits of an entry: its payload and its checksum. -/
structure ErrorMask where
  payloadHi : BitVec 52
  crc : BitVec 2
  lo : BitVec 64
  deriving DecidableEq

namespace ErrorMask

/-- The mask as it lies on the high word. -/
def hi (e : ErrorMask) : BitVec 64 := (e.crc ++ e.payloadHi).setWidth 64

def corrupt (e : ErrorMask) (v : Value128) : Value128 := ⟨v.hi ^^^ e.hi, v.lo ^^^ e.lo⟩

/-- The changed payload bits at the places congruent to c modulo 2, with checksum bit c. -/
def classWeight (e : ErrorMask) (c : Nat) : Nat :=
  weight (inClass e.payloadHi.getLsbD c) 52 + weight (inClass e.lo.getLsbD c) 64 +
    if e.crc.getLsbD c then 1 else 0

/-- All changed bits. -/
def totalWeight (e : ErrorMask) : Nat :=
  weight e.payloadHi.getLsbD 52 + weight e.lo.getLsbD 64 + weight e.crc.getLsbD 2

theorem totalWeight_eq (e : ErrorMask) : e.totalWeight = e.classWeight 0 + e.classWeight 1 := by
  have hcrc : weight e.crc.getLsbD 2 =
      (if e.crc.getLsbD 0 then 1 else 0) + if e.crc.getLsbD 1 then 1 else 0 := by
    rw [weight_succ, weight_succ]
    exact congrArg (· + _) (Nat.zero_add _)
  rw [totalWeight, weight_eq_add, weight_eq_add e.lo.getLsbD, hcrc, classWeight, classWeight]
  omega

theorem hi_payloadBit (e : ErrorMask) {i : Nat} (hi : i < 52) :
    e.hi.getLsbD i = e.payloadHi.getLsbD i := by
  rw [ErrorMask.hi, BitVec.getLsbD_setWidth, BitVec.getLsbD_append, if_pos hi]
  simp [show i < 64 by omega]

theorem hi_crcBit (e : ErrorMask) {c : Nat} (hc : c < 2) :
    e.hi.getLsbD (52 + c) = e.crc.getLsbD c := by
  rw [ErrorMask.hi, BitVec.getLsbD_setWidth, BitVec.getLsbD_append, if_neg (by omega),
    Nat.add_sub_cancel_left]
  simp [show 52 + c < 64 by omega]

/-- The class weight is even when the sums of its three parts cancel. -/
theorem even_classWeight_iff (e : ErrorMask) {c : Nat} (hc : c < 2) :
    Even (e.classWeight c) ↔
      (parity (strided e.payloadHi c) 26 ^^ parity (strided e.lo c) 32 ^^ e.crc.getLsbD c) =
        false := by
  have hhi := parity_eq_false_iff (strided e.payloadHi c) 26
  have hlo := parity_eq_false_iff (strided e.lo c) 32
  have hcountHi : weight (inClass e.payloadHi.getLsbD c) 52 =
      weight (strided e.payloadHi c) 26 := weight_inClass _ hc 26
  have hcountLo : weight (inClass e.lo.getLsbD c) 64 = weight (strided e.lo c) 32 :=
    weight_inClass _ hc 32
  rw [classWeight, hcountHi, hcountLo, Nat.even_add, Nat.even_add, ← hhi, ← hlo]
  cases parity (strided e.payloadHi c) 26 <;> cases parity (strided e.lo c) 32 <;>
    cases e.crc.getLsbD c <;> decide

end ErrorMask

namespace Value128

/-- The five folds add up one class of the payload bits. -/
theorem computeCrc_getLsbD (v : Value128) {c : Nat} (hc : c < 2) :
    v.computeCrc.getLsbD c =
      parity (strided ((v.hi &&& 0x000FFFFFFFFFFFFF) ^^^ v.lo) c) 32 := by
  have hmask : (0x03 : BitVec 64).getLsbD c = true := by
    rcases (show c = 0 ∨ c = 1 by omega) with rfl | rfl <;> decide
  have hlast (x : BitVec 64) : (x &&& 0x03).getLsbD c = parity (strided x c) 1 := by
    rw [BitVec.getLsbD_and, hmask, Bool.and_true, parity, parity, Bool.false_xor, strided,
      Nat.mul_zero, Nat.zero_add]
  simp only [computeCrc, BitVec.getLsbD_setWidth, hlast, show c < 8 by omega, decide_true,
    Bool.true_and]
  rw [parity_strided_fold _ c 1, parity_strided_fold _ c 2, parity_strided_fold _ c 4,
    parity_strided_fold _ c 8, parity_strided_fold _ c 16]

/-- The bits of the high word above the payload are masked out. -/
theorem parity_payload (v : Value128) {c : Nat} (hc : c < 2) :
    parity (strided ((v.hi &&& 0x000FFFFFFFFFFFFF) ^^^ v.lo) c) 32 =
      (parity (strided v.hi c) 26 ^^ parity (strided v.lo c) 32) := by
  have hmasked (i : Nat) : strided (v.hi &&& 0x000FFFFFFFFFFFFF) c i =
      (strided v.hi c i && decide (2 * i + c < 52)) := by
    rw [strided, BitVec.getLsbD_and, payloadMask_getLsbD]
    rfl
  rw [strided_xor, parity_xor]
  congr 1
  rw [parity_of_clear (show 26 ≤ 32 by decide) fun i hi => by
    rw [hmasked, decide_eq_false (by omega), Bool.and_false]]
  apply parity_congr
  intro i hi
  rw [hmasked, decide_eq_true (by omega), Bool.and_true]

/-- An entry is valid when each checksum bit is the parity of its class. -/
theorem crcValid_iff (v : Value128) : v.crcValid ↔ ∀ c < 2,
    v.hi.getLsbD (52 + c) = (parity (strided v.hi c) 26 ^^ parity (strided v.lo c) 32) := by
  rw [crcValid, beq_iff_eq]
  constructor
  · intro h c hc
    rw [← parity_payload v hc, ← computeCrc_getLsbD v hc, ← h, crc_getLsbD]
    simp [hc]
  · intro h
    apply BitVec.eq_of_getLsbD_eq
    intro c _
    by_cases hc : c < 2
    · rw [crc_getLsbD, computeCrc_getLsbD v hc, parity_payload v hc, h c hc]
      simp [hc]
    · rw [crc_getLsbD, computeCrc_getLsbD_of_ge v (by omega)]
      simp [hc]

end Value128

open Value128

theorem corrupt_crcBit (e : ErrorMask) (v : Value128) {c : Nat} (hc : c < 2) :
    (e.corrupt v).hi.getLsbD (52 + c) = (v.hi.getLsbD (52 + c) ^^ e.crc.getLsbD c) := by
  rw [ErrorMask.corrupt, BitVec.getLsbD_xor, e.hi_crcBit hc]

theorem corrupt_parity (e : ErrorMask) (v : Value128) {c : Nat} (hc : c < 2) :
    parity (strided (e.corrupt v).hi c) 26 =
        (parity (strided v.hi c) 26 ^^ parity (strided e.payloadHi c) 26) ∧
      parity (strided (e.corrupt v).lo c) 32 =
        (parity (strided v.lo c) 32 ^^ parity (strided e.lo c) 32) := by
  refine ⟨?_, ?_⟩
  · rw [ErrorMask.corrupt, strided_xor, parity_xor]
    congr 1
    apply parity_congr
    intro i hi
    exact e.hi_payloadBit (by omega)
  · rw [ErrorMask.corrupt, strided_xor, parity_xor]

/-- In one class the changed checksum bit is right when the changes cancel. -/
theorem class_kept_iff (a b p q k : Bool) :
    ((a ^^ b) ^^ k) = ((a ^^ p) ^^ (b ^^ q)) ↔ (p ^^ q ^^ k) = false := by
  cases a <;> cases b <;> cases p <;> cases q <;> cases k <;> decide

theorem crcValid_corrupt_iff {v : Value128} (hv : v.crcValid) (e : ErrorMask) :
    (e.corrupt v).crcValid ↔ ∀ c < 2, Even (e.classWeight c) := by
  rw [Value128.crcValid_iff] at hv ⊢
  refine forall₂_congr fun c hc => ?_
  obtain ⟨hhi, hlo⟩ := corrupt_parity e v hc
  rw [corrupt_crcBit e v hc, hhi, hlo, hv c hc, e.even_classWeight_iff hc, class_kept_iff]

/-- A changed entry passes exactly when the changes in each class are even in number. -/
theorem crcValid_corrupted {v : Value128} (hv : v.crcValid) (e : ErrorMask) :
    ((e.corrupt v).crcValid ↔ Even (e.classWeight 0) ∧ Even (e.classWeight 1)) ∧
      (Odd e.totalWeight → ¬(e.corrupt v).crcValid) := by
  have hboth : (e.corrupt v).crcValid ↔ Even (e.classWeight 0) ∧ Even (e.classWeight 1) := by
    rw [crcValid_corrupt_iff hv]
    constructor
    · exact fun h => ⟨h 0 (by decide), h 1 (by decide)⟩
    · rintro ⟨h0, h1⟩ c hc
      rcases (show c = 0 ∨ c = 1 by omega) with rfl | rfl
      · exact h0
      · exact h1
  refine ⟨hboth, fun hodd hvalid => ?_⟩
  obtain ⟨h0, h1⟩ := hboth.mp hvalid
  rw [e.totalWeight_eq] at hodd
  exact Nat.not_even_iff_odd.mpr hodd (h0.add h1)

/-- Two changed bits of one class in an entry with route 5. -/
theorem crcValid_corrupted_pair :
    ((ErrorMask.mk 0x5 0 0).corrupt ((Value128.mk 0 0).packRoute 5)).crcValid ∧
      ¬((ErrorMask.mk 0x1 0 0).corrupt ((Value128.mk 0 0).packRoute 5)).crcValid :=
  ⟨(crcValid_corrupted (by decide) (ErrorMask.mk 0x5 0 0)).1.mpr (by decide),
    (crcValid_corrupted (by decide) (ErrorMask.mk 0x1 0 0)).2 (by decide)⟩

end EmergenceOS.Vdev.BmtTopology
