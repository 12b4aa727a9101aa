/- Module: EmergenceOS/Crypto/ConsensusKeygen
   digest: The device id, and which hardware ids keep its fixed-point map in 32 bits. -/

import EmergenceOS.Lib.CString
import Mathlib.Data.List.GetD
import Mathlib.Logic.Function.Iterate
import Mathlib.Tactic.Linarith

/-!
The two factors of the map lose 16 of its 32 fraction bits, and the shift after the
product takes 16 more; with the scale 1024 in the constant the result is 1024 times
too large. Only a product of zero stays in the range.
-/

set_option autoImplicit false
set_option relaxedAutoImplicit false

namespace EmergenceOS.Crypto.ConsensusKeygen

open EmergenceOS.Lib.Bytes EmergenceOS.Lib.CString

/-- The registers after cpuid. -/
structure Cpuid where
  eax : BitVec 32
  ebx : BitVec 32
  ecx : BitVec 32
  edx : BitVec 32

def hardwareId (cpuid : BitVec 32 → Cpuid) : BitVec 64 :=
  let signature := (cpuid 1).eax
  let features := (cpuid 1).edx
  let brand := cpuid 0x80000002
  let brandChunk := brand.eax ^^^ brand.ebx ^^^ brand.ecx ^^^ brand.edx
  (signature.setWidth 64 <<< 32) ||| (features ^^^ brandChunk).setWidth 64

def hexChars : List Byte := [48, 49, 50, 51, 52, 53, 54, 55, 56, 57, 65, 66, 67, 68, 69, 70]

/-- x before the loop. -/
def firstState (hardwareId : BitVec 64) : BitVec 64 :=
  let x := hardwareId % 0xFFFFFFFF
  if x = 0 then 0x12345678 else x

/-- x after one more turn of the loop. -/
def nextState (hardwareId x : BitVec 64) : BitVec 64 :=
  let term1 := x
  let term2 := 0xFFFFFFFF - x
  let x := ((4085 : BitVec 64) * (term1 >>> 8) * (term2 >>> 8)) >>> 16
  if x < 0x1000 then x ^^^ hardwareId else x

/-- The locals of the loop. -/
structure Loop where
  x : BitVec 64
  outputBuffer : Buffer

def turn (hardwareId : BitVec 64) (s : Loop) (i : Nat) : Loop :=
  let x := nextState hardwareId s.x
  let index := (x % 16).toNat
  ⟨x, Function.update s.outputBuffer i (hexChars.getD index 0)⟩

/-- The first n turns. -/
def turns (hardwareId : BitVec 64) (outputBuffer : Buffer) (n : Nat) : Loop :=
  (List.range n).foldl (turn hardwareId) ⟨firstState hardwareId, outputBuffer⟩

def generateDeviceId (cpuid : BitVec 32 → Cpuid) (outputBuffer : Buffer) : Buffer :=
  Function.update (turns (hardwareId cpuid) outputBuffer 15).outputBuffer 15 0

/-- x after n turns. -/
def stateAt (hardwareId : BitVec 64) (n : Nat) : BitVec 64 :=
  (nextState hardwareId)^[n] (firstState hardwareId)

theorem stateAt_succ (hardwareId : BitVec 64) (n : Nat) :
    stateAt hardwareId (n + 1) = nextState hardwareId (stateAt hardwareId n) :=
  Function.iterate_succ_apply' _ _ _

theorem turns_succ (hardwareId : BitVec 64) (out : Buffer) (n : Nat) :
    turns hardwareId out (n + 1) = turn hardwareId (turns hardwareId out n) n := by
  rw [turns, List.range_succ, List.foldl_append]
  rfl

theorem turns_x (hardwareId : BitVec 64) (out : Buffer) (n : Nat) :
    (turns hardwareId out n).x = stateAt hardwareId n := by
  induction n with
  | zero => rfl
  | succ n ih => rw [turns_succ, turn, ih, stateAt_succ]

theorem turns_outputBuffer (hardwareId : BitVec 64) (out : Buffer) {i n : Nat} (hi : i < n) :
    (turns hardwareId out n).outputBuffer i =
      hexChars.getD (stateAt hardwareId (i + 1) % 16).toNat 0 := by
  induction n with
  | zero => exact absurd hi (Nat.not_lt_zero i)
  | succ n ih =>
    rw [turns_succ, turn, turns_x, ← stateAt_succ]
    by_cases hin : i = n
    · subst hin
      exact Function.update_self _ _ _
    · exact (Function.update_of_ne hin _ _).trans (ih (by omega))

theorem hexChars_getD_mem (x : BitVec 64) : hexChars.getD (x % 16).toNat 0 ∈ hexChars := by
  have hlt : (x % 16).toNat < 16 := by
    rw [BitVec.toNat_umod]
    exact Nat.mod_lt _ (by decide)
  rw [List.getD_eq_getElem _ _ hlt]
  exact List.getElem_mem hlt

/-- The buffer holds 15 hexadecimal digits and a terminator, whatever x does. -/
theorem generateDeviceId_digits (cpuid : BitVec 32 → Cpuid) (out : Buffer) :
    (∀ i < 15, generateDeviceId cpuid out i ∈ hexChars) ∧ generateDeviceId cpuid out 15 = 0 := by
  refine ⟨fun i hi => ?_, Function.update_self _ _ _⟩
  rw [generateDeviceId, Function.update_of_ne (by omega), turns_outputBuffer _ _ hi]
  exact hexChars_getD_mem _

/-- The subtraction and the product of one turn, as numbers, stay in their words. -/
structure Fits (x : BitVec 64) : Prop where
  noUnderflow : x.toNat ≤ 0xFFFFFFFF
  noOverflow : 4085 * (x >>> 8).toNat * ((0xFFFFFFFF - x) >>> 8).toNat < 2 ^ 64

/-- x is a 32-bit number before, between and after the 15 turns, and each turn computes with it
as with a number. -/
def Contained (hardwareId : BitVec 64) (outputBuffer : Buffer) : Prop :=
  ∀ n ≤ 15, (turns hardwareId outputBuffer n).x.toNat < 2 ^ 32 ∧
    (n < 15 → Fits (turns hardwareId outputBuffer n).x)

/-- A 32-bit id other than zero and the modulus, within 256 of an end of the range. -/
def NearEnd (hardwareId : BitVec 64) : Prop :=
  (1 ≤ hardwareId.toNat ∧ hardwareId.toNat < 0x100) ∨
    (0xFFFFFF00 ≤ hardwareId.toNat ∧ hardwareId.toNat < 0xFFFFFFFF)

/-- A turn on the upper 24 bits of x, without a re-seed. -/
def logistic (a : Nat) : Nat := 4085 * a * (0xFFFFFF - a) / 2 ^ 16

theorem toNat_fractions {x : BitVec 64} (hx : x.toNat < 2 ^ 32) :
    (x >>> 8).toNat = x.toNat / 256 ∧
      ((0xFFFFFFFF - x) >>> 8).toNat = 0xFFFFFF - x.toNat / 256 := by
  have hmask : (0xFFFFFFFF : BitVec 64).toNat = 0xFFFFFFFF := rfl
  have hshift (y : BitVec 64) : (y >>> 8).toNat = y.toNat / 256 := by
    rw [BitVec.toNat_ushiftRight, Nat.shiftRight_eq_div_pow]
  refine ⟨hshift x, ?_⟩
  rw [hshift, BitVec.toNat_sub, hmask]
  omega

/-- In range the product of the two factors and the constant fits into 58 bits. -/
theorem factors_le {a : Nat} (ha : a ≤ 0xFFFFFF) : 4085 * a * (0xFFFFFF - a) < 2 ^ 58 := by
  obtain ⟨b, hb⟩ : ∃ b, a + b = 0xFFFFFF := ⟨0xFFFFFF - a, by omega⟩
  rw [show 0xFFFFFF - a = b by omega, Nat.mul_assoc]
  have hsquare : 4 * (a * b) ≤ (a + b) ^ 2 := by nlinarith [sq_nonneg ((a : Int) - b)]
  rw [hb] at hsquare
  omega

theorem toNat_map {x : BitVec 64} (hx : x.toNat < 2 ^ 32) :
    (((4085 : BitVec 64) * (x >>> 8) * ((0xFFFFFFFF - x) >>> 8)) >>> 16).toNat =
      logistic (x.toNat / 256) := by
  obtain ⟨hlow, hhigh⟩ := toNat_fractions hx
  have hle := factors_le (a := x.toNat / 256) (by omega)
  have hscale : (4085 : BitVec 64).toNat = 4085 := rfl
  rw [BitVec.toNat_ushiftRight, Nat.shiftRight_eq_div_pow, BitVec.toNat_mul, BitVec.toNat_mul,
    hlow, hhigh, hscale, logistic, Nat.mod_eq_of_lt (a := 4085 * _) (by omega),
    Nat.mod_eq_of_lt (by omega)]

theorem toNat_nextState (hardwareId : BitVec 64) {x : BitVec 64} (hx : x.toNat < 2 ^ 32)
    (hlarge : 0x1000 ≤ logistic (x.toNat / 256)) :
    (nextState hardwareId x).toNat = logistic (x.toNat / 256) := by
  have hmap := toNat_map hx
  unfold nextState
  dsimp only
  rw [if_neg, hmap]
  rw [BitVec.lt_def, hmap]
  exact Nat.not_lt.mpr hlarge

/-- Next to either end of the range the product is zero, and the hardware id takes over. -/
theorem nextState_of_end (hardwareId : BitVec 64) {x : BitVec 64} (hx : x.toNat < 2 ^ 32)
    (hend : x.toNat / 256 = 0 ∨ x.toNat / 256 = 0xFFFFFF) :
    nextState hardwareId x = hardwareId := by
  have hzero : logistic (x.toNat / 256) = 0 := by rcases hend with h | h <;> rw [h] <;> rfl
  have hmap : ((4085 : BitVec 64) * (x >>> 8) * ((0xFFFFFFFF - x) >>> 8)) >>> 16 = 0 :=
    BitVec.eq_of_toNat_eq ((toNat_map hx).trans hzero)
  unfold nextState
  dsimp only
  rw [hmap, if_pos (by decide)]
  exact BitVec.zero_xor

/-- The map rises from both ends to the middle. -/
theorem logistic_mono {l a : Nat} (hl : l ≤ a) (hr : a + l ≤ 0xFFFFFF) :
    logistic l ≤ logistic a := by
  obtain ⟨d, rfl⟩ := Nat.exists_eq_add_of_le hl
  obtain ⟨e, he⟩ := Nat.exists_eq_add_of_le hr
  have hleft : 0xFFFFFF - l = l + d + e := by omega
  have hright : 0xFFFFFF - (l + d) = l + e := by omega
  unfold logistic
  apply Nat.div_le_div_right
  rw [hleft, hright, Nat.mul_assoc, Nat.mul_assoc]
  apply Nat.mul_le_mul_left
  nlinarith [Nat.zero_le (d * e)]

theorem logistic_symm {a : Nat} (ha : a ≤ 0xFFFFFF) : logistic (0xFFFFFF - a) = logistic a := by
  unfold logistic
  rw [show 0xFFFFFF - (0xFFFFFF - a) = a by omega, Nat.mul_right_comm]

theorem logistic_escapes {a : Nat} (hl : 4109 ≤ a) (hr : a + 4109 ≤ 0xFFFFFF) :
    2 ^ 32 ≤ logistic a :=
  Nat.le_trans (by decide) (logistic_mono hl hr)

/-- Away from the ends the map does not settle. -/
theorem toNat_nextState_inner (hardwareId : BitVec 64) {x : BitVec 64} (hx : x.toNat < 2 ^ 32)
    (hl : 1 ≤ x.toNat / 256) (hr : x.toNat / 256 + 1 ≤ 0xFFFFFF) :
    (nextState hardwareId x).toNat = logistic (x.toNat / 256) :=
  toNat_nextState hardwareId hx (Nat.le_trans (by decide) (logistic_mono hl hr))

/-- The next value but one is out of range if the next one is between the escape bounds. -/
theorem two_turns_escape (hardwareId : BitVec 64) {x : BitVec 64} (hx : x.toNat < 2 ^ 32)
    (hl : 1 ≤ x.toNat / 256) (hr : x.toNat / 256 + 1 ≤ 0xFFFFFF) {lo hi : Nat}
    (hlo : lo ≤ logistic (x.toNat / 256)) (hhi : logistic (x.toNat / 256) ≤ hi)
    (hlow : 4109 ≤ lo / 256) (hhigh : hi / 256 + 4109 ≤ 0xFFFFFF) :
    2 ^ 32 ≤ (nextState hardwareId (nextState hardwareId x)).toNat := by
  have hfirst := toNat_nextState_inner hardwareId hx hl hr
  have hlo' : lo / 256 ≤ logistic (x.toNat / 256) / 256 := Nat.div_le_div_right hlo
  have hhi' : logistic (x.toNat / 256) / 256 ≤ hi / 256 := Nat.div_le_div_right hhi
  rw [← hfirst] at hlo' hhi'
  have hrange : (nextState hardwareId x).toNat < 2 ^ 32 := by omega
  rw [toNat_nextState_inner hardwareId hrange (by omega) (by omega)]
  exact logistic_escapes (by omega) (by omega)

theorem three_turns_escape (hardwareId : BitVec 64) {x : BitVec 64} {v : Nat}
    (hnext : (nextState hardwareId x).toNat = v) (hv : v < 2 ^ 32) (hl : 1 ≤ v / 256)
    (hr : v / 256 + 1 ≤ 0xFFFFFF) (hlow : 4109 ≤ logistic (v / 256) / 256)
    (hhigh : logistic (v / 256) / 256 + 4109 ≤ 0xFFFFFF) :
    2 ^ 32 ≤ (nextState hardwareId (nextState hardwareId (nextState hardwareId x))).toNat := by
  subst hnext
  exact two_turns_escape hardwareId hv hl hr (Nat.le_refl _) (Nat.le_refl _) hlow hhigh

/-- Three turns lead out of the range from everywhere between the ends. -/
theorem escapes (hardwareId : BitVec 64) {x : BitVec 64} (hx : x.toNat < 2 ^ 32)
    (hl : 1 ≤ x.toNat / 256) (hr : x.toNat / 256 + 1 ≤ 0xFFFFFF) :
    ∃ n ≤ 3, 2 ^ 32 ≤ ((nextState hardwareId)^[n] x).toNat := by
  obtain ⟨m, hm, hlow, hhigh⟩ : ∃ m, logistic m = logistic (x.toNat / 256) ∧ 1 ≤ m ∧
      m + m ≤ 0xFFFFFF := by
    rcases Nat.le_total (x.toNat / 256) (0xFFFFFF - x.toNat / 256) with h | h
    · exact ⟨_, rfl, hl, by omega⟩
    · exact ⟨_, logistic_symm (by omega), by omega, by omega⟩
  have hfirst := toNat_nextState_inner hardwareId hx hl hr
  rw [← hm] at hfirst
  by_cases hout : 4109 ≤ m
  · refine ⟨1, by decide, ?_⟩
    rw [Function.iterate_one, hfirst]
    exact logistic_escapes hout (by omega)
  -- the extreme values come back to the range once more
  by_cases hm1 : m = 1
  · rw [hm1] at hfirst
    refine ⟨3, by decide, ?_⟩
    rw [Function.iterate_succ_apply, Function.iterate_succ_apply, Function.iterate_one]
    exact three_turns_escape hardwareId hfirst (by decide) (by decide) (by decide) (by decide)
      (by decide)
  by_cases hm2 : m = 4108
  · rw [hm2] at hfirst
    refine ⟨3, by decide, ?_⟩
    rw [Function.iterate_succ_apply, Function.iterate_succ_apply, Function.iterate_one]
    exact three_turns_escape hardwareId hfirst (by decide) (by decide) (by decide) (by decide)
      (by decide)
  have hge : logistic 2 ≤ logistic m := logistic_mono (by omega) (by omega)
  have hle : logistic m ≤ logistic 4107 := logistic_mono (by omega) (by omega)
  rw [hm] at hge hle
  refine ⟨2, by decide, ?_⟩
  rw [Function.iterate_succ_apply, Function.iterate_one]
  exact two_turns_escape hardwareId hx hl hr hge hle (by decide) (by decide)

theorem fits_of_range {x : BitVec 64} (hx : x.toNat < 2 ^ 32) : Fits x := by
  obtain ⟨hlow, hhigh⟩ := toNat_fractions hx
  have hle := factors_le (a := x.toNat / 256) (by omega)
  refine ⟨by omega, ?_⟩
  rw [hlow, hhigh]
  omega

theorem toNat_firstState (hardwareId : BitVec 64) :
    (firstState hardwareId).toNat =
      if hardwareId.toNat % 0xFFFFFFFF = 0 then 0x12345678 else hardwareId.toNat % 0xFFFFFFFF := by
  have hmod : (hardwareId % 0xFFFFFFFF).toNat = hardwareId.toNat % 0xFFFFFFFF := BitVec.toNat_umod
  unfold firstState
  dsimp only
  by_cases hzero : hardwareId % 0xFFFFFFFF = 0
  · rw [if_pos hzero, if_pos (by rw [← hmod, hzero]; rfl)]
    rfl
  · rw [if_neg hzero, if_neg, hmod]
    intro h
    exact hzero (BitVec.eq_of_toNat_eq (hmod.trans h))

/-- From the end of the range the map stays at the hardware id. -/
theorem stateAt_of_nearEnd {hardwareId : BitVec 64} (h : NearEnd hardwareId) (n : Nat) :
    stateAt hardwareId n = hardwareId := by
  have hfirst := toNat_firstState hardwareId
  unfold NearEnd at h
  rw [Nat.mod_eq_of_lt (by omega), if_neg (by omega)] at hfirst
  induction n with
  | zero => exact BitVec.eq_of_toNat_eq hfirst
  | succ n ih =>
    rw [stateAt_succ, ih]
    exact nextState_of_end hardwareId (by omega) (by omega)

/-- The map stays in its range exactly for the ids that it maps to themselves. -/
theorem contained_iff_nearEnd (hardwareId : BitVec 64) (outputBuffer : Buffer) :
    Contained hardwareId outputBuffer ↔ NearEnd hardwareId := by
  unfold Contained
  simp only [turns_x]
  constructor
  · intro h
    have hfirst := toNat_firstState hardwareId
    have hrange := (h 0 (by decide)).1
    have hsecond := (h 1 (by decide)).1
    rw [stateAt_succ] at hsecond
    by_cases hend : (stateAt hardwareId 0).toNat / 256 = 0 ∨
        (stateAt hardwareId 0).toNat / 256 = 0xFFFFFF
    · rw [nextState_of_end hardwareId hrange hend] at hsecond
      rw [stateAt, Function.iterate_zero_apply, hfirst] at hend
      unfold NearEnd
      split at hend <;> omega
    · obtain ⟨n, hn, hescape⟩ := escapes hardwareId hrange (by omega) (by omega)
      exact absurd (h n (by omega)).1 (Nat.not_lt.mpr hescape)
  · intro h n _
    rw [stateAt_of_nearEnd h]
    have hrange : hardwareId.toNat < 2 ^ 32 := by
      unfold NearEnd at h
      omega
    exact ⟨hrange, fun _ => fits_of_range hrange⟩

/-- The second value for this id has 42 bits. -/
theorem not_contained_signature : ¬Contained 0x000306A9BFEBFBFF (fun _ => 0) := fun h =>
  absurd (h 1 (by decide)).1 (by decide)

end EmergenceOS.Crypto.ConsensusKeygen
