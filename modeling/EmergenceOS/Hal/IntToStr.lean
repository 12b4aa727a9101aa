/- Module: EmergenceOS/Hal/IntToStr
   digest: Numbers on the screen: the numeral that is written, and the room it takes. -/

import EmergenceOS.Lib.Decimal
import Mathlib.Logic.Function.Basic

/-!
The digits come off the number last one first, into an array of twenty characters, and are
copied back in reverse. Only the largest 64-bit numbers fill the array.
-/

set_option autoImplicit false
set_option relaxedAutoImplicit false

namespace EmergenceOS.Hal.Graphics

open EmergenceOS.Lib.Bytes EmergenceOS.Lib.Decimal

/-- sizeof(tmp). -/
def tmpSize : Nat := 20

/-- The first loop: tmp and j behind it, or none if it stores outside tmp. -/
def digitLoop (n : BitVec 64) (tmp : Buffer) (j : Nat) : Option (Buffer × Nat) :=
  if h : n > 0 then
    if j < tmpSize then
      digitLoop (n / 10) (Function.update tmp j ((n % 10 + 48).setWidth 8)) (j + 1)
    else none
  else some (tmp, j)
termination_by n.toNat
decreasing_by
  have hpos := BitVec.lt_def.mp h
  have hten : (10 : BitVec 64).toNat = 10 := rfl
  rw [BitVec.toNat_udiv, hten]
  exact Nat.div_lt_self hpos (by decide)

/-- The second loop, from tmp back to str: i and str behind it, or none if it reads outside
tmp. -/
def copyBack (tmp : Buffer) : Nat → Nat → Buffer → Option (Nat × Buffer)
  | 0, i, str => some (i, str)
  | j + 1, i, str =>
    if j < tmpSize then copyBack tmp j (i + 1) (Function.update str i (tmp j)) else none

/-- The characters written, without the terminator, and the memory from str on. What tmp held
before is left open. -/
def intToStr (n : BitVec 64) (tmp str : Buffer) : Option (Nat × Buffer) :=
  let written :=
    if n = 0 then some (1, Function.update str 0 48)
    else (digitLoop n tmp 0).bind fun (tmp, j) => copyBack tmp j 0 str
  written.map fun (i, str) => (i, Function.update str i 0)

section Loops

theorem digit_char (n : BitVec 64) : (n % 10 + 48).setWidth 8 = digitChar (n.toNat % 10) := by
  have hten : (10 : BitVec 64).toNat = 10 := rfl
  have hzero : (48 : BitVec 64).toNat = 48 := rfl
  apply BitVec.eq_of_toNat_eq
  rw [toNat_digitChar (Nat.mod_lt _ (by decide)), BitVec.toNat_setWidth, BitVec.toNat_add,
    BitVec.toNat_umod, hten, hzero]
  omega

/-- The first loop appends the digits, the last one first. -/
theorem digitLoop_eq (n : BitVec 64) (tmp : Buffer) (j : Nat)
    (hroom : j + (reversed n.toNat).length ≤ tmpSize) :
    ∃ tmp', digitLoop n tmp j = some (tmp', j + (reversed n.toNat).length) ∧
      slice tmp' 0 (j + (reversed n.toNat).length) = slice tmp 0 j ++ reversed n.toNat := by
  fun_induction digitLoop n tmp j with
  | case1 n tmp j hpos hj ih =>
    have hten : (10 : BitVec 64).toNat = 10 := rfl
    have hstep := reversed_of_pos (BitVec.lt_def.mp hpos)
    rw [BitVec.toNat_udiv, hten] at ih
    rw [hstep, List.length_cons] at hroom
    obtain ⟨tmp', hrun, hslice⟩ := ih (by omega)
    refine ⟨tmp', ?_, ?_⟩
    · rw [hrun, hstep, List.length_cons]
      congr 2
      omega
    · rw [hstep, List.length_cons, show j + ((reversed (n.toNat / 10)).length + 1) =
        j + 1 + (reversed (n.toNat / 10)).length by omega, hslice, slice_succ, slice_update,
        Nat.zero_add, Function.update_self, digit_char, List.append_assoc]
      rfl
  | case2 n tmp j hpos hj =>
    have hstep := reversed_of_pos (BitVec.lt_def.mp hpos)
    rw [hstep, List.length_cons] at hroom
    omega
  | case3 n tmp j hzero =>
    have hn : n.toNat = 0 := by
      have := mt BitVec.lt_def.mpr hzero
      exact Nat.eq_zero_of_not_pos this
    rw [hn]
    exact ⟨tmp, rfl, (List.append_nil _).symm⟩

/-- The second loop appends what stands in tmp, in reverse. -/
theorem copyBack_eq (tmp : Buffer) {j : Nat} (i : Nat) (str : Buffer) (hj : j ≤ tmpSize) :
    ∃ str', copyBack tmp j i str = some (i + j, str') ∧
      slice str' 0 (i + j) = slice str 0 i ++ (slice tmp 0 j).reverse ∧
      ∀ k, i + j ≤ k → str' k = str k := by
  induction j generalizing i str with
  | zero => exact ⟨str, rfl, (List.append_nil _).symm, fun k _ => rfl⟩
  | succ j ih =>
    obtain ⟨str', hrun, hslice, hbehind⟩ :=
      ih (i + 1) (Function.update str i (tmp j)) (Nat.le_of_succ_le hj)
    have hcount : i + 1 + j = i + (j + 1) := by omega
    rw [hcount] at hrun hslice hbehind
    refine ⟨str', ?_, ?_, fun k hk => ?_⟩
    · rw [copyBack, if_pos (show j < tmpSize from hj), hrun]
    · rw [hslice, slice_succ, slice_succ, slice_update, Nat.zero_add, Nat.zero_add,
        Function.update_self, List.reverse_append, List.append_assoc]
      rfl
    · rw [hbehind k hk, Function.update_of_ne (by omega)]

end Loops

/-- The numeral of n and a terminator stand at str, and nothing behind them was touched. -/
structure Writes (n : BitVec 64) (str : Buffer) (result : Nat × Buffer) : Prop where
  canonical : Canonical n.toNat (slice result.2 0 result.1)
  terminated : result.2 result.1 = 0
  untouched : ∀ k, result.1 < k → result.2 k = str k

/-- Both loops stay within tmp, and the numeral comes out. -/
theorem intToStr_eq (n : BitVec 64) (tmp str : Buffer) :
    ∃ str', intToStr n tmp str = some ((numeral n.toNat).length, str') ∧
      slice str' 0 (numeral n.toNat).length = numeral n.toNat ∧
      str' (numeral n.toNat).length = 0 ∧
      ∀ k, (numeral n.toNat).length < k → str' k = str k := by
  by_cases hn : n = 0
  · subst hn
    refine ⟨Function.update (Function.update str 0 48) 1 0, rfl, rfl, rfl, fun k hk => ?_⟩
    have hk : 1 < k := hk
    rw [Function.update_of_ne (by omega), Function.update_of_ne (by omega)]
  · have hne : n.toNat ≠ 0 := fun h => hn (BitVec.eq_of_toNat_eq h)
    have hroom : (reversed n.toNat).length ≤ tmpSize :=
      length_reversed_le (Nat.lt_trans n.isLt (by decide))
    obtain ⟨tmp', hdigits, hslice⟩ := digitLoop_eq n tmp 0 (by rwa [Nat.zero_add])
    rw [Nat.zero_add, slice_zero, List.nil_append] at hslice
    rw [Nat.zero_add] at hdigits
    obtain ⟨str', hcopy, hstr, hbehind⟩ := copyBack_eq tmp' 0 str hroom
    rw [Nat.zero_add, slice_zero, List.nil_append, hslice] at hstr
    rw [Nat.zero_add] at hcopy hbehind
    have hnumeral : numeral n.toNat = (reversed n.toNat).reverse := if_neg hne
    rw [hnumeral, List.length_reverse]
    refine ⟨Function.update str' (reversed n.toNat).length 0, ?_, ?_, Function.update_self _ _ _,
      fun k hk => ?_⟩
    · simp only [intToStr, if_neg hn, hdigits, Option.bind_some, hcopy, Option.map_some]
    · rw [← hstr]
      apply slice_congr
      intro k hk
      rw [Function.update_of_ne (by omega)]
    · rw [Function.update_of_ne (by omega), hbehind k (by omega)]

theorem intToStr_writes (n : BitVec 64) (tmp str : Buffer) :
    ∃ r, intToStr n tmp str = some r ∧ Writes n str r ∧ r.1 = (numeral n.toNat).length := by
  obtain ⟨str', hrun, hslice, hend, hbehind⟩ := intToStr_eq n tmp str
  refine ⟨_, hrun, ⟨?_, hend, hbehind⟩, rfl⟩
  rw [hslice]
  exact numeral_canonical n.toNat

end EmergenceOS.Hal.Graphics
