/- Module: EmergenceOS/Lib/Decimal
   digest: Decimal numerals as characters: their digits, their value, their length. -/

import EmergenceOS.Lib.Bytes
import Mathlib.Data.Nat.Digits.Lemmas

set_option autoImplicit false
set_option relaxedAutoImplicit false

namespace EmergenceOS.Lib.Decimal

open EmergenceOS.Lib.Bytes

def digitChar (d : Nat) : Byte := BitVec.ofNat 8 (d + 48)

/-- The digits as characters, the last one first; none for zero. -/
def reversed (n : Nat) : List Byte := (Nat.digits 10 n).map digitChar

def numeral (n : Nat) : List Byte := if n = 0 then [48] else (reversed n).reverse

/-- What a string of digits stands for. -/
def value (chars : List Byte) : Nat := chars.foldl (fun v c => 10 * v + (c.toNat - 48)) 0

/-- The one way to write n without leading zeros. -/
structure Canonical (n : Nat) (chars : List Byte) : Prop where
  digits : ∀ c ∈ chars, 48 ≤ c.toNat ∧ c.toNat ≤ 57
  nonempty : chars ≠ []
  noLeadingZero : chars.head? = some 48 → chars = [48]
  value : value chars = n

theorem toNat_digitChar {d : Nat} (hd : d < 10) : (digitChar d).toNat = d + 48 := by
  rw [digitChar, BitVec.toNat_ofNat]
  omega

theorem value_append_singleton (chars : List Byte) (c : Byte) :
    value (chars ++ [c]) = 10 * value chars + (c.toNat - 48) := by
  rw [value, List.foldl_append]
  rfl

theorem value_reverse {digits : List Nat} (h : ∀ d ∈ digits, d < 10) :
    value (digits.map digitChar).reverse = Nat.ofDigits 10 digits := by
  induction digits with
  | nil => rfl
  | cons d digits ih =>
    have hd := toNat_digitChar (h d List.mem_cons_self)
    rw [List.map_cons, List.reverse_cons, value_append_singleton,
      ih fun e he => h e (List.mem_cons_of_mem d he), hd, Nat.ofDigits_cons, Nat.add_sub_cancel,
      Nat.add_comm]

theorem digit_lt {n d : Nat} (h : d ∈ Nat.digits 10 n) : d < 10 := Nat.digits_lt_base (by decide) h

theorem reversed_of_pos {n : Nat} (hn : 0 < n) :
    reversed n = digitChar (n % 10) :: reversed (n / 10) := by
  rw [reversed, Nat.digits_def' (by decide) hn, List.map_cons, reversed]

theorem numeral_canonical (n : Nat) : Canonical n (numeral n) := by
  by_cases hn : n = 0
  · subst hn
    exact ⟨by decide, by decide, fun _ => rfl, rfl⟩
  · have hdigits : Nat.digits 10 n ≠ [] := Nat.digits_ne_nil_iff_ne_zero.mpr hn
    rw [numeral, if_neg hn]
    refine ⟨fun c hc => ?_, by simpa [reversed] using hdigits, fun hhead => ?_, ?_⟩
    · obtain ⟨d, hd, rfl⟩ := List.mem_map.mp (List.mem_reverse.mp hc)
      have hlt := digit_lt hd
      rw [toNat_digitChar hlt]
      omega
    · -- the first character is the last digit that was produced, which is not zero
      have hlast := Nat.getLast_digit_ne_zero 10 hn
      rw [List.head?_reverse, reversed, List.getLast?_map, List.getLast?_eq_some_getLast hdigits,
        Option.map_some, Option.some.injEq] at hhead
      have hval := congrArg BitVec.toNat hhead
      rw [toNat_digitChar (digit_lt (List.getLast_mem hdigits))] at hval
      exact absurd (Nat.add_right_cancel (hval.trans (Nat.zero_add 48).symm)) hlast
    · rw [reversed, value_reverse fun d hd => digit_lt hd, Nat.ofDigits_digits]

theorem length_reversed_le {n k : Nat} (h : n < 10 ^ k) : (reversed n).length ≤ k := by
  rw [reversed, List.length_map]
  exact (Nat.digits_length_le_iff (by decide) n).mpr h

theorem length_numeral_le {n k : Nat} (hk : 0 < k) (h : n < 10 ^ k) : (numeral n).length ≤ k := by
  rw [numeral]
  split
  · exact hk
  · rw [List.length_reverse]
    exact length_reversed_le h

end EmergenceOS.Lib.Decimal
