/- Module: EmergenceOS/Lib/Keystream
   digest: Masking a buffer with the words of a running generator, eight bytes a step. -/

import EmergenceOS.Lib.Bytes
import Mathlib.Logic.Function.Iterate

set_option autoImplicit false
set_option relaxedAutoImplicit false

namespace EmergenceOS.Lib.Keystream

open EmergenceOS.Lib.Bytes

/-- The n bytes of data from d on are combined with the bytes of w. -/
def xorWord (data : Buffer) (d : Nat) (w : BitVec 64) (n : Nat) : Buffer :=
  fun i => if d ≤ i ∧ i < d + n then data i ^^^ byteAt w (i - d) else data i

section
variable {σ : Type} (next : σ → σ) (word : σ → BitVec 64)

/-- The generator steps before each group of eight bytes; the last group may be short. -/
def maskFrom (data : Buffer) (len : Nat) (s : σ) (i : Nat) : Buffer :=
  if i < len then
    maskFrom (xorWord data i (word (next s)) (min 8 (len - i))) len (next s) (i + 8)
  else data
termination_by len - i

/-- Byte i of the stream that starts in state s. -/
def streamByte (s : σ) (i : Nat) : Byte := byteAt (word (next^[i / 8 + 1] s)) (i % 8)

theorem maskFrom_apply (data : Buffer) (len : Nat) (s : σ) (g k : Nat) :
    maskFrom next word data len (next^[g] s) (8 * g) k =
      if 8 * g ≤ k ∧ k < len then data k ^^^ streamByte next word s k else data k := by
  obtain ⟨n, hn⟩ : ∃ n, len ≤ 8 * g + n := ⟨len, by omega⟩
  induction n using Nat.strongRecOn generalizing data g with
  | ind n ih =>
    rw [maskFrom]
    by_cases hlt : 8 * g < len
    · rw [if_pos hlt, ← Function.iterate_succ_apply' next g s, ← Nat.mul_succ]
      rw [ih (n - 8) (by omega) _ (g + 1) (by omega)]
      unfold xorWord
      by_cases hin : 8 * g ≤ k ∧ k < 8 * g + min 8 (len - 8 * g)
      · have hdiv : k / 8 = g := by omega
        have hmod : k % 8 = k - 8 * g := by omega
        rw [if_neg (by omega), if_pos hin, if_pos (by omega), streamByte, hdiv, hmod]
      · rw [if_neg hin]
        simp only [show 8 * (g + 1) ≤ k ∧ k < len ↔ 8 * g ≤ k ∧ k < len by omega]
    · rw [if_neg hlt, if_neg (by omega)]

/-- Masking is a bytewise exclusive or with the stream. -/
theorem mask_apply (data : Buffer) (len : Nat) (s : σ) (k : Nat) :
    maskFrom next word data len s 0 k =
      if k < len then data k ^^^ streamByte next word s k else data k := by
  have h := maskFrom_apply next word data len s 0 k
  simpa only [Nat.mul_zero, Function.iterate_zero, id, Nat.zero_le, true_and] using h

/-- Masking twice with the same stream gives the bytes back. -/
theorem mask_mask (data : Buffer) (len : Nat) (s : σ) :
    maskFrom next word (maskFrom next word data len s 0) len s 0 = data := by
  funext k
  rw [mask_apply, mask_apply]
  by_cases hk : k < len
  · simp only [if_pos hk, BitVec.xor_assoc, BitVec.xor_self, BitVec.xor_zero]
  · simp only [if_neg hk]

theorem mask_congr {data data' : Buffer} (len : Nat) (s : σ) (h : ∀ k < len, data k = data' k)
    {k : Nat} (hk : k < len) :
    maskFrom next word data len s 0 k = maskFrom next word data' len s 0 k := by
  rw [mask_apply, mask_apply, if_pos hk, if_pos hk, h k hk]

end

end EmergenceOS.Lib.Keystream
