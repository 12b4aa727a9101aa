/- Module: EmergenceOS/Mm/Memory
   digest: The kernel's byte copy. -/

import EmergenceOS.Lib.Bytes

set_option autoImplicit false
set_option relaxedAutoImplicit false

namespace EmergenceOS.Mm.Memory

open EmergenceOS.Lib.Bytes

/-- kmemcpy(dest + d, src + s, n): one byte per turn of the loop, in ascending order. -/
def kmemcpy (dest : Buffer) (d : Nat) (src : Buffer) (s : Nat) : Nat → Buffer
  | 0 => dest
  | n + 1 => Function.update (kmemcpy dest d src s n) (d + n) (src (s + n))

theorem kmemcpy_eq_blit (dest : Buffer) (d : Nat) (src : Buffer) (s n : Nat) :
    kmemcpy dest d src s n = blit dest d src s n := by
  induction n with
  | zero => simp [kmemcpy]
  | succ n ih =>
    rw [kmemcpy, ih, ← blit_blit]
    funext i
    by_cases hi : i = d + n
    · subst i
      rw [Function.update_self, blit_inside _ _ (by omega) (by omega)]
      simp
    · rw [Function.update_of_ne hi, blit_outside (blit dest d src s n) _ (by omega)]

/-- kmemset(s + d, c, n) -/
def kmemset (s : Buffer) (d : Nat) (c : Byte) : Nat → Buffer
  | 0 => s
  | n + 1 => Function.update (kmemset s d c n) (d + n) c

theorem kmemset_apply (s : Buffer) (d : Nat) (c : Byte) (n i : Nat) :
    kmemset s d c n i = if d ≤ i ∧ i < d + n then c else s i := by
  induction n with
  | zero => rw [kmemset, if_neg (by omega)]
  | succ n ih =>
    rw [kmemset]
    by_cases hi : i = d + n
    · rw [hi, Function.update_self, if_pos (by omega)]
    · rw [Function.update_of_ne hi, ih]
      exact if_congr (by omega) rfl rfl

end EmergenceOS.Mm.Memory
