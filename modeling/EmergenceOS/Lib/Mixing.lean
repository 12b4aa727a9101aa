/- Module: EmergenceOS/Lib/Mixing
   digest: Rotations and two-word mixing steps that lose no information. -/

import Mathlib.Logic.Function.Iterate
import Mathlib.Tactic.Common

set_option autoImplicit false
set_option relaxedAutoImplicit false

namespace EmergenceOS.Lib.Mixing

variable {w : Nat}

/-- Rotation as it is written without a rotate instruction. -/
def rotl (r : Nat) (x : BitVec w) : BitVec w := (x <<< r) ||| (x >>> (w - r))

theorem getLsbD_rotl_of_lt (x : BitVec w) {r j : Nat} (hr : r ≤ w) (hj : j + r < w) :
    (rotl r x).getLsbD (j + r) = x.getLsbD j := by
  have hhigh : x.getLsbD (w - r + (j + r)) = false := BitVec.getLsbD_of_ge x _ (by omega)
  simp only [rotl, BitVec.getLsbD_or, BitVec.getLsbD_shiftLeft, BitVec.getLsbD_ushiftRight, hhigh]
  simp [hj]

/-- The upper bits come round to the lower end. -/
theorem getLsbD_rotl_of_ge (x : BitVec w) {r j : Nat} (hr : r ≤ w) (hj : j < w)
    (hwrap : w ≤ j + r) : (rotl r x).getLsbD (j + r - w) = x.getLsbD j := by
  have hindex : w - r + (j + r - w) = j := by omega
  simp only [rotl, BitVec.getLsbD_or, BitVec.getLsbD_shiftLeft, BitVec.getLsbD_ushiftRight, hindex]
  simp [show j + r - w < r by omega]

theorem rotl_injective {r : Nat} (hr : r ≤ w) : Function.Injective (rotl (w := w) r) := by
  intro x y hxy
  apply BitVec.eq_of_getLsbD_eq
  intro j hj
  rcases Nat.lt_or_ge (j + r) w with hlt | hge
  · rw [← getLsbD_rotl_of_lt x hr hlt, hxy, getLsbD_rotl_of_lt y hr hlt]
  · rw [← getLsbD_rotl_of_ge x hr hj hge, hxy, getLsbD_rotl_of_ge y hr hj hge]

/-- The words are permuted in turn, each masked with a word computed from the other. -/
def mixStep (p q f g : BitVec w → BitVec w) (s : BitVec w × BitVec w) : BitVec w × BitVec w :=
  (p s.1 ^^^ f s.2, q s.2 ^^^ g (p s.1 ^^^ f s.2))

theorem xor_right_injective (m : BitVec w) : Function.Injective (· ^^^ m) := by
  intro x y hxy
  have hcancel := congrArg (· ^^^ m) hxy
  simpa only [BitVec.xor_assoc, BitVec.xor_self, BitVec.xor_zero] using hcancel

/-- The masks are undone in the opposite order: the second one is known from the result. -/
theorem mixStep_injective {p q : BitVec w → BitVec w} (hp : Function.Injective p)
    (hq : Function.Injective q) (f g : BitVec w → BitVec w) :
    Function.Injective (mixStep p q f g) := by
  rintro ⟨x, y⟩ ⟨x', y'⟩ h
  obtain ⟨hfst, hsnd⟩ := Prod.mk.inj h
  simp only at hfst hsnd
  rw [hfst] at hsnd
  obtain rfl : y = y' := hq (xor_right_injective _ hsnd)
  obtain rfl : x = x' := hp (xor_right_injective _ hfst)
  rfl

end EmergenceOS.Lib.Mixing
