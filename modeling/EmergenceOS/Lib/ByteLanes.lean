/- Module: EmergenceOS/Lib/ByteLanes
   digest: Byte strings folded into a word by position, one lane for each residue. -/

import EmergenceOS.Lib.Bytes
import Mathlib.Data.Nat.ModEq

/-!
What a string adds to the word are the exclusive ors of its lanes. A string whose
lanes all cancel adds nothing, wherever it is folded in.
-/

set_option autoImplicit false
set_option relaxedAutoImplicit false

namespace EmergenceOS.Lib.ByteLanes

open EmergenceOS.Lib.Bytes

/-- The exclusive or of the bytes whose position is r modulo m, the first position being o. -/
def lane (m r : Nat) : Nat → List Byte → Byte
  | _, [] => 0
  | o, c :: cs => (if o % m = r then c else 0) ^^^ lane m r (o + 1) cs

/-- Byte by byte into the lane of its position. -/
def fold (n m : Nat) : Nat → List Byte → BitVec n
  | _, [] => 0
  | o, c :: cs => (c.setWidth n <<< (8 * (o % m))) ^^^ fold n m (o + 1) cs

def Cancels (m : Nat) (cs : List Byte) : Prop := ∀ r < m, lane m r 0 cs = 0

instance (m : Nat) (cs : List Byte) : Decidable (Cancels m cs) :=
  inferInstanceAs (Decidable (∀ r < m, _))

section
variable {n m : Nat}

theorem getLsbD_fold (o : Nat) (cs : List Byte) {k : Nat} (hk : k < n) :
    (fold n m o cs).getLsbD k = (lane m (k / 8) o cs).getLsbD (k % 8) := by
  induction cs generalizing o with
  | nil => simp [fold, lane]
  | cons c cs ih =>
    rw [fold, lane, BitVec.getLsbD_xor, BitVec.getLsbD_xor, ih]
    congr 1
    rw [BitVec.getLsbD_shiftLeft, BitVec.getLsbD_setWidth]
    split
    · rename_i hlane
      have hindex : k - 8 * (k / 8) = k % 8 := by omega
      simp [hlane, hk, hindex, show ¬k < 8 * (k / 8) by omega, show k % 8 < n by omega]
    · rename_i hlane
      rcases Nat.lt_or_gt_of_ne hlane with hlt | hgt
      · have hhigh : c.getLsbD (k - 8 * (o % m)) = false := BitVec.getLsbD_of_ge _ _ (by omega)
        simp [hhigh]
      · simp [show k < 8 * (o % m) by omega]

theorem fold_eq_zero_iff (o : Nat) (cs : List Byte) (hn : n = 8 * m) :
    fold n m o cs = 0 ↔ ∀ r < m, lane m r o cs = 0 := by
  constructor
  · intro h r hr
    apply BitVec.eq_of_getLsbD_eq
    intro j hj
    have hbit := getLsbD_fold (m := m) o cs (show 8 * r + j < n by omega)
    rw [h, show (8 * r + j) / 8 = r by omega, show (8 * r + j) % 8 = j by omega] at hbit
    rw [← hbit]
    exact BitVec.getLsbD_zero.trans BitVec.getLsbD_zero.symm
  · intro h
    apply BitVec.eq_of_getLsbD_eq
    intro k hk
    rw [getLsbD_fold o cs hk, h (k / 8) (by omega)]
    simp

/-- The same bytes from another position on fill the same lanes in another order. -/
theorem lane_shift (o p r : Nat) (cs : List Byte) :
    lane m ((o + r) % m) (o + p) cs = lane m (r % m) p cs := by
  induction cs generalizing p with
  | nil => rfl
  | cons c cs ih =>
    have hmod : (o + p) % m = (o + r) % m ↔ p % m = r % m :=
      ⟨Nat.ModEq.add_left_cancel' o, Nat.ModEq.add_left o⟩
    rw [lane, lane, Nat.add_assoc, ih (p + 1)]
    simp only [hmod]

theorem lanes_zero_iff_cancels (hm : 0 < m) (o : Nat) (cs : List Byte) :
    (∀ r < m, lane m r o cs = 0) ↔ Cancels m cs := by
  have hshift (r : Nat) := lane_shift (m := m) o 0 r cs
  rw [Nat.add_zero] at hshift
  constructor
  · intro h r hr
    rw [← Nat.mod_eq_of_lt hr, ← hshift]
    exact h _ (Nat.mod_lt _ hm)
  · intro h r hr
    have hle : o ≤ m * o := Nat.le_mul_of_pos_left o hm
    have hback := hshift (r + m * o - o)
    rw [show o + (r + m * o - o) = r + m * o by omega, Nat.add_mul_mod_self_left,
      Nat.mod_eq_of_lt hr] at hback
    rw [hback]
    exact h _ (Nat.mod_lt _ hm)

theorem lane_zero_of_within {o : Nat} {cs : List Byte} (ho : 0 < o) (hlen : o + cs.length ≤ m) :
    lane m 0 o cs = 0 := by
  induction cs generalizing o with
  | nil => rfl
  | cons c cs ih =>
    rw [List.length_cons] at hlen
    rw [lane, ih (by omega) (by omega), Nat.mod_eq_of_lt (by omega), if_neg (by omega)]
    rfl

/-- No lane is visited twice. -/
theorem not_cancels_of_length_le {c : Byte} {cs : List Byte} (hc : c ≠ 0)
    (hlen : (c :: cs).length ≤ m) : ¬Cancels m (c :: cs) := by
  intro h
  rw [List.length_cons] at hlen
  have hfirst := h 0 (by omega)
  rw [lane, lane_zero_of_within (by decide) (by omega), Nat.zero_mod, if_pos rfl]
    at hfirst
  exact hc (BitVec.xor_zero.symm.trans hfirst)

end

end EmergenceOS.Lib.ByteLanes
