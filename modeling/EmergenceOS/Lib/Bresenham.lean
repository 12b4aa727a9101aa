/- Module: EmergenceOS/Lib/Bresenham
   digest: The two-test error rule visits the points next to a line from (0, 0) to (a, b). -/

import Mathlib.Data.List.Chain
import Mathlib.Tactic.Common
import Mathlib.Tactic.Linarith
import Mathlib.Tactic.Ring

/-!
The error of a point is a linear form that vanishes half a step past the line. Along the
longer side every round advances, along the shorter one only if that stays closer.
-/

set_option autoImplicit false
set_option relaxedAutoImplicit false

namespace EmergenceOS.Lib.Bresenham

/-- The error of (i, j) on the way to (a, b). -/
def error (a b i j : Int) : Int := (j + 1) * a - (i + 1) * b

/-- One round. Both tests look at the error that the round began with. -/
def next (a b : Int) (p : Int × Int) : Int × Int :=
  (if -b < 2 * error a b p.1 p.2 then p.1 + 1 else p.1,
    if 2 * error a b p.1 p.2 < a then p.2 + 1 else p.2)

/-- The point p and those of the n rounds after it. -/
def path (a b : Int) : Nat → Int × Int → List (Int × Int)
  | 0, p => [p]
  | n + 1, p => p :: path a b n (next a b p)

/-- (i, j) is at most half a step from the line, which is at least as long along a. -/
structure Near (a b i j : Int) : Prop where
  lower : a - 2 * b ≤ 2 * error a b i j
  upper : 2 * error a b i j < 3 * a - 2 * b

/-- After n rounds the longer coordinate is n, and the other one is near the line. -/
def Tracked (a b n : Int) (p : Int × Int) : Prop :=
  (b ≤ a ∧ p.1 = n ∧ Near a b p.1 p.2) ∨ (a < b ∧ p.2 = n ∧ Near b a p.2 p.1)

theorem error_swap (a b i j : Int) : error b a j i = -error a b i j := by
  simp only [error]
  ring

theorem error_right (a b i j : Int) : error a b (i + 1) j = error a b i j - b := by
  simp only [error]
  ring

theorem error_up (a b i j : Int) : error a b i (j + 1) = error a b i j + a := by
  simp only [error]
  ring

/-- The error is kept up by additions, first for x and then for y. -/
theorem error_next (a b : Int) (p : Int × Int) :
    error a b (next a b p).1 (next a b p).2 =
      if 2 * error a b p.1 p.2 < a then
        (if -b < 2 * error a b p.1 p.2 then error a b p.1 p.2 + -b else error a b p.1 p.2) + a
      else if -b < 2 * error a b p.1 p.2 then error a b p.1 p.2 + -b else error a b p.1 p.2 := by
  unfold next
  dsimp only
  split <;> split <;> simp only [error_right, error_up, Int.sub_eq_add_neg]

section
variable {a b i j : Int}

theorem near_start (ha : 0 < a) : Near a b 0 0 := by
  constructor <;> simp only [error] <;> omega

/-- The longer side is never a tie: there the error would have to be half of a. -/
theorem Near.advances (h : Near a b i j) (ha : 0 < a) (hb : b ≤ a) : -b < 2 * error a b i j := by
  have hlower := h.lower
  rcases Int.lt_or_eq_of_le hb with hlt | rfl
  · omega
  · have hfactor : error b b i j = (j - i) * b := by
      simp only [error]
      ring
    by_contra hnot
    have htie : (2 * (j - i) + 1) * b = 0 := by
      rw [hfactor] at hlower hnot
      linarith
    rcases Int.mul_eq_zero.mp htie with hodd | hzero <;> omega

theorem Near.straight (h : Near a b i j) (hb : 0 ≤ b) (hfar : a ≤ 2 * error a b i j) :
    Near a b (i + 1) j := by
  have hupper := h.upper
  constructor <;> rw [error_right] <;> omega

theorem Near.diagonal (h : Near a b i j) (hb : b ≤ a) (hclose : 2 * error a b i j < a) :
    Near a b (i + 1) (j + 1) := by
  have hlower := h.lower
  constructor <;> rw [error_up, error_right] <;> omega

theorem Near.below (h : Near a b i j) : (2 * j - 1) * a < 2 * (i * b) := by
  have hupper := h.upper
  simp only [error] at hupper
  linarith

theorem Near.above (h : Near a b i j) : 2 * (i * b) ≤ (2 * j + 1) * a := by
  have hlower := h.lower
  simp only [error] at hlower
  linarith

theorem Near.le (h : Near a b i j) (ha : 0 < a) (hb : 0 ≤ b) (hi : i ≤ a) : j ≤ b := by
  have hib : i * b ≤ a * b := mul_le_mul_of_nonneg_right hi hb
  have hlt : (2 * j - 1) * a < (2 * b) * a := by linarith [h.below]
  have hj := lt_of_mul_lt_mul_right hlt ha.le
  omega

theorem Near.nonneg (h : Near a b i j) (ha : 0 < a) (hb : 0 ≤ b) (hi : 0 ≤ i) : 0 ≤ j := by
  have hib : 0 ≤ i * b := mul_nonneg hi hb
  have hle : 0 * a ≤ (2 * j + 1) * a := by linarith [h.above]
  have hj := le_of_mul_le_mul_right hle ha
  omega

/-- Near the end of the longer side there is only the end of the other one. -/
theorem Near.finish (h : Near a b a j) (ha : 0 < a) (hb : 0 ≤ b) : j = b := by
  have hle : (2 * b) * a ≤ (2 * j + 1) * a := by linarith [h.above]
  have hj := le_of_mul_le_mul_right hle ha
  have hlast := h.le ha hb (Int.le_refl a)
  omega

end

section
variable {a b n : Int} {p : Int × Int}

theorem tracked_start (hab : 0 < max a b) : Tracked a b 0 (0, 0) := by
  rcases Int.lt_or_le a b with hlt | hle
  · exact Or.inr ⟨hlt, rfl, near_start (by omega)⟩
  · exact Or.inl ⟨hle, rfl, near_start (by omega)⟩

theorem Tracked.next (h : Tracked a b n p) (ha : 0 ≤ a) (hb : 0 ≤ b) (hab : 0 < max a b) :
    Tracked a b (n + 1) (next a b p) := by
  rcases h with ⟨hle, rfl, hnear⟩ | ⟨hlt, rfl, hnear⟩
  · refine Or.inl ⟨hle, ?_⟩
    simp only [Bresenham.next, if_pos (hnear.advances (by omega) hle)]
    refine ⟨trivial, ?_⟩
    split
    · rename_i hclose
      exact hnear.diagonal hle hclose
    · rename_i hfar
      exact hnear.straight hb (by omega)
  · have hadv := hnear.advances (by omega) hlt.le
    have hswap := error_swap a b p.1 p.2
    refine Or.inr ⟨hlt, ?_⟩
    simp only [Bresenham.next, if_pos (show 2 * error a b p.1 p.2 < a by omega)]
    refine ⟨trivial, ?_⟩
    split
    · exact hnear.diagonal hlt.le (by omega)
    · exact hnear.straight ha (by omega)

theorem Tracked.inBox (h : Tracked a b n p) (ha : 0 ≤ a) (hb : 0 ≤ b) (hab : 0 < max a b)
    (hn : 0 ≤ n) (hlast : n ≤ max a b) : (0 ≤ p.1 ∧ p.1 ≤ a) ∧ 0 ≤ p.2 ∧ p.2 ≤ b := by
  rcases h with ⟨hle, rfl, hnear⟩ | ⟨hlt, rfl, hnear⟩
  · have hj := hnear.nonneg (by omega) hb hn
    have hj' := hnear.le (by omega) hb (by omega)
    omega
  · have hi := hnear.nonneg (by omega) ha hn
    have hi' := hnear.le (by omega) ha (by omega)
    omega

/-- The end is reached with the last round, and not before. -/
theorem Tracked.eq_end_iff (h : Tracked a b n p) (ha : 0 ≤ a) (hb : 0 ≤ b) (hab : 0 < max a b) :
    p = (a, b) ↔ n = max a b := by
  obtain ⟨i, j⟩ := p
  rw [Prod.mk.injEq]
  rcases h with ⟨hle, rfl, hnear⟩ | ⟨hlt, rfl, hnear⟩
  · constructor
    · omega
    · intro hi
      obtain rfl : i = a := by omega
      exact ⟨rfl, hnear.finish (by omega) hb⟩
  · constructor
    · omega
    · intro hj
      obtain rfl : j = b := by omega
      exact ⟨hnear.finish (by omega) ha, rfl⟩

theorem Tracked.error_bounds (h : Tracked a b n p) (ha : 0 ≤ a) (hb : 0 ≤ b) :
    -(3 * max a b) ≤ 2 * error a b p.1 p.2 ∧ 2 * error a b p.1 p.2 ≤ 3 * max a b := by
  rcases h with ⟨hle, -, hnear⟩ | ⟨hlt, -, hnear⟩
  · have hlower := hnear.lower
    have hupper := hnear.upper
    omega
  · have hlower := hnear.lower
    have hupper := hnear.upper
    rw [error_swap] at hlower hupper
    omega

end

section
variable {a b : Int}

@[simp] theorem length_path (n : Nat) (p : Int × Int) : (path a b n p).length = n + 1 := by
  induction n generalizing p with
  | zero => rfl
  | succ n ih => rw [path, List.length_cons, ih]

theorem path_eq_cons (n : Nat) (p : Int × Int) : ∃ rest, path a b n p = p :: rest := by
  cases n with
  | zero => exact ⟨[], rfl⟩
  | succ n => exact ⟨_, rfl⟩

/-- Neighbours on a path are at most one apart along each side. -/
theorem isChain_path (n : Nat) (p : Int × Int) : List.IsChain
    (fun p q => (p.1 ≤ q.1 ∧ q.1 ≤ p.1 + 1) ∧ p.2 ≤ q.2 ∧ q.2 ≤ p.2 + 1) (path a b n p) := by
  induction n generalizing p with
  | zero => exact List.IsChain.singleton p
  | succ n ih =>
    obtain ⟨rest, hrest⟩ := path_eq_cons (a := a) (b := b) n (next a b p)
    have hnext := ih (next a b p)
    rw [path, hrest, List.isChain_cons_cons]
    rw [hrest] at hnext
    refine ⟨?_, hnext⟩
    simp only [next]
    split <;> split <;> omega

variable {p : Int × Int}

theorem getLast?_path (ha : 0 ≤ a) (hb : 0 ≤ b) (hab : 0 < max a b) (k : Nat) {n : Int}
    (h : Tracked a b n p) (hk : n + k = max a b) : (path a b k p).getLast? = some (a, b) := by
  induction k generalizing n p with
  | zero =>
    have hend := (h.eq_end_iff ha hb hab).mpr (by omega)
    rw [path, hend]
    rfl
  | succ k ih =>
    obtain ⟨rest, hrest⟩ := path_eq_cons (a := a) (b := b) k (next a b p)
    have hlast := ih (h.next ha hb hab) (by omega)
    rw [hrest] at hlast
    rw [path, hrest, List.getLast?_cons_cons, hlast]

theorem inBox_of_mem_path (ha : 0 ≤ a) (hb : 0 ≤ b) (hab : 0 < max a b) (k : Nat) {n : Int}
    (h : Tracked a b n p) (hn : 0 ≤ n) (hk : n + k = max a b) {q : Int × Int}
    (hq : q ∈ path a b k p) : (0 ≤ q.1 ∧ q.1 ≤ a) ∧ 0 ≤ q.2 ∧ q.2 ≤ b := by
  induction k generalizing n p with
  | zero =>
    rw [List.mem_singleton.mp hq]
    exact h.inBox ha hb hab hn (by omega)
  | succ k ih =>
    rcases List.mem_cons.mp hq with rfl | hq
    · exact h.inBox ha hb hab hn (by omega)
    · exact ih (h.next ha hb hab) (by omega) (by omega) hq

/-- All of the line from (0, 0), which is one point if both its sides are 0. -/
theorem getLast?_line (ha : 0 ≤ a) (hb : 0 ≤ b) :
    (path a b (max a b).toNat (0, 0)).getLast? = some (a, b) := by
  rcases Int.lt_or_eq_of_le (show 0 ≤ max a b by omega) with hab | hzero
  · exact getLast?_path ha hb hab _ (tracked_start hab) (by omega)
  · obtain ⟨rfl, rfl⟩ : a = 0 ∧ b = 0 := by omega
    rfl

theorem inBox_of_mem_line (ha : 0 ≤ a) (hb : 0 ≤ b) {q : Int × Int}
    (hq : q ∈ path a b (max a b).toNat (0, 0)) : (0 ≤ q.1 ∧ q.1 ≤ a) ∧ 0 ≤ q.2 ∧ q.2 ≤ b := by
  rcases Int.lt_or_eq_of_le (show 0 ≤ max a b by omega) with hab | hzero
  · exact inBox_of_mem_path ha hb hab _ (tracked_start hab) (Int.le_refl 0) (by omega) hq
  · obtain ⟨rfl, rfl⟩ : a = 0 ∧ b = 0 := by omega
    rw [List.mem_singleton.mp hq]
    exact ⟨⟨Int.le_refl 0, Int.le_refl 0⟩, Int.le_refl 0, Int.le_refl 0⟩

end

end EmergenceOS.Lib.Bresenham
