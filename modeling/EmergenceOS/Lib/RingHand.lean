/- Module: EmergenceOS/Lib/RingHand
   digest: A hand that goes round a ring of places and takes each one it comes to. -/

import Mathlib.Logic.Function.Iterate
import Mathlib.Tactic.Common

/-!
The hand does not look at the place it takes. It spares the places in use, while
others are free, exactly as long as the free places are the next ones on its way.
-/

set_option autoImplicit false
set_option relaxedAutoImplicit false

namespace EmergenceOS.Lib.RingHand

/-- A ring of N places: where the hand stands, and which places are free. -/
@[ext] structure FreeRing (N : Nat) where
  hand : Fin N
  free : Fin N → Prop

namespace FreeRing
variable {N : Nat}

/-- How many places the hand takes before it comes to place i. -/
def ahead (r : FreeRing N) (i : Fin N) : Nat := (i - r.hand).val

/-- The hand takes the place it stands at, free or not, and moves on. -/
def take (r : FreeRing N) : FreeRing N :=
  ⟨⟨(r.hand.val + 1) % N, Nat.mod_lt _ (Nat.zero_lt_of_lt r.hand.isLt)⟩,
    fun i => i ≠ r.hand ∧ r.free i⟩

def occupy (r : FreeRing N) (p : Fin N) : FreeRing N := ⟨r.hand, fun i => i ≠ p ∧ r.free i⟩

def release (r : FreeRing N) (p : Fin N) : FreeRing N := ⟨r.hand, fun i => i = p ∨ r.free i⟩

/-- The place that the hand takes next is free, if any one is. -/
def Spares (r : FreeRing N) : Prop := ∀ j, r.free j → r.free r.hand

/-- The hand comes to every free place before it comes to one in use. -/
def InFront (r : FreeRing N) : Prop := ∀ i j, r.ahead i ≤ r.ahead j → r.free j → r.free i

section
variable (r : FreeRing N)

theorem ahead_eq (i : Fin N) :
    r.ahead i = if r.hand.val ≤ i.val then i.val - r.hand.val else N + i.val - r.hand.val := by
  unfold ahead
  split
  · rename_i hle
    exact Fin.coe_sub_iff_le.mpr hle
  · rename_i hlt
    exact Fin.coe_sub_iff_lt.mpr (Nat.lt_of_not_le hlt)

theorem hand_take : r.take.hand.val = if r.hand.val + 1 = N then 0 else r.hand.val + 1 := by
  have hhand := r.hand.isLt
  simp only [take]
  split
  · rename_i hwrap
    rw [hwrap, Nat.mod_self]
  · exact Nat.mod_eq_of_lt (by omega)

@[simp] theorem ahead_hand : r.ahead r.hand = 0 := by
  rw [ahead_eq, if_pos (Nat.le_refl _), Nat.sub_self]

variable {r}

theorem ahead_injective {i j : Fin N} (h : r.ahead i = r.ahead j) : i = j := by
  have hi := i.isLt
  have hj := j.isLt
  have hhand := r.hand.isLt
  rw [ahead_eq, ahead_eq] at h
  apply Fin.ext
  split at h <;> split at h <;> omega

/-- Each place taken brings the other ones nearer. -/
theorem ahead_take {i : Fin N} (h : i ≠ r.hand) : r.take.ahead i + 1 = r.ahead i := by
  have hne : i.val ≠ r.hand.val := fun he => h (Fin.ext he)
  have hi := i.isLt
  have hhand := r.hand.isLt
  rw [ahead_eq, ahead_eq, hand_take]
  split <;> split <;> split <;> omega

theorem ahead_take_hand : r.take.ahead r.hand + 1 = N := by
  have hhand := r.hand.isLt
  rw [ahead_eq, hand_take]
  split <;> split <;> omega

theorem InFront.spares (h : r.InFront) : r.Spares :=
  fun j hj => h r.hand j (by rw [ahead_hand]; exact Nat.zero_le _) hj

theorem InFront.take (h : r.InFront) : r.take.InFront := by
  rintro i j hij ⟨hj, hfree⟩
  have hne : i ≠ r.hand := by
    rintro rfl
    have hlast := r.ahead_take_hand
    have hj' := ahead_take hj
    have hlt := (j - r.hand).isLt
    unfold ahead at *
    omega
  have hi' := ahead_take hne
  have hj' := ahead_take hj
  exact ⟨hne, h i j (by omega) hfree⟩

/-- A place may be occupied when no free one lies behind it. -/
theorem inFront_occupy_iff (h : r.InFront) (p : Fin N) :
    (r.occupy p).InFront ↔ ∀ j, r.free j → r.ahead j ≤ r.ahead p := by
  constructor
  · intro hin j hj
    by_contra hlt
    have hjp : j ≠ p := by
      rintro rfl
      exact hlt (Nat.le_refl _)
    exact (hin p j (Nat.le_of_not_le hlt) ⟨hjp, hj⟩).1 rfl
  · rintro hall i j hij ⟨hjp, hj⟩
    refine ⟨?_, h i j hij hj⟩
    rintro rfl
    exact hjp (ahead_injective (Nat.le_antisymm (hall j hj) hij))

/-- A place may be released when all the places before it are free. -/
theorem inFront_release_iff (h : r.InFront) (p : Fin N) :
    (r.release p).InFront ↔ ∀ i, r.ahead i < r.ahead p → r.free i := by
  constructor
  · intro hin i hi
    refine (hin i p (Nat.le_of_lt hi) (Or.inl rfl)).resolve_left ?_
    rintro rfl
    exact Nat.lt_irrefl _ hi
  · rintro hall i j hij (rfl | hj)
    · rcases Nat.lt_or_eq_of_le hij with hlt | heq
      · exact Or.inr (hall i hlt)
      · exact Or.inl (ahead_injective heq)
    · exact Or.inr (h i j hij hj)

/-- Until the hand comes to it, a place stays as it is. -/
theorem take_iterate {i : Fin N} {k : Nat} (h : k ≤ r.ahead i) :
    (FreeRing.take^[k] r).ahead i + k = r.ahead i ∧ ((FreeRing.take^[k] r).free i ↔ r.free i) := by
  induction k with
  | zero => exact ⟨rfl, Iff.rfl⟩
  | succ k ih =>
    obtain ⟨hahead, hfree⟩ := ih (by omega)
    have hne : i ≠ (FreeRing.take^[k] r).hand := by
      intro he
      have hzero := (FreeRing.take^[k] r).ahead_hand
      rw [← he] at hzero
      omega
    have hnext := ahead_take hne
    rw [Function.iterate_succ_apply']
    refine ⟨by omega, ?_⟩
    rw [← hfree]
    exact and_iff_right hne

/-- The hand spares the places in use for good exactly if the free ones are in front. -/
theorem inFront_iff_spares_iterate : r.InFront ↔ ∀ k, (FreeRing.take^[k] r).Spares := by
  constructor
  · intro h k
    have hk : (FreeRing.take^[k] r).InFront := by
      induction k with
      | zero => exact h
      | succ k ih =>
        rw [Function.iterate_succ_apply']
        exact ih.take
    exact hk.spares
  · intro h i j hij hj
    obtain ⟨hahead, hfree⟩ := take_iterate (r := r) (i := i) (Nat.le_refl _)
    obtain ⟨-, hfree'⟩ := take_iterate (r := r) (i := j) hij
    have hhand : (FreeRing.take^[r.ahead i] r).hand = i := by
      apply ahead_injective (r := FreeRing.take^[r.ahead i] r)
      rw [ahead_hand]
      omega
    have hspared := h (r.ahead i) j (hfree'.mpr hj)
    rw [hhand] at hspared
    exact hfree.mp hspared

end

end FreeRing

end EmergenceOS.Lib.RingHand
