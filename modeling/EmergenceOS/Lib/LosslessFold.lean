/- Module: EmergenceOS/Lib/LosslessFold
   digest: Folds whose steps forget neither the state nor the element. -/

import Mathlib.Logic.Function.Basic

set_option autoImplicit false
set_option relaxedAutoImplicit false

namespace EmergenceOS.Lib.LosslessFold

universe u v
variable {σ : Type u} {α : Type v} {step : σ → α → σ}

/-- Two lists of one length that disagree at exactly one place. -/
def DifferOnce (l l' : List α) : Prop :=
  l.length = l'.length ∧ ∃ i : Nat, l[i]? ≠ l'[i]? ∧ ∀ j ≠ i, l[j]? = l'[j]?

theorem differOnce_set {l : List α} {i : Nat} {a : α} (hi : i < l.length) (ha : l[i]? ≠ some a) :
    DifferOnce l (l.set i a) := by
  refine ⟨List.length_set.symm, i, ?_, fun j hj => ?_⟩
  · rwa [List.getElem?_set_self hi]
  · rw [List.getElem?_set_ne (Ne.symm hj)]

/-- What was different stays different. -/
theorem foldl_injective (hstate : ∀ a, Function.Injective (step · a)) (l : List α) :
    Function.Injective (l.foldl step) := by
  induction l with
  | nil => exact fun _ _ h => h
  | cons a l ih => exact fun _ _ h => hstate a (ih h)

/-- One different element makes the states differ, and they stay so. -/
theorem foldl_ne_of_differOnce (hstate : ∀ a, Function.Injective (step · a))
    (helement : ∀ s, Function.Injective (step s)) {l l' : List α} (h : DifferOnce l l') (s : σ) :
    l.foldl step s ≠ l'.foldl step s := by
  obtain ⟨hlength, i, hi, hrest⟩ := h
  induction l generalizing l' i s with
  | nil =>
    obtain rfl := List.length_eq_zero_iff.mp hlength.symm
    exact absurd rfl hi
  | cons a l ih =>
    cases l' with
    | nil => cases hlength
    | cons a' l' =>
      rw [List.foldl_cons, List.foldl_cons]
      cases i with
      | zero =>
        have hne : a ≠ a' := by simpa using hi
        obtain rfl : l = l' := List.ext_getElem? fun j => by simpa using hrest (j + 1) (by omega)
        exact fun hfold => hne (helement s (foldl_injective hstate l hfold))
      | succ i =>
        obtain rfl : a = a' := by simpa using hrest 0 (by omega)
        exact ih (step s a) (by simpa using hlength) i (by simpa using hi)
          fun j hj => by simpa using hrest (j + 1) (by omega)

end EmergenceOS.Lib.LosslessFold
