/- Module: EmergenceOS/Lib/BoundedLoop
   digest: Loops tested before or after each turn, counted or left by a break, and their rules. -/

import Mathlib.Logic.Relation
import Mathlib.Tactic.Common

set_option autoImplicit false
set_option relaxedAutoImplicit false

namespace EmergenceOS.Lib.BoundedLoop

universe u
variable {n : Nat} {σ : Type u}

theorem toNat_succ {i limit : BitVec n} (h : i < limit) : (i + 1).toNat = i.toNat + 1 := by
  have hlt := BitVec.lt_def.mp h
  have hlimit := limit.isLt
  have hone : n ≠ 0 := by
    rintro rfl
    omega
  rw [BitVec.toNat_add, BitVec.ofNat_eq_ofNat, BitVec.toNat_one (Nat.pos_of_ne_zero hone)]
  exact Nat.mod_eq_of_lt (by omega)

/-- for (i = first; i < stop && i < limit; i++) body -/
def forBelow (stop limit : BitVec n) (body : σ → BitVec n → σ) (s : σ) (i : BitVec n) : σ :=
  if h : i < stop ∧ i < limit then forBelow stop limit body (body s i) (i + 1) else s
termination_by limit.toNat - i.toNat
decreasing_by
  have hlt := BitVec.lt_def.mp h.2
  rw [toNat_succ h.2]
  omega

/-- What each turn takes from its index to the next one holds at the bound in the end. -/
theorem forBelow_rule {stop limit : BitVec n} {body : σ → BitVec n → σ} (P : Nat → σ → Prop)
    {s : σ} {i : BitVec n} (hfirst : P i.toNat s)
    (hbody : ∀ s j, i ≤ j → j < stop → j < limit → P j.toNat s → P (j.toNat + 1) (body s j)) :
    P (max i.toNat (min stop.toNat limit.toNat)) (forBelow stop limit body s i) := by
  fun_induction forBelow stop limit body s i with
  | case1 s i h ih =>
    have hsucc := toNat_succ h.2
    have hstop := BitVec.lt_def.mp h.1
    have hlimit := BitVec.lt_def.mp h.2
    have hle : i ≤ i + 1 := BitVec.le_def.mpr (by omega)
    have hnext := ih (hsucc ▸ hbody s i (BitVec.le_refl i) h.1 h.2 hfirst)
      fun s j hj => hbody s j (BitVec.le_trans hle hj)
    rwa [hsucc, show max (i.toNat + 1) (min stop.toNat limit.toNat) =
      max i.toNat (min stop.toNat limit.toNat) by omega] at hnext
  | case2 s i h =>
    have hdone : max i.toNat (min stop.toNat limit.toNat) = i.toNat := by
      rw [BitVec.lt_def, BitVec.lt_def] at h
      omega
    rwa [hdone]

/-- What each turn preserves. -/
theorem forBelow_invariant {stop limit : BitVec n} {body : σ → BitVec n → σ} (P : σ → Prop)
    {s : σ} (i : BitVec n) (hfirst : P s)
    (hbody : ∀ s j, j < stop → j < limit → P s → P (body s j)) :
    P (forBelow stop limit body s i) :=
  forBelow_rule (fun _ => P) hfirst fun s j _ => hbody s j

/-- do body while (again). No result if the fuel runs out. -/
def doWhile (body : σ → σ) (again : σ → Bool) : Nat → σ → Option σ
  | 0, _ => none
  | fuel + 1, s => if again (body s) then doWhile body again fuel (body s) else some (body s)

/-- A loop whose test tells the last one of n turns ends after them. -/
theorem doWhile_rule {body : σ → σ} {again : σ → Bool} (P : Nat → σ → Prop) {n k fuel : Nat}
    {s : σ} (hfirst : P k s) (hk : k < n) (hfuel : n ≤ k + fuel)
    (hbody : ∀ s k, k < n → P k s → P (k + 1) (body s))
    (hagain : ∀ s k, k ≤ n → P k s → (again s = true ↔ k < n)) :
    ∃ s', doWhile body again fuel s = some s' ∧ P n s' := by
  induction fuel generalizing k s with
  | zero => omega
  | succ fuel ih =>
    have hnext := hbody s k hk hfirst
    have htest := hagain (body s) (k + 1) hk hnext
    rw [doWhile]
    by_cases hlast : k + 1 < n
    · rw [if_pos (htest.mpr hlast)]
      exact ih hnext hlast (by omega)
    · obtain rfl : k + 1 = n := by omega
      rw [if_neg fun h => hlast (htest.mp h)]
      exact ⟨_, rfl, hnext⟩

/-- while (test) body, where the flag that the body returns tells that it did not break. No
result if the fuel runs out. -/
def whileDo (test : σ → Bool) (body : σ → σ × Bool) : Nat → σ → Option σ
  | 0, _ => none
  | fuel + 1, s =>
    if test s then
      if (body s).2 then whileDo test body fuel (body s).1 else some (body s).1
    else some s

section
variable {test : σ → Bool} {body : σ → σ × Bool} {fuel : Nat} {s s' : σ}

/-- From the start of one turn to the start of the next. -/
def Turn (test : σ → Bool) (body : σ → σ × Bool) (s t : σ) : Prop :=
  test s = true ∧ body s = (t, true)

/-- What each turn preserves, in a loop whose turns that go on take from a bound. -/
theorem whileDo_rule (P : σ → Prop) (left : σ → Nat) (hfirst : P s) (hfuel : left s < fuel)
    (hbody : ∀ s, P s → test s = true →
      P (body s).1 ∧ ((body s).2 = true → left (body s).1 < left s)) :
    ∃ s', whileDo test body fuel s = some s' ∧ P s' := by
  induction fuel generalizing s with
  | zero => omega
  | succ fuel ih =>
    rw [whileDo]
    by_cases htest : test s = true
    · obtain ⟨hnext, hleft⟩ := hbody s hfirst htest
      rw [if_pos htest]
      by_cases hgo : (body s).2 = true
      · rw [if_pos hgo]
        have := hleft hgo
        exact ih hnext (by omega)
      · rw [if_neg hgo]
        exact ⟨_, rfl, hnext⟩
    · rw [if_neg htest]
      exact ⟨s, rfl, hfirst⟩

/-- What each turn preserves holds in the end, if there is one. -/
theorem whileDo_invariant (P : σ → Prop) (hbody : ∀ s, P s → P (body s).1) (hfirst : P s)
    (h : whileDo test body fuel s = some s') : P s' := by
  induction fuel generalizing s with
  | zero => cases h
  | succ fuel ih =>
    rw [whileDo] at h
    split at h
    · split at h
      · exact ih (hbody s hfirst) h
      · exact Option.some.inj h ▸ hbody s hfirst
    · exact Option.some.inj h ▸ hfirst

/-- A loop that ends, ends likewise from every turn on that it passes. -/
theorem whileDo_of_turns {t : σ} (hturns : Relation.ReflTransGen (Turn test body) s t)
    (h : whileDo test body fuel s = some s') : ∃ m, whileDo test body m t = some s' := by
  induction hturns with
  | refl => exact ⟨fuel, h⟩
  | tail _ hturn ih =>
    obtain ⟨m, hm⟩ := ih
    cases m with
    | zero => cases hm
    | succ m =>
      rw [whileDo, if_pos hturn.1, hturn.2, if_pos rfl] at hm
      exact ⟨m, hm⟩

/-- A loop whose turns all lead to a further one has no end. -/
theorem whileDo_eq_none (P : σ → Prop) (hbody : ∀ s, P s → test s = true ∧ (body s).2 = true ∧
    P (body s).1) (hfirst : P s) : whileDo test body fuel s = none := by
  induction fuel generalizing s with
  | zero => rfl
  | succ fuel ih =>
    obtain ⟨htest, hgo, hnext⟩ := hbody s hfirst
    rw [whileDo, if_pos htest, if_pos hgo]
    exact ih hnext

end

end EmergenceOS.Lib.BoundedLoop
