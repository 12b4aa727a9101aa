/- Module: EmergenceOS/Lib/GuardedRun
   digest: Runs of a deterministic machine whose events all meet a condition. -/

import Mathlib.Tactic.Common

/-!
An invariant that only some events can break holds throughout exactly the runs in
which those events come in states that allow them.
-/

set_option autoImplicit false
set_option relaxedAutoImplicit false

namespace EmergenceOS.Lib.GuardedRun

universe u v

variable {σ : Type u} {ε : Type v} (step : σ → ε → σ)

/-- Every event comes in a state that allows it. -/
def Guarded (Ok : σ → ε → Prop) : σ → List ε → Prop
  | _, [] => True
  | s, e :: es => Ok s e ∧ Guarded Ok (step s e) es

/-- P holds in the first state and after each event. -/
def Throughout (P : σ → Prop) : σ → List ε → Prop
  | s, [] => P s
  | s, e :: es => P s ∧ Throughout P (step s e) es

instance decidableGuarded (Ok : σ → ε → Prop) [∀ s e, Decidable (Ok s e)] :
    ∀ s es, Decidable (Guarded step Ok s es)
  | _, [] => inferInstanceAs (Decidable True)
  | s, e :: es =>
    have := decidableGuarded Ok (step s e) es
    inferInstanceAs (Decidable (_ ∧ _))

section
variable {step : σ → ε → σ} {P Q : σ → Prop} {Ok Ok' : σ → ε → Prop} {s : σ} {es : List ε}

theorem guarded_congr (h : ∀ s e, Ok s e ↔ Ok' s e) :
    Guarded step Ok s es ↔ Guarded step Ok' s es := by
  induction es generalizing s with
  | nil => exact Iff.rfl
  | cons e es ih => exact and_congr (h s e) ih

/-- Conditions that agree in the states that an invariant describes have the same runs, if
allowed events preserve it. -/
theorem guarded_congr_of_inv (Inv : σ → Prop) (hinv : ∀ s e, Inv s → Ok s e → Inv (step s e))
    (h : ∀ s e, Inv s → (Ok s e ↔ Ok' s e)) (hs : Inv s) :
    Guarded step Ok s es ↔ Guarded step Ok' s es := by
  induction es generalizing s with
  | nil => exact Iff.rfl
  | cons e es ih =>
    refine (and_congr_right fun hok => ?_).trans (and_congr_left' (h s e hs))
    exact ih (hinv s e hs hok)

/-- The last event of a guarded run is allowed in the state that the others lead to. -/
theorem Guarded.last {e : ε} (h : Guarded step Ok s (es ++ [e])) : Ok (es.foldl step s) e := by
  induction es generalizing s with
  | nil => exact h.1
  | cons e' es ih => exact ih h.2

theorem Throughout.first (h : Throughout step P s es) : P s := by
  cases es with
  | nil => exact h
  | cons e es => exact h.1

/-- The last state is one of those passed through. -/
theorem Throughout.last (h : Throughout step P s es) : P (es.foldl step s) := by
  induction es generalizing s with
  | nil => exact h
  | cons e es ih => exact ih h.2

theorem Throughout.imp (hPQ : ∀ s, P s → Q s) (h : Throughout step P s es) :
    Throughout step Q s es := by
  induction es generalizing s with
  | nil => exact hPQ s h
  | cons e es ih => exact ⟨hPQ s h.1, ih h.2⟩

/-- What each allowed event preserves holds throughout a guarded run. -/
theorem throughout_of_guarded (hstep : ∀ s e, P s → Ok s e → P (step s e)) (hfirst : P s)
    (h : Guarded step Ok s es) : Throughout step P s es := by
  induction es generalizing s with
  | nil => exact hfirst
  | cons e es ih => exact ⟨hfirst, ih (hstep s e hfirst h.1) h.2⟩

/-- What every event preserves, given an invariant of the machine, holds throughout every run. -/
theorem throughout_of_step (Inv : σ → Prop) (hinv : ∀ s e, Inv s → Inv (step s e))
    (hstep : ∀ s e, Inv s → P s → P (step s e)) (hs : Inv s) (hfirst : P s) :
    Throughout step P s es := by
  induction es generalizing s with
  | nil => exact hfirst
  | cons e es ih => exact ⟨hfirst, ih (hinv s e hs) (hstep s e hs hfirst)⟩

/-- Where the condition is exact for one event, it is exact for runs. What every event
preserves may be used. -/
theorem throughout_iff_guarded (Inv : σ → Prop) (hinv : ∀ s e, Inv s → Inv (step s e))
    (hstep : ∀ s e, Inv s → P s → (P (step s e) ↔ Ok s e)) (hs : Inv s) (hfirst : P s) :
    Throughout step P s es ↔ Guarded step Ok s es := by
  induction es generalizing s with
  | nil => exact iff_of_true hfirst trivial
  | cons e es ih =>
    have hnext := hinv s e hs
    constructor
    · intro h
      have hok := (hstep s e hs hfirst).mp h.2.first
      exact ⟨hok, (ih hnext h.2.first).mp h.2⟩
    · intro h
      have hP := (hstep s e hs hfirst).mpr h.1
      exact ⟨hfirst, (ih hnext hP).mpr h.2⟩

theorem throughout_iff_of_step_iff (hstep : ∀ s e, P s → (P (step s e) ↔ Ok s e))
    (hfirst : P s) : Throughout step P s es ↔ Guarded step Ok s es :=
  throughout_iff_guarded (fun _ => True) (fun _ _ _ => trivial) (fun s e _ => hstep s e) trivial
    hfirst

end

/-- A machine whose steps may fail, none of them from a state with P, runs to a state with P. -/
theorem foldlM_some {step : σ → ε → Option σ} {P : σ → Prop} {s : σ} {es : List ε}
    (hstep : ∀ s, ∀ e ∈ es, P s → ∃ s', step s e = some s' ∧ P s') (hfirst : P s) :
    ∃ s', es.foldlM step s = some s' ∧ P s' := by
  induction es generalizing s with
  | nil => exact ⟨s, rfl, hfirst⟩
  | cons e es ih =>
    obtain ⟨s', he, hs'⟩ := hstep s e List.mem_cons_self hfirst
    obtain ⟨s'', hrest, hs''⟩ := ih (fun s e he => hstep s e (List.mem_cons_of_mem _ he)) hs'
    refine ⟨s'', ?_, hs''⟩
    rw [List.foldlM_cons, he, Option.bind_eq_bind, Option.bind_some]
    exact hrest

/-- A machine whose steps succeed whenever the event is allowed in a related state of another
machine follows that machine through its guarded runs. -/
theorem foldlM_simulates {τ : Type u} {step : σ → ε → Option σ} {step' : τ → ε → τ}
    {R : σ → τ → Prop} {Ok : τ → ε → Prop} {s : σ} {t : τ} {es : List ε}
    (hstep : ∀ s t e, R s t → Ok t e → ∃ s', step s e = some s' ∧ R s' (step' t e))
    (hfirst : R s t) (h : Guarded step' Ok t es) :
    ∃ s', es.foldlM step s = some s' ∧ R s' (es.foldl step' t) := by
  induction es generalizing s t with
  | nil => exact ⟨s, rfl, hfirst⟩
  | cons e es ih =>
    obtain ⟨s', he, hs'⟩ := hstep s t e hfirst h.1
    obtain ⟨s'', hrest, hs''⟩ := ih hs' h.2
    refine ⟨s'', ?_, hs''⟩
    rw [List.foldlM_cons, he, Option.bind_eq_bind, Option.bind_some]
    exact hrest

end EmergenceOS.Lib.GuardedRun
