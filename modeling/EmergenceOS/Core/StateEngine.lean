/- Module: EmergenceOS/Core/StateEngine
   digest: The state engine: 64 steps on its own, then one that asks the topology. -/

import EmergenceOS.Vdev.TopologyRoute
import Mathlib.Data.List.Induction

/-!
A step is done at once or makes one fetch and goes on with the answer. What the
topology is stays open: all runs are runs over any answers and any state behind them.
-/

set_option autoImplicit false
set_option relaxedAutoImplicit false

namespace EmergenceOS.Core

open EmergenceOS.Vdev.Topology

universe u v

structure StateEngine where
  currentState : BitVec 16
  chaosAccumulator : BitVec 32
  deriving DecidableEq

namespace StateEngine

def construct : StateEngine := ⟨0, 0⟩

def entropyThreshold : BitVec 32 := 64

structure ExecutionResult where
  prevState : BitVec 16
  input : BitVec 16
  nextState : BitVec 16
  value : Value128
  valid : Bool

/-- A result, or a call of holographic_fetch and what becomes of its answer. -/
inductive Consult (α : Type u)
  | done (result : α)
  | fetch (vaddr : BitVec 64) (resume : Value128 → α)

/-- The address of a state and an input. -/
def coordinate (currentState input : BitVec 16) : BitVec 64 :=
  currentState.setWidth 64 <<< 10 ||| (input &&& lensMask).setWidth 64

def reset (initialState : BitVec 16) : StateEngine := ⟨initialState, 0⟩

/-- One step. The high word of a transient value is what the stack held. -/
def step (e : StateEngine) (input : BitVec 16) (stack : BitVec 64) :
    Consult (ExecutionResult × StateEngine) :=
  let vaddr := coordinate e.currentState input
  let currentChaos := e.chaosAccumulator
  let chaos := currentChaos + 1
  if currentChaos < entropyThreshold then
    let value := (Value128.mk stack (vaddr * phiLo ^^^ input.setWidth 64)).packRoute freeRoute
    let nextState := (e.currentState ^^^ input) &&& lensMask
    .done (⟨e.currentState, input, nextState, value, true⟩, ⟨nextState, chaos⟩)
  else
    .fetch vaddr fun v =>
      let nxt := v.route
      if nxt ≠ freeRoute ∧ nxt ≠ errorRoute then
        (⟨e.currentState, input, nxt, v, true⟩, ⟨nxt, 0⟩)
      else
        let nextState := (e.currentState ^^^ input) &&& lensMask
        (⟨e.currentState, input, nextState, v, false⟩, ⟨nextState, 0⟩)

/-- The step finished over a topology. -/
def Consult.answer {α : Type u} {τ : Type v} (holographicFetch : τ → BitVec 64 → Value128 × τ)
    (topo : τ) : Consult α → α × τ
  | .done result => (result, topo)
  | .fetch vaddr resume => (resume (holographicFetch topo vaddr).1, (holographicFetch topo vaddr).2)

/-- A step that calls holographic_fetch. -/
def Consult.Fetches {α : Type u} : Consult α → Prop
  | .done _ => False
  | .fetch _ _ => True

inductive EngineOp
  | step (input : BitVec 16) (stack : BitVec 64)
  | reset (initialState : BitVec 16)

section
variable {τ : Type v} (holographicFetch : τ → BitVec 64 → Value128 × τ)

def EngineOp.apply (s : StateEngine × τ) : EngineOp → StateEngine × τ
  | .step input stack =>
    let (r, topo) := (s.1.step input stack).answer holographicFetch s.2
    (r.2, topo)
  | .reset initialState => (.reset initialState, s.2)

def run (topo : τ) (ops : List EngineOp) : StateEngine × τ :=
  ops.foldl (EngineOp.apply holographicFetch) (construct, topo)

end

/-- The number of steps since the last reset, or since the construction. -/
def stepsSinceReset (ops : List EngineOp) : Nat :=
  ops.foldl (fun n op => match op with
    | .step _ _ => n + 1
    | .reset _ => 0) 0

/-- What the accumulator says n steps after a reset. -/
structure Scheduled (e : StateEngine) (n : Nat) : Prop where
  chaos : e.chaosAccumulator.toNat = n % 65
  state : 0 < n → e.currentState.toNat ≤ 0x3FF

/-- The next step in a state reached n steps after a reset. -/
structure Timely (e : StateEngine) (n : Nat) (input : BitVec 16) (stack : BitVec 64) : Prop where
  fetches : (e.step input stack).Fetches ↔ (n + 1) % 65 = 0
  transient : (n + 1) % 65 ≠ 0 → ∃ result e', e.step input stack = .done (result, e') ∧
    result.valid = true ∧ result.nextState = (e.currentState ^^^ input) &&& 0x3FF
  state : 0 < n → e.currentState.toNat ≤ 0x3FF

theorem toNat_route (v : Value128) : v.route.toNat ≤ 0x3FF := Value128.toNat_and_lensMask _

theorem chaos_lt_iff {e : StateEngine} {n : Nat} (h : Scheduled e n) :
    e.chaosAccumulator < entropyThreshold ↔ (n + 1) % 65 ≠ 0 := by
  have hchaos := h.chaos
  have hthreshold : entropyThreshold.toNat = 64 := rfl
  rw [BitVec.lt_def]
  omega

theorem Scheduled.timely {e : StateEngine} {n : Nat} (h : Scheduled e n) (input : BitVec 16)
    (stack : BitVec 64) : Timely e n input stack := by
  have hlt := chaos_lt_iff h
  by_cases hn : (n + 1) % 65 = 0
  · have hfetch : ¬e.chaosAccumulator < entropyThreshold := fun hc => hlt.mp hc hn
    refine ⟨?_, fun hne => absurd hn hne, h.state⟩
    rw [step, if_neg hfetch]
    exact iff_of_true trivial hn
  · refine ⟨?_, fun _ => ?_, h.state⟩
    · rw [step, if_pos (hlt.mpr hn)]
      exact iff_of_false not_false hn
    · rw [step, if_pos (hlt.mpr hn)]
      exact ⟨_, _, rfl, rfl, rfl⟩

section
variable {τ : Type v} (holographicFetch : τ → BitVec 64 → Value128 × τ)

theorem Scheduled.step {s : StateEngine × τ} {n : Nat} (h : Scheduled s.1 n) (input : BitVec 16)
    (stack : BitVec 64) :
    Scheduled (EngineOp.apply holographicFetch s (.step input stack)).1 (n + 1) := by
  have hlt := chaos_lt_iff h
  have hchaos := h.chaos
  have hmasked (w : BitVec 16) : (w &&& lensMask).toNat ≤ 0x3FF := Value128.toNat_and_lensMask w
  simp only [EngineOp.apply, StateEngine.step]
  by_cases hn : (n + 1) % 65 = 0
  · -- the fetch, whatever it brings, begins the count again
    rw [if_neg fun hc => hlt.mp hc hn]
    simp only [Consult.answer]
    split
    · exact ⟨hn.symm, fun _ => toNat_route _⟩
    · exact ⟨hn.symm, fun _ => hmasked _⟩
  · rw [if_pos (hlt.mpr hn)]
    refine ⟨?_, fun _ => hmasked _⟩
    have hone : (1 : BitVec 32).toNat = 1 := rfl
    simp only [Consult.answer, BitVec.toNat_add, hone]
    omega

theorem run_scheduled (topo : τ) (ops : List EngineOp) :
    Scheduled (run holographicFetch topo ops).1 (stepsSinceReset ops) := by
  induction ops using List.reverseRecOn with
  | nil => exact ⟨rfl, fun h => absurd h (Nat.lt_irrefl 0)⟩
  | append_singleton ops op ih =>
    rw [run, stepsSinceReset, List.foldl_append, List.foldl_append]
    cases op with
    | step input stack => exact ih.step holographicFetch input stack
    | reset initialState => exact ⟨rfl, fun h => absurd h (Nat.lt_irrefl 0)⟩

/-- Over every topology and after every run, the next step fetches exactly if its number since
the last reset is a multiple of 65; every other step is a transient of state and input. -/
theorem run_timely (topo : τ) (ops : List EngineOp) (input : BitVec 16) (stack : BitVec 64) :
    Timely (run holographicFetch topo ops).1 (stepsSinceReset ops) input stack :=
  (run_scheduled holographicFetch topo ops).timely input stack

end

end StateEngine

end EmergenceOS.Core
