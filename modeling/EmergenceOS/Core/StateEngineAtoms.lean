/- Module: EmergenceOS/Core/StateEngineAtoms
   digest: The state engine over the manifold: which atoms its valid steps rest on. -/

import EmergenceOS.Core.StateEngine
import EmergenceOS.Vdev.TopologySlots

/-!
The engine looks for FREE_ROUTE or ERROR_ROUTE in what it fetched. The manifold answers
with zero where it has nothing, and the route of zero is neither of the two.
-/

set_option autoImplicit false
set_option relaxedAutoImplicit false

namespace EmergenceOS.Core.StateEngine

open EmergenceOS.Lib.Bytes EmergenceOS.Lib.GuardedRun
open EmergenceOS.Vdev.Topology EmergenceOS.Vdev.Topology.SubstrateManifold

/-- An engine and its manifold, with the ranges that were materialized so far. -/
structure Machine where
  engine : StateEngine
  history : History
  written : List (BitVec 64 × Nat)

inductive Event
  | step (input : BitVec 16) (stack : BitVec 64)
  | reset (initialState : BitVec 16)
  | manifold (op : SlotOp)

/-- The range of a materialize_range. -/
def writtenBy : SlotOp → List (BitVec 64 × Nat)
  | .materialize vaddr _ len => [(vaddr, len)]
  | _ => []

namespace Machine

/-- The pool is whatever memory was allocated. -/
def start (pool : Buffer) : Machine := ⟨construct, .start pool, []⟩

def step (s : Machine) : Event → Machine
  | .step input stack =>
    let (r, manifold) :=
      (s.engine.step input stack).answer SubstrateManifold.holographicFetch s.history.manifold
    { s with engine := r.2, history := { s.history with manifold := manifold } }
  | .reset initialState => { s with engine := .reset initialState }
  | .manifold op =>
    { s with history := s.history.step op, written := writtenBy op ++ s.written }

/-- Some range that was materialized has a byte of the atom at w. -/
def Materialized (s : Machine) (w : BitVec 64) : Prop :=
  ∃ r ∈ s.written, r.1.toNat < 16 * (w.toNat / 16) + 16 ∧ 16 * (w.toNat / 16) < r.1.toNat + r.2

/-- A step that consults the manifold is valid only on a materialized atom, and falls back to
state and input when the vblock is not resident. -/
def Lawful (s : Machine) : Event → Prop
  | .step input stack => ∀ vaddr resume, s.engine.step input stack = .fetch vaddr resume →
      ((resume (s.history.manifold.holographicFetch vaddr).1).1.valid = true →
        s.Materialized vaddr) ∧
      (¬s.history.manifold.Resident (vblockOf vaddr) →
        (resume (s.history.manifold.holographicFetch vaddr).1).1.valid = false ∧
        (resume (s.history.manifold.holographicFetch vaddr).1).1.nextState =
          (s.engine.currentState ^^^ input) &&& 0x3FF)
  | _ => True

/-- Where the engine consults the manifold, the vblock is resident, and its atom has been
materialized or happens to have one of the two routes. -/
def Backed (s : Machine) : Event → Prop
  | .step input _ => entropyThreshold ≤ s.engine.chaosAccumulator →
      s.history.manifold.Resident (vblockOf (coordinate s.engine.currentState input)) ∧
      (s.Materialized (coordinate s.engine.currentState input) ∨
        (s.history.manifold.holographicFetch
          (coordinate s.engine.currentState input)).1.route = freeRoute ∨
        (s.history.manifold.holographicFetch
          (coordinate s.engine.currentState input)).1.route = errorRoute)
  | _ => True

end Machine

theorem step_consults {e : StateEngine} (h : entropyThreshold ≤ e.chaosAccumulator)
    (input : BitVec 16) (stack : BitVec 64) :
    ∃ resume, e.step input stack = .fetch (coordinate e.currentState input) resume ∧
      ∀ v, ((resume v).1.valid = true ↔ v.route ≠ freeRoute ∧ v.route ≠ errorRoute) ∧
        ((resume v).1.valid = false →
          (resume v).1.nextState = (e.currentState ^^^ input) &&& 0x3FF) := by
  rw [StateEngine.step, if_neg (BitVec.not_lt.mpr h)]
  refine ⟨_, rfl, fun v => ?_⟩
  by_cases hroute : v.route ≠ freeRoute ∧ v.route ≠ errorRoute
  · simp only [if_pos hroute]
    exact ⟨iff_of_true trivial hroute, fun hvalid => absurd hvalid.symm Bool.false_ne_true⟩
  · simp only [if_neg hroute]
    exact ⟨iff_of_false Bool.false_ne_true hroute, fun _ => rfl⟩

/-- The manifold's answer for an absent vblock does not look like one. -/
theorem route_absent : (Value128.mk 0 0).route ≠ freeRoute ∧ (Value128.mk 0 0).route ≠ errorRoute :=
  by decide

namespace Machine

theorem lawful_iff_backed (s : Machine) (e : Event) : s.Lawful e ↔ s.Backed e := by
  cases e with
  | reset initialState => exact Iff.rfl
  | manifold op => exact Iff.rfl
  | step input stack =>
    by_cases hge : entropyThreshold ≤ s.engine.chaosAccumulator
    · obtain ⟨resume, hstep, hresume⟩ := step_consults hge input stack
      obtain ⟨hvalid, hfallback⟩ :=
        hresume (s.history.manifold.holographicFetch (coordinate s.engine.currentState input)).1
      constructor
      · intro hlawful _
        obtain ⟨hmaterialized, habsent⟩ := hlawful _ _ hstep
        refine ⟨?_, ?_⟩
        · by_contra hres
          have hinvalid := (habsent hres).1
          rw [holographicFetch_absent hres] at hvalid hinvalid
          rw [hvalid.mpr route_absent] at hinvalid
          cases hinvalid
        · by_cases hfree : s.Materialized (coordinate s.engine.currentState input)
          · exact Or.inl hfree
          · have hnot := mt hvalid.mpr (mt hmaterialized hfree)
            rw [not_and_or, not_not, not_not] at hnot
            exact Or.inr hnot
      · intro hbacked vaddr resume' hstep'
        rw [hstep] at hstep'
        cases hstep'
        obtain ⟨hres, hatom⟩ := hbacked hge
        refine ⟨fun hv => ?_, fun habsent => absurd hres habsent⟩
        obtain ⟨hfree, herror⟩ := hvalid.mp hv
        exact hatom.resolve_right fun hroute => hroute.elim hfree herror
    · refine iff_of_true (fun vaddr resume hstep => ?_) fun h => absurd h hge
      rw [StateEngine.step, if_pos (BitVec.not_le.mp hge)] at hstep
      cases hstep

/-- In every run the consulting steps are lawful exactly if all of them are backed. -/
theorem guarded_lawful_iff (pool : Buffer) (events : List Event) :
    Guarded step Lawful (start pool) events ↔ Guarded step Backed (start pool) events :=
  guarded_congr lawful_iff_backed

theorem run_transients (pool : Buffer) {n : Nat} (hn : n ≤ 64) :
    (List.replicate n (Event.step 0 0)).foldl step (start pool) =
      { start pool with engine := ⟨0, BitVec.ofNat 32 n⟩ } := by
  induction n with
  | zero => rfl
  | succ n ih =>
    rw [List.replicate_succ', List.foldl_append, ih (by omega)]
    have hlt : BitVec.ofNat 32 n < entropyThreshold := by
      have hthreshold : entropyThreshold.toNat = 64 := rfl
      rw [BitVec.lt_def, BitVec.toNat_ofNat]
      omega
    simp only [List.foldl_cons, List.foldl_nil, step, StateEngine.step, if_pos hlt, Consult.answer]
    rw [BitVec.ofNat_add]
    rfl

/-- Nothing was ever materialized, and step 65 is valid. -/
theorem not_lawful_absent :
    ¬Guarded step Lawful (start fun _ => 0) (List.replicate 65 (.step 0 0)) := by
  intro h
  rw [List.replicate_succ'] at h
  have hlast := (lawful_iff_backed _ _).mp h.last
  rw [run_transients _ (Nat.le_refl 64)] at hlast
  have hres := (hlast (by decide)).1
  rw [resident_iff_slots] at hres
  obtain ⟨i, hi⟩ := hres
  rw [show (start fun _ => 0).history.manifold = zeroed from rfl, zeroed, construct_slots] at hi
  cases hi

end Machine

end EmergenceOS.Core.StateEngine
