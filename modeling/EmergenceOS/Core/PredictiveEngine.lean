/- Module: EmergenceOS/Core/PredictiveEngine
   digest: Speculations in a ring of 256 records, and the comparison that catches up on them. -/

import EmergenceOS.Lib.GuardedRun
import EmergenceOS.Lib.RingBuffer
import EmergenceOS.Vdev.TopologyRoute

/-!
speculative_fetch stores its record and moves the head on without a look at the tail.
The 256th record that waits makes the two meet, and none of them is compared any more.
-/

set_option autoImplicit false
set_option relaxedAutoImplicit false

namespace EmergenceOS.Core

open EmergenceOS.Lib.GuardedRun EmergenceOS.Lib.RingBuffer EmergenceOS.Vdev.Topology

structure SpeculativeRecord where
  vaddr : BitVec 64
  predicted : Value128

/-- head_ and tail_ only ever take values modulo 256. -/
structure PredictiveEngine where
  specRing : Fin 256 → SpeculativeRecord
  head : Fin 256
  tail : Fin 256

namespace PredictiveEngine

/-- (index + 1) % 256. -/
def next (index : Fin 256) : Fin 256 := Fin.ofNat 256 (index.val + 1)

/-- The ring is whatever the storage held. -/
def construct (storage : Fin 256 → SpeculativeRecord) : PredictiveEngine := ⟨storage, 0, 0⟩

section
variable (speculativeRoute : BitVec 16)

/-- The high word of the guess is what the stack held. -/
def guess (vaddr stack : BitVec 64) : Value128 :=
  (Value128.mk stack (vaddr * phiLo ^^^ phiHi)).packRoute speculativeRoute

def speculativeFetch (e : PredictiveEngine) (vaddr stack : BitVec 64) :
    Value128 × PredictiveEngine :=
  let guess := guess speculativeRoute vaddr stack
  let currentHead := e.head
  (guess, { e with
    specRing := Function.update e.specRing currentHead ⟨vaddr, guess⟩
    head := next currentHead })

end

def mismatch (actual predicted : Value128) : Prop :=
  actual.lo ≠ predicted.lo ∨ actual.route ≠ predicted.route

instance (actual predicted : Value128) : Decidable (mismatch actual predicted) :=
  inferInstanceAs (Decidable (_ ∨ _))

/-- The records that were compared, oldest first, and whether the last comparison failed and
triggered a rollback. -/
structure Verdict where
  compared : List SpeculativeRecord
  rollback : Bool

/-- The engine as a queue. -/
def ring (e : PredictiveEngine) : Queue 256 SpeculativeRecord := ⟨e.specRing, e.head, e.tail⟩

/-- The loop of verify_consensus. The answer of its n-th fetch of an address is fetch n. -/
def verifyFrom (fetch : Nat → BitVec 64 → Value128) (n : Nat) (e : PredictiveEngine) :
    Verdict × PredictiveEngine :=
  if _hwaiting : e.tail ≠ e.head then
    let currentTail := e.tail
    let r := e.specRing currentTail
    if mismatch (fetch n r.vaddr) r.predicted then
      (⟨[r], true⟩, { e with head := currentTail })
    else
      let (v, e) := verifyFrom fetch (n + 1) { e with tail := next currentTail }
      (⟨r :: v.compared, v.rollback⟩, e)
  else (⟨[], false⟩, e)
termination_by (ring e).count
decreasing_by
  have hcons := congrArg List.length ((ring e).contents_eq_cons _hwaiting)
  rw [List.length_cons, Queue.length_contents, Queue.length_contents] at hcons
  exact Nat.lt_of_succ_le (Nat.le_of_eq hcons.symm)

def verifyConsensus (e : PredictiveEngine) (fetch : Nat → BitVec 64 → Value128) :
    Verdict × PredictiveEngine := verifyFrom fetch 0 e

/-- Comparing waiting records in their order, up to the first mismatch. -/
def compareAll (fetch : Nat → BitVec 64 → Value128) : Nat → List SpeculativeRecord → Verdict
  | _, [] => ⟨[], false⟩
  | n, r :: rs =>
    if mismatch (fetch n r.vaddr) r.predicted then ⟨[r], true⟩
    else ⟨r :: (compareAll fetch (n + 1) rs).compared, (compareAll fetch (n + 1) rs).rollback⟩

/-- The loop compares what the ring holds, and leaves it empty. -/
theorem verifyFrom_eq (fetch : Nat → BitVec 64 → Value128) (n : Nat) (e : PredictiveEngine) :
    (verifyFrom fetch n e).1 = compareAll fetch n (ring e).contents ∧
      (ring (verifyFrom fetch n e).2).contents = [] := by
  fun_induction verifyFrom fetch n e with
  | case1 n e h currentTail r hmis =>
    have hcons : (ring e).contents = r :: _ := (ring e).contents_eq_cons h
    rw [hcons, compareAll, if_pos hmis]
    exact ⟨rfl, (ring e).contents_discard⟩
  | case2 n e h currentTail r hmis v e' hrest ih =>
    have hcons : (ring e).contents = r :: _ := (ring e).contents_eq_cons h
    rw [hcons, compareAll, if_neg hmis]
    rw [hrest] at ih
    obtain ⟨hcompared, hempty⟩ := ih
    refine ⟨?_, hempty⟩
    have hverdict : v = compareAll fetch (n + 1) ((ring e).pop).contents := hcompared
    rw [hverdict]
  | case3 n e h =>
    have hempty := (ring e).contents_eq_nil_iff.mpr (not_not.mp h)
    exact ⟨by rw [hempty]; rfl, hempty⟩

/-- An engine, and the speculations issued since the last one verified or discarded. -/
structure Machine where
  engine : PredictiveEngine
  outstanding : List SpeculativeRecord

inductive Event
  | speculativeFetch (vaddr stack : BitVec 64)
  | verifyConsensus (fetch : Nat → BitVec 64 → Value128)

namespace Machine

def start (storage : Fin 256 → SpeculativeRecord) : Machine := ⟨construct storage, []⟩

section
variable (speculativeRoute : BitVec 16)

/-- A verification leaves nothing outstanding: what it did not verify it discarded. -/
def step (s : Machine) : Event → Machine
  | .speculativeFetch vaddr stack =>
    let (guess, engine) := speculativeFetch speculativeRoute s.engine vaddr stack
    ⟨engine, s.outstanding ++ [⟨vaddr, guess⟩]⟩
  | .verifyConsensus fetch => ⟨(s.engine.verifyConsensus fetch).2, []⟩

/-- Whatever the topology answers, a verification compares the outstanding speculations, oldest
first, up to the first mismatch, which is the one rolled back. -/
def Faithful (s : Machine) : Prop :=
  ∀ fetch, (s.engine.verifyConsensus fetch).1 = compareAll fetch 0 s.outstanding

/-- A speculation finds fewer than 255 outstanding. -/
def HasRoom (s : Machine) : Event → Prop
  | .speculativeFetch _ _ => s.outstanding.length < 255
  | .verifyConsensus _ => True

/-- A record predicts what speculative_fetch guesses for its address. -/
def Guessed (r : SpeculativeRecord) : Prop :=
  ∃ stack, r.predicted = guess speculativeRoute r.vaddr stack

/-- All records that wait in the ring, and all that are outstanding, are guesses. -/
structure AllGuessed (s : Machine) : Prop where
  waiting : ∀ r ∈ (ring s.engine).contents, Guessed speculativeRoute r
  outstanding : ∀ r ∈ s.outstanding, Guessed speculativeRoute r

variable {speculativeRoute}

/-- A topology that agrees with the guesses. -/
theorem compareAll_guess {rs : List SpeculativeRecord}
    (h : ∀ r ∈ rs, Guessed speculativeRoute r) (n : Nat) :
    compareAll (fun _ vaddr => guess speculativeRoute vaddr 0) n rs = ⟨rs, false⟩ := by
  induction rs generalizing n with
  | nil => rfl
  | cons r rs ih =>
    obtain ⟨stack, hr⟩ := h r List.mem_cons_self
    have hmatch : ¬mismatch (guess speculativeRoute r.vaddr 0) r.predicted := by
      rw [hr, mismatch, not_or, not_not, not_not]
      exact ⟨rfl, by rw [guess, guess, Value128.route_packRoute, Value128.route_packRoute]⟩
    rw [compareAll, if_neg hmatch, ih fun r hr => h r (List.mem_cons_of_mem _ hr)]

/-- Faithful means that the ring has the outstanding speculations. -/
theorem faithful_iff {s : Machine} (h : AllGuessed speculativeRoute s) :
    s.Faithful ↔ (ring s.engine).contents = s.outstanding := by
  constructor
  · intro hfaithful
    have hall := hfaithful fun _ vaddr => guess speculativeRoute vaddr 0
    rw [verifyConsensus, (verifyFrom_eq _ _ _).1, compareAll_guess h.waiting,
      compareAll_guess h.outstanding] at hall
    exact congrArg Verdict.compared hall
  · intro hcontents fetch
    rw [verifyConsensus, (verifyFrom_eq _ _ _).1, hcontents]

theorem ring_speculativeFetch (e : PredictiveEngine) (vaddr stack : BitVec 64) :
    ring (speculativeFetch speculativeRoute e vaddr stack).2 =
      (ring e).push ⟨vaddr, guess speculativeRoute vaddr stack⟩ := rfl

theorem step_allGuessed (s : Machine) (e : Event) (h : AllGuessed speculativeRoute s) :
    AllGuessed speculativeRoute (s.step speculativeRoute e) := by
  cases e with
  | speculativeFetch vaddr stack =>
    have hnew : Guessed speculativeRoute ⟨vaddr, guess speculativeRoute vaddr stack⟩ := ⟨stack, rfl⟩
    refine ⟨fun r hr => ?_, fun r hr => ?_⟩
    · rw [step, ring_speculativeFetch] at hr
      have hcount := (ring s.engine).count_lt
      rcases Nat.lt_or_eq_of_le (Nat.succ_le_of_lt hcount) with hroom | hfull
      · rw [Queue.contents_push _ _ hroom, List.mem_append, List.mem_singleton] at hr
        rcases hr with hr | rfl
        · exact h.waiting r hr
        · exact hnew
      · rw [Queue.contents_push_full _ _ hfull] at hr
        exact absurd hr List.not_mem_nil
    · rcases List.mem_append.mp hr with hr | hr
      · exact h.outstanding r hr
      · rw [List.mem_singleton.mp hr]
        exact hnew
  | verifyConsensus fetch =>
    refine ⟨fun r hr => ?_, fun r hr => absurd hr List.not_mem_nil⟩
    rw [step, verifyConsensus, (verifyFrom_eq _ _ _).2] at hr
    exact absurd hr List.not_mem_nil

theorem start_allGuessed (storage : Fin 256 → SpeculativeRecord) :
    AllGuessed speculativeRoute (start storage) := by
  have hempty : (ring (start storage).engine).contents = [] :=
    (Queue.contents_eq_nil_iff _).mpr rfl
  refine ⟨fun r hr => ?_, fun r hr => absurd hr List.not_mem_nil⟩
  rw [hempty] at hr
  exact absurd hr List.not_mem_nil

theorem run_allGuessed (s : Machine) (events : List Event) (h : AllGuessed speculativeRoute s) :
    AllGuessed speculativeRoute (events.foldl (step speculativeRoute) s) :=
  List.foldlRecOn events _ h fun s hs e _ => step_allGuessed s e hs

theorem length_outstanding_replicate (s : Machine) (vaddr stack : BitVec 64) (n : Nat) :
    ((List.replicate n (Event.speculativeFetch vaddr stack)).foldl
      (step speculativeRoute) s).outstanding.length = s.outstanding.length + n := by
  induction n generalizing s with
  | zero => rfl
  | succ n ih =>
    rw [List.replicate_succ, List.foldl_cons, ih, step, List.length_append, List.length_singleton]
    omega

theorem faithful_step_iff (s : Machine) (e : Event) (h : AllGuessed speculativeRoute s)
    (hs : s.Faithful) : (s.step speculativeRoute e).Faithful ↔ s.HasRoom e := by
  rw [faithful_iff (step_allGuessed s e h)]
  have hcontents := (faithful_iff h).mp hs
  have hcount := congrArg List.length hcontents
  rw [Queue.length_contents] at hcount
  cases e with
  | speculativeFetch vaddr stack =>
    rw [step, ring_speculativeFetch, HasRoom, ← hcount]
    rcases Nat.lt_or_eq_of_le (Nat.succ_le_of_lt (ring s.engine).count_lt) with hroom | hfull
    · refine iff_of_true ?_ (by omega)
      rw [Queue.contents_push _ _ hroom, hcontents]
      rfl
    · refine iff_of_false ?_ (by omega)
      rw [Queue.contents_push_full _ _ hfull]
      exact fun hnil => List.cons_ne_nil _ _ (List.append_eq_nil_iff.mp hnil.symm).2
  | verifyConsensus fetch => exact iff_of_true (verifyFrom_eq fetch 0 s.engine).2 trivial

/-- Verifications are faithful in every state of a run exactly if no speculation of the run
finds 255 outstanding. -/
theorem faithful_iff_hasRoom (speculativeRoute : BitVec 16) (storage : Fin 256 → SpeculativeRecord)
    (events : List Event) :
    Throughout (step speculativeRoute) Faithful (start storage) events ↔
      Guarded (step speculativeRoute) HasRoom (start storage) events :=
  throughout_iff_guarded (AllGuessed speculativeRoute) step_allGuessed faithful_step_iff
    (start_allGuessed storage)
    ((faithful_iff (start_allGuessed storage : AllGuessed speculativeRoute _)).mpr
      ((Queue.contents_eq_nil_iff _).mpr rfl))

/-- 256 speculations and no verification among them. -/
theorem not_faithful_full : ¬Throughout (step 0x3FF) Faithful (start fun _ => ⟨0, ⟨0, 0⟩⟩)
    (List.replicate 256 (.speculativeFetch 0 0)) := by
  intro h
  have hguessed := run_allGuessed _ (List.replicate 256 (.speculativeFetch 0 0))
    (start_allGuessed (fun _ => ⟨0, ⟨0, 0⟩⟩) : AllGuessed 0x3FF _)
  have hlength := congrArg List.length ((faithful_iff hguessed).mp h.last)
  rw [Queue.length_contents, length_outstanding_replicate] at hlength
  have hcount := (ring ((List.replicate 256 (Event.speculativeFetch 0 0)).foldl (step 0x3FF)
    (start fun _ => ⟨0, ⟨0, 0⟩⟩)).engine).count_lt
  rw [hlength] at hcount
  exact absurd hcount (Nat.not_lt.mpr (Nat.le_add_left 256 _))

end

end Machine

end PredictiveEngine

end EmergenceOS.Core
