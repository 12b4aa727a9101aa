/- Module: EmergenceOS/Lib/GapCode
   digest: Exceptions in a sequence, coded by the gaps before them. -/

import Mathlib.Algebra.GroupWithZero.Nat
import Mathlib.Tactic.Common

set_option autoImplicit false
set_option relaxedAutoImplicit false

namespace EmergenceOS.Lib.GapCode

universe u

variable {α : Type u}

/-- The values that are present, each with the number of absent ones before it since the last
one. The first gap is counted from s. -/
def gaps : List (Option α) → Nat → List (Nat × α)
  | [], _ => []
  | none :: l, s => gaps l (s + 1)
  | some v :: l, s => (s, v) :: gaps l 0

theorem length_gaps (l : List (Option α)) (s : Nat) :
    (gaps l s).length = l.countP Option.isSome := by
  induction l generalizing s with
  | nil => rfl
  | cons x l ih => cases x <;> simp [gaps, ih]

theorem gaps_absent (l : List (Option α)) (m s : Nat) :
    gaps (List.replicate m none ++ l) s = gaps l (s + m) := by
  induction m generalizing s with
  | zero => rfl
  | succ m ih =>
    rw [List.replicate_succ, List.cons_append, gaps, ih, Nat.add_assoc, Nat.add_comm 1]

theorem gaps_present (vs : List α) (l : List (Option α)) :
    gaps (vs.map some ++ l) 0 = vs.map (fun v => (0, v)) ++ gaps l 0 := by
  induction vs with
  | nil => rfl
  | cons v vs ih => rw [List.map_cons, List.cons_append, gaps, ih, List.map_cons, List.cons_append]

theorem gap_lt {l : List (Option α)} {s : Nat} {p : Nat × α} (hp : p ∈ gaps l s) :
    p.1 < s + l.length := by
  induction l generalizing s with
  | nil => exact absurd hp List.not_mem_nil
  | cons x l ih =>
    rw [List.length_cons]
    cases x with
    | none =>
      have hrest := ih hp
      omega
    | some v =>
      rcases List.mem_cons.mp hp with rfl | hp
      · simp only
        omega
      · have hrest := ih hp
        omega

/-- No gap is shorter than what was counted before it. -/
theorem le_first_gap {l : List (Option α)} {s : Nat} {p : Nat × α} {ps : List (Nat × α)}
    (h : gaps l s = p :: ps) : s ≤ p.1 := by
  induction l generalizing s with
  | nil => cases h
  | cons x l ih =>
    cases x with
    | none =>
      have hrest := ih h
      omega
    | some v =>
      obtain ⟨rfl, -⟩ := List.cons.inj h
      exact Nat.le_refl _

/-- The code of a sequence of known length gives the sequence back. -/
theorem gaps_injective {l l' : List (Option α)} (hlen : l.length = l'.length) {s : Nat}
    (h : gaps l s = gaps l' s) : l = l' := by
  induction l generalizing l' s with
  | nil => exact (List.length_eq_zero_iff.mp hlen.symm).symm
  | cons x l ih =>
    cases l' with
    | nil => cases hlen
    | cons y l' =>
      have hrest : l.length = l'.length := Nat.succ.inj hlen
      cases x with
      | none =>
        cases y with
        | none => rw [ih hrest h]
        | some w =>
          have hlate : s + 1 ≤ s := le_first_gap (p := (s, w)) h
          omega
      | some v =>
        cases y with
        | none =>
          have hlate : s + 1 ≤ s := le_first_gap (p := (s, v)) h.symm
          omega
        | some w =>
          obtain ⟨hpair, htail⟩ := List.cons.inj h
          rw [(Prod.mk.inj hpair).2, ih hrest htail]

/-! Places. The gaps and values up to a value tell how far it reaches into the sequence. -/

/-- How many elements a code accounts for, up to its value number j. -/
def reach (ps : List (Nat × α)) (j : Nat) : Nat := ((ps.take (j + 1)).map fun p => p.1 + 1).sum

theorem reach_cons_zero (p : Nat × α) (ps : List (Nat × α)) : reach (p :: ps) 0 = p.1 + 1 := by
  simp [reach]

theorem reach_cons_succ (p : Nat × α) (ps : List (Nat × α)) (j : Nat) :
    reach (p :: ps) (j + 1) = p.1 + 1 + reach ps j := by
  simp [reach]

theorem reach_pos {ps : List (Nat × α)} {j : Nat} (hj : j < ps.length) : 0 < reach ps j := by
  cases ps with
  | nil => exact absurd hj (Nat.not_lt_zero j)
  | cons p ps =>
    cases j with
    | zero => rw [reach_cons_zero]; exact Nat.succ_pos _
    | succ j => rw [reach_cons_succ]; omega

theorem reach_succ {ps : List (Nat × α)} {j : Nat} (hj : j + 1 < ps.length) :
    reach ps (j + 1) = reach ps j + (ps[j + 1].1 + 1) := by
  rw [reach, List.take_succ_eq_append_getElem hj, List.map_append, List.sum_append]
  simp [reach]

/-- Each value reaches further than those before it. -/
theorem reach_lt {ps : List (Nat × α)} {j k : Nat} (hjk : j < k) (hk : k < ps.length) :
    reach ps j < reach ps k := by
  induction k with
  | zero => omega
  | succ k ih =>
    rw [reach_succ hk]
    rcases Nat.lt_succ_iff_lt_or_eq.mp hjk with hlt | rfl
    · have hbefore := ih hlt (by omega)
      omega
    · omega

/-- Value j stands right where it reaches. -/
theorem getElem?_reach {l : List (Option α)} {s j : Nat} (hj : j < (gaps l s).length) :
    ∃ i, reach (gaps l s) j = s + i + 1 ∧ l[i]? = some (some (gaps l s)[j].2) := by
  induction l generalizing s j with
  | nil => exact absurd hj (Nat.not_lt_zero j)
  | cons x l ih =>
    cases x with
    | none =>
      obtain ⟨i, hreach, hi⟩ := ih (s := s + 1) hj
      exact ⟨i + 1, by rw [gaps, hreach]; omega, hi⟩
    | some v =>
      cases j with
      | zero => exact ⟨0, reach_cons_zero _ _, rfl⟩
      | succ j =>
        obtain ⟨i, hreach, hi⟩ := ih (s := 0) (j := j) (Nat.lt_of_succ_lt_succ hj)
        refine ⟨i + 1, ?_, hi⟩
        simp only [gaps, reach_cons_succ, hreach]
        omega

/-- Every value that is present is reached. -/
theorem exists_reach {l : List (Option α)} (s : Nat) {i : Nat} {v : α}
    (hi : l[i]? = some (some v)) : ∃ j < (gaps l s).length, reach (gaps l s) j = s + i + 1 := by
  induction l generalizing s i with
  | nil => cases hi
  | cons x l ih =>
    cases x with
    | none =>
      cases i with
      | zero => cases hi
      | succ i =>
        obtain ⟨j, hj, hreach⟩ := ih (s + 1) hi
        exact ⟨j, hj, by rw [gaps, hreach]; omega⟩
    | some w =>
      cases i with
      | zero => exact ⟨0, Nat.succ_pos _, reach_cons_zero _ _⟩
      | succ i =>
        obtain ⟨j, hj, hreach⟩ := ih 0 hi
        refine ⟨j + 1, Nat.succ_lt_succ hj, ?_⟩
        simp only [gaps, reach_cons_succ, hreach]
        omega

end EmergenceOS.Lib.GapCode
