/- Module: EmergenceOS/Lib/ScanOrder
   digest: Two nested counting loops that return at their first hit. -/

import Mathlib.Tactic.Common

set_option autoImplicit false
set_option relaxedAutoImplicit false

namespace EmergenceOS.Lib.ScanOrder

universe u
variable {β : Type u}

/-- for (i = 0; i < m; i++) for (j = 0; j < n; j++) if (hit) return -/
def scan (m n : Nat) (f : Nat → Nat → Option β) : Option β :=
  (List.range m).findSome? fun i => (List.range n).findSome? (f i)

theorem range_eq_none_iff {n : Nat} {f : Nat → Option β} :
    (List.range n).findSome? f = none ↔ ∀ i < n, f i = none := by
  simp only [List.findSome?_eq_none_iff, List.mem_range]

/-- The result of one loop comes from its first hit. -/
theorem range_eq_some_iff {n : Nat} {f : Nat → Option β} {b : β} :
    (List.range n).findSome? f = some b ↔ ∃ i < n, f i = some b ∧ ∀ j < i, f j = none := by
  induction n with
  | zero => simp
  | succ n ih =>
    rw [List.range_succ, List.findSome?_append, Option.or_eq_some_iff, ih, range_eq_none_iff,
      List.findSome?_singleton]
    constructor
    · rintro (⟨i, hi, hit, hbefore⟩ | ⟨hbefore, hlast⟩)
      · exact ⟨i, by omega, hit, hbefore⟩
      · exact ⟨n, by omega, hlast, hbefore⟩
    · rintro ⟨i, hi, hit, hbefore⟩
      by_cases hin : i = n
      · subst hin
        exact Or.inr ⟨hbefore, hit⟩
      · exact Or.inl ⟨i, by omega, hit, hbefore⟩

theorem scan_eq_none_iff {m n : Nat} {f : Nat → Nat → Option β} :
    scan m n f = none ↔ ∀ i < m, ∀ j < n, f i j = none := by
  simp only [scan, range_eq_none_iff]

/-- The result of both loops comes from the first hit in lexicographic order. -/
theorem scan_eq_some_iff {m n : Nat} {f : Nat → Nat → Option β} {b : β} :
    scan m n f = some b ↔ ∃ i < m, ∃ j < n, f i j = some b ∧
      (∀ i' < i, ∀ j' < n, f i' j' = none) ∧ ∀ j' < j, f i j' = none := by
  rw [scan, range_eq_some_iff]
  simp only [range_eq_some_iff, range_eq_none_iff]
  constructor
  · rintro ⟨i, hi, ⟨j, hj, hit, hrow⟩, hbefore⟩
    exact ⟨i, hi, j, hj, hit, hbefore, hrow⟩
  · rintro ⟨i, hi, j, hj, hit, hbefore, hrow⟩
    exact ⟨i, hi, ⟨j, hj, hit, hrow⟩, hbefore⟩

end EmergenceOS.Lib.ScanOrder
