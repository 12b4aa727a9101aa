/- Module: EmergenceOS/Lib/Walk
   digest: Scripts followed through a table of entries, one lookup a step. -/

import Mathlib.Data.List.Induction
import Mathlib.Data.List.Infix
import Mathlib.Logic.Function.Basic
import Mathlib.Tactic.Common

set_option autoImplicit false
set_option relaxedAutoImplicit false

namespace EmergenceOS.Lib.Walk

universe u v w
variable {K : Type u} {V : Type v} {W : Type w}

/-- The table that a list of entries makes. Of those with one key the last one counts. -/
def table [DecidableEq K] (entries : List (K × V)) : K → Option V :=
  entries.foldl (fun t e => Function.update t e.1 (some e.2)) fun _ => none

theorem table_concat [DecidableEq K] (entries : List (K × V)) (e : K × V) :
    table (entries ++ [e]) = Function.update (table entries) e.1 (some e.2) := by
  rw [table, List.foldl_append]
  rfl

theorem table_singleton [DecidableEq K] (e : K × V) :
    table [e] = Function.update (fun _ => none) e.1 (some e.2) := rfl

theorem mem_of_table [DecidableEq K] {entries : List (K × V)} {k : K} {v : V}
    (h : table entries k = some v) : (k, v) ∈ entries := by
  induction entries using List.reverseRecOn with
  | nil => cases h
  | append_singleton entries e ih =>
    rw [table_concat] at h
    by_cases hk : k = e.1
    · rw [hk, Function.update_self, Option.some.injEq] at h
      rw [hk, ← h]
      exact List.mem_append_right _ (List.mem_singleton_self e)
    · rw [Function.update_of_ne hk] at h
      exact List.mem_append_left _ (ih h)

theorem exists_table_of_mem [DecidableEq K] {entries : List (K × V)} {e : K × V}
    (h : e ∈ entries) : ∃ v, table entries e.1 = some v := by
  induction entries using List.reverseRecOn with
  | nil => exact absurd h List.not_mem_nil
  | append_singleton entries e' ih =>
    rw [table_concat]
    by_cases hk : e.1 = e'.1
    · exact ⟨e'.2, by rw [hk, Function.update_self]⟩
    · rcases List.mem_append.mp h with hold | hnew
      · rw [Function.update_of_ne hk]
        exact ih hold
      · exact absurd (congrArg Prod.fst (List.mem_singleton.mp hnew)) hk

/-- Every entry is found under its key exactly if no two entries disagree about a key. -/
theorem table_complete_iff [DecidableEq K] (entries : List (K × V)) :
    (∀ e ∈ entries, table entries e.1 = some e.2) ↔
      ∀ e ∈ entries, ∀ e' ∈ entries, e.1 = e'.1 → e.2 = e'.2 := by
  constructor
  · intro h e he e' he' hk
    have hfound := h e he
    rw [hk, h e' he'] at hfound
    exact (Option.some.inj hfound).symm
  · intro h e he
    obtain ⟨v, hv⟩ := exists_table_of_mem he
    rw [hv, h e he (e.1, v) (mem_of_table hv) rfl]

/-- Other keys are as good as long as they tell the key that is looked up from the entries. -/
theorem table_map_key {L : Type w} [DecidableEq L] [DecidableEq K] {f : L → K}
    {entries : List (L × V)} {k : L} (h : ∀ e ∈ entries, f k = f e.1 ↔ k = e.1) :
    table (entries.map fun e => (f e.1, e.2)) (f k) = table entries k := by
  induction entries using List.reverseRecOn with
  | nil => rfl
  | append_singleton entries e ih =>
    have hlast := h e (List.mem_append_right _ (List.mem_singleton_self e))
    rw [List.map_append, List.map_singleton, table_concat, table_concat, Function.update_apply,
      Function.update_apply, ih fun e' he' => h e' (List.mem_append_left _ he')]
    exact if_congr hlast rfl rfl

section
variable (key : V → W → K) (t : K → Option V)

/-- From value x on: every word of the script gives, with the value reached, the next key. The
last value, and whether the walk ended at a key without an entry. -/
def follow : List W → V → V × Bool
  | [], x => (x, false)
  | c :: cs, x =>
    match t (key x c) with
    | none => (x, true)
    | some y => follow cs y

/-- The keys that are looked up. -/
def visited : List W → V → List K
  | [], _ => []
  | c :: cs, x =>
    key x c :: match t (key x c) with
      | none => []
      | some y => visited cs y

variable {key t} {t' : K → Option V}

theorem follow_cons_none {c : W} {cs : List W} {x : V} (h : t (key x c) = none) :
    follow key t (c :: cs) x = (x, true) := by
  rw [follow, h]

theorem follow_cons_some {c : W} {cs : List W} {x y : V} (h : t (key x c) = some y) :
    follow key t (c :: cs) x = follow key t cs y := by
  rw [follow, h]

/-- One step tells what the table has at its key. -/
theorem lookup_eq_of_follow_eq {c : W} {x : V}
    (h : follow key t [c] x = follow key t' [c] x) : t (key x c) = t' (key x c) := by
  cases ht : t (key x c) with
  | none =>
    cases ht' : t' (key x c) with
    | none => rfl
    | some y =>
      rw [follow_cons_none ht, follow_cons_some ht'] at h
      cases h
  | some y =>
    cases ht' : t' (key x c) with
    | none =>
      rw [follow_cons_some ht, follow_cons_none ht'] at h
      cases h
    | some y' =>
      rw [follow_cons_some ht, follow_cons_some ht'] at h
      rw [show y = y' from congrArg Prod.fst h]

/-- Two tables take every prefix of a script to the same end exactly if they agree at the keys
that are looked up. -/
theorem follow_eq_iff (cs : List W) (x : V) :
    (∀ p, p <+: cs → follow key t p x = follow key t' p x) ↔
      ∀ k ∈ visited key t' cs x, t k = t' k := by
  induction cs generalizing x with
  | nil =>
    refine ⟨fun _ k hk => absurd hk List.not_mem_nil, fun _ p hp => ?_⟩
    rw [List.prefix_nil.mp hp]
    rfl
  | cons c cs ih =>
    constructor
    · intro h k hk
      have hfirst := lookup_eq_of_follow_eq
        (h [c] (List.cons_prefix_cons.mpr ⟨rfl, List.nil_prefix⟩))
      rw [visited] at hk
      rcases List.mem_cons.mp hk with rfl | hk
      · exact hfirst
      · cases ht' : t' (key x c) with
        | none =>
          rw [ht'] at hk
          exact absurd hk List.not_mem_nil
        | some y =>
          rw [ht'] at hk hfirst
          refine (ih y).mp (fun p hp => ?_) k hk
          have hstep := h (c :: p) (List.cons_prefix_cons.mpr ⟨rfl, hp⟩)
          rwa [follow_cons_some hfirst, follow_cons_some ht'] at hstep
    · intro h p hp
      rcases List.prefix_cons_iff.mp hp with rfl | ⟨q, rfl, hq⟩
      · rfl
      · rw [visited] at h
        have hfirst := h (key x c) List.mem_cons_self
        cases ht' : t' (key x c) with
        | none => rw [follow_cons_none ht', follow_cons_none (hfirst.trans ht')]
        | some y =>
          rw [follow_cons_some ht', follow_cons_some (hfirst.trans ht')]
          refine (ih y).mpr (fun k hk => h k (List.mem_cons_of_mem _ ?_)) q hq
          rwa [ht']

end

end EmergenceOS.Lib.Walk
