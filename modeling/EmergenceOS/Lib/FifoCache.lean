/- Module: EmergenceOS/Lib/FifoCache
   digest: A first-in first-out cache of fixed capacity and the slot ring that implements it. -/

import Mathlib.Data.List.Basic
import Mathlib.Data.List.Induction
import Mathlib.Data.List.Nodup
import Mathlib.Data.Nat.ModEq
import Mathlib.Logic.Function.Basic
import Mathlib.Tactic.Common

/-!
A key is created when it is stored while absent. The cache keeps the last
creations and nothing else, so its whole residency is a prefix of the creation
log. The ring puts creation number n into slot n mod capacity and never moves it.

Contents are partial: an offset that was not stored since the key's latest
creation has no defined value, whatever its slot happens to hold.
-/

set_option autoImplicit false
set_option relaxedAutoImplicit false

namespace EmergenceOS.Lib.FifoCache

universe u v w
variable {K : Type u} {O : Type v} {V : Type w}

/-- Creations, newest first, and what has been stored under each key since its creation. -/
structure Cache (K : Type u) (O : Type v) (V : Type w) where
  created : List K
  content : K → O → Option V

def Cache.empty : Cache K O V := ⟨[], fun _ _ => none⟩

/-- A key is resident while it is among the last N creations. -/
def Cache.Resident (N : Nat) (c : Cache K O V) (k : K) : Prop := k ∈ c.created.take N

instance [DecidableEq K] (N : Nat) (c : Cache K O V) (k : K) : Decidable (c.Resident N k) :=
  inferInstanceAs (Decidable (k ∈ c.created.take N))

/-- Store the defined part of f under k; an absent key is created with nothing else in it. -/
def Cache.store [DecidableEq K] (N : Nat) (c : Cache K O V) (k : K) (f : O → Option V) :
    Cache K O V :=
  if c.Resident N k then
    ⟨c.created, Function.update c.content k fun o => (f o).or (c.content k o)⟩
  else ⟨k :: c.created, Function.update c.content k f⟩

section Store
variable [DecidableEq K] {N : Nat}

theorem store_of_resident {c : Cache K O V} {k : K} (h : c.Resident N k) (f : O → Option V) :
    c.store N k f =
      ⟨c.created, Function.update c.content k fun o => (f o).or (c.content k o)⟩ :=
  if_pos h

theorem store_of_absent {c : Cache K O V} {k : K} (h : ¬c.Resident N k) (f : O → Option V) :
    c.store N k f = ⟨k :: c.created, Function.update c.content k f⟩ :=
  if_neg h

theorem content_store_self (c : Cache K O V) (k : K) (f : O → Option V) {o : O} {x : V}
    (h : f o = some x) : (c.store N k f).content k o = some x := by
  unfold Cache.store
  split <;> simp [h]

/-- As long as a key is not created afresh, offsets that a store leaves out keep their value. -/
theorem content_store_of_resident {c : Cache K O V} {k : K} (hk : c.Resident N k) (l : K)
    (f : O → Option V) {o : O} (h : l = k → f o = none) :
    (c.store N l f).content k o = c.content k o := by
  by_cases hl : l = k
  · subst l
    rw [store_of_resident hk]
    simp [h rfl]
  · unfold Cache.store
    split <;> simp [Function.update_of_ne (Ne.symm hl)]

/-- A run of stores, each of them a key and what is defined under it. -/
def Cache.run (N : Nat) (c : Cache K O V) (ws : List (K × (O → Option V))) : Cache K O V :=
  ws.foldl (fun c w => c.store N w.1 w.2) c

theorem run_append (c : Cache K O V) (ws ws' : List (K × (O → Option V))) :
    c.run N (ws ++ ws') = (c.run N ws).run N ws' :=
  List.foldl_append

/-- A value lasts through a run that keeps its key resident and does not store over it. -/
theorem content_run_of_resident {c : Cache K O V} {k : K} {o : O}
    {ws : List (K × (O → Option V))} (hres : ∀ p, p <+: ws → (c.run N p).Resident N k)
    (hws : ∀ w ∈ ws, w.1 = k → w.2 o = none) : (c.run N ws).content k o = c.content k o := by
  induction ws using List.reverseRecOn with
  | nil => rfl
  | append_singleton ws w ih =>
    have hprefix := List.prefix_append ws [w]
    rw [run_append]
    refine (content_store_of_resident (hres ws hprefix) w.1 w.2 (hws w (by simp))).trans ?_
    exact ih (fun p hp => hres p (hp.trans hprefix))
      fun w' hw' => hws w' (List.mem_append_left _ hw')

end Store

/-- The slots of a ring of capacity N after the given creations, newest first. -/
structure Ring (N : Nat) [NeZero N] (slots : Fin N → Option K) (created : List K) : Prop where
  occupied : ∀ (j : Nat) (hj : j < created.length), j < N →
    slots (Fin.ofNat N (created.length - 1 - j)) = some created[j]
  vacant : ∀ i : Fin N, created.length ≤ i.val → slots i = none
  nodup : (created.take N).Nodup

section Ring
variable {N : Nat} [NeZero N] {slots : Fin N → Option K} {created : List K}

theorem ring_nil : Ring N (fun _ => (none : Option K)) [] :=
  ⟨fun _ hj => absurd hj (by simp), fun _ _ => rfl, by simp⟩

/-- An occupied slot holds a creation that no later one has displaced. -/
theorem Ring.index_of_slot (h : Ring N slots created) {i : Fin N} {k : K}
    (hs : slots i = some k) : ∃ (j : Nat) (hj : j < created.length),
      j < N ∧ created[j] = k ∧ Fin.ofNat N (created.length - 1 - j) = i := by
  have hlen : i.val < created.length := by
    by_contra hge
    rw [h.vacant i (by omega)] at hs
    cases hs
  have hpos : 0 < N := Nat.pos_of_ne_zero (NeZero.ne N)
  have hlt : (created.length - 1 - i.val) % N < N := Nat.mod_lt _ hpos
  have hle : (created.length - 1 - i.val) % N ≤ created.length - 1 - i.val := Nat.mod_le _ _
  have hindex : Fin.ofNat N (created.length - 1 - (created.length - 1 - i.val) % N) = i := by
    apply Fin.ext
    have hsplit := Nat.div_add_mod (created.length - 1 - i.val) N
    have heq : created.length - 1 - (created.length - 1 - i.val) % N =
        i.val + N * ((created.length - 1 - i.val) / N) := by omega
    rw [Fin.val_ofNat, heq, Nat.add_mul_mod_self_left, Nat.mod_eq_of_lt i.isLt]
  refine ⟨(created.length - 1 - i.val) % N, by omega, hlt, ?_, hindex⟩
  have hocc := h.occupied ((created.length - 1 - i.val) % N) (by omega) hlt
  rw [hindex, hs] at hocc
  exact (Option.some.inj hocc).symm

theorem Ring.exists_slot_iff (h : Ring N slots created) (k : K) :
    (∃ i, slots i = some k) ↔ k ∈ created.take N := by
  rw [List.mem_take_iff_getElem]
  constructor
  · rintro ⟨i, hi⟩
    obtain ⟨j, hj, hjN, rfl, -⟩ := h.index_of_slot hi
    exact ⟨j, by omega, rfl⟩
  · rintro ⟨j, hj, rfl⟩
    exact ⟨_, h.occupied j (by omega) (by omega)⟩

theorem Ring.slot_unique (h : Ring N slots created) {i i' : Fin N} {k : K}
    (hi : slots i = some k) (hi' : slots i' = some k) : i = i' := by
  obtain ⟨j, hj, hjN, hk, rfl⟩ := h.index_of_slot hi
  obtain ⟨j', hj', hjN', hk', rfl⟩ := h.index_of_slot hi'
  have hlen : j < (created.take N).length := by
    rw [List.length_take]
    omega
  have hlen' : j' < (created.take N).length := by
    rw [List.length_take]
    omega
  have hval : (created.take N)[j] = (created.take N)[j'] := by
    rw [List.getElem_take, List.getElem_take, hk, hk']
  have hj_eq : j = j' := (List.Nodup.getElem_inj_iff h.nodup).mp hval
  rw [hj_eq]

/-- A creation takes the slot of the oldest one, and every other slot keeps its key. -/
theorem Ring.insert [DecidableEq K] (h : Ring N slots created) {k : K}
    (hk : k ∉ created.take N) :
    Ring N (Function.update slots (Fin.ofNat N created.length) (some k)) (k :: created) := by
  have hpos : 0 < N := Nat.pos_of_ne_zero (NeZero.ne N)
  refine ⟨fun j hj hjN => ?_, fun i hi => ?_, ?_⟩
  · cases j with
    | zero => simp
    | succ j =>
      simp only [List.length_cons] at hj
      have hne : Fin.ofNat N ((k :: created).length - 1 - (j + 1)) ≠
          Fin.ofNat N created.length := by
        intro he
        have hmod := congrArg Fin.val he
        simp only [Fin.val_ofNat, List.length_cons] at hmod
        have hdvd : N ∣ j + 1 := by
          have := (Nat.modEq_iff_dvd' (by omega)).mp hmod
          have hsub : created.length - (created.length + 1 - 1 - (j + 1)) = j + 1 := by omega
          rwa [hsub] at this
        have := Nat.le_of_dvd (by omega) hdvd
        omega
      rw [Function.update_of_ne hne, List.getElem_cons_succ]
      have hindex : (k :: created).length - 1 - (j + 1) = created.length - 1 - j := by
        simp only [List.length_cons]
        omega
      rw [hindex]
      exact h.occupied j (by omega) (by omega)
  · simp only [List.length_cons] at hi
    have hlt : created.length < N := by omega
    have hne : i ≠ Fin.ofNat N created.length := by
      intro he
      have := congrArg Fin.val he
      rw [Fin.val_ofNat, Nat.mod_eq_of_lt hlt] at this
      omega
    rw [Function.update_of_ne hne]
    exact h.vacant i (by omega)
  · obtain ⟨n, hn⟩ : ∃ n, N = n + 1 := ⟨N - 1, by omega⟩
    have hsub : created.take n ⊆ created.take N := by
      rw [hn]
      exact List.take_subset_take_left created (by omega)
    have htail : (created.take n).Nodup :=
      h.nodup.sublist (List.take_sublist_take_left (by omega))
    rw [hn, List.take_succ_cons]
    exact List.nodup_cons.mpr ⟨fun hm => hk (hsub hm), htail⟩

end Ring

/-- Slots and slot memory that stand for an abstract cache of capacity N. -/
structure Implements (N : Nat) [NeZero N] (slots : Fin N → Option K) (mem : Fin N → O → V)
    (c : Cache K O V) : Prop where
  ring : Ring N slots c.created
  content : ∀ i k, slots i = some k → ∀ o x, c.content k o = some x → mem i o = x

section Implements
variable {N : Nat} [NeZero N] {slots : Fin N → Option K} {mem mem' : Fin N → O → V}
  {c : Cache K O V}

theorem implements_empty (mem : Fin N → O → V) :
    Implements N (fun _ => (none : Option K)) mem Cache.empty :=
  ⟨ring_nil, fun _ _ h => by cases h⟩

/-- Storing under a resident key writes its slot and no other. -/
theorem Implements.hit [DecidableEq K] (h : Implements N slots mem c) {i : Fin N} {k : K}
    (hi : slots i = some k) {f : O → Option V} (hself : ∀ o, mem' i o = (f o).getD (mem i o))
    (hother : ∀ j, j ≠ i → mem' j = mem j) : Implements N slots mem' (c.store N k f) := by
  have hres : c.Resident N k := (h.ring.exists_slot_iff k).mp ⟨i, hi⟩
  rw [store_of_resident hres]
  refine ⟨h.ring, fun j l hj o x hx => ?_⟩
  by_cases hl : l = k
  · subst l
    obtain rfl := h.ring.slot_unique hj hi
    rw [hself]
    simp only [Function.update_self] at hx
    cases hf : f o with
    | some y => simpa [hf] using hx
    | none => exact h.content j k hi o x (by simpa [hf] using hx)
  · have hji : j ≠ i := by
      rintro rfl
      exact hl (Option.some.inj (hj.symm.trans hi))
    rw [hother j hji]
    exact h.content j l hj o x (by simpa [Function.update_of_ne hl] using hx)

/-- Storing under an absent key takes over the oldest slot with all that it still holds. -/
theorem Implements.miss [DecidableEq K] (h : Implements N slots mem c) {k : K}
    (hk : ¬c.Resident N k)
    {f : O → Option V}
    (hself : ∀ o, mem' (Fin.ofNat N c.created.length) o =
      (f o).getD (mem (Fin.ofNat N c.created.length) o))
    (hother : ∀ j, j ≠ Fin.ofNat N c.created.length → mem' j = mem j) :
    Implements N (Function.update slots (Fin.ofNat N c.created.length) (some k)) mem'
      (c.store N k f) := by
  rw [store_of_absent hk]
  have hring := h.ring.insert hk
  refine ⟨hring, fun j l hj o x hx => ?_⟩
  by_cases hl : l = k
  · subst l
    obtain rfl := hring.slot_unique hj (Function.update_self ..)
    simp only [Function.update_self] at hx
    rw [hself, hx, Option.getD_some]
  · have hji : j ≠ Fin.ofNat N c.created.length := by
      rintro rfl
      rw [Function.update_self] at hj
      exact hl (Option.some.inj hj).symm
    rw [hother j hji]
    rw [Function.update_of_ne hji] at hj
    exact h.content j l hj o x (by simpa [Function.update_of_ne hl] using hx)

end Implements

end EmergenceOS.Lib.FifoCache
