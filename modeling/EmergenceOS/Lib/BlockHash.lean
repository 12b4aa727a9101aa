/- Module: EmergenceOS/Lib/BlockHash
   digest: Iterated block functions and what a streaming implementation has absorbed. -/

import Mathlib.Data.List.Basic
import Mathlib.Tactic.Common

/-!
A message is cut into blocks of N symbols, and each whole block is folded into the
state. A stream holds the state after the whole blocks and the symbols behind
them; how the message was cut on the way does not show.
-/

set_option autoImplicit false
set_option relaxedAutoImplicit false

namespace EmergenceOS.Lib.BlockHash

universe u v
variable {σ : Type u} {β : Type v} (N : Nat) (compress : σ → List β → σ)

/-- The state after all whole blocks of a message. -/
def fullBlocks (s : σ) (m : List β) : σ :=
  if 0 < N ∧ N ≤ m.length then fullBlocks (compress s (m.take N)) (m.drop N) else s
termination_by m.length
decreasing_by
  rw [List.length_drop]
  omega

theorem fullBlocks_short (s : σ) {m : List β} (h : m.length < N) :
    fullBlocks N compress s m = s := by
  rw [fullBlocks, if_neg (by omega)]

theorem fullBlocks_block (hN : 0 < N) (s : σ) {b : List β} (hb : b.length = N) (m : List β) :
    fullBlocks N compress s (b ++ m) = fullBlocks N compress (compress s b) m := by
  have hlen : N ≤ (b ++ m).length := by
    rw [List.length_append]
    omega
  rw [fullBlocks, if_pos ⟨hN, hlen⟩, List.take_left' hb, List.drop_left' hb]

/-- Whole blocks first, the rest of the message from the state they leave. -/
theorem fullBlocks_append (hN : 0 < N) (s : σ) {a : List β} (ha : a.length % N = 0)
    (b : List β) : fullBlocks N compress s (a ++ b) =
      fullBlocks N compress (fullBlocks N compress s a) b := by
  obtain ⟨n, hn⟩ := Nat.dvd_of_mod_eq_zero ha
  induction n generalizing s a with
  | zero =>
    rw [Nat.mul_zero] at hn
    obtain rfl := List.eq_nil_of_length_eq_zero hn
    rw [List.nil_append, fullBlocks_short N compress s (m := []) hN]
  | succ n ih =>
    have hblock : (a.take N).length = N := by
      rw [List.length_take, hn, Nat.mul_succ]
      omega
    have hrest : (a.drop N).length = N * n := by
      rw [List.length_drop, hn, Nat.mul_succ]
      omega
    rw [← List.take_append_drop N a, List.append_assoc, fullBlocks_block N compress hN s hblock,
      fullBlocks_block N compress hN s hblock]
    exact ih _ (by rw [hrest, Nat.mul_mod_right]) hrest

/-- A stream that started in iv has absorbed m: its state covers the whole blocks, and the
tail is what came after them. -/
structure Absorbed (iv s : σ) (tail m : List β) : Prop where
  short : tail.length < N
  whole : ∃ full, full.length % N = 0 ∧ m = full ++ tail ∧ s = fullBlocks N compress iv full

section Absorbed
variable {N compress} {iv s : σ} {tail m x : List β}

theorem absorbed_nil (hN : 0 < N) : Absorbed N compress iv iv [] [] :=
  ⟨hN, [], by simp, rfl, (fullBlocks_short N compress iv (m := []) hN).symm⟩

theorem Absorbed.length_tail (h : Absorbed N compress iv s tail m) :
    tail.length = m.length % N := by
  obtain ⟨full, hfull, rfl, -⟩ := h.whole
  rw [List.length_append, Nat.add_mod, hfull, Nat.zero_add, Nat.mod_mod,
    Nat.mod_eq_of_lt h.short]

/-- Symbols that do not complete a block are only kept. -/
theorem Absorbed.keep (h : Absorbed N compress iv s tail m)
    (hx : tail.length + x.length < N) : Absorbed N compress iv s (tail ++ x) (m ++ x) := by
  obtain ⟨full, hfull, rfl, hs⟩ := h.whole
  exact ⟨by rwa [List.length_append], full, hfull, List.append_assoc .., hs⟩

/-- Symbols that complete the block lead to one step of the block function. -/
theorem Absorbed.complete (h : Absorbed N compress iv s tail m)
    (hx : tail.length + x.length = N) :
    Absorbed N compress iv (compress s (tail ++ x)) [] (m ++ x) := by
  obtain ⟨full, hfull, rfl, rfl⟩ := h.whole
  have hN := Nat.lt_of_le_of_lt (Nat.zero_le _) h.short
  have hlen : (tail ++ x).length = N := by rwa [List.length_append]
  refine ⟨hN, full ++ (tail ++ x), ?_, by simp, ?_⟩
  · rw [List.length_append, hlen, Nat.add_mod_right, hfull]
  · rw [fullBlocks_append N compress hN iv hfull, ← List.append_nil (tail ++ x),
      fullBlocks_block N compress hN _ hlen, List.append_nil,
      fullBlocks_short N compress _ (m := []) hN]

/-- A message of whole blocks is in the state altogether. -/
theorem Absorbed.state_eq (h : Absorbed N compress iv s tail m) (hm : m.length % N = 0) :
    s = fullBlocks N compress iv m := by
  have htail : tail = [] := List.eq_nil_of_length_eq_zero (h.length_tail.trans hm)
  obtain ⟨full, -, rfl, hs⟩ := h.whole
  rw [htail, List.append_nil, hs]

end Absorbed

end EmergenceOS.Lib.BlockHash
