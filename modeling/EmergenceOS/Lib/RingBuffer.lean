/- Module: EmergenceOS/Lib/RingBuffer
   digest: A queue in a ring of places that is empty when its two indices meet. -/

import Mathlib.Logic.Function.Basic
import Mathlib.Tactic.Common

/-!
Of N places at most N - 1 are ever in use. Whoever pushes into a ring with N - 1
elements makes the indices meet, and the ring forgets everything at once.
-/

set_option autoImplicit false
set_option relaxedAutoImplicit false

namespace EmergenceOS.Lib.RingBuffer

universe u
variable {N : Nat} {α : Type u}

/-- The place n places after i. -/
def advance (i : Fin N) (n : Nat) : Fin N := ⟨(i.val + n) % N, Nat.mod_lt _ (Fin.pos i)⟩

/-- The next element goes to head; the oldest one is at tail. -/
structure Queue (N : Nat) (α : Type u) where
  slots : Fin N → α
  head : Fin N
  tail : Fin N

/-- The elements in n places from i on. -/
def read (slots : Fin N → α) : Fin N → Nat → List α
  | _, 0 => []
  | i, n + 1 => slots i :: read slots (advance i 1) n

namespace Queue

def count (r : Queue N α) : Nat := (r.head.val + N - r.tail.val) % N

/-- The elements of the queue, oldest first. -/
def contents (r : Queue N α) : List α := read r.slots r.tail r.count

def push (r : Queue N α) (a : α) : Queue N α :=
  ⟨Function.update r.slots r.head a, advance r.head 1, r.tail⟩

def pop (r : Queue N α) : Queue N α := { r with tail := advance r.tail 1 }

/-- The head taken back to the tail. -/
def discard (r : Queue N α) : Queue N α := { r with head := r.tail }

end Queue

theorem advance_advance (i : Fin N) (m n : Nat) : advance (advance i m) n = advance i (m + n) := by
  apply Fin.ext
  simp only [advance, Nat.mod_add_mod, Nat.add_assoc]

theorem advance_val (i : Fin N) {n : Nat} (hn : n ≤ N) : (advance i n).val =
    if i.val + n < N then i.val + n else i.val + n - N := by
  have hi := i.isLt
  simp only [advance]
  split
  · rename_i hlt
    exact Nat.mod_eq_of_lt hlt
  · rename_i hge
    rw [Nat.mod_eq_sub_mod (by omega), Nat.mod_eq_of_lt (by omega)]

@[simp] theorem length_read (slots : Fin N → α) (i : Fin N) (n : Nat) :
    (read slots i n).length = n := by
  induction n generalizing i with
  | zero => rfl
  | succ n ih => rw [read, List.length_cons, ih]

theorem read_concat (slots : Fin N → α) (i : Fin N) (n : Nat) :
    read slots i (n + 1) = read slots i n ++ [slots (advance i n)] := by
  induction n generalizing i with
  | zero =>
    have hself : advance i 0 = i := Fin.ext (Nat.mod_eq_of_lt i.isLt)
    rw [hself]
    rfl
  | succ n ih =>
    rw [read, ih, advance_advance, Nat.add_comm 1 n]
    rfl

/-- A write at a place that is not among those read. -/
theorem read_update (slots : Fin N → α) (i p : Fin N) (a : α) (n : Nat)
    (h : ∀ k < n, advance i k ≠ p) : read (Function.update slots p a) i n = read slots i n := by
  induction n with
  | zero => rfl
  | succ n ih =>
    rw [read_concat, read_concat, ih fun k hk => h k (by omega),
      Function.update_of_ne (h n (Nat.lt_succ_self n))]

namespace Queue
variable (r : Queue N α)

/-- The elements reach from the tail to the head, or over the end of the ring. -/
theorem count_spec :
    r.tail.val + r.count = r.head.val ∨ r.tail.val + r.count = r.head.val + N := by
  have hhead := r.head.isLt
  have htail := r.tail.isLt
  rcases Nat.lt_or_ge r.head.val r.tail.val with hlt | hge
  · rw [count, Nat.mod_eq_of_lt (by omega)]
    omega
  · rw [count, Nat.mod_eq_sub_mod (by omega), Nat.mod_eq_of_lt (by omega)]
    omega

theorem count_lt : r.count < N := Nat.mod_lt _ (Fin.pos r.head)

theorem count_eq_zero_iff : r.count = 0 ↔ r.tail = r.head := by
  have htail := r.tail.isLt
  have hspec := r.count_spec
  have hlt := r.count_lt
  rw [Fin.ext_iff]
  omega

/-- The head is count places after the tail. -/
theorem advance_count : advance r.tail r.count = r.head := by
  have hhead := r.head.isLt
  have htail := r.tail.isLt
  have hcount := r.count_lt
  have hspec := r.count_spec
  apply Fin.ext
  rw [advance_val _ (Nat.le_of_lt hcount)]
  split <;> omega

@[simp] theorem length_contents : r.contents.length = r.count := length_read ..

theorem contents_eq_nil_iff : r.contents = [] ↔ r.tail = r.head := by
  rw [← List.length_eq_zero_iff, length_contents, count_eq_zero_iff]

theorem count_push (a : α) : (r.push a).count = if r.count + 1 = N then 0 else r.count + 1 := by
  have hhead := r.head.isLt
  have htail := r.tail.isLt
  have hspec := r.count_spec
  have hlt := r.count_lt
  have hspec' := (r.push a).count_spec
  have hlt' := (r.push a).count_lt
  have hnext : (r.push a).head.val = _ := advance_val r.head (show 1 ≤ N by omega)
  have htail' : (r.push a).tail = r.tail := rfl
  rw [htail'] at hspec'
  split at hnext <;> split <;> omega

/-- With room for one more element, a push appends it. -/
theorem contents_push (a : α) (h : r.count + 1 < N) :
    (r.push a).contents = r.contents ++ [a] := by
  have hcount := r.count_push a
  rw [if_neg (by omega)] at hcount
  have hfresh (k : Nat) (hk : k < r.count) : advance r.tail k ≠ r.head := by
    intro he
    have hlast := congrArg Fin.val (he.trans r.advance_count.symm)
    have htail := r.tail.isLt
    rw [advance_val _ (by omega), advance_val _ (by omega)] at hlast
    split at hlast <;> split at hlast <;> omega
  rw [contents, hcount, read_concat]
  simp only [push]
  rw [read_update _ _ _ _ _ hfresh, r.advance_count, Function.update_self]
  rfl

/-- Without it, a push empties the ring. -/
theorem contents_push_full (a : α) (h : r.count + 1 = N) : (r.push a).contents = [] := by
  rw [← List.length_eq_zero_iff, length_contents, count_push, if_pos h]

/-- The oldest element, and the others. -/
theorem contents_eq_cons (h : r.tail ≠ r.head) :
    r.contents = r.slots r.tail :: r.pop.contents := by
  have hpos := mt r.count_eq_zero_iff.mp h
  have hpop : r.count = r.pop.count + 1 := by
    have hhead := r.head.isLt
    have htail := r.tail.isLt
    have hspec := r.count_spec
    have hlt := r.count_lt
    have hspec' := r.pop.count_spec
    have hlt' := r.pop.count_lt
    have hnext : r.pop.tail.val = _ := advance_val r.tail (show 1 ≤ N by omega)
    have hhead' : r.pop.head = r.head := rfl
    rw [hhead'] at hspec'
    split at hnext <;> omega
  rw [contents, hpop, read]
  rfl

theorem contents_discard : r.discard.contents = [] := (contents_eq_nil_iff _).mpr rfl

end Queue

end EmergenceOS.Lib.RingBuffer
