/- Module: EmergenceOS/Lib/Parity
   digest: Parities of bit sequences, folding them in halves, and the bits they count. -/

import Mathlib.Algebra.Group.Nat.Even

set_option autoImplicit false
set_option relaxedAutoImplicit false

namespace EmergenceOS.Lib.Parity

/-- The sum of the first n bits. -/
def parity (f : Nat → Bool) : Nat → Bool
  | 0 => false
  | n + 1 => parity f n ^^ f n

theorem parity_congr {f g : Nat → Bool} {n : Nat} (h : ∀ i < n, f i = g i) :
    parity f n = parity g n := by
  induction n with
  | zero => rfl
  | succ n ih =>
    rw [parity, parity, ih fun i hi => h i (Nat.lt_succ_of_lt hi), h n (Nat.lt_succ_self n)]

theorem parity_false {f : Nat → Bool} {n : Nat} (h : ∀ i < n, f i = false) :
    parity f n = false := by
  induction n with
  | zero => rfl
  | succ n ih =>
    rw [parity, ih fun i hi => h i (Nat.lt_succ_of_lt hi), h n (Nat.lt_succ_self n)]
    rfl

theorem parity_xor (f g : Nat → Bool) (n : Nat) :
    parity (fun i => f i ^^ g i) n = (parity f n ^^ parity g n) := by
  induction n with
  | zero => rfl
  | succ n ih =>
    rw [parity, parity, parity, ih, Bool.xor_assoc, Bool.xor_assoc,
      Bool.xor_left_comm (parity g n)]

theorem parity_add (f : Nat → Bool) (m n : Nat) :
    parity f (m + n) = (parity f m ^^ parity (fun i => f (m + i)) n) := by
  induction n with
  | zero => simp only [Nat.add_zero, parity, Bool.xor_false]
  | succ n ih =>
    rw [← Nat.add_assoc, parity, parity, ih, Bool.xor_assoc]

/-- Adding the upper half onto the lower one keeps the sum. -/
theorem parity_fold (f : Nat → Bool) (n : Nat) :
    parity (fun i => f i ^^ f (n + i)) n = parity f (n + n) := by
  rw [parity_xor, parity_add]

/-- Bits that are all clear behind the first m do not count. -/
theorem parity_of_clear {f : Nat → Bool} {m n : Nat} (hmn : m ≤ n)
    (h : ∀ i, m ≤ i → f i = false) : parity f n = parity f m := by
  obtain ⟨k, rfl⟩ := Nat.exists_eq_add_of_le hmn
  rw [parity_add, parity_false fun i _ => h (m + i) (Nat.le_add_right m i), Bool.xor_false]

/-- The number of bits set among the first n. -/
def weight (f : Nat → Bool) (n : Nat) : Nat := (List.range n).countP f

theorem weight_succ (f : Nat → Bool) (n : Nat) :
    weight f (n + 1) = weight f n + if f n then 1 else 0 := by
  rw [weight, List.range_succ, List.countP_append, List.countP_singleton, weight]

theorem parity_eq_false_iff (f : Nat → Bool) (n : Nat) :
    parity f n = false ↔ Even (weight f n) := by
  induction n with
  | zero => exact iff_of_true rfl ⟨0, rfl⟩
  | succ n ih =>
    rw [parity, weight_succ]
    cases f n with
    | false => simpa using ih
    | true => rw [if_pos rfl, Nat.even_add_one, ← ih, Bool.xor_true]; simp

/-- The bits at the places congruent to c modulo 2. -/
def inClass (f : Nat → Bool) (c : Nat) (i : Nat) : Bool := f i && i % 2 == c

/-- They are those at every second place from c on. -/
theorem weight_inClass (f : Nat → Bool) {c : Nat} (hc : c < 2) (n : Nat) :
    weight (inClass f c) (2 * n) = weight (fun i => f (2 * i + c)) n := by
  induction n with
  | zero => rfl
  | succ n ih =>
    have heven : (2 * n) % 2 = 0 := Nat.mul_mod_right 2 n
    have hodd : (2 * n + 1) % 2 = 1 := by rw [Nat.mul_add_mod]
    rw [Nat.mul_succ, weight_succ, weight_succ, weight_succ, ih, inClass, inClass, heven, hodd]
    rcases (show c = 0 ∨ c = 1 by omega) with rfl | rfl
    · simp
    · simp

/-- Every set bit is in one of the two classes. -/
theorem weight_eq_add (f : Nat → Bool) (n : Nat) :
    weight f n = weight (inClass f 0) n + weight (inClass f 1) n := by
  induction n with
  | zero => rfl
  | succ n ih =>
    rw [weight_succ, weight_succ, weight_succ, ih, inClass, inClass]
    rcases Nat.mod_two_eq_zero_or_one n with hn | hn
    · simp only [hn, beq_self_eq_true, Bool.and_true, Nat.reduceBEq, Bool.and_false]
      simp
      omega
    · simp only [hn, beq_self_eq_true, Bool.and_true, Nat.reduceBEq, Bool.and_false]
      simp
      omega

/-- Bit i of class c of a word. -/
def strided {w : Nat} (x : BitVec w) (c i : Nat) : Bool := x.getLsbD (2 * i + c)

theorem strided_xor {w : Nat} (x y : BitVec w) (c : Nat) :
    strided (x ^^^ y) c = fun i => strided x c i ^^ strided y c i := by
  funext i
  exact BitVec.getLsbD_xor

/-- One fold of a word by an even distance halves both classes. -/
theorem parity_strided_fold {w : Nat} (x : BitVec w) (c n : Nat) :
    parity (strided (x ^^^ (x >>> (2 * n))) c) n = parity (strided x c) (n + n) := by
  rw [← parity_fold]
  apply parity_congr
  intro i _
  rw [strided_xor]
  simp only [strided, BitVec.getLsbD_ushiftRight, Nat.mul_add, Nat.add_assoc]

end EmergenceOS.Lib.Parity
