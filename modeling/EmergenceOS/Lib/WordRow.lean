/- Module: EmergenceOS/Lib/WordRow
   digest: A row of machine words in one natural number, and operations on all of them at once. -/

import Mathlib.Data.Nat.Bitwise
import Mathlib.Tactic.Ring

/-!
Each word has a cell of twice its width, so that a product does not reach the next
cell. Natural numbers of any size are cheap to compute with, single words are not.
-/

set_option autoImplicit false
set_option relaxedAutoImplicit false

namespace EmergenceOS.Lib.WordRow

/-- n cells of b bits, cell 0 lowest. -/
def cells (b : Nat) (f : Nat → Nat) : Nat → Nat
  | 0 => 0
  | n + 1 => 2 ^ (b * n) * f n + cells b f n

/-- n words in cells of twice their width. -/
def row {w : Nat} (f : Nat → BitVec w) (n : Nat) : Nat := cells (2 * w) (fun i => (f i).toNat) n

def ones (b n : Nat) : Nat := cells b (fun _ => 1) n

/-- The same number in every cell, given a row of ones. -/
def each (ones m : Nat) : Nat := Nat.mul ones m

def low (ones k x : Nat) : Nat := Nat.land x (each ones (Nat.sub (Nat.pow 2 k) 1))

/-- Every word times c. -/
def mul (w ones c x : Nat) : Nat := low ones w (Nat.mul x c)

def shiftRight (w ones s x : Nat) : Nat := low ones (Nat.sub w s) (Nat.shiftRight x s)

def rotateLeft (w ones r x : Nat) : Nat :=
  Nat.lor (mul w ones (Nat.pow 2 r) x) (shiftRight w ones (Nat.sub w r) x)

/-- Bit k of each cell that is zero in its low k bits. -/
def zeros (ones k x : Nat) : Nat :=
  Nat.xor (each ones (Nat.pow 2 k))
    (Nat.land (Nat.add x (each ones (Nat.sub (Nat.pow 2 k) 1))) (each ones (Nat.pow 2 k)))

/-- Cell i. -/
def cell (b x i : Nat) : Nat := Nat.mod (Nat.shiftRight x (Nat.mul b i)) (Nat.pow 2 b)

/-- P holds of the cell of every bit that is set, among 2 ^ depth cells from cell i on. -/
def everyMark (b : Nat) (P : Nat → Bool) : Nat → Nat → Nat → Bool
  | 0, i, x => bif Nat.beq x 0 then true else P i
  | depth + 1, i, x =>
    bif Nat.beq x 0 then true
    else everyMark b P depth i (Nat.mod x (Nat.pow 2 (b * 2 ^ depth))) &&
      everyMark b P depth (i + 2 ^ depth) (Nat.shiftRight x (b * 2 ^ depth))

/-- Computes n before it goes on. -/
def force {α : Type} (n : Nat) (f : Nat → α) : α :=
  match n with
  | 0 => f 0
  | m + 1 => f (m + 1)

theorem force_eq {α : Type} (n : Nat) (f : Nat → α) : force n f = f n := by
  cases n <;> rfl

theorem each_eq (ones m : Nat) : each ones m = ones * m := rfl

theorem low_eq (ones k x : Nat) : low ones k x = x &&& each ones (2 ^ k - 1) := rfl

theorem mul_eq (w ones c x : Nat) : mul w ones c x = low ones w (x * c) := rfl

theorem shiftRight_eq (w ones s x : Nat) :
    shiftRight w ones s x = low ones (w - s) (x >>> s) := rfl

theorem rotateLeft_eq (w ones r x : Nat) :
    rotateLeft w ones r x = mul w ones (2 ^ r) x ||| shiftRight w ones (w - r) x := rfl

theorem zeros_eq (ones k x : Nat) : zeros ones k x =
    each ones (2 ^ k) ^^^ ((x + each ones (2 ^ k - 1)) &&& each ones (2 ^ k)) := rfl

theorem cell_eq (b x i : Nat) : cell b x i = (x >>> (b * i)) % 2 ^ b := rfl

section Cells
variable {b : Nat} {f g : Nat → Nat}

theorem cells_lt (hf : ∀ i, f i < 2 ^ b) (n : Nat) : cells b f n < 2 ^ (b * n) := by
  induction n with
  | zero => exact Nat.one_pos
  | succ n ih =>
    calc 2 ^ (b * n) * f n + cells b f n
        < 2 ^ (b * n) * f n + 2 ^ (b * n) := Nat.add_lt_add_left ih _
      _ = 2 ^ (b * n) * (f n + 1) := (Nat.mul_succ _ _).symm
      _ ≤ 2 ^ (b * n) * 2 ^ b := Nat.mul_le_mul_left _ (hf n)
      _ = 2 ^ (b * (n + 1)) := by rw [← Nat.pow_add, Nat.mul_succ]

theorem testBit_past {x k j : Nat} (hx : x < 2 ^ k) (hj : k ≤ j) : x.testBit j = false :=
  Nat.testBit_lt_two_pow (Nat.lt_of_lt_of_le hx (Nat.pow_le_pow_right Nat.two_pos hj))

theorem testBit_cells (hb : 0 < b) (hf : ∀ i, f i < 2 ^ b) (n j : Nat) :
    (cells b f n).testBit j = (decide (j / b < n) && (f (j / b)).testBit (j % b)) := by
  induction n with
  | zero => simp [cells]
  | succ n ih =>
    rw [cells, Nat.testBit_two_pow_mul_add _ (cells_lt hf n)]
    have hcell : j / b < n ↔ j < b * n := by rw [Nat.div_lt_iff_lt_mul hb, Nat.mul_comm]
    split
    · rename_i hlow
      rw [ih, decide_eq_true (hcell.mpr hlow), decide_eq_true (Nat.lt_succ_of_lt (hcell.mpr hlow))]
    · rename_i hhigh
      have hge : n ≤ j / b := Nat.le_of_not_lt fun h => hhigh (hcell.mp h)
      rcases Nat.eq_or_lt_of_le hge with heq | hlt
      · have hrest : j - b * n = j % b := by
          rw [heq, Nat.mod_eq_sub]
        rw [hrest, ← heq, decide_eq_true (Nat.lt_succ_self n), Bool.true_and]
      · have hpast : b ≤ j - b * n := by
          have hmul := Nat.mul_le_mul_left b hlt
          have hdiv := Nat.mul_div_le j b
          rw [Nat.mul_succ] at hmul
          omega
        rw [decide_eq_false (by omega), Bool.false_and]
        exact testBit_past (hf n) hpast

theorem cells_congr (h : ∀ i, f i = g i) (n : Nat) : cells b f n = cells b g n := by
  rw [funext h]

theorem cells_mul (c n : Nat) : cells b f n * c = cells b (fun i => f i * c) n := by
  induction n with
  | zero => exact Nat.zero_mul c
  | succ n ih => rw [cells, cells, ← ih, Nat.add_mul, Nat.mul_assoc]

theorem cells_add (n : Nat) : cells b f n + cells b g n = cells b (fun i => f i + g i) n := by
  induction n with
  | zero => rfl
  | succ n ih =>
    rw [cells, cells, cells, ← ih]
    ring

/-- An operation on bits that leaves zeros alone acts on each cell. -/
theorem cells_bitwise (op : Bool → Bool → Bool) (hop : op false false = false) (hb : 0 < b)
    (hf : ∀ i, f i < 2 ^ b) (hg : ∀ i, g i < 2 ^ b) (n : Nat) :
    Nat.bitwise op (cells b f n) (cells b g n) =
      cells b (fun i => Nat.bitwise op (f i) (g i)) n := by
  have hfg (i : Nat) : Nat.bitwise op (f i) (g i) < 2 ^ b := Nat.bitwise_lt_two_pow (hf i) (hg i)
  apply Nat.eq_of_testBit_eq
  intro j
  rw [Nat.testBit_bitwise hop, testBit_cells hb hf, testBit_cells hb hg, testBit_cells hb hfg,
    Nat.testBit_bitwise hop]
  cases decide (j / b < n) <;> simp [hop]

theorem each_ones (m n : Nat) : each (ones b n) m = cells b (fun _ => m) n := by
  rw [each_eq, ones, cells_mul]
  simp only [Nat.one_mul]

theorem mask_lt {k : Nat} (hk : k ≤ b) : 2 ^ k - 1 < 2 ^ b :=
  Nat.lt_of_lt_of_le (Nat.sub_lt (Nat.two_pow_pos k) Nat.one_pos)
    (Nat.pow_le_pow_right Nat.two_pos hk)

theorem cells_low (hb : 0 < b) {k : Nat} (hk : k ≤ b) (hf : ∀ i, f i < 2 ^ b) (n : Nat) :
    low (ones b n) k (cells b f n) = cells b (fun i => f i % 2 ^ k) n := by
  rw [low_eq, each_ones]
  refine (cells_bitwise and rfl hb hf (fun _ => mask_lt hk) n).trans (cells_congr (fun i => ?_) n)
  exact Nat.and_two_pow_sub_one_eq_mod (f i) k

/-- Bits that come over from the next cell are masked out. -/
theorem cells_shiftRight {k : Nat} (hb : 0 < b) (hk : k ≤ b) (hf : ∀ i, f i < 2 ^ k) (s n : Nat) :
    shiftRight k (ones b n) s (cells b f n) = cells b (fun i => f i >>> s) n := by
  have hwide (i : Nat) : f i < 2 ^ b :=
    Nat.lt_of_lt_of_le (hf i) (Nat.pow_le_pow_right Nat.two_pos hk)
  have hmask (i : Nat) : (fun _ => 2 ^ (k - s) - 1) i < 2 ^ b := mask_lt (by omega)
  have hshift (i : Nat) : f i >>> s < 2 ^ b := Nat.lt_of_le_of_lt (Nat.shiftRight_le _ _) (hwide i)
  apply Nat.eq_of_testBit_eq
  intro j
  rw [shiftRight_eq, low_eq, each_ones, Nat.testBit_and, testBit_cells hb hshift,
    testBit_cells hb hmask, Nat.testBit_shiftRight, Nat.testBit_shiftRight,
    testBit_cells hb hwide, Nat.testBit_two_pow_sub_one]
  by_cases hin : j % b < k - s
  · have hsplit : s + j = s + j % b + b * (j / b) := by
      have hdiv := Nat.mod_add_div j b
      omega
    have hdiv : (s + j) / b = j / b := by
      rw [hsplit, Nat.add_mul_div_left _ _ hb, Nat.div_eq_of_lt (by omega), Nat.zero_add]
    have hmod : (s + j) % b = s + j % b := by
      rw [hsplit, Nat.add_mul_mod_self_left, Nat.mod_eq_of_lt (by omega)]
    rw [hdiv, hmod, decide_eq_true hin]
    cases decide (j / b < n) <;> simp
  · have hpast : k ≤ s + j % b := by omega
    rw [decide_eq_false hin, testBit_past (hf (j / b)) hpast]
    simp

theorem cell_cells (hb : 0 < b) (hf : ∀ i, f i < 2 ^ b) {i n : Nat} (hi : i < n) :
    cell b (cells b f n) i = f i := by
  apply Nat.eq_of_testBit_eq
  intro j
  rw [cell_eq, Nat.testBit_mod_two_pow, Nat.testBit_shiftRight, testBit_cells hb hf,
    Nat.mul_add_div hb, Nat.mul_add_mod]
  by_cases hj : j < b
  · rw [Nat.div_eq_of_lt hj, Nat.mod_eq_of_lt hj, Nat.add_zero, decide_eq_true hj,
      decide_eq_true hi, Bool.true_and, Bool.true_and]
  · rw [decide_eq_false hj, testBit_past (hf i) (Nat.le_of_not_lt hj), Bool.false_and]

/-- A zero leaves its mark. -/
theorem zeros_cells {k : Nat} (hk : k < b) (hf : ∀ i, f i < 2 ^ k) {i n : Nat} (hi : i < n)
    (hzero : f i = 0) : (zeros (ones b n) k (cells b f n)).testBit (b * i + k) = true := by
  have hb : 0 < b := Nat.zero_lt_of_lt hk
  have hpow (i : Nat) : (fun _ => 2 ^ k) i < 2 ^ b := Nat.pow_lt_pow_right (by decide) hk
  have hsum (i : Nat) : f i + (2 ^ k - 1) < 2 ^ b := by
    have hdouble : 2 ^ (k + 1) ≤ 2 ^ b := Nat.pow_le_pow_right Nat.two_pos hk
    have hlt := hf i
    rw [Nat.pow_succ] at hdouble
    omega
  rw [zeros_eq, each_ones, each_ones, cells_add, Nat.testBit_xor, Nat.testBit_and,
    testBit_cells hb hpow, testBit_cells hb hsum, Nat.mul_add_div hb, Nat.div_eq_of_lt hk,
    Nat.mul_add_mod, Nat.mod_eq_of_lt hk, Nat.add_zero, decide_eq_true hi, hzero, Nat.zero_add,
    Nat.testBit_two_pow_sub_one, Nat.testBit_two_pow_self]
  simp

theorem ne_zero_of_testBit {x j : Nat} (hj : x.testBit j = true) : Nat.beq x 0 = false := by
  apply Bool.eq_false_iff.mpr
  intro hzero
  rw [Nat.eq_of_beq_eq_true hzero, Nat.zero_testBit] at hj
  cases hj

/-- A set bit is found by halving. -/
theorem everyMark_sound {P : Nat → Bool} {depth i x j : Nat} (hb : 0 < b)
    (h : everyMark b P depth i x = true) (hin : j < b * 2 ^ depth) (hj : x.testBit j = true) :
    P (i + j / b) = true := by
  induction depth generalizing i x j with
  | zero =>
    rw [everyMark, ne_zero_of_testBit hj, cond_false] at h
    rw [Nat.div_eq_of_lt (by simpa using hin)]
    exact h
  | succ depth ih =>
    rw [everyMark, ne_zero_of_testBit hj, cond_false, Bool.and_eq_true] at h
    by_cases hlow : j < b * 2 ^ depth
    · have hkeep : (Nat.mod x (Nat.pow 2 (b * 2 ^ depth))).testBit j = true := by
        refine (Nat.testBit_mod_two_pow _ _ j).trans ?_
        rw [decide_eq_true hlow, hj]
        rfl
      exact ih h.1 hlow hkeep
    · obtain ⟨rest, rfl⟩ := Nat.exists_eq_add_of_le (Nat.le_of_not_lt hlow)
      have hrest : rest < b * 2 ^ depth := by
        rw [Nat.pow_succ, ← Nat.mul_assoc, Nat.mul_two] at hin
        omega
      have hbit := ih h.2 hrest ((Nat.testBit_shiftRight x).trans hj)
      rw [Nat.add_assoc] at hbit
      rwa [Nat.mul_add_div hb]

end Cells

section Words
variable {w : Nat} {f g : Nat → BitVec w}

theorem toNat_lt_cell (f : Nat → BitVec w) (i : Nat) : (f i).toNat < 2 ^ (2 * w) :=
  Nat.lt_of_lt_of_le (f i).isLt (Nat.pow_le_pow_right Nat.two_pos (by omega))

theorem row_congr (h : ∀ i, f i = g i) (n : Nat) : row f n = row g n := by
  rw [funext h]

theorem row_each (c : BitVec w) (n : Nat) :
    each (ones (2 * w) n) c.toNat = row (fun _ => c) n :=
  each_ones _ n

theorem zeros_row {k : Nat} (hk : k < 2 * w) (hf : ∀ i, (f i).toNat < 2 ^ k) {i n : Nat}
    (hi : i < n) (hzero : f i = 0) :
    (zeros (ones (2 * w) n) k (row f n)).testBit (2 * w * i + k) = true :=
  zeros_cells hk hf hi (by rw [hzero, BitVec.ofNat_eq_ofNat, BitVec.toNat_zero])

theorem row_one (x : BitVec w) : row (fun _ => x) 1 = x.toNat := by
  rw [row, cells, cells, Nat.mul_zero, Nat.pow_zero, Nat.one_mul, Nat.add_zero]

variable [NeZero w]

theorem cell_pos : 0 < 2 * w := Nat.mul_pos Nat.two_pos (NeZero.pos w)

theorem row_xor (n : Nat) :
    Nat.xor (row f n) (row g n) = row (fun i => f i ^^^ g i) n := by
  refine (cells_bitwise bne rfl cell_pos (toNat_lt_cell f) (toNat_lt_cell g) n).trans ?_
  exact cells_congr (fun i => (BitVec.toNat_xor _ _).symm) n

theorem row_lor (n : Nat) :
    row f n ||| row g n = row (fun i => f i ||| g i) n := by
  refine (cells_bitwise or rfl cell_pos (toNat_lt_cell f) (toNat_lt_cell g) n).trans ?_
  exact cells_congr (fun i => (BitVec.toNat_or _ _).symm) n

theorem row_low {k : Nat} (hk : k ≤ w) (n : Nat) :
    low (ones (2 * w) n) k (row f n) = row (fun i => f i &&& BitVec.ofNat w (2 ^ k - 1)) n := by
  refine (cells_low cell_pos (by omega) (toNat_lt_cell f) n).trans (cells_congr (fun i => ?_) n)
  have hmask : 2 ^ k - 1 < 2 ^ w := mask_lt hk
  rw [BitVec.toNat_and, BitVec.toNat_ofNat, Nat.mod_eq_of_lt hmask,
    Nat.and_two_pow_sub_one_eq_mod]

theorem row_mul (c : BitVec w) (n : Nat) :
    mul w (ones (2 * w) n) c.toNat (row f n) = row (fun i => f i * c) n := by
  have hprod (i : Nat) : (f i).toNat * c.toNat < 2 ^ (2 * w) := by
    rw [Nat.two_mul, Nat.pow_add]
    exact Nat.mul_lt_mul'' (f i).isLt c.isLt
  rw [mul_eq, row, cells_mul, cells_low cell_pos (by omega) hprod]
  exact cells_congr (fun i => (BitVec.toNat_mul _ _).symm) n

theorem row_shiftRight (s n : Nat) :
    shiftRight w (ones (2 * w) n) s (row f n) = row (fun i => f i >>> s) n := by
  refine (cells_shiftRight cell_pos (by omega) (fun i => (f i).isLt) s n).trans ?_
  exact cells_congr (fun i => (BitVec.toNat_ushiftRight _ _).symm) n

theorem row_rotateLeft {r : Nat} (hr : r < w) (n : Nat) :
    rotateLeft w (ones (2 * w) n) r (row f n) =
      row (fun i => (f i <<< r) ||| (f i >>> (w - r))) n := by
  have hpow : 2 ^ r = (BitVec.twoPow w r).toNat := by
    rw [BitVec.toNat_twoPow, Nat.mod_eq_of_lt (Nat.pow_lt_pow_right (by decide) hr)]
  rw [rotateLeft_eq, hpow, row_mul, row_shiftRight, row_lor]
  exact row_congr (fun i => by rw [BitVec.mul_twoPow_eq_shiftLeft]) n

theorem cell_row {i n : Nat} (hi : i < n) :
    cell (2 * w) (row f n) i = (f i).toNat :=
  cell_cells cell_pos (toNat_lt_cell f) hi

/-- A single word is a row too. -/
theorem mul_toNat (c x : BitVec w) : mul w 1 c.toNat x.toNat = (x * c).toNat := by
  have h := row_mul c 1 (f := fun _ => x)
  rwa [row_one, row_one] at h

theorem rotateLeft_toNat {r : Nat} (hr : r < w) (x : BitVec w) :
    rotateLeft w 1 r x.toNat = ((x <<< r) ||| (x >>> (w - r))).toNat := by
  have h := row_rotateLeft hr 1 (f := fun _ => x)
  rwa [row_one, row_one] at h

end Words

end EmergenceOS.Lib.WordRow
