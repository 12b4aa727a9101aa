/- Module: EmergenceOS/Lib/Bytes
   digest: Byte order of fixed-width words and bounded copies between byte buffers. -/

import Mathlib.Algebra.Group.Nat.Defs
import Mathlib.Logic.Function.Basic
import Mathlib.Tactic.Common

set_option autoImplicit false
set_option relaxedAutoImplicit false

namespace EmergenceOS.Lib.Bytes

abbrev Byte := BitVec 8

/-- Byte i of a word, counted from the least significant end. -/
def byteAt {n : Nat} (w : BitVec n) (i : Nat) : Byte := (w >>> (8 * i)).setWidth 8

/-- The word whose m low bytes are b 0, ..., b (m - 1); all higher bits are clear. -/
def ofBytes (n : Nat) (b : Nat → Byte) : Nat → BitVec n
  | 0 => 0
  | m + 1 => ofBytes n b m ||| ((b m).setWidth n <<< (8 * m))

theorem byteAt_getLsbD {n : Nat} (w : BitVec n) (i k : Nat) :
    (byteAt w i).getLsbD k = (decide (k < 8) && w.getLsbD (8 * i + k)) := by
  simp [byteAt]

theorem ofBytes_getLsbD (n : Nat) (b : Nat → Byte) (m k : Nat) :
    (ofBytes n b m).getLsbD k =
      (decide (k < n) && decide (k < 8 * m) && (b (k / 8)).getLsbD (k % 8)) := by
  induction m with
  | zero => simp [ofBytes]
  | succ m ih =>
    simp only [ofBytes, BitVec.getLsbD_or, ih, BitVec.getLsbD_shiftLeft, BitVec.getLsbD_setWidth]
    by_cases hn : k < n
    · by_cases hlo : k < 8 * m
      · simp [hn, hlo, show k < 8 * (m + 1) by omega]
      · by_cases hhi : k < 8 * (m + 1)
        · have hdiv : k / 8 = m := by omega
          have hmod : k % 8 = k - 8 * m := by omega
          simp [hn, hlo, hhi, hdiv, hmod, show k - 8 * m < n by omega]
        · have hzero : (b m).getLsbD (k - 8 * m) = false :=
            BitVec.getLsbD_of_ge _ _ (by omega)
          simp [hlo, hhi, hzero]
    · simp [hn]

theorem ofBytes_congr (n : Nat) {b c : Nat → Byte} (m : Nat) (h : ∀ i < m, b i = c i) :
    ofBytes n b m = ofBytes n c m := by
  induction m with
  | zero => rfl
  | succ m ih =>
    simp only [ofBytes, ih fun i hi => h i (by omega), h m (by omega)]

/-- Bytes that were assembled come back; the bytes above them are zero. -/
theorem byteAt_ofBytes {n m : Nat} (b : Nat → Byte) (hm : 8 * m ≤ n) (i : Nat) :
    byteAt (ofBytes n b m) i = if i < m then b i else 0 := by
  apply BitVec.eq_of_getLsbD_eq
  intro k hk
  rw [byteAt_getLsbD, ofBytes_getLsbD]
  have hdiv : (8 * i + k) / 8 = i := by omega
  have hmod : (8 * i + k) % 8 = k := by omega
  rw [hdiv, hmod]
  split
  · rename_i hi
    simp [hk, show 8 * i + k < n by omega, show 8 * i + k < 8 * m by omega]
  · rename_i hi
    simp [show ¬8 * i + k < 8 * m by omega]

theorem ofBytes_eq_zero_iff {n m : Nat} (b : Nat → Byte) (hm : 8 * m ≤ n) :
    ofBytes n b m = 0 ↔ ∀ i < m, b i = 0 := by
  constructor
  · intro h i hi
    have hbyte := byteAt_ofBytes b hm i
    rw [h, if_pos hi] at hbyte
    rw [← hbyte]
    simp [byteAt]
  · intro h
    rw [ofBytes_congr n m (c := fun _ => 0) h]
    apply BitVec.eq_of_getLsbD_eq
    intro k _
    simp [ofBytes_getLsbD]

/-- A word is the assembly of its own bytes. -/
theorem ofBytes_byteAt {n m : Nat} (w : BitVec n) (hm : n = 8 * m) :
    ofBytes n (byteAt w) m = w := by
  apply BitVec.eq_of_getLsbD_eq
  intro k hk
  rw [ofBytes_getLsbD, byteAt_getLsbD]
  have hsplit : 8 * (k / 8) + k % 8 = k := by omega
  simp [hsplit, hk, show k < 8 * m by omega, show k % 8 < 8 by omega]

/-- The constant with the n low bits set. -/
theorem getLsbD_lowMask {w n : Nat} (hn : n ≤ w) (i : Nat) :
    (BitVec.ofNat w (2 ^ n - 1)).getLsbD i = decide (i < n) := by
  rw [BitVec.getLsbD_ofNat, Nat.testBit_two_pow_sub_one]
  by_cases hi : i < n
  · simp [hi, show i < w by omega]
  · simp [hi]

/-- Clearing the k low bits rounds down to a multiple of 2 ^ k. -/
theorem toNat_and_not_mask {n : Nat} (x : BitVec n) (k : Nat) :
    (x &&& ~~~BitVec.ofNat n (2 ^ k - 1)).toNat = x.toNat / 2 ^ k * 2 ^ k := by
  have hshift : x &&& ~~~BitVec.ofNat n (2 ^ k - 1) = x >>> k <<< k := by
    apply BitVec.eq_of_getLsbD_eq
    intro i hi
    rw [BitVec.getLsbD_and, BitVec.getLsbD_not, BitVec.getLsbD_ofNat, Nat.testBit_two_pow_sub_one,
      BitVec.getLsbD_shiftLeft, BitVec.getLsbD_ushiftRight]
    by_cases hlow : i < k
    · simp [hi, hlow]
    · simp [hi, hlow, show k + (i - k) = i by omega]
  rw [hshift, BitVec.toNat_shiftLeft, BitVec.toNat_ushiftRight, Nat.shiftLeft_eq,
    Nat.shiftRight_eq_div_pow]
  exact Nat.mod_eq_of_lt (Nat.lt_of_le_of_lt (Nat.div_mul_le_self _ _) x.isLt)

/-- Memory as a program sees it through one base pointer. -/
abbrev Buffer := Nat → Byte

/-- The n bytes of src from s on replace those of dest from d on. -/
def blit (dest : Buffer) (d : Nat) (src : Buffer) (s n : Nat) : Buffer :=
  fun i => if d ≤ i ∧ i < d + n then src (s + (i - d)) else dest i

theorem blit_inside (dest src : Buffer) {d s n i : Nat} (hd : d ≤ i) (hn : i < d + n) :
    blit dest d src s n i = src (s + (i - d)) := by
  simp [blit, hd, hn]

theorem blit_outside (dest src : Buffer) {d s n i : Nat} (h : i < d ∨ d + n ≤ i) :
    blit dest d src s n i = dest i := by
  have : ¬(d ≤ i ∧ i < d + n) := by omega
  simp [blit, this]

@[simp] theorem blit_zero (dest src : Buffer) (d s : Nat) : blit dest d src s 0 = dest := by
  funext i
  exact blit_outside dest src (by omega)

/-- Two copies that continue one another are one copy. -/
theorem blit_blit (dest src : Buffer) (d s m n : Nat) :
    blit (blit dest d src s m) (d + m) src (s + m) n = blit dest d src s (m + n) := by
  funext i
  unfold blit
  by_cases hlo : d + m ≤ i
  · have hindex : s + m + (i - (d + m)) = s + (i - d) := by omega
    by_cases hhi : i < d + m + n
    · simp [hlo, hhi, hindex, show d ≤ i by omega, show i < d + (m + n) by omega]
    · simp [hhi, show ¬i < d + (m + n) by omega, show ¬i < d + m by omega]
  · simp only [hlo, false_and, if_false]
    by_cases hd : d ≤ i <;> simp [hd, show i < d + m ↔ i < d + (m + n) by omega]

/-- Copies to places apart may change their order. -/
theorem blit_comm (dest src src' : Buffer) {d d' n n' : Nat} (s s' : Nat)
    (h : d + n ≤ d' ∨ d' + n' ≤ d) :
    blit (blit dest d src s n) d' src' s' n' = blit (blit dest d' src' s' n') d src s n := by
  funext i
  unfold blit
  by_cases hin : d ≤ i ∧ i < d + n
  · have hout : ¬(d' ≤ i ∧ i < d' + n') := by omega
    simp only [if_pos hin, if_neg hout]
  · simp only [if_neg hin]

theorem blit_congr (dest : Buffer) {src src' : Buffer} (d : Nat) {s s' n : Nat}
    (h : ∀ k < n, src (s + k) = src' (s' + k)) :
    blit dest d src s n = blit dest d src' s' n := by
  funext i
  unfold blit
  split
  · rename_i hi
    exact h (i - d) (by omega)
  · rfl

/-- The n bytes from o on, as a list. -/
def slice (data : Buffer) (o n : Nat) : List Byte := (List.range n).map fun i => data (o + i)

@[simp] theorem length_slice (data : Buffer) (o n : Nat) : (slice data o n).length = n := by
  simp [slice]

@[simp] theorem slice_zero (data : Buffer) (o : Nat) : slice data o 0 = [] := rfl

theorem slice_add (data : Buffer) (o m n : Nat) :
    slice data o (m + n) = slice data o m ++ slice data (o + m) n := by
  simp [slice, List.range_add, Nat.add_assoc]

/-- What follows a prefix extends it. -/
theorem slice_prefix_append (data : Buffer) (m n : Nat) :
    slice data 0 m ++ slice data m n = slice data 0 (m + n) := by
  rw [slice_add, Nat.zero_add]

theorem slice_succ (data : Buffer) (o n : Nat) :
    slice data o (n + 1) = slice data o n ++ [data (o + n)] := by
  rw [slice_add]
  rfl

theorem slice_congr {data data' : Buffer} {o o' n : Nat}
    (h : ∀ i < n, data (o + i) = data' (o' + i)) : slice data o n = slice data' o' n :=
  List.map_congr_left fun i hi => h i (List.mem_range.mp hi)

theorem slice_update (data : Buffer) (n : Nat) (c : Byte) :
    slice (Function.update data n c) 0 n = slice data 0 n := by
  apply slice_congr
  intro i hi
  rw [Function.update_of_ne (by omega)]

theorem getElem?_slice (data : Buffer) (o n k : Nat) :
    (slice data o n)[k]? = if k < n then some (data (o + k)) else none := by
  by_cases hk : k < n <;> simp [slice, hk]

theorem getD_slice (data : Buffer) (o : Nat) {n i : Nat} (hi : i < n) :
    (slice data o n).getD i 0 = data (o + i) := by
  simp [slice, hi]

/-- A copy to the end of a slice extends it. -/
theorem slice_blit (dest src : Buffer) (d s n : Nat) :
    slice (blit dest d src s n) 0 (d + n) = slice dest 0 d ++ slice src s n := by
  rw [slice_add, Nat.zero_add]
  congr 1
  · exact slice_congr fun i hi => blit_outside _ _ (by omega)
  · refine slice_congr fun i hi => ?_
    rw [blit_inside _ _ (by omega) (by omega)]
    congr 1
    omega

/-- Records of w bytes each, laid out one after another from the start of the buffer. -/
def writeRecords (w : Nat) (rec : Nat → Buffer) (buf : Buffer) : Nat → Buffer
  | 0 => buf
  | n + 1 => blit (writeRecords w rec buf n) (w * n) (rec n) 0 w

theorem writeRecords_apply {w : Nat} (hw : 0 < w) (rec : Nat → Buffer) (buf : Buffer)
    (n k : Nat) : writeRecords w rec buf n k =
      if k < w * n then rec (k / w) (k % w) else buf k := by
  induction n with
  | zero => simp [writeRecords]
  | succ n ih =>
    rw [writeRecords, Nat.mul_succ]
    by_cases hlo : k < w * n
    · rw [blit_outside _ _ (Or.inl hlo), ih, if_pos hlo, if_pos (by omega)]
    · by_cases hhi : k < w * n + w
      · have hdiv : k / w = n := by
          rw [Nat.div_eq_iff hw, Nat.mul_comm n w]
          omega
        have hmod : k % w = k - w * n := by
          have := Nat.div_add_mod k w
          rw [hdiv] at this
          omega
        rw [blit_inside _ _ (by omega) hhi, if_pos hhi, hdiv, hmod, Nat.zero_add]
      · rw [blit_outside _ _ (Or.inr (by omega)), ih, if_neg hlo, if_neg hhi]

end EmergenceOS.Lib.Bytes
