/- Module: EmergenceOS/Vdev/ProbeRow
   digest: The candidates of many positions probed side by side. -/

import EmergenceOS.Lib.WordRow
import EmergenceOS.Vdev.EvaporateStream

/-!
That no candidate reproduces a byte takes 2048 probes to find out. Position i and its
neighbours go through them together, a row of contexts in one number.
-/

set_option autoImplicit false
set_option relaxedAutoImplicit false

namespace EmergenceOS.Vdev.ContextDrivenEngine

open EmergenceOS.Lib.Bytes EmergenceOS.Lib.WordRow

/-- What every candidate of position i has in its check. -/
def checkBase (shi slo : BitVec 64) (ctx : ContextAccumulator) (i : Nat) : BitVec 64 :=
  shi ^^^ slo ^^^ ((BitVec.ofNat 16 (i / 14)).setWidth 64 <<< 16) ^^^
    (BitVec.ofNat 8 (i % 14)).setWidth 64 ^^^ (BitVec.ofNat 64 i * 0x94D049BB133111EB) ^^^
    ctx.hi ^^^ (ctx.lo <<< 3)

/-- The check of the candidate that a probe names. -/
def checkWord (base hi lo : BitVec 64) : BitVec 64 :=
  let mix := base ^^^ (((lo &&& 0x3FF) * phiHi) ^^^ ((hi &&& 0x3F) * phiLo))
  let mix := mix ^^^ (mix >>> 33)
  let mix := mix * 0xC4CEB9FE1A85EC53
  (mix ^^^ (mix >>> 33)) &&& 0xFF

def checkRow (ones base h l : Nat) : Nat :=
  force (Nat.xor base (Nat.xor (mul 64 ones phiHi.toNat (low ones 10 l))
    (mul 64 ones phiLo.toNat (low ones 6 h)))) fun mix =>
  force (Nat.xor mix (shiftRight 64 ones 33 mix)) fun mix =>
  force (mul 64 ones (0xC4CEB9FE1A85EC53 : BitVec 64).toNat mix) fun mix =>
  low ones 8 (Nat.xor mix (shiftRight 64 ones 33 mix))

/-- All probes absorb the same byte. -/
def absorbRow (ones : Nat) (byte : Byte) (h l : Nat) (next : Nat → Nat → Bool) : Bool :=
  force (rotateLeft 64 ones 7 (Nat.xor h (each ones (byte.setWidth 64 * phiHi).toNat))) fun h =>
  force (rotateLeft 64 ones 11 (Nat.xor l (each ones (byte.setWidth 64 * phiLo).toNat))) fun l =>
  force (Nat.xor h (shiftRight 64 ones 32 l)) fun h =>
  force (Nat.xor l (shiftRight 64 ones 32 h)) fun l =>
  next h l

/-- The loop of noise_at on the numbers of its two words. -/
def noiseSteps : Nat → Nat → Nat → (Nat → Nat → Bool) → Bool
  | 0, sh, sl, next => next sh sl
  | left + 1, sh, sl, next =>
    force (Nat.xor (rotateLeft 64 1 13 sh) (mul 64 1 phiHi.toNat sl)) fun sh =>
    force (Nat.xor (rotateLeft 64 1 17 sl) (mul 64 1 phiLo.toNat sh)) fun sl =>
    noiseSteps left sh sl next

/-- The byte of the candidate that probe i of the row names is not that of the data. -/
def otherByte (shi slo : BitVec 64) (first bytes h l i : Nat) : Bool :=
  force (Nat.mod (cell (2 * 64) l i) 1024) fun slot =>
  force (Nat.mod (cell (2 * 64) h i) 64) fun basis =>
  force (Nat.mod (Nat.add first i) 14) fun bytePos =>
  noiseSteps (Nat.add (Nat.div (Nat.add first i) 14) 1)
    (Nat.xor (Nat.xor shi.toNat (mul 64 1 phiLo.toNat slot))
      (mul 64 1 (0xBF58476D1CE4E5B9 : BitVec 64).toNat basis))
    (Nat.xor (Nat.xor slo.toNat (mul 64 1 phiHi.toNat slot))
      (mul 64 1 (0x94D049BB133111EB : BitVec 64).toNat basis))
    fun sh sl =>
      !Nat.beq (cell (2 * 64) bytes i)
        (Nat.mod (if bytePos < 8 then Nat.shiftRight sl (Nat.mul 8 bytePos)
          else Nat.shiftRight sh (Nat.mul 8 (Nat.sub bytePos 8))) (Nat.pow 2 8))

/-- None of `left` candidates from number k on matches in any of 2 ^ depth positions. -/
def noneFrom (shi slo : BitVec 64) (first depth ones bytes base target : Nat) :
    Nat → Nat → Nat → Nat → Bool
  | 0, _, _, _ => true
  | left + 1, k, h, l =>
    force (zeros ones 8 (Nat.xor (checkRow ones base h l) target)) fun passing =>
      everyMark (2 * 64) (otherByte shi slo first bytes h l) depth 0 passing &&
        absorbRow ones (BitVec.ofNat 8 k) h l
          (noneFrom shi slo first depth ones bytes base target left (k + 1))

def noneReproduced (shi slo : BitVec 64) (data : Buffer) (first n : Nat) : Bool :=
  let ctx (i : Nat) := contextAt data (first + i)
  let base (i : Nat) := checkBase shi slo (ctx i) (first + i)
  let target (i : Nat) :=
    (positionCrc shi slo (ctx i) (BitVec.ofNat 64 (first + i))).setWidth 64
  force (Nat.log2 n + 1) fun depth =>
  force (ones (2 * 64) n) fun ones =>
  force (row (fun i => (data (first + i)).setWidth 64) n) fun bytes =>
  force (row base n) fun base =>
  force (row target n) fun target =>
  force (row (fun i => (ctx i).hi) n) fun h =>
  force (row (fun i => (ctx i).lo) n) fun l =>
  noneFrom shi slo first depth ones bytes base target candidates 0 h l

theorem slot_eq (p : ContextAccumulator) : p.slot 1024 = BitVec.ofNat 16 (p.lo.toNat % 1024) := by
  have hn : (1024 : BitVec 64).toNat = 1024 := rfl
  apply BitVec.eq_of_toNat_eq
  rw [ContextAccumulator.slot, BitVec.toNat_setWidth, BitVec.toNat_umod, hn, BitVec.toNat_ofNat]

theorem basis_eq (p : ContextAccumulator) : p.basis 64 = BitVec.ofNat 8 (p.hi.toNat % 64) := by
  have hn : (64 : BitVec 64).toNat = 64 := rfl
  apply BitVec.eq_of_toNat_eq
  rw [ContextAccumulator.basis, BitVec.toNat_setWidth, BitVec.toNat_umod, hn, BitVec.toNat_ofNat]

theorem toNat_remainder {v k : Nat} (hk : k ≤ v) (hv : v ≤ 64) (x : Nat) :
    ((BitVec.ofNat v (x % 2 ^ k)).setWidth 64).toNat = x % 2 ^ k := by
  have hlt : x % 2 ^ k < 2 ^ v :=
    Nat.lt_of_lt_of_le (Nat.mod_lt _ (Nat.two_pow_pos k)) (Nat.pow_le_pow_right Nat.two_pos hk)
  rw [BitVec.toNat_setWidth_of_le hv, BitVec.toNat_ofNat, Nat.mod_eq_of_lt hlt]

theorem setWidth_remainder {v k : Nat} (hk : k ≤ v) (hv : v ≤ 64) (x : BitVec 64) :
    (BitVec.ofNat v (x.toNat % 2 ^ k)).setWidth 64 = x &&& BitVec.ofNat 64 (2 ^ k - 1) := by
  apply BitVec.eq_of_toNat_eq
  rw [toNat_remainder hk hv, BitVec.toNat_and, BitVec.toNat_ofNat,
    Nat.mod_eq_of_lt (mask_lt (by omega)), Nat.and_two_pow_sub_one_eq_mod]

theorem xor_last_two {w : Nat} (s t a b c d e x y : BitVec w) :
    s ^^^ t ^^^ a ^^^ b ^^^ c ^^^ d ^^^ e ^^^ x ^^^ y =
      s ^^^ t ^^^ c ^^^ d ^^^ e ^^^ x ^^^ y ^^^ (a ^^^ b) := by
  have hswap (p r : BitVec w) : p ^^^ (a ^^^ b) ^^^ r = p ^^^ r ^^^ (a ^^^ b) := by
    rw [BitVec.xor_assoc, BitVec.xor_comm (a ^^^ b), BitVec.xor_assoc]
  rw [BitVec.xor_assoc (s ^^^ t) a b]
  simp only [hswap]

theorem candidateCrc_eq (shi slo : BitVec 64) (ctx p : ContextAccumulator) (i : Nat) :
    candidateCrc shi slo (p.slot 1024) (p.basis 64) (BitVec.ofNat 16 (i / 14))
        (BitVec.ofNat 8 (i % 14)) (BitVec.ofNat 64 i) ctx.hi ctx.lo =
      (checkWord (checkBase shi slo ctx i) p.hi p.lo).setWidth 8 := by
  have hmix : shi ^^^ slo ^^^ ((p.slot 1024).setWidth 64 * phiHi) ^^^
      ((p.basis 64).setWidth 64 * phiLo) ^^^ ((BitVec.ofNat 16 (i / 14)).setWidth 64 <<< 16) ^^^
      (BitVec.ofNat 8 (i % 14)).setWidth 64 ^^^ (BitVec.ofNat 64 i * 0x94D049BB133111EB) ^^^
      ctx.hi ^^^ (ctx.lo <<< 3) =
      checkBase shi slo ctx i ^^^ (((p.lo &&& 0x3FF) * phiHi) ^^^ ((p.hi &&& 0x3F) * phiLo)) := by
    have hslot : (p.slot 1024).setWidth 64 = p.lo &&& 0x3FF := by
      rw [slot_eq]
      exact setWidth_remainder (k := 10) (by decide) (by decide) p.lo
    have hbasis : (p.basis 64).setWidth 64 = p.hi &&& 0x3F := by
      rw [basis_eq]
      exact setWidth_remainder (k := 6) (by decide) (by decide) p.hi
    rw [hslot, hbasis]
    exact xor_last_two _ _ _ _ _ _ _ _ _
  simp only [candidateCrc, checkWord, hmix]

theorem checkRow_eq (base hi lo : Nat → BitVec 64) (n : Nat) :
    checkRow (ones (2 * 64) n) (row base n) (row hi n) (row lo n) =
      row (fun i => checkWord (base i) (hi i) (lo i)) n := by
  simp only [checkRow, force_eq]
  rw [row_low (by decide), row_low (by decide), row_mul, row_mul, row_xor, row_xor,
    row_shiftRight, row_xor, row_mul, row_shiftRight, row_xor, row_low (by decide)]
  rfl

theorem absorbRow_eq (p : Nat → ContextAccumulator) (byte : Byte) (n : Nat)
    (next : Nat → Nat → Bool) :
    absorbRow (ones (2 * 64) n) byte (row (fun i => (p i).hi) n) (row (fun i => (p i).lo) n)
        next =
      next (row (fun i => ((p i).absorb byte).hi) n) (row (fun i => ((p i).absorb byte).lo) n) := by
  simp only [absorbRow, force_eq]
  rw [row_each, row_each, row_xor, row_xor, row_rotateLeft (by decide),
    row_rotateLeft (by decide), row_shiftRight, row_xor, row_shiftRight, row_xor]
  rfl

theorem noiseSteps_eq (left : Nat) (s : BitVec 64 × BitVec 64) (next : Nat → Nat → Bool) :
    noiseSteps left s.1.toNat s.2.toNat next =
      next (noiseStep^[left] s).1.toNat (noiseStep^[left] s).2.toNat := by
  induction left generalizing s with
  | zero => rfl
  | succ left ih =>
    have hsh : Nat.xor (rotateLeft 64 1 13 s.1.toNat) (mul 64 1 phiHi.toNat s.2.toNat) =
        (noiseStep s).1.toNat := by
      rw [rotateLeft_toNat (by decide), mul_toNat]
      exact (BitVec.toNat_xor _ _).symm
    have hsl : Nat.xor (rotateLeft 64 1 17 s.2.toNat)
        (mul 64 1 phiLo.toNat (noiseStep s).1.toNat) = (noiseStep s).2.toNat := by
      rw [rotateLeft_toNat (by decide), mul_toNat]
      exact (BitVec.toNat_xor _ _).symm
    rw [noiseSteps, force_eq, force_eq, hsh, hsl, ih, Function.iterate_succ_apply]

theorem byteAt_toNat {w : Nat} (x : BitVec w) (k : Nat) :
    (byteAt x k).toNat = (x.toNat >>> (8 * k)) % 2 ^ 8 := by
  rw [byteAt, BitVec.toNat_setWidth, BitVec.toNat_ushiftRight]

/-- One word of the seed with the slot and the basis in it, on numbers. -/
theorem seeded_toNat (seed c d : BitVec 64) (p : ContextAccumulator) :
    Nat.xor (Nat.xor seed.toNat (mul 64 1 c.toNat (Nat.mod p.lo.toNat 1024)))
        (mul 64 1 d.toNat (Nat.mod p.hi.toNat 64)) =
      (seed ^^^ ((p.slot 1024).setWidth 64 * c) ^^^ ((p.basis 64).setWidth 64 * d)).toNat := by
  have hslot : Nat.mod p.lo.toNat 1024 = ((p.slot 1024).setWidth 64).toNat := by
    rw [slot_eq]
    exact (toNat_remainder (k := 10) (by decide) (by decide) _).symm
  have hbasis : Nat.mod p.hi.toNat 64 = ((p.basis 64).setWidth 64).toNat := by
    rw [basis_eq]
    exact (toNat_remainder (k := 6) (by decide) (by decide) _).symm
  rw [hslot, hbasis, mul_toNat, mul_toNat, BitVec.toNat_xor, BitVec.toNat_xor]
  rfl

theorem otherByte_eq (shi slo : BitVec 64) (data : Buffer) (first : Nat)
    (p : Nat → ContextAccumulator) {i n : Nat} (hi : i < n) (hend : first + i < endless) :
    otherByte shi slo first (row (fun i => (data (first + i)).setWidth 64) n)
        (row (fun i => (p i).hi) n) (row (fun i => (p i).lo) n) i =
      !Nat.beq (data (first + i)).toNat
        (noiseByte shi slo ((p i).slot 1024) ((p i).basis 64)
          (BitVec.ofNat 16 ((first + i) / 14)) (BitVec.ofNat 8 ((first + i) % 14))).toNat := by
  have hentry : (BitVec.ofNat 16 ((first + i) / 14)).toNat = (first + i) / 14 := by
    have hlt : (first + i) / 14 < 0xFFFF := Nat.div_lt_of_lt_mul hend
    rw [BitVec.toNat_ofNat]
    omega
  have hpos : (BitVec.ofNat 8 ((first + i) % 14)).toNat = (first + i) % 14 := by
    rw [BitVec.toNat_ofNat]
    omega
  simp only [otherByte, force_eq]
  rw [cell_row hi, cell_row hi, cell_row hi, seeded_toNat, seeded_toNat]
  refine (noiseSteps_eq _ (_, _) _).trans ?_
  rw [noiseByte, hentry, BitVec.toNat_setWidth_of_le (by decide)]
  refine congrArg (fun byte => !Nat.beq (data (first + i)).toNat byte) ?_
  have hlow : BitVec.ofNat 8 ((first + i) % 14) < 8 ↔ Nat.mod (Nat.add first i) 14 < 8 := by
    rw [BitVec.lt_def, hpos]
    exact Iff.rfl
  simp only [hlow, hpos]
  split
  · exact (byteAt_toNat _ _).symm
  · exact (byteAt_toNat _ _).symm

theorem checkWord_lt (base hi lo : BitVec 64) : (checkWord base hi lo).toNat < 2 ^ 8 :=
  Nat.and_lt_two_pow _ (by decide)

/-- Zero where candidate k of the position passes the check. -/
def checkAt (shi slo : BitVec 64) (data : Buffer) (first k i : Nat) : BitVec 64 :=
  let ctx := contextAt data (first + i)
  checkWord (checkBase shi slo ctx (first + i)) (probeAt ctx k).hi (probeAt ctx k).lo ^^^
    (positionCrc shi slo ctx (BitVec.ofNat 64 (first + i))).setWidth 64

theorem checkAt_lt (shi slo : BitVec 64) (data : Buffer) (first k i : Nat) :
    (checkAt shi slo data first k i).toNat < 2 ^ 8 := by
  rw [checkAt, BitVec.toNat_xor, BitVec.toNat_setWidth_of_le (by decide)]
  exact Nat.xor_lt_two_pow (checkWord_lt _ _ _) (BitVec.isLt _)

theorem eq_setWidth_of_setWidth_eq {x : BitVec 64} {y : Byte} (hx : x.toNat < 2 ^ 8)
    (h : x.setWidth 8 = y) : x = y.setWidth 64 := by
  apply BitVec.eq_of_toNat_eq
  rw [BitVec.toNat_setWidth_of_le (by decide), ← h, BitVec.toNat_setWidth, Nat.mod_eq_of_lt hx]

theorem checkAt_eq_zero {shi slo : BitVec 64} {data : Buffer} {first k i : Nat}
    (hend : first + i < endless)
    (h : Candidate shi slo (contextAt data (first + i)) (first + i) k (data (first + i))) :
    checkAt shi slo data first k i = 0 := by
  rw [candidate_iff hend, candidateCrc_eq] at h
  rw [checkAt, eq_setWidth_of_setWidth_eq (checkWord_lt _ _ _) h.2, BitVec.xor_self]
  rfl

/-- A probe whose check passes leaves a mark, and then its byte is looked at. -/
theorem noneFrom_sound (shi slo : BitVec 64) (data : Buffer) {first n : Nat}
    (hend : first + n ≤ endless) (left k : Nat)
    (h : noneFrom shi slo first (Nat.log2 n + 1) (ones (2 * 64) n)
      (row (fun i => (data (first + i)).setWidth 64) n)
      (row (fun i => checkBase shi slo (contextAt data (first + i)) (first + i)) n)
      (row (fun i => (positionCrc shi slo (contextAt data (first + i))
        (BitVec.ofNat 64 (first + i))).setWidth 64) n) left k
      (row (fun i => (probeAt (contextAt data (first + i)) k).hi) n)
      (row (fun i => (probeAt (contextAt data (first + i)) k).lo) n) = true)
    {i : Nat} (hi : i < n) {j : Nat} (hkj : k ≤ j) (hj : j < k + left) :
    ¬Candidate shi slo (contextAt data (first + i)) (first + i) j (data (first + i)) := by
  induction left generalizing k with
  | zero => omega
  | succ left ih =>
    have hnext := absorbRow_eq (fun i => probeAt (contextAt data (first + i)) k)
      (BitVec.ofNat 8 k) n
    rw [noneFrom, force_eq, Bool.and_eq_true, checkRow_eq, row_xor, hnext] at h
    obtain ⟨hmarks, hrest⟩ := h
    rcases Nat.eq_or_lt_of_le hkj with rfl | hlt
    · intro hcand
      have hmark := zeros_row (by decide) (checkAt_lt shi slo data first k) hi
        (checkAt_eq_zero (by omega) hcand)
      have hlog : n < 2 ^ (Nat.log2 n + 1) := Nat.lt_log2_self
      have hother := everyMark_sound (by decide) hmarks (by omega) hmark
      rw [Nat.mul_add_div (by decide), Nat.div_eq_of_lt (by decide), Nat.add_zero, Nat.zero_add,
        otherByte_eq shi slo data first _ hi (by omega)] at hother
      rw [candidate_iff (by omega)] at hcand
      rw [hcand.1, Nat.beq_refl] at hother
      cases hother
    · exact ih (k + 1) hrest (by omega) (by omega)

/-- The check may be run on a copy of the bytes up to the one asked for. -/
theorem noneReproduced_sound {shi slo : BitVec 64} {data other : Buffer} {first n : Nat}
    (hend : first + n ≤ endless) (h : noneReproduced shi slo data first n = true) {i : Nat}
    (hi : i < n) (hsame : ∀ j ≤ first + i, other j = data j) :
    ¬Reproduced shi slo other (first + i) := by
  rw [reproduced_congr hsame]
  rintro ⟨j, hj, hcand⟩
  simp only [noneReproduced, force_eq] at h
  exact noneFrom_sound shi slo data hend candidates 0 h hi (Nat.zero_le j) (by omega) hcand

theorem heads_congr {x y : Buffer} {first n : Nat} (h : ∀ i < first + (n + 1), x i = y i) :
    heads x first n = heads y first n := by
  rw [heads, heads, h first (by omega)]
  refine congrArg _ (List.map_congr_left fun i hi => ?_)
  obtain ⟨-, hlt⟩ := List.mem_range'_1.mp hi
  rw [h i (by omega)]

theorem length_heads (data : Buffer) (first n : Nat) : (heads data first n).length = n + 1 := by
  rw [heads, List.length_cons, List.length_map, List.length_range']

/-- A stream whose first bytes were checked on a copy of them. -/
theorem corrections_of_noneReproduced {shi slo : BitVec 64} {data other : Buffer}
    {first n len : Nat} (hend : first + (n + 1) ≤ endless)
    (h : noneReproduced shi slo data first (n + 1) = true)
    (hrep : ∀ i < first, Reproduced shi slo data i)
    (hsame : ∀ i < first + (n + 1), other i = data i) (hlen : first + (n + 1) ≤ len) :
    heads data first n <+: corrections shi slo other len := by
  rw [← heads_congr hsame]
  refine corrections_heads (fun i hi => ?_) (fun i hi => ?_) hlen
  · exact (reproduced_congr fun j hj => hsame j (by omega)).mpr (hrep i hi)
  · exact noneReproduced_sound hend h hi fun j hj => hsame j (by omega)

/-- A stream that begins with as many records as it has. -/
theorem corrections_eq_heads {shi slo : BitVec 64} {x data : Buffer} {first n len : Nat}
    (hheads : heads x first n <+: corrections shi slo data len)
    (hmissed : missed shi slo data len ≤ n + 1) :
    corrections shi slo data len = heads x first n := by
  refine (hheads.eq_of_length_le ?_).symm
  rwa [length_heads, length_corrections]

end EmergenceOS.Vdev.ContextDrivenEngine
