/- Module: EmergenceOS/Lib/Fips180
   digest: SHA-256 as FIPS 180-4 states it, for messages of whole bytes. -/

import EmergenceOS.Lib.BlockHash
import EmergenceOS.Lib.Bytes
import Mathlib.Analysis.SpecialFunctions.Pow.NthRootLemmas
import Mathlib.Data.Fin.VecNotation
import Mathlib.Data.Nat.Prime.Basic

/-!
The constants are not tabulated: they are the first 32 bits of the fractional
parts of square and cube roots of primes, taken as integer roots.
-/

set_option autoImplicit false
set_option relaxedAutoImplicit false

namespace EmergenceOS.Lib.Fips180

open EmergenceOS.Lib.Bytes EmergenceOS.Lib.BlockHash

abbrev Word := BitVec 32

/-- A hash value has words, so its indices are written as numerals. -/
instance neZeroWords : NeZero 8 := ⟨by decide⟩

def Ch (x y z : Word) : Word := (x &&& y) ^^^ (~~~x &&& z)
def Maj (x y z : Word) : Word := (x &&& y) ^^^ (x &&& z) ^^^ (y &&& z)
def bigSigma0 (x : Word) : Word := x.rotateRight 2 ^^^ x.rotateRight 13 ^^^ x.rotateRight 22
def bigSigma1 (x : Word) : Word := x.rotateRight 6 ^^^ x.rotateRight 11 ^^^ x.rotateRight 25
def smallSigma0 (x : Word) : Word := x.rotateRight 7 ^^^ x.rotateRight 18 ^^^ x >>> 3
def smallSigma1 (x : Word) : Word := x.rotateRight 17 ^^^ x.rotateRight 19 ^^^ x >>> 10

/-- The first 64 primes: those below 312. -/
def primes : List Nat := (List.range 312).filter fun n => decide n.Prime

/-- The first 32 bits of the fractional part of the k-th root of p. -/
def rootFraction (k p : Nat) : Word := BitVec.ofNat 32 (Nat.nthRoot k (p * 2 ^ (32 * k)))

def K (t : Nat) : Word := rootFraction 3 (primes.getD t 0)

/-- The initial hash value. -/
def H0 (i : Fin 8) : Word := rootFraction 2 (primes.getD i.val 0)

/-- Four bytes, the most significant one first. -/
def wordOf (b0 b1 b2 b3 : Byte) : Word := b0 ++ b1 ++ b2 ++ b3

/-- The words of a message block of 64 bytes. -/
def blockWord (block : List Byte) (t : Nat) : Word :=
  wordOf (block.getD (4 * t) 0) (block.getD (4 * t + 1) 0) (block.getD (4 * t + 2) 0)
    (block.getD (4 * t + 3) 0)

/-- The message schedule. -/
def W (block : List Byte) (t : Nat) : Word :=
  if t < 16 then blockWord block t
  else smallSigma1 (W block (t - 2)) + W block (t - 7) + smallSigma0 (W block (t - 15)) +
    W block (t - 16)
termination_by t

structure Working where
  a : Word
  b : Word
  c : Word
  d : Word
  e : Word
  f : Word
  g : Word
  h : Word

def round (k w : Word) (v : Working) : Working :=
  let t1 := v.h + bigSigma1 v.e + Ch v.e v.f v.g + k + w
  let t2 := bigSigma0 v.a + Maj v.a v.b v.c
  ⟨t1 + t2, v.a, v.b, v.c, v.d + t1, v.e, v.f, v.g⟩

def rounds (block : List Byte) : Nat → Working → Working
  | 0, v => v
  | t + 1, v => round (K t) (W block t) (rounds block t v)

/-- The hash value after one more message block. -/
def compress (H : Fin 8 → Word) (block : List Byte) : Fin 8 → Word :=
  let v := rounds block 64 ⟨H 0, H 1, H 2, H 3, H 4, H 5, H 6, H 7⟩
  ![v.a + H 0, v.b + H 1, v.c + H 2, v.d + H 3, v.e + H 4, v.f + H 5, v.g + H 6, v.h + H 7]

/-- Zero bytes between the bit 1 and the length. -/
def zeroBytes (n : Nat) : Nat := (119 - n % 64) % 64

/-- The bytes of a word, the most significant one first. -/
def bigEndian {n : Nat} (bytes : Nat) (w : BitVec n) : List Byte :=
  (List.range bytes).map fun i => byteAt w (bytes - 1 - i)

/-- A message the standard gives a hash value: fewer than 2^64 bits. -/
structure Message where
  bytes : List Byte
  short : bytes.length < 2 ^ 61

def pad (m : Message) : List Byte :=
  m.bytes ++ 0x80 :: List.replicate (zeroBytes m.bytes.length) 0 ++
    bigEndian 8 (BitVec.ofNat 64 (8 * m.bytes.length))

def sha256 (m : Message) : List Byte :=
  let H := fullBlocks 64 compress H0 (pad m)
  (List.finRange 8).flatMap fun i => bigEndian 4 (H i)

theorem pad_length (m : Message) : (pad m).length % 64 = 0 := by
  simp only [pad, bigEndian, zeroBytes, List.length_append, List.length_cons,
    List.length_replicate, List.length_map, List.length_range]
  omega

/-- With some integer part below 18 in front of it, w is the k-th root of p to 32 bits. -/
def IsRootFraction (k p : Nat) (w : Word) : Prop :=
  ∃ q < 18, (q * 2 ^ 32 + w.toNat) ^ k ≤ p * 2 ^ (32 * k) ∧
    p * 2 ^ (32 * k) < (q * 2 ^ 32 + w.toNat + 1) ^ k

instance (k p : Nat) (w : Word) : Decidable (IsRootFraction k p w) :=
  inferInstanceAs (Decidable (∃ q < 18, _ ∧ _))

theorem rootFraction_eq {k p : Nat} {w : Word} (hk : k ≠ 0) (h : IsRootFraction k p w) :
    rootFraction k p = w := by
  obtain ⟨q, -, hlo, hhi⟩ := h
  have hle := (Nat.le_nthRoot_iff hk).mpr hlo
  have hlt : ¬q * 2 ^ 32 + w.toNat + 1 ≤ Nat.nthRoot k (p * 2 ^ (32 * k)) := by
    rw [Nat.le_nthRoot_iff hk]
    omega
  have hroot : Nat.nthRoot k (p * 2 ^ (32 * k)) = q * 2 ^ 32 + w.toNat := by omega
  have := w.isLt
  apply BitVec.eq_of_toNat_eq
  rw [rootFraction, hroot, BitVec.toNat_ofNat]
  omega

private theorem prime_iff {n : Nat} (hn : n < 312) :
    n.Prime ↔ 2 ≤ n ∧ ∀ m < 18, 2 ≤ m → m < n → ¬m ∣ n := by
  constructor
  · intro h
    obtain ⟨h2, hdiv⟩ := Nat.prime_def_lt'.mp h
    exact ⟨h2, fun m _ hm hlt => hdiv m hm hlt⟩
  · rintro ⟨h2, hdiv⟩
    refine Nat.prime_def_le_sqrt.mpr ⟨h2, fun m hm hsqrt => ?_⟩
    have h18 : n.sqrt < 18 := Nat.sqrt_lt.mpr (by omega)
    have hlt : n.sqrt < n := Nat.sqrt_lt_self (by omega)
    exact hdiv m (by omega) hm (by omega)

theorem primes_eq : primes = [2, 3, 5, 7, 11, 13, 17, 19, 23, 29, 31, 37, 41, 43, 47, 53, 59,
    61, 67, 71, 73, 79, 83, 89, 97, 101, 103, 107, 109, 113, 127, 131, 137, 139, 149, 151, 157,
    163, 167, 173, 179, 181, 191, 193, 197, 199, 211, 223, 227, 229, 233, 239, 241, 251, 257,
    263, 269, 271, 277, 281, 283, 293, 307, 311] := by
  have hcheck : primes =
      (List.range 312).filter fun n => decide (2 ≤ n ∧ ∀ m < 18, 2 ≤ m → m < n → ¬m ∣ n) := by
    apply List.filter_congr
    intro n hn
    simp only [decide_eq_decide]
    exact prime_iff (List.mem_range.mp hn)
  rw [hcheck]
  decide +kernel

/-- A word put together with shifts, as programs do it. -/
theorem wordOf_eq_shifts (b0 b1 b2 b3 : Byte) : wordOf b0 b1 b2 b3 =
    (b0.setWidth 32 <<< 24) ||| (b1.setWidth 32 <<< 16) ||| (b2.setWidth 32 <<< 8) |||
      b3.setWidth 32 := by
  apply BitVec.eq_of_getLsbD_eq
  intro i hi
  have hzero (b : Byte) {n : Nat} (hn : 8 ≤ n) : b.getLsbD n = false := BitVec.getLsbD_of_ge b n hn
  simp only [wordOf, BitVec.getLsbD_or, BitVec.getLsbD_shiftLeft, BitVec.getLsbD_setWidth,
    BitVec.getLsbD_append]
  by_cases h8 : i < 8
  · simp [h8, hi, show i < 24 by omega, show i < 16 by omega]
  · have hb3 := hzero b3 (Nat.le_of_not_lt h8)
    by_cases h16 : i < 16
    · simp [h8, h16, hi, hb3, show i < 24 by omega, show i - 8 < 8 by omega,
        show i - 8 < 32 by omega]
    · have hb2 := hzero b2 (show 8 ≤ i - 8 by omega)
      by_cases h24 : i < 24
      · simp [h8, h16, h24, hi, hb3, hb2, Nat.sub_sub, show i - 16 < 8 by omega,
          show ¬i - 8 < 8 by omega, show i - 16 < 32 by omega]
      · simp [h8, h16, h24, hi, hb3, hb2, hzero b1 (show 8 ≤ i - 16 by omega), Nat.sub_sub,
          show ¬i - 16 < 8 by omega, show ¬i - 8 < 8 by omega, show i - 24 < 32 by omega]

/-- The bytes of a word, taken with shifts and masks. -/
theorem bigEndian_word (w : Word) : bigEndian 4 w =
    [(w >>> 24 &&& 0xFF).setWidth 8, (w >>> 16 &&& 0xFF).setWidth 8,
      (w >>> 8 &&& 0xFF).setWidth 8, (w &&& 0xFF).setWidth 8] := by
  have hmask (x : Word) : (x &&& 0xFF).setWidth 8 = x.setWidth 8 := by
    rw [BitVec.setWidth_and, show (0xFF : Word).setWidth 8 = BitVec.allOnes 8 by decide,
      BitVec.and_allOnes]
  simp only [hmask]
  simp [bigEndian, byteAt, List.range_succ]

end EmergenceOS.Lib.Fips180
