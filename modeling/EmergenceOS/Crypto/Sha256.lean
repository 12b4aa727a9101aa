/- Module: EmergenceOS/Crypto/Sha256
   digest: The streaming SHA-256 object, for every split of a message. -/

import EmergenceOS.Lib.Fips180
import EmergenceOS.Mm.Memory

/-!
Lengths and positions in the data are plain numbers, since no buffer reaches so far that
i + 64 would wrap. The byte count is a 64-bit word and may.
-/

set_option autoImplicit false
set_option relaxedAutoImplicit false

namespace EmergenceOS.Crypto.Sha256

open EmergenceOS.Lib EmergenceOS.Lib.Bytes EmergenceOS.Lib.BlockHash EmergenceOS.Mm.Memory

structure SHA256 where
  state : Fin 8 → BitVec 32
  count : BitVec 64
  buffer : Buffer

def rotr (x : BitVec 32) (n : Nat) : BitVec 32 := (x >>> n) ||| (x <<< (32 - n))
def ch (x y z : BitVec 32) : BitVec 32 := (x &&& y) ^^^ (~~~x &&& z)
def maj (x y z : BitVec 32) : BitVec 32 := (x &&& y) ^^^ (x &&& z) ^^^ (y &&& z)
def ep0 (x : BitVec 32) : BitVec 32 := rotr x 2 ^^^ rotr x 13 ^^^ rotr x 22
def ep1 (x : BitVec 32) : BitVec 32 := rotr x 6 ^^^ rotr x 11 ^^^ rotr x 25
def sig0 (x : BitVec 32) : BitVec 32 := rotr x 7 ^^^ rotr x 18 ^^^ (x >>> 3)
def sig1 (x : BitVec 32) : BitVec 32 := rotr x 17 ^^^ rotr x 19 ^^^ (x >>> 10)

def k : List (BitVec 32) := [
  0x428a2f98, 0x71374491, 0xb5c0fbcf, 0xe9b5dba5, 0x3956c25b, 0x59f111f1, 0x923f82a4, 0xab1c5ed5,
  0xd807aa98, 0x12835b01, 0x243185be, 0x550c7dc3, 0x72be5d74, 0x80deb1fe, 0x9bdc06a7, 0xc19bf174,
  0xe49b69c1, 0xefbe4786, 0x0fc19dc6, 0x240ca1cc, 0x2de92c6f, 0x4a7484aa, 0x5cb0a9dc, 0x76f988da,
  0x983e5152, 0xa831c66d, 0xb00327c8, 0xbf597fc7, 0xc6e00bf3, 0xd5a79147, 0x06ca6351, 0x14292967,
  0x27b70a85, 0x2e1b2138, 0x4d2c6dfc, 0x53380d13, 0x650a7354, 0x766a0abb, 0x81c2c92e, 0x92722c85,
  0xa2bfe8a1, 0xa81a664b, 0xc24b8b70, 0xc76c51a3, 0xd192e819, 0xd6990624, 0xf40e3585, 0x106aa070,
  0x19a4c116, 0x1e376c08, 0x2748774c, 0x34b0bcb5, 0x391c0cb3, 0x4ed8aa4a, 0x5b9cca4f, 0x682e6ff3,
  0x748f82ee, 0x78a5636f, 0x84c87814, 0x8cc70208, 0x90befffa, 0xa4506ceb, 0xbef9a3f7, 0xc67178f2]

/-- m[i] = (data[j] << 24) | (data[j + 1] << 16) | (data[j + 2] << 8) | (data[j + 3]). -/
def loadWord (data : Buffer) (j : Nat) : BitVec 32 :=
  ((data j).setWidth 32 <<< 24) ||| ((data (j + 1)).setWidth 32 <<< 16) |||
    ((data (j + 2)).setWidth 32 <<< 8) ||| (data (j + 3)).setWidth 32

/-- The first loop of transform, with i and j. -/
def loadWords (data : Buffer) (m : Nat → BitVec 32) (i j : Nat) : Nat → BitVec 32 :=
  if i < 16 then loadWords data (Function.update m i (loadWord data j)) (i + 1) (j + 4) else m
termination_by 16 - i

/-- The second loop of transform. -/
def extendWords (m : Nat → BitVec 32) (i : Nat) : Nat → BitVec 32 :=
  if i < 64 then
    extendWords (Function.update m i
      (sig1 (m (i - 2)) + m (i - 7) + sig0 (m (i - 15)) + m (i - 16))) (i + 1)
  else m
termination_by 64 - i

/-- The locals a, ..., h of transform. -/
structure Locals where
  a : BitVec 32
  b : BitVec 32
  c : BitVec 32
  d : BitVec 32
  e : BitVec 32
  f : BitVec 32
  g : BitVec 32
  h : BitVec 32

/-- The third loop of transform. -/
def mix (m : Nat → BitVec 32) (v : Locals) (i : Nat) : Locals :=
  if i < 64 then
    let t1 := v.h + ep1 v.e + ch v.e v.f v.g + k.getD i 0 + m i
    let t2 := ep0 v.a + maj v.a v.b v.c
    mix m ⟨t1 + t2, v.a, v.b, v.c, v.d + t1, v.e, v.f, v.g⟩ (i + 1)
  else v
termination_by 64 - i

def transform (state : Fin 8 → BitVec 32) (data : Buffer) : Fin 8 → BitVec 32 :=
  let m := extendWords (loadWords data (fun _ => 0) 0 0) 16
  let v := mix m ⟨state 0, state 1, state 2, state 3, state 4, state 5, state 6, state 7⟩ 0
  ![state 0 + v.a, state 1 + v.b, state 2 + v.c, state 3 + v.d,
    state 4 + v.e, state 5 + v.f, state 6 + v.g, state 7 + v.h]

namespace SHA256

/-- The constructor leaves the buffer as it finds it. -/
def new (buffer : Buffer) : SHA256 :=
  ⟨![0x6a09e667, 0xbb67ae85, 0x3c6ef372, 0xa54ff53a, 0x510e527f, 0x9b05688c, 0x1f83d9ab,
    0x5be0cd19], 0, buffer⟩

/-- The first part of update: fill up a block that was begun. -/
def topUp (ctx : SHA256) (data : Buffer) (len : Nat) : SHA256 × Nat :=
  if ctx.count % 64 ≠ 0 then
    let left := 64 - (ctx.count % 64).toNat
    let toCopy := if len < left then len else left
    let buffer := kmemcpy ctx.buffer (ctx.count % 64).toNat data 0 toCopy
    let count := ctx.count + BitVec.ofNat 64 toCopy
    let state := if count % 64 = 0 then transform ctx.state buffer else ctx.state
    (⟨state, count, buffer⟩, toCopy)
  else (ctx, 0)

/-- The second part of update: blocks straight from the data. -/
def wholeBlocks (ctx : SHA256) (data : Buffer) (len i : Nat) : SHA256 × Nat :=
  if i + 64 ≤ len then
    wholeBlocks
      { ctx with
        state := transform ctx.state fun j => data (i + j)
        count := ctx.count + 64 } data len (i + 64)
  else (ctx, i)
termination_by len - i

def update (ctx : SHA256) (data : Buffer) (len : Nat) : SHA256 :=
  let (ctx, i) := ctx.topUp data len
  let (ctx, i) := ctx.wholeBlocks data len i
  if i < len then
    { ctx with
      buffer := kmemcpy ctx.buffer 0 data i (len - i)
      count := ctx.count + BitVec.ofNat 64 (len - i) }
  else ctx

theorem wholeBlocks_short (ctx : SHA256) (data : Buffer) {len i : Nat} (h : len < i + 64) :
    ctx.wholeBlocks data len i = (ctx, i) := by
  rw [wholeBlocks, if_neg (by omega)]

theorem update_one_count (ctx : SHA256) (data : Buffer) :
    (ctx.update data 1).count = ctx.count + 1 := by
  unfold update topUp
  by_cases h : ctx.count % 64 ≠ 0
  · have hlt : (ctx.count % 64).toNat < 64 := by
      rw [BitVec.toNat_umod]
      exact Nat.mod_lt _ (by decide)
    have hcopy : (if 1 < 64 - (ctx.count % 64).toNat then 1
        else 64 - (ctx.count % 64).toNat) = 1 := by
      split <;> omega
    simp only [if_pos h, hcopy]
    rw [wholeBlocks_short _ _ (by omega)]
    rfl
  · simp only [if_neg h]
    rw [wholeBlocks_short _ _ (by omega)]
    rfl

/-- The loop of finalize that appends zero bytes. -/
def padZeros (ctx : SHA256) : SHA256 :=
  if ctx.count % 64 ≠ 56 then padZeros (ctx.update (fun _ => 0x00) 1) else ctx
termination_by (120 - (ctx.count % 64).toNat) % 64
decreasing_by
  rename_i h
  have hne : (ctx.count % 64).toNat ≠ 56 := fun he => h (BitVec.eq_of_toNat_eq he)
  have h64 : (64 : BitVec 64).toNat = 64 := rfl
  have h1 : (1 : BitVec 64).toNat = 1 := rfl
  rw [update_one_count]
  simp only [BitVec.toNat_umod, BitVec.toNat_add, h64, h1] at hne ⊢
  omega

/-- The object and the 32 bytes of the hash. -/
def finalize (ctx : SHA256) : SHA256 × List Byte :=
  let bitLen := ctx.count * 8
  let ctx := ctx.update (fun _ => 0x80) 1
  let ctx := ctx.padZeros
  let ctx := ctx.update (fun i => (bitLen >>> ((7 - i) * 8)).setWidth 8) 8
  (ctx, (List.finRange 8).flatMap fun i =>
    [(ctx.state i >>> 24 &&& 0xFF).setWidth 8, (ctx.state i >>> 16 &&& 0xFF).setWidth 8,
      (ctx.state i >>> 8 &&& 0xFF).setWidth 8, (ctx.state i &&& 0xFF).setWidth 8])

end SHA256

theorem rotr_eq (x : BitVec 32) {n : Nat} (hn : n < 32) : rotr x n = x.rotateRight n := by
  rw [BitVec.rotateRight_def, Nat.mod_eq_of_lt hn, rotr]

theorem ep0_eq (x : BitVec 32) : ep0 x = Fips180.bigSigma0 x := by
  simp only [ep0, Fips180.bigSigma0, rotr_eq _ (show 2 < 32 by decide),
    rotr_eq _ (show 13 < 32 by decide), rotr_eq _ (show 22 < 32 by decide)]

theorem ep1_eq (x : BitVec 32) : ep1 x = Fips180.bigSigma1 x := by
  simp only [ep1, Fips180.bigSigma1, rotr_eq _ (show 6 < 32 by decide),
    rotr_eq _ (show 11 < 32 by decide), rotr_eq _ (show 25 < 32 by decide)]

theorem sig0_eq (x : BitVec 32) : sig0 x = Fips180.smallSigma0 x := by
  simp only [sig0, Fips180.smallSigma0, rotr_eq _ (show 7 < 32 by decide),
    rotr_eq _ (show 18 < 32 by decide)]

theorem sig1_eq (x : BitVec 32) : sig1 x = Fips180.smallSigma1 x := by
  simp only [sig1, Fips180.smallSigma1, rotr_eq _ (show 17 < 32 by decide),
    rotr_eq _ (show 19 < 32 by decide)]

/-- The table holds the constants of the standard. -/
theorem k_eq {t : Nat} (ht : t < 64) : k.getD t 0 = Fips180.K t := by
  have htable : ∀ t < 64, Fips180.IsRootFraction 3 (Fips180.primes.getD t 0) (k.getD t 0) := by
    rw [Fips180.primes_eq]
    decide +kernel
  exact (Fips180.rootFraction_eq (by decide) (htable t ht)).symm

theorem SHA256.new_state (buffer : Buffer) : (SHA256.new buffer).state = Fips180.H0 := by
  have htable : ∀ i : Fin 8, Fips180.IsRootFraction 2 (Fips180.primes.getD i 0)
      ((SHA256.new fun _ => 0).state i) := by
    rw [Fips180.primes_eq]
    decide +kernel
  funext i
  exact (Fips180.rootFraction_eq (by decide) (htable i)).symm

theorem loadWord_eq (data : Buffer) (j : Nat) :
    loadWord data j = Fips180.wordOf (data j) (data (j + 1)) (data (j + 2)) (data (j + 3)) :=
  (Fips180.wordOf_eq_shifts _ _ _ _).symm

theorem loadWords_eq (data : Buffer) (m : Nat → BitVec 32) {i : Nat} (hi : i ≤ 16) (t : Nat) :
    loadWords data m i (4 * i) t = if i ≤ t ∧ t < 16 then loadWord data (4 * t) else m t := by
  obtain ⟨n, hn⟩ : ∃ n, i + n = 16 := ⟨16 - i, by omega⟩
  induction n generalizing i m with
  | zero => rw [loadWords, if_neg (by omega), if_neg (by omega)]
  | succ n ih =>
    rw [loadWords, if_pos (by omega), show 4 * i + 4 = 4 * (i + 1) by omega,
      ih _ (by omega) (by omega)]
    by_cases ht : t = i
    · subst t
      rw [if_neg (by omega), if_pos (by omega), Function.update_self]
    · rw [Function.update_of_ne ht]
      simp only [show i + 1 ≤ t ∧ t < 16 ↔ i ≤ t ∧ t < 16 by omega]

/-- The array after the second loop is the message schedule. -/
theorem extendWords_eq (block : List Byte) {m : Nat → BitVec 32} {i : Nat} (h16 : 16 ≤ i)
    (hi : i ≤ 64) (hm : ∀ t < i, m t = Fips180.W block t) {t : Nat} (ht : t < 64) :
    extendWords m i t = Fips180.W block t := by
  obtain ⟨n, hn⟩ : ∃ n, i + n = 64 := ⟨64 - i, by omega⟩
  induction n generalizing i m with
  | zero =>
    rw [extendWords, if_neg (by omega)]
    exact hm t (by omega)
  | succ n ih =>
    rw [extendWords, if_pos (by omega)]
    refine ih (by omega) (by omega) (fun t ht => ?_) (by omega)
    by_cases hti : t = i
    · subst t
      rw [Function.update_self, Fips180.W, if_neg (by omega), hm _ (by omega), hm _ (by omega),
        hm _ (by omega), hm _ (by omega), sig0_eq, sig1_eq]
    · rw [Function.update_of_ne hti]
      exact hm t (by omega)

/-- The locals as the working variables of the standard. -/
def Locals.working (v : Locals) : Fips180.Working := ⟨v.a, v.b, v.c, v.d, v.e, v.f, v.g, v.h⟩

theorem mix_eq (block : List Byte) {m : Nat → BitVec 32}
    (hm : ∀ t < 64, m t = Fips180.W block t) (v0 : Fips180.Working) {v : Locals} {i : Nat}
    (hi : i ≤ 64) (hv : v.working = Fips180.rounds block i v0) :
    (mix m v i).working = Fips180.rounds block 64 v0 := by
  obtain ⟨n, hn⟩ : ∃ n, i + n = 64 := ⟨64 - i, by omega⟩
  induction n generalizing i v with
  | zero =>
    obtain rfl : i = 64 := by omega
    rw [mix, if_neg (by omega), hv]
  | succ n ih =>
    rw [mix, if_pos (by omega)]
    apply ih (by omega) _ (by omega)
    rw [Fips180.rounds, ← hv, k_eq (by omega), hm i (by omega), ep0_eq, ep1_eq]
    rfl

/-- transform is the compression of one message block. -/
theorem transform_eq (state : Fin 8 → BitVec 32) (data : Buffer) :
    transform state data = Fips180.compress state (slice data 0 64) := by
  have hwords (t : Nat) (ht : t < 16) :
      loadWords data (fun _ => 0) 0 0 t = Fips180.W (slice data 0 64) t := by
    have h := loadWords_eq data (fun _ => 0) (Nat.zero_le 16) t
    rw [Nat.mul_zero] at h
    rw [h, if_pos ⟨Nat.zero_le t, ht⟩, Fips180.W, if_pos ht, Fips180.blockWord, loadWord_eq,
      getD_slice _ _ (by omega), getD_slice _ _ (by omega), getD_slice _ _ (by omega),
      getD_slice _ _ (by omega)]
    simp only [Nat.zero_add]
  have hschedule (t : Nat) (ht : t < 64) :=
    extendWords_eq (slice data 0 64) (Nat.le_refl 16) (by omega) hwords ht
  have hmix := mix_eq (slice data 0 64) hschedule
    ⟨state 0, state 1, state 2, state 3, state 4, state 5, state 6, state 7⟩
    (v := ⟨state 0, state 1, state 2, state 3, state 4, state 5, state 6, state 7⟩)
    (Nat.zero_le 64) rfl
  unfold transform Fips180.compress
  rw [← hmix]
  simp only [Locals.working, BitVec.add_comm]

end EmergenceOS.Crypto.Sha256
