/- Module: EmergenceOS/Crypto/MasterSeed
   digest: What the rounds over a manifold add to a seed, and which seeds a hash accepts. -/

import EmergenceOS.Crypto.Argon2Hardener
import EmergenceOS.Crypto.Sha256Stream
import Mathlib.Data.List.OfFn

/-!
The rounds mix what they fetch into the seed. If they fetch the same atom wherever they look,
as in a manifold that nothing was written to, they permute the seeds.
-/

set_option autoImplicit false
set_option relaxedAutoImplicit false

namespace EmergenceOS.Crypto.Argon2Hardener

open EmergenceOS.Lib.Bytes EmergenceOS.Lib.CString EmergenceOS.Lib.Mixing
open EmergenceOS.Vdev.Topology

/-- Every fetch returns the same atom. -/
def Uniform (manifold : SubstrateManifold) (noise : Value128) : Prop :=
  ∀ vaddr, (manifold.holographicFetch vaddr).1 = noise

/-- An iteration that mixes in the given atom. -/
def round (noise : Value128) (hash : Seed) : Seed :=
  ⟨rotl 13 ((hash.hi * phiHi) ^^^ noise.hi), rotl 17 ((hash.lo * phiLo) ^^^ noise.lo)⟩

/-- Multiplication by a word that has an inverse. -/
theorem mul_right_injective {w : Nat} {c d : BitVec w} (h : c * d = 1#w) :
    Function.Injective (· * c) := by
  intro x y hxy
  have hcancel := congrArg (· * d) hxy
  simpa only [BitVec.mul_assoc, h, BitVec.mul_one] using hcancel

theorem phiHi_injective : Function.Injective (· * phiHi) :=
  mul_right_injective (d := 0xF1DE83E19937733D) (by decide)

theorem phiLo_injective : Function.Injective (· * phiLo) :=
  mul_right_injective (d := 0x2040003D780970BD) (by decide)

theorem round_injective (noise : Value128) : Function.Injective (round noise) := by
  rintro ⟨hi, lo⟩ ⟨hi', lo'⟩ h
  obtain ⟨hhi, hlo⟩ := Seed.mk.inj h
  have hhi' := xor_right_injective _ (rotl_injective (by decide) hhi)
  have hlo' := xor_right_injective _ (rotl_injective (by decide) hlo)
  exact Seed.mk.injEq hi lo hi' lo' ▸ ⟨phiHi_injective hhi', phiLo_injective hlo'⟩

theorem iterate_uniform {manifold : SubstrateManifold} {noise : Value128}
    (h : Uniform manifold noise) (n : Nat) (hash : Seed) :
    iterate^[n] (hash, manifold) = ((round noise)^[n] hash, manifold) := by
  induction n generalizing hash with
  | zero => rfl
  | succ n ih =>
    have hstep : iterate (hash, manifold) = (round noise hash, manifold) := by
      have hfst := h (hash.hi ^^^ hash.lo)
      have hsnd := SubstrateManifold.holographicFetch_snd manifold (hash.hi ^^^ hash.lo)
      rw [iterate]
      simp only [hfst, hsnd]
      rfl
    rw [Function.iterate_succ_apply, hstep, ih, Function.iterate_succ_apply]

/-- Where all fetches agree, the 1024 rounds neither merge nor separate any two inputs. -/
theorem derive_uniform_eq_iff {manifold : SubstrateManifold} {noise : Value128}
    (h : Uniform manifold noise) (password hwid password' hwid' : Str) :
    derive password hwid (some manifold) = derive password' hwid' (some manifold) ↔
      derive password hwid none = derive password' hwid' none := by
  simp only [derive, iterate_uniform h]
  exact ((round_injective noise).iterate 1024).eq_iff

/-- A manifold after its constructor. -/
theorem uniform_construct (pool : Buffer) (map : Fin cachePoolSize → BitVec 64) :
    Uniform (SubstrateManifold.construct pool map) ⟨0, 0⟩ := by
  intro vaddr
  have hnone : (SubstrateManifold.construct pool map).findBlock
      (SubstrateManifold.vblockOf vaddr) = none := by
    rw [SubstrateManifold.findBlock_eq_none_iff]
    intro i
    rw [SubstrateManifold.construct_slots]
    exact (Option.some_ne_none _).symm
  rw [SubstrateManifold.holographicFetch_fst, hnone]

/-- Two passwords that differ in one character, over the manifold that kmain constructs. -/
theorem derive_uniform_letters :
    derive ⟨[97], by decide⟩ ⟨[48], by decide⟩ (some (.construct (fun _ => 0) fun _ => 0)) ≠
      derive ⟨[98], by decide⟩ ⟨[48], by decide⟩ (some (.construct (fun _ => 0) fun _ => 0)) := by
  rw [ne_eq, derive_uniform_eq_iff (uniform_construct (fun _ => 0) fun _ => 0)]
  decide

end EmergenceOS.Crypto.Argon2Hardener

namespace EmergenceOS.Crypto.Sha256.SHA256

open EmergenceOS.Lib EmergenceOS.Lib.Bytes EmergenceOS.Mm.Memory EmergenceOS.Vdev.Topology

/-- The two words of a seed in memory, as kmemcpy copies them. -/
def seedData (data : Buffer) (s : Seed) : Buffer :=
  kmemcpy (kmemcpy data 0 (byteAt s.hi) 0 8) 8 (byteAt s.lo) 0 8

/-- verify_seed; the buffers of its locals are not cleared. -/
def verifySeed (buffer data : Buffer) (s : Seed) (expectedHash : Fin 32 → Byte) : Bool :=
  let sha := (new buffer).update (seedData data s) 16
  let hash := sha.finalize.2
  (List.finRange 32).all fun i => decide (hash.getD i.val 0 = expectedHash i)

/-- The bytes of the two words, each from its least significant end. -/
def seedMessage (s : Seed) : Fips180.Message where
  bytes := slice (byteAt s.hi) 0 8 ++ slice (byteAt s.lo) 0 8
  short := by
    rw [List.length_append, length_slice, length_slice]
    decide

theorem slice_seedData (data : Buffer) (s : Seed) :
    slice (seedData data s) 0 16 = (seedMessage s).bytes := by
  have hhi := slice_blit data (byteAt s.hi) 0 0 8
  have hlo := slice_blit (blit data 0 (byteAt s.hi) 0 8) (byteAt s.lo) 8 0 8
  rw [slice_zero, List.nil_append] at hhi
  rw [seedData, kmemcpy_eq_blit, kmemcpy_eq_blit]
  exact hlo.trans (congrArg (· ++ slice (byteAt s.lo) 0 8) hhi)

theorem sha256_length (m : Fips180.Message) : (Fips180.sha256 m).length = 32 := by
  have hword {n : Nat} (w : BitVec n) : (Fips180.bigEndian 4 w).length = 4 := by
    rw [Fips180.bigEndian, List.length_map, List.length_range]
  rw [Fips180.sha256, List.length_flatMap]
  simp only [hword]
  decide

/-- A seed is accepted exactly if the expected bytes are the hash of its sixteen bytes. -/
theorem verifySeed_iff (buffer data : Buffer) (s : Seed) (expectedHash : Fin 32 → Byte) :
    verifySeed buffer data s expectedHash = true ↔
      Fips180.sha256 (seedMessage s) = List.ofFn expectedHash := by
  have hhash : ((new buffer).update (seedData data s) 16).finalize.2 =
      Fips180.sha256 (seedMessage s) := by
    apply finalize_eq
    have hupdate := update_represents (new_represents buffer) (seedData data s) 16
    rw [slice_seedData] at hupdate
    exact hupdate
  have hlength := sha256_length (seedMessage s)
  rw [verifySeed]
  simp only [hhash]
  generalize Fips180.sha256 (seedMessage s) = hash at hlength ⊢
  rw [List.all_eq_true]
  simp only [decide_eq_true_eq]
  constructor
  · intro h
    apply List.ext_getElem
    · rw [hlength, List.length_ofFn]
    · intro i hi hi'
      have hbyte := h ⟨i, by omega⟩ (List.mem_finRange _)
      rw [List.getD_eq_getElem?_getD, List.getElem?_eq_getElem hi, Option.getD_some] at hbyte
      rw [hbyte, List.getElem_ofFn]
  · intro h i _
    have hi : i.val < (List.ofFn expectedHash).length := by
      rw [List.length_ofFn]
      exact i.isLt
    rw [h, List.getD_eq_getElem?_getD, List.getElem?_eq_getElem hi, Option.getD_some,
      List.getElem_ofFn]

end EmergenceOS.Crypto.Sha256.SHA256
