/- Module: EmergenceOS/Crypto/Argon2Hardener
   digest: The master seed, and the lengthenings of a password that do not change it. -/

import EmergenceOS.Hal.LineEditor
import EmergenceOS.Lib.ByteLanes
import EmergenceOS.Lib.CString
import EmergenceOS.Lib.Mixing
import EmergenceOS.Vdev.TopologyRoute

/-!
Without a manifold the seed is what the first mix leaves: eight lanes of characters
under exclusive or. A suffix that fills each lane with cancelling characters is lost.
-/

set_option autoImplicit false
set_option relaxedAutoImplicit false

namespace EmergenceOS.Crypto.Argon2Hardener

open EmergenceOS.Lib.Bytes EmergenceOS.Lib.ByteLanes EmergenceOS.Lib.CString EmergenceOS.Lib.Mixing
open EmergenceOS.Hal.Keyboard EmergenceOS.Vdev.Topology

/-- The loop that mixes a string into one half of the hash, from index i on. A char is signed. -/
def mix (hash : BitVec 64) : Nat → List Byte → BitVec 64
  | _, [] => hash
  | i, c :: cs => mix (hash ^^^ (c.signExtend 64 <<< ((i % 8) * 8))) (i + 1) cs

/-- One of the memory-hard iterations. -/
def iterate (s : Seed × SubstrateManifold) : Seed × SubstrateManifold :=
  let (hash, manifold) := s
  let (noise, manifold) := manifold.holographicFetch (hash.hi ^^^ hash.lo)
  let hashHi := (hash.hi * phiHi) ^^^ noise.hi
  let hashLo := (hash.lo * phiLo) ^^^ noise.lo
  (⟨rotl 13 hashHi, rotl 17 hashLo⟩, manifold)

/-- Argon2Sovereign::derive. -/
def derive (password hwid : Str) (manifold : Option SubstrateManifold) : Seed :=
  let hashHi := mix 0x736f6d6570736575 0 password.chars
  let hashLo := mix 0x646f72616e646f6d 0 hwid.chars
  match manifold with
  | none => ⟨hashHi, hashLo⟩
  | some manifold => (iterate^[1024] (⟨hashHi, hashLo⟩, manifold)).1

/-- A line that read_password can leave in a buffer of the given size. -/
def Returnable (max : Int) (line : List Byte) : Prop :=
  ∃ (vga : Bool) (buf : Buffer) (keys : List Key),
    (keys.foldl (Editor.step readPassword max vga) (Editor.start max buf)).returned = true ∧
      slice (keys.foldl (Editor.step readPassword max vga) (Editor.start max buf)).buf 0
        (keys.foldl (Editor.step readPassword max vga) (Editor.start max buf)).i = line

theorem mix_append (hash : BitVec 64) (i : Nat) (cs ds : List Byte) :
    mix hash i (cs ++ ds) = mix (mix hash i cs) (i + cs.length) ds := by
  induction cs generalizing hash i with
  | nil => rfl
  | cons c cs ih =>
    rw [List.cons_append, mix, mix, ih, List.length_cons, Nat.add_right_comm, Nat.add_assoc]

theorem signExtend_of_printable {c : Byte} (hc : Printable c) :
    c.signExtend 64 = c.setWidth 64 := by
  apply BitVec.signExtend_eq_setWidth_of_msb_false
  rw [BitVec.msb_eq_false_iff_two_mul_lt]
  have hle := hc.1
  rw [BitVec.toInt_eq_toNat_cond] at hle
  split at hle <;> omega

/-- Printable characters are folded into their lanes. -/
theorem mix_eq_fold (hash : BitVec 64) (i : Nat) {cs : List Byte}
    (hcs : ∀ c ∈ cs, Printable c) : mix hash i cs = hash ^^^ fold 64 8 i cs := by
  induction cs generalizing hash i with
  | nil => exact BitVec.xor_zero.symm
  | cons c cs ih =>
    rw [mix, ih _ _ fun d hd => hcs d (List.mem_cons_of_mem c hd), fold,
      signExtend_of_printable (hcs c List.mem_cons_self), BitVec.xor_assoc, Nat.mul_comm]

/-- Only what the suffix leaves in the lanes decides. -/
theorem derive_append_eq_iff (password suffix hwid : Str)
    (hsuffix : ∀ c ∈ suffix.chars, Printable c) :
    derive (password.append suffix) hwid none = derive password hwid none ↔
      Cancels 8 suffix.chars := by
  rw [← lanes_zero_iff_cancels (by decide) (0 + password.chars.length),
    ← fold_eq_zero_iff (n := 64) _ _ rfl]
  simp only [derive, Str.append, mix_append, mix_eq_fold _ _ hsuffix, Seed.mk.injEq, and_true]
  constructor
  · intro h
    have hzero := (BitVec.xor_comm _ _).trans (h.trans BitVec.zero_xor.symm)
    exact xor_right_injective (mix 0x736f6d6570736575 0 password.chars) hzero
  · intro h
    rw [h]
    exact BitVec.xor_zero

/-- A suffix of up to eight characters never goes unnoticed. -/
theorem derive_append_ne_of_length_le (password suffix hwid : Str) (hne : suffix.chars ≠ [])
    (hlen : suffix.chars.length ≤ 8) (hsuffix : ∀ c ∈ suffix.chars, Printable c) :
    derive (password.append suffix) hwid none ≠ derive password hwid none := by
  rw [ne_eq, derive_append_eq_iff password suffix hwid hsuffix]
  obtain ⟨c, cs, hcs⟩ := List.exists_cons_of_ne_nil hne
  have hc : c ≠ 0 := by
    rintro rfl
    exact suffix.unterminated (hcs ▸ List.mem_cons_self)
  rw [hcs] at hlen ⊢
  exact not_cancels_of_length_le hc hlen

/-- Lengthening a password changes the seed exactly if some lane of the suffix does not cancel,
whatever the password and the hardware id are. -/
theorem derive_append_ne_iff (password suffix hwid : Str)
    (hsuffix : ∀ c ∈ suffix.chars, Printable c) :
    derive (password.append suffix) hwid none ≠ derive password hwid none ↔
      ¬Cancels 8 suffix.chars :=
  not_congr (derive_append_eq_iff password suffix hwid hsuffix)

/-- One more letter. -/
theorem derive_append_letter :
    (∀ c ∈ [(120 : Byte)], Printable c) ∧
      derive (Str.append ⟨[112, 119], by decide⟩ ⟨[120], by decide⟩) ⟨[48], by decide⟩ none ≠
        derive ⟨[112, 119], by decide⟩ ⟨[48], by decide⟩ none := by
  have hprintable : ∀ c ∈ [(120 : Byte)], Printable c := by decide
  exact ⟨hprintable, (derive_append_ne_iff ⟨[112, 119], by decide⟩ ⟨[120], by decide⟩
    ⟨[48], by decide⟩ hprintable).mpr (by decide)⟩

/-- The key of the letter a, and Enter. -/
def keyA : Key := ⟨97, 0x1E, by decide⟩
def keyEnter : Key := ⟨10, 0x1C, by decide⟩

/-- Sixteen times the letter a visits each lane twice, so the seed is that of the empty line. -/
theorem derive_repeated_letter :
    Returnable 64 (List.replicate 16 97) ∧ (∀ c ∈ List.replicate 16 (97 : Byte), Printable c) ∧
      derive (Str.append ⟨[], by decide⟩ ⟨List.replicate 16 97, by decide⟩) ⟨[48], by decide⟩ none =
        derive ⟨[], by decide⟩ ⟨[48], by decide⟩ none := by
  refine ⟨⟨false, fun _ => 0, List.replicate 16 keyA ++ [keyEnter], ?_, ?_⟩, by decide, by decide⟩
  · decide
  · decide

end EmergenceOS.Crypto.Argon2Hardener
