/- Module: EmergenceOS/Vdev/KeyDerivation
   digest: The memory-hard derivation of a seed, which does not see where the password ends. -/

import EmergenceOS.Lib.CString
import EmergenceOS.Lib.Mixing
import EmergenceOS.Vdev.BmtTopology

set_option autoImplicit false
set_option relaxedAutoImplicit false

namespace EmergenceOS.Vdev.BmtTopology.KeyDerivation

open EmergenceOS.Lib.Bytes EmergenceOS.Lib.CString EmergenceOS.Lib.Mixing

def kdfRounds : Nat := 250000
def kdfMemBlocks : Nat := 1024
def kdfMemPasses : Nat := 4

theorem kdfMemBlocks_pos : 0 < kdfMemBlocks := by decide

structure Cell where
  a : BitVec 64
  b : BitVec 64

/-- hi and lo after one more character of either string. -/
def absorb (s : Seed) (c : Byte) : Seed :=
  ⟨(s.hi ^^^ c.setWidth 64) * 0x00000100000001B3, (s.lo ^^^ c.setWidth 64) * 0x01000193⟩

/-- mem[i] from mem[i-1]. -/
def nextCell (c : Cell) : Cell :=
  ⟨rotl 13 c.a ^^^ (c.b * phiHi), rotl 17 c.b ^^^ (c.a * phiLo)⟩

/-- The memory after the fill loop. -/
def filled (s : Seed) : Fin kdfMemBlocks → Cell := fun i => nextCell^[i.val] ⟨s.hi, s.lo⟩

/-- The step that the passes and the final compression share. -/
def compress (s : Seed) : Seed :=
  let hi := rotl 31 s.hi ^^^ (s.lo * phiHi)
  ⟨hi, rotl 29 s.lo ^^^ (hi * phiLo)⟩

/-- The locals of the random walk. -/
structure Walk where
  s : Seed
  mem : Fin kdfMemBlocks → Cell

def visit (w : Walk) : Walk :=
  let idx : Fin kdfMemBlocks :=
    ⟨w.s.hi.toNat % kdfMemBlocks, Nat.mod_lt _ kdfMemBlocks_pos⟩
  let s := compress ⟨w.s.hi ^^^ (w.mem idx).a, w.s.lo ^^^ (w.mem idx).b⟩
  ⟨s, Function.update w.mem idx ⟨(w.mem idx).a ^^^ s.hi, (w.mem idx).b ^^^ s.lo⟩⟩

def walkPass (w : Walk) : Walk := visit^[kdfMemBlocks] w

/-- Everything after the two absorption loops. -/
def harden (s : Seed) : Seed :=
  compress^[kdfRounds] (walkPass^[kdfMemPasses] ⟨s, filled s⟩).s

def derive (password hwkey : Str) : Seed :=
  let s : Seed := ⟨0xCBF29CE484222325, 0x00000100000001B3⟩
  let s := password.chars.foldl absorb s
  let s := hwkey.chars.foldl absorb s
  harden s

/-- The two loops are one loop over both strings. -/
theorem derive_eq_harden (password hwkey : Str) :
    derive password hwkey = harden ((password.append hwkey).chars.foldl absorb
      ⟨0xCBF29CE484222325, 0x00000100000001B3⟩) := by
  rw [derive, Str.append, List.foldl_append]

/-- Characters that move across the boundary never change the seed. -/
theorem derive_eq_of_append_eq (password hwkey password' hwkey' : Str)
    (h : password.append hwkey = password'.append hwkey') :
    derive password hwkey = derive password' hwkey' := by
  rw [derive_eq_harden, derive_eq_harden, h]

theorem derive_moved_boundary :
    derive ⟨[97, 98], by decide⟩ ⟨[99], by decide⟩ =
      derive ⟨[97], by decide⟩ ⟨[98, 99], by decide⟩ :=
  derive_eq_of_append_eq _ _ _ _ (by decide)

/-- Two pairs with the same concatenation and the same seed. -/
theorem exists_moved_boundary : ∃ password hwkey password' hwkey' : Str,
    (password, hwkey) ≠ (password', hwkey') ∧
      password.append hwkey = password'.append hwkey' ∧
      derive password hwkey = derive password' hwkey' := by
  refine ⟨⟨[97, 98], by decide⟩, ⟨[99], by decide⟩, ⟨[97], by decide⟩, ⟨[98, 99], by decide⟩,
    by decide, by decide, ?_⟩
  rw [derive_eq_harden, derive_eq_harden]
  rfl

end EmergenceOS.Vdev.BmtTopology.KeyDerivation
