/- Module: EmergenceOS/Vdev/ContextLossless
   digest: Contexts that differ stay different, and a single changed byte always shows. -/

import EmergenceOS.Lib.LosslessFold
import EmergenceOS.Lib.Mixing
import EmergenceOS.Vdev.EvaporateStream

/-!
A byte enters each word as a multiple of an odd number. What follows, two rotations and two
masks that the words take from one another in turn, can be undone.
-/

set_option autoImplicit false
set_option relaxedAutoImplicit false

namespace EmergenceOS.Vdev.ContextDrivenEngine

open EmergenceOS.Lib.Bytes EmergenceOS.Lib.LosslessFold EmergenceOS.Lib.Mixing

namespace ContextAccumulator

/-- What absorb does once the byte is in. -/
def stir (s : BitVec 64 × BitVec 64) : BitVec 64 × BitVec 64 :=
  mixStep (rotl 7) (rotl 11) (fun lo => rotl 11 lo >>> 32) (fun hi => hi >>> 32) s

theorem absorb_eq (ctx : ContextAccumulator) (byte : Byte) :
    ((ctx.absorb byte).hi, (ctx.absorb byte).lo) =
      stir (ctx.hi ^^^ (byte.setWidth 64 * phiHi), ctx.lo ^^^ (byte.setWidth 64 * phiLo)) := rfl

theorem stir_injective : Function.Injective stir :=
  mixStep_injective (rotl_injective (by decide)) (rotl_injective (by decide)) _ _

theorem words_inj {ctx ctx' : ContextAccumulator} :
    (ctx.hi, ctx.lo) = (ctx'.hi, ctx'.lo) ↔ ctx = ctx' := by
  cases ctx
  cases ctx'
  rw [Prod.mk.injEq, mk.injEq]

theorem absorb_eq_absorb_iff {ctx ctx' : ContextAccumulator} {byte byte' : Byte} :
    ctx.absorb byte = ctx'.absorb byte' ↔
      ctx.hi ^^^ (byte.setWidth 64 * phiHi) = ctx'.hi ^^^ (byte'.setWidth 64 * phiHi) ∧
        ctx.lo ^^^ (byte.setWidth 64 * phiLo) = ctx'.lo ^^^ (byte'.setWidth 64 * phiLo) := by
  rw [← words_inj, absorb_eq, absorb_eq, stir_injective.eq_iff, Prod.mk.injEq]

theorem absorb_injective_left (byte : Byte) : Function.Injective (absorb · byte) := by
  intro ctx ctx' h
  obtain ⟨hhi, hlo⟩ := absorb_eq_absorb_iff.mp h
  rw [← words_inj, Prod.mk.injEq]
  exact ⟨xor_right_injective _ hhi, xor_right_injective _ hlo⟩

/-- The inverse of the odd factor modulo 2^64. -/
def phiHiInverse : BitVec 64 := 0xF1DE83E19937733D

theorem mul_phiHi_injective : Function.Injective (· * phiHi) := by
  intro x y h
  have hinverse : phiHi * phiHiInverse = 1 := by decide
  have hcancel := congrArg (· * phiHiInverse) h
  simpa only [BitVec.mul_assoc, hinverse, BitVec.ofNat_eq_ofNat, BitVec.mul_one] using hcancel

theorem absorb_injective (ctx : ContextAccumulator) : Function.Injective ctx.absorb := by
  intro byte byte' h
  obtain ⟨hhi, -⟩ := absorb_eq_absorb_iff.mp h
  have hword : byte.setWidth 64 = byte'.setWidth 64 :=
    mul_phiHi_injective ((BitVec.xor_right_inj ctx.hi).mp hhi)
  have hval := congrArg (BitVec.setWidth 8) hword
  rwa [BitVec.setWidth_setWidth_of_le _ (by decide), BitVec.setWidth_setWidth_of_le _ (by decide),
    BitVec.setWidth_eq, BitVec.setWidth_eq] at hval

/-- Absorbing a byte string keeps states apart, and two strings that differ in one place lead
from every state to two. -/
theorem absorb_lossless :
    (∀ s s' : ContextAccumulator, s ≠ s' → ∀ bytes : List Byte,
      bytes.foldl absorb s ≠ bytes.foldl absorb s') ∧
    ∀ (s : ContextAccumulator) (bytes bytes' : List Byte), DifferOnce bytes bytes' →
      bytes.foldl absorb s ≠ bytes'.foldl absorb s := by
  refine ⟨fun s s' hne bytes => (foldl_injective absorb_injective_left bytes).ne hne, ?_⟩
  exact fun s bytes bytes' h =>
    foldl_ne_of_differOnce absorb_injective_left absorb_injective h s

theorem absorb_lossless_changed_byte : ([1, 9, 3] : List Byte).foldl absorb new ≠
    ([1, 2, 3] : List Byte).foldl absorb new :=
  (absorb_lossless.2 new [1, 2, 3] ([1, 2, 3].set 1 9)
    (differOnce_set (by decide) (by decide))).symm

end ContextAccumulator

/-- The context of evaporate_layer is the start context with the bytes so far absorbed. -/
theorem contextAt_eq_foldl (data : Buffer) (i : Nat) :
    contextAt data i = (slice data 0 i).foldl ContextAccumulator.absorb .new := by
  induction i with
  | zero => rfl
  | succ i ih =>
    rw [contextAt, ih, slice_succ, List.foldl_append, Nat.zero_add]
    rfl

/-- Every single changed byte shows in all later contexts of a layer. -/
theorem contextAt_ne {x y : Buffer} {i j : Nat} (hj : j < i) (hne : x j ≠ y j)
    (hrest : ∀ k ≠ j, x k = y k) : contextAt x i ≠ contextAt y i := by
  rw [contextAt_eq_foldl, contextAt_eq_foldl]
  refine foldl_ne_of_differOnce ContextAccumulator.absorb_injective_left
    ContextAccumulator.absorb_injective ⟨by simp only [length_slice], j, ?_, fun k hk => ?_⟩ _
  · simpa only [getElem?_slice, if_pos hj, ne_eq, Option.some.injEq, Nat.zero_add] using hne
  · simp only [getElem?_slice, Nat.zero_add, hrest k hk]

end EmergenceOS.Vdev.ContextDrivenEngine
