/- Module: EmergenceOS/Vdev/EvaporateBounds
   digest: The calls of noise_at that a layer makes, and the lengths for which it returns. -/

import EmergenceOS.Lib.BoundedLoop
import EmergenceOS.Vdev.EvaporateStream

/-!
The loop of noise_at compares its 16-bit counter with the bound inclusively. No counter
exceeds 0xFFFF, the entry of the fourteen bytes from position 917490 on.
-/

set_option autoImplicit false
set_option relaxedAutoImplicit false

namespace EmergenceOS.Vdev.ContextDrivenEngine

open EmergenceOS.Lib.Bytes EmergenceOS.Lib.BoundedLoop

/-- The arguments of noise_at, the seeds apart. -/
structure NoiseCall where
  slot : BitVec 16
  basis : Byte
  entry : BitVec 16
  bytePos : Byte
  deriving DecidableEq

/-- The amount by which noise_at shifts the word it takes its result from. -/
def NoiseCall.shift (c : NoiseCall) : Nat :=
  if c.bytePos < 8 then c.bytePos.toNat * 8 else (c.bytePos.toNat - 8) * 8

structure NoiseCall.InRange (c : NoiseCall) : Prop where
  basis : c.basis.toNat < 64
  slot : c.slot.toNat < 1024
  bytePos : c.bytePos.toNat < 14
  shift : c.shift < 64

/-- The calls of the probing loop, up to one that does not return. -/
def probeCalls (shi slo : BitVec 64) (ctx : ContextAccumulator) (position : BitVec 64)
    (entry : BitVec 16) (bytePos target datum : Byte) :
    Nat → Nat → ContextAccumulator → List NoiseCall
  | 0, _, _ => []
  | left + 1, k, p =>
    let basis := p.basis 64
    let slot := p.slot 1024
    ⟨slot, basis, entry, bytePos⟩ ::
      match noiseAt shi slo slot basis entry bytePos with
      | none => []
      | some candidate =>
        let crc := candidateCrc shi slo slot basis entry bytePos position ctx.hi ctx.lo
        if candidate = datum ∧ crc = target then []
        else probeCalls shi slo ctx position entry bytePos target datum left (k + 1)
          (p.absorb (BitVec.ofNat 8 k))

/-- The entry and the byte in it that position i stands for. -/
def entryOf (i : Nat) : BitVec 16 := BitVec.ofNat 16 (i / 14)

def bytePosOf (i : Nat) : Byte := BitVec.ofNat 8 (i % 14)

/-- The calls of a layer with `left` bytes to go, the first of them at position i. -/
def evaporateCalls (shi slo : BitVec 64) (data : Buffer) :
    Nat → Nat → ContextAccumulator → List NoiseCall
  | 0, _, _ => []
  | left + 1, i, ctx =>
    let position := BitVec.ofNat 64 i
    probeCalls shi slo ctx position (entryOf i) (bytePosOf i) (positionCrc shi slo ctx position)
        (data i) candidates 0 ctx ++
      match matched shi slo ctx i (data i) with
      | none => []
      | some _ => evaporateCalls shi slo data left (i + 1) (ctx.absorb (data i))

/-- The loop of noise_at, counter and words, turn by turn. -/
def noiseRun (entry : BitVec 16) (fuel : Nat) (s : BitVec 16 × BitVec 64 × BitVec 64) :
    Option (BitVec 16 × BitVec 64 × BitVec 64) :=
  whileDo (fun s => decide (s.1 ≤ entry)) (fun s => ((s.1 + 1, noiseStep s.2), true)) fuel s

/-- A layer returns, its inner loops end and its calls are in range. -/
structure WellBehaved (shi slo : BitVec 64) (data : Buffer) (len : Nat) : Prop where
  returns : (evaporateLayer shi slo data len).isSome
  noiseEnds : ∀ i < len, ∀ words, ∃ fuel, (noiseRun (entryOf i) fuel (0, words)).isSome
  inRange : ∀ c ∈ evaporateCalls shi slo data len 0 .new, c.InRange

section Range
variable {shi slo : BitVec 64}

theorem toNat_basis_lt (p : ContextAccumulator) : (p.basis 64).toNat < 64 := by
  have hlit : (64 : BitVec 64).toNat = 64 := rfl
  rw [ContextAccumulator.basis, BitVec.toNat_setWidth, BitVec.toNat_umod, hlit]
  omega

theorem toNat_slot_lt (p : ContextAccumulator) : (p.slot 1024).toNat < 1024 := by
  have hlit : (1024 : BitVec 64).toNat = 1024 := rfl
  rw [ContextAccumulator.slot, BitVec.toNat_setWidth, BitVec.toNat_umod, hlit]
  omega

theorem toNat_bytePosOf_lt (i : Nat) : (bytePosOf i).toNat < 14 := by
  rw [bytePosOf, BitVec.toNat_ofNat]
  omega

theorem call_inRange (p : ContextAccumulator) (entry : BitVec 16) (i : Nat) :
    NoiseCall.InRange ⟨p.slot 1024, p.basis 64, entry, bytePosOf i⟩ := by
  have hpos := toNat_bytePosOf_lt i
  have height : (8 : Byte).toNat = 8 := rfl
  refine ⟨toNat_basis_lt p, toNat_slot_lt p, hpos, ?_⟩
  simp only [NoiseCall.shift, BitVec.lt_def, height]
  split <;> omega

theorem mem_probeCalls {ctx : ContextAccumulator} {position : BitVec 64} {entry : BitVec 16}
    {i : Nat} {target datum : Byte} {left k : Nat} {p : ContextAccumulator} {c : NoiseCall}
    (h : c ∈ probeCalls shi slo ctx position entry (bytePosOf i) target datum left k p) :
    c.InRange := by
  induction left generalizing k p with
  | zero => exact absurd h List.not_mem_nil
  | succ left ih =>
    rw [probeCalls] at h
    rcases List.mem_cons.mp h with rfl | hrest
    · exact call_inRange p entry i
    · split at hrest
      · exact absurd hrest List.not_mem_nil
      · simp only at hrest
        split at hrest
        · exact absurd hrest List.not_mem_nil
        · exact ih hrest

theorem mem_evaporateCalls {data : Buffer} {left i : Nat} {ctx : ContextAccumulator}
    {c : NoiseCall} (h : c ∈ evaporateCalls shi slo data left i ctx) : c.InRange := by
  induction left generalizing i ctx with
  | zero => exact absurd h List.not_mem_nil
  | succ left ih =>
    rw [evaporateCalls] at h
    rcases List.mem_append.mp h with hprobe | hrest
    · exact mem_probeCalls hprobe
    · split at hrest
      · exact absurd hrest List.not_mem_nil
      · exact ih hrest

end Range

section Termination

/-- Where the model's loop has a result, so has the run on fuel, and the same. -/
theorem noiseRun_of_noiseLoop {entry j : BitVec 16} {words result : BitVec 64 × BitVec 64}
    (h : noiseLoop entry j words = some result) :
    ∃ fuel j', noiseRun entry fuel (j, words) = some (j', result) := by
  fun_induction noiseLoop entry j words with
  | case1 => cases h
  | case2 j words hle hne ih =>
    obtain ⟨fuel, j', hrun⟩ := ih h
    refine ⟨fuel + 1, j', ?_⟩
    rw [noiseRun, whileDo, if_pos (decide_eq_true hle), if_pos rfl]
    exact hrun
  | case3 j words hgt =>
    refine ⟨1, j, ?_⟩
    rw [noiseRun, whileDo, if_neg (by simpa using hgt)]
    exact congrArg (fun r => some (j, r)) (Option.some.inj h)

/-- No 16-bit counter exceeds 0xFFFF. -/
theorem noiseRun_endless (fuel : Nat) (s : BitVec 16 × BitVec 64 × BitVec 64) :
    noiseRun 0xFFFF fuel s = none := by
  apply whileDo_eq_none (fun (_ : BitVec 16 × BitVec 64 × BitVec 64) => True)
  · intro s _
    refine ⟨decide_eq_true ?_, rfl, trivial⟩
    rw [BitVec.le_def]
    exact Nat.le_of_lt_succ s.1.isLt
  · trivial

/-- The loop of noise_at ends for every entry but the last. -/
theorem noiseRun_ends_iff (entry : BitVec 16) (words : BitVec 64 × BitVec 64) :
    (∃ fuel, (noiseRun entry fuel (0, words)).isSome) ↔ entry ≠ 0xFFFF := by
  constructor
  · rintro ⟨fuel, hsome⟩ rfl
    rw [noiseRun_endless] at hsome
    cases hsome
  · intro hne
    have hmax : (0xFFFF : BitVec 16).toNat = 0xFFFF := rfl
    have hzero : (0 : BitVec 16).toNat = 0 := rfl
    have hlt : entry.toNat < 0xFFFF := by
      have hval : entry.toNat ≠ 0xFFFF := fun h => hne (BitVec.eq_of_toNat_eq h)
      omega
    obtain ⟨fuel, j', hrun⟩ := noiseRun_of_noiseLoop
      (noiseLoop_eq hlt (entry.toNat + 1) (j := 0) (by omega) words)
    exact ⟨fuel, by rw [hrun]; rfl⟩

/-- A layer behaves as long as no position reaches entry 0xFFFF. -/
theorem wellBehaved_iff (shi slo : BitVec 64) (data : Buffer) (len : Nat) :
    WellBehaved shi slo data len ↔ len ≤ 917490 := by
  have hendless : endless = 917490 := rfl
  rw [← hendless]
  constructor
  · -- a longer layer has position 917490, whose first candidate is never computed
    intro h
    by_contra hlen
    have hreturns := h.returns
    rw [evaporateLayer_endless shi slo data (by omega)] at hreturns
    cases hreturns
  · intro hlen
    refine ⟨?_, fun i hi words => ?_, fun c hc => mem_evaporateCalls hc⟩
    · rw [evaporateLayer_eq shi slo data hlen]
      rfl
    · refine (noiseRun_ends_iff (entryOf i) words).mpr fun hlast => ?_
      have hentry := entry_lt (i := i) (by omega)
      rw [show BitVec.ofNat 16 (i / 14) = 0xFFFF from hlast] at hentry
      exact absurd hentry (by decide)

/-- On 917491 zero bytes the last position never gets its first candidate. -/
theorem not_wellBehaved : ¬∀ (shi slo : BitVec 64) (data : Buffer) (len : Nat),
    WellBehaved shi slo data len := by
  intro h
  have hreturns := (h 0 0 (fun _ => 0) 917491).returns
  rw [evaporateLayer_endless 0 0 (fun _ => 0) (by decide)] at hreturns
  cases hreturns

end Termination

end EmergenceOS.Vdev.ContextDrivenEngine
