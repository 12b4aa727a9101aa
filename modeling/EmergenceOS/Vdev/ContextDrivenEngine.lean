/- Module: EmergenceOS/Vdev/ContextDrivenEngine
   digest: The evaporation layers that fold a sector into a stream of corrections. -/

import EmergenceOS.Lib.Bytes
import Mathlib.Logic.Function.Iterate

/-!
The engine never reads the manifold it is given: candidates come from the seeds,
the context and the position alone. A layer stores as many corrections as it
finds; only phase_fold knows how long the arrays are.
-/

set_option autoImplicit false
set_option relaxedAutoImplicit false

namespace EmergenceOS.Vdev.ContextDrivenEngine

open EmergenceOS.Lib.Bytes

def phiHi : BitVec 64 := 0x9E3779B97F4A7C15
def phiLo : BitVec 64 := 0x517CC1B727220A95

structure ContextAccumulator where
  hi : BitVec 64
  lo : BitVec 64
  deriving DecidableEq

namespace ContextAccumulator

def new : ContextAccumulator := ⟨0, 0⟩

def absorb (ctx : ContextAccumulator) (byte : Byte) : ContextAccumulator :=
  let hi := ctx.hi ^^^ (byte.setWidth 64 * phiHi)
  let hi := (hi <<< 7) ||| (hi >>> 57)
  let lo := ctx.lo ^^^ (byte.setWidth 64 * phiLo)
  let lo := (lo <<< 11) ||| (lo >>> 53)
  let hi := hi ^^^ (lo >>> 32)
  let lo := lo ^^^ (hi >>> 32)
  ⟨hi, lo⟩

def basis (ctx : ContextAccumulator) (n : BitVec 64) : Byte := (ctx.hi % n).setWidth 8

def slot (ctx : ContextAccumulator) (n : BitVec 64) : BitVec 16 := (ctx.lo % n).setWidth 16

end ContextAccumulator

def candidates : Nat := 2048

def positionCrc (shi slo : BitVec 64) (ctx : ContextAccumulator) (position : BitVec 64) : Byte :=
  let mix := ctx.hi ^^^ ctx.lo ^^^ (position * phiHi) ^^^ shi ^^^ slo
  let mix := mix ^^^ (mix >>> 33)
  let mix := mix * 0xFF51AFD7ED558CCD
  let mix := mix ^^^ (mix >>> 33)
  (mix &&& 0xFF).setWidth 8

def candidateCrc (shi slo : BitVec 64) (slot : BitVec 16) (basis : Byte) (entry : BitVec 16)
    (bytePos : Byte) (position ctxHi ctxLo : BitVec 64) : Byte :=
  let mix := shi ^^^ slo ^^^ (slot.setWidth 64 * phiHi) ^^^ (basis.setWidth 64 * phiLo) ^^^
    (entry.setWidth 64 <<< 16) ^^^ bytePos.setWidth 64 ^^^ (position * 0x94D049BB133111EB) ^^^
    ctxHi ^^^ (ctxLo <<< 3)
  let mix := mix ^^^ (mix >>> 33)
  let mix := mix * 0xC4CEB9FE1A85EC53
  let mix := mix ^^^ (mix >>> 33)
  (mix &&& 0xFF).setWidth 8

/-- The body of the loop of noise_at. -/
def noiseStep (s : BitVec 64 × BitVec 64) : BitVec 64 × BitVec 64 :=
  let sh := ((s.1 <<< 13) ||| (s.1 >>> 51)) ^^^ (s.2 * phiHi)
  let sl := ((s.2 <<< 17) ||| (s.2 >>> 47)) ^^^ (sh * phiLo)
  (sh, sl)

/-- The loop of noise_at from j on. For entry 0xFFFF the 16-bit counter wraps and the loop
never ends. -/
def noiseLoop (entry j : BitVec 16) (s : BitVec 64 × BitVec 64) :
    Option (BitVec 64 × BitVec 64) :=
  if j ≤ entry then
    if h : j = 0xFFFF then none else noiseLoop entry (j + 1) (noiseStep s)
  else some s
termination_by 0xFFFF - j.toNat
decreasing_by
  have hj : j.toNat ≠ 0xFFFF := fun he => h (BitVec.eq_of_toNat_eq he)
  have hlt := j.isLt
  rw [BitVec.toNat_add, Nat.mod_eq_of_lt] <;> simp <;> omega

def noiseAt (shi slo : BitVec 64) (slot : BitVec 16) (basis : Byte) (entry : BitVec 16)
    (bytePos : Byte) : Option Byte :=
  let sh := shi ^^^ (slot.setWidth 64 * phiLo) ^^^ (basis.setWidth 64 * 0xBF58476D1CE4E5B9)
  let sl := slo ^^^ (slot.setWidth 64 * phiHi) ^^^ (basis.setWidth 64 * 0x94D049BB133111EB)
  (noiseLoop entry 0 (sh, sl)).map fun s =>
    if bytePos < 8 then byteAt s.2 bytePos.toNat else byteAt s.1 (bytePos.toNat - 8)

structure Correction where
  delta : BitVec 32
  value : Byte
  eccParity : Byte
  deriving DecidableEq

namespace Correction

def expectedEcc (c : Correction) : Byte :=
  c.value ^^^ (c.delta &&& 0xFF).setWidth 8 ^^^ ((c.delta >>> 8) &&& 0xFF).setWidth 8

def generateEcc (c : Correction) : Correction := { c with eccParity := c.expectedEcc }

def verifyAndHeal (c : Correction) : Bool × Correction :=
  let expected := c.expectedEcc
  if expected ≠ c.eccParity then
    (false, { c with
      value := c.eccParity ^^^ (c.delta &&& 0xFF).setWidth 8 ^^^
        ((c.delta >>> 8) &&& 0xFF).setWidth 8 })
  else (true, c)

/-- sizeof(Correction), packed. -/
def size : Nat := 6

/-- The packed record in memory. -/
def bytes (c : Correction) : Buffer := fun k =>
  if k < 4 then byteAt c.delta k else if k < 5 then c.value else c.eccParity

end Correction

/-- The bytes of an array of corrections. -/
def packed (cs : List Correction) : Buffer := fun i =>
  match cs[i / Correction.size]? with
  | some c => c.bytes (i % Correction.size)
  | none => 0

/-- The probing loop with `left` candidates to go, the first of them number k. -/
def probe (shi slo : BitVec 64) (ctx : ContextAccumulator) (position : BitVec 64)
    (entry : BitVec 16) (bytePos target datum : Byte) :
    Nat → Nat → ContextAccumulator → Option Bool
  | 0, _, _ => some false
  | left + 1, k, p =>
    let basis := p.basis 64
    let slot := p.slot 1024
    (noiseAt shi slo slot basis entry bytePos).bind fun candidate =>
      let crc := candidateCrc shi slo slot basis entry bytePos position ctx.hi ctx.lo
      if candidate = datum ∧ crc = target then some true
      else probe shi slo ctx position entry bytePos target datum left (k + 1)
        (p.absorb (BitVec.ofNat 8 k))

/-- Position i of evaporate_layer: does a candidate match the data byte and the check? -/
def matched (shi slo : BitVec 64) (ctx : ContextAccumulator) (i : Nat) (datum : Byte) :
    Option Bool :=
  let position := BitVec.ofNat 64 i
  probe shi slo ctx position (BitVec.ofNat 16 (i / 14)) (BitVec.ofNat 8 (i % 14))
    (positionCrc shi slo ctx position) datum candidates 0 ctx

/-- The loop of evaporate_layer with `left` bytes to go, the first of them at position i. -/
def evaporateFrom (shi slo : BitVec 64) (data : Buffer) :
    Nat → Nat → ContextAccumulator → BitVec 32 → Option (List Correction)
  | 0, _, _, _ => some []
  | left + 1, i, ctx, sinceLast =>
    (matched shi slo ctx i (data i)).bind fun found =>
      if found then
        evaporateFrom shi slo data left (i + 1) (ctx.absorb (data i)) (sinceLast + 1)
      else
        (evaporateFrom shi slo data left (i + 1) (ctx.absorb (data i)) 0).map
          ((Correction.mk sinceLast (data i) 0).generateEcc :: ·)

/-- The corrections that evaporate_layer stores; none if it never returns. -/
def evaporateLayer (shi slo : BitVec 64) (data : Buffer) (len : Nat) :
    Option (List Correction) :=
  evaporateFrom shi slo data len 0 .new 0

/-- A layer into an array of the given capacity; a store behind its end has no defined result. -/
def evaporateInto (capacity : Nat) (shi slo : BitVec 64) (data : Buffer) (len : Nat) :
    Option (List Correction) :=
  (evaporateLayer shi slo data len).filter fun cs => decide (cs.length ≤ capacity)

/-- The residue that phase_fold leaves in final_residue. -/
def phaseFold (masterSeedHi masterSeedLo : BitVec 64) (data : Buffer) (len : Nat) :
    Option (List Correction) :=
  (evaporateInto 4096 (masterSeedHi ^^^ 0x1111111111111111) masterSeedLo data len).bind
    fun layer1 =>
      if layer1 = [] then some []
      else
        (evaporateInto 1024 (masterSeedHi ^^^ 0x2222222222222222) masterSeedLo
          (packed layer1) (layer1.length * Correction.size)).bind fun layer2 =>
            if layer2 = [] then some []
            else
              evaporateInto 256 (masterSeedHi ^^^ 0x3333333333333333) masterSeedLo
                (packed layer2) (layer2.length * Correction.size)

theorem evaporateInto_length {capacity : Nat} {shi slo : BitVec 64} {data : Buffer} {len : Nat}
    {cs : List Correction} (h : evaporateInto capacity shi slo data len = some cs) :
    cs.length ≤ capacity := by
  simp only [evaporateInto, Option.filter_eq_some_iff, decide_eq_true_eq] at h
  exact h.2

/-- Three layers return at most what the last array holds. -/
theorem phaseFold_length {masterSeedHi masterSeedLo : BitVec 64} {data : Buffer} {len : Nat}
    {cs : List Correction} (h : phaseFold masterSeedHi masterSeedLo data len = some cs) :
    cs.length ≤ 256 := by
  obtain ⟨layer1, -, h⟩ := Option.bind_eq_some_iff.mp h
  split at h
  · cases h
    exact Nat.zero_le _
  obtain ⟨layer2, -, h⟩ := Option.bind_eq_some_iff.mp h
  split at h
  · cases h
    exact Nat.zero_le _
  · exact evaporateInto_length h

end EmergenceOS.Vdev.ContextDrivenEngine
