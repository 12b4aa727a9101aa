/- Module: EmergenceOS/Vdev/TopologyRoute
   digest: The ten route bits of a value of the manifold. -/

import EmergenceOS.Vdev.Topology

set_option autoImplicit false
set_option relaxedAutoImplicit false

namespace EmergenceOS.Vdev.Topology

open EmergenceOS.Lib.Bytes

def lensMask : BitVec 16 := 0x3FF
def haltRoute : BitVec 16 := 0x3FF
def errorRoute : BitVec 16 := 0x3FE
def freeRoute : BitVec 16 := 0x3FD

def phiHi : BitVec 64 := 0x9E3779B97F4A7C15
def phiLo : BitVec 64 := 0x517CC1B727220A95

namespace Value128

def route (v : Value128) : BitVec 16 := (v.hi >>> 54).setWidth 16 &&& lensMask

def packRoute (v : Value128) (r : BitVec 16) : Value128 :=
  { v with hi :=
      (v.hi &&& (0x000FFFFFFFFFFFFF : BitVec 64)) ||| ((r &&& lensMask).setWidth 64 <<< 54) }

theorem lensMask_getLsbD (i : Nat) : lensMask.getLsbD i = decide (i < 10) :=
  getLsbD_lowMask (w := 16) (n := 10) (by decide) i

theorem toNat_and_lensMask (w : BitVec 16) : (w &&& lensMask).toNat ≤ 0x3FF := by
  rw [BitVec.toNat_and]
  exact Nat.and_le_right

theorem route_packRoute (v : Value128) (r : BitVec 16) :
    (v.packRoute r).route = r &&& lensMask := by
  apply BitVec.eq_of_getLsbD_eq
  intro i hi
  simp only [route, packRoute, BitVec.getLsbD_and, BitVec.getLsbD_setWidth,
    BitVec.getLsbD_ushiftRight, BitVec.getLsbD_or, BitVec.getLsbD_shiftLeft, lensMask_getLsbD]
  by_cases h10 : i < 10
  · have hpayload : (0x000FFFFFFFFFFFFF : BitVec 64).getLsbD (54 + i) = decide (54 + i < 52) :=
      getLsbD_lowMask (w := 64) (n := 52) (by decide) (54 + i)
    rw [decide_eq_false (by omega)] at hpayload
    rw [hpayload, Bool.and_false, Bool.false_or]
    simp [h10, hi, show 54 + i < 64 by omega, show ¬54 + i < 54 by omega, show i < 64 by omega]
  · simp [h10]

end Value128

end EmergenceOS.Vdev.Topology
