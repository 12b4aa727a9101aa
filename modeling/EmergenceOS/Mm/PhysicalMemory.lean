/- Module: EmergenceOS/Mm/PhysicalMemory
   digest: The bump allocator: the regions it hands out as long as no address sum wraps. -/

import EmergenceOS.Lib.GuardedRun
import Mathlib.Algebra.Group.Nat.Defs

/-!
Addresses and sizes are 64-bit words. Rounding up and the limit test both add
without a check, and a sum that wraps passes the test.
-/

set_option autoImplicit false
set_option relaxedAutoImplicit false

namespace EmergenceOS.Mm

open EmergenceOS.Lib.GuardedRun

structure PhysicalMemory where
  currentAddress : BitVec 64
  maxAddress : BitVec 64
  deriving DecidableEq

namespace PhysicalMemory

def new (start total : BitVec 64) : PhysicalMemory := ⟨start, start + total⟩

/-- The first statement of allocate. -/
def roundUp (a : BitVec 64) : BitVec 64 :=
  if a % 16384 ≠ 0 then a + (16384 - a % 16384) else a

/-- The result is null, zero, when the request is refused. -/
def allocate (m : PhysicalMemory) (size : BitVec 64) : BitVec 64 × PhysicalMemory :=
  let m := { m with currentAddress := roundUp m.currentAddress }
  if m.maxAddress ≤ m.currentAddress + size then (0, m)
  else (m.currentAddress, { m with currentAddress := m.currentAddress + size })

/-- The bytes handed out for one request. -/
structure Region where
  base : BitVec 64
  size : BitVec 64
  deriving DecidableEq

/-- An allocator and the regions of its non-null results, the newest first. -/
structure Heap where
  memory : PhysicalMemory
  regions : List Region

def boot (start total : BitVec 64) : Heap := ⟨new start total, []⟩

/-- One call, as operator new forwards it. -/
def request (h : Heap) (size : BitVec 64) : Heap :=
  let (p, m) := h.memory.allocate size
  ⟨m, if p = 0 then h.regions else ⟨p, size⟩ :: h.regions⟩

def Region.end_ (r : Region) : Nat := r.base.toNat + r.size.toNat

/-- What the results of all calls so far look like. -/
structure WellPlaced (start total : BitVec 64) (h : Heap) : Prop where
  aligned : ∀ r ∈ h.regions, r.base.toNat % 16384 = 0
  inside : ∀ r ∈ h.regions, start.toNat ≤ r.base.toNat ∧ r.end_ ≤ start.toNat + total.toNat
  disjoint : h.regions.Pairwise fun r r' => r.end_ ≤ r'.base.toNat ∨ r'.end_ ≤ r.base.toNat

/-- The current address rounded up, as a number. -/
def nextBase (h : Heap) : Nat := (h.memory.currentAddress.toNat + 16383) / 16384 * 16384

/-- Rounding up does not wrap; the end of the region does not wrap either, unless the
wrapped sum is refused all the same. -/
def NoWrap (h : Heap) (size : BitVec 64) : Prop :=
  nextBase h < 2 ^ 64 ∧ (nextBase h + size.toNat < 2 ^ 64 ∨
    h.memory.maxAddress.toNat ≤ (nextBase h + size.toNat) % 2 ^ 64)

instance (h : Heap) (size : BitVec 64) : Decidable (NoWrap h size) :=
  inferInstanceAs (Decidable (_ ∧ _))

theorem toNat_roundUp {a : BitVec 64} (h : (a.toNat + 16383) / 16384 * 16384 < 2 ^ 64) :
    (roundUp a).toNat = (a.toNat + 16383) / 16384 * 16384 := by
  have hlit : (16384 : BitVec 64).toNat = 16384 := rfl
  have hmod : (a % 16384).toNat = a.toNat % 16384 := by rw [BitVec.toNat_umod, hlit]
  unfold roundUp
  split
  · rename_i hne
    have hpos : a.toNat % 16384 ≠ 0 := by
      intro h0
      exact hne (BitVec.eq_of_toNat_eq (hmod.trans h0))
    rw [BitVec.toNat_add, BitVec.toNat_sub, hmod, hlit]
    omega
  · rename_i h0
    have hzero : a.toNat % 16384 = 0 := by
      rw [← hmod, not_not.mp h0]
      rfl
    omega

/-- The next multiple of 16 KiB. -/
def alignUp (n : Nat) : Nat := (n + 16383) / 16384 * 16384

theorem le_alignUp (n : Nat) : n ≤ alignUp n := by
  unfold alignUp
  omega

theorem alignUp_lt (n : Nat) : alignUp n < n + 16384 := by
  unfold alignUp
  omega

theorem alignUp_mod (n : Nat) : alignUp n % 16384 = 0 := Nat.mul_mod_left _ _

theorem alignUp_of_mod {n : Nat} (h : n % 16384 = 0) : alignUp n = n := by
  unfold alignUp
  omega

theorem alignUp_add {n r : Nat} (h : n % 16384 = 0) (hpos : 0 < r) (hr : r ≤ 16384) :
    alignUp (n + r) = n + 16384 := by
  unfold alignUp
  omega

/-- A request that fits below the limit gets the next multiple of 16 KiB. -/
theorem allocate_fits {m : PhysicalMemory} {size : BitVec 64}
    (h : alignUp m.currentAddress.toNat + size.toNat < m.maxAddress.toNat) :
    (m.allocate size).1.toNat = alignUp m.currentAddress.toNat ∧
      (m.allocate size).2.currentAddress.toNat =
        alignUp m.currentAddress.toNat + size.toNat ∧
      (m.allocate size).2.maxAddress = m.maxAddress := by
  have hend64 := Nat.lt_trans h m.maxAddress.isLt
  have hbase : (roundUp m.currentAddress).toNat = alignUp m.currentAddress.toNat :=
    toNat_roundUp (Nat.lt_of_le_of_lt (Nat.le_add_right _ _) hend64)
  have hend : (roundUp m.currentAddress + size).toNat =
      alignUp m.currentAddress.toNat + size.toNat := by
    rw [BitVec.toNat_add, hbase, Nat.mod_eq_of_lt hend64]
  have hroom : ¬m.maxAddress ≤ roundUp m.currentAddress + size := by
    rw [BitVec.not_le, BitVec.lt_def, hend]
    exact h
  simp only [allocate, if_neg hroom]
  exact ⟨hbase, hend, trivial⟩

/-- The regions are well placed and all lie below the current address. -/
structure Stacked (start total : BitVec 64) (h : Heap) : Prop where
  placed : WellPlaced start total h
  limit : h.memory.maxAddress.toNat = start.toNat + total.toNat
  lower : start.toNat ≤ h.memory.currentAddress.toNat
  below : ∀ r ∈ h.regions, r.end_ ≤ h.memory.currentAddress.toNat

theorem boot_stacked {start total : BitVec 64} (h : start.toNat + total.toNat < 2 ^ 64) :
    Stacked start total (boot start total) := by
  refine ⟨⟨?_, ?_, List.Pairwise.nil⟩, ?_, Nat.le_refl _, ?_⟩
  · exact fun r hr => absurd hr List.not_mem_nil
  · exact fun r hr => absurd hr List.not_mem_nil
  · simp only [boot, new, BitVec.toNat_add]
    omega
  · exact fun r hr => absurd hr List.not_mem_nil

theorem request_stacked {start total : BitVec 64} (h : Heap) (size : BitVec 64)
    (hs : Stacked start total h) (hno : NoWrap h size) :
    Stacked start total (request h size) := by
  obtain ⟨⟨haligned, hinside, hdisjoint⟩, hlimit, hlower, hbelow⟩ := hs
  obtain ⟨hround, hsum⟩ := hno
  have hbase : (roundUp h.memory.currentAddress).toNat = nextBase h := toNat_roundUp hround
  have hup : h.memory.currentAddress.toNat ≤ nextBase h := by
    unfold nextBase
    omega
  have hmod : nextBase h % 16384 = 0 := Nat.mul_mod_left _ _
  have hend : (roundUp h.memory.currentAddress + size).toNat =
      (nextBase h + size.toNat) % 2 ^ 64 := by rw [BitVec.toNat_add, hbase]
  simp only [request, allocate]
  by_cases hfull : h.memory.maxAddress ≤ roundUp h.memory.currentAddress + size
  · -- refused: the address stays rounded up
    rw [if_pos hfull]
    simp only [if_true]
    refine ⟨⟨haligned, hinside, hdisjoint⟩, hlimit, ?_, fun r hr => ?_⟩
    · simp only [hbase]
      omega
    · have hr := hbelow r hr
      simp only [hbase]
      omega
  · have hlt : (nextBase h + size.toNat) % 2 ^ 64 < start.toNat + total.toNat := by
      rw [← hend, ← hlimit]
      exact BitVec.not_le.mp hfull
    have hnowrap : nextBase h + size.toNat < 2 ^ 64 := by omega
    rw [Nat.mod_eq_of_lt hnowrap] at hend hlt
    rw [if_neg hfull]
    simp only
    by_cases hnull : roundUp h.memory.currentAddress = 0
    · rw [if_pos hnull]
      refine ⟨⟨haligned, hinside, hdisjoint⟩, hlimit, ?_, fun r hr => ?_⟩
      · simp only [hend]
        omega
      · have hr := hbelow r hr
        simp only [hend]
        omega
    · rw [if_neg hnull]
      have hregion : (Region.mk (roundUp h.memory.currentAddress) size).end_ =
          nextBase h + size.toNat := by
        simp only [Region.end_, hbase]
      refine ⟨⟨?_, ?_, ?_⟩, hlimit, ?_, ?_⟩
      · intro r hr
        rcases List.mem_cons.mp hr with rfl | hr
        · simp only [hbase, hmod]
        · exact haligned r hr
      · intro r hr
        rcases List.mem_cons.mp hr with rfl | hr
        · rw [hregion]
          simp only [hbase]
          omega
        · exact hinside r hr
      · refine List.pairwise_cons.mpr ⟨fun r hr => Or.inr ?_, hdisjoint⟩
        have hr := hbelow r hr
        simp only [hbase]
        omega
      · simp only [hend]
        omega
      · intro r hr
        rcases List.mem_cons.mp hr with rfl | hr
        · rw [hregion]
          simp only [hend, Nat.le_refl]
        · have hr := hbelow r hr
          simp only [hend]
          omega

/-- While no sum wraps, the results are aligned, inside the memory and disjoint. -/
theorem wellPlaced_of_noWrap (start total : BitVec 64)
    (htop : start.toNat + total.toNat < 2 ^ 64) (sizes : List (BitVec 64))
    (h : Guarded request NoWrap (boot start total) sizes) :
    Throughout request (WellPlaced start total) (boot start total) sizes :=
  (throughout_of_guarded (fun s e => request_stacked s e) (boot_stacked htop) h).imp
    fun _ hs => hs.placed

/-- The kernel's memory, an ordinary request and one that is far too large. -/
theorem wellPlaced_of_noWrap_kernel :
    Throughout request (WellPlaced 0x2000000 0x40000000) (boot 0x2000000 0x40000000)
      [4096, 0x80000000, 16384] :=
  wellPlaced_of_noWrap 0x2000000 0x40000000 (by decide) [4096, 0x80000000, 16384] (by decide)

/-- A size of 2^64 - 16384 wraps back to below the start, and the region is handed out. -/
theorem not_wellPlaced_wrapped :
    (0x2000000 : BitVec 64).toNat + (0x40000000 : BitVec 64).toNat < 2 ^ 64 ∧
      ¬Throughout request (WellPlaced 0x2000000 0x40000000) (boot 0x2000000 0x40000000)
        [0xFFFFFFFFFFFFC000, 16384] := by
  refine ⟨by decide, fun h => ?_⟩
  have hlast := h.last.inside ⟨0x1FFC000, 16384⟩ (by decide)
  exact absurd hlast.1 (by decide)

end PhysicalMemory

end EmergenceOS.Mm
