/- Module: EmergenceOS/Mm/AllocatorFailure
   digest: When a null result of allocate leaves no trace in the results of later calls. -/

import EmergenceOS.Mm.PhysicalMemory

/-!
Null is also the address of the region that begins at 0, so a call may return it and
have handed out memory.
-/

set_option autoImplicit false
set_option relaxedAutoImplicit false

namespace EmergenceOS.Mm.PhysicalMemory

/-- The results of a sequence of calls. -/
def results : PhysicalMemory → List (BitVec 64) → List (BitVec 64)
  | _, [] => []
  | m, size :: sizes =>
    let (p, m) := m.allocate size
    p :: results m sizes

/-- Whatever is requested afterwards, the results are those without the call. -/
def Unobservable (m : PhysicalMemory) (size : BitVec 64) : Prop :=
  ∀ sizes, results (m.allocate size).2 sizes = results m sizes

/-- The region that begins at address 0 is free, and the request fits. -/
def ZeroGranted (m : PhysicalMemory) (size : BitVec 64) : Prop :=
  roundUp m.currentAddress = 0 ∧ 0 < size ∧ size < m.maxAddress

instance (m : PhysicalMemory) (size : BitVec 64) : Decidable (ZeroGranted m size) :=
  inferInstanceAs (Decidable (_ ∧ _))

/-- The address stays where the rounding put it, which may be 0 behind the last boundary. -/
theorem toNat_roundUp_mod (a : BitVec 64) : (roundUp a).toNat % 16384 = 0 := by
  have hlit : (16384 : BitVec 64).toNat = 16384 := rfl
  have hmod : (a % 16384).toNat = a.toNat % 16384 := by rw [BitVec.toNat_umod, hlit]
  unfold roundUp
  split
  · rw [BitVec.toNat_add, BitVec.toNat_sub, hmod, hlit]
    omega
  · rename_i h0
    rw [← hmod, not_not.mp h0]
    rfl

theorem roundUp_of_aligned {a : BitVec 64} (h : a.toNat % 16384 = 0) : roundUp a = a := by
  have hlit : (16384 : BitVec 64).toNat = 16384 := rfl
  have hzero : a % 16384 = 0 := by
    apply BitVec.eq_of_toNat_eq
    rw [BitVec.toNat_umod, hlit, h]
    rfl
  rw [roundUp, if_neg (not_not_intro hzero)]

theorem roundUp_roundUp (a : BitVec 64) : roundUp (roundUp a) = roundUp a :=
  roundUp_of_aligned (toNat_roundUp_mod a)

/-- Only the rounded address decides what a call does. -/
theorem allocate_congr {m m' : PhysicalMemory}
    (haddress : roundUp m.currentAddress = roundUp m'.currentAddress)
    (hmax : m.maxAddress = m'.maxAddress) (size : BitVec 64) :
    m.allocate size = m'.allocate size := by
  simp only [allocate, haddress, hmax]

theorem results_congr {m m' : PhysicalMemory} (h : ∀ size, m.allocate size = m'.allocate size)
    (sizes : List (BitVec 64)) : results m sizes = results m' sizes := by
  cases sizes with
  | nil => rfl
  | cons size sizes => simp only [results, h size]

/-- A refusal moves the address to the boundary, where the next call would move it too. -/
theorem allocate_refused {m : PhysicalMemory} {size : BitVec 64}
    (h : m.maxAddress ≤ roundUp m.currentAddress + size) :
    m.allocate size = (0, ⟨roundUp m.currentAddress, m.maxAddress⟩) := by
  simp only [allocate, if_pos h]

theorem allocate_granted {m : PhysicalMemory} {size : BitVec 64}
    (h : ¬m.maxAddress ≤ roundUp m.currentAddress + size) :
    m.allocate size =
      (roundUp m.currentAddress, ⟨roundUp m.currentAddress + size, m.maxAddress⟩) := by
  simp only [allocate, if_neg h]

theorem unobservable_of_boundary {m : PhysicalMemory} {size : BitVec 64}
    (h : (m.allocate size).2 = ⟨roundUp m.currentAddress, m.maxAddress⟩) :
    Unobservable m size := by
  intro sizes
  rw [h]
  exact results_congr
    (allocate_congr (m := ⟨roundUp m.currentAddress, m.maxAddress⟩) (roundUp_roundUp _) rfl) sizes

/-- The request that makes the end of the next region wrap to 0. -/
def probeSize (size : BitVec 64) : BitVec 64 := 0 - roundUp size

/-- Behind a region at address 0 that request is granted an address that is not null. -/
theorem results_probe_granted {max size : BitVec 64} (hpos : 0 < size) (hlt : size < max)
    (hmax : max.toNat ≤ 2 ^ 64 - 16384) :
    ∃ p, p ≠ 0 ∧ results ⟨size, max⟩ [probeSize size] = [p] := by
  have hzero : (0 : BitVec 64).toNat = 0 := rfl
  have hround : (roundUp size).toNat = (size.toNat + 16383) / 16384 * 16384 :=
    toNat_roundUp (by have := BitVec.lt_def.mp hlt; omega)
  have hsum : roundUp size + probeSize size = 0 := by
    rw [probeSize]
    apply BitVec.eq_of_toNat_eq
    rw [BitVec.toNat_add, BitVec.toNat_sub, hzero]
    have := (roundUp size).isLt
    omega
  refine ⟨roundUp size, ?_, ?_⟩
  · intro hnull
    rw [hnull, hzero] at hround
    have := BitVec.lt_def.mp hpos
    omega
  · have hgrant : ¬max ≤ roundUp size + probeSize size := by
      rw [hsum, BitVec.not_le, BitVec.lt_def, hzero]
      have := BitVec.lt_def.mp hlt
      omega
    simp only [results, allocate_granted (m := ⟨size, max⟩) hgrant]

/-- At address 0 every request below the limit is granted. -/
theorem allocate_at_zero {m : PhysicalMemory} (h : roundUp m.currentAddress = 0)
    {size : BitVec 64} (hlt : size < m.maxAddress) :
    m.allocate size = (0, ⟨size, m.maxAddress⟩) := by
  have hend : roundUp m.currentAddress + size = size := by rw [h]; exact BitVec.zero_add size
  rw [allocate_granted (by rwa [hend, BitVec.not_le]), hend, h]

theorem results_at_zero {m : PhysicalMemory} (h : roundUp m.currentAddress = 0)
    (size : BitVec 64) : results m [size] = [0] := by
  simp only [results, allocate, h, List.cons.injEq, and_true]
  split <;> rfl

theorem zeroGranted_observable {m : PhysicalMemory} {size : BitVec 64}
    (hmax : m.maxAddress.toNat ≤ 2 ^ 64 - 16384) (h : ZeroGranted m size) :
    ¬Unobservable m size := by
  obtain ⟨haddress, hpos, hlt⟩ := h
  intro hsame
  obtain ⟨p, hp, hprobe⟩ := results_probe_granted hpos hlt hmax
  have hresults := hsame [probeSize size]
  rw [allocate_at_zero haddress hlt, hprobe, results_at_zero haddress] at hresults
  exact hp (List.cons.inj hresults).1

/-- A null result leaves no trace unless the null is the address of what was handed out. -/
theorem unobservable_iff {m : PhysicalMemory} {size : BitVec 64}
    (hmax : m.maxAddress.toNat ≤ 2 ^ 64 - 16384) (hnull : (m.allocate size).1 = 0) :
    Unobservable m size ↔ ¬ZeroGranted m size := by
  refine ⟨fun h hzero => zeroGranted_observable hmax hzero h, fun hrefused => ?_⟩
  apply unobservable_of_boundary
  by_cases hfull : m.maxAddress ≤ roundUp m.currentAddress + size
  · rw [allocate_refused hfull]
  · -- the null is address 0, so nothing was consumed only if nothing was asked for
    have haddress : roundUp m.currentAddress = 0 := by rwa [allocate_granted hfull] at hnull
    have hend : roundUp m.currentAddress + size = size := by
      rw [haddress]
      exact BitVec.zero_add size
    have hlt : size < m.maxAddress := by rwa [hend, BitVec.not_le] at hfull
    have hsize : size = 0 := by
      apply BitVec.eq_of_toNat_eq
      have hpos : ¬0 < size := fun hpos => hrefused ⟨haddress, hpos, hlt⟩
      rw [BitVec.lt_def] at hpos
      exact Nat.eq_zero_of_not_pos hpos
    rw [allocate_granted hfull, hend, haddress, hsize]

/-- kmain's pool after a request whose end wraps to address 0. -/
def wrappedPool : PhysicalMemory :=
  ((new 0x2000000 0x40000000).allocate 0xFFFFFFFFFE000000).2

theorem unobservable_iff_at_full_pool : Unobservable (new 0x2000000 0x40000000) 0x40000000 ↔
    ¬ZeroGranted (new 0x2000000 0x40000000) 0x40000000 :=
  unobservable_iff (by decide) (by decide)

/-- Sixteen bytes at address 0 are handed out, and the next request gets another address. -/
theorem wrappedPool_observable : ¬∀ (m : PhysicalMemory) (size : BitVec 64),
    m.maxAddress.toNat ≤ 2 ^ 64 - 16384 → (m.allocate size).1 = 0 →
      ∀ sizes, results (m.allocate size).2 sizes = results m sizes := by
  intro h
  have hsame := h wrappedPool 16 (by decide) (by decide) [16]
  revert hsame
  decide

end EmergenceOS.Mm.PhysicalMemory
