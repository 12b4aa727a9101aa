/- Module: EmergenceOS/Vdev/SubstrateRefusal
   digest: What a refused read leaves behind in the buffer and in the bookkeeping. -/

import EmergenceOS.Vdev.SubstrateService
import Mathlib.Data.Nat.Find

/-!
serve_read moves its two marks before it looks at any address, and tests each address
only when the sectors before it have been copied. Refusing takes nothing back.
-/

set_option autoImplicit false
set_option relaxedAutoImplicit false

namespace EmergenceOS.Vdev.SubstrateService

open EmergenceOS.Lib.Bytes EmergenceOS.Vdev.Topology

section
variable (m : SubstrateManifold) (guestLba : BitVec 64)

/-- The buffer when the first r sectors have been copied. -/
def copied (buf : Buffer) : Nat → Buffer
  | 0 => buf
  | r + 1 =>
    copyAtoms m (sectorVaddr guestLba r) (bufferOffset r) (sectorBytes / 16) 0 (copied buf r)

/-- Of the sectors before number r, i is the last one copied to its place in the buffer. -/
def LastThere (r i : Nat) : Prop := ∀ j < r, i < j → bufferOffset j ≠ bufferOffset i

/-- The buffer has what the first r sectors leave in it already. -/
def InBuffer (buf : Buffer) (r : Nat) : Prop :=
  ∀ i < r, LastThere r i → ∀ k < sectorBytes,
    buf (bufferOffset i + k) = sectorByte m (sectorVaddr guestLba i) k

/-- Sector r is the first one at or behind the capacity. -/
structure FirstRefused (capacity : BitVec 64) (r : Nat) : Prop where
  refused : capacity ≤ sectorVaddr guestLba r
  first : ∀ i < r, sectorVaddr guestLba i < capacity

variable {m guestLba}

theorem bufferOffset_mod (i : Nat) : bufferOffset i % sectorBytes = 0 := by
  have h512 : (512 : BitVec 32).toNat = 512 := rfl
  simp only [bufferOffset, BitVec.toNat_mul, BitVec.toNat_ofNat, h512, sectorBytes]
  omega

/-- The places of two sectors in the buffer are the same or apart. -/
theorem bufferOffset_eq_of_meet {i j x : Nat} (hi : bufferOffset i ≤ x)
    (hi' : x < bufferOffset i + sectorBytes) (hj : bufferOffset j ≤ x)
    (hj' : x < bufferOffset j + sectorBytes) : bufferOffset i = bufferOffset j := by
  have hS : sectorBytes = 512 := rfl
  have hmod := bufferOffset_mod i
  have hmod' := bufferOffset_mod j
  rw [hS] at hi' hj' hmod hmod'
  omega

theorem copied_succ_apply (buf : Buffer) (r x : Nat) :
    copied m guestLba buf (r + 1) x =
      if bufferOffset r ≤ x ∧ x < bufferOffset r + sectorBytes then
        sectorByte m (sectorVaddr guestLba r) (x - bufferOffset r)
      else copied m guestLba buf r x := by
  rw [copied, copyAtoms_apply]
  simp only [Nat.mul_zero, Nat.add_zero, Nat.zero_add, show 16 * (sectorBytes / 16) = sectorBytes
    from rfl]

theorem copied_of_lastThere (buf : Buffer) {r i : Nat} (hi : i < r) (hlast : LastThere r i)
    {k : Nat} (hk : k < sectorBytes) : copied m guestLba buf r (bufferOffset i + k) =
      sectorByte m (sectorVaddr guestLba i) k := by
  induction r with
  | zero => omega
  | succ r ih =>
    rw [copied_succ_apply]
    rcases Nat.lt_succ_iff_lt_or_eq.mp hi with hlt | rfl
    · rw [if_neg ?_]
      · exact ih hlt fun j hj hij => hlast j (by omega) hij
      · rintro ⟨hge, hin⟩
        exact hlast r (by omega) hlt
          (bufferOffset_eq_of_meet hge hin (Nat.le_add_right _ _) (by omega))
    · rw [if_pos ⟨Nat.le_add_right _ _, by omega⟩, Nat.add_sub_cancel_left]

/-- A byte that some sector went over holds what the last one put there. -/
theorem copied_cases (buf : Buffer) (r x : Nat) : copied m guestLba buf r x = buf x ∨
    ∃ i < r, LastThere r i ∧ ∃ k < sectorBytes, bufferOffset i + k = x := by
  induction r with
  | zero => exact Or.inl rfl
  | succ r ih =>
    rw [copied_succ_apply]
    split
    · rename_i hin
      refine Or.inr ⟨r, Nat.lt_succ_self r, fun j hj hrj => ?_, x - bufferOffset r, ?_, ?_⟩ <;>
        omega
    · rename_i hout
      rcases ih with hsame | ⟨i, hi, hlast, k, hk, rfl⟩
      · exact Or.inl hsame
      · refine Or.inr ⟨i, by omega, fun j hj hij => ?_, k, hk, rfl⟩
        rcases Nat.lt_succ_iff_lt_or_eq.mp hj with hlt | rfl
        · exact hlast j hlt hij
        · intro he
          exact hout ⟨by omega, by omega⟩

/-- The copies change nothing exactly if the buffer has their outcome already. -/
theorem copied_eq_self_iff (buf : Buffer) (r : Nat) :
    copied m guestLba buf r = buf ↔ InBuffer m guestLba buf r := by
  constructor
  · intro h i hi hlast k hk
    rw [← copied_of_lastThere buf hi hlast hk, h]
  · intro h
    funext x
    have hcases : copied m guestLba buf r x = buf x ∨ _ := copied_cases buf r x
    rcases hcases with hsame | ⟨i, hi, hlast, k, hk, rfl⟩
    · exact hsame
    · rw [copied_of_lastThere buf hi hlast hk]
      exact (h i hi hlast k hk).symm

/-- The loop stops at the first sector refused, with those before it copied. -/
theorem readSectors_of_firstRefused {capacity : BitVec 64} {r : Nat}
    (h : FirstRefused guestLba capacity r) (buf : Buffer) {left i : Nat} (hi : i ≤ r)
    (hr : r < i + left) :
    readSectors m capacity guestLba left i (copied m guestLba buf i) =
      (false, copied m guestLba buf r) := by
  induction left generalizing i with
  | zero => omega
  | succ left ih =>
    rw [readSectors]
    rcases Nat.lt_or_eq_of_le hi with hlt | rfl
    · rw [if_neg (BitVec.not_le.mpr (h.first i hlt))]
      exact ih hlt (by omega)
    · rw [if_pos h.refused]

theorem exists_firstRefused {capacity : BitVec 64} {left : Nat} {buf : Buffer}
    (h : (readSectors m capacity guestLba left 0 buf).1 = false) :
    ∃ r < left, FirstRefused guestLba capacity r := by
  have hrefused : ∃ r, r < left ∧ capacity ≤ sectorVaddr guestLba r := by
    by_contra hnone
    have haccepted := (readSectors_fst m capacity guestLba left 0 buf).mpr fun j _ hj =>
      BitVec.not_le.mp fun hcap => hnone ⟨j, by omega, hcap⟩
    rw [h] at haccepted
    cases haccepted
  classical
  obtain ⟨hlt, hcap⟩ := Nat.find_spec hrefused
  refine ⟨Nat.find hrefused, hlt, hcap, fun i hi => ?_⟩
  by_contra hnot
  exact Nat.find_min hrefused hi ⟨by omega, BitVec.not_lt.mp hnot⟩

end

namespace Service

/-- A read that is refused leaves the buffer and both marks as they were. -/
def RefusesClean (svc : Service) (guestLba : BitVec 64) (sectorCount : BitVec 32)
    (buf : Buffer) : Prop :=
  (svc.serveRead guestLba sectorCount buf).1 = false →
    (svc.serveRead guestLba sectorCount buf).2.2 = buf ∧
    (svc.serveRead guestLba sectorCount buf).2.1.highestAccessedVaddr = svc.highestAccessedVaddr ∧
    (svc.serveRead guestLba sectorCount buf).2.1.preemptionHorizon = svc.preemptionHorizon

/-- The request starts below the highest address seen so far, or just there with the same
horizon as before. -/
def MarksStay (svc : Service) (guestLba : BitVec 64) (sectorCount : BitVec 32) : Prop :=
  guestLba * 512 < svc.highestAccessedVaddr ∨
    guestLba * 512 = svc.highestAccessedVaddr ∧
      svc.preemptionHorizon = guestLba * 512 + (sectorCount * 512).setWidth 64

theorem serveRead_marks_iff (svc : Service) (guestLba : BitVec 64) (sectorCount : BitVec 32)
    (buf : Buffer) :
    (svc.serveRead guestLba sectorCount buf).2.1.highestAccessedVaddr = svc.highestAccessedVaddr ∧
        (svc.serveRead guestLba sectorCount buf).2.1.preemptionHorizon = svc.preemptionHorizon ↔
      svc.MarksStay guestLba sectorCount := by
  simp only [serveRead, MarksStay]
  split
  · rename_i hle
    rw [or_iff_right (BitVec.not_lt.mpr hle), eq_comm (a := svc.preemptionHorizon)]
  · rename_i hlt
    exact iff_of_true ⟨rfl, rfl⟩ (Or.inl (BitVec.not_le.mp hlt))

/-- Refusing goes unnoticed exactly if no sector is refused, or the marks stay where they are
and the sectors before the one refused are in the buffer already. -/
theorem refusesClean_iff (svc : Service) (guestLba : BitVec 64) (sectorCount : BitVec 32)
    (buf : Buffer) : svc.RefusesClean guestLba sectorCount buf ↔
      ∀ r < sectorCount.toNat, FirstRefused guestLba svc.virtualCapacityBytes r →
        svc.MarksStay guestLba sectorCount ∧ InBuffer svc.manifold guestLba buf r := by
  have hread := svc.serveRead_eq guestLba sectorCount buf
  have hok := congrArg Prod.fst hread
  have hbuf := congrArg Prod.snd hread
  simp only at hok hbuf
  rw [RefusesClean, serveRead_marks_iff, hok, hbuf]
  have hloop {r : Nat} (hr : r < sectorCount.toNat)
      (hfirst : FirstRefused guestLba svc.virtualCapacityBytes r) :=
    readSectors_of_firstRefused (m := svc.manifold) hfirst buf (Nat.zero_le r)
      (show r < 0 + sectorCount.toNat by omega)
  constructor
  · intro h r hr hfirst
    have hrefused := hloop hr hfirst
    rw [copied] at hrefused
    rw [hrefused] at h
    obtain ⟨hsame, hmarks⟩ := h rfl
    exact ⟨hmarks, (copied_eq_self_iff buf r).mp hsame⟩
  · intro h hfalse
    obtain ⟨r, hr, hfirst⟩ := exists_firstRefused hfalse
    have hrefused := hloop hr hfirst
    rw [copied] at hrefused
    obtain ⟨hmarks, hin⟩ := h r hr hfirst
    rw [hrefused]
    exact ⟨(copied_eq_self_iff buf r).mpr hin, hmarks⟩

/-- One sector right behind the capacity: refused, and the highest address moves there. -/
theorem not_refusesClean_behind_capacity :
    ¬(new .enterprise SubstrateManifold.zeroed none).RefusesClean
      (BitVec.ofNat 64 (10 * 2 ^ 31)) 1 (fun _ => 0) := by
  intro h
  have hmarks := (serveRead_marks_iff _ _ 1 _).mp (h (by decide)).2
  exact absurd hmarks (by unfold MarksStay new; decide)

end Service

end EmergenceOS.Vdev.SubstrateService
