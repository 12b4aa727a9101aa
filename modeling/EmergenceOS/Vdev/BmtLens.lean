/- Module: EmergenceOS/Vdev/BmtLens
   digest: Different master seeds give different lens keys and different expanded blocks. -/

import EmergenceOS.Lib.Mixing
import EmergenceOS.Vdev.BmtTopology
import Mathlib.Data.Prod.Basic

/-!
The key rounds and the stream step are mixing steps with rotations, so nothing is
lost on the way from a seed to a stream state. An entry keeps all of its state but
the top 12 bits of the high word; the next step rotates these to the low end.
-/

set_option autoImplicit false
set_option relaxedAutoImplicit false

namespace EmergenceOS.Vdev.BmtTopology

open EmergenceOS.Lib.Mixing

theorem lensRound_eq (i : BitVec 64) (mix : BitVec 64 × BitVec 64) :
    lensRound i mix = Prod.map (· + i) id
      (mixStep (rotl 7) (rotl 11) (· * phiHi) (· * phiLo) mix) := rfl

theorem lensRound_injective (i : BitVec 64) : Function.Injective (lensRound i) := by
  have hadd : Function.Injective (· + i : BitVec 64 → BitVec 64) := by
    intro x y hxy
    exact (BitVec.add_left_inj i).mp hxy
  have hstep := mixStep_injective (rotl_injective (w := 64) (r := 7) (by decide))
    (rotl_injective (w := 64) (r := 11) (by decide)) (· * phiHi) (· * phiLo)
  intro x y hxy
  rw [lensRound_eq, lensRound_eq] at hxy
  exact hstep (Function.Injective.prodMap hadd Function.injective_id hxy)

theorem spin_eq (s : BitVec 64 × BitVec 64) :
    spin s = mixStep (rotl 13) (rotl 17) (· * phiHi) (· * phiLo) s := rfl

theorem spin_injective : Function.Injective spin := by
  have hstep := mixStep_injective (rotl_injective (w := 64) (r := 13) (by decide))
    (rotl_injective (w := 64) (r := 17) (by decide)) (· * phiHi) (· * phiLo)
  intro x y hxy
  rw [spin_eq, spin_eq] at hxy
  exact hstep hxy

theorem generate_injective (i : Fin lensCount) {s s' : Seed} (h : generate s i = generate s' i) :
    s = s' := by
  obtain ⟨hhi, hlo⟩ := LensKey.mk.inj h
  have hmix := (lensRound_injective (BitVec.ofNat 64 i.val)).iterate 64 (Prod.ext hhi hlo)
  obtain ⟨hmhi, hmlo⟩ := Prod.mk.inj hmix
  cases s
  cases s'
  exact Seed.mk.injEq .. ▸ ⟨xor_right_injective _ hmhi, xor_right_injective _ hmlo⟩

/-- Two states that agree in an entry agree in the low word and in 52 bits of the high one. -/
theorem eq_of_packRoute_eq {v v' : Value128} {r r' : BitVec 16}
    (h : v.packRoute r = v'.packRoute r') :
    v.lo = v'.lo ∧ ∀ j < 52, v.hi.getLsbD j = v'.hi.getLsbD j := by
  have hlo : (v.packRoute r).lo = (v'.packRoute r').lo := congrArg Value128.lo h
  refine ⟨hlo, fun j hj => ?_⟩
  rw [← Value128.packRoute_payloadBit v r hj, h, Value128.packRoute_payloadBit v' r' hj]

/-- What the first entry hides of a state, the second one shows. -/
theorem eq_of_two_entries {s s' : BitVec 64 × BitVec 64} {r : BitVec 16}
    (h0 : (Value128.mk s.1 s.2).packRoute r = (Value128.mk s'.1 s'.2).packRoute r)
    (h1 : (Value128.mk (spin s).1 (spin s).2).packRoute r =
      (Value128.mk (spin s').1 (spin s').2).packRoute r) : s = s' := by
  obtain ⟨hlo, hlow⟩ := eq_of_packRoute_eq h0
  obtain ⟨-, hnext⟩ := eq_of_packRoute_eq h1
  simp only at hlo hlow hnext
  refine Prod.ext (BitVec.eq_of_getLsbD_eq fun j hj => ?_) hlo
  by_cases h52 : j < 52
  · exact hlow j h52
  · have hbit := hnext (j + 13 - 64) (by omega)
    simp only [spin_eq, mixStep, BitVec.getLsbD_xor, hlo] at hbit
    rw [getLsbD_rotl_of_ge _ (by decide) hj (by omega),
      getLsbD_rotl_of_ge _ (by decide) hj (by omega)] at hbit
    exact Bool.xor_left_inj.mp hbit

theorem expandedBlock_entry (lk : LensKey) (e : Fin entriesPerBlock) :
    (expandedBlock lk).entries e =
      (Value128.mk (spin^[e.val + 1] (lk.hi, lk.lo)).1
        (spin^[e.val + 1] (lk.hi, lk.lo)).2).packRoute freeRoute := rfl

theorem expandedBlock_injective {lk lk' : LensKey}
    (h : ∀ e : Fin entriesPerBlock, e.val < 2 →
      (expandedBlock lk).entries e = (expandedBlock lk').entries e) : lk = lk' := by
  have h0 := h ⟨0, by decide⟩ (by decide)
  have h1 := h ⟨1, by decide⟩ (by decide)
  simp only [expandedBlock_entry, Function.iterate_succ_apply', Function.iterate_zero, id] at h0 h1
  have hstate := spin_injective (eq_of_two_entries h0 h1)
  cases lk
  cases lk'
  obtain ⟨rfl, rfl⟩ := Prod.mk.inj hstate
  rfl

namespace Topology

/-- Different seeds show in every lens key and in the first two entries of every block. -/
theorem initializeWith_separates (t t' : Topology) (s s' : Seed) (h : s ≠ s')
    (i : Fin lensCount) :
    generate s i ≠ generate s' i ∧ ∃ b b', (t.initializeWith s).level1 i = some b ∧
      (t'.initializeWith s').level1 i = some b' ∧
      ∃ e : Fin entriesPerBlock, (e.val = 0 ∨ e.val = 1) ∧ b.entries e ≠ b'.entries e := by
  have hkeys : generate s i ≠ generate s' i := fun he => h (generate_injective i he)
  refine ⟨hkeys, expandedBlock (generate s i), expandedBlock (generate s' i), ?_, ?_, ?_⟩
  · rw [initializeWith_eq]
  · rw [initializeWith_eq]
  · by_contra hsame
    apply hkeys
    apply expandedBlock_injective
    intro e he
    by_contra hne
    exact hsame ⟨e, by omega, hne⟩

theorem initializeWith_separates_neighbours :
    generate ⟨1, 2⟩ ⟨5, by decide⟩ ≠ generate ⟨1, 3⟩ ⟨5, by decide⟩ ∧ ∃ b b',
      ((construct ⟨0, 0⟩ fun _ => ⟨0, 0⟩).initializeWith ⟨1, 2⟩).level1 ⟨5, by decide⟩ = some b ∧
      ((construct ⟨0, 0⟩ fun _ => ⟨0, 0⟩).initializeWith ⟨1, 3⟩).level1 ⟨5, by decide⟩ = some b' ∧
      ∃ e : Fin entriesPerBlock, (e.val = 0 ∨ e.val = 1) ∧ b.entries e ≠ b'.entries e :=
  initializeWith_separates (construct ⟨0, 0⟩ fun _ => ⟨0, 0⟩) (construct ⟨0, 0⟩ fun _ => ⟨0, 0⟩)
    ⟨1, 2⟩ ⟨1, 3⟩ (by decide) ⟨5, by decide⟩

end Topology

end EmergenceOS.Vdev.BmtTopology
