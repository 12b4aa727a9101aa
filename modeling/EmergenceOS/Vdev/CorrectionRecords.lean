/- Module: EmergenceOS/Vdev/CorrectionRecords
   digest: Correction records: the positions they stand for, and what their parity repairs. -/

import EmergenceOS.Vdev.EvaporateStream

/-!
A record has the number of bytes since the last one, a byte and a parity over that
byte and two of the four bytes of the number. On a mismatch the byte is taken for
the part that is wrong.
-/

set_option autoImplicit false
set_option relaxedAutoImplicit false

namespace EmergenceOS.Vdev.ContextDrivenEngine

open EmergenceOS.Lib.Bytes EmergenceOS.Lib.GapCode

/-- The position that record j stands for: the sum of (delta + 1) up to it, minus 1. -/
def position (cs : List Correction) (j : Nat) : Nat :=
  ((cs.take (j + 1)).map fun c => c.delta.toNat + 1).sum - 1

/-- A stream has the bytes that no candidate reproduces, each at its position, in records that
pass their own check. -/
structure Streams (shi slo : BitVec 64) (data : Buffer) (len : Nat) (cs : List Correction) :
    Prop where
  increasing : ∀ j k, j < k → k < cs.length → position cs j < position cs k
  positions : ∀ p, (∃ j < cs.length, position cs j = p) ↔ p < len ∧ ¬Reproduced shi slo data p
  values : ∀ j (h : j < cs.length), cs[j].value = data (position cs j)
  length : cs.length ≤ len
  accepted : ∀ c ∈ cs, c.verifyAndHeal = (true, c)

theorem position_eq_reach (cs : List Correction) (j : Nat) :
    position cs j = reach (cs.map ofCorrection) j - 1 := by
  rw [position, reach, ← List.map_take, List.map_map]
  rfl

namespace Correction

theorem verifyAndHeal_generateEcc (c : Correction) :
    c.generateEcc.verifyAndHeal = (true, c.generateEcc) :=
  if_neg (not_not_intro rfl)

end Correction

theorem keptFrom_getElem? {shi slo : BitVec 64} {data : Buffer} {len p : Nat} (hp : p < len) :
    (keptFrom shi slo data 0 len)[p]? = some (kept shi slo data p) := by
  rw [keptFrom, List.getElem?_map, List.getElem?_range' hp]
  simp

theorem kept_eq_some_iff {shi slo : BitVec 64} {data : Buffer} {p : Nat} {v : Byte} :
    kept shi slo data p = some v ↔ ¬Reproduced shi slo data p ∧ data p = v := by
  unfold kept
  split <;> simp_all

section
variable {shi slo : BitVec 64} {data : Buffer} {len : Nat}

/-- Each record stands for a byte that is kept. -/
theorem position_corrections (hlen : len ≤ endless) {j : Nat}
    (hj : j < (corrections shi slo data len).length) :
    position (corrections shi slo data len) j < len ∧
      kept shi slo data (position (corrections shi slo data len) j) =
        some (corrections shi slo data len)[j].value := by
  have hgaps : (corrections shi slo data len).map ofCorrection =
      gaps (keptFrom shi slo data 0 len) 0 := map_ofCorrection hlen
  obtain ⟨i, hreach, hi⟩ := getElem?_reach (l := keptFrom shi slo data 0 len) (s := 0) (j := j)
    (by rwa [← hgaps, List.length_map])
  simp only [← hgaps, List.getElem_map] at hreach hi
  have hpos : position (corrections shi slo data len) j = i := by
    rw [position_eq_reach, hreach]
    omega
  obtain ⟨hlt, -⟩ := List.getElem?_eq_some_iff.mp hi
  have hin : i < len := by rwa [keptFrom, List.length_map, List.length_range'] at hlt
  rw [keptFrom_getElem? hin] at hi
  rw [hpos]
  exact ⟨hin, Option.some.inj hi⟩

theorem exists_position (hlen : len ≤ endless) {p : Nat} (hp : p < len)
    (hkept : ¬Reproduced shi slo data p) :
    ∃ j < (corrections shi slo data len).length, position (corrections shi slo data len) j = p := by
  have hgaps : (corrections shi slo data len).map ofCorrection =
      gaps (keptFrom shi slo data 0 len) 0 := map_ofCorrection hlen
  have hvalue : (keptFrom shi slo data 0 len)[p]? = some (some (data p)) := by
    rw [keptFrom_getElem? hp, kept_eq_some_iff.mpr ⟨hkept, rfl⟩]
  obtain ⟨j, hj, hreach⟩ := exists_reach 0 hvalue
  rw [← hgaps] at hj hreach
  rw [List.length_map] at hj
  refine ⟨j, hj, ?_⟩
  rw [position_eq_reach, hreach]
  omega

theorem position_lt (cs : List Correction) {j k : Nat} (hjk : j < k) (hk : k < cs.length) :
    position cs j < position cs k := by
  rw [← List.length_map (f := ofCorrection)] at hk
  have hreach := reach_lt hjk hk
  have hpos := reach_pos (Nat.lt_trans hjk hk)
  rw [position_eq_reach, position_eq_reach]
  omega

end

/-- Up to the position where the layer no longer returns, its stream has exactly the bytes
that no candidate reproduces. -/
theorem evaporateLayer_streams (shi slo : BitVec 64) (data : Buffer) (len : Nat)
    (hlen : len ≤ 917490) :
    ∃ cs, evaporateLayer shi slo data len = some cs ∧ Streams shi slo data len cs := by
  have hend : len ≤ endless := hlen
  refine ⟨_, evaporateLayer_eq shi slo data hend, ?_⟩
  refine ⟨fun j k hjk hk => position_lt _ hjk hk, fun p => ⟨?_, ?_⟩, fun j hj => ?_, ?_, ?_⟩
  · rintro ⟨j, hj, rfl⟩
    obtain ⟨hin, hkept⟩ := position_corrections hend hj
    exact ⟨hin, (kept_eq_some_iff.mp hkept).1⟩
  · rintro ⟨hp, hmissed⟩
    exact exists_position hend hp hmissed
  · obtain ⟨-, hkept⟩ := position_corrections hend hj
    exact (kept_eq_some_iff.mp hkept).2.symm
  · rw [length_corrections]
    exact missed_le shi slo data len
  · intro c hc
    obtain ⟨p, -, rfl⟩ := List.mem_map.mp hc
    exact Correction.verifyAndHeal_generateEcc _

theorem evaporateLayer_streams_sector : ∃ cs,
    evaporateLayer 1 2 (fun i => BitVec.ofNat 8 i) 512 = some cs ∧
      Streams 1 2 (fun i => BitVec.ofNat 8 i) 512 cs :=
  evaporateLayer_streams 1 2 (fun i => BitVec.ofNat 8 i) 512 (by decide)

/-! Repair. -/

namespace Correction

/-- The record in six bytes of memory. -/
def ofPacked (b : Buffer) : Correction := ⟨ofBytes 32 b 4, b 4, b 5⟩

/-- The record with byte k of its packed form replaced by x. -/
def altered (c : Correction) (k : Fin size) (x : Byte) : Correction :=
  ofPacked (Function.update c.bytes k.val x)

/-- The check leaves the record with its byte, and reports the change if there was one. -/
def Heals (c : Correction) (k : Fin size) (x : Byte) : Prop :=
  (c.generateEcc.altered k x).verifyAndHeal.2.value = c.value ∧
    (x ≠ c.generateEcc.bytes k.val → (c.generateEcc.altered k x).verifyAndHeal.1 = false)

theorem lowByte (w : BitVec 32) : (w &&& 0xFF).setWidth 8 = w.setWidth 8 := by
  apply BitVec.eq_of_toNat_eq
  have hmask := Nat.and_two_pow_sub_one_eq_mod w.toNat 8
  have h255 : (0xFF : BitVec 32).toNat = 2 ^ 8 - 1 := rfl
  rw [BitVec.toNat_setWidth, BitVec.toNat_setWidth, BitVec.toNat_and, h255, hmask, Nat.mod_mod]

/-- The parity is over the byte and the two low bytes of the gap. -/
theorem expectedEcc_eq (c : Correction) :
    c.expectedEcc = c.value ^^^ byteAt c.delta 0 ^^^ byteAt c.delta 1 := by
  simp only [expectedEcc, lowByte, byteAt, Nat.mul_zero, Nat.mul_one, BitVec.ushiftRight_zero]

theorem xor_xor_eq_iff {x p q y : Byte} : x ^^^ p ^^^ q = y ↔ x = y ^^^ p ^^^ q := by
  have hback (z : Byte) : z ^^^ p ^^^ q ^^^ p ^^^ q = z := by
    apply BitVec.eq_of_getLsbD_eq
    intro i _
    simp only [BitVec.getLsbD_xor]
    cases z.getLsbD i <;> cases p.getLsbD i <;> cases q.getLsbD i <;> rfl
  constructor
  · rintro rfl
    exact (hback x).symm
  · rintro rfl
    exact hback y

theorem verifyAndHeal_fst (c : Correction) :
    c.verifyAndHeal.1 = false ↔
      c.value ^^^ byteAt c.delta 0 ^^^ byteAt c.delta 1 ≠ c.eccParity := by
  rw [← expectedEcc_eq, verifyAndHeal]
  split <;> simp_all

/-- The byte is computed from the parity, or is what the parity would give. -/
theorem verifyAndHeal_value (c : Correction) :
    c.verifyAndHeal.2.value = c.eccParity ^^^ byteAt c.delta 0 ^^^ byteAt c.delta 1 := by
  rw [verifyAndHeal]
  split
  · simp only [lowByte, byteAt, Nat.mul_zero, Nat.mul_one, BitVec.ushiftRight_zero]
  · rename_i hmatch
    rw [expectedEcc_eq, not_not] at hmatch
    exact xor_xor_eq_iff.mp hmatch

theorem heals_iff_bytes (c : Correction) (k : Fin size) (x : Byte) (b : Buffer)
    (hb : b = Function.update c.generateEcc.bytes k.val x) :
    c.Heals k x ↔ b 5 ^^^ b 0 ^^^ b 1 = c.value ∧
      (x ≠ c.generateEcc.bytes k.val → b 4 ^^^ b 0 ^^^ b 1 ≠ b 5) := by
  have h0 : byteAt (ofBytes 32 b 4) 0 = b 0 := byteAt_ofBytes b (by decide) 0
  have h1 : byteAt (ofBytes 32 b 4) 1 = b 1 := byteAt_ofBytes b (by decide) 1
  rw [Heals, altered, ← hb, verifyAndHeal_value, verifyAndHeal_fst]
  simp only [ofPacked, h0, h1]

/-- A parity that no longer fits comes from the byte that was altered. -/
theorem parity_eq_iff {g : Buffer} (h : g 4 ^^^ g 0 ^^^ g 1 = g 5) (x : Byte) :
    (g 4 ^^^ x ^^^ g 1 = g 5 ↔ x = g 0) ∧ (g 4 ^^^ g 0 ^^^ x = g 5 ↔ x = g 1) ∧
      (x ^^^ g 0 ^^^ g 1 = g 5 ↔ x = g 4) ∧ (x ^^^ g 0 ^^^ g 1 = g 4 ↔ x = g 5) := by
  refine ⟨?_, ?_, ?_, ?_⟩
  · rw [← h, BitVec.xor_left_inj, BitVec.xor_right_inj]
  · rw [← h, BitVec.xor_right_inj]
  · rw [← h, BitVec.xor_left_inj, BitVec.xor_left_inj]
  · rw [← h, xor_xor_eq_iff]

/-- One altered byte of a record is repaired and reported exactly if it is the value. -/
theorem heals_iff (c : Correction) (k : Fin size) (x : Byte) :
    c.Heals k x ↔ k.val = 4 ∨ x = c.generateEcc.bytes k.val := by
  rw [heals_iff_bytes c k x _ rfl, show c.value = c.generateEcc.bytes 4 from rfl]
  have hparity : c.generateEcc.bytes 4 ^^^ c.generateEcc.bytes 0 ^^^ c.generateEcc.bytes 1 =
      c.generateEcc.bytes 5 := (expectedEcc_eq c).symm
  generalize c.generateEcc.bytes = g at hparity ⊢
  have hvalue : g 5 ^^^ g 0 ^^^ g 1 = g 4 := xor_xor_eq_iff.mpr hparity.symm
  obtain ⟨hlow, hhigh, hbyte, hecc⟩ := parity_eq_iff hparity x
  have hcases : k.val = 0 ∨ k.val = 1 ∨ k.val = 2 ∨ k.val = 3 ∨ k.val = 4 ∨ k.val = 5 := by
    have hk := k.isLt
    simp only [size] at hk
    omega
  rcases hcases with hk | hk | hk | hk | hk | hk <;> rw [hk]
  · -- the byte is changed to fit the altered gap
    simp [Function.update, xor_xor_eq_iff, eq_comm (a := g 5), hlow]
  · simp [Function.update, xor_xor_eq_iff, eq_comm (a := g 5), hhigh]
  · -- the upper half of the gap is not covered
    simp [Function.update, hvalue, hparity]
  · simp [Function.update, hvalue, hparity]
  · simp [Function.update, hvalue, hbyte]
  · simp [Function.update, hparity, hecc, eq_comm]

/-- A hit on the parity changes the value to 4. -/
theorem not_heals_parity : ¬(Correction.mk 0 5 0).Heals ⟨5, by decide⟩ 4 :=
  fun h => absurd h.1 (by decide)

end Correction

end EmergenceOS.Vdev.ContextDrivenEngine
