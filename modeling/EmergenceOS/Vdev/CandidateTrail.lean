/- Module: EmergenceOS/Vdev/CandidateTrail
   digest: Data that is reproduced throughout, shown by one candidate for each byte. -/

import EmergenceOS.Vdev.ProbeRow

/-!
A byte is reproduced as soon as one candidate gives it. A trail names that candidate
for every byte, so that nothing is searched.
-/

set_option autoImplicit false
set_option relaxedAutoImplicit false

namespace EmergenceOS.Vdev.ContextDrivenEngine

open EmergenceOS.Lib.Bytes EmergenceOS.Lib.WordRow

/-- A word turned left by r bits, as a number. -/
def turn (r x : Nat) : Nat :=
  Nat.lor (Nat.mod (Nat.shiftLeft x r) (Nat.pow 2 64)) (Nat.shiftRight x (Nat.sub 64 r))

/-- The words of a context with one more byte, as numbers. -/
def absorbWords (byte h l : Nat) (next : Nat → Nat → Bool) : Bool :=
  force (turn 11 (Nat.xor l (Nat.mod (Nat.mul byte 0x517CC1B727220A95) (Nat.pow 2 64)))) fun l =>
  force (Nat.xor (turn 7 (Nat.xor h (Nat.mod (Nat.mul byte 0x9E3779B97F4A7C15) (Nat.pow 2 64))))
    (Nat.shiftRight l 32)) fun h =>
  force (Nat.xor l (Nat.shiftRight h 32)) fun l =>
  next h l

/-- Passes over `left` candidates from number k on. -/
def skip : Nat → Nat → Nat → Nat → (Nat → Nat → Bool) → Bool
  | 0, _, h, l, next => next h l
  | left + 1, k, h, l, next =>
    absorbWords (Nat.mod k 256) h l fun h l => skip left (k + 1) h l next

/-- The candidate that the probe ph and pl names passes its check at position i and gives the
byte. -/
def gives (shi slo : BitVec 64) (i : Nat) (byte : Byte) (h l ph pl : Nat) : Bool :=
  Nat.beq
    (candidateCrc shi slo (BitVec.ofNat 16 (Nat.mod pl 1024)) (BitVec.ofNat 8 (Nat.mod ph 64))
      (BitVec.ofNat 16 (i / 14)) (BitVec.ofNat 8 (i % 14)) (BitVec.ofNat 64 i)
      (BitVec.ofNat 64 h) (BitVec.ofNat 64 l)).toNat
    (positionCrc shi slo ⟨BitVec.ofNat 64 h, BitVec.ofNat 64 l⟩ (BitVec.ofNat 64 i)).toNat &&
  !otherByte shi slo i byte.toNat ph pl 0

def follow (shi slo : BitVec 64) : List (Nat × Byte) → Nat → Nat → Nat → Bool
  | [], _, _, _ => true
  | (k, byte) :: trail, i, h, l =>
    Nat.blt k candidates && skip k 0 h l (gives shi slo i byte h l) &&
      absorbWords byte.toNat h l (follow shi slo trail (i + 1))

/-- The bytes of a trail. -/
def trailData (trail : List (Nat × Byte)) : Buffer := fun i => (trail.map Prod.snd).getD i 0

theorem turn_toNat (r : Nat) (x : BitVec 64) :
    turn r x.toNat = ((x <<< r) ||| (x >>> (64 - r))).toNat := by
  rw [BitVec.toNat_or, BitVec.toNat_shiftLeft, BitVec.toNat_ushiftRight]
  rfl

theorem absorbWords_eq (p : ContextAccumulator) (byte : Byte) (next : Nat → Nat → Bool) :
    absorbWords byte.toNat p.hi.toNat p.lo.toNat next =
      next (p.absorb byte).hi.toNat (p.absorb byte).lo.toNat := by
  have hmixed (x c : BitVec 64) :
      Nat.xor x.toNat (Nat.mod (Nat.mul byte.toNat c.toNat) (Nat.pow 2 64)) =
        (x ^^^ (byte.setWidth 64 * c)).toNat := by
    rw [BitVec.toNat_xor, BitVec.toNat_mul, BitVec.toNat_setWidth_of_le (by decide)]
    rfl
  have hfolded (x y : BitVec 64) :
      Nat.xor x.toNat (Nat.shiftRight y.toNat 32) = (x ^^^ (y >>> 32)).toNat := by
    rw [BitVec.toNat_xor, BitVec.toNat_ushiftRight]
    rfl
  have hlo := hmixed p.lo phiLo
  have hhi := hmixed p.hi phiHi
  rw [show phiLo.toNat = 0x517CC1B727220A95 from rfl] at hlo
  rw [show phiHi.toNat = 0x9E3779B97F4A7C15 from rfl] at hhi
  simp only [absorbWords, force_eq]
  rw [hlo, hhi, turn_toNat, turn_toNat, hfolded, hfolded]
  rfl

theorem skip_eq (ctx : ContextAccumulator) (left k : Nat) (next : Nat → Nat → Bool) :
    skip left k (probeAt ctx k).hi.toNat (probeAt ctx k).lo.toNat next =
      next (probeAt ctx (k + left)).hi.toNat (probeAt ctx (k + left)).lo.toNat := by
  induction left generalizing k with
  | zero => rfl
  | succ left ih =>
    have hbyte : Nat.mod k 256 = (BitVec.ofNat 8 k).toNat := (BitVec.toNat_ofNat k 8).symm
    have hrest := ih (k + 1)
    rw [Nat.add_assoc, Nat.add_comm 1 left] at hrest
    rw [skip, hbyte, absorbWords_eq]
    exact hrest

theorem candidate_of_gives {shi slo : BitVec 64} {ctx p : ContextAccumulator} {i : Nat}
    {byte : Byte} (hi : i < endless)
    (h : gives shi slo i byte ctx.hi.toNat ctx.lo.toNat p.hi.toNat p.lo.toNat = true) :
    noiseByte shi slo (p.slot 1024) (p.basis 64) (BitVec.ofNat 16 (i / 14))
        (BitVec.ofNat 8 (i % 14)) = byte ∧
      candidateCrc shi slo (p.slot 1024) (p.basis 64) (BitVec.ofNat 16 (i / 14))
          (BitVec.ofNat 8 (i % 14)) (BitVec.ofNat 64 i) ctx.hi ctx.lo =
        positionCrc shi slo ctx (BitVec.ofNat 64 i) := by
  -- a row of one probe
  have hother := otherByte_eq shi slo (fun _ => byte) i (fun _ => p) Nat.one_pos hi
  rw [row_one, row_one, row_one, BitVec.toNat_setWidth_of_le (by decide)] at hother
  rw [gives, Bool.and_eq_true, hother, Bool.not_not] at h
  constructor
  · exact (BitVec.eq_of_toNat_eq (Nat.eq_of_beq_eq_true h.2)).symm
  · rw [slot_eq, basis_eq]
    have hcheck := BitVec.eq_of_toNat_eq (Nat.eq_of_beq_eq_true h.1)
    rwa [BitVec.ofNat_toNat, BitVec.ofNat_toNat, BitVec.setWidth_eq, BitVec.setWidth_eq] at hcheck

/-- Every byte of a trail that can be followed is reproduced. -/
theorem follow_sound {shi slo : BitVec 64} {data : Buffer} (trail : List (Nat × Byte)) {i : Nat}
    (hend : i + trail.length ≤ endless)
    (hdata : ∀ j < trail.length, data (i + j) = trailData trail j)
    (h : follow shi slo trail i (contextAt data i).hi.toNat (contextAt data i).lo.toNat = true)
    {j : Nat} (hj : j < trail.length) : Reproduced shi slo data (i + j) := by
  induction trail generalizing i j with
  | nil => exact absurd hj (Nat.not_lt_zero j)
  | cons step trail ih =>
    obtain ⟨k, byte⟩ := step
    have hbyte : data i = byte := hdata 0 (Nat.zero_lt_succ _)
    rw [List.length_cons] at hend hj hdata
    rw [follow, Bool.and_eq_true, Bool.and_eq_true, absorbWords_eq] at h
    obtain ⟨⟨hk, hskip⟩, hrest⟩ := h
    cases j with
    | zero =>
      have hprobe := (skip_eq (contextAt data i) k 0 _).symm.trans hskip
      rw [Nat.zero_add] at hprobe
      have hgives := candidate_of_gives (by omega) hprobe
      rw [← hbyte] at hgives
      exact ⟨k, Nat.blt_eq.mp hk, (candidate_iff (by omega)).mpr hgives⟩
    | succ j =>
      have hnext : Reproduced shi slo data (i + 1 + j) := by
        refine ih (by omega) (fun m hm => ?_) ?_ (by omega)
        · rw [Nat.add_right_comm, Nat.add_assoc, hdata (m + 1) (by omega)]
          rfl
        · rw [contextAt, hbyte]
          exact hrest
      rwa [Nat.add_right_comm] at hnext

/-- Candidates for the bytes of a sector from its third byte on, in layer 1 of serve_write. -/
def foldingTrail : List (Nat × Byte) :=
  [(674, 51), (391, 39), (99, 204), (96, 127), (82, 144), (4, 86), (162, 133), (49, 8), (61, 77),
    (67, 128), (235, 161), (25, 199), (39, 252), (26, 250), (19, 75), (109, 9), (2, 69), (23, 49),
    (213, 215), (62, 125), (86, 22), (13, 239), (49, 168), (397, 88), (67, 253), (57, 158),
    (102, 161), (45, 77), (35, 54), (13, 210), (18, 191), (71, 6), (33, 129), (29, 1), (12, 38),
    (14, 117), (125, 40), (129, 43), (91, 100), (217, 95), (248, 105), (154, 212), (235, 182),
    (201, 36), (11, 246), (87, 151), (115, 97), (21, 0), (6, 238), (144, 199), (131, 112), (8, 4),
    (158, 200), (32, 96), (234, 77), (131, 61), (15, 90), (41, 2), (17, 56), (279, 224), (31, 102),
    (217, 194), (27, 235), (154, 183), (73, 191), (35, 77), (201, 159), (84, 125), (26, 208),
    (22, 194), (4, 247), (11, 78), (29, 23), (107, 146), (145, 197), (136, 11), (22, 89), (257, 11),
    (7, 62), (91, 87), (129, 199), (2, 141), (254, 161), (44, 94), (244, 181), (12, 183), (16, 20),
    (129, 8), (35, 158), (20, 36), (24, 25), (42, 106), (173, 2), (225, 4), (13, 252), (51, 246),
    (87, 2), (36, 122), (20, 138), (236, 178), (79, 85), (500, 121), (32, 16), (117, 1), (26, 83),
    (247, 187), (245, 24), (69, 90), (97, 171), (73, 19), (37, 58), (102, 249), (65, 123),
    (15, 149), (87, 17), (9, 130), (160, 56), (105, 91), (198, 35), (47, 37), (33, 116), (57, 33),
    (200, 77), (53, 123), (21, 223), (136, 210), (546, 140), (24, 73), (222, 11), (13, 149),
    (16, 198), (3, 219), (355, 68), (58, 127), (11, 160), (126, 177), (178, 255), (31, 194),
    (52, 74), (62, 135), (88, 164), (5, 183), (3, 206), (65, 193), (20, 123), (70, 170), (14, 75),
    (49, 65), (547, 66), (219, 181), (85, 230), (298, 89), (32, 162), (16, 54), (17, 133),
    (71, 157), (73, 104), (67, 18), (36, 226), (173, 100), (13, 207), (98, 138), (54, 145),
    (1, 194), (256, 146), (96, 93), (34, 70), (36, 190), (118, 80), (44, 157), (211, 22), (32, 63),
    (51, 30), (310, 163), (116, 191), (44, 110), (232, 49), (101, 17), (76, 121), (132, 70),
    (257, 168), (13, 253), (177, 188), (30, 241), (3, 113), (74, 59), (102, 47), (58, 241),
    (98, 143), (10, 98), (18, 39), (30, 52), (118, 140), (100, 75), (12, 25), (12, 201), (45, 133),
    (48, 107), (19, 53), (33, 231), (162, 141), (109, 152), (176, 63), (10, 223), (21, 118),
    (45, 196), (19, 215), (114, 74), (19, 57), (90, 132), (131, 7), (321, 156), (170, 151),
    (104, 121), (31, 17), (218, 221), (75, 77), (92, 13), (185, 63), (8, 136), (92, 79), (57, 141),
    (31, 57), (89, 91), (35, 80), (106, 101), (155, 215), (120, 208), (195, 155), (134, 98),
    (161, 65), (55, 208), (265, 105), (15, 199), (3, 118), (117, 79), (276, 113), (121, 19),
    (18, 245), (18, 109), (104, 209), (93, 209), (205, 172), (169, 96), (8, 40), (74, 173),
    (73, 69), (8, 59), (129, 74), (238, 114), (35, 32), (141, 119), (83, 21), (100, 120),
    (418, 188), (67, 132), (296, 220), (16, 129), (9, 66), (0, 70), (16, 159), (200, 216), (29, 70),
    (150, 184), (122, 43), (59, 221), (27, 215), (17, 239), (129, 103), (85, 128), (21, 132),
    (397, 20), (69, 182), (78, 175), (200, 98), (51, 201), (4, 25), (38, 146), (92, 204), (166, 83),
    (7, 88), (25, 121), (62, 250), (201, 57), (182, 220), (3, 255), (6, 234), (507, 11), (107, 195),
    (35, 196), (26, 30), (61, 201), (45, 125), (195, 57), (198, 169), (39, 199), (90, 54), (59, 99),
    (1, 84), (63, 87), (48, 103), (61, 233), (38, 193), (91, 142), (7, 43), (72, 244), (54, 93),
    (128, 207), (123, 122), (293, 56), (23, 219), (166, 131), (108, 175), (67, 192), (53, 2),
    (60, 237), (101, 57), (39, 117), (2, 61), (8, 92), (436, 221), (56, 10), (253, 79), (146, 34),
    (65, 206), (81, 51), (142, 36), (5, 21), (126, 220), (95, 255), (3, 20), (82, 230), (12, 239),
    (260, 136), (50, 60), (56, 249), (0, 196), (89, 55), (42, 130), (173, 90), (31, 232), (10, 87),
    (13, 56), (19, 81), (76, 157), (265, 133), (3, 129), (2, 38), (7, 209), (212, 101), (51, 164),
    (96, 241), (234, 141), (268, 105), (114, 201), (151, 147), (215, 71), (7, 95), (11, 91),
    (26, 163), (363, 156), (132, 163), (16, 198), (43, 251), (24, 232), (36, 173), (76, 108),
    (36, 48), (367, 113), (113, 14), (16, 38), (63, 134), (94, 209), (25, 106), (114, 209),
    (119, 236), (34, 32), (89, 116), (60, 237), (54, 35), (145, 104), (20, 192), (116, 131),
    (95, 206), (50, 247), (7, 34), (56, 99), (2, 241), (5, 3), (91, 210), (29, 168), (283, 85),
    (5, 21), (154, 44), (115, 127), (39, 79), (115, 74), (135, 228), (87, 173), (107, 46),
    (440, 173), (13, 108), (45, 55), (114, 174), (27, 240), (105, 168), (3, 86), (132, 180),
    (122, 72), (3, 98), (36, 79), (167, 161), (124, 106), (14, 56), (59, 158), (42, 204), (85, 14),
    (20, 113), (126, 39), (15, 246), (33, 153), (225, 81), (241, 68), (31, 62), (13, 251),
    (67, 117), (13, 196), (48, 230), (52, 67), (394, 108), (58, 205), (159, 2), (16, 151),
    (191, 222), (42, 157), (275, 76), (23, 212), (43, 164), (235, 246), (105, 127), (166, 139),
    (163, 152), (345, 230), (64, 131), (30, 201), (173, 184), (77, 72), (88, 36), (284, 73),
    (37, 34), (16, 43), (75, 158), (39, 139), (155, 249), (206, 115), (15, 228), (45, 93),
    (38, 125), (52, 200), (89, 119), (77, 11), (51, 145), (58, 71), (26, 112), (100, 200),
    (33, 229), (116, 171), (196, 126), (90, 235), (71, 172), (135, 210), (139, 225), (92, 52),
    (20, 47), (82, 83), (14, 243), (318, 23), (128, 72), (237, 107), (37, 149), (20, 202), (31, 95),
    (72, 167), (429, 141), (122, 64), (154, 49), (99, 180), (111, 22), (131, 126), (10, 31),
    (25, 164), (69, 115), (5, 28), (57, 72), (9, 219), (289, 193), (10, 49), (17, 13), (187, 110),
    (121, 230), (36, 152), (12, 50), (10, 241), (14, 203), (129, 125), (20, 41), (40, 22), (60, 61),
    (11, 188), (93, 68)]

/-- A sector of which all bytes but the second are reproduced. -/
def foldingSector : Buffer := fun i =>
  if i < 2 then [74, 5].getD i 0 else trailData foldingTrail (i - 2)

theorem foldingSector_reproduced {i : Nat} (hi : i < 512) (hne : i ≠ 1) :
    Reproduced (0x1234567890ABCDEF ^^^ 0x1111111111111111) 0xABCDEF0123456789 foldingSector i := by
  rcases Nat.lt_or_ge i 2 with hlt | hge
  · obtain rfl : i = 0 := by omega
    refine (reproduced_congr fun j hj => ?_).mpr (reproduced_first 74 (.inl rfl))
    obtain rfl : j = 0 := by omega
    rfl
  · have hlength : foldingTrail.length = 510 := by decide +kernel
    have hendless : endless = 917490 := rfl
    have hfollow : follow (0x1234567890ABCDEF ^^^ 0x1111111111111111) 0xABCDEF0123456789
        foldingTrail 2 (contextAt foldingSector 2).hi.toNat
        (contextAt foldingSector 2).lo.toNat = true := by
      decide +kernel
    obtain ⟨j, rfl⟩ := Nat.exists_eq_add_of_le hge
    refine follow_sound foldingTrail (by omega) (fun m _ => ?_) hfollow (by omega)
    rw [foldingSector, if_neg (by omega), Nat.add_sub_cancel_left]

end EmergenceOS.Vdev.ContextDrivenEngine
