/- Module: EmergenceOS/Hal/SpinningCube
   digest: The spinning cube is drawn within its table for the frames that int can count. -/

import EmergenceOS.Hal.DrawLine

/-!
The frame number selects a phase of the sine table by a signed remainder. For frames
that are negative as an int one of the two indices is negative.
-/

set_option autoImplicit false
set_option relaxedAutoImplicit false

namespace EmergenceOS.Hal.Graphics

def sTbl : List Int :=
  [0, 25, 50, 74, 98, 120, 142, 162, 180, 197, 212, 225, 236, 244, 250, 254, 255, 254, 250, 244,
    236, 225, 212, 197, 180, 162, 142, 120, 98, 74, 50, 25, 0, -25, -50, -74, -98, -120, -142,
    -162, -180, -197, -212, -225, -236, -244, -250, -254, -255, -254, -250, -244, -236, -225, -212,
    -197, -180, -162, -142, -120, -98, -74, -50, -25]

/-- s_tbl[i], if that is inside the table. -/
def sTblAt (i : Int) : Option Int := if 0 ≤ i ∧ i ≤ 63 then sTbl[i.toNat]? else none

/-- The corners of the cube. -/
def corners : List (Int × Int × Int) :=
  [(-1, -1, -1), (1, -1, -1), (1, 1, -1), (-1, 1, -1),
    (-1, -1, 1), (1, -1, 1), (1, 1, 1), (-1, 1, 1)]

def cubeSize : Int := 80

/-- A corner on the screen, and the divisor of its projection. -/
structure Vertex where
  x : Int
  y : Int
  dist : Int

/-- v * size * t, multiplied from the left. -/
def sized (v t : Int) : Option Int := do
  let vs ← int32 (v * cubeSize)
  int32 (vs * t)

/-- Two rotations and the projection. No result if an operation overflows or divides by zero. -/
def project (sinA cosA : Int) (v : Int × Int × Int) : Option Vertex := do
  let (vx, vy, vz) := v
  let rx ← int32 ((← sized vx cosA) - (← sized vz sinA))
  let rz ← int32 ((← sized vx sinA) + (← sized vz cosA))
  let (rx, rz) := (rx >>> (8 : Nat), rz >>> (8 : Nat))
  let ry ← int32 ((← sized vy cosA) - (← int32 (rz * sinA)))
  let rz ← int32 ((← sized vy sinA) + (← int32 (rz * cosA)))
  let (ry, rz) := (ry >>> (8 : Nat), rz >>> (8 : Nat))
  let dist ← int32 (300 + rz)
  if dist = 0 then none
  else do
    let x ← int32 (800 + (← int32 (rx * 512)).tdiv dist)
    let y ← int32 (200 + (← int32 (ry * 512)).tdiv dist)
    return ⟨x, y, dist⟩

/-- The arguments of a draw_line call. -/
structure Segment where
  x0 : Int
  y0 : Int
  x1 : Int
  y1 : Int

def segment (p q : Vertex) : Segment := ⟨p.x, p.y, q.x, q.y⟩

/-- The three draw_line calls of one turn of the last loop. -/
def edges (proj : List Vertex) (i : Nat) : Option (List Segment) := do
  let front ← proj[i]?
  let frontNext ← proj[(i + 1) % 4]?
  let back ← proj[i + 4]?
  let backNext ← proj[(i + 1) % 4 + 4]?
  return [segment front frontNext, segment back backNext, segment front back]

/-- What draw_spinning_cube computes: the projected corners and the lines, in order. -/
structure Cube where
  proj : List Vertex
  lines : List Segment

/-- The cube for two values of the table. -/
def cube (sinA cosA : Int) : Option Cube := do
  let proj ← corners.mapM (project sinA cosA)
  let lines ← (List.range 4).mapM (edges proj)
  return ⟨proj, lines.flatten⟩

/-- No result if an index is outside of the table or an operation is undefined. -/
def drawSpinningCube (frame : Int) : Option Cube := do
  let sinA ← sTblAt (frame.tmod 64)
  let cosA ← sTblAt ((← int32 (frame + 16)).tmod 64)
  cube sinA cosA

/-- All divisors are positive and all lines are in the range of draw_line. -/
def Cube.Sound (c : Cube) : Prop :=
  (∀ v ∈ c.proj, 0 < v.dist) ∧
    ∀ l ∈ c.lines, InRange l.x0 ∧ InRange l.y0 ∧ InRange l.x1 ∧ InRange l.y1

instance (c : Cube) : Decidable c.Sound := inferInstanceAs (Decidable (_ ∧ _))

/-- A frame is drawn from inside the table, and soundly. -/
def FrameSound (frame : Int) : Prop := ∃ c, drawSpinningCube frame = some c ∧ c.Sound

/-- A value that is far from the ends of int32. -/
theorem int32_of_natAbs {n : Int} (h : n.natAbs ≤ 2 ^ 28) : int32 n = some n :=
  int32_eq (by omega) (by omega)

theorem exists_sized {v t : Int} (hv : v.natAbs = 1) (ht : t.natAbs ≤ 255) :
    ∃ r, sized v t = some r ∧ r.natAbs ≤ 20400 := by
  have hvs : (v * cubeSize).natAbs = 80 := by rw [Int.natAbs_mul, hv]; rfl
  have hr : (v * cubeSize * t).natAbs ≤ 20400 := by
    rw [Int.natAbs_mul, hvs]
    exact Nat.mul_le_mul_left 80 ht
  refine ⟨_, ?_, hr⟩
  rw [sized, int32_of_natAbs (by omega), Option.bind_eq_bind, Option.bind_some,
    int32_of_natAbs (by omega)]

/-- A value of up to 2^28 that is scaled down by 256. -/
theorem int32_scaled {z : Int} {k : Nat} (h : z.natAbs ≤ 256 * k) (hk : k ≤ 2 ^ 20) :
    int32 z = some z ∧ (z >>> (8 : Nat)).natAbs ≤ k := by
  refine ⟨int32_of_natAbs (by omega), ?_⟩
  rw [Int.shiftRight_eq_div_pow]
  change (z / 256).natAbs ≤ k
  omega

/-- One coordinate of a rotation in the plane. -/
theorem int32_rotated {x y : Int} {m n k : Nat} (hx : x.natAbs ≤ m) (hy : y.natAbs ≤ n)
    (hmn : m + n ≤ 256 * k) (hk : k ≤ 2 ^ 20) :
    (int32 (x - y) = some (x - y) ∧ ((x - y) >>> (8 : Nat)).natAbs ≤ k) ∧
      int32 (x + y) = some (x + y) ∧ ((x + y) >>> (8 : Nat)).natAbs ≤ k :=
  ⟨int32_scaled (by omega) hk, int32_scaled (by omega) hk⟩

/-- A rotated coordinate on the screen. -/
theorem exists_screen {c r : Int} (dist : Int) (hc : c.natAbs ≤ 800) (hr : r.natAbs ≤ 240) :
    ∃ n x, int32 (r * 512) = some n ∧ int32 (c + n.tdiv dist) = some x ∧ InRange x := by
  have hscaled : ((r * 512).tdiv dist).natAbs ≤ 240 * 512 := by
    rw [Int.natAbs_tdiv, Int.natAbs_mul]
    exact Nat.le_trans (Nat.div_le_self _ _) (Nat.mul_le_mul_right 512 hr)
  exact ⟨r * 512, c + (r * 512).tdiv dist, int32_of_natAbs (by omega),
    int32_of_natAbs (by omega), by unfold InRange; omega⟩

/-- The divisor is positive, and the projection in the range of draw_line. -/
def Vertex.Sound (v : Vertex) : Prop := 0 < v.dist ∧ InRange v.x ∧ InRange v.y

/-- With sines up to 255 the rotations stay within 240 of the middle, so the divisor is at
least 60. -/
theorem exists_project {sinA cosA : Int} (hsin : sinA.natAbs ≤ 255) (hcos : cosA.natAbs ≤ 255)
    {v : Int × Int × Int} (hx : v.1.natAbs = 1) (hy : v.2.1.natAbs = 1) (hz : v.2.2.natAbs = 1) :
    ∃ w, project sinA cosA v = some w ∧ w.Sound := by
  obtain ⟨vx, vy, vz⟩ := v
  obtain ⟨a, ha, haBound⟩ := exists_sized hx hcos
  obtain ⟨b, hb, hbBound⟩ := exists_sized hz hsin
  obtain ⟨c, hc, hcBound⟩ := exists_sized hx hsin
  obtain ⟨d, hd, hdBound⟩ := exists_sized hz hcos
  obtain ⟨e, he, heBound⟩ := exists_sized hy hcos
  obtain ⟨f, hf, hfBound⟩ := exists_sized hy hsin
  obtain ⟨hab, hrx⟩ := (int32_rotated haBound hbBound (show _ ≤ 256 * 160 by decide)
    (by decide)).1
  obtain ⟨hcd, hrz⟩ := (int32_rotated hcBound hdBound (show _ ≤ 256 * 160 by decide)
    (by decide)).2
  generalize hrz1 : (c + d) >>> (8 : Nat) = rz at hrz
  have hmul {t : Int} (ht : t.natAbs ≤ 255) : (rz * t).natAbs ≤ 160 * 255 := by
    rw [Int.natAbs_mul]
    exact Nat.mul_le_mul hrz ht
  have hs := int32_of_natAbs (Nat.le_trans (hmul hsin) (by decide))
  have ht := int32_of_natAbs (Nat.le_trans (hmul hcos) (by decide))
  obtain ⟨hes, hry⟩ :=
    (int32_rotated heBound (hmul hsin) (show _ ≤ 256 * 240 by decide) (by decide)).1
  obtain ⟨hft, hdist⟩ :=
    (int32_rotated hfBound (hmul hcos) (show _ ≤ 256 * 240 by decide) (by decide)).2
  generalize hrz2 : (f + rz * cosA) >>> (8 : Nat) = depth at hdist
  obtain ⟨hpos, hsmall⟩ : 0 < 300 + depth ∧ (300 + depth).natAbs ≤ 2 ^ 28 := by
    clear * - hdist
    omega
  obtain ⟨m, x, hm, hx, hxRange⟩ := exists_screen (300 + depth)
    (show (800 : Int).natAbs ≤ 800 by decide) (Nat.le_trans hrx (by decide))
  obtain ⟨n, y, hn, hy, hyRange⟩ := exists_screen (300 + depth)
    (show (200 : Int).natAbs ≤ 800 by decide) hry
  refine ⟨⟨x, y, 300 + depth⟩, ?_, hpos, hxRange, hyRange⟩
  simp only [project, ha, hb, hc, hd, he, hf, hab, hcd, hrz1, hs, ht, hes, hft, hrz2,
    int32_of_natAbs hsmall, hm, hn, Option.bind_eq_bind, Option.bind_some]
  rw [if_neg (Int.ne_of_gt hpos), hx, Option.bind_some, hy]
  rfl

/-- If every element has a result with P, so has the list. -/
theorem exists_mapM {α β : Type} {g : α → Option β} {P : β → Prop} {l : List α}
    (h : ∀ a ∈ l, ∃ b, g a = some b ∧ P b) :
    ∃ bs, l.mapM g = some bs ∧ bs.length = l.length ∧ ∀ b ∈ bs, P b := by
  induction l with
  | nil => exact ⟨[], rfl, rfl, fun b hb => absurd hb List.not_mem_nil⟩
  | cons a l ih =>
    obtain ⟨b, hb, hP⟩ := h a List.mem_cons_self
    obtain ⟨bs, hbs, hlen, hall⟩ := ih fun a' ha' => h a' (List.mem_cons_of_mem a ha')
    refine ⟨b :: bs, ?_, congrArg (· + 1) hlen, List.forall_mem_cons.mpr ⟨hP, hall⟩⟩
    rw [List.mapM_cons, hb, hbs]
    rfl

/-- The lines between eight sound corners. -/
theorem exists_edges {proj : List Vertex} (hlen : proj.length = 8) (h : ∀ v ∈ proj, v.Sound)
    {i : Nat} (hi : i < 4) : ∃ ls, edges proj i = some ls ∧
      ∀ l ∈ ls, InRange l.x0 ∧ InRange l.y0 ∧ InRange l.x1 ∧ InRange l.y1 := by
  have hcorner (j : Nat) (hj : j < 8) : ∃ v, proj[j]? = some v ∧ v.Sound :=
    ⟨proj[j], List.getElem?_eq_getElem _, h _ (List.getElem_mem _)⟩
  obtain ⟨p, hp, -, hpx, hpy⟩ := hcorner i (by omega)
  obtain ⟨q, hq, -, hqx, hqy⟩ := hcorner ((i + 1) % 4) (by omega)
  obtain ⟨r, hr, -, hrx, hry⟩ := hcorner (i + 4) (by omega)
  obtain ⟨s, hs, -, hsx, hsy⟩ := hcorner ((i + 1) % 4 + 4) (by omega)
  refine ⟨[segment p q, segment r s, segment p r], ?_, ?_⟩
  · rw [edges, hp, hq, hr, hs]
    rfl
  · simp only [List.forall_mem_cons, List.not_mem_nil, false_imp_iff, implies_true, and_true]
    exact ⟨⟨hpx, hpy, hqx, hqy⟩, ⟨hrx, hry, hsx, hsy⟩, hpx, hpy, hrx, hry⟩

/-- Two values of the table give a sound cube. -/
theorem exists_cube {sinA cosA : Int} (hsin : sinA.natAbs ≤ 255) (hcos : cosA.natAbs ≤ 255) :
    ∃ c, cube sinA cosA = some c ∧ c.Sound := by
  have hcorners : ∀ v ∈ corners, v.1.natAbs = 1 ∧ v.2.1.natAbs = 1 ∧ v.2.2.natAbs = 1 := by
    decide
  obtain ⟨proj, hproj, hlen, hsound⟩ := exists_mapM fun v hv =>
    exists_project hsin hcos (hcorners v hv).1 (hcorners v hv).2.1 (hcorners v hv).2.2
  obtain ⟨lines, hlines, -, hrange⟩ := exists_mapM fun i hi =>
    exists_edges hlen hsound (List.mem_range.mp hi)
  refine ⟨⟨proj, lines.flatten⟩, ?_, fun v hv => (hsound v hv).1, fun l hl => ?_⟩
  · rw [cube, hproj, Option.bind_eq_bind, Option.bind_some, hlines]
    rfl
  · obtain ⟨ls, hls, hmem⟩ := List.mem_flatten.mp hl
    exact hrange ls hls l hmem

/-- The values of the table are sines scaled by 255. -/
theorem exists_sTblAt {k : Nat} (hk : k < 64) : ∃ t, sTblAt k = some t ∧ t.natAbs ≤ 255 := by
  have hbound : ∀ t ∈ sTbl, t.natAbs ≤ 255 := by decide
  have hlen : k < sTbl.length := hk
  refine ⟨sTbl[k], ?_, hbound _ (List.getElem_mem hlen)⟩
  rw [sTblAt, if_pos (by omega), Int.toNat_natCast, List.getElem?_eq_getElem hlen]

/-- Counted up from zero, the frame stays at its phase of the table. -/
theorem frameSound_of_nonneg {frame : Int} (h0 : 0 ≤ frame) (h : frame + 16 < 2 ^ 31) :
    FrameSound frame := by
  obtain ⟨n, rfl⟩ := Int.eq_ofNat_of_zero_le h0
  obtain ⟨sinA, hsinAt, hsin⟩ := exists_sTblAt (Nat.mod_lt n (show 0 < 64 by decide))
  obtain ⟨cosA, hcosAt, hcos⟩ := exists_sTblAt (Nat.mod_lt (n + 16) (show 0 < 64 by decide))
  obtain ⟨c, hc, hsound⟩ := exists_cube hsin hcos
  refine ⟨c, ?_, hsound⟩
  change sTblAt ((n : Int).tmod 64) = some sinA at hsinAt
  change sTblAt (((n : Int) + 16).tmod 64) = some cosA at hcosAt
  rw [drawSpinningCube, int32_eq (by omega) h, hsinAt]
  simp only [Option.bind_eq_bind, Option.bind_some, hcosAt, hc]

theorem sTblAt_of_neg {i : Int} (h : i < 0) : sTblAt i = none := if_neg (by omega)

/-- One of the two remainders of a negative frame is negative. -/
theorem tmod_neg {frame : Int} (h : frame < 0) :
    frame.tmod 64 < 0 ∨ (frame + 16).tmod 64 < 0 := by
  obtain ⟨n, hn⟩ := Int.eq_ofNat_of_zero_le (show 0 ≤ -frame by omega)
  obtain rfl : frame = -(n : Int) := by omega
  by_cases hphase : n % 64 = 0
  · right
    rw [show -(n : Int) + 16 = -((n - 16 : Nat) : Int) by omega, Int.neg_tmod]
    change -(((n - 16) % 64 : Nat) : Int) < 0
    omega
  · left
    rw [Int.neg_tmod]
    change -((n % 64 : Nat) : Int) < 0
    omega

theorem drawSpinningCube_of_neg {frame : Int} (h : frame < 0) : drawSpinningCube frame = none := by
  unfold drawSpinningCube
  rcases tmod_neg h with hsin | hcos
  · rw [sTblAt_of_neg hsin]
    rfl
  · cases sTblAt (frame.tmod 64) with
    | none => rfl
    | some sinA =>
      unfold int32
      split
      · simp only [Option.bind_eq_bind, Option.bind_some, sTblAt_of_neg hcos, Option.bind_none]
      · rfl

/-- The cube is drawn soundly exactly for the frames to which 16 can be added in int. -/
theorem frameSound_iff (frame : Int) : FrameSound frame ↔ 0 ≤ frame ∧ frame + 16 < 2 ^ 31 := by
  refine ⟨fun ⟨c, hc, _⟩ => ?_, fun h => frameSound_of_nonneg h.1 h.2⟩
  have hnonneg : 0 ≤ frame := by
    by_contra hneg
    rw [drawSpinningCube_of_neg (by omega)] at hc
    cases hc
  refine ⟨hnonneg, ?_⟩
  by_contra hover
  unfold drawSpinningCube int32 at hc
  rw [if_neg (by omega)] at hc
  cases hsin : sTblAt (frame.tmod 64) <;> rw [hsin] at hc <;> cases hc

end EmergenceOS.Hal.Graphics
