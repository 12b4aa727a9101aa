/- Module: EmergenceOS/Hal/DrawLine
   digest: draw_line ends after as many pixels as its longer side has, and no int overflows. -/

import EmergenceOS.Lib.Bresenham

/-!
The loop of draw_line is left at the end point only. In its own directions, and counted
from the first pixel, its rounds are those of the two-test error rule.
-/

set_option autoImplicit false
set_option relaxedAutoImplicit false

namespace EmergenceOS.Hal.Graphics

open EmergenceOS.Lib.Bresenham

/-- The result of an int operation, if it does not overflow. -/
def int32 (n : Int) : Option Int := if -2 ^ 31 ≤ n ∧ n < 2 ^ 31 then some n else none

/-- if (test) { err += d; z += s; } -/
def move (test : Prop) [Decidable test] (err d z s : Int) : Option (Int × Int) :=
  if test then do
    let err ← int32 (err + d)
    let z ← int32 (z + s)
    return (err, z)
  else some (err, z)

/-- The loop of draw_line: the points of its put_pixel calls, in order. There are none if the
fuel runs out or an operation overflows. -/
def drawLineFrom (dx dy sx sy x1 y1 : Int) : Nat → Int → Int → Int → Option (List (Int × Int))
  | 0, _, _, _ => none
  | fuel + 1, x0, y0, err =>
    if x0 = x1 ∧ y0 = y1 then some [(x0, y0)]
    else do
      let e2 ← int32 (2 * err)
      let ndy ← int32 (-dy)
      let (err, x) ← move (e2 > ndy) err (-dy) x0 sx
      let (err, y) ← move (e2 < dx) err dx y0 sy
      let rest ← drawLineFrom dx dy sx sy x1 y1 fuel x y err
      return (x0, y0) :: rest

def linePoints (fuel : Nat) (x0 y0 x1 y1 : Int) : Option (List (Int × Int)) := do
  let dx ← int32 (if x1 > x0 then x1 - x0 else x0 - x1)
  let dy ← int32 (if y1 > y0 then y1 - y0 else y0 - y1)
  let sx := if x0 < x1 then 1 else -1
  let sy := if y0 < y1 then 1 else -1
  let err ← int32 (dx - dy)
  drawLineFrom dx dy sx sy x1 y1 fuel x0 y0 err

/-- The range of the coordinates, an eighth of the int range. -/
def InRange (x : Int) : Prop := -2 ^ 28 ≤ x ∧ x ≤ 2 ^ 28

instance (x : Int) : Decidable (InRange x) := inferInstanceAs (Decidable (_ ∧ _))

/-- One coordinate of a line: where it begins, how far it goes and in which direction. -/
structure Side where
  origin : Int
  extent : Int
  sign : Int
  extent_nonneg : 0 ≤ extent
  sign_eq : sign = 1 ∨ sign = -1
  first : InRange origin
  last : InRange (origin + sign * extent)

namespace Side

def place (s : Side) (i : Int) : Int := s.origin + s.sign * i

/-- The side that draw_line computes for two coordinates. -/
def between (x0 x1 : Int) (h0 : InRange x0) (h1 : InRange x1) : Side where
  origin := x0
  extent := if x1 > x0 then x1 - x0 else x0 - x1
  sign := if x0 < x1 then 1 else -1
  extent_nonneg := by split <;> omega
  sign_eq := by split <;> omega
  first := h0
  last := by
    have heq : x0 + (if x0 < x1 then 1 else -1) * (if x1 > x0 then x1 - x0 else x0 - x1) = x1 := by
      split <;> omega
    rw [heq]
    exact h1

theorem place_between {x0 x1 : Int} (h0 : InRange x0) (h1 : InRange x1) :
    (between x0 x1 h0 h1).place (between x0 x1 h0 h1).extent = x1 := by
  simp only [between, place]
  split <;> omega

theorem place_zero (s : Side) : s.place 0 = s.origin := by
  rw [place, Int.mul_zero, Int.add_zero]

theorem place_inj (s : Side) {i j : Int} : s.place i = s.place j ↔ i = j := by
  rcases s.sign_eq with h | h <;> simp only [place, h] <;> omega

theorem place_succ (s : Side) (i : Int) : s.place i + s.sign = s.place (i + 1) := by
  rcases s.sign_eq with h | h <;> simp only [place, h] <;> omega

theorem natAbs_place_sub (s : Side) (i j : Int) :
    (s.place j - s.place i).natAbs = (j - i).natAbs := by
  rcases s.sign_eq with h | h <;> simp only [place, h] <;> omega

theorem place_mem_box (s : Side) {i : Int} (h : 0 ≤ i ∧ i ≤ s.extent) :
    min s.origin (s.place s.extent) ≤ s.place i ∧
      s.place i ≤ max s.origin (s.place s.extent) := by
  rcases s.sign_eq with hs | hs <;> simp only [place, hs] <;> omega

theorem extent_le (s : Side) : s.extent ≤ 2 ^ 29 := by
  have hfirst := s.first
  have hlast := s.last
  simp only [InRange] at hfirst hlast
  rcases s.sign_eq with h | h <;> rw [h] at hlast <;> omega

theorem inRange_place (s : Side) {i : Int} (h : 0 ≤ i ∧ i ≤ s.extent) : InRange (s.place i) := by
  have hfirst := s.first
  have hlast := s.last
  simp only [InRange, place] at *
  rcases s.sign_eq with hs | hs <;> rw [hs] at hlast ⊢ <;> omega

end Side

theorem int32_eq {n : Int} (h : -2 ^ 31 ≤ n) (h' : n < 2 ^ 31) : int32 n = some n :=
  if_pos ⟨h, h'⟩

theorem move_eq {test : Prop} [Decidable test] {err d z s : Int}
    (herr : test → -2 ^ 31 ≤ err + d ∧ err + d < 2 ^ 31)
    (hz : test → -2 ^ 31 ≤ z + s ∧ z + s < 2 ^ 31) :
    move test err d z s = some (if test then err + d else err, if test then z + s else z) := by
  unfold move
  by_cases ht : test
  · rw [if_pos ht, if_pos ht, if_pos ht, int32_eq (herr ht).1 (herr ht).2,
      int32_eq (hz ht).1 (hz ht).2]
    rfl
  · rw [if_neg ht, if_neg ht, if_neg ht]

section
variable (sx sy : Side)

/-- The point at (i, j), counted from the beginning of the line. -/
def pointAt (p : Int × Int) : Int × Int := (sx.place p.1, sy.place p.2)

/-- A round before the end. -/
theorem drawLineFrom_next {n : Int} {p : Int × Int} (h : Tracked sx.extent sy.extent n p)
    (hbox : (0 ≤ p.1 ∧ p.1 ≤ sx.extent) ∧ 0 ≤ p.2 ∧ p.2 ≤ sy.extent)
    (hend : p ≠ (sx.extent, sy.extent)) (fuel : Nat) :
    drawLineFrom sx.extent sy.extent sx.sign sy.sign (sx.place sx.extent) (sy.place sy.extent)
        (fuel + 1) (sx.place p.1) (sy.place p.2) (error sx.extent sy.extent p.1 p.2) =
      (drawLineFrom sx.extent sy.extent sx.sign sy.sign (sx.place sx.extent)
        (sy.place sy.extent) fuel (sx.place (next sx.extent sy.extent p).1)
        (sy.place (next sx.extent sy.extent p).2)
        (error sx.extent sy.extent (next sx.extent sy.extent p).1
          (next sx.extent sy.extent p).2)).map (pointAt sx sy p :: ·) := by
  have hnot : ¬(sx.place p.1 = sx.place sx.extent ∧ sy.place p.2 = sy.place sy.extent) := by
    rw [sx.place_inj, sy.place_inj, ← Prod.mk.injEq]
    exact hend
  have hbounds := h.error_bounds sx.extent_nonneg sy.extent_nonneg
  have hx := sx.extent_le
  have hy := sy.extent_le
  have hx0 := sx.extent_nonneg
  have hy0 := sy.extent_nonneg
  have hpx := sx.inRange_place hbox.1
  have hpy := sy.inRange_place hbox.2
  have hsx := sx.sign_eq
  have hsy := sy.sign_eq
  simp only [InRange] at hpx hpy
  rw [drawLineFrom, if_neg hnot, int32_eq (by omega) (by omega), Option.bind_eq_bind,
    Option.bind_some, int32_eq (by omega) (by omega), Option.bind_eq_bind, Option.bind_some,
    move_eq (fun h => by omega) (fun h => by omega), Option.bind_eq_bind, Option.bind_some]
  dsimp only
  rw [move_eq (fun h => by split <;> omega) (fun h => by omega), Option.bind_some]
  dsimp only
  have hxnext : sx.place (next sx.extent sy.extent p).1 =
      if -sy.extent < 2 * error sx.extent sy.extent p.1 p.2 then sx.place p.1 + sx.sign
      else sx.place p.1 := by
    rw [sx.place_succ]
    exact apply_ite sx.place _ _ _
  have hynext : sy.place (next sx.extent sy.extent p).2 =
      if 2 * error sx.extent sy.extent p.1 p.2 < sx.extent then sy.place p.2 + sy.sign
      else sy.place p.2 := by
    rw [sy.place_succ]
    exact apply_ite sy.place _ _ _
  rw [error_next, hxnext, hynext, Option.map_eq_bind]
  rfl

/-- From a point of the rounds on, the loop goes through the rest of the path. -/
theorem drawLineFrom_eq (hlong : 0 < max sx.extent sy.extent) (k : Nat) {n : Int} {p : Int × Int}
    (h : Tracked sx.extent sy.extent n p) (hn : 0 ≤ n) (hk : n + k = max sx.extent sy.extent)
    {fuel : Nat} (hfuel : k + 1 ≤ fuel) :
    drawLineFrom sx.extent sy.extent sx.sign sy.sign (sx.place sx.extent) (sy.place sy.extent)
        fuel (sx.place p.1) (sy.place p.2) (error sx.extent sy.extent p.1 p.2) =
      some ((path sx.extent sy.extent k p).map (pointAt sx sy)) := by
  obtain ⟨fuel, rfl⟩ : ∃ f, fuel = f + 1 := ⟨fuel - 1, by omega⟩
  have hx := sx.extent_nonneg
  have hy := sy.extent_nonneg
  induction k generalizing n p fuel with
  | zero =>
    rw [(h.eq_end_iff hx hy hlong).mpr (by omega), drawLineFrom, if_pos ⟨rfl, rfl⟩]
    rfl
  | succ k ih =>
    have hend : p ≠ (sx.extent, sy.extent) := by
      rw [ne_eq, h.eq_end_iff hx hy hlong]
      omega
    obtain ⟨fuel, rfl⟩ : ∃ f, fuel = f + 1 := ⟨fuel - 1, by omega⟩
    rw [drawLineFrom_next sx sy h (h.inBox hx hy hlong hn (by omega)) hend,
      ih (h.next hx hy hlong) (by omega) (by omega) fuel (by omega)]
    rfl

end

section
variable {x0 y0 x1 y1 : Int} (hx0 : InRange x0) (hy0 : InRange y0) (hx1 : InRange x1)
  (hy1 : InRange y1)

theorem extent_between (h0 : InRange x0) (h1 : InRange x1) :
    (Side.between x0 x1 h0 h1).extent = (x1 - x0).natAbs := by
  simp only [Side.between]
  split <;> omega

theorem int32_extent (s : Side) : int32 s.extent = some s.extent := by
  have hle := s.extent_le
  have hnonneg := s.extent_nonneg
  exact int32_eq (by omega) (by omega)

/-- The whole of draw_line. -/
theorem linePoints_eq {fuel : Nat}
    (hfuel : max (x1 - x0).natAbs (y1 - y0).natAbs + 1 ≤ fuel) :
    linePoints fuel x0 y0 x1 y1 = some ((path (x1 - x0).natAbs (y1 - y0).natAbs
      (max (x1 - x0).natAbs (y1 - y0).natAbs) (0, 0)).map
        (pointAt (Side.between x0 x1 hx0 hx1) (Side.between y0 y1 hy0 hy1))) := by
  have hx := extent_between hx0 hx1
  have hy := extent_between hy0 hy1
  have hxlast := Side.place_between hx0 hx1
  have hylast := Side.place_between hy0 hy1
  have hx0' : (Side.between x0 x1 hx0 hx1).place 0 = x0 := Side.place_zero _
  have hy0' : (Side.between y0 y1 hy0 hy1).place 0 = y0 := Side.place_zero _
  have hxle := (Side.between x0 x1 hx0 hx1).extent_le
  have hyle := (Side.between y0 y1 hy0 hy1).extent_le
  have herr : error (Side.between x0 x1 hx0 hx1).extent (Side.between y0 y1 hy0 hy1).extent 0 0 =
      (Side.between x0 x1 hx0 hx1).extent - (Side.between y0 y1 hy0 hy1).extent := by
    simp only [error]
    omega
  have hdx : int32 (if x1 > x0 then x1 - x0 else x0 - x1) = _ :=
    int32_extent (Side.between x0 x1 hx0 hx1)
  have hdy : int32 (if y1 > y0 then y1 - y0 else y0 - y1) = _ :=
    int32_extent (Side.between y0 y1 hy0 hy1)
  rw [linePoints, hdx, hdy]
  simp only [Option.bind_eq_bind, Option.bind_some]
  rw [int32_eq (by omega) (by omega), Option.bind_some, ← hx, ← hy]
  rcases Nat.eq_zero_or_pos (max (x1 - x0).natAbs (y1 - y0).natAbs) with hzero | hlong
  · obtain ⟨fuel, rfl⟩ : ∃ f, fuel = f + 1 := ⟨fuel - 1, by omega⟩
    rw [drawLineFrom, if_pos (by omega), hzero, path]
    simp only [List.map_cons, List.map_nil, pointAt, hx0', hy0']
  · have hline := drawLineFrom_eq (Side.between x0 x1 hx0 hx1) (Side.between y0 y1 hy0 hy1)
      (by omega) _ (tracked_start (by omega)) (Int.le_refl 0) (by omega) hfuel
    rw [hxlast, hylast, hx0', hy0', herr] at hline
    exact hline

end

/-- draw_line of any two points in range: its put_pixel calls are one more than the longer side,
go from the first point to the second, never skip, and stay between the two. -/
theorem linePoints_spec (x0 y0 x1 y1 : Int) (hx0 : InRange x0) (hy0 : InRange y0)
    (hx1 : InRange x1) (hy1 : InRange y1) : ∃ pts,
    (∀ fuel, max (x1 - x0).natAbs (y1 - y0).natAbs + 1 ≤ fuel →
      linePoints fuel x0 y0 x1 y1 = some pts) ∧
    pts.length = max (x1 - x0).natAbs (y1 - y0).natAbs + 1 ∧
    pts.head? = some (x0, y0) ∧ pts.getLast? = some (x1, y1) ∧
    pts.IsChain (fun p q => (q.1 - p.1).natAbs ≤ 1 ∧ (q.2 - p.2).natAbs ≤ 1) ∧
    ∀ p ∈ pts, (min x0 x1 ≤ p.1 ∧ p.1 ≤ max x0 x1) ∧ min y0 y1 ≤ p.2 ∧ p.2 ≤ max y0 y1 := by
  have hlength : (max ((x1 - x0).natAbs : Int) (y1 - y0).natAbs).toNat =
      max (x1 - x0).natAbs (y1 - y0).natAbs := by omega
  refine ⟨_, fun fuel hfuel => linePoints_eq hx0 hy0 hx1 hy1 hfuel, ?_, ?_, ?_, ?_, ?_⟩
  · rw [List.length_map, length_path]
  · obtain ⟨rest, hrest⟩ := path_eq_cons (max (x1 - x0).natAbs (y1 - y0).natAbs) (0, 0)
    rw [hrest, List.map_cons, List.head?_cons, pointAt, Side.place_zero, Side.place_zero]
    rfl
  · have hline := getLast?_line (Int.natCast_nonneg (x1 - x0).natAbs)
      (Int.natCast_nonneg (y1 - y0).natAbs)
    rw [hlength] at hline
    have hx := Side.place_between hx0 hx1
    have hy := Side.place_between hy0 hy1
    rw [extent_between] at hx hy
    rw [List.getLast?_map, hline, Option.map_some, pointAt, hx, hy]
  · rw [List.isChain_map]
    refine (isChain_path _ _).imp fun p q hpq => ?_
    rw [pointAt, pointAt, Side.natAbs_place_sub, Side.natAbs_place_sub]
    omega
  · intro p hp
    obtain ⟨q, hq, rfl⟩ := List.mem_map.mp hp
    rw [← hlength] at hq
    obtain ⟨hxbox, hybox⟩ := inBox_of_mem_line (Int.natCast_nonneg _) (Int.natCast_nonneg _) hq
    have hxplace := (Side.between x0 x1 hx0 hx1).place_mem_box (by rwa [extent_between])
    have hyplace := (Side.between y0 y1 hy0 hy1).place_mem_box (by rwa [extent_between])
    rw [Side.place_between] at hxplace hyplace
    exact ⟨hxplace, hyplace⟩

/-- A line to the left, of slope 1/2. -/
theorem linePoints_left : ∃ pts, linePoints 5 4 0 0 (-2) = some pts ∧ pts.length = 5 ∧
    pts.head? = some (4, 0) ∧ pts.getLast? = some (0, -2) := by
  obtain ⟨pts, hpts, hlength, hhead, hlast, -⟩ := linePoints_spec 4 0 0 (-2)
    (by decide) (by decide) (by decide) (by decide)
  exact ⟨pts, hpts 5 (by decide), hlength, hhead, hlast⟩

end EmergenceOS.Hal.Graphics
