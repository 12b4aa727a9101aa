/- Module: EmergenceOS/Hal/PanelDrawing
   digest: The control panel as it is drawn: which cells are lit, and what is painted over. -/

import EmergenceOS.Hal.Graphics
import EmergenceOS.Hal.NeumannControlPanel
import EmergenceOS.Vdev.SubstrateService

/-!
A drawing step leaves a pixel alone if the pixel lies in none of its rectangles and in none of
the rows of its text.
-/

set_option autoImplicit false
set_option relaxedAutoImplicit false

namespace EmergenceOS.Hal.Graphics

open EmergenceOS.Lib.Bytes EmergenceOS.Lib.CString EmergenceOS.Lib.BoundedLoop

/-- A pixel of a screen whose rows fit the buffer. -/
structure OnScreen (px py : BitVec 32) (g : Graphics) : Prop where
  fits : Fits g
  x : px < g.width
  y : py < g.height

structure SameScreen (g g' : Graphics) : Prop where
  width : g'.width = g.width
  height : g'.height = g.height
  pitch : g'.pitch = g.pitch

/-- A step that the pixel outlives, whatever else is on the screen. -/
def Leaves (px py : BitVec 32) (f : Graphics → Graphics) : Prop :=
  ∀ g, OnScreen px py g → SameScreen g (f g) ∧ (f g).pixel px py = g.pixel px py

/-- A step after which the pixel has the colour. -/
def Colours (px py color : BitVec 32) (f : Graphics → Graphics) : Prop :=
  ∀ g, OnScreen px py g → SameScreen g (f g) ∧ (f g).pixel px py = color

section
variable {px py color : BitVec 32} {g g' g'' : Graphics}

theorem SameScreen.refl (g : Graphics) : SameScreen g g := ⟨rfl, rfl, rfl⟩

theorem SameScreen.trans (h : SameScreen g g') (h' : SameScreen g' g'') : SameScreen g g'' :=
  ⟨h'.width.trans h.width, h'.height.trans h.height, h'.pitch.trans h.pitch⟩

theorem SameScreen.onScreen (h : SameScreen g g') (hg : OnScreen px py g) :
    OnScreen px py g' := by
  refine ⟨⟨?_, ?_⟩, ?_, ?_⟩
  · rw [h.width, h.pitch]
    exact hg.fits.row
  · rw [h.height, h.pitch]
    exact hg.fits.size
  · rw [h.width]
    exact hg.x
  · rw [h.height]
    exact hg.y

theorem leaves_id : Leaves px py fun g => g := fun g _ => ⟨SameScreen.refl g, rfl⟩

theorem Leaves.comp {f f' : Graphics → Graphics} (h : Leaves px py f) (h' : Leaves px py f') :
    Leaves px py fun g => f' (f g) := by
  intro g hg
  obtain ⟨hsame, hpixel⟩ := h g hg
  obtain ⟨hsame', hpixel'⟩ := h' (f g) (hsame.onScreen hg)
  exact ⟨hsame.trans hsame', hpixel'.trans hpixel⟩

/-- What comes before a step that colours the pixel does not matter. -/
theorem Colours.after {f f' : Graphics → Graphics} (h : ∀ g, OnScreen px py g → SameScreen g (f g))
    (h' : Colours px py color f') : Colours px py color fun g => f' (f g) := by
  intro g hg
  obtain ⟨hsame', hpixel'⟩ := h' (f g) ((h g hg).onScreen hg)
  exact ⟨(h g hg).trans hsame', hpixel'⟩

theorem Colours.comp {f f' : Graphics → Graphics} (h : Colours px py color f)
    (h' : Leaves px py f') : Colours px py color fun g => f' (f g) := by
  intro g hg
  obtain ⟨hsame, hpixel⟩ := h g hg
  obtain ⟨hsame', hpixel'⟩ := h' (f g) (hsame.onScreen hg)
  exact ⟨hsame.trans hsame', hpixel'.trans hpixel⟩

theorem leaves_foldl {α : Type} {f : Graphics → α → Graphics} {as : List α}
    (h : ∀ a ∈ as, Leaves px py fun g => f g a) : Leaves px py fun g => as.foldl f g := by
  induction as with
  | nil => exact leaves_id
  | cons a as ih =>
    exact (h a List.mem_cons_self).comp (ih fun b hb => h b (List.mem_cons_of_mem a hb))

/-- Of the steps of a loop, one colours the pixel and the others leave it. -/
theorem colours_foldl {α : Type} {f : Graphics → α → Graphics} {as : List α} {a : α}
    (ha : a ∈ as) (hnodup : as.Nodup) (hcolours : Colours px py color fun g => f g a)
    (hleaves : ∀ b ∈ as, b ≠ a → Leaves px py fun g => f g b) :
    Colours px py color fun g => as.foldl f g := by
  induction as with
  | nil => exact absurd ha List.not_mem_nil
  | cons b as ih =>
    obtain ⟨hb, hrest⟩ := List.nodup_cons.mp hnodup
    by_cases hab : b = a
    · obtain rfl := hab
      have hothers : ∀ c ∈ as, Leaves px py fun g => f g c := by
        intro c hc
        refine hleaves c (List.mem_cons_of_mem b hc) ?_
        rintro rfl
        exact hb hc
      exact hcolours.comp (leaves_foldl hothers)
    · have hfirst := hleaves b List.mem_cons_self hab
      have hlast := ih ((List.mem_cons.mp ha).resolve_left (Ne.symm hab)) hrest
        fun c hc => hleaves c (List.mem_cons_of_mem b hc)
      exact hlast.after fun g hg => (hfirst g hg).1

theorem leaves_putPixel {x y : BitVec 32} (h : ¬(x = px ∧ y = py)) (color : BitVec 32) :
    Leaves px py fun g => g.putPixel x y color := by
  intro g hg
  simp only [putPixel]
  split
  · exact ⟨SameScreen.refl g, rfl⟩
  · rename_i hin
    rw [ge_iff_le, ge_iff_le, not_or, BitVec.not_le, BitVec.not_le] at hin
    have hword : g.index px py ≠ g.index x y := by
      intro he
      obtain ⟨hx, hy⟩ := hg.fits.index_inj hg.x hg.y hin.1 hin.2 he
      exact h ⟨hx.symm, hy.symm⟩
    exact ⟨⟨rfl, rfl, rfl⟩, Function.update_of_ne hword _ _⟩

theorem sameScreen_drawRect (hfits : Fits g) (x y w h color : BitVec 32) :
    SameScreen g (g.drawRect x y w h color) := by
  unfold drawRect
  split
  · exact SameScreen.refl g
  · have hpaint := hfits.paint_rect x y (x + w) (y + h) color
    exact ⟨hpaint.width, hpaint.height, hpaint.pitch⟩

theorem pixel_drawRect {x y w h : BitVec 32} (hw : x.toNat + w.toNat < 2 ^ 32)
    (hh : y.toNat + h.toNat < 2 ^ 32) (hg : OnScreen px py g) (color : BitVec 32) :
    (g.drawRect x y w h color).pixel px py =
      if InRect x y w h px py then color else g.pixel px py :=
  (hg.fits.rectDrawn hw hh color).pixels px py hg.x hg.y

theorem leaves_drawRect {x y w h : BitVec 32} (hw : x.toNat + w.toNat < 2 ^ 32)
    (hh : y.toNat + h.toNat < 2 ^ 32) (hout : ¬InRect x y w h px py) (color : BitVec 32) :
    Leaves px py fun g => g.drawRect x y w h color := fun _ hg =>
  ⟨sameScreen_drawRect hg.fits x y w h color, (pixel_drawRect hw hh hg color).trans (if_neg hout)⟩

theorem colours_drawRect {x y w h : BitVec 32} (hw : x.toNat + w.toNat < 2 ^ 32)
    (hh : y.toNat + h.toNat < 2 ^ 32) (hin : InRect x y w h px py) (color : BitVec 32) :
    Colours px py color fun g => g.drawRect x y w h color := fun _ hg =>
  ⟨sameScreen_drawRect hg.fits x y w h color, (pixel_drawRect hw hh hg color).trans (if_pos hin)⟩

theorem sameScreen_drawBorder (hg : OnScreen px py g) (x y w h color thickness : BitVec 32) :
    SameScreen g (g.drawBorder x y w h color thickness) := by
  have h₁ := sameScreen_drawRect hg.fits x y w thickness color
  have h₂ := h₁.trans (sameScreen_drawRect (h₁.onScreen hg).fits x (y + h - thickness) w thickness
    color)
  have h₃ := h₂.trans (sameScreen_drawRect (h₂.onScreen hg).fits x y thickness h color)
  exact h₃.trans (sameScreen_drawRect (h₃.onScreen hg).fits (x + w - thickness) y thickness h color)

/-- The sides of a border lie in its rectangle. -/
theorem leaves_drawBorder {x y w h : BitVec 32} (hw : x.toNat + w.toNat < 2 ^ 32)
    (hh : y.toNat + h.toNat < 2 ^ 32) (hwpos : 0 < w.toNat) (hhpos : 0 < h.toNat)
    (hout : ¬InRect x y w h px py) (color : BitVec 32) :
    Leaves px py fun g => g.drawBorder x y w h color 1 := by
  have hone : (1 : BitVec 32).toNat = 1 := rfl
  have hbottom : (y + h - 1).toNat = y.toNat + h.toNat - 1 := by
    rw [BitVec.toNat_sub, BitVec.toNat_add, hone]
    omega
  have hright : (x + w - 1).toNat = x.toNat + w.toNat - 1 := by
    rw [BitVec.toNat_sub, BitVec.toNat_add, hone]
    omega
  simp only [InRect, BitVec.le_def] at hout
  have hside {x' y' w' h' : BitVec 32}
      (hx : x.toNat ≤ x'.toNat ∧ x'.toNat + w'.toNat ≤ x.toNat + w.toNat)
      (hy : y.toNat ≤ y'.toNat ∧ y'.toNat + h'.toNat ≤ y.toNat + h.toNat) :
      Leaves px py fun g => g.drawRect x' y' w' h' color := by
    refine leaves_drawRect (by omega) (by omega) (fun hin => hout ?_) color
    simp only [InRect, BitVec.le_def] at hin
    omega
  exact ((hside ⟨by omega, by omega⟩ ⟨by omega, by omega⟩).comp
    (hside ⟨by omega, by omega⟩ ⟨by omega, by omega⟩)).comp
    (hside ⟨by omega, by omega⟩ ⟨by omega, by omega⟩) |>.comp
    (hside ⟨by omega, by omega⟩ ⟨by omega, by omega⟩)

/-- The rows of a line of text. -/
def InRows (y py : BitVec 32) : Prop := y ≤ py ∧ py.toNat < y.toNat + 8

theorem leaves_drawGlyph {x y : BitVec 32}
    (hout : ∀ gx < 8, ∀ gy < 8, ¬(x + BitVec.ofNat 32 gx = px ∧ y + BitVec.ofNat 32 gy = py))
    (glyph : Nat → Byte) (color : BitVec 32) :
    Leaves px py fun g => g.drawGlyph glyph x y color := by
  refine leaves_foldl fun gy hgy => leaves_foldl fun gx hgx => ?_
  by_cases hbit : glyph gy &&& ((0x80 : Byte) >>> gx) ≠ 0
  · simp only [if_pos hbit]
    exact leaves_putPixel (hout gx (List.mem_range.mp hgx) gy (List.mem_range.mp hgy)) color
  · simp only [if_neg hbit]
    exact leaves_id

theorem leaves_printFrom (font8x8Basic : Int → Nat → Byte) (x : BitVec 32) {y : BitVec 32}
    (hy : y.toNat + 8 ≤ 2 ^ 32) (hout : ¬InRows y py) (color : BitVec 32) {cs : List Byte}
    (hcs : 10 ∉ cs) (cx : BitVec 32) :
    Leaves px py fun g => printFrom font8x8Basic x color g cs cx y := by
  induction cs generalizing cx with
  | nil => exact leaves_id
  | cons c cs ih =>
    have hc : ¬c = 10 := fun h => hcs (h ▸ List.mem_cons_self)
    have hrest := ih (fun h => hcs (List.mem_cons_of_mem c h)) (cx + 8)
    simp only [printFrom, if_neg hc]
    refine (leaves_drawGlyph (fun gx _ gy hgy hat => hout ?_) _ color).comp hrest
    rw [InRows, ← hat.2, BitVec.le_def, BitVec.toNat_add, BitVec.toNat_ofNat]
    omega

/-- Text leaves alone what is to the left of it. -/
theorem leaves_printFrom_right (font8x8Basic : Int → Nat → Byte) (x y : BitVec 32)
    (color : BitVec 32) {cs : List Byte} (hcs : 10 ∉ cs) {cx : BitVec 32}
    (hpx : px.toNat < cx.toNat) (hroom : cx.toNat + 8 * cs.length < 2 ^ 32) :
    Leaves px py fun g => printFrom font8x8Basic x color g cs cx y := by
  induction cs generalizing cx with
  | nil => exact leaves_id
  | cons c cs ih =>
    rw [List.length_cons] at hroom
    have hc : ¬c = 10 := fun h => hcs (h ▸ List.mem_cons_self)
    have height : (8 : BitVec 32).toNat = 8 := rfl
    have hnext : (cx + 8).toNat = cx.toNat + 8 := by
      rw [BitVec.toNat_add, height]
      omega
    have hrest := ih (fun h => hcs (List.mem_cons_of_mem c h))
      (show px.toNat < (cx + 8).toNat by omega) (by omega)
    simp only [printFrom, if_neg hc]
    refine (leaves_drawGlyph (fun gx hgx gy _ hat => ?_) _ color).comp hrest
    rw [← hat.1, BitVec.toNat_add, BitVec.toNat_ofNat] at hpx
    omega

theorem sameScreen_clear (g : Graphics) (color : BitVec 32) : SameScreen g (g.clear color) := by
  have hfold := List.foldlRecOn (motive := SameScreen g) (List.range (g.height * g.pitch / 8).toNat)
    (fun g i => (g.store (2 * i) color).store (2 * i + 1) color) (SameScreen.refl g)
    fun g' hg' _ _ => ⟨hg'.width, hg'.height, hg'.pitch⟩
  exact ⟨hfold.width, hfold.height, hfold.pitch⟩

theorem sameScreen_putPixel (g : Graphics) (x y color : BitVec 32) :
    SameScreen g (g.putPixel x y color) := by
  unfold putPixel
  split
  · exact SameScreen.refl g
  · exact ⟨rfl, rfl, rfl⟩

theorem sameScreen_drawGlyph (g : Graphics) (glyph : Nat → Byte) (x y color : BitVec 32) :
    SameScreen g (g.drawGlyph glyph x y color) := by
  refine List.foldlRecOn _ _ (SameScreen.refl g) fun g₁ hg₁ gy _ => ?_
  refine List.foldlRecOn _ _ hg₁ fun g₂ hg₂ gx _ => ?_
  split
  · exact hg₂.trans (sameScreen_putPixel g₂ _ _ _)
  · exact hg₂

theorem sameScreen_printFrom (font8x8Basic : Int → Nat → Byte) (x color : BitVec 32) (g : Graphics)
    (cs : List Byte) (cx y : BitVec 32) :
    SameScreen g (printFrom font8x8Basic x color g cs cx y) := by
  induction cs generalizing g cx y with
  | nil => exact SameScreen.refl g
  | cons c cs ih =>
    rw [printFrom]
    split
    · exact ih g x (y + 12)
    · exact (sameScreen_drawGlyph g _ cx y color).trans (ih _ (cx + 8) y)

end

end EmergenceOS.Hal.Graphics

namespace EmergenceOS.Hal.NeumannControlPanel

open EmergenceOS.Lib.Bytes EmergenceOS.Lib.CString EmergenceOS.Lib.Decimal
open EmergenceOS.Hal.Graphics EmergenceOS.Vdev.Topology EmergenceOS.Vdev.SubstrateService

/-- The characters of a literal. -/
def literal (s : String) : List Byte := s.toList.map fun c => BitVec.ofNat 8 c.toNat

/-- SubstrateManifold::is_block_resident. -/
def isBlockResident (m : SubstrateManifold) (blockIdx : BitVec 32) : Bool :=
  if h : blockIdx.toNat < cachePoolSize then
    decide (m.cacheState ⟨blockIdx.toNat, h⟩ = .resident)
  else false

def offsets : List (BitVec 32) := [0, 512, 1024, 1536]

def labels : List (List Byte) :=
  [literal "PHASE: 0", literal "PHASE: 512", literal "PHASE: 1024", literal "PHASE: 1536"]

/-- The block that a cell stands for. -/
def cellBlock (masterFrame : BitVec 32) (i r c : Nat) : BitVec 32 :=
  (masterFrame + offsets.getD i 0 + BitVec.ofNat 32 (r * 8) + BitVec.ofNat 32 c) % 1024

def cellColor (m : SubstrateManifold) (masterFrame : BitVec 32) (i r c : Nat) : BitVec 32 :=
  if isBlockResident m (cellBlock masterFrame i r c) then 0x0000FF00 else 0x00002222

/-- The corner of quadrant i. -/
def quadX (x w : BitVec 32) (i : Nat) : BitVec 32 := x + BitVec.ofNat 32 (i % 2) * (w / 2)
def quadY (y h : BitVec 32) (i : Nat) : BitVec 32 := y + BitVec.ofNat 32 (i / 2) * (h / 2)

def cellX (x w : BitVec 32) (i c : Nat) : BitVec 32 :=
  quadX x w i + 10 + BitVec.ofNat 32 (c * 10)
def cellY (y h : BitVec 32) (i r : Nat) : BitVec 32 :=
  quadY y h i + 25 + BitVec.ofNat 32 (r * 10)

/-- The loops over the cells of quadrant i. -/
def drawCells (g : Graphics) (x y w h masterFrame : BitVec 32) (m : SubstrateManifold) (i : Nat) :
    Graphics :=
  (List.range 8).foldl (fun g r =>
    (List.range 8).foldl (fun g c =>
      g.drawRect (cellX x w i c) (cellY y h i r) 8 8 (cellColor m masterFrame i r c)) g) g

section
variable (font8x8Basic : Int → Nat → Byte)

/-- Graphics::print_at of characters in memory. -/
def print (g : Graphics) (cs : List Byte) (x y color : BitVec 32) : Graphics :=
  printFrom font8x8Basic x color g cs x y

def drawQuadrant (g : Graphics) (x y w h masterFrame : BitVec 32) (m : SubstrateManifold)
    (i : Nat) : Graphics :=
  let g := g.drawBorder (quadX x w i) (quadY y h i) (w / 2) (h / 2) 0x00222222 1
  let g := print font8x8Basic g (labels.getD i []) (quadX x w i + 5) (quadY y h i + 5) 0x0000AAAA
  drawCells g x y w h masterFrame m i

def drawQuadResolve (g : Graphics) (x y w h masterFrame : BitVec 32) (m : SubstrateManifold) :
    Graphics :=
  (List.range 4).foldl (fun g i => drawQuadrant font8x8Basic g x y w h masterFrame m i) g

end

/-- The grids fit their quadrants, and the whole fits the coordinates. -/
structure Roomy (x y w h : BitVec 32) : Prop where
  width : 176 ≤ w.toNat
  height : 206 ≤ h.toNat
  right : x.toNat + w.toNat + 8 ≤ 2 ^ 32
  bottom : y.toNat + h.toNat + 8 ≤ 2 ^ 32

section
variable {x y w h px py : BitVec 32}

/-- One half of a side, or none. -/
theorem toNat_corner (x w : BitVec 32) (hright : x.toNat + w.toNat + 8 ≤ 2 ^ 32) {k : Nat}
    (hk : k < 2) : (x + BitVec.ofNat 32 k * (w / 2)).toNat = x.toNat + k * (w.toNat / 2) := by
  have htwo : (2 : BitVec 32).toNat = 2 := rfl
  rcases Nat.lt_succ_iff_lt_or_eq.mp hk with hzero | rfl
  · obtain rfl : k = 0 := Nat.lt_one_iff.mp hzero
    simp
  · rw [BitVec.toNat_add, BitVec.toNat_mul, BitVec.toNat_udiv, BitVec.toNat_ofNat, htwo]
    omega

theorem toNat_quadX (hroom : Roomy x y w h) (i : Nat) :
    (quadX x w i).toNat = x.toNat + i % 2 * (w.toNat / 2) :=
  toNat_corner x w hroom.right (Nat.mod_lt i (by decide))

theorem toNat_quadY (hroom : Roomy x y w h) {i : Nat} (hi : i < 4) :
    (quadY y h i).toNat = y.toNat + i / 2 * (h.toNat / 2) :=
  toNat_corner y h hroom.bottom (by omega)

/-- A half and what lies beyond it end with the whole. -/
theorem half_le {k : Nat} (hk : k < 2) (n : Nat) : k * (n / 2) + n / 2 ≤ n := by
  rcases Nat.lt_succ_iff_lt_or_eq.mp hk with hzero | rfl
  · obtain rfl : k = 0 := Nat.lt_one_iff.mp hzero
    omega
  · omega

theorem toNat_cellX (hroom : Roomy x y w h) (i : Nat) {c : Nat} (hc : c < 8) :
    (cellX x w i c).toNat = x.toNat + i % 2 * (w.toNat / 2) + 10 + c * 10 := by
  have hten : (10 : BitVec 32).toNat = 10 := rfl
  have hquad := toNat_quadX hroom i
  have hhalf := half_le (Nat.mod_lt i (by decide : 2 > 0)) w.toNat
  have hwidth := hroom.width
  have hright := hroom.right
  rw [cellX, BitVec.toNat_add, BitVec.toNat_add, BitVec.toNat_ofNat, hten, hquad]
  omega

theorem toNat_cellY (hroom : Roomy x y w h) {i : Nat} (hi : i < 4) {r : Nat} (hr : r < 8) :
    (cellY y h i r).toNat = y.toNat + i / 2 * (h.toNat / 2) + 25 + r * 10 := by
  have hoff : (25 : BitVec 32).toNat = 25 := rfl
  have hquad := toNat_quadY hroom hi
  have hhalf := half_le (show i / 2 < 2 by omega) h.toNat
  have hheight := hroom.height
  have hbottom := hroom.bottom
  rw [cellY, BitVec.toNat_add, BitVec.toNat_add, BitVec.toNat_ofNat, hoff, hquad]
  omega

/-- A pixel of a cell. -/
def InCell (x y w h px py : BitVec 32) (i r c : Nat) : Prop :=
  InRect (cellX x w i c) (cellY y h i r) 8 8 px py

instance (x y w h px py : BitVec 32) (i r c : Nat) : Decidable (InCell x y w h px py i r c) :=
  inferInstanceAs (Decidable (InRect _ _ _ _ _ _))

theorem inCell_iff (hroom : Roomy x y w h) {i r c : Nat} (hi : i < 4) (hr : r < 8) (hc : c < 8) :
    InCell x y w h px py i r c ↔
      (x.toNat + i % 2 * (w.toNat / 2) + 10 + c * 10 ≤ px.toNat ∧
        px.toNat < x.toNat + i % 2 * (w.toNat / 2) + 10 + c * 10 + 8) ∧
      y.toNat + i / 2 * (h.toNat / 2) + 25 + r * 10 ≤ py.toNat ∧
        py.toNat < y.toNat + i / 2 * (h.toNat / 2) + 25 + r * 10 + 8 := by
  have height : (8 : BitVec 32).toNat = 8 := rfl
  rw [InCell, InRect, BitVec.le_def, BitVec.le_def, toNat_cellX hroom i hc,
    toNat_cellY hroom hi hr, height]

/-- A cell ends before 2^32. -/
theorem cell_bounds (hroom : Roomy x y w h) {i r c : Nat} (hi : i < 4) (hr : r < 8)
    (hc : c < 8) : (cellX x w i c).toNat + (8 : BitVec 32).toNat < 2 ^ 32 ∧
      (cellY y h i r).toNat + (8 : BitVec 32).toNat < 2 ^ 32 := by
  have height : (8 : BitVec 32).toNat = 8 := rfl
  have hx := half_le (Nat.mod_lt i (by decide : 2 > 0)) w.toNat
  have hy := half_le (show i / 2 < 2 by omega) h.toNat
  obtain ⟨hwidth, hheight, hright, hbottom⟩ := hroom
  rw [toNat_cellX ⟨hwidth, hheight, hright, hbottom⟩ i hc,
    toNat_cellY ⟨hwidth, hheight, hright, hbottom⟩ hi hr, height]
  omega

/-- Different cells have no pixel in common. -/
theorem InCell.unique (hroom : Roomy x y w h) {i r c i' r' c' : Nat} (hi : i < 4) (hr : r < 8)
    (hc : c < 8) (hi' : i' < 4) (hr' : r' < 8) (hc' : c' < 8)
    (h₁ : InCell x y w h px py i r c) (h₂ : InCell x y w h px py i' r' c') :
    i = i' ∧ r = r' ∧ c = c' := by
  rw [inCell_iff hroom hi hr hc] at h₁
  rw [inCell_iff hroom hi' hr' hc'] at h₂
  have hwidth := hroom.width
  have hheight := hroom.height
  have hapart {k k' n : Nat} (hk : k < 2) (hk' : k' < 2) (hne : k ≠ k') :
      k * (n / 2) + n / 2 ≤ k' * (n / 2) ∨ k' * (n / 2) + n / 2 ≤ k * (n / 2) := by
    rcases Nat.lt_or_gt_of_ne hne with hlt | hgt
    · left
      rw [show k' = 1 by omega, show k = 0 by omega]
      omega
    · right
      rw [show k' = 0 by omega, show k = 1 by omega]
      omega
  have hcolumn : i % 2 = i' % 2 := by
    by_contra hne
    have hx := hapart (n := w.toNat) (Nat.mod_lt i (by decide)) (Nat.mod_lt i' (by decide)) hne
    omega
  have hrow : i / 2 = i' / 2 := by
    by_contra hne
    have hy := hapart (n := h.toNat) (show i / 2 < 2 by omega) (show i' / 2 < 2 by omega) hne
    omega
  rw [hcolumn, hrow] at h₁
  omega

theorem leaves_cell (hroom : Roomy x y w h) {i r c i' r' c' : Nat} (hi : i < 4) (hr : r < 8)
    (hc : c < 8) (hi' : i' < 4) (hr' : r' < 8) (hc' : c' < 8)
    (hcell : InCell x y w h px py i r c) (hne : ¬(i = i' ∧ r = r' ∧ c = c')) (color : BitVec 32) :
    Leaves px py fun g => g.drawRect (cellX x w i' c') (cellY y h i' r') 8 8 color := by
  obtain ⟨hx, hy⟩ := cell_bounds hroom hi' hr' hc'
  exact leaves_drawRect hx hy
    (fun hother => hne (hcell.unique hroom hi hr hc hi' hr' hc' hother)) color

/-- The loops over the cells light the one that the pixel is in. -/
theorem colours_drawCells (hroom : Roomy x y w h) {i r c : Nat} (hi : i < 4) (hr : r < 8)
    (hc : c < 8) (hcell : InCell x y w h px py i r c) (masterFrame : BitVec 32)
    (m : SubstrateManifold) :
    Colours px py (cellColor m masterFrame i r c)
      fun g => drawCells g x y w h masterFrame m i := by
  obtain ⟨hx, hy⟩ := cell_bounds hroom hi hr hc
  refine colours_foldl (List.mem_range.mpr hr) List.nodup_range ?_ fun r' hr' hne => ?_
  · refine colours_foldl (List.mem_range.mpr hc) List.nodup_range
      (colours_drawRect hx hy hcell _) fun c' hc' hne => ?_
    exact leaves_cell hroom hi hr hc hi hr (List.mem_range.mp hc') hcell
      (fun h => hne h.2.2.symm) _
  · refine leaves_foldl fun c' hc' => ?_
    exact leaves_cell hroom hi hr hc hi (List.mem_range.mp hr') (List.mem_range.mp hc') hcell
      (fun h => hne h.2.1.symm) _

theorem leaves_drawCells (hroom : Roomy x y w h) {i r c i' : Nat} (hi : i < 4) (hr : r < 8)
    (hc : c < 8) (hi' : i' < 4) (hne : i' ≠ i) (hcell : InCell x y w h px py i r c)
    (masterFrame : BitVec 32) (m : SubstrateManifold) :
    Leaves px py fun g => drawCells g x y w h masterFrame m i' :=
  leaves_foldl fun _ hr' => leaves_foldl fun _ hc' =>
    leaves_cell hroom hi hr hc hi' (List.mem_range.mp hr') (List.mem_range.mp hc') hcell
      (fun h => hne h.1.symm) _

theorem newline_notMem_labels : ∀ i < 4, 10 ∉ labels.getD i [] := by decide

/-- The labels stand above the cells of their own quadrants, and below those of the others or
in the same rows. -/
theorem leaves_label (font8x8Basic : Int → Nat → Byte) (hroom : Roomy x y w h) {i r c i' : Nat}
    (hi : i < 4) (hr : r < 8) (hc : c < 8) (hi' : i' < 4) (hcell : InCell x y w h px py i r c) :
    Leaves px py fun g => print font8x8Basic g (labels.getD i' []) (quadX x w i' + 5)
      (quadY y h i' + 5) 0x0000AAAA := by
  have hfive : (5 : BitVec 32).toNat = 5 := rfl
  have hhalf := half_le (show i' / 2 < 2 by omega) h.toNat
  have hheight := hroom.height
  have hbottom := hroom.bottom
  have hrow : (quadY y h i' + 5).toNat = y.toNat + i' / 2 * (h.toNat / 2) + 5 := by
    rw [BitVec.toNat_add, toNat_quadY hroom hi', hfive]
    omega
  rw [inCell_iff hroom hi hr hc] at hcell
  have hout : ¬InRows (quadY y h i' + 5) py := by
    rw [InRows, BitVec.le_def, hrow]
    have hk : i / 2 = 0 ∨ i / 2 = 1 := by omega
    have hk' : i' / 2 = 0 ∨ i' / 2 = 1 := by omega
    rcases hk with hk | hk <;> rcases hk' with hk' | hk' <;> rw [hk] at hcell <;> rw [hk'] <;> omega
  exact leaves_printFrom font8x8Basic _ (by omega) hout _ (newline_notMem_labels i' hi') _

theorem leaves_border (hroom : Roomy x y w h) {i r c i' : Nat} (hi : i < 4) (hr : r < 8)
    (hc : c < 8) (hi' : i' < 4) (hne : i' ≠ i) (hcell : InCell x y w h px py i r c)
    (color : BitVec 32) :
    Leaves px py fun g =>
      g.drawBorder (quadX x w i') (quadY y h i') (w / 2) (h / 2) color 1 := by
  have htwo : (2 : BitVec 32).toNat = 2 := rfl
  have hx := half_le (Nat.mod_lt i' (by decide : 2 > 0)) w.toNat
  have hy := half_le (show i' / 2 < 2 by omega) h.toNat
  have hquadX := toNat_quadX hroom i'
  have hquadY := toNat_quadY hroom hi'
  obtain ⟨hwidth, hheight, hright, hbottom⟩ := id hroom
  rw [inCell_iff hroom hi hr hc] at hcell
  have hw : (w / 2).toNat = w.toNat / 2 := by rw [BitVec.toNat_udiv, htwo]
  have hh : (h / 2).toNat = h.toNat / 2 := by rw [BitVec.toNat_udiv, htwo]
  refine leaves_drawBorder (by omega) (by omega) (by omega) (by omega) ?_ color
  rw [InRect, BitVec.le_def, BitVec.le_def, hw, hh, hquadX, hquadY]
  have hk : i % 2 ≠ i' % 2 ∨ i / 2 ≠ i' / 2 := by omega
  have hm : i % 2 = 0 ∨ i % 2 = 1 := by omega
  have hm' : i' % 2 = 0 ∨ i' % 2 = 1 := by omega
  have hd : i / 2 = 0 ∨ i / 2 = 1 := by omega
  have hd' : i' / 2 = 0 ∨ i' / 2 = 1 := by omega
  rcases hm with hm | hm <;> rcases hm' with hm' | hm' <;> rcases hd with hd | hd <;>
    rcases hd' with hd' | hd' <;> rw [hm, hd] at hcell <;> rw [hm', hd'] <;> omega

theorem leaves_drawQuadrant (font8x8Basic : Int → Nat → Byte) (hroom : Roomy x y w h)
    {i r c i' : Nat} (hi : i < 4) (hr : r < 8) (hc : c < 8) (hi' : i' < 4) (hne : i' ≠ i)
    (hcell : InCell x y w h px py i r c) (masterFrame : BitVec 32) (m : SubstrateManifold) :
    Leaves px py fun g => drawQuadrant font8x8Basic g x y w h masterFrame m i' := by
  have hborder := leaves_border hroom hi hr hc hi' hne hcell 0x00222222
  have hlabel := leaves_label font8x8Basic hroom hi hr hc hi' hcell
  have hcells := leaves_drawCells hroom hi hr hc hi' hne hcell masterFrame m
  intro g hg
  obtain ⟨hg₁, hpixel₁⟩ := hborder g hg
  obtain ⟨hg₂, hpixel₂⟩ := hlabel _ (hg₁.onScreen hg)
  obtain ⟨hg₃, hpixel₃⟩ := hcells _ (hg₂.onScreen (hg₁.onScreen hg))
  exact ⟨(hg₁.trans hg₂).trans hg₃, (hpixel₃.trans hpixel₂).trans hpixel₁⟩

theorem colours_drawQuadrant (font8x8Basic : Int → Nat → Byte) (hroom : Roomy x y w h)
    {i r c : Nat} (hi : i < 4) (hr : r < 8) (hc : c < 8) (hcell : InCell x y w h px py i r c)
    (masterFrame : BitVec 32) (m : SubstrateManifold) :
    Colours px py (cellColor m masterFrame i r c)
      fun g => drawQuadrant font8x8Basic g x y w h masterFrame m i := by
  have hlabel := leaves_label font8x8Basic hroom hi hr hc hi hcell
  have hcells := colours_drawCells hroom hi hr hc hcell masterFrame m
  intro g hg
  have hg₁ := sameScreen_drawBorder hg (quadX x w i) (quadY y h i) (w / 2) (h / 2) 0x00222222 1
  obtain ⟨hg₂, -⟩ := hlabel _ (hg₁.onScreen hg)
  obtain ⟨hg₃, hpixel⟩ := hcells _ (hg₂.onScreen (hg₁.onScreen hg))
  exact ⟨(hg₁.trans hg₂).trans hg₃, hpixel⟩

/-- A cell of the grids shows whether its block is resident. -/
theorem colours_drawQuadResolve (font8x8Basic : Int → Nat → Byte) (hroom : Roomy x y w h)
    {i r c : Nat} (hi : i < 4) (hr : r < 8) (hc : c < 8) (hcell : InCell x y w h px py i r c)
    (masterFrame : BitVec 32) (m : SubstrateManifold) :
    Colours px py (cellColor m masterFrame i r c)
      fun g => drawQuadResolve font8x8Basic g x y w h masterFrame m :=
  colours_foldl (List.mem_range.mpr hi) List.nodup_range
    (colours_drawQuadrant font8x8Basic hroom hi hr hc hcell masterFrame m) fun _ hi' hne =>
    leaves_drawQuadrant font8x8Basic hroom hi hr hc (List.mem_range.mp hi') hne hcell
      masterFrame m

end

/-- Hundredths of the sine and the cosine of multiples of 30 degrees. -/
def sTbl : List Int := [0, 50, 86, 100, 86, 50, 0, -50, -86, -100, -86, -50]
def cTbl : List Int := [100, 86, 50, 0, -50, -86, -100, -86, -50, 0, 50, 86]

/-- The radius is unsigned, and makes the product and the quotient unsigned. -/
def rotorOffset (tbl : List Int) (r i : Nat) : BitVec 32 :=
  (20 + BitVec.ofNat 32 (r * 15)) * BitVec.ofInt 32 (tbl.getD (i % 12) 0) / 100

/-- The rotors of one ring. -/
def drawRing (g : Graphics) (cx cy frame : BitVec 32) (r : Nat) : Graphics :=
  let color : BitVec 32 :=
    if (frame + BitVec.ofNat 32 r) % 8 = 0 then 0x0000FFFF else 0x00003333
  (List.range 12).foldl (fun g i =>
    g.drawRect (cx + rotorOffset cTbl r i) (cy + rotorOffset sTbl r i) 4 4 color) g

/-- print_at of a buffer of sixteen characters that holds a terminator. -/
def text (buf : Buffer) : List Byte := (slice buf 0 bufferSize).takeWhile fun c => c ≠ 0

inductive Region
  | scheduling | manifold | console
  deriving DecidableEq

section
variable (font8x8Basic : Int → Nat → Byte)

def drawEnigmaSurpass (g : Graphics) (x y w h frame : BitVec 32) : Graphics :=
  let g := g.drawBorder x y w h 0x00333333 1
  let g := print font8x8Basic g (literal "SOVEREIGN STATE COMPLEXITY") (x + 10) (y + 10)
    0x0000AAAA
  let g := print font8x8Basic g (literal "8-HOP RESOLVE: 1.2e24 COMBINATIONS") (x + 10) (y + 25)
    0x0000FFFF
  (List.range 8).foldl (fun g r => drawRing g (x + w / 2) (y + h / 2 + 20) frame r) g

def statusText : Build → List Byte
  | .sovereign => literal "PHOENIX vX [SOVEREIGN] | LITERAL RESOLVE | [TAB] REGIONS"
  | .evaluation => literal "PHOENIX v0.5 [OPEN] | LITERAL RESOLVE | [TAB] REGIONS"
  | .enterprise => literal "PHOENIX v1.0 [RELEASE] | LITERAL RESOLVE | [TAB] REGIONS"

def drawStatusBar (build : Build) (g : Graphics) : Graphics :=
  let g := g.drawRect 0 0 g.width 25 0x00003333
  print font8x8Basic g (statusText build) 10 8 0x0000FFFF

/-- What the stack held before, below the digits and in the buffer, is given. -/
def printNumber (g : Graphics) (n : BitVec 64) (stack : Buffer × Buffer) (x y color : BitVec 32) :
    Option Graphics :=
  (intToStr n stack.1 stack.2).map fun (_, buf) => print font8x8Basic g (text buf) x y color

/-- The metrics, up to the grids. -/
def drawMetrics (build : Build) (g : Graphics) (manifold : SubstrateManifold)
    (activeCores activeNodes : BitVec 32) (focusedRegion : Region) (c n b : Buffer × Buffer) :
    Option Graphics := do
  let g := drawStatusBar font8x8Basic build (g.clear 0x00080808)
  let schedColor := if focusedRegion = .scheduling then 0x0000FFFF else 0x00222222
  let g := g.drawBorder 10 40 280 700 schedColor 1
  let g := print font8x8Basic g (literal "[ SILICON CONTROL ]") 20 60 0x00FFFF00
  let g := print font8x8Basic g (literal "Bypass Cores: ") 20 85 0x00FFFFFF
  let g ← printNumber font8x8Basic g (activeCores.setWidth 64) c 150 85 0x0000FF00
  let g := print font8x8Basic g (literal "[ MANIFOLD STORAGE ]") 20 130 0x00FFFF00
  let g := print font8x8Basic g (literal "Active Nodes: ") 20 155 0x00FFFFFF
  let g ← printNumber font8x8Basic g (activeNodes.setWidth 64) n 150 155 0x0000FF00
  let g := print font8x8Basic g (literal "Substrate Blocks: ") 20 180 0x00FFFFFF
  printNumber font8x8Basic g (getUsedBlocks manifold) b 150 180 0x0000FF00

/-- The console, behind the rings. -/
def drawConsole (g : Graphics) (focusedRegion : Region) (frame : BitVec 32)
    (f : Buffer × Buffer) : Option Graphics :=
  let consoleColor := if focusedRegion = .console then 0x0000FF00 else 0x00222222
  let g := g.drawBorder 310 460 680 280 consoleColor 1
  let g := print font8x8Basic g (literal "SOVEREIGN COMMAND CONSOLE") 320 470 0x0000AAAA
  let g := print font8x8Basic g (literal "ACTIVE_RESOLVE_PHASE: ") 320 490 0x00FFFFFF
  printNumber font8x8Basic g ((frame % 2048).setWidth 64) f 500 490 0x00FFFF00

/-- c, n, b and f are what the stack held where the numbers are converted. -/
def drawPanel (build : Build) (g : Graphics) (manifold : SubstrateManifold)
    (activeCores activeNodes : BitVec 32) (focusedRegion : Region) (frame : BitVec 32)
    (c n b f : Buffer × Buffer) : Option Graphics := do
  let g ← drawMetrics font8x8Basic build g manifold activeCores activeNodes focusedRegion c n b
  let g := drawQuadResolve font8x8Basic g 310 40 680 400 frame manifold
  let g := drawEnigmaSurpass font8x8Basic g 10 460 280 280 frame
  drawConsole font8x8Basic g focusedRegion frame f

end

section
variable {px py : BitVec 32} {g : Graphics} (font8x8Basic : Int → Nat → Byte)

/-- The buffers hold the numerals. -/
theorem text_intToStr {n : BitVec 64} (hn : n.toNat < 10 ^ 10) (tmp str : Buffer) :
    ∃ buf, intToStr n tmp str = some ((numeral n.toNat).length, buf) ∧
      text buf = numeral n.toNat := by
  obtain ⟨buf, hrun, hslice, hend, -⟩ := intToStr_eq n tmp str
  have hlength := length_numeral_le (k := 10) (by decide) hn
  have hdigits := (numeral_canonical n.toNat).digits
  refine ⟨buf, hrun, ?_⟩
  obtain ⟨k, hk⟩ : ∃ k, bufferSize = (numeral n.toNat).length + (1 + k) :=
    ⟨bufferSize - (numeral n.toNat).length - 1, by rw [bufferSize]; omega⟩
  have hrest : slice buf (numeral n.toNat).length (1 + k) =
      0 :: slice buf ((numeral n.toNat).length + 1) k := by
    rw [slice_add]
    exact congrArg (· :: _) hend
  rw [text, hk, slice_add, Nat.zero_add, hslice, hrest, List.takeWhile_append_of_pos]
  · simp
  · intro c hc
    have hne : c ≠ 0 := by
      rintro rfl
      exact absurd (hdigits 0 hc).1 (by decide)
    exact decide_eq_true hne

theorem printNumber_eq (g : Graphics) {n : BitVec 64} (hn : n.toNat < 10 ^ 10)
    (stack : Buffer × Buffer) (x y color : BitVec 32) :
    printNumber font8x8Basic g n stack x y color =
      some (print font8x8Basic g (numeral n.toNat) x y color) := by
  obtain ⟨buf, hrun, htext⟩ := text_intToStr hn stack.1 stack.2
  rw [printNumber, hrun, Option.map_some]
  exact congrArg (fun cs => some (print font8x8Basic g cs x y color)) htext

theorem newline_notMem_numeral (n : Nat) : 10 ∉ numeral n := fun h =>
  absurd ((numeral_canonical n).digits 10 h).1 (by decide)

theorem toNat_rotorOffset_le (tbl : List Int) (r i : Nat) :
    (rotorOffset tbl r i).toNat ≤ 42949672 := by
  have hhundred : (100 : BitVec 32).toNat = 100 := rfl
  rw [rotorOffset, BitVec.toNat_udiv, hhundred]
  have hlt := ((20 + BitVec.ofNat 32 (r * 15)) * BitVec.ofInt 32 (tbl.getD (i % 12) 0)).isLt
  omega

/-- The rotors stand below the centre of their ring, if they are on the screen at all. -/
theorem leaves_drawRing {cx cy : BitVec 32} (hcx : cx.toNat < 2 ^ 31) (hcy : cy.toNat < 2 ^ 31)
    (hpy : py.toNat < cy.toNat) (frame : BitVec 32) (r : Nat) :
    Leaves px py fun g => drawRing g cx cy frame r := by
  have hfour : (4 : BitVec 32).toNat = 4 := rfl
  refine leaves_foldl fun i _ => ?_
  have hx := toNat_rotorOffset_le cTbl r i
  have hy := toNat_rotorOffset_le sTbl r i
  have hcolumn : (cx + rotorOffset cTbl r i).toNat = cx.toNat + (rotorOffset cTbl r i).toNat := by
    rw [BitVec.toNat_add]
    omega
  have hrow : (cy + rotorOffset sTbl r i).toNat = cy.toNat + (rotorOffset sTbl r i).toNat := by
    rw [BitVec.toNat_add]
    omega
  refine leaves_drawRect (by omega) (by omega) (fun hin => ?_) _
  have hbelow := BitVec.le_def.mp hin.2.1
  omega

theorem leaves_print {y : BitVec 32} (hy : y.toNat + 8 ≤ 2 ^ 32) (hpy : py.toNat < y.toNat)
    {cs : List Byte} (hcs : 10 ∉ cs) (x color : BitVec 32) :
    Leaves px py fun g => print font8x8Basic g cs x y color :=
  leaves_printFrom font8x8Basic x hy (fun hin => absurd (BitVec.le_def.mp hin.1) (by omega)) color
    hcs x

theorem leaves_borderBelow {x y w h : BitVec 32} (hw : x.toNat + w.toNat < 2 ^ 32)
    (hh : y.toNat + h.toNat < 2 ^ 32) (hwpos : 0 < w.toNat) (hhpos : 0 < h.toNat)
    (hpy : py.toNat < y.toNat) (color : BitVec 32) :
    Leaves px py fun g => g.drawBorder x y w h color 1 :=
  leaves_drawBorder hw hh hwpos hhpos
    (fun hin => absurd (BitVec.le_def.mp hin.2.1) (by omega)) color

/-- The rings are drawn below row 460. -/
theorem leaves_drawEnigmaSurpass (hpy : py.toNat < 460) (frame : BitVec 32) :
    Leaves px py fun g => drawEnigmaSurpass font8x8Basic g 10 460 280 280 frame := by
  have hborder : Leaves px py fun g => g.drawBorder 10 460 280 280 0x00333333 1 :=
    leaves_borderBelow (by decide) (by decide) (by decide) (by decide) hpy _
  have hfirst : Leaves px py fun g =>
      print font8x8Basic g (literal "SOVEREIGN STATE COMPLEXITY") (10 + 10) (460 + 10) 0x0000AAAA :=
    leaves_print font8x8Basic (by decide) (Nat.lt_trans hpy (by decide)) (by decide) _ _
  have hsecond : Leaves px py fun g =>
      print font8x8Basic g (literal "8-HOP RESOLVE: 1.2e24 COMBINATIONS") (10 + 10) (460 + 25)
        0x0000FFFF :=
    leaves_print font8x8Basic (by decide) (Nat.lt_trans hpy (by decide)) (by decide) _ _
  have hrings : Leaves px py fun g => (List.range 8).foldl (fun g r =>
      drawRing g (10 + 280 / 2) (460 + 280 / 2 + 20) frame r) g :=
    leaves_foldl fun r _ => leaves_drawRing (by decide) (by decide)
      (Nat.lt_trans hpy (by decide)) frame r
  intro g hg
  obtain ⟨hg₁, hpixel₁⟩ := hborder g hg
  obtain ⟨hg₂, hpixel₂⟩ := hfirst _ (hg₁.onScreen hg)
  have hg₂ := hg₁.trans hg₂
  obtain ⟨hg₃, hpixel₃⟩ := hsecond _ (hg₂.onScreen hg)
  have hg₃ := hg₂.trans hg₃
  obtain ⟨hg₄, hpixel₄⟩ := hrings _ (hg₃.onScreen hg)
  exact ⟨hg₃.trans hg₄, ((hpixel₄.trans hpixel₃).trans hpixel₂).trans hpixel₁⟩

/-- So is the console. -/
theorem drawConsole_leaves (hpy : py.toNat < 460) (focusedRegion : Region) (frame : BitVec 32)
    (f : Buffer × Buffer) (hg : OnScreen px py g) :
    ∃ g', drawConsole font8x8Basic g focusedRegion frame f = some g' ∧ SameScreen g g' ∧
      g'.pixel px py = g.pixel px py := by
  have hborder (color : BitVec 32) : Leaves px py fun g => g.drawBorder 310 460 680 280 color 1 :=
    leaves_borderBelow (by decide) (by decide) (by decide) (by decide) hpy _
  have hfirst : Leaves px py fun g =>
      print font8x8Basic g (literal "SOVEREIGN COMMAND CONSOLE") 320 470 0x0000AAAA :=
    leaves_print font8x8Basic (by decide) (Nat.lt_trans hpy (by decide)) (by decide) _ _
  have hsecond : Leaves px py fun g =>
      print font8x8Basic g (literal "ACTIVE_RESOLVE_PHASE: ") 320 490 0x00FFFFFF :=
    leaves_print font8x8Basic (by decide) (Nat.lt_trans hpy (by decide)) (by decide) _ _
  have hnumber : Leaves px py fun g =>
      print font8x8Basic g (numeral ((frame % 2048).setWidth 64).toNat) 500 490 0x00FFFF00 :=
    leaves_print font8x8Basic (by decide) (Nat.lt_trans hpy (by decide))
      (newline_notMem_numeral _) _ _
  obtain ⟨hg₁, hpixel₁⟩ :=
    hborder (if focusedRegion = .console then 0x0000FF00 else 0x00222222) g hg
  obtain ⟨hg₂, hpixel₂⟩ := hfirst _ (hg₁.onScreen hg)
  have hg₂ := hg₁.trans hg₂
  obtain ⟨hg₃, hpixel₃⟩ := hsecond _ (hg₂.onScreen hg)
  have hg₃ := hg₂.trans hg₃
  obtain ⟨hg₄, hpixel₄⟩ := hnumber _ (hg₃.onScreen hg)
  exact ⟨_, printNumber_eq font8x8Basic _ (toNat_setWidth_lt _) f 500 490 0x00FFFF00,
    hg₃.trans hg₄, ((hpixel₄.trans hpixel₃).trans hpixel₂).trans hpixel₁⟩

theorem cellBlock_eq (masterFrame : BitVec 32) {i : Nat} (hi : i < 4) (r c : Nat) :
    cellBlock masterFrame i r c = (masterFrame + BitVec.ofNat 32 (512 * i + 8 * r + c)) % 1024 := by
  have hoffset : offsets.getD i 0 = BitVec.ofNat 32 (512 * i) := by
    revert i
    decide
  rw [cellBlock, hoffset, Nat.mul_comm r 8, BitVec.ofNat_add, BitVec.ofNat_add, BitVec.add_assoc,
    BitVec.add_assoc, BitVec.add_assoc]

theorem sameScreen_print (g : Graphics) (cs : List Byte) (x y color : BitVec 32) :
    SameScreen g (print font8x8Basic g cs x y color) :=
  sameScreen_printFrom font8x8Basic x color g cs x y

theorem drawMetrics_sameScreen (build : Build) (hg : OnScreen px py g)
    (manifold : SubstrateManifold) (activeCores activeNodes : BitVec 32) (focusedRegion : Region)
    (c n b : Buffer × Buffer) :
    ∃ g', drawMetrics font8x8Basic build g manifold activeCores activeNodes focusedRegion c n b =
      some g' ∧ SameScreen g g' := by
  have hblocks : (getUsedBlocks manifold).toNat < 10 ^ 10 := toNat_setWidth_lt _
  simp only [drawMetrics, printNumber_eq font8x8Basic _ (toNat_setWidth_lt _),
    printNumber_eq font8x8Basic _ hblocks, Option.bind_eq_bind, Option.bind_some]
  refine ⟨_, rfl, ?_⟩
  have hclear := sameScreen_clear g 0x00080808
  have hbar := hclear.trans (sameScreen_drawRect (hclear.onScreen hg).fits 0 0
    (g.clear 0x00080808).width 25 0x00003333)
  have hstatus := hbar.trans (sameScreen_print font8x8Basic _ (statusText build) 10 8 0x0000FFFF)
  have hborder := hstatus.trans (sameScreen_drawBorder (hstatus.onScreen hg) 10 40 280 700
    (if focusedRegion = .scheduling then 0x0000FFFF else 0x00222222) 1)
  refine hborder.trans ?_
  iterate 7 refine .trans ?_ (sameScreen_print font8x8Basic _ _ _ _ _)
  exact sameScreen_print font8x8Basic _ _ _ _ _

/-- What is drawn before the grids does not matter, and what is drawn behind them lies below. -/
theorem drawPanel_colours (build : Build) (hg : OnScreen px py g) (manifold : SubstrateManifold)
    (activeCores activeNodes : BitVec 32) (focusedRegion : Region) (frame : BitVec 32)
    (c n b f : Buffer × Buffer) {i row col : Nat} (hi : i < 4) (hrow : row < 8) (hcol : col < 8)
    (hcell : InCell 310 40 680 400 px py i row col) :
    ∃ g', drawPanel font8x8Basic build g manifold activeCores activeNodes focusedRegion frame
        c n b f = some g' ∧ SameScreen g g' ∧
      g'.pixel px py = cellColor manifold frame i row col := by
  have hroom : Roomy 310 40 680 400 := ⟨by decide, by decide, by decide, by decide⟩
  have hpy : py.toNat < 460 := by
    have hbelow := ((inCell_iff hroom hi hrow hcol).mp hcell).2.2
    have htop : (40 : BitVec 32).toNat = 40 := rfl
    have hheight : (400 : BitVec 32).toNat = 400 := rfl
    rw [htop, hheight] at hbelow
    omega
  obtain ⟨g₁, hmetrics, hg₁⟩ := drawMetrics_sameScreen font8x8Basic build hg manifold activeCores
    activeNodes focusedRegion c n b
  obtain ⟨hg₂, hcolor⟩ := colours_drawQuadResolve font8x8Basic hroom hi hrow hcol hcell frame
    manifold g₁ (hg₁.onScreen hg)
  have hg₂ := hg₁.trans hg₂
  obtain ⟨hg₃, hrings⟩ := leaves_drawEnigmaSurpass font8x8Basic hpy frame _ (hg₂.onScreen hg)
  have hg₃ := hg₂.trans hg₃
  obtain ⟨g', hconsole, hg', hpixel⟩ := drawConsole_leaves font8x8Basic hpy focusedRegion frame f
    (hg₃.onScreen hg)
  refine ⟨g', ?_, hg₃.trans hg', (hpixel.trans hrings).trans hcolor⟩
  rw [drawPanel, hmetrics]
  exact hconsole

section
variable {g₀ g' : Graphics}

theorem print_within (h : Within g₀ g) (hfits : Fits g₀) (cs : List Byte)
    (x y color : BitVec 32) : Within g₀ (print font8x8Basic g cs x y color) :=
  h.printFrom hfits font8x8Basic x color cs x y

theorem printNumber_within (h : Within g₀ g) (hfits : Fits g₀) {n : BitVec 64}
    {stack : Buffer × Buffer} {x y color : BitVec 32}
    (hsome : printNumber font8x8Basic g n stack x y color = some g') : Within g₀ g' := by
  obtain ⟨r, -, rfl⟩ := Option.map_eq_some_iff.mp hsome
  exact print_within font8x8Basic h hfits _ x y color

theorem drawQuadrant_within (h : Within g₀ g) (hfits : Fits g₀)
    (x y w ht masterFrame : BitVec 32) (m : SubstrateManifold) (i : Nat) :
    Within g₀ (drawQuadrant font8x8Basic g x y w ht masterFrame m i) := by
  have hborder := h.drawBorder hfits (quadX x w i) (quadY y ht i) (w / 2) (ht / 2) 0x00222222 1
  have hlabel := print_within font8x8Basic hborder hfits (labels.getD i []) (quadX x w i + 5)
    (quadY y ht i + 5) 0x0000AAAA
  refine List.foldlRecOn _ _ hlabel fun g₁ hg₁ r _ => ?_
  exact List.foldlRecOn _ _ hg₁ fun g₂ hg₂ c _ => hg₂.drawRect hfits _ _ 8 8 _

theorem drawQuadResolve_within (h : Within g₀ g) (hfits : Fits g₀)
    (x y w ht masterFrame : BitVec 32) (m : SubstrateManifold) :
    Within g₀ (drawQuadResolve font8x8Basic g x y w ht masterFrame m) :=
  List.foldlRecOn _ _ h fun _ hg i _ =>
    drawQuadrant_within font8x8Basic hg hfits x y w ht masterFrame m i

/-- Rotors that are off the screen store nothing. -/
theorem drawEnigmaSurpass_within (h : Within g₀ g) (hfits : Fits g₀)
    (x y w ht frame : BitVec 32) :
    Within g₀ (drawEnigmaSurpass font8x8Basic g x y w ht frame) := by
  have hborder := h.drawBorder hfits x y w ht 0x00333333 1
  have hfirst := print_within font8x8Basic hborder hfits (literal "SOVEREIGN STATE COMPLEXITY")
    (x + 10) (y + 10) 0x0000AAAA
  have hsecond := print_within font8x8Basic hfirst hfits
    (literal "8-HOP RESOLVE: 1.2e24 COMBINATIONS") (x + 10) (y + 25) 0x0000FFFF
  refine List.foldlRecOn _ _ hsecond fun g₁ hg₁ r _ => ?_
  exact List.foldlRecOn _ _ hg₁ fun g₂ hg₂ i _ => hg₂.drawRect hfits _ _ _ _ _

theorem drawMetrics_within (h : Within g₀ g) (hfits : Fits g₀) {build : Build}
    {manifold : SubstrateManifold} {activeCores activeNodes : BitVec 32} {focusedRegion : Region}
    {c n b : Buffer × Buffer}
    (hsome : drawMetrics font8x8Basic build g manifold activeCores activeNodes focusedRegion
      c n b = some g') : Within g₀ g' := by
  have hprint {g : Graphics} (hg : Within g₀ g) (cs : List Byte) (x y color : BitVec 32) :=
    print_within font8x8Basic hg hfits cs x y color
  simp only [drawMetrics, Option.bind_eq_bind, Option.bind_eq_some_iff] at hsome
  obtain ⟨g₁, hcores, g₂, hnodes, hblocks⟩ := hsome
  have hbar := (h.clear hfits 0x00080808).drawRect hfits 0 0 (g.clear 0x00080808).width 25
    0x00003333
  have hstatus := hprint hbar (statusText build) 10 8 0x0000FFFF
  have hborder := hstatus.drawBorder hfits 10 40 280 700
    (if focusedRegion = .scheduling then 0x0000FFFF else 0x00222222) 1
  have hg₁ := printNumber_within font8x8Basic (hprint (hprint hborder _ 20 60 _) _ 20 85 _) hfits
    hcores
  have hg₂ := printNumber_within font8x8Basic (hprint (hprint hg₁ _ 20 130 _) _ 20 155 _) hfits
    hnodes
  exact printNumber_within font8x8Basic (hprint hg₂ _ 20 180 _) hfits hblocks

theorem drawConsole_within (h : Within g₀ g) (hfits : Fits g₀) {focusedRegion : Region}
    {frame : BitVec 32} {f : Buffer × Buffer}
    (hsome : drawConsole font8x8Basic g focusedRegion frame f = some g') : Within g₀ g' := by
  have hborder := h.drawBorder hfits 310 460 680 280
    (if focusedRegion = .console then 0x0000FF00 else 0x00222222) 1
  have htitle := print_within font8x8Basic hborder hfits (literal "SOVEREIGN COMMAND CONSOLE")
    320 470 0x0000AAAA
  have hphase := print_within font8x8Basic htitle hfits (literal "ACTIVE_RESOLVE_PHASE: ")
    320 490 0x00FFFFFF
  exact printNumber_within font8x8Basic hphase hfits hsome

/-- Drawing the panel stores nothing outside the back buffer. -/
theorem drawPanel_within (h : Within g₀ g) (hfits : Fits g₀) {build : Build}
    {manifold : SubstrateManifold} {activeCores activeNodes : BitVec 32} {focusedRegion : Region}
    {frame : BitVec 32} {c n b f : Buffer × Buffer}
    (hsome : drawPanel font8x8Basic build g manifold activeCores activeNodes focusedRegion frame
      c n b f = some g') : Within g₀ g' := by
  simp only [drawPanel, Option.bind_eq_bind, Option.bind_eq_some_iff] at hsome
  obtain ⟨g₁, hmetrics, hconsole⟩ := hsome
  have hg₁ := drawMetrics_within font8x8Basic h hfits hmetrics
  have hgrids := drawQuadResolve_within font8x8Basic hg₁ hfits 310 40 680 400 frame manifold
  have hrings := drawEnigmaSurpass_within font8x8Basic hgrids hfits 10 460 280 280 frame
  exact drawConsole_within font8x8Basic hrings hfits hconsole

end

/-- A cache in which only block 0 is resident. -/
def singleResident : SubstrateManifold :=
  SubstrateManifold.zeroed.materializeRange 0 (fun _ => 1) 16

theorem cacheState_singleResident :
    singleResident.cacheState = Function.update (fun _ => .empty) 0 .resident := by
  have habsent : SubstrateManifold.zeroed.findBlock (SubstrateManifold.vblockOf 0) = none := by
    rw [SubstrateManifold.findBlock_eq_none_iff, SubstrateManifold.zeroed,
      SubstrateManifold.construct_slots]
    exact fun i h => by cases h
  simp only [singleResident, SubstrateManifold.materializeRange,
    SubstrateManifold.getPhysicalBlock, habsent]
  rfl

end

end EmergenceOS.Hal.NeumannControlPanel
