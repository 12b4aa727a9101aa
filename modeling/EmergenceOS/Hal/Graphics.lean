/- Module: EmergenceOS/Hal/Graphics
   digest: Whatever is drawn, stores stay in the back buffer; a rectangle is exactly its pixels. -/

import EmergenceOS.Hal.DrawLine
import EmergenceOS.Lib.BoundedLoop
import EmergenceOS.Lib.CString
import EmergenceOS.Lib.GuardedRun

/-!
Every store goes to the pixel of a row below height_ and a column below width_, or is one
of clear. The stride in words is at least the width, so no pixel lies past its row.
-/

set_option autoImplicit false
set_option relaxedAutoImplicit false

namespace EmergenceOS.Hal

open EmergenceOS.Lib.Bytes EmergenceOS.Lib.BoundedLoop EmergenceOS.Lib.CString
open EmergenceOS.Lib.GuardedRun

/-- The back buffer is counted in words of four bytes. The last field lists the words that were
stored to. The linear frame buffer, which only swap_buffers fills, is left out. -/
structure Graphics where
  backBuffer : Nat → BitVec 32
  width : BitVec 32
  height : BitVec 32
  pitch : BitVec 32
  cursorX : BitVec 32
  cursorY : BitVec 32
  stored : List Nat

namespace Graphics

def construct (memory : Nat → BitVec 32) : Graphics := ⟨memory, 0, 0, 0, 0, 0, []⟩

def store (g : Graphics) (k : Nat) (color : BitVec 32) : Graphics :=
  { g with backBuffer := Function.update g.backBuffer k color, stored := g.stored ++ [k] }

/-- Each turn stores a 64-bit word, the colour twice. -/
def clear (g : Graphics) (color : BitVec 32) : Graphics :=
  let count := (g.height * g.pitch / 8).toNat
  { (List.range count).foldl (fun g i => (g.store (2 * i) color).store (2 * i + 1) color) g with
    cursorX := 0, cursorY := 0 }

/-- The allocation succeeds and yields memory with some contents. -/
def initializeWith (g : Graphics) (allocated : Nat → BitVec 32) (w h p : BitVec 32) : Graphics :=
  { g with backBuffer := allocated, width := w, height := h, pitch := p, stored := [] }.clear
    0x00080808

/-- The word of column x in row y. -/
def index (g : Graphics) (x y : BitVec 32) : Nat := (y * (g.pitch / 4) + x).toNat

def drawRect (g : Graphics) (x y w h color : BitVec 32) : Graphics :=
  if x ≥ g.width ∨ y ≥ g.height then g
  else forBelow (y + h) g.height (fun g i =>
    forBelow (x + w) g.width (fun g j => g.store (g.index j i) color) g x) g y

def drawBorder (g : Graphics) (x y w h color thickness : BitVec 32) : Graphics :=
  let g := g.drawRect x y w thickness color
  let g := g.drawRect x (y + h - thickness) w thickness color
  let g := g.drawRect x y thickness h color
  g.drawRect (x + w - thickness) y thickness h color

def putPixel (g : Graphics) (x y color : BitVec 32) : Graphics :=
  if x ≥ g.width ∨ y ≥ g.height then g else g.store (g.index x y) color

/-- The loops over a glyph that print_at and put_char share. -/
def drawGlyph (g : Graphics) (glyph : Nat → Byte) (x y color : BitVec 32) : Graphics :=
  (List.range 8).foldl (fun g gy =>
    (List.range 8).foldl (fun g gx =>
      if glyph gy &&& ((0x80 : Byte) >>> gx) ≠ 0 then
        g.putPixel (x + BitVec.ofNat 32 gx) (y + BitVec.ofNat 32 gy) color
      else g) g) g

/-- The glyph of a character in font8x8_basic, if the table has one. -/
def glyphIndex (c : Byte) : Option (Fin 95) :=
  if h : 0 ≤ c.toInt - 32 ∧ c.toInt - 32 < 95 then some ⟨(c.toInt - 32).toNat, by omega⟩ else none

theorem glyphIndex_isSome (c : Byte) :
    (glyphIndex c).isSome ↔ 32 ≤ c.toInt ∧ c.toInt ≤ 126 := by
  unfold glyphIndex
  split
  · exact iff_of_true rfl (by omega)
  · exact iff_of_false Bool.false_ne_true (by omega)

section
variable (font8x8Basic : Int → Nat → Byte)

/-- The rest of the loop of print_at. The font is what memory has there, also outside of the
table. -/
def printFrom (x color : BitVec 32) (g : Graphics) : List Byte → BitVec 32 → BitVec 32 → Graphics
  | [], _, _ => g
  | c :: cs, cx, y =>
    if c = 10 then printFrom x color g cs x (y + 12)
    else printFrom x color (g.drawGlyph (font8x8Basic (c.toInt - 32)) cx y color) cs (cx + 8) y

def printAt (g : Graphics) (str : Str) (x y color : BitVec 32) : Graphics :=
  printFrom font8x8Basic x color g str.chars x y

def putChar (g : Graphics) (c : Byte) (color : BitVec 32) : Graphics :=
  if c = 10 then { g with cursorX := 0, cursorY := g.cursorY + 12 }
  else if c = 8 then
    let g := if g.cursorX ≥ 8 then { g with cursorX := g.cursorX - 8 } else g
    g.drawRect g.cursorX g.cursorY 8 8 0x00080808
  else
    let g := g.drawGlyph (font8x8Basic (c.toInt - 32)) g.cursorX g.cursorY color
    let g := { g with cursorX := g.cursorX + 8 }
    if g.cursorX ≥ g.width then { g with cursorX := 0, cursorY := g.cursorY + 12 } else g

end

def drawLine (fuel : Nat) (g : Graphics) (x0 y0 x1 y1 : Int) (color : BitVec 32) :
    Option Graphics :=
  (linePoints fuel x0 y0 x1 y1).map fun points =>
    points.foldl (fun g p => g.putPixel (BitVec.ofInt 32 p.1) (BitVec.ofInt 32 p.2) color) g

inductive Op
  | clear (color : BitVec 32)
  | drawRect (x y w h color : BitVec 32)
  | drawBorder (x y w h color thickness : BitVec 32)
  | putPixel (x y color : BitVec 32)
  | printAt (str : Str) (x y color : BitVec 32)
  | putChar (c : Byte) (color : BitVec 32)
  | drawLine (x0 y0 x1 y1 : Int) (color : BitVec 32)

def apply (font8x8Basic : Int → Nat → Byte) (fuel : Nat) (g : Graphics) : Op → Option Graphics
  | .clear color => some (g.clear color)
  | .drawRect x y w h color => some (g.drawRect x y w h color)
  | .drawBorder x y w h color thickness => some (g.drawBorder x y w h color thickness)
  | .putPixel x y color => some (g.putPixel x y color)
  | .printAt str x y color => some (g.printAt font8x8Basic str x y color)
  | .putChar c color => some (g.putChar font8x8Basic c color)
  | .drawLine x0 y0 x1 y1 color => g.drawLine fuel x0 y0 x1 y1 color

def run (font8x8Basic : Int → Nat → Byte) (fuel : Nat) (g : Graphics) (ops : List Op) :
    Option Graphics :=
  ops.foldlM (apply font8x8Basic fuel) g

/-- Lines have coordinates in range. -/
def Op.InRange : Op → Prop
  | .drawLine x0 y0 x1 y1 _ => Graphics.InRange x0 ∧ Graphics.InRange y0 ∧
      Graphics.InRange x1 ∧ Graphics.InRange y1
  | _ => True

/-- Never initialized, or initialized for rows of at least the width. -/
inductive Ready : Graphics → Prop
  | constructed (memory : Nat → BitVec 32) : Ready (construct memory)
  | initialized (g : Graphics) (allocated : Nat → BitVec 32) {w h p : BitVec 32}
      (hrow : 4 * w.toNat ≤ p.toNat) (hsize : h.toNat * p.toNat < 2 ^ 32) :
      Ready (g.initializeWith allocated w h p)

def pixel (g : Graphics) (x y : BitVec 32) : BitVec 32 := g.backBuffer (g.index x y)

def InRect (x y w h px py : BitVec 32) : Prop :=
  (x ≤ px ∧ px.toNat < x.toNat + w.toNat) ∧ y ≤ py ∧ py.toNat < y.toNat + h.toNat

instance (x y w h px py : BitVec 32) : Decidable (InRect x y w h px py) :=
  inferInstanceAs (Decidable ((_ ∧ _) ∧ _ ∧ _))

/-- From g to g' the pixels of the rectangle on the screen got the colour, and nothing else in
the buffer changed. -/
structure RectDrawn (g g' : Graphics) (x y w h color : BitVec 32) : Prop where
  pixels : ∀ px py, px < g.width → py < g.height →
    g'.pixel px py = if InRect x y w h px py then color else g.pixel px py
  rest : ∀ k, (∀ px py, px < g.width → py < g.height → InRect x y w h px py →
    g.index px py ≠ k) → g'.backBuffer k = g.backBuffer k

/-- Rows are as long as the width at least, and the size is computed without overflow. -/
structure Fits (g : Graphics) : Prop where
  row : 4 * g.width.toNat ≤ g.pitch.toNat
  size : g.height.toNat * g.pitch.toNat < 2 ^ 32

/-- The screen of g is that of g₀, and all stores went inside its back buffer. -/
structure Within (g₀ g : Graphics) : Prop where
  width : g.width = g₀.width
  height : g.height = g₀.height
  pitch : g.pitch = g₀.pitch
  inside : ∀ k ∈ g.stored, 4 * (k + 1) ≤ g₀.height.toNat * g₀.pitch.toNat

theorem row_end_le {i j w h p : Nat} (hi : i < h) (hj : j < w) (hrow : 4 * w ≤ p) :
    4 * (i * (p / 4) + j + 1) ≤ h * p := by
  have hquarter : w ≤ p / 4 := by omega
  have hsucc : (i + 1) * (p / 4) = i * (p / 4) + p / 4 := Nat.succ_mul i _
  calc 4 * (i * (p / 4) + j + 1) ≤ 4 * ((i + 1) * (p / 4)) := by omega
    _ ≤ 4 * (h * (p / 4)) := Nat.mul_le_mul_left 4 (Nat.mul_le_mul_right _ hi)
    _ = h * (p / 4 * 4) := by rw [Nat.mul_comm 4, Nat.mul_assoc]
    _ ≤ h * p := Nat.mul_le_mul_left h (Nat.div_mul_le_self p 4)

section
variable {g₀ g : Graphics}

theorem Fits.index_toNat (h : Fits g) {x y : BitVec 32} (hx : x < g.width) (hy : y < g.height) :
    g.index x y = y.toNat * (g.pitch.toNat / 4) + x.toNat := by
  have hend := row_end_le (BitVec.lt_def.mp hy) (BitVec.lt_def.mp hx) h.row
  have hsize := h.size
  have hmul : y.toNat * (g.pitch.toNat / 4) < 2 ^ 32 := by omega
  rw [index, BitVec.toNat_add, BitVec.toNat_mul, BitVec.toNat_udiv]
  simp only [BitVec.reduceToNat]
  rw [Nat.mod_eq_of_lt hmul, Nat.mod_eq_of_lt (by omega)]

theorem Fits.index_end_le (h : Fits g) {x y : BitVec 32} (hx : x < g.width)
    (hy : y < g.height) : 4 * (g.index x y + 1) ≤ g.height.toNat * g.pitch.toNat := by
  rw [h.index_toNat hx hy]
  exact row_end_le (BitVec.lt_def.mp hy) (BitVec.lt_def.mp hx) h.row

theorem Within.fits (h : Within g₀ g) (hfits : Fits g₀) : Fits g := by
  refine ⟨?_, ?_⟩
  · rw [h.width, h.pitch]
    exact hfits.row
  · rw [h.height, h.pitch]
    exact hfits.size

theorem Within.store (h : Within g₀ g) {k : Nat} (color : BitVec 32)
    (hk : 4 * (k + 1) ≤ g₀.height.toNat * g₀.pitch.toNat) : Within g₀ (g.store k color) := by
  refine ⟨h.width, h.height, h.pitch, fun k' hk' => ?_⟩
  rcases List.mem_append.mp hk' with hold | hnew
  · exact h.inside k' hold
  · rw [List.mem_singleton.mp hnew]
    exact hk

theorem Within.store_index (h : Within g₀ g) (hfits : Fits g₀) (color : BitVec 32)
    {x y : BitVec 32} (hx : x < g.width) (hy : y < g.height) :
    Within g₀ (g.store (g.index x y) color) := by
  refine h.store color ?_
  rw [← h.height, ← h.pitch]
  exact (h.fits hfits).index_end_le hx hy

/-- What does not touch the screen or the record of stores. -/
theorem Within.withCursor (h : Within g₀ g) (x y : BitVec 32) :
    Within g₀ { g with cursorX := x, cursorY := y } :=
  ⟨h.width, h.height, h.pitch, h.inside⟩

theorem Within.clear (h : Within g₀ g) (hfits : Fits g₀) (color : BitVec 32) :
    Within g₀ (g.clear color) := by
  have hcount : 8 * (g.height * g.pitch / 8).toNat ≤ g₀.height.toNat * g₀.pitch.toNat := by
    rw [BitVec.toNat_udiv, BitVec.toNat_mul, h.height, h.pitch, Nat.mod_eq_of_lt hfits.size]
    simp only [BitVec.reduceToNat]
    omega
  refine Within.withCursor (List.foldlRecOn _ _ h fun g hg i hi => ?_) 0 0
  have hlt := List.mem_range.mp hi
  exact (hg.store color (by omega)).store color (by omega)

theorem Within.putPixel (h : Within g₀ g) (hfits : Fits g₀) (x y color : BitVec 32) :
    Within g₀ (g.putPixel x y color) := by
  unfold Graphics.putPixel
  split
  · exact h
  · rename_i hin
    rw [ge_iff_le, ge_iff_le, not_or, BitVec.not_le, BitVec.not_le] at hin
    exact h.store_index hfits color hin.1 hin.2

theorem Within.drawRect (h : Within g₀ g) (hfits : Fits g₀) (x y w ht color : BitVec 32) :
    Within g₀ (g.drawRect x y w ht color) := by
  unfold Graphics.drawRect
  split
  · exact h
  · refine forBelow_invariant (Within g₀) y h fun g' i _ hi hg' => ?_
    rw [h.height, ← hg'.height] at hi
    refine (forBelow_invariant (fun g => Within g₀ g) x hg' fun g'' j _ hj hg'' => ?_)
    rw [hg'.width, ← hg''.width] at hj
    rw [hg'.height, ← hg''.height] at hi
    exact hg''.store_index hfits color hj hi

theorem Within.drawBorder (h : Within g₀ g) (hfits : Fits g₀)
    (x y w ht color thickness : BitVec 32) :
    Within g₀ (g.drawBorder x y w ht color thickness) := by
  have htop := h.drawRect hfits x y w thickness color
  have hbottom := htop.drawRect hfits x (y + ht - thickness) w thickness color
  have hleft := hbottom.drawRect hfits x y thickness ht color
  exact hleft.drawRect hfits (x + w - thickness) y thickness ht color

theorem Within.drawGlyph (h : Within g₀ g) (hfits : Fits g₀) (glyph : Nat → Byte)
    (x y color : BitVec 32) : Within g₀ (g.drawGlyph glyph x y color) := by
  refine List.foldlRecOn _ _ h fun g hg gy _ => ?_
  refine List.foldlRecOn _ _ hg fun g hg gx _ => ?_
  split
  · exact hg.putPixel hfits _ _ _
  · exact hg

theorem Within.printFrom (h : Within g₀ g) (hfits : Fits g₀) (font8x8Basic : Int → Nat → Byte)
    (x color : BitVec 32) (cs : List Byte) (cx y : BitVec 32) :
    Within g₀ (printFrom font8x8Basic x color g cs cx y) := by
  induction cs generalizing g cx y with
  | nil => exact h
  | cons c cs ih =>
    rw [Graphics.printFrom]
    split
    · exact ih h x (y + 12)
    · exact ih (h.drawGlyph hfits _ cx y color) (cx + 8) y

theorem Within.putChar (h : Within g₀ g) (hfits : Fits g₀) (font8x8Basic : Int → Nat → Byte)
    (c : Byte) (color : BitVec 32) : Within g₀ (g.putChar font8x8Basic c color) := by
  unfold Graphics.putChar
  split
  · exact h.withCursor _ _
  · split
    · have hback : Within g₀
          (if g.cursorX ≥ 8 then { g with cursorX := g.cursorX - 8 } else g) := by
        split
        · exact h.withCursor _ _
        · exact h
      exact hback.drawRect hfits _ _ 8 8 0x00080808
    · have hglyph := h.drawGlyph hfits (font8x8Basic (c.toInt - 32)) g.cursorX g.cursorY color
      simp only
      split
      · exact hglyph.withCursor _ _
      · exact hglyph.withCursor _ _

/-- One operation returns, and stores inside the back buffer only. -/
theorem Within.apply (h : Within g₀ g) (hfits : Fits g₀) (font8x8Basic : Int → Nat → Byte)
    {fuel : Nat} (hfuel : 2 ^ 29 < fuel) {op : Op} (hop : op.InRange) :
    ∃ g', g.apply font8x8Basic fuel op = some g' ∧ Within g₀ g' := by
  cases op with
  | clear color => exact ⟨_, rfl, h.clear hfits color⟩
  | drawRect x y w ht color => exact ⟨_, rfl, h.drawRect hfits x y w ht color⟩
  | drawBorder x y w ht color thickness =>
    exact ⟨_, rfl, h.drawBorder hfits x y w ht color thickness⟩
  | putPixel x y color => exact ⟨_, rfl, h.putPixel hfits x y color⟩
  | printAt str x y color => exact ⟨_, rfl, h.printFrom hfits font8x8Basic x color str.chars x y⟩
  | putChar c color => exact ⟨_, rfl, h.putChar hfits font8x8Basic c color⟩
  | drawLine x0 y0 x1 y1 color =>
    obtain ⟨hx0, hy0, hx1, hy1⟩ := hop
    have hlong : max (x1 - x0).natAbs (y1 - y0).natAbs + 1 ≤ fuel := by
      simp only [Graphics.InRange] at hx0 hy0 hx1 hy1
      omega
    refine ⟨_, by rw [Graphics.apply, drawLine, linePoints_eq hx0 hy0 hx1 hy1 hlong]; rfl, ?_⟩
    exact List.foldlRecOn _ _ h fun g hg p _ => hg.putPixel hfits _ _ color

end

theorem Within.self {g₀ g : Graphics} (h : Within g₀ g) : Within g g := by
  refine ⟨rfl, rfl, rfl, fun k hk => ?_⟩
  rw [h.height, h.pitch]
  exact h.inside k hk

theorem Ready.within {g : Graphics} (h : Ready g) : Fits g ∧ Within g g := by
  cases h with
  | constructed memory =>
    refine ⟨⟨Nat.le_refl _, by simp [construct]⟩, rfl, rfl, rfl, fun k hk => ?_⟩
    exact absurd hk List.not_mem_nil
  | initialized g allocated hrow hsize =>
    have hfits : Fits { g with
      backBuffer := allocated, width := _, height := _, pitch := _, stored := [] } := ⟨hrow, hsize⟩
    have hclear := Within.clear ⟨rfl, rfl, rfl, fun k hk => absurd hk List.not_mem_nil⟩ hfits
      0x00080808
    exact ⟨hclear.fits hfits, hclear.self⟩

/-- The words of S got the colour, the others are unchanged, and so is the screen. -/
structure Painted (color : BitVec 32) (S : Set Nat) (g g' : Graphics) : Prop where
  width : g'.width = g.width
  height : g'.height = g.height
  pitch : g'.pitch = g.pitch
  inside : ∀ k ∈ S, g'.backBuffer k = color
  outside : ∀ k, k ∉ S → g'.backBuffer k = g.backBuffer k

section
variable {color : BitVec 32} {S T : Set Nat} {g g' g'' : Graphics}

theorem painted_empty (color : BitVec 32) (g : Graphics) : Painted color ∅ g g :=
  ⟨rfl, rfl, rfl, fun _ hk => absurd hk (Set.notMem_empty _), fun _ _ => rfl⟩

theorem painted_store (color : BitVec 32) (g : Graphics) (k : Nat) :
    Painted color {k} g (g.store k color) := by
  refine ⟨rfl, rfl, rfl, fun k' hk' => ?_, fun k' hk' => Function.update_of_ne hk' _ _⟩
  rw [Set.mem_singleton_iff.mp hk']
  exact Function.update_self k _ _

theorem Painted.trans (h : Painted color S g g') (h' : Painted color T g' g'') :
    Painted color (S ∪ T) g g'' := by
  refine ⟨h'.width.trans h.width, h'.height.trans h.height, h'.pitch.trans h.pitch,
    fun k hk => ?_, fun k hk => ?_⟩
  · by_cases hT : k ∈ T
    · exact h'.inside k hT
    · rw [h'.outside k hT]
      exact h.inside k (hk.resolve_right hT)
  · rw [h'.outside k fun hT => hk (Or.inr hT), h.outside k fun hS => hk (Or.inl hS)]

theorem Painted.congr (h : Painted color S g g') (hST : ∀ k, k ∈ S ↔ k ∈ T) :
    Painted color T g g' := by
  rwa [← Set.ext hST]

theorem Painted.fits (h : Painted color S g g') (hfits : Fits g) : Fits g' := by
  refine ⟨?_, ?_⟩
  · rw [h.width, h.pitch]
    exact hfits.row
  · rw [h.height, h.pitch]
    exact hfits.size

end

/-- The words of columns x to x' of row i. -/
def rowWords (g : Graphics) (x x' i : Nat) : Set Nat :=
  {k | ∃ j, x ≤ j ∧ j < x' ∧ k = i * (g.pitch.toNat / 4) + j}

/-- The words of columns x to x' of rows y to y'. -/
def rectWords (g : Graphics) (x x' y y' : Nat) : Set Nat :=
  {k | ∃ i, y ≤ i ∧ i < y' ∧ k ∈ g.rowWords x x' i}

theorem mem_rowWords_succ (g : Graphics) {x n : Nat} (hx : x ≤ n) (i k : Nat) :
    k ∈ g.rowWords x n i ∪ {i * (g.pitch.toNat / 4) + n} ↔ k ∈ g.rowWords x (n + 1) i := by
  constructor
  · rintro (⟨j, hj, hn, rfl⟩ | rfl)
    · exact ⟨j, hj, by omega, rfl⟩
    · exact ⟨n, hx, Nat.lt_succ_self n, rfl⟩
  · rintro ⟨j, hj, hn, rfl⟩
    rcases Nat.lt_succ_iff_lt_or_eq.mp hn with hold | rfl
    · exact Or.inl ⟨j, hj, hold, rfl⟩
    · exact Or.inr rfl

theorem mem_rectWords_succ (g : Graphics) {x x' y n : Nat} (hy : y ≤ n) (k : Nat) :
    k ∈ g.rectWords x x' y n ∪ g.rowWords x x' n ↔ k ∈ g.rectWords x x' y (n + 1) := by
  constructor
  · rintro (⟨i, hi, hn, hrow⟩ | hrow)
    · exact ⟨i, hi, by omega, hrow⟩
    · exact ⟨n, hy, Nat.lt_succ_self n, hrow⟩
  · rintro ⟨i, hi, hn, hrow⟩
    rcases Nat.lt_succ_iff_lt_or_eq.mp hn with hold | rfl
    · exact Or.inl ⟨i, hi, hold, hrow⟩
    · exact Or.inr hrow

/-- The inner loop of draw_rect. -/
theorem Fits.paint_row {g : Graphics} (hfits : Fits g) (x stop color : BitVec 32)
    {i : BitVec 32} (hi : i < g.height) :
    Painted color (g.rowWords x.toNat (max x.toNat (min stop.toNat g.width.toNat)) i.toNat) g
      (forBelow stop g.width (fun g j => g.store (g.index j i) color) g x) := by
  refine forBelow_rule
    (fun n g' => Painted color (g.rowWords x.toNat n i.toNat) g g') ?_ ?_
  · refine (painted_empty color g).congr fun k => iff_of_false (Set.notMem_empty k) ?_
    rintro ⟨j, hj, hlt, -⟩
    omega
  · intro g' j hx _ hj hpaint
    have hindex : g'.index j i = i.toNat * (g.pitch.toNat / 4) + j.toNat := by
      rw [← hfits.index_toNat hj hi, index, index, hpaint.pitch]
    rw [hindex]
    exact (hpaint.trans (painted_store color g' _)).congr
      (mem_rowWords_succ g (BitVec.le_def.mp hx) i.toNat)

/-- The loops of draw_rect. -/
theorem Fits.paint_rect {g : Graphics} (hfits : Fits g) (x y stop stop' color : BitVec 32) :
    Painted color (g.rectWords x.toNat (max x.toNat (min stop.toNat g.width.toNat)) y.toNat
        (max y.toNat (min stop'.toNat g.height.toNat))) g
      (forBelow stop' g.height (fun g i =>
        forBelow stop g.width (fun g j => g.store (g.index j i) color) g x) g y) := by
  refine forBelow_rule (fun n g' => Painted color (g.rectWords x.toNat
    (max x.toNat (min stop.toNat g.width.toNat)) y.toNat n) g g') ?_ ?_
  · refine (painted_empty color g).congr fun k => iff_of_false (Set.notMem_empty k) ?_
    rintro ⟨i, hi, hlt, -⟩
    omega
  · intro g' i hy _ hi hpaint
    have hrow := (hpaint.fits hfits).paint_row x stop color (hpaint.height ▸ hi)
    have hwords : g'.rowWords x.toNat (max x.toNat (min stop.toNat g'.width.toNat)) i.toNat =
        g.rowWords x.toNat (max x.toNat (min stop.toNat g.width.toNat)) i.toNat := by
      rw [rowWords, rowWords, hpaint.width, hpaint.pitch]
    rw [hwords] at hrow
    exact (hpaint.trans hrow).congr (mem_rectWords_succ g (BitVec.le_def.mp hy))

theorem mem_rectWords_iff {g : Graphics} (hfits : Fits g) {x y w h : BitVec 32}
    (hx : x < g.width) (hy : y < g.height) (hw : x.toNat + w.toNat < 2 ^ 32)
    (hh : y.toNat + h.toNat < 2 ^ 32) (k : Nat) :
    k ∈ g.rectWords x.toNat (max x.toNat (min (x + w).toNat g.width.toNat)) y.toNat
        (max y.toNat (min (y + h).toNat g.height.toNat)) ↔
      ∃ px py, (px < g.width ∧ py < g.height) ∧ InRect x y w h px py ∧ g.index px py = k := by
  rw [BitVec.lt_def] at hx hy
  rw [BitVec.toNat_add, BitVec.toNat_add, Nat.mod_eq_of_lt hw, Nat.mod_eq_of_lt hh]
  have hwidth := g.width.isLt
  have hheight := g.height.isLt
  constructor
  · rintro ⟨i, hi, hi', j, hj, hj', rfl⟩
    have hpx : (BitVec.ofNat 32 j).toNat = j := by
      rw [BitVec.toNat_ofNat, Nat.mod_eq_of_lt (by omega)]
    have hpy : (BitVec.ofNat 32 i).toNat = i := by
      rw [BitVec.toNat_ofNat, Nat.mod_eq_of_lt (by omega)]
    have hin : BitVec.ofNat 32 j < g.width ∧ BitVec.ofNat 32 i < g.height := by
      rw [BitVec.lt_def, BitVec.lt_def, hpx, hpy]
      omega
    refine ⟨BitVec.ofNat 32 j, BitVec.ofNat 32 i, hin, ?_, ?_⟩
    · simp only [InRect, BitVec.le_def, hpx, hpy]
      omega
    · rw [hfits.index_toNat hin.1 hin.2, hpx, hpy]
  · rintro ⟨px, py, ⟨hpx, hpy⟩, hrect, rfl⟩
    have hindex := hfits.index_toNat hpx hpy
    simp only [InRect, BitVec.le_def] at hrect
    rw [BitVec.lt_def] at hpx hpy
    exact ⟨py.toNat, by omega, by omega, px.toNat, by omega, by omega, hindex⟩

/-- On the screen every pixel has a word of its own. -/
theorem Fits.index_inj {g : Graphics} (hfits : Fits g) {x y x' y' : BitVec 32}
    (hx : x < g.width) (hy : y < g.height) (hx' : x' < g.width) (hy' : y' < g.height)
    (h : g.index x y = g.index x' y') : x = x' ∧ y = y' := by
  rw [hfits.index_toNat hx hy, hfits.index_toNat hx' hy'] at h
  have hrow := hfits.row
  rw [BitVec.lt_def] at hx hx'
  have hmod := congrArg (· % (g.pitch.toNat / 4)) h
  simp only [Nat.mul_add_mod_of_lt (show x.toNat < g.pitch.toNat / 4 by omega),
    Nat.mul_add_mod_of_lt (show x'.toNat < g.pitch.toNat / 4 by omega)] at hmod
  have hmul : y.toNat * (g.pitch.toNat / 4) = y'.toNat * (g.pitch.toNat / 4) := by omega
  have hcol := Nat.eq_of_mul_eq_mul_right (by omega) hmul
  exact ⟨BitVec.eq_of_toNat_eq hmod, BitVec.eq_of_toNat_eq hcol⟩

/-- A rectangle that ends below 2^32 is drawn exactly. -/
theorem Fits.rectDrawn {g : Graphics} (hfits : Fits g) {x y w h : BitVec 32}
    (hw : x.toNat + w.toNat < 2 ^ 32) (hh : y.toNat + h.toNat < 2 ^ 32) (color : BitVec 32) :
    RectDrawn g (g.drawRect x y w h color) x y w h color := by
  unfold drawRect
  split
  · rename_i hout
    refine ⟨fun px py hpx hpy => ?_, fun _ _ => rfl⟩
    rw [if_neg]
    intro hin
    simp only [InRect, BitVec.lt_def, BitVec.le_def, ge_iff_le] at *
    omega
  · rename_i hin
    rw [ge_iff_le, ge_iff_le, not_or, BitVec.not_le, BitVec.not_le] at hin
    have hpaint := hfits.paint_rect x y (x + w) (y + h) color
    have hwords := mem_rectWords_iff hfits hin.1 hin.2 hw hh
    refine ⟨fun px py hpx hpy => ?_, fun k hk => hpaint.outside k fun hmem => ?_⟩
    · rw [pixel, index, hpaint.pitch]
      split
      · rename_i hrect
        exact hpaint.inside _ ((hwords _).mpr ⟨px, py, ⟨hpx, hpy⟩, hrect, rfl⟩)
      · rename_i hrect
        refine hpaint.outside _ fun hmem => ?_
        obtain ⟨px', py', ⟨hpx', hpy'⟩, hrect', hindex⟩ := (hwords _).mp hmem
        obtain ⟨rfl, rfl⟩ := hfits.index_inj hpx' hpy' hpx hpy hindex
        exact hrect hrect'
    · obtain ⟨px, py, ⟨hpx, hpy⟩, hrect, hindex⟩ := (hwords k).mp hmem
      exact hk px py hpx hpy hrect hindex

/-- Any drawing on a screen that was set up, or never was, returns and stores only inside the
back buffer; after it a rectangle is still drawn exactly. -/
theorem run_within (font8x8Basic : Int → Nat → Byte) {g : Graphics} (hg : Ready g)
    (ops : List Op) (hops : ∀ op ∈ ops, op.InRange) {fuel : Nat} (hfuel : 2 ^ 29 < fuel) :
    ∃ g', g.run font8x8Basic fuel ops = some g' ∧
      (∀ k ∈ g'.stored, 4 * (k + 1) ≤ g.height.toNat * g.pitch.toNat) ∧
      ∀ x y w h color : BitVec 32, x.toNat + w.toNat < 2 ^ 32 → y.toNat + h.toNat < 2 ^ 32 →
        RectDrawn g' (g'.drawRect x y w h color) x y w h color := by
  obtain ⟨hfits, hwithin⟩ := hg.within
  obtain ⟨g', hrun, hg'⟩ := foldlM_some
    (fun _ op hop h => h.apply hfits font8x8Basic hfuel (hops op hop)) hwithin
  exact ⟨g', hrun, hg'.inside,
    fun x y w h color hw hh => (hg'.fits hfits).rectDrawn hw hh color⟩

/-- A line that leaves a screen of 4 by 2 pixels. -/
theorem run_within_small : ∃ g', ((construct fun _ => 0).initializeWith (fun _ => 0) 4 2 16).run
    (fun _ _ => 0xFF) (2 ^ 29 + 1) [.drawLine 0 0 9 1 0xFF] = some g' ∧
      ∀ k ∈ g'.stored, 4 * (k + 1) ≤ 32 := by
  obtain ⟨g', hrun, hinside, -⟩ := run_within (fun _ _ => 0xFF)
    (Ready.initialized (construct fun _ => 0) (fun _ => 0) (by decide) (by decide) : Ready
      ((construct fun _ => 0).initializeWith (fun _ => 0) 4 2 16))
    [.drawLine 0 0 9 1 0xFF] (fun op hop => by
      rw [List.mem_singleton.mp hop]
      exact ⟨by decide, by decide, by decide, by decide⟩) (Nat.lt_succ_self _)
  exact ⟨g', hrun, hinside⟩

end Graphics

end EmergenceOS.Hal
