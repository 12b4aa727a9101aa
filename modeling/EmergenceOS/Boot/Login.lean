/- Module: EmergenceOS/Boot/Login
   digest: The screen on which kmain asks for the access key, and what it shows of the key. -/

import EmergenceOS.Boot.Redraw
import EmergenceOS.Hal.PasswordField

/-!
Asterisks are the only dots of their colour on this screen. A screen of 904 columns or less
wraps the longest key.
-/

set_option autoImplicit false
set_option relaxedAutoImplicit false

namespace EmergenceOS.Hal.Graphics

open EmergenceOS.Lib.Bytes

/-- A step that does not bring the colour to the pixel. -/
def Avoids (px py color : BitVec 32) (f : Graphics → Graphics) : Prop :=
  ∀ g, OnScreen px py g →
    SameScreen g (f g) ∧ (g.pixel px py ≠ color → (f g).pixel px py ≠ color)

section
variable {px py color : BitVec 32} {g : Graphics}

theorem avoids_id : Avoids px py color fun g => g := fun g _ => ⟨SameScreen.refl g, id⟩

theorem Avoids.comp {f f' : Graphics → Graphics} (h : Avoids px py color f)
    (h' : Avoids px py color f') : Avoids px py color fun g => f' (f g) := by
  intro g hg
  obtain ⟨hsame, hpixel⟩ := h g hg
  obtain ⟨hsame', hpixel'⟩ := h' (f g) (hsame.onScreen hg)
  exact ⟨hsame.trans hsame', fun hne => hpixel' (hpixel hne)⟩

theorem avoids_foldl {α : Type} {f : Graphics → α → Graphics} (as : List α)
    (h : ∀ a, Avoids px py color fun g => f g a) : Avoids px py color fun g => as.foldl f g := by
  induction as with
  | nil => exact avoids_id
  | cons a as ih => exact (h a).comp ih

theorem avoids_putPixel (x y : BitVec 32) {color' : BitVec 32} (hne : color' ≠ color) :
    Avoids px py color fun g => g.putPixel x y color' := by
  intro g _
  refine ⟨sameScreen_putPixel g x y color', fun hold => ?_⟩
  simp only [putPixel]
  split
  · exact hold
  · change Function.update g.backBuffer (g.index x y) color' (g.index px py) ≠ color
    rw [Function.update_apply]
    split
    · exact hne
    · exact hold

theorem avoids_drawGlyph (glyph : Nat → Byte) (x y : BitVec 32) {color' : BitVec 32}
    (hne : color' ≠ color) : Avoids px py color fun g => g.drawGlyph glyph x y color' := by
  refine avoids_foldl _ fun gy => avoids_foldl _ fun gx => ?_
  by_cases hbit : glyph gy &&& ((0x80 : Byte) >>> gx) ≠ 0
  · simp only [if_pos hbit]
    exact avoids_putPixel _ _ hne
  · simp only [if_neg hbit]
    exact avoids_id

theorem avoids_printFrom (font8x8Basic : Int → Nat → Byte) (x : BitVec 32) {color' : BitVec 32}
    (hne : color' ≠ color) (cs : List Byte) (cx y : BitVec 32) :
    Avoids px py color fun g => printFrom font8x8Basic x color' g cs cx y := by
  induction cs generalizing cx y with
  | nil => exact avoids_id
  | cons c cs ih =>
    by_cases hc : c = 10
    · simp only [printFrom, if_pos hc]
      exact ih x (y + 12)
    · simp only [printFrom, if_neg hc]
      exact (avoids_drawGlyph _ cx y hne).comp (ih (cx + 8) y)

theorem avoids_drawRect {x y w h color' : BitVec 32} (hw : x.toNat + w.toNat < 2 ^ 32)
    (hh : y.toNat + h.toNat < 2 ^ 32) (hne : color' ≠ color) :
    Avoids px py color fun g => g.drawRect x y w h color' := by
  intro g hg
  refine ⟨sameScreen_drawRect hg.fits x y w h color', fun hold => ?_⟩
  rw [pixel_drawRect hw hh hg]
  split
  · exact hne
  · exact hold

theorem cleared_words (g : Graphics) (color : BitVec 32) {n k : Nat} (hk : k < 2 * n) :
    ((List.range n).foldl (fun g i => (g.store (2 * i) color).store (2 * i + 1) color)
      g).backBuffer k = color := by
  induction n with
  | zero => exact absurd hk (Nat.not_lt_zero k)
  | succ n ih =>
    rw [List.range_succ, List.foldl_append, List.foldl_cons, List.foldl_nil]
    simp only [store]
    by_cases hodd : k = 2 * n + 1
    · rw [hodd, Function.update_self]
    rw [Function.update_of_ne hodd]
    by_cases heven : k = 2 * n
    · rw [heven, Function.update_self]
    · rw [Function.update_of_ne heven]
      exact ih (by omega)

/-- As with swap_buffers, the last word of the buffer may be left out. -/
theorem pixel_clear (hg : OnScreen px py g) (hnext : px.toNat + 1 < g.width.toNat)
    (color : BitVec 32) : (g.clear color).pixel px py = color := by
  have height : (8 : BitVec 32).toNat = 8 := rfl
  have hend := row_end_le (BitVec.lt_def.mp hg.y) hnext hg.fits.row
  have hindex := hg.fits.index_toNat hg.x hg.y
  have hplace : (g.clear color).index px py = g.index px py := by
    rw [index, index, (sameScreen_clear g color).pitch]
  rw [pixel, hplace]
  refine cleared_words g color ?_
  rw [BitVec.toNat_udiv, BitVec.toNat_mul, Nat.mod_eq_of_lt hg.fits.size, height]
  omega

theorem sameScreen_putChar (font8x8Basic : Int → Nat → Byte) (hfits : Fits g) (c : Byte)
    (color : BitVec 32) : SameScreen g (g.putChar font8x8Basic c color) := by
  unfold putChar
  split
  · exact ⟨rfl, rfl, rfl⟩
  split
  · have hback : SameScreen g
        (if g.cursorX ≥ 8 then { g with cursorX := g.cursorX - 8 } else g) := by
      split
      · exact ⟨rfl, rfl, rfl⟩
      · exact SameScreen.refl g
    exact hback.trans (sameScreen_drawRect (hback.fits hfits) _ _ _ _ _)
  · have hglyph := sameScreen_drawGlyph g (font8x8Basic (c.toInt - 32)) g.cursorX g.cursorY color
    simp only
    split
    · exact hglyph.trans ⟨rfl, rfl, rfl⟩
    · exact hglyph.trans ⟨rfl, rfl, rfl⟩

end

end EmergenceOS.Hal.Graphics

namespace EmergenceOS.Boot

open EmergenceOS.Lib.Bytes EmergenceOS.Hal EmergenceOS.Hal.Graphics EmergenceOS.Hal.Keyboard
open EmergenceOS.Hal.NeumannControlPanel

/-- Something is drawn, and the buffers are swapped. -/
def Screen.draw (screen : Screen) (f : Graphics → Graphics) : Screen :=
  { screen with vga := f screen.vga }.swapBuffers

section
variable (font8x8Basic : Int → Nat → Byte)

/-- The request for the key, with the cursor behind it. -/
def drawLogin (g : Graphics) : Graphics :=
  let g := g.clear 0x00080808
  let g := g.drawBorder 200 200 600 200 0x00222222 1
  let g := print font8x8Basic g (literal "CONSENSUS SOVEREIGN ACCESS") 350 220 0x0000FFFF
  let g := print font8x8Basic g (literal "ENTER ACCESS KEY: ") 250 280 0x00FFFFFF
  { g with cursorX := 400, cursorY := 280 }

/-- The screen after characters that read_password gave to put_char. -/
def echoOn (screen : Screen) (shown : List Byte) : Screen :=
  shown.foldl (fun screen c => screen.draw fun g => g.putChar font8x8Basic c (maskColor c)) screen

/-- kmain up to the keys typed so far. What is drawn has no effect on what is read. -/
def login (screen : Screen) (pass : Buffer) (keys : List Key) : Screen × Editor :=
  let editor := Editor.typePassword 64 pass keys
  (echoOn font8x8Basic (screen.draw (drawLogin font8x8Basic)) editor.shown, editor)

variable {px py : BitVec 32}

theorem echoOn_vga (screen : Screen) (shown : List Byte) :
    (echoOn font8x8Basic screen shown).vga = echo font8x8Basic screen.vga shown := by
  induction shown generalizing screen with
  | nil => rfl
  | cons c shown ih => exact ih _

/-- What is drawn is shown. -/
theorem shown_draw {screen : Screen} {f : Graphics → Graphics} (hg : OnScreen px py (f screen.vga))
    (hnext : px.toNat + 1 < (f screen.vga).width.toNat) :
    (screen.draw f).shown px py = (screen.draw f).vga.pixel px py :=
  Screen.shown_swapBuffers hg hnext

/-- The screen shows its back buffer after every echo. -/
theorem shown_echoOn {screen : Screen} (hg : OnScreen px py screen.vga)
    (hnext : px.toNat + 1 < screen.vga.width.toNat)
    (hshown : screen.shown px py = screen.vga.pixel px py) (shown : List Byte) :
    (echoOn font8x8Basic screen shown).shown px py =
      (echoOn font8x8Basic screen shown).vga.pixel px py := by
  induction shown generalizing screen with
  | nil => exact hshown
  | cons c shown ih =>
    have hsame := sameScreen_putChar font8x8Basic hg.fits c (maskColor c)
    have hg' := hsame.onScreen hg
    have hnext' : px.toNat + 1 <
        (screen.vga.putChar font8x8Basic c (maskColor c)).width.toNat := by
      rw [hsame.width]
      exact hnext
    exact ih hg' hnext' (shown_draw hg' hnext')

/-- The request is drawn in other colours than the asterisks. -/
theorem drawLogin_blank {g : Graphics} (hg : OnScreen px py g)
    (hnext : px.toNat + 1 < g.width.toNat) :
    SameScreen g (drawLogin font8x8Basic g) ∧
      (drawLogin font8x8Basic g).pixel px py ≠ 0x00FFFF00 := by
  have hclear := sameScreen_clear g 0x00080808
  have hbackground : (g.clear 0x00080808).pixel px py ≠ 0x00FFFF00 := by
    rw [pixel_clear hg hnext]
    decide
  have hside {x y w h : BitVec 32} (hw : x.toNat + w.toNat < 2 ^ 32)
      (hh : y.toNat + h.toNat < 2 ^ 32) :
      Avoids px py 0x00FFFF00 fun g => g.drawRect x y w h 0x00222222 :=
    avoids_drawRect hw hh (by decide)
  have hborder : Avoids px py 0x00FFFF00 fun g => g.drawBorder 200 200 600 200 0x00222222 1 :=
    ((hside (by decide) (by decide)).comp (hside (by decide) (by decide))).comp
      ((hside (by decide) (by decide)).comp (hside (by decide) (by decide)))
  have htitle : Avoids px py 0x00FFFF00 fun g =>
      print font8x8Basic g (literal "CONSENSUS SOVEREIGN ACCESS") 350 220 0x0000FFFF :=
    avoids_printFrom font8x8Basic 350 (by decide) _ 350 220
  have hprompt : Avoids px py 0x00FFFF00 fun g =>
      print font8x8Basic g (literal "ENTER ACCESS KEY: ") 250 280 0x00FFFFFF :=
    avoids_printFrom font8x8Basic 250 (by decide) _ 250 280
  obtain ⟨hsame, hpixel⟩ := (hborder.comp (htitle.comp hprompt)) _ (hclear.onScreen hg)
  exact ⟨hclear.trans ⟨hsame.width, hsame.height, hsame.pitch⟩, hpixel hbackground⟩

/-- Whatever is typed and erased: on a screen of more than 904 columns there is an asterisk for
each character of the key so far, one after another, and nothing else in their colour. -/
theorem login_shows {screen : Screen} (hg : OnScreen px py screen.vga)
    (hnext : px.toNat + 1 < screen.vga.width.toNat) (hwide : 904 < screen.vga.width.toNat)
    (pass : Buffer) (keys : List Key) :
    let result := login font8x8Basic screen pass keys
    result.1.shown px py = 0x00FFFF00 ↔
      ∃ k < (typed 64 result.2.consumed).text.length,
        InGlyph (font8x8Basic ((42 : Byte).toInt - 32)) (400 + 8 * k) 280 px py := by
  obtain ⟨hsame, hblank⟩ := drawLogin_blank font8x8Basic hg hnext
  have hg' := hsame.onScreen hg
  have hnext' : px.toNat + 1 < (drawLogin font8x8Basic screen.vga).width.toNat := by
    rw [hsame.width]
    exact hnext
  have hcolumn : (drawLogin font8x8Basic screen.vga).cursorX.toNat = 400 := rfl
  have hline : (drawLogin font8x8Basic screen.vga).cursorY.toNat = 280 := rfl
  have hroom : ((drawLogin font8x8Basic screen.vga).cursorX.toNat : Int) + 8 * (64 - 1) <
      (drawLogin font8x8Basic screen.vga).width.toNat := by
    rw [hsame.width, hcolumn]
    omega
  have hshows := echo_dots font8x8Basic (by decide) hg'.fits hroom (by rw [hline]; decide) pass keys
  have hshown := @shown_echoOn font8x8Basic px py (screen.draw (drawLogin font8x8Basic)) hg' hnext'
    (shown_draw hg' hnext') (Editor.typePassword 64 pass keys).shown
  rw [echoOn_vga] at hshown
  have hdots := hshows.dots px py hg' hblank
  rw [← hcolumn, ← hline]
  exact (Eq.congr_left hshown).trans hdots

/-- A screen of 1024 by 768. -/
def sampleScreen : Screen := ⟨⟨fun _ => 0, 1024, 768, 4096, 0, 0, []⟩, fun _ => 0⟩

/-- Two letters, and the second one erased. -/
def sampleKeys : List Key := [⟨104, 0x23, by decide⟩, ⟨105, 0x17, by decide⟩, ⟨8, 0x0E, by decide⟩]

/-- With a font of vertical bars: the first bar is there and the second is gone. -/
theorem login_shows_erased :
    (login (fun _ _ => 0x18) sampleScreen (fun _ => 0) sampleKeys).1.shown 403 280 = 0x00FFFF00 ∧
    (login (fun _ _ => 0x18) sampleScreen (fun _ => 0) sampleKeys).1.shown 411 280 ≠
      0x00FFFF00 := by
  have hfits : Fits sampleScreen.vga := ⟨by decide, by decide⟩
  have hline : (280 : BitVec 32) < 768 := by decide
  have hone := @login_shows (fun _ _ => 0x18) 403 280 sampleScreen ⟨hfits, by decide, hline⟩
    (by decide) (by decide) (fun _ => 0) sampleKeys
  have htwo := @login_shows (fun _ _ => 0x18) 411 280 sampleScreen ⟨hfits, by decide, hline⟩
    (by decide) (by decide) (fun _ => 0) sampleKeys
  have hlength : (typed 64
      (login (fun _ _ => 0x18) sampleScreen (fun _ => 0) sampleKeys).2.consumed).text.length = 1 :=
    rfl
  have hcolumn : (411 : BitVec 32).toNat = 411 := rfl
  constructor
  · exact hone.mpr ⟨0, hlength ▸ Nat.one_pos, 3, by decide, 0, by decide, by decide, rfl, rfl⟩
  · intro hdot
    obtain ⟨k, hk, gx, hgx, gy, -, -, hpx, -⟩ := htwo.mp hdot
    have hfirst : k < 1 := hlength ▸ hk
    omega

/-- Keys that differ only in which printable characters are typed leave the same screen: it tells
the length of the access key while it is typed, and no more. -/
theorem login_kinds (screen : Screen) (pass pass' : Buffer) {keys keys' : List Key}
    (h : (keys.map fun key => kindOf key.val) = keys'.map fun key => kindOf key.val) :
    (login font8x8Basic screen pass keys).1 = (login font8x8Basic screen pass' keys').1 := by
  have hshown : (Editor.typePassword 64 pass keys).shown =
      (Editor.typePassword 64 pass' keys').shown := by
    rw [(Editor.typePassword_mirrors 64 pass keys).shown,
      (Editor.typePassword_mirrors 64 pass' keys').shown, h]
  simp only [login, hshown]

/-- hi and ab, each with its last letter erased. -/
theorem login_kinds_letters :
    (login (fun _ _ => 0x18) sampleScreen (fun _ => 0) sampleKeys).1 =
      (login (fun _ _ => 0x18) sampleScreen (fun _ => 1)
        [⟨97, 0x1E, by decide⟩, ⟨98, 0x30, by decide⟩, ⟨8, 0x0E, by decide⟩]).1 :=
  login_kinds (fun _ _ => 0x18) sampleScreen (fun _ => 0) (fun _ => 1) (by decide)

end

end EmergenceOS.Boot
