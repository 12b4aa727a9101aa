/- Module: EmergenceOS/Hal/PasswordField
   digest: What the screen shows of a password: its length while it is typed, and no more. -/

import EmergenceOS.Hal.LineEditor
import EmergenceOS.Hal.PanelDrawing

/-!
Every store of read_password comes with an asterisk, and every removal with a backspace that
put_char answers with a filled rectangle. The cursor stays in step with the buffer as long as
the line does not wrap.
-/

set_option autoImplicit false
set_option relaxedAutoImplicit false

namespace EmergenceOS.Hal.Graphics

open EmergenceOS.Lib.Bytes EmergenceOS.Lib.BoundedLoop

/-- A dot of a glyph whose corner is at x, y. -/
def InGlyph (glyph : Nat → Byte) (x y : Nat) (px py : BitVec 32) : Prop :=
  ∃ gx < 8, ∃ gy < 8, glyph gy &&& ((0x80 : Byte) >>> gx) ≠ 0 ∧
    px.toNat = x + gx ∧ py.toNat = y + gy

structure SameCursor (g g' : Graphics) : Prop where
  x : g'.cursorX = g.cursorX
  y : g'.cursorY = g.cursorY

section
variable {px py : BitVec 32} {g g' g'' : Graphics}

theorem SameCursor.refl (g : Graphics) : SameCursor g g := ⟨rfl, rfl⟩

theorem SameCursor.trans (h : SameCursor g g') (h' : SameCursor g' g'') : SameCursor g g'' :=
  ⟨h'.x.trans h.x, h'.y.trans h.y⟩

theorem SameScreen.fits (h : SameScreen g g') (hfits : Fits g) : Fits g' := by
  refine ⟨?_, ?_⟩
  · rw [h.width, h.pitch]
    exact hfits.row
  · rw [h.height, h.pitch]
    exact hfits.size

theorem sameCursor_putPixel (g : Graphics) (x y color : BitVec 32) :
    SameCursor g (g.putPixel x y color) := by
  unfold putPixel
  split
  · exact SameCursor.refl g
  · exact ⟨rfl, rfl⟩

theorem sameCursor_drawGlyph (g : Graphics) (glyph : Nat → Byte) (x y color : BitVec 32) :
    SameCursor g (g.drawGlyph glyph x y color) := by
  refine List.foldlRecOn _ _ (SameCursor.refl g) fun g₁ hg₁ gy _ => ?_
  refine List.foldlRecOn _ _ hg₁ fun g₂ hg₂ gx _ => ?_
  split
  · exact hg₂.trans (sameCursor_putPixel g₂ _ _ _)
  · exact hg₂

theorem sameCursor_drawRect (g : Graphics) (x y w h color : BitVec 32) :
    SameCursor g (g.drawRect x y w h color) := by
  unfold drawRect
  split
  · exact SameCursor.refl g
  · refine forBelow_invariant (SameCursor g) y (SameCursor.refl g) fun g₁ i _ _ hg₁ => ?_
    exact forBelow_invariant (SameCursor g) x hg₁ fun g₂ j _ _ hg₂ => ⟨hg₂.x, hg₂.y⟩

theorem colours_putPixel (color : BitVec 32) :
    Colours px py color fun g => g.putPixel px py color := by
  intro g hg
  have hin : ¬(px ≥ g.width ∨ py ≥ g.height) := by
    rw [ge_iff_le, ge_iff_le, not_or, BitVec.not_le, BitVec.not_le]
    exact ⟨hg.x, hg.y⟩
  simp only [putPixel, if_neg hin]
  exact ⟨⟨rfl, rfl, rfl⟩, Function.update_self _ _ _⟩

theorem eq_add_ofNat {x p : BitVec 32} {k : Nat} (h : p.toNat = x.toNat + k) :
    x + BitVec.ofNat 32 k = p := by
  have hlt := p.isLt
  apply BitVec.eq_of_toNat_eq
  rw [BitVec.toNat_add, BitVec.toNat_ofNat, h]
  omega

theorem toNat_of_add_ofNat {x p : BitVec 32} {k : Nat} (hk : k < 8) (hx : x.toNat + 8 ≤ 2 ^ 32)
    (h : x + BitVec.ofNat 32 k = p) : p.toNat = x.toNat + k := by
  rw [← h, BitVec.toNat_add, BitVec.toNat_ofNat]
  omega

/-- A dot of the glyph gets the colour. -/
theorem colours_drawGlyph {glyph : Nat → Byte} {x y : BitVec 32} (hx : x.toNat + 8 ≤ 2 ^ 32)
    (hy : y.toNat + 8 ≤ 2 ^ 32) (h : InGlyph glyph x.toNat y.toNat px py) (color : BitVec 32) :
    Colours px py color fun g => g.drawGlyph glyph x y color := by
  obtain ⟨gx, hgx, gy, hgy, hbit, hpx, hpy⟩ := h
  have hrow : Colours px py color fun g : Graphics =>
      (List.range 8).foldl (fun g gx =>
        if glyph gy &&& ((0x80 : Byte) >>> gx) ≠ 0 then
          g.putPixel (x + BitVec.ofNat 32 gx) (y + BitVec.ofNat 32 gy) color
        else g) g := by
    refine colours_foldl (List.mem_range.mpr hgx) List.nodup_range ?_ fun b hb hne => ?_
    · simp only [if_pos hbit, eq_add_ofNat hpx, eq_add_ofNat hpy]
      exact colours_putPixel color
    · split
      · refine leaves_putPixel (fun hat => hne ?_) color
        have hb' := toNat_of_add_ofNat (List.mem_range.mp hb) hx hat.1
        omega
      · exact leaves_id
  refine colours_foldl (List.mem_range.mpr hgy) List.nodup_range hrow fun b hb hne => ?_
  refine leaves_foldl fun gx' _ => ?_
  split
  · refine leaves_putPixel (fun hat => hne ?_) color
    have hb' := toNat_of_add_ofNat (List.mem_range.mp hb) hy hat.2
    omega
  · exact leaves_id

theorem leaves_drawGlyph_blank {glyph : Nat → Byte} {x y : BitVec 32} (hx : x.toNat + 8 ≤ 2 ^ 32)
    (hy : y.toNat + 8 ≤ 2 ^ 32) (h : ¬InGlyph glyph x.toNat y.toNat px py) (color : BitVec 32) :
    Leaves px py fun g => g.drawGlyph glyph x y color := by
  refine leaves_foldl fun gy hgy => leaves_foldl fun gx hgx => ?_
  have hgx' := List.mem_range.mp hgx
  have hgy' := List.mem_range.mp hgy
  by_cases hbit : glyph gy &&& ((0x80 : Byte) >>> gx) ≠ 0
  · simp only [if_pos hbit]
    exact leaves_putPixel (fun hat => h ⟨gx, hgx', gy, hgy', hbit,
      toNat_of_add_ofNat hgx' hx hat.1, toNat_of_add_ofNat hgy' hy hat.2⟩) color
  · simp only [if_neg hbit]
    exact leaves_id

end

end EmergenceOS.Hal.Graphics

namespace EmergenceOS.Hal.Keyboard

open EmergenceOS.Lib.Bytes EmergenceOS.Lib.GuardedRun EmergenceOS.Hal.Graphics

/-- What can be told of a key from the screen. -/
inductive Kind
  | enter | erase | letter | other
  deriving DecidableEq

def kindOf (c : Byte) : Kind :=
  if c = 10 ∨ c = 13 then .enter
  else if c = 8 then .erase
  else if Printable c then .letter
  else .other

/-- A field with as many characters, and what was echoed. -/
structure Field where
  length : Nat
  ended : Bool
  shown : List Byte

namespace Field

def test (max : Int) (f : Field) : Field :=
  if (f.length : Int) < max - 1 then f else { f with ended := true }

def edit (max : Int) (f : Field) : Kind → Field
  | .enter => { f with ended := true }
  | .erase =>
    if 0 < f.length then { f with length := f.length - 1, shown := f.shown ++ [8] } else f
  | .letter => test max { f with length := f.length + 1, shown := f.shown ++ [42] }
  | .other => f

def press (max : Int) (f : Field) (kind : Kind) : Field :=
  if f.ended then f else f.edit max kind

def start (max : Int) : Field := test max ⟨0, false, []⟩

def run (max : Int) (kinds : List Kind) : Field := kinds.foldl (press max) (start max)

/-- There is room for another character unless the field has ended. -/
def Room (max : Int) (f : Field) : Prop := f.ended = false → (f.length : Int) < max - 1

theorem room_test (max : Int) (f : Field) : Room max (test max f) := by
  unfold test
  split
  · rename_i hroom
    exact fun _ => hroom
  · exact fun h => Bool.noConfusion h

theorem test_fields (max : Int) (f : Field) :
    (test max f).length = f.length ∧ (test max f).shown = f.shown := by
  unfold test
  split <;> exact ⟨rfl, rfl⟩

end Field

namespace Editor

/-- read_password with a screen, for the keys that read_char returns. -/
def typePassword (max : Int) (buf : Buffer) (keys : List Key) : Editor :=
  keys.foldl (step readPassword max true) (start max buf)

/-- The editor and the field have the same length, have both ended or not, and echoed alike. -/
structure Mirrors (s : Editor) (f : Field) : Prop where
  length : s.i = f.length
  ended : s.returned = f.ended
  shown : s.shown = f.shown

section
variable {max : Int} {s : Editor} {f : Field}

theorem Mirrors.finish (h : Mirrors s f) : Mirrors s.finish { f with ended := true } :=
  ⟨h.length, rfl, h.shown⟩

theorem Mirrors.test (h : Mirrors s f) : Mirrors (Editor.test max s) (Field.test max f) := by
  unfold Editor.test Field.test
  rw [h.length]
  split
  · exact h
  · exact h.finish

/-- Where there is room the loop test changes nothing. -/
theorem Mirrors.test_room (h : Mirrors s f) (hroom : (s.i : Int) < max - 1) :
    Mirrors (Editor.test max s) f := by
  rw [Editor.test, if_pos hroom]
  exact h

theorem Mirrors.step (h : Mirrors s f) (hroom : Room max s) (key : Key) :
    Mirrors (step readPassword max true s key) (f.press max (kindOf key.val)) := by
  cases hopen : s.returned with
  | true =>
    rw [Editor.step, if_pos hopen, Field.press, if_pos (h.ended.symm.trans hopen)]
    exact h
  | false =>
    have hlt := hroom hopen
    have hended : ¬f.ended = true := by
      rw [← h.ended, hopen]
      exact Bool.false_ne_true
    rw [step_open hopen, body, Field.press, if_neg hended]
    simp only [readPassword, decide_eq_true_eq, kindOf]
    by_cases hline : key.val = 10 ∨ key.val = 13
    · rw [if_pos hline, if_pos hline]
      exact ⟨h.length, rfl, h.shown⟩
    rw [if_neg hline, if_neg hline]
    by_cases hback : key.val = 8
    · rw [if_pos hback]
      by_cases hpos : 0 < s.i
      · have hpos' : 0 < f.length := h.length ▸ hpos
        rw [if_pos ⟨hback, hpos⟩, Field.edit, if_pos hpos']
        refine Mirrors.test_room ⟨congrArg (· - 1) h.length, h.ended, ?_⟩ ?_
        · exact congrArg (· ++ [8]) h.shown
        · change ((s.i - 1 : Nat) : Int) < max - 1
          omega
      · have hprint : ¬Printable key.val := by
          rw [hback]
          decide
        rw [if_neg fun hb => hpos hb.2, if_neg hprint, Field.edit, if_neg (h.length ▸ hpos)]
        exact Mirrors.test_room ⟨h.length, h.ended, h.shown⟩ hlt
    rw [if_neg fun hb => hback hb.1, if_neg hback]
    by_cases hprint : Printable key.val
    · rw [if_pos hprint, if_pos hprint]
      exact Mirrors.test ⟨congrArg (· + 1) h.length, h.ended, congrArg (· ++ [42]) h.shown⟩
    · rw [if_neg hprint, if_neg hprint]
      exact Mirrors.test_room ⟨h.length, h.ended, h.shown⟩ hlt

theorem typePassword_mirrors (max : Int) (buf : Buffer) (keys : List Key) :
    Mirrors (typePassword max buf keys) (Field.run max (keys.map fun key => kindOf key.val)) := by
  have hrun (keys : List Key) (s : Editor) (f : Field) (h : Mirrors s f) (hroom : Room max s) :
      Mirrors (keys.foldl (step readPassword max true) s)
        ((keys.map fun key => kindOf key.val).foldl (Field.press max) f) := by
    induction keys generalizing s f with
    | nil => exact h
    | cons key keys ih =>
      exact ih _ _ (h.step hroom key) (step_room readPassword true s key hroom)
  exact hrun keys _ _ (Mirrors.test ⟨rfl, rfl, rfl⟩) (start_room max buf)

end

end Editor

section
variable (font8x8Basic : Int → Nat → Byte)

/-- The colour that goes with a character of the echo. -/
def maskColor (c : Byte) : BitVec 32 := if c = 8 then 0 else 0x00FFFF00

/-- The screen after an echo. -/
def echo (g : Graphics) (shown : List Byte) : Graphics :=
  shown.foldl (fun g c => g.putChar font8x8Basic c (maskColor c)) g

/-- The k-th asterisk of a field that begins at the cursor of g. -/
def Asterisk (g : Graphics) (k : Nat) (px py : BitVec 32) : Prop :=
  InGlyph (font8x8Basic ((42 : Byte).toInt - 32)) (g.cursorX.toNat + 8 * k) g.cursorY.toNat px py

/-- The first n asterisks of the field, and no new dot of their colour otherwise. -/
structure Shows (g₀ g : Graphics) (n : Nat) : Prop where
  screen : SameScreen g₀ g
  cursorX : g.cursorX.toNat = g₀.cursorX.toNat + 8 * n
  cursorY : g.cursorY = g₀.cursorY
  dots : ∀ px py, OnScreen px py g₀ → g₀.pixel px py ≠ 0x00FFFF00 →
    (g.pixel px py = 0x00FFFF00 ↔ ∃ k < n, Asterisk font8x8Basic g₀ k px py)

variable {font8x8Basic} {g₀ g : Graphics} {n : Nat}

theorem Shows.asterisk (h : Shows font8x8Basic g₀ g n) (hy : g₀.cursorY.toNat + 8 ≤ 2 ^ 32)
    (hroom : g₀.cursorX.toNat + 8 * (n + 1) < g₀.width.toNat) :
    Shows font8x8Basic g₀ (g.putChar font8x8Basic 42 0x00FFFF00) (n + 1) := by
  have hwidth := g₀.width.isLt
  have hx := h.cursorX
  have height : (8 : BitVec 32).toNat = 8 := rfl
  have hsame := sameScreen_drawGlyph g (font8x8Basic ((42 : Byte).toInt - 32)) g.cursorX g.cursorY
    0x00FFFF00
  have hcursor := sameCursor_drawGlyph g (font8x8Basic ((42 : Byte).toInt - 32)) g.cursorX
    g.cursorY 0x00FFFF00
  have hnext : (g.cursorX + 8).toNat = g₀.cursorX.toNat + 8 * (n + 1) := by
    rw [BitVec.toNat_add, height]
    omega
  have hwrap : ¬g.cursorX + 8 ≥ g.width := by
    rw [ge_iff_le, BitVec.le_def, hnext, h.screen.width]
    omega
  have hput : g.putChar font8x8Basic 42 0x00FFFF00 =
      { g.drawGlyph (font8x8Basic ((42 : Byte).toInt - 32)) g.cursorX g.cursorY 0x00FFFF00 with
        cursorX := g.cursorX + 8 } := by
    rw [putChar, if_neg (by decide), if_neg (by decide)]
    simp only [hcursor.x, hsame.width, if_neg hwrap]
  rw [hput]
  refine ⟨h.screen.trans ⟨hsame.width, hsame.height, hsame.pitch⟩, hnext,
    hcursor.y.trans h.cursorY, fun px py hp hblank => ?_⟩
  have hg : OnScreen px py g := h.screen.onScreen hp
  have hcell : InGlyph (font8x8Basic ((42 : Byte).toInt - 32)) g.cursorX.toNat g.cursorY.toNat px
      py ↔ Asterisk font8x8Basic g₀ n px py := by
    rw [Asterisk, hx, h.cursorY]
  have hx' : g.cursorX.toNat + 8 ≤ 2 ^ 32 := by omega
  have hy' : g.cursorY.toNat + 8 ≤ 2 ^ 32 := by
    rw [h.cursorY]
    exact hy
  by_cases hdot : Asterisk font8x8Basic g₀ n px py
  · have hcolour := (colours_drawGlyph hx' hy' (hcell.mpr hdot) 0x00FFFF00 g hg).2
    exact iff_of_true hcolour ⟨n, Nat.lt_succ_self n, hdot⟩
  · have hleave := (leaves_drawGlyph_blank hx' hy' (mt hcell.mp hdot) 0x00FFFF00 g hg).2
    refine (Eq.congr_left hleave).trans ((h.dots px py hp hblank).trans ?_)
    constructor
    · rintro ⟨k, hk, hin⟩
      exact ⟨k, Nat.lt_succ_of_lt hk, hin⟩
    · rintro ⟨k, hk, hin⟩
      refine ⟨k, Nat.lt_of_le_of_ne (Nat.le_of_lt_succ hk) ?_, hin⟩
      rintro rfl
      exact hdot hin

theorem Shows.backspace (h : Shows font8x8Basic g₀ g (n + 1)) (hfits : Fits g₀)
    (hy : g₀.cursorY.toNat + 8 < 2 ^ 32) :
    Shows font8x8Basic g₀ (g.putChar font8x8Basic 8 0) n := by
  have hlt := g.cursorX.isLt
  have hx := h.cursorX
  have height : (8 : BitVec 32).toNat = 8 := rfl
  have hback : g.cursorX ≥ 8 := by
    rw [ge_iff_le, BitVec.le_def, height]
    omega
  have hprev : (g.cursorX - 8).toNat = g₀.cursorX.toNat + 8 * n := by
    rw [BitVec.toNat_sub, height]
    omega
  have hput : g.putChar font8x8Basic 8 0 =
      ({ g with cursorX := g.cursorX - 8 } : Graphics).drawRect (g.cursorX - 8) g.cursorY 8 8
        0x00080808 := by
    rw [putChar, if_neg (by decide), if_pos rfl]
    simp only [if_pos hback]
  have hmoved : SameScreen g₀ { g with cursorX := g.cursorX - 8 } :=
    h.screen.trans ⟨rfl, rfl, rfl⟩
  have hcursor := sameCursor_drawRect { g with cursorX := g.cursorX - 8 } (g.cursorX - 8) g.cursorY
    8 8 0x00080808
  have hscreen := sameScreen_drawRect (hmoved.fits hfits) (g.cursorX - 8) g.cursorY 8 8 0x00080808
  rw [hput]
  refine ⟨hmoved.trans hscreen, ?_, hcursor.y.trans h.cursorY, fun px py hp hblank => ?_⟩
  · rw [hcursor.x]
    exact hprev
  have hdrawn := pixel_drawRect (x := g.cursorX - 8) (y := g.cursorY) (w := 8) (h := 8)
    (by omega) (by rw [h.cursorY]; exact hy) (hmoved.onScreen hp) 0x00080808
  rw [hdrawn]
  by_cases hin : InRect (g.cursorX - 8) g.cursorY 8 8 px py
  · -- the other asterisks end to the left of the rectangle
    rw [if_pos hin]
    refine iff_of_false (by decide) ?_
    rintro ⟨k, hk, gx, hgx, gy, -, -, hpx, -⟩
    have hleft := BitVec.le_def.mp hin.1.1
    omega
  · rw [if_neg hin]
    refine (h.dots px py hp hblank).trans ⟨?_, fun ⟨k, hk, hdot⟩ => ⟨k, Nat.lt_succ_of_lt hk, hdot⟩⟩
    rintro ⟨k, hk, hdot⟩
    refine ⟨k, Nat.lt_of_le_of_ne (Nat.le_of_lt_succ hk) ?_, hdot⟩
    rintro rfl
    obtain ⟨gx, hgx, gy, hgy, -, hpx, hpy⟩ := hdot
    refine hin ⟨⟨BitVec.le_def.mpr (by omega), by omega⟩, BitVec.le_def.mpr ?_, ?_⟩
    · rw [h.cursorY]
      omega
    · rw [h.cursorY]
      omega

theorem echo_concat (g : Graphics) (shown : List Byte) (c : Byte) :
    echo font8x8Basic g (shown ++ [c]) =
      (echo font8x8Basic g shown).putChar font8x8Basic c (maskColor c) :=
  List.foldl_concat _ _ _ _

section
variable {max : Int}

/-- The field and the screen that begins with g₀ show the same. -/
structure Echoed (font8x8Basic : Int → Nat → Byte) (max : Int) (g₀ : Graphics) (f : Field) :
    Prop where
  shows : Shows font8x8Basic g₀ (echo font8x8Basic g₀ f.shown) f.length
  room : f.Room max

theorem Echoed.press {f : Field} (h : Echoed font8x8Basic max g₀ f) (hfits : Fits g₀)
    (hroom : (g₀.cursorX.toNat : Int) + 8 * (max - 1) < g₀.width.toNat)
    (hy : g₀.cursorY.toNat + 8 < 2 ^ 32) (kind : Kind) :
    Echoed font8x8Basic max g₀ (f.press max kind) := by
  unfold Field.press
  split
  · exact h
  · rename_i hopen
    have hlt := h.room (Bool.eq_false_iff.mpr hopen)
    cases kind with
    | enter => exact ⟨h.shows, fun he => Bool.noConfusion he⟩
    | other => exact h
    | letter =>
      obtain ⟨hlength, hshown⟩ :=
        Field.test_fields max { f with length := f.length + 1, shown := f.shown ++ [42] }
      refine ⟨?_, Field.room_test max _⟩
      rw [Field.edit, hlength, hshown]
      simp only [echo_concat]
      exact h.shows.asterisk (by omega) (by omega)
    | erase =>
      rw [Field.edit]
      split
      · rename_i hpos
        obtain ⟨n, hn⟩ : ∃ n, f.length = n + 1 := ⟨f.length - 1, by omega⟩
        refine ⟨?_, fun _ => ?_⟩
        · simp only [echo_concat, hn, Nat.add_sub_cancel]
          exact (hn ▸ h.shows).backspace hfits hy
        · simp only
          omega
      · exact h

theorem run_echoed (hfits : Fits g₀)
    (hroom : (g₀.cursorX.toNat : Int) + 8 * (max - 1) < g₀.width.toNat)
    (hy : g₀.cursorY.toNat + 8 < 2 ^ 32) (kinds : List Kind) :
    Echoed font8x8Basic max g₀ (Field.run max kinds) := by
  obtain ⟨hlength, hshown⟩ := Field.test_fields max ⟨0, false, []⟩
  refine List.foldlRecOn kinds _ ⟨?_, Field.room_test max _⟩
    fun f hf kind _ => hf.press hfits hroom hy kind
  rw [Field.start, hlength, hshown]
  refine ⟨SameScreen.refl g₀, rfl, rfl, fun px py _ hblank => iff_of_false hblank ?_⟩
  rintro ⟨k, hk, -⟩
  exact absurd hk (Nat.not_lt_zero k)

/-- The index of the editor is the length of the line that was typed. -/
theorem typePassword_length (hmax : 1 ≤ max) (buf : Buffer) (keys : List Key) :
    (Editor.typePassword max buf keys).i =
      (typed max (Editor.typePassword max buf keys).consumed).text.length := by
  have hthroughout : Throughout (Editor.step readPassword max true) (Editor.Sound max)
      (Editor.start max buf) keys :=
    throughout_of_step (Editor.Room max) (fun s key => Editor.step_room readPassword true s key)
      (fun _ key hroom h => Editor.password_step true key h hroom) (Editor.start_room max buf)
      (Editor.sound_start hmax buf)
  have hsound := hthroughout.last
  rw [Editor.typePassword, ← hsound.text, length_slice]

end

end

/-- Whatever is typed and erased: the echo shows one asterisk for each character of the line so
far, from the cursor on, if the longest line ends before the last column. -/
theorem echo_dots (font8x8Basic : Int → Nat → Byte) {max : Int} (hmax : 1 ≤ max) {g : Graphics}
    (hfits : Fits g) (hroom : (g.cursorX.toNat : Int) + 8 * (max - 1) < g.width.toNat)
    (hy : g.cursorY.toNat + 8 < 2 ^ 32) (buf : Buffer) (keys : List Key) :
    Shows font8x8Basic g (echo font8x8Basic g (Editor.typePassword max buf keys).shown)
      (typed max (Editor.typePassword max buf keys).consumed).text.length := by
  have hmirrors := Editor.typePassword_mirrors max buf keys
  have hechoed : Echoed font8x8Basic max g (Field.run max (keys.map fun key => kindOf key.val)) :=
    run_echoed hfits hroom hy _
  have hshows := hechoed.shows
  rwa [← hmirrors.shown, ← hmirrors.length, typePassword_length hmax] at hshows

end EmergenceOS.Hal.Keyboard
