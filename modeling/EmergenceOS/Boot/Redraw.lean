/- Module: EmergenceOS/Boot/Redraw
   digest: Whatever is typed, every redraw of the control panel shows the cache on the screen. -/

import EmergenceOS.Boot.Session
import EmergenceOS.Hal.PanelDrawing
import EmergenceOS.Hal.SpinningCube

/-!
The turns of the menu and of the shell with all that they draw. The cube is drawn over the
panel, but to the right of the left half of the grids.
-/

set_option autoImplicit false
set_option relaxedAutoImplicit false

namespace EmergenceOS.Boot

open EmergenceOS.Lib.Bytes EmergenceOS.Lib.GuardedRun EmergenceOS.Hal EmergenceOS.Hal.Graphics
open EmergenceOS.Hal.NeumannControlPanel EmergenceOS.Vdev.Topology
open EmergenceOS.Vdev.SubstrateService

/-- g_vga and the linear frame buffer. -/
structure Screen where
  vga : Graphics
  lfb : Nat → BitVec 32

namespace Screen

/-- Each turn copies a 64-bit word. -/
def swapBuffers (s : Screen) : Screen :=
  let count := (s.vga.height * s.vga.pitch / 8).toNat
  { s with
    lfb := (List.range count).foldl (fun lfb i =>
      Function.update (Function.update lfb (2 * i) (s.vga.backBuffer (2 * i))) (2 * i + 1)
        (s.vga.backBuffer (2 * i + 1))) s.lfb }

/-- What is visible in column x of row y. -/
def shown (s : Screen) (x y : BitVec 32) : BitVec 32 := s.lfb (s.vga.index x y)

end Screen

/-- The characters from str[i] on. No result if there is no terminator in the array. -/
def charsFrom (str : Fin 128 → Byte) (i : Nat) : Option (List Byte) :=
  if h : i < 128 then
    if str ⟨i, h⟩ = 0 then some [] else (charsFrom str (i + 1)).map (str ⟨i, h⟩ :: ·)
  else none
termination_by 128 - i

def region (focus : Fin 3) : Region :=
  if focus.val = 0 then .scheduling else if focus.val = 1 then .manifold else .console

/-- What the machine gives the session: the build, the font, whether VMX is on, the manifold, and
what the stack holds at the buffers of draw_panel. The fuel bounds the pixels of one line. -/
structure Machine where
  build : Build
  font8x8Basic : Int → Nat → Byte
  vmxReady : Bool
  manifold : SubstrateManifold
  stack : BitVec 32 → Nat → Buffer × Buffer
  fuel : Nat
  enough : 2 ^ 29 < fuel

namespace Machine
variable (mc : Machine)

def capacityText : Build → List Byte
  | .sovereign => literal "PHOENIX vX [SOVEREIGN] | CAPACITY: UNLIMITED"
  | .evaluation => literal "PHOENIX v0.5 [OPEN] | CAPACITY: 1 TB"
  | .enterprise => literal "PHOENIX v1.0 [RELEASE] | CAPACITY: 10 TB"

def capacityColor : Build → BitVec 32
  | .sovereign => 0x00FF00FF
  | .evaluation => 0x00FF0000
  | .enterprise => 0x00FFFF00

/-- The menu, with an arrow at the selection. -/
def drawMenu (g : Graphics) (selection : Int) : Graphics :=
  let g := g.clear 0x00080808
  let g := print mc.font8x8Basic g (literal "=== CONSENSUS ENTERPRISE HYPERVISOR ===") 300 200
    0x0000FFFF
  let g := print mc.font8x8Basic g (capacityText mc.build) 250 130 (capacityColor mc.build)
  let g := if mc.vmxReady then
      print mc.font8x8Basic g (literal "VMX_ACCELERATION: [ENABLED]") 300 150 0x0000FF00
    else g
  let g := if selection = 0 then
      print mc.font8x8Basic g (literal "> 1. Launch Sovereign Workspace") 250 240 0x0000FF00
    else print mc.font8x8Basic g (literal "  1. Launch Sovereign Workspace") 250 240 0x00FFFFFF
  if selection = 1 then
    print mc.font8x8Basic g (literal "> 2. Neumann Control Panel") 250 260 0x0000FF00
  else print mc.font8x8Basic g (literal "  2. Neumann Control Panel") 250 260 0x00FFFFFF

def drawWorkspace (g : Graphics) (cmd : Fin 128 → Byte) : Option Graphics := do
  let g := g.drawRect 0 0 1024 60 0x00080808
  let g := print mc.font8x8Basic g (literal "=== CONSENSUS SOVEREIGN WORKSPACE ===") 10 10
    0x0000FFFF
  let g := g.drawRect 0 480 1024 40 0x00080808
  let g := print mc.font8x8Basic g (literal "[Sovereign]> ") 10 500 0x0000FF00
  let chars ← charsFrom cmd 0
  return print mc.font8x8Basic g chars 120 500 0x00FFFFFF

/-- draw_spinning_cube: the lines and the caption. -/
def drawCube (g : Graphics) (frame : Int) (lock : Bool) : Option Graphics := do
  let col : BitVec 32 := if lock then 0x00FF0000 else 0x0000FFFF
  let cube ← drawSpinningCube frame
  let g ← cube.lines.foldlM (fun g l => g.drawLine mc.fuel l.x0 l.y0 l.x1 l.y1 col) g
  return print mc.font8x8Basic g (literal "MANIFOLD_PHASE") 760 300 col

def drawPrompt (g : Graphics) (shell : Shell) (frame : BitVec 32) : Option Graphics := do
  let promptColor : BitVec 32 := if region shell.focus = .console then 0x0000FF00 else 0x00003333
  let g := print mc.font8x8Basic g (literal "[PHOENIX]> ") 320 520 promptColor
  let chars ← charsFrom shell.cmd 0
  let g := print mc.font8x8Basic g chars 410 520 0x00FFFFFF
  return if region shell.focus = .console ∧ frame / 16 % 2 ≠ 0 then
      print mc.font8x8Basic g (literal "_") (410 + BitVec.ofInt 32 (shell.cmdIdx * 8)) 520
        0x0000FF00
    else g

/-- The branch of sovereign_shell in the control panel. -/
def drawControl (g : Graphics) (s : Session) : Option Graphics := do
  let frame := s.hypercubeFrame
  let stack := mc.stack frame
  let g ← drawPanel mc.font8x8Basic mc.build g mc.manifold s.resources.getActiveCores
    s.resources.getActiveNodes (region s.shell.focus) frame (stack 0) (stack 1) (stack 2) (stack 3)
  let g ← mc.drawCube g frame.toInt (decide (frame % (60 * 1) = 0))
  mc.drawPrompt g s.shell frame

end Machine

/-- The session and the screen. -/
structure Kernel where
  session : Session
  screen : Screen

namespace Kernel
variable (mc : Machine)

/-- One turn of the menu loop or of the loop of sovereign_shell: redraw, swap, and handle the
scancode. The screen is cleared when the shell is entered. -/
def turn (k : Kernel) (sc : Byte) : Option Kernel :=
  if k.session.inMenu then do
    let screen := { k.screen with
      vga := mc.drawMenu k.screen.vga k.session.selection }.swapBuffers
    let session ← k.session.turn sc
    return if session.inMenu then ⟨session, screen⟩
      else ⟨session, { screen with vga := screen.vga.clear 0x00080808 }⟩
  else do
    let vga ← if k.session.inControlPanel then mc.drawControl k.screen.vga k.session
      else mc.drawWorkspace k.screen.vga k.session.shell.cmd
    let session ← k.session.turn sc
    return ⟨session, { k.screen with vga }.swapBuffers⟩

def run (k : Kernel) (scancodes : List Byte) : Option Kernel := scancodes.foldlM (turn mc) k

/-- The kernel in its menu, with whatever the screen shows. -/
def boot (screen : Screen) : Kernel := ⟨Session.boot, screen⟩

end Kernel

theorem copied_words (back lfb : Nat → BitVec 32) (n k : Nat) :
    (List.range n).foldl (fun lfb i =>
      Function.update (Function.update lfb (2 * i) (back (2 * i))) (2 * i + 1) (back (2 * i + 1)))
      lfb k = if k < 2 * n then back k else lfb k := by
  induction n with
  | zero => rfl
  | succ n ih =>
    rw [List.range_succ, List.foldl_append, List.foldl_cons, List.foldl_nil]
    by_cases hodd : k = 2 * n + 1
    · rw [hodd, Function.update_self, if_pos (by omega)]
    rw [Function.update_of_ne hodd]
    by_cases heven : k = 2 * n
    · rw [heven, Function.update_self, if_pos (by omega)]
    · have hlt : k < 2 * n ↔ k < 2 * (n + 1) := by omega
      rw [Function.update_of_ne heven, ih]
      simp only [hlt]

section
variable {px py : BitVec 32}

/-- Only the last word of the buffer may be left out, if its size is no multiple of eight. -/
theorem Screen.shown_swapBuffers {s : Screen} (hg : OnScreen px py s.vga)
    (hnext : px.toNat + 1 < s.vga.width.toNat) : s.swapBuffers.shown px py = s.vga.pixel px py := by
  have height : (8 : BitVec 32).toNat = 8 := rfl
  have hend := row_end_le (BitVec.lt_def.mp hg.y) hnext hg.fits.row
  have hindex := hg.fits.index_toNat hg.x hg.y
  change (List.range _).foldl _ s.lfb (s.vga.index px py) = s.vga.backBuffer (s.vga.index px py)
  rw [copied_words, if_pos]
  rw [BitVec.toNat_udiv, BitVec.toNat_mul, Nat.mod_eq_of_lt hg.fits.size, height]
  omega

/-- A step that can fail, does not, and leaves the pixel alone. -/
def Passes (px py : BitVec 32) (f : Graphics → Option Graphics) : Prop :=
  ∀ g, OnScreen px py g → ∃ g', f g = some g' ∧ SameScreen g g' ∧ g'.pixel px py = g.pixel px py

theorem passes_foldlM {α : Type} {f : Graphics → α → Option Graphics} {as : List α}
    (h : ∀ a ∈ as, Passes px py fun g => f g a) : Passes px py fun g => as.foldlM f g := by
  intro g hg
  refine foldlM_some (P := fun g' => SameScreen g g' ∧ g'.pixel px py = g.pixel px py)
    (fun g₁ a ha h₁ => ?_) ⟨SameScreen.refl g, rfl⟩
  obtain ⟨g₂, hstep, hsame, hpixel⟩ := h a ha g₁ (h₁.1.onScreen hg)
  exact ⟨g₂, hstep, h₁.1.trans hsame, hpixel.trans h₁.2⟩

/-- All points of a line whose ends are at column 400 or beyond are there. -/
theorem le_of_mem_line {x0 y0 x1 y1 : Int} (hx0 : InRange x0) (hy0 : InRange y0) (hx1 : InRange x1)
    (hy1 : InRange y1) (hfirst : 400 ≤ x0) (hlast : 400 ≤ x1) {p : Int × Int}
    (hp : p ∈ (Lib.Bresenham.path (x1 - x0).natAbs (y1 - y0).natAbs
      (max (x1 - x0).natAbs (y1 - y0).natAbs) (0, 0)).map
        (pointAt (Side.between x0 x1 hx0 hx1) (Side.between y0 y1 hy0 hy1))) :
    400 ≤ p.1 ∧ p.1 ≤ 2 ^ 28 := by
  obtain ⟨q, hq, rfl⟩ := List.mem_map.mp hp
  have hlength : (max ((x1 - x0).natAbs : Int) (y1 - y0).natAbs).toNat =
      max (x1 - x0).natAbs (y1 - y0).natAbs := by omega
  rw [← hlength] at hq
  obtain ⟨hbox, -⟩ := Lib.Bresenham.inBox_of_mem_line (Int.natCast_nonneg _) (Int.natCast_nonneg _)
    hq
  rw [← extent_between hx0 hx1] at hbox
  have hplace := (Side.between x0 x1 hx0 hx1).place_mem_box hbox
  have hrange := (Side.between x0 x1 hx0 hx1).inRange_place hbox
  rw [Side.place_between] at hplace
  exact ⟨Int.le_trans (le_min hfirst hlast) hplace.1, hrange.2⟩

theorem drawLine_passes (hpx : px.toNat < 400) {x0 y0 x1 y1 : Int} (hx0 : InRange x0)
    (hy0 : InRange y0) (hx1 : InRange x1) (hy1 : InRange y1) (hfirst : 400 ≤ x0)
    (hlast : 400 ≤ x1) {fuel : Nat} (hfuel : 2 ^ 29 < fuel) (color : BitVec 32) :
    Passes px py fun g => g.drawLine fuel x0 y0 x1 y1 color := by
  have hlong : max (x1 - x0).natAbs (y1 - y0).natAbs + 1 ≤ fuel := by
    simp only [Graphics.InRange] at hx0 hy0 hx1 hy1
    omega
  intro g hg
  have hrun := congrArg (Option.map fun points : List (Int × Int) =>
    points.foldl (fun g p => g.putPixel (BitVec.ofInt 32 p.1) (BitVec.ofInt 32 p.2) color) g)
    (linePoints_eq hx0 hy0 hx1 hy1 hlong)
  refine ⟨_, hrun, ?_⟩
  refine leaves_foldl (fun p hp => leaves_putPixel ?_ color) g hg
  rintro ⟨hcolumn, -⟩
  have hbounds := le_of_mem_line hx0 hy0 hx1 hy1 hfirst hlast hp
  rw [← hcolumn, BitVec.toNat_ofInt] at hpx
  omega

/-- The cube looks the same after 64 frames. -/
theorem drawSpinningCube_phase {n : Nat} (h : n + 16 < 2 ^ 31) :
    drawSpinningCube n = drawSpinningCube (n % 64 : Nat) := by
  have hsin : (n : Int).tmod 64 = ((n % 64 : Nat) : Int).tmod 64 := by
    change ((n % 64 : Nat) : Int) = ((n % 64 % 64 : Nat) : Int)
    rw [Nat.mod_mod]
  have hcos : ((n : Int) + 16).tmod 64 = (((n % 64 : Nat) : Int) + 16).tmod 64 := by
    change (((n + 16) % 64 : Nat) : Int) = (((n % 64 + 16) % 64 : Nat) : Int)
    rw [Nat.mod_add_mod]
  unfold drawSpinningCube
  rw [int32_eq (by omega) (by omega), int32_eq (by omega) (by omega), hsin]
  simp only [Option.bind_eq_bind, Option.bind_some, hcos]

/-- In all of its 64 phases the cube is to the right of column 400. -/
theorem cube_right : ∀ k < 64, ∀ c ∈ drawSpinningCube (k : Nat), ∀ l ∈ c.lines,
    400 ≤ l.x0 ∧ 400 ≤ l.x1 := by
  decide +kernel

theorem drawCube_passes (mc : Machine) (hpx : px.toNat < 400) {frame : BitVec 32}
    (hframe : frame.toNat + 16 < 2 ^ 31) (lock : Bool) :
    Passes px py fun g => mc.drawCube g frame.toInt lock := by
  have hint : frame.toInt = (frame.toNat : Int) := BitVec.toInt_eq_toNat_of_lt (by omega)
  obtain ⟨c, hc, hsound⟩ := frameSound_of_nonneg (Int.natCast_nonneg frame.toNat) (by omega)
  have hright := cube_right (frame.toNat % 64) (Nat.mod_lt _ (by decide)) c
    (by rw [← drawSpinningCube_phase hframe]; exact hc)
  have hlines : Passes px py fun g => c.lines.foldlM (fun g l =>
      g.drawLine mc.fuel l.x0 l.y0 l.x1 l.y1 (if lock then 0x00FF0000 else 0x0000FFFF)) g := by
    refine passes_foldlM fun l hl => ?_
    obtain ⟨hx0, hy0, hx1, hy1⟩ := hsound.2 l hl
    exact drawLine_passes hpx hx0 hy0 hx1 hy1 (hright l hl).1 (hright l hl).2 mc.enough _
  have hcaption : Leaves px py fun g => print mc.font8x8Basic g (literal "MANIFOLD_PHASE") 760 300
      (if lock then 0x00FF0000 else 0x0000FFFF) :=
    leaves_printFrom_right mc.font8x8Basic 760 300 _ (by decide)
      (show px.toNat < (760 : BitVec 32).toNat from Nat.lt_trans hpx (by decide)) (by decide)
  intro g hg
  obtain ⟨g', hrun, hsame, hpixel⟩ := hlines g hg
  obtain ⟨hsame', hpixel'⟩ := hcaption g' (hsame.onScreen hg)
  refine ⟨_, ?_, hsame.trans hsame', hpixel'.trans hpixel⟩
  simp only [Machine.drawCube, hint, hc, Option.bind_eq_bind, Option.bind_some, hrun]
  rfl

/-- The line of the shell is what print_at prints. -/
theorem Holds.charsFrom {shell : Shell} {text : List Byte} (h : Holds shell text) (i : Nat)
    (hi : i ≤ text.length) : Boot.charsFrom shell.cmd i = some (text.drop i) := by
  have hlen := h.length_le
  obtain ⟨n, hn⟩ : ∃ n, text.length = i + n := ⟨text.length - i, by omega⟩
  have hi128 : i < 128 := by omega
  induction n generalizing i with
  | zero =>
    have hzero := h.beyond ⟨i, hi128⟩ (by simp only; omega)
    rw [Boot.charsFrom, dif_pos hi128, if_pos hzero, List.drop_eq_nil_of_le (by omega)]
  | succ n ih =>
    have hglyph := h.clean.text ⟨i, hi128⟩ (by rw [h.index]; simp only; omega)
    have hne : shell.cmd ⟨i, hi128⟩ ≠ 0 := by
      intro he
      rw [he] at hglyph
      exact absurd hglyph (by decide)
    rw [Boot.charsFrom, dif_pos hi128, if_neg hne, ih (i + 1) (by omega) (by omega) (by omega),
      Option.map_some, h.drop ⟨i, hi128⟩ (by simp only; omega)]

theorem Holds.newline_notMem {shell : Shell} {text : List Byte} (h : Holds shell text) :
    10 ∉ text := by
  intro hmem
  obtain ⟨i, hi, hc⟩ := List.getElem_of_mem hmem
  have hlen := h.length_le
  have hi128 : i < 128 := by omega
  have hglyph := h.clean.text ⟨i, hi128⟩ (by rw [h.index]; simp only; omega)
  have hchar := h.text ⟨i, hi128⟩ hi
  rw [List.getElem?_eq_getElem hi, hc] at hchar
  rw [← Option.some.inj hchar] at hglyph
  exact absurd hglyph (by decide)

/-- The prompt stands below the panel. -/
theorem drawPrompt_passes (mc : Machine) (hpy : py.toNat < 460) {shell : Shell} {text : List Byte}
    (h : Holds shell text) (frame : BitVec 32) :
    Passes px py fun g => mc.drawPrompt g shell frame := by
  have hrow : py.toNat < (520 : BitVec 32).toNat := Nat.lt_trans hpy (by decide)
  have hprompt (color : BitVec 32) : Leaves px py fun g =>
      print mc.font8x8Basic g (literal "[PHOENIX]> ") 320 520 color :=
    leaves_print mc.font8x8Basic (by decide) hrow (by decide) _ _
  have hline : Leaves px py fun g => print mc.font8x8Basic g text 410 520 0x00FFFFFF :=
    leaves_print mc.font8x8Basic (by decide) hrow h.newline_notMem _ _
  have hcursor : Leaves px py fun g => print mc.font8x8Basic g (literal "_")
      (410 + BitVec.ofInt 32 (shell.cmdIdx * 8)) 520 0x0000FF00 :=
    leaves_print mc.font8x8Basic (by decide) hrow (by decide) _ _
  have hchars := h.charsFrom 0 (Nat.zero_le _)
  rw [List.drop_zero] at hchars
  intro g hg
  obtain ⟨hg₁, hpixel₁⟩ :=
    hprompt (if region shell.focus = .console then 0x0000FF00 else 0x00003333) g hg
  obtain ⟨hg₂, hpixel₂⟩ := hline _ (hg₁.onScreen hg)
  have hg₂ := hg₁.trans hg₂
  obtain ⟨hg₃, hpixel₃⟩ := hcursor _ (hg₂.onScreen hg)
  simp only [Machine.drawPrompt, hchars, Option.bind_eq_bind, Option.bind_some]
  split
  · exact ⟨_, rfl, hg₂.trans hg₃, (hpixel₃.trans hpixel₂).trans hpixel₁⟩
  · exact ⟨_, rfl, hg₂, hpixel₂.trans hpixel₁⟩

theorem sameScreen_ite {g g₁ g₂ : Graphics} (p : Prop) [Decidable p] (h₁ : SameScreen g g₁)
    (h₂ : SameScreen g g₂) : SameScreen g (if p then g₁ else g₂) := by
  split
  · exact h₁
  · exact h₂

theorem sameScreen_drawMenu (mc : Machine) (g : Graphics) (selection : Int) :
    SameScreen g (mc.drawMenu g selection) := by
  have hprint {g' : Graphics} (h : SameScreen g g') (cs : List Byte) (x y color : BitVec 32) :
      SameScreen g (print mc.font8x8Basic g' cs x y color) :=
    h.trans (sameScreen_print mc.font8x8Basic g' cs x y color)
  have htitle := hprint (sameScreen_clear g 0x00080808)
    (literal "=== CONSENSUS ENTERPRISE HYPERVISOR ===") 300 200 0x0000FFFF
  have hcapacity := hprint htitle (Machine.capacityText mc.build) 250 130
    (Machine.capacityColor mc.build)
  have hvmx := sameScreen_ite (mc.vmxReady = true)
    (hprint hcapacity (literal "VMX_ACCELERATION: [ENABLED]") 300 150 0x0000FF00) hcapacity
  have hfirst := sameScreen_ite (selection = 0)
    (hprint hvmx (literal "> 1. Launch Sovereign Workspace") 250 240 0x0000FF00)
    (hprint hvmx (literal "  1. Launch Sovereign Workspace") 250 240 0x00FFFFFF)
  exact sameScreen_ite (selection = 1)
    (hprint hfirst (literal "> 2. Neumann Control Panel") 250 260 0x0000FF00)
    (hprint hfirst (literal "  2. Neumann Control Panel") 250 260 0x00FFFFFF)

theorem drawWorkspace_sameScreen (mc : Machine) {g : Graphics} (hg : OnScreen px py g)
    {shell : Shell} {text : List Byte} (h : Holds shell text) :
    ∃ g', mc.drawWorkspace g shell.cmd = some g' ∧ SameScreen g g' := by
  have hchars := h.charsFrom 0 (Nat.zero_le _)
  have hhead := sameScreen_drawRect hg.fits 0 0 1024 60 0x00080808
  have htitle := hhead.trans (sameScreen_print mc.font8x8Basic _
    (literal "=== CONSENSUS SOVEREIGN WORKSPACE ===") 10 10 0x0000FFFF)
  have hband := htitle.trans (sameScreen_drawRect (htitle.onScreen hg).fits 0 480 1024 40
    0x00080808)
  have hprompt := hband.trans (sameScreen_print mc.font8x8Basic _ (literal "[Sovereign]> ") 10 500
    0x0000FF00)
  simp only [Machine.drawWorkspace, hchars, Option.bind_eq_bind, Option.bind_some]
  exact ⟨_, rfl, hprompt.trans (sameScreen_print mc.font8x8Basic _ _ 120 500 0x00FFFFFF)⟩

/-- The left grids are above the prompt and to the left of the cube. -/
theorem left_cell {i row col : Nat} (hi : i < 4) (hleft : i % 2 = 0) (hrow : row < 8)
    (hcol : col < 8) (hcell : InCell 310 40 680 400 px py i row col) :
    px.toNat < 400 ∧ py.toNat < 460 := by
  have hx : (310 : BitVec 32).toNat = 310 := rfl
  have hy : (40 : BitVec 32).toNat = 40 := rfl
  have hheight : (400 : BitVec 32).toNat = 400 := rfl
  rw [inCell_iff ⟨by decide, by decide, by decide, by decide⟩ hi hrow hcol, hleft, hx, hy,
    hheight] at hcell
  omega

theorem drawControl_shows (mc : Machine) {s : Session} {text : List Byte}
    (h : Holds s.shell text) (hframe : s.hypercubeFrame.toNat + 16 < 2 ^ 31) {g : Graphics}
    (hg : OnScreen px py g) {i row col : Nat} (hi : i < 4) (hleft : i % 2 = 0) (hrow : row < 8)
    (hcol : col < 8) (hcell : InCell 310 40 680 400 px py i row col) :
    ∃ g', mc.drawControl g s = some g' ∧ SameScreen g g' ∧
      g'.pixel px py = cellColor mc.manifold s.hypercubeFrame i row col := by
  obtain ⟨hpx, hpy⟩ := left_cell hi hleft hrow hcol hcell
  obtain ⟨g₁, hpanel, hg₁, hcolor⟩ := drawPanel_colours mc.font8x8Basic mc.build hg mc.manifold
    s.resources.getActiveCores s.resources.getActiveNodes (region s.shell.focus) s.hypercubeFrame
    (mc.stack s.hypercubeFrame 0) (mc.stack s.hypercubeFrame 1) (mc.stack s.hypercubeFrame 2)
    (mc.stack s.hypercubeFrame 3) hi hrow hcol hcell
  obtain ⟨g₂, hcube, hg₂, hpixel₂⟩ := drawCube_passes mc hpx hframe
    (decide (s.hypercubeFrame % (60 * 1) = 0)) g₁ (hg₁.onScreen hg)
  have hg₂ := hg₁.trans hg₂
  obtain ⟨g', hprompt, hg', hpixel'⟩ := drawPrompt_passes mc hpy h s.hypercubeFrame g₂
    (hg₂.onScreen hg)
  refine ⟨g', ?_, hg₂.trans hg', (hpixel'.trans hpixel₂).trans hcolor⟩
  beta_reduce at hcube
  rw [Machine.drawControl, hpanel, Option.bind_eq_bind, Option.bind_some, hcube]
  exact hprompt

namespace Kernel
variable (mc : Machine) {k : Kernel} {d : Dialogue}

theorem turn_menu (h : Follows k.session d) {second : Bool} (hmode : d.mode = .menu second)
    (sc : Byte) : ∃ k', k.turn mc sc = some k' ∧ Follows k'.session (d.press sc) ∧
      SameScreen k.screen.vga k'.screen.vga := by
  have hmenu := h.mode
  rw [hmode] at hmenu
  obtain ⟨session, hsession, hfollows⟩ := h.menu hmode sc
  have hdrawn := sameScreen_drawMenu mc k.screen.vga k.session.selection
  rw [turn, if_pos hmenu.1, hsession, Option.bind_eq_bind, Option.bind_some]
  refine ⟨_, rfl, ?_⟩
  split
  · exact ⟨hfollows, hdrawn⟩
  · exact ⟨hfollows, hdrawn.trans (sameScreen_clear _ _)⟩

theorem turn_line (h : Follows k.session d) {panel : Bool} {text : List Byte}
    (hmode : d.mode = .line panel text) (hframe : d.redraws + 16 < 2 ^ 31)
    (hg : OnScreen px py k.screen.vga) {i row col : Nat} (hi : i < 4) (hleft : i % 2 = 0)
    (hrow : row < 8) (hcol : col < 8) (hcell : InCell 310 40 680 400 px py i row col) (sc : Byte) :
    ∃ k', k.turn mc sc = some k' ∧ Follows k'.session (d.press sc) ∧
      SameScreen k.screen.vga k'.screen.vga ∧
      (panel = true → px.toNat + 1 < k.screen.vga.width.toNat →
        k'.screen.shown px py = cellColor mc.manifold (BitVec.ofNat 32 d.redraws) i row col) := by
  have hline := h.mode
  rw [hmode] at hline
  obtain ⟨hmenu, hpanel, hholds, -⟩ := hline
  obtain ⟨session, hsession, hfollows⟩ := h.line hmode sc
  have hcount : k.session.hypercubeFrame.toNat + 16 < 2 ^ 31 := by
    rw [h.frame, BitVec.toNat_ofNat]
    omega
  rw [turn, hmenu, if_neg Bool.false_ne_true, hpanel, hsession]
  cases panel with
  | false =>
    obtain ⟨g', hdraw, hsame⟩ := drawWorkspace_sameScreen mc hg hholds
    rw [if_neg Bool.false_ne_true, hdraw]
    exact ⟨_, rfl, hfollows, hsame, fun hpanel => absurd hpanel Bool.false_ne_true⟩
  | true =>
    obtain ⟨g', hdraw, hsame, hcolor⟩ := drawControl_shows mc hholds hcount hg hi hleft hrow hcol
      hcell
    rw [if_pos rfl, hdraw]
    refine ⟨_, rfl, hfollows, hsame, fun _ hnext => ?_⟩
    rw [← h.frame, ← hcolor]
    exact Screen.shown_swapBuffers (s := { k.screen with vga := g' }) (hsame.onScreen hg)
      (by rw [hsame.width]; exact hnext)

end Kernel

theorem redraws_le_press (d : Dialogue) (sc : Byte) : d.redraws ≤ (d.press sc).redraws := by
  rw [Dialogue.press]
  split
  · split
    · exact Nat.le_refl _
    · split
      · exact Nat.le_refl _
      · split <;> exact Nat.le_refl _
  · simp only
    split
    · exact Nat.le_succ _
    · split <;> exact Nat.le_succ _

theorem redraws_le_run (d : Dialogue) (scancodes : List Byte) :
    d.redraws ≤ (d.run scancodes).redraws := by
  induction scancodes generalizing d with
  | nil => exact Nat.le_refl _
  | cons sc scancodes ih => exact Nat.le_trans (redraws_le_press d sc) (ih (d.press sc))

/-- Until the counter leaves int, no turn comes too late. -/
theorem guarded_redraws {d : Dialogue} {scancodes : List Byte} {n : Nat}
    (h : (d.run scancodes).redraws + n < 2 ^ 31) :
    Guarded Dialogue.press (fun d _ => d.redraws + n < 2 ^ 31) d scancodes := by
  induction scancodes generalizing d with
  | nil => trivial
  | cons sc scancodes ih =>
    have hle := redraws_le_run d (sc :: scancodes)
    exact ⟨by omega, ih h⟩

namespace Kernel

/-- An evaluation build with one block in its cache. -/
def evaluationMachine : Machine where
  build := .evaluation
  font8x8Basic := fun _ _ => 0xFF
  vmxReady := true
  manifold := singleResident
  stack := fun _ _ => (fun _ => 0, fun _ => 0)
  fuel := 2 ^ 29 + 1
  enough := Nat.lt_succ_self _

end Kernel

end

end EmergenceOS.Boot
