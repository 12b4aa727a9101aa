/- Module: EmergenceOS/Boot/HypercubeFrame
   digest: How long the frame counter of the shell can run before the cube leaves its table. -/

import EmergenceOS.Hal.SpinningCube
import EmergenceOS.Lib.GuardedRun

/-!
Every redraw of the shell counts, whether it draws the cube or not. At 100 redraws a
second the counter leaves the range of int after about 248 days.
-/

set_option autoImplicit false
set_option relaxedAutoImplicit false

namespace EmergenceOS.Boot

open EmergenceOS.Lib.GuardedRun EmergenceOS.Hal.Graphics

/-- The globals that decide which frame of the cube is drawn. -/
structure Display where
  hypercubeFrame : BitVec 32
  inControlPanel : Bool

inductive DisplayEvent
  /-- kmain sets g_in_control_panel and calls sovereign_shell. -/
  | enter (inControlPanel : Bool)
  /-- One turn of the loop of sovereign_shell, up to the increment. -/
  | redraw
  deriving DecidableEq

namespace Display

def step (d : Display) : DisplayEvent → Display
  | .enter inControlPanel => { d with inControlPanel }
  | .redraw => { d with hypercubeFrame := d.hypercubeFrame + 1 }

def start : Display := ⟨0, false⟩

/-- The argument of draw_spinning_cube, if the event calls it: the counter as an int. -/
def drawnFrame (d : Display) : DisplayEvent → Option Int
  | .enter _ => none
  | .redraw => if d.inControlPanel then some d.hypercubeFrame.toInt else none

def DrawsSoundly (d : Display) (e : DisplayEvent) : Prop :=
  ∀ frame, d.drawnFrame e = some frame → FrameSound frame

/-- When the cube is drawn, the counter is far enough from the end of int. -/
def CountsInInt (d : Display) (e : DisplayEvent) : Prop :=
  e = .redraw → d.inControlPanel = true → d.hypercubeFrame.toNat + 16 < 2 ^ 31

theorem frameSound_toInt_iff (n : BitVec 32) : FrameSound n.toInt ↔ n.toNat + 16 < 2 ^ 31 := by
  rw [frameSound_iff, BitVec.toInt_eq_toNat_cond]
  have hlt := n.isLt
  split <;> omega

theorem drawsSoundly_iff_countsInInt (d : Display) (e : DisplayEvent) :
    d.DrawsSoundly e ↔ d.CountsInInt e := by
  unfold DrawsSoundly CountsInInt drawnFrame
  cases e with
  | enter inControlPanel =>
    exact iff_of_true (fun _ h => by cases h) (fun h => by cases h)
  | redraw =>
    cases d.inControlPanel with
    | false => exact iff_of_true (fun _ h => by cases h) (fun _ h => by cases h)
    | true =>
      rw [← frameSound_toInt_iff]
      constructor
      · intro h _ _
        exact h _ rfl
      · intro h frame hframe
        obtain rfl := Option.some.inj hframe
        exact h rfl rfl

theorem foldl_redraw (d : Display) (n : Nat) :
    (List.replicate n DisplayEvent.redraw).foldl step d =
      { d with hypercubeFrame := d.hypercubeFrame + BitVec.ofNat 32 n } := by
  induction n generalizing d with
  | zero => rw [List.replicate_zero, List.foldl_nil, BitVec.add_zero]
  | succ n ih =>
    have hsucc : d.hypercubeFrame + 1 + BitVec.ofNat 32 n =
        d.hypercubeFrame + BitVec.ofNat 32 (n + 1) := by
      rw [Nat.add_comm n 1, BitVec.ofNat_add, ← BitVec.add_assoc]
      rfl
    rw [List.replicate_succ, List.foldl_cons, ih, step, hsucc]

/-- The counter starts at zero, so this many redraws are never too many. -/
theorem countsInInt_of_count {d : Display} {es : List DisplayEvent}
    (h : d.hypercubeFrame.toNat + es.count .redraw + 15 < 2 ^ 31) :
    Guarded step CountsInInt d es := by
  induction es generalizing d with
  | nil => trivial
  | cons e es ih =>
    cases e with
    | enter inControlPanel =>
      rw [List.count_cons_of_ne (by rintro ⟨⟩)] at h
      refine ⟨fun he => ?_, ih h⟩
      cases he
    | redraw =>
      rw [List.count_cons_self] at h
      refine ⟨fun _ _ => by omega, ih ?_⟩
      have hone : (1 : BitVec 32).toNat = 1 := rfl
      simp only [step, BitVec.toNat_add, hone]
      omega

/-- In every run the cube is drawn soundly at every redraw exactly if no redraw in the control
panel comes too late. -/
theorem guarded_drawsSoundly_iff (d : Display) (es : List DisplayEvent) :
    Guarded step DrawsSoundly d es ↔ Guarded step CountsInInt d es :=
  guarded_congr drawsSoundly_iff_countsInInt

/-- After 2^31 redraws of the workspace the first one of the control panel reads before the
table. -/
theorem not_guarded_late_panel : ¬Guarded step DrawsSoundly start
    ((List.replicate (2 ^ 31) .redraw ++ [.enter true]) ++ [.redraw]) := by
  intro h
  have hlast := h.last
  rw [List.foldl_append, foldl_redraw] at hlast
  have hsound : FrameSound (-2 ^ 31) := hlast _ rfl
  exact absurd ((frameSound_iff _).mp hsound).1 (by decide)

end Display

end EmergenceOS.Boot
