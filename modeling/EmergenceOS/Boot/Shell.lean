/- Module: EmergenceOS/Boot/Shell
   digest: The command line of the shell is printable text and zeros at every redraw. -/

import EmergenceOS.Hal.Graphics
import EmergenceOS.Hal.Keyboard

/-!
All reads and stores of cmd are checked against its 128 bytes. The last byte is never
written with a character, so there is a terminator for whoever reads on.
-/

set_option autoImplicit false
set_option relaxedAutoImplicit false

namespace EmergenceOS.Boot

open EmergenceOS.Lib.Bytes EmergenceOS.Lib.GuardedRun
open EmergenceOS.Hal.Graphics EmergenceOS.Hal.Keyboard

/-- The locals of sovereign_shell and the globals it changes; the last field counts the calls of
fold_manifold. -/
structure Shell where
  cmd : Fin 128 → Byte
  cmdIdx : Int
  inShell : Bool
  focus : Fin 3
  folds : Nat

namespace Shell

def keyTab : Byte := 0x0F

def scancodeToChar (scancode : Byte) : Byte :=
  if isRelease scancode then 0 else scancodeMap scancode

/-- cmd[i] = c, if that is inside the array. -/
def put (cmd : Fin 128 → Byte) (i : Int) (c : Byte) : Option (Fin 128 → Byte) :=
  if h : 0 ≤ i ∧ i < 128 then some (Function.update cmd ⟨i.toNat, by omega⟩ c) else none

/-- The rest of the loop of kstarts_with. No result if it reads outside of the array. -/
def kstartsWith (str : Fin 128 → Byte) : List Byte → Nat → Option Bool
  | [], _ => some true
  | c :: cs, i =>
    if h : i < 128 then
      if str ⟨i, h⟩ ≠ c then some false else kstartsWith str cs (i + 1)
    else none

/-- The glyphs that print_at draws from str[i] on. No result if it reads outside of the array or
of the font. -/
def printAt (str : Fin 128 → Byte) (i : Nat) : Option (List (Fin 95)) :=
  if h : i < 128 then
    if str ⟨i, h⟩ = 0 then some []
    else if str ⟨i, h⟩ = 10 then printAt str (i + 1)
    else do
      let glyph ← glyphIndex (str ⟨i, h⟩)
      let glyphs ← printAt str (i + 1)
      return glyph :: glyphs
  else none
termination_by 128 - i

/-- The characters of "back" and "fold". -/
def back : List Byte := [98, 97, 99, 107]
def fold : List Byte := [102, 111, 108, 100]

/-- The command is done: newline or carriage return. -/
def enter (s : Shell) : Option Shell := do
  let cmd ← put s.cmd s.cmdIdx 0
  if ← kstartsWith cmd back 0 then return { s with cmd, inShell := false }
  let isFold ← kstartsWith cmd fold 0
  return { s with cmd := fun _ => 0, cmdIdx := 0, folds := if isFold then s.folds + 1 else s.folds }

/-- The loop body after a redraw, with what read_raw_scancode returned. -/
def handle (s : Shell) (sc : Byte) : Option Shell :=
  if sc = 0 then some s
  else if sc = keyTab then some { s with focus := s.focus + 1 }
  else
    let c := scancodeToChar sc
    if c = 0 then some s
    else if c = 10 ∨ c = 13 then s.enter
    else if c = 8 ∧ s.cmdIdx > 0 then
      (put s.cmd (s.cmdIdx - 1) 0).map fun cmd => { s with cmd, cmdIdx := s.cmdIdx - 1 }
    else if s.cmdIdx < 127 ∧ c.toInt ≥ 32 then
      (put s.cmd s.cmdIdx c).map fun cmd => { s with cmd, cmdIdx := s.cmdIdx + 1 }
    else some s

/-- One turn of the loop: redraw, then handle a scancode. -/
def turn (s : Shell) (sc : Byte) : Option Shell :=
  if s.inShell then (printAt s.cmd 0).bind fun _ => s.handle sc else some s

/-- The shell as it begins, with an empty line. -/
def start (focus : Fin 3) : Shell := ⟨fun _ => 0, 0, true, focus, 0⟩

def run (s : Shell) (scancodes : List Byte) : Option Shell := scancodes.foldlM turn s

/-- Text of the line up to the index, zeros from there on. -/
structure Clean (s : Shell) : Prop where
  lower : 0 ≤ s.cmdIdx
  upper : s.cmdIdx ≤ 127
  text : ∀ i : Fin 128, (i.val : Int) < s.cmdIdx → (glyphIndex (s.cmd i)).isSome
  zeros : ∀ i : Fin 128, s.cmdIdx ≤ i.val → s.cmd i = 0

theorem clean_empty (inShell : Bool) (focus : Fin 3) (folds : Nat) :
    Clean ⟨fun _ => 0, 0, inShell, focus, folds⟩ := by
  refine ⟨Int.le_refl 0, Int.natCast_nonneg 127, fun i hi => ?_, fun i _ => rfl⟩
  exact absurd hi (Int.not_lt.mpr (Int.natCast_nonneg i.val))

theorem put_eq {cmd : Fin 128 → Byte} {i : Int} (c : Byte) (j : Fin 128) (h : i = j.val) :
    put cmd i c = some (Function.update cmd j c) := by
  subst h
  have hj : 0 ≤ (j.val : Int) ∧ (j.val : Int) < 128 := by omega
  rw [put, dif_pos hj]
  rfl

/-- Reading a short word stays inside the array, whatever it holds. -/
theorem kstartsWith_isSome (str : Fin 128 → Byte) (cs : List Byte) (i : Nat)
    (h : i + cs.length ≤ 128) : ∃ starts, kstartsWith str cs i = some starts := by
  induction cs generalizing i with
  | nil => exact ⟨true, rfl⟩
  | cons c cs ih =>
    rw [List.length_cons] at h
    rw [kstartsWith, dif_pos (by omega)]
    split
    · exact ⟨false, rfl⟩
    · exact ih (i + 1) (by omega)

/-- A key that types a character types one of the font. -/
theorem glyphIndex_scancodeMap {scancode : Byte} (h : 32 ≤ (scancodeMap scancode).toInt) :
    (glyphIndex (scancodeMap scancode)).isSome := by
  have hle := scancodeMap_le scancode
  rw [toInt_scancodeMap] at h
  rw [glyphIndex_isSome, toInt_scancodeMap]
  omega

section
variable {s : Shell}

/-- The index is a place of the array. -/
theorem Clean.place (h : Clean s) : ∃ j : Fin 128, s.cmdIdx = j.val := by
  have hlower := h.lower
  have hupper := h.upper
  exact ⟨⟨s.cmdIdx.toNat, by omega⟩, (Int.toNat_of_nonneg hlower).symm⟩

theorem Clean.printAt (h : Clean s) (i : Nat) (hi : (i : Int) ≤ s.cmdIdx) :
    ∃ glyphs, Shell.printAt s.cmd i = some glyphs := by
  have hupper := h.upper
  obtain ⟨n, hn⟩ : ∃ n : Nat, s.cmdIdx = i + n := ⟨(s.cmdIdx - i).toNat, by omega⟩
  induction n generalizing i with
  | zero =>
    have hzero : s.cmd ⟨i, by omega⟩ = 0 := h.zeros _ (by rw [hn]; exact Int.le_refl _)
    rw [Shell.printAt, dif_pos (by omega), if_pos hzero]
    exact ⟨[], rfl⟩
  | succ n ih =>
    obtain ⟨glyphs, hglyphs⟩ := ih (i + 1) (by omega) (by omega)
    have htext := h.text ⟨i, by omega⟩ (by rw [hn]; exact Int.lt_add_of_pos_right _ (by omega))
    obtain ⟨glyph, hglyph⟩ := Option.isSome_iff_exists.mp htext
    rw [Shell.printAt, dif_pos (by omega), hglyph, hglyphs]
    split
    · exact ⟨[], rfl⟩
    · split
      · exact ⟨glyphs, rfl⟩
      · exact ⟨glyph :: glyphs, rfl⟩

/-- Newline stops the shell or leaves an empty line. -/
theorem Clean.enter (h : Clean s) : ∃ s', s.enter = some s' ∧ (s'.inShell → Clean s') := by
  obtain ⟨j, hj⟩ := h.place
  obtain ⟨isBack, hback⟩ := kstartsWith_isSome (Function.update s.cmd j 0) back 0 (by decide)
  obtain ⟨isFold, hfold⟩ := kstartsWith_isSome (Function.update s.cmd j 0) fold 0 (by decide)
  rw [Shell.enter, put_eq 0 j hj, Option.bind_eq_bind, Option.bind_some, hback]
  cases isBack with
  | true => exact ⟨_, rfl, fun hin => absurd hin Bool.false_ne_true⟩
  | false =>
    simp only [Option.bind_eq_bind, Option.bind_some, hfold, Bool.false_eq_true, if_false]
    exact ⟨_, rfl, fun _ => clean_empty _ _ _⟩

/-- Backspace behind some text. -/
theorem Clean.erase (h : Clean s) (hpos : s.cmdIdx > 0) {j : Fin 128}
    (hj : s.cmdIdx - 1 = j.val) :
    Clean { s with cmd := Function.update s.cmd j 0, cmdIdx := s.cmdIdx - 1 } := by
  have hupper := h.upper
  refine ⟨by simp only; omega, by simp only; omega, fun i hi => ?_, fun i hi => ?_⟩
  · simp only at hi ⊢
    rw [Function.update_of_ne (by omega)]
    exact h.text i (by omega)
  · simp only at hi ⊢
    by_cases hij : i = j
    · rw [hij, Function.update_self]
    · rw [Function.update_of_ne hij]
      exact h.zeros i (by omega)

/-- A character with a glyph, while there is room for it and the terminator. -/
theorem Clean.append (h : Clean s) (hroom : s.cmdIdx < 127) {c : Byte}
    (hc : (glyphIndex c).isSome) {j : Fin 128} (hj : s.cmdIdx = j.val) :
    Clean { s with cmd := Function.update s.cmd j c, cmdIdx := s.cmdIdx + 1 } := by
  have hlower := h.lower
  refine ⟨by simp only; omega, by simp only; omega, fun i hi => ?_, fun i hi => ?_⟩
  · simp only at hi ⊢
    by_cases hij : i = j
    · rw [hij, Function.update_self]
      exact hc
    · rw [Function.update_of_ne hij]
      exact h.text i (by omega)
  · simp only at hi ⊢
    rw [Function.update_of_ne (by omega)]
    exact h.zeros i (by omega)

theorem Clean.handle (h : Clean s) (sc : Byte) :
    ∃ s', s.handle sc = some s' ∧ (s'.inShell → Clean s') := by
  obtain ⟨j, hj⟩ := h.place
  unfold Shell.handle
  by_cases hnone : sc = 0
  · rw [if_pos hnone]
    exact ⟨s, rfl, fun _ => h⟩
  rw [if_neg hnone]
  by_cases htab : sc = keyTab
  · rw [if_pos htab]
    exact ⟨_, rfl, fun _ => ⟨h.lower, h.upper, h.text, h.zeros⟩⟩
  rw [if_neg htab]
  simp only
  by_cases hchar : scancodeToChar sc = 0
  · rw [if_pos hchar]
    exact ⟨s, rfl, fun _ => h⟩
  rw [if_neg hchar]
  have hmap : scancodeToChar sc = scancodeMap sc := by
    unfold scancodeToChar at hchar ⊢
    split
    · rename_i hrel
      exact absurd (if_pos hrel) hchar
    · rfl
  by_cases hline : scancodeToChar sc = 10 ∨ scancodeToChar sc = 13
  · rw [if_pos hline]
    exact h.enter
  rw [if_neg hline]
  by_cases hback : scancodeToChar sc = 8 ∧ s.cmdIdx > 0
  · have hj' : s.cmdIdx - 1 = ((⟨j.val - 1, by omega⟩ : Fin 128)).val := by
      simp only
      omega
    rw [if_pos hback, put_eq 0 _ hj', Option.map_some]
    exact ⟨_, rfl, fun _ => h.erase hback.2 hj'⟩
  rw [if_neg hback]
  by_cases htype : s.cmdIdx < 127 ∧ (scancodeToChar sc).toInt ≥ 32
  · rw [if_pos htype, put_eq _ j hj, Option.map_some]
    rw [hmap] at htype ⊢
    exact ⟨_, rfl, fun _ => h.append htype.1 (glyphIndex_scancodeMap htype.2) hj⟩
  · rw [if_neg htype]
    exact ⟨s, rfl, fun _ => h⟩

theorem Clean.turn (h : s.inShell → Clean s) (sc : Byte) :
    ∃ s', s.turn sc = some s' ∧ (s'.inShell → Clean s') := by
  unfold Shell.turn
  split
  · rename_i hin
    obtain ⟨glyphs, hglyphs⟩ := (h hin).printAt 0 (h hin).lower
    rw [hglyphs, Option.bind_some]
    exact (h hin).handle sc
  · exact ⟨s, rfl, h⟩

end

/-- No read or store of the shell leaves its array, and as long as it runs the line is clean at
every redraw, which finds all its glyphs. -/
theorem run_clean (focus : Fin 3) (scancodes : List Byte) :
    ∃ s, (start focus).run scancodes = some s ∧
      (s.inShell → Clean s ∧ ∃ glyphs, printAt s.cmd 0 = some glyphs) := by
  obtain ⟨s, hrun, hclean⟩ := foldlM_some (P := fun s => s.inShell → Clean s)
    (fun _ sc _ h => Clean.turn h sc) (fun _ => clean_empty true focus 0)
  exact ⟨s, hrun, fun hin => ⟨hclean hin, (hclean hin).printAt 0 (hclean hin).lower⟩⟩

end Shell

end EmergenceOS.Boot
