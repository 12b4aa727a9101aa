/- Module: EmergenceOS/Boot/Session
   digest: From the menu on, the kernel follows a dialogue of typed lines. -/

import EmergenceOS.Boot.Shell
import EmergenceOS.Mm.DynamicAllocator

/-!
The loops of kmain and sovereign_shell, once the manifold is set up. What is drawn is left
out, but for the line that is typed; so is the wait for the next timer pulse.
-/

set_option autoImplicit false
set_option relaxedAutoImplicit false

namespace EmergenceOS.Boot

open EmergenceOS.Lib.Bytes EmergenceOS.Lib.GuardedRun EmergenceOS.Mm
open EmergenceOS.Hal.Graphics EmergenceOS.Hal.Keyboard Shell

def keyUp : Byte := 0x48
def keyDown : Byte := 0x50

/-- The locals of the loops of kmain and the globals they change. -/
structure Session where
  shell : Shell
  inMenu : Bool
  selection : Int
  inControlPanel : Bool
  hypercubeFrame : BitVec 32

namespace Session

/-- The head of the outer loop of kmain. -/
def toMenu (s : Session) : Session :=
  { s with
    shell := { s.shell with inShell := true }
    inMenu := true
    inControlPanel := false
    selection := 0 }

/-- The focus is on the console at first. -/
def boot : Session := toMenu ⟨Shell.start ⟨2, by decide⟩, true, 0, false, 0⟩

/-- One turn of the menu loop, or of the loop of sovereign_shell, with what read_raw_scancode
returned. -/
def turn (s : Session) (sc : Byte) : Option Session :=
  if s.inMenu then
    let selection := if sc = keyUp then 0 else s.selection
    let selection := if sc = keyDown then 1 else selection
    if sc = 0x1C then
      some { s with
        selection
        inMenu := false
        inControlPanel := decide (selection ≠ 0)
        shell := { s.shell with cmd := fun _ => 0, cmdIdx := 0 } }
    else some { s with selection }
  else do
    let shell ← s.shell.turn sc
    let s := { s with shell, hypercubeFrame := s.hypercubeFrame + 1 }
    return if shell.inShell then s else s.toMenu

def run (s : Session) (scancodes : List Byte) : Option Session := scancodes.foldlM turn s

/-- g_res after the calls of fold_manifold so far. -/
def resources (s : Session) : DynamicResourceAllocator :=
  (DynamicResourceAllocator.new 0x40000000).run (List.replicate s.shell.folds .foldManifold)

end Session

/-! The dialogue that is meant. -/

inductive Mode
  | menu (second : Bool)
  | line (panel : Bool) (text : List Byte)

/-- What the user has done: where they are, the region in focus, how often the shell was redrawn
and the lines that were entered. -/
structure Dialogue where
  mode : Mode
  focus : Fin 3
  redraws : Nat
  entered : List (List Byte)

namespace Dialogue

/-- What a character does to the line that is typed. -/
def edit (text : List Byte) (c : Byte) : List Byte :=
  if c = 8 then text.dropLast
  else if 32 ≤ c.toInt ∧ text.length < 127 then text ++ [c]
  else text

def press (d : Dialogue) (sc : Byte) : Dialogue :=
  match d.mode with
  | .menu second =>
    if sc = keyUp then { d with mode := .menu false }
    else if sc = keyDown then { d with mode := .menu true }
    else if sc = 0x1C then { d with mode := .line second [] }
    else d
  | .line panel text =>
    let d := { d with redraws := d.redraws + 1 }
    if sc = keyTab then { d with focus := ⟨(d.focus.val + 1) % 3, Nat.mod_lt _ (by decide)⟩ }
    else if scancodeToChar sc = 10 ∨ scancodeToChar sc = 13 then
      { d with
        entered := d.entered ++ [text]
        mode := if back.isPrefixOf text then .menu false else .line panel [] }
    else { d with mode := .line panel (edit text (scancodeToChar sc)) }

def boot : Dialogue := ⟨.menu false, ⟨2, by decide⟩, 0, []⟩

def run (d : Dialogue) (scancodes : List Byte) : Dialogue := scancodes.foldl press d

/-- The lines that fold the manifold. -/
def folded (d : Dialogue) : Nat := d.entered.countP fun text => fold.isPrefixOf text

end Dialogue

/-- The shell runs and the line in its array is the text. -/
structure Holds (s : Shell) (text : List Byte) : Prop where
  running : s.inShell = true
  clean : Clean s
  index : s.cmdIdx = text.length
  text : ∀ i : Fin 128, i.val < text.length → text[i.val]? = some (s.cmd i)

/-- The kernel is where the dialogue is, and the glyphs it draws are those of the text. -/
structure Follows (s : Session) (d : Dialogue) : Prop where
  running : s.shell.inShell = true
  mode : match d.mode with
    | .menu second => s.inMenu = true ∧ s.selection = if second then 1 else 0
    | .line panel text => s.inMenu = false ∧ s.inControlPanel = panel ∧ Holds s.shell text ∧
        Shell.printAt s.shell.cmd 0 = text.mapM glyphIndex
  focus : s.shell.focus = d.focus
  frame : s.hypercubeFrame = BitVec.ofNat 32 d.redraws
  folds : s.shell.folds = d.folded

section
variable {s : Shell} {text : List Byte}

theorem Holds.length_le (h : Holds s text) : text.length ≤ 127 := by
  have hupper := h.clean.upper
  rw [h.index] at hupper
  omega

theorem Holds.beyond (h : Holds s text) (i : Fin 128) (hi : text.length ≤ i.val) :
    s.cmd i = 0 := by
  apply h.clean.zeros
  rw [h.index]
  omega

/-- A character of the line. -/
theorem Holds.drop (h : Holds s text) (i : Fin 128) (hi : i.val < text.length) :
    text.drop i.val = s.cmd i :: text.drop (i.val + 1) := by
  rw [List.drop_eq_getElem_cons hi]
  have hc := h.text i hi
  rw [List.getElem?_eq_getElem hi] at hc
  rw [Option.some.inj hc]

/-- The comparison with a word finds out whether the line starts with it. -/
theorem Holds.kstartsWith (h : Holds s text) (cs : List Byte) (hcs : ∀ c ∈ cs, c ≠ 0) (i : Nat)
    (hi : i + cs.length ≤ 128) :
    Shell.kstartsWith s.cmd cs i = some (cs.isPrefixOf (text.drop i)) := by
  induction cs generalizing i with
  | nil => rfl
  | cons c cs ih =>
    rw [List.length_cons] at hi
    have hi128 : i < 128 := by omega
    have hrest := ih (fun c' hc' => hcs c' (List.mem_cons_of_mem _ hc')) (i + 1) (by omega)
    rw [Shell.kstartsWith, dif_pos hi128]
    by_cases hlt : i < text.length
    · rw [h.drop ⟨i, hi128⟩ hlt, List.isPrefixOf_cons_cons]
      by_cases hc : s.cmd ⟨i, hi128⟩ = c
      · rw [if_neg (not_not_intro hc), hrest, hc, beq_self_eq_true, Bool.true_and]
      · rw [if_pos hc, beq_eq_false_iff_ne.mpr (Ne.symm hc), Bool.false_and]
    · have hzero := h.beyond ⟨i, hi128⟩ (by simp only; omega)
      rw [hzero, if_pos (hcs c List.mem_cons_self).symm, List.drop_eq_nil_of_le (by omega)]
      rfl

theorem Holds.printAt (h : Holds s text) (i : Nat) (hi : i ≤ text.length) :
    Shell.printAt s.cmd i = (text.drop i).mapM glyphIndex := by
  have hlen := h.length_le
  obtain ⟨n, hn⟩ : ∃ n, text.length = i + n := ⟨text.length - i, by omega⟩
  have hi128 : i < 128 := by omega
  induction n generalizing i with
  | zero =>
    have hzero := h.beyond ⟨i, hi128⟩ (by simp only; omega)
    rw [Shell.printAt, dif_pos hi128, if_pos hzero, List.drop_eq_nil_of_le (by omega)]
    rfl
  | succ n ih =>
    have hglyph := h.clean.text ⟨i, hi128⟩ (by rw [h.index]; simp only; omega)
    have hchar := (glyphIndex_isSome _).mp hglyph
    have hne : s.cmd ⟨i, hi128⟩ ≠ 0 ∧ s.cmd ⟨i, hi128⟩ ≠ 10 := by
      constructor <;> intro he <;> rw [he] at hchar <;> exact absurd hchar (by decide)
    have hrest := ih (i + 1) (by omega) (by omega) (by omega)
    rw [Shell.printAt, dif_pos hi128, if_neg hne.1, if_neg hne.2, hrest,
      h.drop ⟨i, hi128⟩ (by simp only; omega), List.mapM_cons]

theorem holds_empty (focus : Fin 3) (folds : Nat) : Holds ⟨fun _ => 0, 0, true, focus, folds⟩ [] :=
  ⟨rfl, clean_empty true focus folds, rfl, fun _ hi => absurd hi (Nat.not_lt_zero _)⟩

/-- Neither word starts with the other. -/
theorem not_fold_of_back (h : back.isPrefixOf text = true) : fold.isPrefixOf text = false := by
  cases text with
  | nil => rfl
  | cons c cs =>
    rw [back, List.isPrefixOf_cons_cons, Bool.and_eq_true, beq_iff_eq] at h
    rw [fold, List.isPrefixOf_cons_cons, ← h.1]
    rfl

theorem Holds.enter (h : Holds s text) :
    ∃ s', s.enter = some s' ∧ s'.focus = s.focus ∧
      s'.folds = s.folds + (if fold.isPrefixOf text then 1 else 0) ∧
      if back.isPrefixOf text then s'.inShell = false else Holds s' [] := by
  obtain ⟨j, hj⟩ := h.clean.place
  have hkept : Function.update s.cmd j 0 = s.cmd := by
    rw [← h.clean.zeros j (le_of_eq hj)]
    exact Function.update_eq_self j s.cmd
  have hback := h.kstartsWith back (by decide) 0 (by decide)
  have hfold := h.kstartsWith fold (by decide) 0 (by decide)
  rw [List.drop_zero] at hback hfold
  rw [Shell.enter, put_eq 0 j hj, hkept, Option.bind_eq_bind, Option.bind_some, hback]
  cases hb : back.isPrefixOf text with
  | true =>
    rw [not_fold_of_back hb]
    exact ⟨_, rfl, rfl, rfl, rfl⟩
  | false =>
    simp only [Option.bind_eq_bind, Option.bind_some, hfold, Bool.false_eq_true, if_false]
    refine ⟨_, rfl, rfl, ?_, ?_⟩
    · simp only
      split <;> rfl
    · have hempty := holds_empty s.focus (if fold.isPrefixOf text then s.folds + 1 else s.folds)
      rw [h.running]
      exact hempty

theorem Holds.erase (h : Holds s text) (hpos : s.cmdIdx > 0) {j : Fin 128}
    (hj : s.cmdIdx - 1 = j.val) :
    Holds { s with cmd := Function.update s.cmd j 0, cmdIdx := s.cmdIdx - 1 } text.dropLast := by
  have hindex := h.index
  refine ⟨h.running, h.clean.erase hpos hj, ?_, fun i hi => ?_⟩
  · rw [List.length_dropLast]
    simp only
    omega
  · rw [List.length_dropLast] at hi
    simp only
    rw [Function.update_of_ne (by omega), List.getElem?_dropLast, if_pos hi]
    exact h.text i (by omega)

theorem Holds.append (h : Holds s text) (hroom : s.cmdIdx < 127) {c : Byte}
    (hc : (glyphIndex c).isSome) {j : Fin 128} (hj : s.cmdIdx = j.val) :
    Holds { s with cmd := Function.update s.cmd j c, cmdIdx := s.cmdIdx + 1 } (text ++ [c]) := by
  have hindex := h.index
  refine ⟨h.running, h.clean.append hroom hc hj, ?_, fun i hi => ?_⟩
  · rw [List.length_append, List.length_singleton]
    simp only
    omega
  · rw [List.length_append, List.length_singleton] at hi
    simp only
    by_cases hij : i = j
    · rw [hij, Function.update_self, List.getElem?_append_right (by omega),
        show j.val - text.length = 0 by omega]
      rfl
    · rw [Function.update_of_ne hij, List.getElem?_append_left (by omega)]
      exact h.text i (by omega)

theorem Holds.handle_newline {sc : Byte} (htab : sc ≠ keyTab)
    (hline : scancodeToChar sc = 10 ∨ scancodeToChar sc = 13) : s.handle sc = s.enter := by
  have hchar : scancodeToChar sc ≠ 0 := by
    intro hzero
    rw [hzero] at hline
    exact absurd hline (by decide)
  have hsc : sc ≠ 0 := by
    intro hzero
    rw [hzero] at hchar
    exact hchar rfl
  rw [Shell.handle, if_neg hsc, if_neg htab]
  simp only
  rw [if_neg hchar, if_pos hline]

/-- Any other key but the tabulator edits the line. -/
theorem Holds.handle_edit (h : Holds s text) {sc : Byte} (htab : sc ≠ keyTab)
    (hline : ¬(scancodeToChar sc = 10 ∨ scancodeToChar sc = 13)) :
    ∃ s', s.handle sc = some s' ∧ s'.focus = s.focus ∧ s'.folds = s.folds ∧
      Holds s' (Dialogue.edit text (scancodeToChar sc)) := by
  obtain ⟨j, hj⟩ := h.clean.place
  have hindex := h.index
  have hsame {c : Byte} (hc : c ≠ 8 ∨ text = []) (hfull : ¬(s.cmdIdx < 127 ∧ c.toInt ≥ 32)) :
      Dialogue.edit text c = text := by
    rw [Dialogue.edit]
    by_cases h8 : c = 8
    · rw [if_pos h8, hc.resolve_left (not_not_intro h8)]
      rfl
    · rw [if_neg h8, if_neg fun hroom => hfull ⟨by omega, hroom.1⟩]
  unfold Shell.handle
  by_cases hchar : scancodeToChar sc = 0
  · have hedit : Dialogue.edit text (scancodeToChar sc) = text := by
      rw [hchar]
      exact hsame (Or.inl (by decide)) fun hfull => absurd hfull.2 (by decide)
    rw [if_neg htab, hedit]
    simp only
    rw [if_pos hchar]
    refine ⟨s, ?_, rfl, rfl, h⟩
    split <;> rfl
  have hsc : sc ≠ 0 := by
    intro hzero
    rw [hzero] at hchar
    exact hchar rfl
  rw [if_neg hsc, if_neg htab]
  simp only
  rw [if_neg hchar, if_neg hline]
  by_cases hback : scancodeToChar sc = 8 ∧ s.cmdIdx > 0
  · have hj' : s.cmdIdx - 1 = ((⟨j.val - 1, by omega⟩ : Fin 128)).val := by
      simp only
      omega
    rw [if_pos hback, put_eq 0 _ hj', Option.map_some, Dialogue.edit, if_pos hback.1]
    exact ⟨_, rfl, rfl, rfl, h.erase hback.2 hj'⟩
  rw [if_neg hback]
  by_cases htype : s.cmdIdx < 127 ∧ (scancodeToChar sc).toInt ≥ 32
  · have hglyph : (glyphIndex (scancodeToChar sc)).isSome := by
      unfold scancodeToChar at htype ⊢
      split
      · rename_i hrel
        rw [if_pos hrel] at htype
        exact absurd htype.2 (by decide)
      · rename_i hrel
        rw [if_neg hrel] at htype
        exact glyphIndex_scancodeMap htype.2
    have h8 : scancodeToChar sc ≠ 8 := by
      intro he
      rw [he] at htype
      exact absurd htype.2 (by decide)
    rw [if_pos htype, put_eq _ j hj, Option.map_some, Dialogue.edit, if_neg h8,
      if_pos ⟨htype.2, by omega⟩]
    exact ⟨_, rfl, rfl, rfl, h.append htype.1 hglyph hj⟩
  · have hempty : scancodeToChar sc ≠ 8 ∨ text = [] := by
      by_cases h8 : scancodeToChar sc = 8
      · have hstart : ¬s.cmdIdx > 0 := fun hpos => hback ⟨h8, hpos⟩
        exact Or.inr (List.eq_nil_of_length_eq_zero (by omega))
      · exact Or.inl h8
    rw [if_neg htype, hsame hempty htype]
    exact ⟨s, rfl, rfl, rfl, h⟩

end

theorem folded_concat (d : Dialogue) (text : List Byte) (mode : Mode) (redraws : Nat) :
    Dialogue.folded ⟨mode, d.focus, redraws, d.entered ++ [text]⟩ =
      d.folded + if fold.isPrefixOf text then 1 else 0 := by
  rw [Dialogue.folded, Dialogue.folded, List.countP_append, List.countP_singleton]

section
variable {s : Session} {d : Dialogue}

theorem Follows.menu (h : Follows s d) {second : Bool} (hmode : d.mode = .menu second) (sc : Byte) :
    ∃ s', s.turn sc = some s' ∧ Follows s' (d.press sc) := by
  have hmenu := h.mode
  rw [hmode] at hmenu
  rw [Session.turn, if_pos hmenu.1, Dialogue.press, hmode]
  simp only
  by_cases hup : sc = keyUp
  · have hdown : sc ≠ keyDown := by
      rw [hup]
      decide
    have henter : sc ≠ 0x1C := by
      rw [hup]
      decide
    rw [if_neg henter, if_pos hup, if_neg hdown, if_pos hup]
    exact ⟨_, rfl, h.running, ⟨hmenu.1, rfl⟩, h.focus, h.frame, h.folds⟩
  rw [if_neg hup, if_neg hup]
  by_cases hdown : sc = keyDown
  · have henter : sc ≠ 0x1C := by
      rw [hdown]
      decide
    rw [if_neg henter, if_pos hdown, if_pos hdown]
    exact ⟨_, rfl, h.running, ⟨hmenu.1, rfl⟩, h.focus, h.frame, h.folds⟩
  rw [if_neg hdown, if_neg hdown]
  by_cases henter : sc = 0x1C
  · rw [if_pos henter, if_pos henter]
    have hempty : Holds ⟨fun _ => 0, 0, s.shell.inShell, s.shell.focus, s.shell.folds⟩ [] := by
      rw [h.running]
      exact holds_empty _ _
    refine ⟨_, rfl, h.running, ⟨rfl, ?_, hempty, hempty.printAt 0 (Nat.le_refl 0)⟩, h.focus,
      h.frame, h.folds⟩
    simp only [hmenu.2]
    cases second <;> rfl
  · rw [if_neg henter, if_neg henter]
    exact ⟨_, rfl, h.running, by rw [hmode]; exact hmenu, h.focus, h.frame, h.folds⟩

theorem frame_succ {frame : BitVec 32} {n : Nat} (h : frame = BitVec.ofNat 32 n) :
    frame + 1 = BitVec.ofNat 32 (n + 1) := by
  rw [h, BitVec.ofNat_add]
  rfl

theorem Follows.line (h : Follows s d) {panel : Bool} {text : List Byte}
    (hmode : d.mode = .line panel text) (sc : Byte) :
    ∃ s', s.turn sc = some s' ∧ Follows s' (d.press sc) := by
  have hline := h.mode
  rw [hmode] at hline
  obtain ⟨hmenu, hpanel, hholds, hglyphs⟩ := hline
  have hframe := frame_succ h.frame
  obtain ⟨glyphs, hdrawn⟩ := hholds.clean.printAt 0 hholds.clean.lower
  have hturn : s.shell.turn sc = s.shell.handle sc := by
    rw [Shell.turn, if_pos hholds.running, hdrawn, Option.bind_some]
  rw [Session.turn, hmenu, if_neg Bool.false_ne_true, hturn, Dialogue.press, hmode]
  simp only
  by_cases htab : sc = keyTab
  · have htab0 : sc ≠ 0 := by
      rw [htab]
      decide
    rw [if_pos htab, Shell.handle, if_neg htab0, if_pos htab, Option.bind_eq_bind,
      Option.bind_some]
    simp only
    rw [if_pos hholds.running]
    refine ⟨_, rfl, h.running, ⟨rfl, hpanel, ?_, hglyphs⟩, congrArg (· + 1) h.focus, hframe,
      h.folds⟩
    exact ⟨hholds.running, ⟨hholds.clean.lower, hholds.clean.upper, hholds.clean.text,
      hholds.clean.zeros⟩, hholds.index, hholds.text⟩
  rw [if_neg htab]
  by_cases hnewline : scancodeToChar sc = 10 ∨ scancodeToChar sc = 13
  · obtain ⟨shell, henter, hfocus, hfolds, hnext⟩ := hholds.enter
    rw [if_pos hnewline, Holds.handle_newline htab hnewline, henter, Option.bind_eq_bind,
      Option.bind_some]
    have hcount : shell.folds = d.folded + if fold.isPrefixOf text then 1 else 0 := by
      rw [hfolds, h.folds]
    cases hback : back.isPrefixOf text with
    | true =>
      rw [hback, if_pos rfl] at hnext
      simp only [if_pos, hnext, Bool.false_eq_true, if_false]
      exact ⟨_, rfl, rfl, ⟨rfl, rfl⟩, hfocus.trans h.focus, hframe,
        hcount.trans (folded_concat d text _ _).symm⟩
    | false =>
      rw [hback, if_neg Bool.false_ne_true] at hnext
      simp only [hnext.running, if_true, Bool.false_eq_true, if_false]
      exact ⟨_, rfl, hnext.running,
        ⟨rfl, hpanel, hnext, hnext.printAt 0 (Nat.le_refl 0)⟩, hfocus.trans h.focus, hframe,
        hcount.trans (folded_concat d text _ _).symm⟩
  · obtain ⟨shell, hhandle, hfocus, hfolds, hnext⟩ := hholds.handle_edit htab hnewline
    rw [if_neg hnewline, hhandle, Option.bind_eq_bind, Option.bind_some,
      if_pos hnext.running]
    exact ⟨_, rfl, hnext.running, ⟨rfl, hpanel, hnext, hnext.printAt 0 (Nat.zero_le _)⟩,
      hfocus.trans h.focus, hframe, hfolds.trans h.folds⟩

end

namespace Session

/-- Whatever is typed, the kernel follows the dialogue, no array is left, and the number of nodes
that the control panel shows is one more than the number of lines that fold. -/
theorem run_follows (scancodes : List Byte) :
    ∃ s, boot.run scancodes = some s ∧ Follows s (Dialogue.boot.run scancodes) ∧
      s.resources.getActiveNodes =
        BitVec.ofNat 32 (1 + (Dialogue.boot.run scancodes).folded) := by
  have hboot : Follows boot Dialogue.boot := ⟨rfl, ⟨rfl, rfl⟩, rfl, rfl, rfl⟩
  have hguard : Guarded Dialogue.press (fun _ _ => True) Dialogue.boot scancodes := by
    generalize Dialogue.boot = d
    induction scancodes generalizing d with
    | nil => exact trivial
    | cons sc scancodes ih => exact ⟨trivial, ih _⟩
  obtain ⟨s, hrun, hfollows⟩ := foldlM_simulates (R := Follows)
    (fun s d sc h _ => by
      cases hmode : d.mode with
      | menu second => exact h.menu hmode sc
      | line panel text => exact h.line hmode sc) hboot hguard
  refine ⟨s, hrun, hfollows, ?_⟩
  have hcount : (List.replicate s.shell.folds DynamicResourceAllocator.Request.foldManifold).countP
      DynamicResourceAllocator.Request.isFold = s.shell.folds := by
    rw [List.countP_replicate]
    rfl
  rw [resources, DynamicResourceAllocator.run_getActiveNodes, hcount, hfollows.folds,
    BitVec.ofNat_add]
  rfl

end Session

end EmergenceOS.Boot
