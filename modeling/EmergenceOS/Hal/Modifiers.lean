/- Module: EmergenceOS/Hal/Modifiers
   digest: The modifier bits against the keys that are held, over all ways to consume scancodes. -/

import EmergenceOS.Hal.Keyboard

/-!
Of the routines that read the data port only update_state looks for modifiers, and it has
one bit for two Shift keys. The second read of read_char and read_char_nonblock, and the
one of read_raw_scancode, leave the bits and the hotkey as they are.
-/

set_option autoImplicit false
set_option relaxedAutoImplicit false

namespace EmergenceOS.Hal.Keyboard

open EmergenceOS.Lib.Bytes EmergenceOS.Lib.GuardedRun

section
variable (kb : Keyboard)

/-! A poll finds a scancode or nothing. -/

def updateState : Option Byte → Keyboard
  | some scancode => kb.track scancode
  | none => kb

def readRawScancode (poll : Option Byte) : Byte × Keyboard := (poll.getD 0, kb)

def readCharNonblock (poll poll' : Option Byte) : Byte × Keyboard :=
  let kb := kb.updateState poll
  match poll' with
  | some scancode => if isRelease scancode then (0, kb) else (scancodeMap scancode, kb)
  | none => (0, kb)

/-- The turns of read_char with their two polls. No character while it has not returned; polls
after it has are not made. -/
def readChar (kb : Keyboard) : List (Option Byte × Option Byte) → Option Byte × Keyboard
  | [] => (none, kb)
  | (poll, poll') :: turns =>
    let kb := kb.updateState poll
    match poll' with
    | some scancode =>
      if isRelease scancode then kb.readChar turns
      else
        let c := scancodeMap scancode
        if 0 < c.toInt then (some c, kb) else kb.readChar turns
    | none => kb.readChar turns

def consumeHotkey : Bool × Keyboard := (kb.hotkeyTriggered, { kb with hotkeyTriggered := false })

end

inductive Call
  | updateState (poll : Option Byte)
  | readRawScancode (poll : Option Byte)
  | readCharNonblock (poll poll' : Option Byte)
  | readChar (turns : List (Option Byte × Option Byte))
  | consumeHotkey

def call (kb : Keyboard) : Call → Keyboard
  | .updateState poll => kb.updateState poll
  | .readRawScancode poll => (kb.readRawScancode poll).2
  | .readCharNonblock poll poll' => (kb.readCharNonblock poll poll').2
  | .readChar turns => (kb.readChar turns).2
  | .consumeHotkey => kb.consumeHotkey.2

/-- The keys that are held. -/
structure Held where
  ctrl : Bool
  alt : Bool
  leftShift : Bool
  rightShift : Bool

/-- What a press or release code does. -/
def Held.consume (h : Held) (scancode : Byte) : Held :=
  if scancode = 0x1D then { h with ctrl := true }
  else if scancode = 0x9D then { h with ctrl := false }
  else if scancode = 0x38 then { h with alt := true }
  else if scancode = 0xB8 then { h with alt := false }
  else if scancode = 0x2A then { h with leftShift := true }
  else if scancode = 0x36 then { h with rightShift := true }
  else if scancode = 0xAA then { h with leftShift := false }
  else if scancode = 0xB6 then { h with rightShift := false }
  else h

def Held.shift (h : Held) : Bool := h.leftShift || h.rightShift

def Held.all (h : Held) : Bool := h.ctrl && h.alt && h.shift

/-- Bit 0 for Ctrl, bit 1 for Alt, bit 2 for Shift. -/
def Held.bits (h : Held) : Byte :=
  (if h.ctrl then 0x01 else 0x00 : Byte) ||| (if h.alt then 0x02 else 0x00) |||
    (if h.shift then 0x04 else 0x00)

/-- A keyboard, the keys held according to all scancodes consumed, and whether E was pressed with
all three held since the hotkey was last asked for. -/
structure Monitor where
  keyboard : Keyboard
  held : Held
  due : Bool

/-- A scancode goes to update_state or to another reader, or the hotkey is asked for. -/
inductive Consumption
  | tracked (scancode : Byte)
  | untracked (scancode : Byte)
  | hotkey

/-- What a call consumes, in order. -/
def Call.consumptions : Call → List Consumption
  | .updateState poll => poll.toList.map .tracked
  | .readRawScancode poll => poll.toList.map .untracked
  | .readCharNonblock poll poll' => poll.toList.map .tracked ++ poll'.toList.map .untracked
  | .readChar turns => ofTurns turns
  | .consumeHotkey => [.hotkey]
where
  ofTurns : List (Option Byte × Option Byte) → List Consumption
    | [] => []
    | (poll, poll') :: turns => poll.toList.map .tracked ++ poll'.toList.map .untracked ++
        if (poll'.bind charOf).isSome then [] else ofTurns turns

namespace Monitor

def start : Monitor := ⟨⟨0, false⟩, ⟨false, false, false, false⟩, false⟩

def consume (s : Monitor) (scancode : Byte) : Monitor :=
  let held := s.held.consume scancode
  { s with held, due := s.due || (scancode == 0x12 && held.all) }

def step (s : Monitor) : Consumption → Monitor
  | .tracked scancode => { s.consume scancode with keyboard := s.keyboard.track scancode }
  | .untracked scancode => s.consume scancode
  | .hotkey => { s with keyboard := s.keyboard.consumeHotkey.2, due := false }

/-- The bits are those of the keys held, and the hotkey has fired if it was due. -/
structure InSync (s : Monitor) : Prop where
  bits : s.keyboard.modifiers = s.held.bits
  hotkey : s.keyboard.hotkeyTriggered = s.due

/-- update_state sees no Shift released while the other one is held. The other readers take no
code that changes what the bits say, and no E that makes the hotkey due. -/
def Harmless (s : Monitor) : Consumption → Prop
  | .tracked scancode =>
    ¬(scancode = 0xAA ∧ s.held.rightShift) ∧ ¬(scancode = 0xB6 ∧ s.held.leftShift)
  | .untracked scancode =>
    (scancode = 0x1D → s.held.ctrl) ∧ (scancode = 0x9D → ¬s.held.ctrl) ∧
    (scancode = 0x38 → s.held.alt) ∧ (scancode = 0xB8 → ¬s.held.alt) ∧
    (scancode = 0x2A ∨ scancode = 0x36 → s.held.shift) ∧
    (scancode = 0xAA → s.held.leftShift → s.held.rightShift) ∧
    (scancode = 0xB6 → s.held.rightShift → s.held.leftShift) ∧
    (scancode = 0x12 → s.held.all → s.due)
  | .hotkey => True

end Monitor

def modifierCodes : List Byte := [0x1D, 0x9D, 0x38, 0xB8, 0x2A, 0x36, 0xAA, 0xB6]

theorem Held.consume_other (h : Held) {scancode : Byte} (hother : scancode ∉ modifierCodes) :
    h.consume scancode = h := by
  simp only [modifierCodes, List.mem_cons, List.not_mem_nil, or_false, not_or] at hother
  obtain ⟨h1, h2, h3, h4, h5, h6, h7, h8⟩ := hother
  rw [Held.consume, if_neg h1, if_neg h2, if_neg h3, if_neg h4, if_neg h5, if_neg h6, if_neg h7,
    if_neg h8]

theorem track_other (kb : Keyboard) {scancode : Byte} (hother : scancode ∉ modifierCodes) :
    kb.track scancode = ⟨kb.modifiers,
      kb.hotkeyTriggered || (scancode == 0x12 && kb.modifiers == 0x07)⟩ := by
  simp only [modifierCodes, List.mem_cons, List.not_mem_nil, or_false, not_or] at hother
  obtain ⟨h1, h2, h3, h4, h5, h6, h7, h8⟩ := hother
  rw [track, if_neg h1, if_neg h2, if_neg h3, if_neg h4, if_neg (not_or.mpr ⟨h5, h6⟩),
    if_neg (not_or.mpr ⟨h7, h8⟩)]

theorem Held.bits_eq_seven (h : Held) : (h.bits == 0x07) = h.all := by
  obtain ⟨a, b, l, r⟩ := h
  revert a b l r
  decide

namespace Monitor

/-- A monitor in sync. -/
def synced (held : Held) (due : Bool) : Monitor := ⟨⟨held.bits, due⟩, held, due⟩

theorem eq_synced {s : Monitor} (h : InSync s) : s = synced s.held s.due := by
  obtain ⟨⟨m, t⟩, held, due⟩ := s
  obtain ⟨hbits, hhotkey⟩ := h
  simp only at hbits hhotkey
  rw [synced, hbits, hhotkey]

theorem inSync_iff {s : Monitor} : InSync s ↔
    s.keyboard.modifiers = s.held.bits ∧ s.keyboard.hotkeyTriggered = s.due :=
  ⟨fun h => ⟨h.bits, h.hotkey⟩, fun h => ⟨h.1, h.2⟩⟩

instance (s : Monitor) : Decidable (InSync s) := decidable_of_iff _ inSync_iff.symm

instance (s : Monitor) : ∀ e, Decidable (s.Harmless e)
  | .tracked _ => inferInstanceAs (Decidable (_ ∧ _))
  | .untracked _ => inferInstanceAs (Decidable (_ ∧ _))
  | .hotkey => inferInstanceAs (Decidable True)

/-- The modifier codes, for every combination of keys that are held. -/
theorem modifier_iff : ∀ scancode ∈ modifierCodes, ∀ ctrl alt leftShift rightShift due,
    (InSync ((synced ⟨ctrl, alt, leftShift, rightShift⟩ due).step (.tracked scancode)) ↔
      (synced ⟨ctrl, alt, leftShift, rightShift⟩ due).Harmless (.tracked scancode)) ∧
    (InSync ((synced ⟨ctrl, alt, leftShift, rightShift⟩ due).step (.untracked scancode)) ↔
      (synced ⟨ctrl, alt, leftShift, rightShift⟩ due).Harmless (.untracked scancode)) := by
  decide +kernel

theorem tracked_other (held : Held) (due : Bool) {scancode : Byte}
    (hother : scancode ∉ modifierCodes) :
    InSync ((synced held due).step (.tracked scancode)) := by
  refine ⟨?_, ?_⟩
  · simp only [step, consume, synced, track_other _ hother, held.consume_other hother]
  · simp only [step, consume, synced, track_other _ hother, held.consume_other hother,
      held.bits_eq_seven]

theorem untracked_other_iff (held : Held) (due : Bool) {scancode : Byte}
    (hother : scancode ∉ modifierCodes) :
    InSync ((synced held due).step (.untracked scancode)) ↔
      (scancode = 0x12 → held.all → due) := by
  rw [inSync_iff]
  simp only [step, consume, synced, held.consume_other hother, true_and]
  by_cases hE : scancode = 0x12
  · subst hE
    cases due <;> cases held.all <;> decide
  · simp only [beq_eq_false_iff_ne.mpr hE, hE, Bool.false_and, Bool.or_false, false_implies]

/-- One consumption keeps bits and hotkey right exactly if it is harmless. -/
theorem inSync_step_iff (s : Monitor) (e : Consumption) (h : InSync s) :
    InSync (s.step e) ↔ s.Harmless e := by
  rw [eq_synced h]
  cases e with
  | tracked scancode =>
    by_cases hcode : scancode ∈ modifierCodes
    · exact (modifier_iff scancode hcode _ _ _ _ _).1
    · refine iff_of_true (tracked_other _ _ hcode) ⟨?_, ?_⟩
      · rintro ⟨rfl, -⟩
        exact hcode (by decide)
      · rintro ⟨rfl, -⟩
        exact hcode (by decide)
  | untracked scancode =>
    by_cases hcode : scancode ∈ modifierCodes
    · exact (modifier_iff scancode hcode _ _ _ _ _).2
    · rw [untracked_other_iff _ _ hcode]
      simp only [modifierCodes, List.mem_cons, List.not_mem_nil, or_false, not_or] at hcode
      obtain ⟨h1, h2, h3, h4, h5, h6, h7, h8⟩ := hcode
      simp only [Harmless, h1, h2, h3, h4, h5, h6, h7, h8, false_implies, or_self, true_and]
      rfl
  | hotkey => exact iff_of_true ⟨rfl, rfl⟩ trivial

theorem foldl_tracked (s : Monitor) (poll : Option Byte) :
    ((poll.toList.map Consumption.tracked).foldl step s).keyboard =
      s.keyboard.updateState poll := by
  cases poll <;> rfl

theorem foldl_untracked (s : Monitor) (poll : Option Byte) :
    ((poll.toList.map Consumption.untracked).foldl step s).keyboard = s.keyboard := by
  cases poll <;> rfl

theorem foldl_ofTurns (s : Monitor) (turns : List (Option Byte × Option Byte)) :
    ((Call.consumptions.ofTurns turns).foldl step s).keyboard =
      (s.keyboard.readChar turns).2 := by
  induction turns generalizing s with
  | nil => rfl
  | cons turn turns ih =>
    obtain ⟨poll, poll'⟩ := turn
    have hpolls : ((poll.toList.map Consumption.tracked ++
        poll'.toList.map Consumption.untracked).foldl step s).keyboard =
        s.keyboard.updateState poll := by
      rw [List.foldl_append, foldl_untracked, foldl_tracked]
    rw [Call.consumptions.ofTurns, List.foldl_append]
    cases poll' with
    | none =>
      rw [readChar, Option.bind_none, Option.isSome_none, if_neg Bool.false_ne_true, ih, hpolls]
    | some scancode =>
      rw [readChar, Option.bind_some, charOf]
      dsimp only
      by_cases hrelease : isRelease scancode
      · rw [if_pos hrelease, if_pos hrelease, Option.isSome_none, if_neg Bool.false_ne_true, ih,
          hpolls]
      rw [if_neg hrelease, if_neg hrelease]
      by_cases hzero : scancodeMap scancode = 0
      · rw [if_pos hzero, Option.isSome_none, if_neg Bool.false_ne_true, ih, hpolls,
          if_neg (mt (scancodeMap_pos_iff _).mp (not_not_intro hzero))]
      · rw [if_neg hzero, Option.isSome_some, if_pos rfl,
          if_pos ((scancodeMap_pos_iff _).mpr hzero)]
        exact hpolls

/-- A call does to the keyboard what its consumptions do one after the other. -/
theorem foldl_consumptions (s : Monitor) (c : Call) :
    (c.consumptions.foldl step s).keyboard = s.keyboard.call c := by
  cases c with
  | updateState poll => exact foldl_tracked s poll
  | readRawScancode poll => exact foldl_untracked s poll
  | readCharNonblock poll poll' =>
    rw [Call.consumptions, List.foldl_append, foldl_untracked, foldl_tracked, call]
    cases poll' with
    | none => rfl
    | some scancode =>
      rw [readCharNonblock]
      split <;> rfl
  | readChar turns => exact foldl_ofTurns s turns
  | consumeHotkey => rfl

theorem foldl_calls (s : Monitor) (calls : List Call) :
    ((calls.flatMap Call.consumptions).foldl step s).keyboard =
      calls.foldl call s.keyboard := by
  induction calls generalizing s with
  | nil => rfl
  | cons c calls ih =>
    rw [List.flatMap_cons, List.foldl_append, ih, foldl_consumptions, List.foldl_cons]

/-- Through any calls the bits are those of the keys held, and the hotkey fires when it is due,
exactly if every scancode consumed is harmless. -/
theorem inSync_iff_harmless (calls : List Call) :
    ((calls.flatMap Call.consumptions).foldl step start).keyboard =
        calls.foldl call start.keyboard ∧
      (Throughout step InSync start (calls.flatMap Call.consumptions) ↔
        Guarded step Harmless start (calls.flatMap Call.consumptions)) :=
  ⟨foldl_calls start calls, throughout_iff_of_step_iff inSync_step_iff ⟨rfl, rfl⟩⟩

/-- Ctrl is pressed between the two polls of read_char_nonblock. -/
theorem not_inSync_second_read : ¬Throughout step InSync start
    ([.readCharNonblock none (some 0x1D)].flatMap Call.consumptions) := by
  intro h
  exact absurd h.last.bits (by decide)

end Monitor

end EmergenceOS.Hal.Keyboard
