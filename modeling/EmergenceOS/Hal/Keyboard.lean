/- Module: EmergenceOS/Hal/Keyboard
   digest: Reading a password from the keyboard port, one port access at a time. -/

import EmergenceOS.Lib.Bytes
import EmergenceOS.Lib.GuardedRun
import Mathlib.Logic.Function.Iterate

/-!
update_state and read_char poll and consume the same port. Between any two of their
accesses further scancodes may become available. What update_state takes it uses for
the modifiers only.
-/

set_option autoImplicit false
set_option relaxedAutoImplicit false

namespace EmergenceOS.Hal

open EmergenceOS.Lib.Bytes EmergenceOS.Lib.GuardedRun

structure Keyboard where
  modifiers : Byte
  hotkeyTriggered : Bool

namespace Keyboard

/-- The initializer of scancode_map; the elements that it does not name are zero. -/
def scancodeTable : List Byte := [
  0, 27, 49, 50, 51, 52, 53, 54, 55, 56, 57, 48, 45, 61, 8,
  9, 113, 119, 101, 114, 116, 121, 117, 105, 111, 112, 91, 93, 10,
  0, 97, 115, 100, 102, 103, 104, 106, 107, 108, 59, 39, 96, 0,
  92, 122, 120, 99, 118, 98, 110, 109, 44, 46, 47, 0, 42,
  0, 32, 0, 0, 0, 0, 0, 0, 0, 0, 0, 0, 0, 0, 0, 0, 0, 0, 45, 0, 0, 0, 43,
  0, 0, 0, 0, 0, 0, 0, 0, 0, 0, 0]

def scancodeMap (scancode : Byte) : Byte := scancodeTable.getD scancode.toNat 0

def isRelease (scancode : Byte) : Bool := scancode &&& 0x80 != 0

/-- What update_state does with the scancode it took. -/
def track (kb : Keyboard) (scancode : Byte) : Keyboard :=
  let modifiers :=
    if scancode = 0x1D then kb.modifiers ||| 0x01
    else if scancode = 0x9D then kb.modifiers &&& ~~~0x01
    else if scancode = 0x38 then kb.modifiers ||| 0x02
    else if scancode = 0xB8 then kb.modifiers &&& ~~~0x02
    else if scancode = 0x2A ∨ scancode = 0x36 then kb.modifiers ||| 0x04
    else if scancode = 0xAA ∨ scancode = 0xB6 then kb.modifiers &&& ~~~0x04
    else kb.modifiers
  ⟨modifiers, kb.hotkeyTriggered || (scancode == 0x12 && modifiers == 0x07)⟩

/-- The next port access, or the loop test of read_password before its poll. -/
inductive Pc
  | passwordPoll | updatePoll | updateRead | charPoll | charRead | returned
  deriving DecidableEq

/-- How far an access is from the next one that takes a scancode. -/
def Pc.rank : Pc → Nat
  | .passwordPoll => 3
  | .updatePoll | .charPoll => 2
  | .updateRead | .charRead => 1
  | .returned => 0

/-- The controller and read_password in the middle of its work. The last three fields record
the scancodes that became available, those read from the port, and what read_char returned. -/
structure Machine where
  output : List Byte
  keyboard : Keyboard
  pc : Pc
  i : Nat
  buf : Buffer
  arrived : List Byte
  taken : List Byte
  handed : List Byte

namespace Machine

def start (kb : Keyboard) (buf : Buffer) : Machine :=
  ⟨[], kb, .passwordPoll, 0, buf, [], [], []⟩

def isDataAvailable (s : Machine) : Bool := !s.output.isEmpty

/-- The scancode at the data port. It is only read when there is one. -/
def scancode (s : Machine) : Byte := s.output.headD 0

/-- inb(DATA_PORT) takes the scancode from the controller. -/
def inb (s : Machine) : Machine :=
  { s with output := s.output.tail, taken := s.taken ++ [s.scancode] }

/-- The rest of the loop body of read_password, after read_char returned c. -/
def accept (s : Machine) (c : Byte) : Machine :=
  let s := { s with handed := s.handed ++ [c] }
  if c = 10 ∨ c = 13 then { s with pc := .returned, buf := Function.update s.buf s.i 0 }
  else if c = 8 ∧ 0 < s.i then { s with pc := .passwordPoll, i := s.i - 1 }
  else if 32 ≤ c.toInt ∧ c.toInt ≤ 126 then
    { s with pc := .passwordPoll, buf := Function.update s.buf s.i c, i := s.i + 1 }
  else { s with pc := .passwordPoll }

def tick (max : Int) (s : Machine) : Machine :=
  match s.pc with
  | .passwordPoll =>
    if (s.i : Int) < max - 1 then
      { s with pc := if s.isDataAvailable then .updatePoll else .passwordPoll }
    else { s with pc := .returned, buf := Function.update s.buf s.i 0 }
  | .updatePoll => { s with pc := if s.isDataAvailable then .updateRead else .charPoll }
  | .updateRead => { s.inb with pc := .charPoll, keyboard := s.keyboard.track s.scancode }
  | .charPoll => { s with pc := if s.isDataAvailable then .charRead else .updatePoll }
  | .charRead =>
    if isRelease s.scancode then { s.inb with pc := .updatePoll }
    else
      let c := scancodeMap s.scancode
      if 0 < c.toInt then s.inb.accept c else { s.inb with pc := .updatePoll }
  | .returned => s

/-- A scancode becomes available, or the program goes on by one access. -/
inductive Event
  | arrive (scancode : Byte)
  | tick

def step (max : Int) (s : Machine) : Event → Machine
  | .arrive c => { s with output := s.output ++ [c], arrived := s.arrived ++ [c] }
  | .tick => s.tick max

end Machine

/-- The character of a scancode: none for a release or a zero in the map. -/
def charOf (scancode : Byte) : Option Byte :=
  if isRelease scancode then none
  else if scancodeMap scancode = 0 then none
  else some (scancodeMap scancode)

/-- A line being typed, and whether it takes no more characters. -/
@[ext] structure Line where
  text : List Byte
  ended : Bool

/-- Newline ends the line, backspace removes the last character, a printable one is added as
long as there is room for it. -/
def Line.type (max : Int) (l : Line) (c : Byte) : Line :=
  if l.ended then l
  else if c = 10 ∨ c = 13 then { l with ended := true }
  else if c = 8 then { l with text := l.text.dropLast }
  else if 32 ≤ c.toInt ∧ c.toInt ≤ 126 then
    ⟨l.text ++ [c], decide (max - 1 ≤ (l.text.length + 1 : Nat))⟩
  else l

def typed (max : Int) (cs : List Byte) : Line := cs.foldl (Line.type max) ⟨[], decide (max ≤ 1)⟩

/-- The same with every other character added, printable or not. -/
def Line.enter (max : Int) (l : Line) (c : Byte) : Line :=
  if l.ended then l
  else if c = 10 ∨ c = 13 then { l with ended := true }
  else if c = 8 then { l with text := l.text.dropLast }
  else ⟨l.text ++ [c], decide (max - 1 ≤ (l.text.length + 1 : Nat))⟩

def entered (max : Int) (cs : List Byte) : Line :=
  cs.foldl (Line.enter max) ⟨[], decide (max ≤ 1)⟩

namespace Machine

/-- What read_char returned are the characters of the scancodes taken, all of them and in their
order. The buffer holds the line that they enter, and the call ends with it. In the end nothing
is left in the controller or the line has ended, and then it is the line of all that arrived. -/
structure Faithful (max : Int) (s : Machine) : Prop where
  stream : s.taken ++ s.output = s.arrived
  handed : s.handed = s.taken.filterMap charOf
  text : slice s.buf 0 s.i = (entered max s.handed).text
  ended : (entered max s.handed).ended ↔ s.pc = .returned ∨ max - 1 ≤ s.i
  progress : ∃ n, ((tick max)^[n] s).pc = .returned ∨ ((tick max)^[n] s).output = []
  whole : s.pc = .returned ∨ s.output = [] →
    slice s.buf 0 s.i = (entered max (s.arrived.filterMap charOf)).text

/-- update_state does not take a scancode that has a character, and read_char takes neither TAB
nor ESC. -/
def LeavesCharacters (s : Machine) : Event → Prop
  | .arrive _ => True
  | .tick => (s.pc = .updateRead → charOf s.scancode = none) ∧
      (s.pc = .charRead → charOf s.scancode ≠ some 9 ∧ charOf s.scancode ≠ some 27)

instance (s : Machine) (e : Event) : Decidable (s.LeavesCharacters e) := by
  cases e <;> unfold LeavesCharacters <;> infer_instance

/-- What holds however the scancodes are shared out. -/
structure Editing (max : Int) (s : Machine) : Prop where
  stream : s.taken ++ s.output = s.arrived
  text : slice s.buf 0 s.i = (typed max s.handed).text
  available : s.pc = .updateRead ∨ s.pc = .charRead → s.isDataAvailable
  ended : (typed max s.handed).ended ↔ s.pc = .returned ∨ max - 1 ≤ s.i
  room : max - 1 ≤ s.i → s.pc = .passwordPoll ∨ s.pc = .returned

end Machine

theorem typed_append (max : Int) (cs : List Byte) (c : Byte) :
    typed max (cs ++ [c]) = (typed max cs).type max c := by
  simp only [typed, List.foldl_append, List.foldl_cons, List.foldl_nil]

theorem entered_append (max : Int) (cs : List Byte) (c : Byte) :
    entered max (cs ++ [c]) = (entered max cs).enter max c := by
  simp only [entered, List.foldl_append, List.foldl_cons, List.foldl_nil]

/-- A line that has ended takes no more. -/
theorem entered_of_ended {max : Int} {cs : List Byte} (h : (entered max cs).ended)
    (cs' : List Byte) : entered max (cs ++ cs') = entered max cs := by
  induction cs' generalizing cs with
  | nil => rw [List.append_nil]
  | cons c cs' ih =>
    have hsame : entered max (cs ++ [c]) = entered max cs := by
      rw [entered_append, Line.enter, if_pos h]
    rw [List.append_cons, ih (by rwa [hsame]), hsame]

/-- An open line enters a character as it is typed if it is one of those that a password may
have, or edits it. -/
theorem enter_eq_type_iff {max : Int} {l : Line} (hopen : l.ended = false) (c : Byte) :
    l.enter max c = l.type max c ↔
      (c = 10 ∨ c = 13) ∨ c = 8 ∨ (32 ≤ c.toInt ∧ c.toInt ≤ 126) := by
  unfold Line.enter Line.type
  rw [hopen]
  simp only [Bool.false_eq_true, if_false]
  by_cases hnl : c = 10 ∨ c = 13
  · simp only [hnl, if_true, true_or]
  by_cases hbs : c = 8
  · rw [if_neg hnl, if_pos hbs, if_neg hnl, if_pos hbs]
    exact iff_of_true rfl (.inr (.inl hbs))
  rw [if_neg hnl, if_neg hbs, if_neg hnl, if_neg hbs]
  by_cases hprint : 32 ≤ c.toInt ∧ c.toInt ≤ 126
  · rw [if_pos hprint]
    exact iff_of_true rfl (.inr (.inr hprint))
  · rw [if_neg hprint]
    refine iff_of_false (fun h => ?_) (not_or.mpr ⟨hnl, not_or.mpr ⟨hbs, hprint⟩⟩)
    have htext := congrArg (fun l => l.text.length) h
    simp at htext

/-- What holds of zero and of every entry of the table. -/
theorem scancodeMap_of_all {p : Byte → Prop} [DecidablePred p]
    (h : (0 :: scancodeTable).all (fun c => decide (p c)) = true) (scancode : Byte) :
    p (scancodeMap scancode) := by
  have hall := fun c hc => of_decide_eq_true (List.all_eq_true.mp h c hc)
  unfold scancodeMap
  rw [List.getD_eq_getElem?_getD]
  rcases Nat.lt_or_ge scancode.toNat scancodeTable.length with hlt | hge
  · rw [List.getElem?_eq_getElem hlt]
    exact hall _ (List.mem_cons_of_mem _ (List.getElem_mem hlt))
  · rw [List.getElem?_eq_none hge]
    exact hall 0 List.mem_cons_self

/-- The largest entry of the table is z. -/
theorem scancodeMap_le (scancode : Byte) : (scancodeMap scancode).toNat ≤ 122 :=
  scancodeMap_of_all (p := fun c => c.toNat ≤ 122) (by decide +kernel) scancode

/-- No entry of the table is negative as a signed character. -/
theorem toInt_scancodeMap (scancode : Byte) :
    (scancodeMap scancode).toInt = (scancodeMap scancode).toNat := by
  have hle := scancodeMap_le scancode
  exact BitVec.toInt_eq_toNat_of_lt (by omega)

theorem scancodeMap_pos_iff (scancode : Byte) :
    0 < (scancodeMap scancode).toInt ↔ scancodeMap scancode ≠ 0 := by
  have hzero : (0 : Byte).toNat = 0 := rfl
  rw [toInt_scancodeMap, ne_eq, ← BitVec.toNat_inj, hzero]
  omega

namespace Machine

variable {max : Int} {s : Machine}

theorem inb_stream (h : s.taken ++ s.output = s.arrived) (hdata : s.isDataAvailable) :
    s.inb.taken ++ s.inb.output = s.arrived := by
  rw [← h]
  cases hout : s.output with
  | nil => simp [isDataAvailable, hout] at hdata
  | cons c rest => simp [inb, scancode, hout]

theorem accept_taken (s : Machine) (c : Byte) :
    (s.accept c).taken = s.taken ∧ (s.accept c).output = s.output ∧
      (s.accept c).arrived = s.arrived ∧ (s.accept c).handed = s.handed ++ [c] := by
  unfold accept
  simp only
  split
  · exact ⟨rfl, rfl, rfl, rfl⟩
  · split
    · exact ⟨rfl, rfl, rfl, rfl⟩
    · split <;> exact ⟨rfl, rfl, rfl, rfl⟩

/-- One turn of the loop edits the line by one character. -/
theorem accept_editing (hstream : s.taken ++ s.output = s.arrived)
    (htext : slice s.buf 0 s.i = (typed max s.handed).text)
    (hopen : (typed max s.handed).ended = false) (hroom : (s.i : Int) < max - 1) (c : Byte) :
    Editing max (s.accept c) := by
  have hlen : (typed max s.handed).text.length = s.i := by rw [← htext, length_slice]
  have htyped := typed_append max s.handed c
  simp only [Line.type, hopen, Bool.false_eq_true, if_false] at htyped
  unfold accept
  simp only
  by_cases hnl : c = 10 ∨ c = 13
  · rw [if_pos hnl] at htyped ⊢
    refine ⟨hstream, ?_, by simp, by simp [htyped], fun _ => Or.inr rfl⟩
    rw [htyped, slice_update, htext]
  rw [if_neg hnl] at htyped ⊢
  by_cases hbs : c = 8
  · rw [if_pos hbs] at htyped
    by_cases hi : 0 < s.i
    · rw [if_pos ⟨hbs, hi⟩]
      refine ⟨hstream, ?_, by simp, ?_, fun _ => Or.inl rfl⟩
      · obtain ⟨n, hn⟩ : ∃ n, s.i = n + 1 := ⟨s.i - 1, by omega⟩
        rw [htyped]
        simp only [← htext, hn, slice_succ, List.dropLast_concat, Nat.add_sub_cancel]
      · simp only [htyped, Bool.false_eq_true, reduceCtorEq, false_or, false_iff]
        omega
    · -- an empty line has nothing to remove, and backspace is not printable
      have hprint : ¬(32 ≤ c.toInt ∧ c.toInt ≤ 126) := by
        rw [hbs]
        decide
      have hnil : (typed max s.handed).text = [] := List.length_eq_zero_iff.mp (by omega)
      rw [if_neg (fun h => hi h.2), if_neg hprint]
      refine ⟨hstream, ?_, by simp, ?_, fun _ => Or.inl rfl⟩
      · simp only [htyped, htext, hnil, List.dropLast_nil]
      · simp only [htyped, Bool.false_eq_true, reduceCtorEq, false_or, false_iff]
        omega
  rw [if_neg hbs] at htyped
  rw [if_neg (fun h => hbs h.1)]
  by_cases hprint : 32 ≤ c.toInt ∧ c.toInt ≤ 126
  · rw [if_pos hprint] at htyped ⊢
    refine ⟨hstream, ?_, by simp, ?_, fun _ => Or.inl rfl⟩
    · simp only [htyped, slice_succ, slice_update, htext, Nat.zero_add, Function.update_self]
    · simp only [htyped, hlen, decide_eq_true_eq, reduceCtorEq, false_or]
  · rw [if_neg hprint] at htyped ⊢
    refine ⟨hstream, ?_, by simp, ?_, fun _ => Or.inl rfl⟩
    · rw [htyped, htext]
    · simp only [htyped, hopen, Bool.false_eq_true, reduceCtorEq, false_or, false_iff]
      omega

/-- A step that neither edits the line nor ends the call. -/
theorem Editing.move (h : Editing max s) (hreturned : s.pc ≠ .returned)
    {s' : Machine} (hstream : s'.taken ++ s'.output = s'.arrived) (hbuf : s'.buf = s.buf)
    (hi : s'.i = s.i) (hhanded : s'.handed = s.handed) (hpc : s'.pc ≠ .returned)
    (hdata : s'.pc = .updateRead ∨ s'.pc = .charRead → s'.isDataAvailable)
    (hroom : max - 1 ≤ s.i → s'.pc = .passwordPoll) : Editing max s' := by
  refine ⟨hstream, by rw [hbuf, hi, hhanded, h.text], hdata, ?_, fun hfull => ?_⟩
  · rw [hhanded, h.ended, hi]
    simp only [hreturned, hpc, false_or]
  · rw [hi] at hfull
    exact Or.inl (hroom hfull)

theorem tick_editing (h : Editing max s) : Editing max (s.tick max) := by
  have hroom {pc : Pc} (hpc : s.pc = pc) (hpoll : pc ≠ .passwordPoll) (hret : pc ≠ .returned) :
      (s.i : Int) < max - 1 := by
    by_contra hfull
    rcases h.room (by omega) with hp | hp
    · exact hpoll (hpc.symm.trans hp)
    · exact hret (hpc.symm.trans hp)
  unfold tick
  split
  · rename_i hpc
    split
    · rename_i hlt
      refine h.move (by simp [hpc]) h.stream rfl rfl rfl ?_ ?_ (by omega)
      · cases s.isDataAvailable <;> simp
      · cases s.isDataAvailable <;> simp
    · rename_i hfull
      refine ⟨h.stream, ?_, by simp, ?_, fun _ => Or.inr rfl⟩
      · rw [slice_update, h.text]
      · simp only [h.ended, true_or, iff_true]
        exact Or.inr (by omega)
  · rename_i hpc
    have hlt := hroom hpc (by decide) (by decide)
    refine h.move (by simp [hpc]) h.stream rfl rfl rfl ?_ ?_ (by omega)
    · cases s.isDataAvailable <;> simp
    · cases hd : s.isDataAvailable <;> simp_all [isDataAvailable]
  · rename_i hpc
    have hlt := hroom hpc (by decide) (by decide)
    exact h.move (by simp [hpc]) (inb_stream h.stream (h.available (Or.inl hpc))) rfl rfl rfl
      (by simp) (by simp) (by omega)
  · rename_i hpc
    have hlt := hroom hpc (by decide) (by decide)
    refine h.move (by simp [hpc]) h.stream rfl rfl rfl ?_ ?_ (by omega)
    · cases s.isDataAvailable <;> simp
    · cases hd : s.isDataAvailable <;> simp_all [isDataAvailable]
  · rename_i hpc
    have hlt := hroom hpc (by decide) (by decide)
    have hin := inb_stream h.stream (h.available (Or.inr hpc))
    have hskip : Editing max { s.inb with pc := .updatePoll } :=
      h.move (by simp [hpc]) hin rfl rfl rfl (by simp) (by simp) (by omega)
    split
    · exact hskip
    · simp only
      split
      · refine accept_editing hin h.text ?_ hlt _
        have hended := h.ended
        simp only [hpc, reduceCtorEq, false_or] at hended
        exact Bool.eq_false_iff.mpr fun he => absurd (hended.mp he) (by omega)
      · exact hskip
  · exact h

theorem step_editing (s : Machine) (e : Event) (h : Editing max s) :
    Editing max (s.step max e) := by
  cases e with
  | arrive c =>
    refine ⟨?_, h.text, fun hpc => ?_, h.ended, h.room⟩
    · simp only [step, ← h.stream, List.append_assoc]
    · simp [step, isDataAvailable]
  | tick => exact tick_editing h

theorem start_editing (kb : Keyboard) (buf : Buffer) : Editing max (start kb buf) := by
  refine ⟨rfl, rfl, by simp [start], ?_, fun _ => Or.inl rfl⟩
  simp only [start, typed, List.foldl_nil, decide_eq_true_eq, reduceCtorEq, false_or]
  omega

theorem accept_rank (s : Machine) (c : Byte) :
    (s.accept c).output = s.output ∧ (s.accept c).pc.rank ≤ 3 := by
  refine ⟨(accept_taken s c).2.1, ?_⟩
  unfold accept
  simp only
  split
  · simp [Pc.rank]
  · split
    · simp [Pc.rank]
    · split <;> simp [Pc.rank]

/-- With a scancode waiting, four accesses take one, or the call returns. -/
theorem tick_rank (hdata : s.output ≠ []) (hreturned : s.pc ≠ .returned) :
    4 * (s.tick max).output.length + (s.tick max).pc.rank <
      4 * s.output.length + s.pc.rank := by
  have havailable : s.isDataAvailable = true := by simp [isDataAvailable, hdata]
  have htail : s.output.length = s.inb.output.length + 1 := by
    cases hout : s.output with
    | nil => exact absurd hout hdata
    | cons c rest => simp [inb, hout]
  unfold tick
  split
  · rename_i hpc
    split
    · simp [hpc, Pc.rank]
    · simp [hpc, Pc.rank]
  · rename_i hpc
    simp [hpc, havailable, Pc.rank]
  · rename_i hpc
    simp only [hpc, Pc.rank]
    omega
  · rename_i hpc
    simp [hpc, havailable, Pc.rank]
  · rename_i hpc
    have hskip : 4 * s.inb.output.length + Pc.updatePoll.rank <
        4 * s.output.length + Pc.charRead.rank := by
      simp only [Pc.rank]
      omega
    rw [hpc]
    split
    · exact hskip
    · simp only
      split
      · obtain ⟨hout, hrank⟩ := accept_rank s.inb (scancodeMap s.scancode)
        simp only [hout, Pc.rank] at hrank ⊢
        omega
      · exact hskip
  · rename_i hpc
    exact absurd hpc hreturned

theorem exists_settled (max : Int) (s : Machine) :
    ∃ n, ((tick max)^[n] s).pc = .returned ∨ ((tick max)^[n] s).output = [] := by
  induction hmeasure : 4 * s.output.length + s.pc.rank using Nat.strongRecOn generalizing s with
  | ind measure ih =>
    by_cases hsettled : s.pc = .returned ∨ s.output = []
    · exact ⟨0, hsettled⟩
    · rw [not_or] at hsettled
      obtain ⟨n, hn⟩ := ih _ (hmeasure ▸ tick_rank hsettled.2 hsettled.1) (s.tick max) rfl
      exact ⟨n + 1, by rwa [Function.iterate_succ_apply]⟩

/-- The characters handed over are those of the scancodes taken, and nothing tells how they are
entered from how they are typed. -/
def Entering (max : Int) (s : Machine) : Prop :=
  s.handed = s.taken.filterMap charOf ∧ entered max s.handed = typed max s.handed

/-- That is all beside what holds anyway. -/
theorem faithful_iff (h : Editing max s) : Faithful max s ↔ Entering max s := by
  constructor
  · intro hs
    refine ⟨hs.handed, Line.ext (hs.text.symm.trans h.text) ?_⟩
    rw [Bool.eq_iff_iff, hs.ended, h.ended]
  · rintro ⟨hhanded, hline⟩
    have hended : (entered max s.handed).ended ↔ s.pc = .returned ∨ max - 1 ≤ s.i := by
      rw [hline, h.ended]
    have htext : slice s.buf 0 s.i = (entered max s.handed).text := by rw [hline, h.text]
    refine ⟨h.stream, hhanded, htext, hended, exists_settled max s, fun hsettled => ?_⟩
    rw [htext, ← h.stream, List.filterMap_append, ← hhanded]
    rcases hsettled with hpc | hout
    · rw [entered_of_ended (hended.mpr (Or.inl hpc))]
    · rw [hout, List.filterMap_nil, List.append_nil]

theorem filterMap_inb (s : Machine) :
    s.inb.taken.filterMap charOf =
      s.taken.filterMap charOf ++ (charOf s.scancode).toList := by
  simp only [inb, List.filterMap_append]
  cases h : charOf s.scancode <;> simp [h]

/-- A scancode that is taken and not handed over must have no character. -/
theorem entering_inb_iff (hs : Entering max s) (pc : Pc) (kb : Keyboard) :
    Entering max { s.inb with pc := pc, keyboard := kb } ↔ charOf s.scancode = none := by
  have hhanded : s.inb.handed = s.taken.filterMap charOf := hs.1
  simp only [Entering, hhanded, filterMap_inb]
  cases charOf s.scancode with
  | none => simpa using hs.1 ▸ hs.2
  | some c => simp

/-- TAB and ESC are the characters of the map that a password does not take. -/
theorem plain_iff (scancode : Byte) (h : scancodeMap scancode ≠ 0) :
    ((scancodeMap scancode = 10 ∨ scancodeMap scancode = 13) ∨ scancodeMap scancode = 8 ∨
      (32 ≤ (scancodeMap scancode).toInt ∧ (scancodeMap scancode).toInt ≤ 126)) ↔
      scancodeMap scancode ≠ 9 ∧ scancodeMap scancode ≠ 27 :=
  scancodeMap_of_all (p := fun c => c ≠ 0 → (((c = 10 ∨ c = 13) ∨ c = 8 ∨
    (32 ≤ c.toInt ∧ c.toInt ≤ 126)) ↔ c ≠ 9 ∧ c ≠ 27)) (by decide +kernel) scancode h

/-- A character that is handed over. -/
theorem entering_accept_iff (hs : Entering max s) {c : Byte} (hc : charOf s.scancode = some c) :
    Entering max (s.inb.accept c) ↔ (entered max s.handed).enter max c =
      (entered max s.handed).type max c := by
  obtain ⟨htaken, -, -, hhanded⟩ := accept_taken s.inb c
  have hsame : s.inb.handed = s.handed := rfl
  rw [Entering, htaken, hhanded, filterMap_inb, hc, hsame, ← hs.1, entered_append, typed_append,
    ← hs.2]
  exact ⟨fun h => h.2, fun h => ⟨rfl, h⟩⟩

/-- read_char hands on what it takes; update_state keeps it to itself. -/
theorem faithful_step_iff (s : Machine) (e : Event) (h : Editing max s) (hs : Faithful max s) :
    Faithful max (s.step max e) ↔ s.LeavesCharacters e := by
  rw [faithful_iff (step_editing s e h)]
  have hs := (faithful_iff h).mp hs
  cases e with
  | arrive c => exact iff_of_true hs trivial
  | tick =>
    have hskip (hread : s.pc ≠ .updateRead) (hchar : s.pc ≠ .charRead) :
        s.LeavesCharacters .tick :=
      ⟨fun he => absurd he hread, fun he => absurd he hchar⟩
    simp only [step, tick]
    split
    · rename_i hpc
      refine iff_of_true ?_ (hskip (by simp [hpc]) (by simp [hpc]))
      split <;> exact hs
    · rename_i hpc
      exact iff_of_true hs (hskip (by simp [hpc]) (by simp [hpc]))
    · rename_i hpc
      rw [entering_inb_iff hs]
      simp [LeavesCharacters, hpc]
    · rename_i hpc
      exact iff_of_true hs (hskip (by simp [hpc]) (by simp [hpc]))
    · rename_i hpc
      have hopen : (typed max s.handed).ended = false := by
        rw [Bool.eq_false_iff, ne_eq, h.ended, hpc]
        rintro (hret | hfull)
        · cases hret
        · rcases h.room hfull with hp | hp
          · cases hpc.symm.trans hp
          · cases hpc.symm.trans hp
      have hnone (hc : charOf s.scancode = none) :
          Entering max { s.inb with pc := .updatePoll } ↔ s.LeavesCharacters .tick := by
        refine iff_of_true ((entering_inb_iff hs .updatePoll s.keyboard).mpr hc) ?_
        simp [LeavesCharacters, hpc, hc]
      by_cases hrel : isRelease s.scancode
      · rw [if_pos hrel]
        exact hnone (by rw [charOf, if_pos hrel])
      · rw [if_neg hrel]
        by_cases hzero : scancodeMap s.scancode = 0
        · rw [if_neg (mt (scancodeMap_pos_iff _).mp (not_not_intro hzero))]
          exact hnone (by rw [charOf, if_neg hrel, if_pos hzero])
        · have hc : charOf s.scancode = some (scancodeMap s.scancode) := by
            rw [charOf, if_neg hrel, if_neg hzero]
          rw [if_pos ((scancodeMap_pos_iff _).mpr hzero), entering_accept_iff hs hc,
            enter_eq_type_iff (by rwa [hs.2]), plain_iff _ hzero]
          simp [LeavesCharacters, hpc, hc]
    · rename_i hpc
      exact iff_of_true hs (hskip (by simp [hpc]) (by simp [hpc]))

/-- The password is what was entered exactly as long as update_state finds no scancode with a
character to take and neither TAB nor ESC is handed over, whatever arrives and whenever it does. -/
theorem faithful_iff_leavesCharacters (max : Int) (kb : Keyboard) (buf : Buffer)
    (events : List Event) :
    Throughout (step max) (Faithful max) (start kb buf) events ↔
      Guarded (step max) LeavesCharacters (start kb buf) events :=
  throughout_iff_guarded (Editing max) step_editing faithful_step_iff (start_editing kb buf)
    ((faithful_iff (start_editing kb buf)).mpr ⟨rfl, rfl⟩)

/-- Key a and Enter are both there when read_password polls: the a is lost. -/
theorem not_faithful_swallowed : ¬Throughout (step 16) (Faithful 16) (start ⟨0, false⟩ fun _ => 0)
    [.arrive 0x1E, .arrive 0x1C, .tick, .tick, .tick, .tick, .tick] := by
  intro h
  exact absurd h.last.handed (by decide)

end Machine

end Keyboard

end EmergenceOS.Hal
