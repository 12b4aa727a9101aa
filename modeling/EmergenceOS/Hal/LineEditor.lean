/- Module: EmergenceOS/Hal/LineEditor
   digest: read_password and read_line character by character; only one of them filters. -/

import EmergenceOS.Hal.Graphics
import EmergenceOS.Hal.Keyboard

/-!
read_password stores and shows printable characters only. read_line stores and shows
whatever is not a newline or a backspace behind some text: also escape, tab and a
backspace in an empty line, for which the font has no glyph.
-/

set_option autoImplicit false
set_option relaxedAutoImplicit false

namespace EmergenceOS.Hal.Keyboard

open EmergenceOS.Lib.Bytes EmergenceOS.Lib.GuardedRun EmergenceOS.Hal.Graphics

/-- The locals of an editor and its buffer. The last three fields record the characters that
read_char returned, the stores to the buffer and the characters given to put_char. -/
structure Editor where
  i : Nat
  buf : Buffer
  returned : Bool
  consumed : List Byte
  stored : List (Nat × Byte)
  shown : List Byte

/-- Where the two editors differ: which characters end the line and which are stored, and what
is shown for one that is stored. -/
structure Filter where
  ends : Byte → Bool
  stores : Byte → Bool
  shows : Byte → Byte

def Printable (c : Byte) : Prop := 32 ≤ c.toInt ∧ c.toInt ≤ 126

instance (c : Byte) : Decidable (Printable c) := inferInstanceAs (Decidable (_ ∧ _))

/-- Newline or carriage return; printable characters; an asterisk. -/
def readPassword : Filter := ⟨fun c => c = 10 ∨ c = 13, fun c => Printable c, fun _ => 42⟩

/-- Newline; every other character; the character itself. -/
def readLine : Filter := ⟨fun c => c = 10, fun _ => true, fun c => c⟩

namespace Editor

/-- buf[k] = c -/
def store (s : Editor) (k : Nat) (c : Byte) : Editor :=
  { s with buf := Function.update s.buf k c, stored := s.stored ++ [(k, c)] }

/-- put_char, if there is a screen to show it on. -/
def putChar (vga : Bool) (s : Editor) (c : Byte) : Editor :=
  if vga then { s with shown := s.shown ++ [c] } else s

/-- After the loop. -/
def finish (s : Editor) : Editor := { s.store s.i 0 with returned := true }

/-- The loop test. -/
def test (max : Int) (s : Editor) : Editor := if (s.i : Int) < max - 1 then s else s.finish

/-- The loop body for the character c. -/
def body (f : Filter) (max : Int) (vga : Bool) (s : Editor) (c : Byte) : Editor :=
  if f.ends c then s.finish
  else if c = 8 ∧ 0 < s.i then test max (putChar vga { s with i := s.i - 1 } 8)
  else if f.stores c then
    test max (putChar vga { s.store s.i c with i := s.i + 1 } (f.shows c))
  else test max s

def start (max : Int) (buf : Buffer) : Editor := test max ⟨0, buf, false, [], [], []⟩

end Editor

/-- A character that read_char can return. -/
abbrev Key := {c : Byte // ∃ scancode, charOf scancode = some c}

namespace Editor

/-- An editor that has returned consumes no more characters. -/
def step (f : Filter) (max : Int) (vga : Bool) (s : Editor) (key : Key) : Editor :=
  if s.returned then s
  else body f max vga { s with consumed := s.consumed ++ [key.val] } key.val

/-- Stores are inside the buffer and of printable characters or the terminator, the buffer has
the line typed so far, in the end with its terminator, and what is shown has a glyph. -/
structure Sound (max : Int) (s : Editor) : Prop where
  stores : ∀ p ∈ s.stored, (p.1 : Int) < max ∧ (p.2 = 0 ∨ Printable p.2)
  text : slice s.buf 0 s.i = (typed max s.consumed).text
  ended : s.returned ↔ (typed max s.consumed).ended
  terminated : s.returned → s.buf s.i = 0 ∧ (s.i : Int) < max
  shown : ∀ c ∈ s.shown, c = 8 ∨ (glyphIndex c).isSome

/-- The next character ends the line, is printable, or is a backspace behind some text. -/
def Plain (s : Editor) (key : Key) : Prop :=
  s.returned ∨ key.val = 10 ∨ Printable key.val ∨ key.val = 8 ∧ 0 < s.i

/-- While the loop runs there is room for a character and the terminator. -/
def Room (max : Int) (s : Editor) : Prop := s.returned = false → (s.i : Int) < max - 1

end Editor

theorem charOf_eq_some {scancode c : Byte} (h : charOf scancode = some c) :
    c = scancodeMap scancode ∧ c ≠ 0 := by
  unfold charOf at h
  split at h
  · cases h
  · split at h
    · cases h
    · rename_i hzero
      obtain rfl := Option.some.inj h
      exact ⟨rfl, hzero⟩

theorem Key.ne_zero (key : Key) : key.val ≠ 0 := by
  obtain ⟨c, scancode, hc⟩ := key
  exact (charOf_eq_some hc).2

/-- No key types a carriage return. -/
theorem Key.ne_cr (key : Key) : key.val ≠ 13 := by
  obtain ⟨c, scancode, hc⟩ := key
  change c ≠ 13
  rw [(charOf_eq_some hc).1]
  exact scancodeMap_of_all (p := fun c => c ≠ 13) (by decide +kernel) scancode

namespace Editor

section
variable {f : Filter} {max : Int} {vga : Bool} {s : Editor} {c : Byte}

/-- In the middle of the loop body: as Sound, but the loop test is still to come. -/
structure Typing (max : Int) (s : Editor) : Prop where
  stores : ∀ p ∈ s.stored, (p.1 : Int) < max ∧ (p.2 = 0 ∨ Printable p.2)
  text : slice s.buf 0 s.i = (typed max s.consumed).text
  unreturned : s.returned = false
  ended : (typed max s.consumed).ended ↔ max - 1 ≤ s.i
  fits : (s.i : Int) < max
  shown : ∀ c ∈ s.shown, c = 8 ∨ (glyphIndex c).isSome

theorem stores_concat {stored : List (Nat × Byte)} {k : Nat}
    (h : ∀ p ∈ stored, (p.1 : Int) < max ∧ (p.2 = 0 ∨ Printable p.2)) (hk : (k : Int) < max)
    (hc : c = 0 ∨ Printable c) :
    ∀ p ∈ stored ++ [(k, c)], (p.1 : Int) < max ∧ (p.2 = 0 ∨ Printable p.2) := by
  intro p hp
  rcases List.mem_append.mp hp with hold | hnew
  · exact h p hold
  · rw [List.mem_singleton.mp hnew]
    exact ⟨hk, hc⟩

/-- The line is ended, and the terminator has a place in the buffer. -/
theorem sound_finish (hstores : ∀ p ∈ s.stored, (p.1 : Int) < max ∧ (p.2 = 0 ∨ Printable p.2))
    (htext : slice s.buf 0 s.i = (typed max s.consumed).text)
    (hended : (typed max s.consumed).ended) (hfits : (s.i : Int) < max)
    (hshown : ∀ c ∈ s.shown, c = 8 ∨ (glyphIndex c).isSome) : Sound max s.finish := by
  refine ⟨stores_concat hstores hfits (Or.inl rfl), ?_, iff_of_true rfl hended, fun _ => ?_, hshown⟩
  · exact (slice_update s.buf s.i 0).trans htext
  · exact ⟨Function.update_self s.i 0 s.buf, hfits⟩

theorem Typing.test (h : Typing max s) : Sound max (test max s) := by
  unfold Editor.test
  split
  · rename_i hroom
    refine ⟨h.stores, h.text, ?_, fun hret => ?_, h.shown⟩
    · rw [h.ended, h.unreturned]
      exact iff_of_false Bool.false_ne_true (by omega)
    · rw [h.unreturned] at hret
      exact absurd hret Bool.false_ne_true
  · rename_i hfull
    exact sound_finish h.stores h.text (h.ended.mpr (by omega)) h.fits h.shown

theorem Typing.putChar (h : Typing max s) (vga : Bool)
    (hc : c = 8 ∨ (glyphIndex c).isSome) : Typing max (putChar vga s c) := by
  unfold Editor.putChar
  split
  · refine ⟨h.stores, h.text, h.unreturned, h.ended, h.fits, fun c' hc' => ?_⟩
    rcases List.mem_append.mp hc' with hold | hnew
    · exact h.shown c' hold
    · rw [List.mem_singleton.mp hnew]
      exact hc
  · exact h

theorem sound_start (hmax : 1 ≤ max) (buf : Buffer) : Sound max (start max buf) := by
  refine Typing.test ⟨fun p hp => absurd hp List.not_mem_nil, rfl, rfl, ?_, hmax,
    fun c hc => absurd hc List.not_mem_nil⟩
  simp only [typed, List.foldl_nil, decide_eq_true_eq]
  omega

/-- The next loop test of the machine that reads from the port does what the test here does. -/
theorem test_eq_tick {m : Machine} (hpc : m.pc = .passwordPoll) (hi : s.i = m.i)
    (hbuf : s.buf = m.buf) (hopen : s.returned = false) :
    ((test max s).i = (m.tick max).i ∧ (test max s).buf = (m.tick max).buf) ∧
      ((test max s).returned = true ↔ (m.tick max).pc = .returned) := by
  simp only [test, Machine.tick, hpc, hi]
  split
  · refine ⟨⟨hi, hbuf⟩, iff_of_false (by rw [hopen]; exact Bool.false_ne_true) ?_⟩
    cases m.isDataAvailable <;> simp
  · exact ⟨⟨hi, by rw [finish, store, hi, hbuf]⟩, iff_of_true rfl rfl⟩

theorem putChar_fields (vga : Bool) (s : Editor) (c : Byte) :
    (putChar vga s c).i = s.i ∧ (putChar vga s c).buf = s.buf ∧
      (putChar vga s c).returned = s.returned ∧ (putChar vga s c).stored = s.stored := by
  unfold putChar
  split <;> exact ⟨rfl, rfl, rfl, rfl⟩

/-- Between two calls of read_char the editor with the password's filter is the machine that reads
from the port. -/
theorem body_eq_accept {m : Machine} (hi : s.i = m.i) (hbuf : s.buf = m.buf)
    (hopen : s.returned = false) (vga : Bool) (c : Byte) :
    ((body readPassword max vga s c).i = ((m.accept c).tick max).i ∧
      (body readPassword max vga s c).buf = ((m.accept c).tick max).buf) ∧
    ((body readPassword max vga s c).returned = true ↔
      ((m.accept c).tick max).pc = .returned) := by
  simp only [body, Machine.accept, readPassword, decide_eq_true_eq, hi]
  by_cases hline : c = 10 ∨ c = 13
  · rw [if_pos hline, if_pos hline]
    exact ⟨⟨hi, by rw [finish, store, hi, hbuf]; rfl⟩, iff_of_true rfl rfl⟩
  rw [if_neg hline, if_neg hline]
  by_cases hback : c = 8 ∧ 0 < m.i
  · rw [if_pos hback, if_pos hback]
    obtain ⟨hi', hbuf', hopen', -⟩ := putChar_fields vga { s with i := m.i - 1 } 8
    exact test_eq_tick rfl hi' (hbuf'.trans hbuf) (hopen'.trans hopen)
  rw [if_neg hback, if_neg hback]
  by_cases hprint : Printable c
  · have hrange : 32 ≤ c.toInt ∧ c.toInt ≤ 126 := hprint
    rw [if_pos hprint, if_pos hrange]
    obtain ⟨hi', hbuf', hopen', -⟩ := putChar_fields vga { s.store m.i c with i := m.i + 1 } 42
    refine test_eq_tick rfl hi' (hbuf'.trans ?_) (hopen'.trans hopen)
    rw [store, hbuf]
  · have hrange : ¬(32 ≤ c.toInt ∧ c.toInt ≤ 126) := hprint
    rw [if_neg hprint, if_neg hrange]
    exact test_eq_tick rfl hi hbuf hopen

/-- A character that the filter treats as typing does keeps the editor sound. -/
theorem Sound.body (h : Sound max s) (hopen : s.returned = false) (hroom : (s.i : Int) < max - 1)
    (vga : Bool) (hends : f.ends c = true ↔ c = 10 ∨ c = 13)
    (hstores : ¬(c = 10 ∨ c = 13) → ¬(c = 8 ∧ 0 < s.i) → (f.stores c = true ↔ Printable c))
    (hshows : Printable c → (glyphIndex (f.shows c)).isSome) :
    Sound max (body f max vga { s with consumed := s.consumed ++ [c] } c) := by
  have hnot : (typed max s.consumed).ended = false := by
    rw [← Bool.not_eq_true, ← h.ended, hopen]
    exact Bool.false_ne_true
  have hlength : (typed max s.consumed).text.length = s.i := by rw [← h.text, length_slice]
  have htyped := typed_append max s.consumed c
  simp only [Line.type, hnot, Bool.false_eq_true, if_false] at htyped
  unfold Editor.body
  by_cases hline : c = 10 ∨ c = 13
  · rw [if_pos hline] at htyped
    rw [if_pos (hends.mpr hline)]
    refine sound_finish h.stores ?_ ?_ (by simp only; omega) h.shown
    · simp only [htyped, h.text]
    · simp only [htyped]
  rw [if_neg hline] at htyped
  rw [if_neg (fun he => hline (hends.mp he))]
  by_cases hback : c = 8 ∧ 0 < s.i
  · obtain ⟨n, hn⟩ : ∃ n, s.i = n + 1 := ⟨s.i - 1, by omega⟩
    rw [if_pos hback.1] at htyped
    rw [if_pos hback]
    have hmid : Typing max { s with i := s.i - 1, consumed := s.consumed ++ [c] } := by
      refine ⟨h.stores, ?_, hopen, ?_, ?_, h.shown⟩
      · simp only [htyped, ← h.text, hn, slice_succ, List.dropLast_concat, Nat.add_sub_cancel]
      · simp only [htyped, Bool.false_eq_true, false_iff]
        omega
      · simp only
        omega
    exact (hmid.putChar vga (Or.inl rfl)).test
  rw [if_neg hback]
  by_cases hprint : Printable c
  · have hne : c ≠ 8 := by
      rintro rfl
      exact absurd hprint (by decide)
    have hrange : 32 ≤ c.toInt ∧ c.toInt ≤ 126 := hprint
    rw [if_neg hne, if_pos hrange] at htyped
    rw [if_pos ((hstores hline hback).mpr hprint)]
    have hmid : Typing max { s with
        i := s.i + 1, buf := Function.update s.buf s.i c, consumed := s.consumed ++ [c]
        stored := s.stored ++ [(s.i, c)] } := by
      refine ⟨stores_concat h.stores (by omega) (Or.inr hprint), ?_, hopen, ?_, ?_, h.shown⟩
      · simp only [htyped, slice_succ, slice_update, h.text, Nat.zero_add, Function.update_self]
      · simp only [htyped, hlength, decide_eq_true_eq]
      · simp only
        omega
    exact (hmid.putChar vga (Or.inr (hshows hprint))).test
  · -- a backspace comes here only with an empty line
    have hsame : typed max (s.consumed ++ [c]) = typed max s.consumed := by
      by_cases hc : c = 8
      · have hempty : s.i = 0 := Nat.eq_zero_of_not_pos fun hi => hback ⟨hc, hi⟩
        have hnil : (typed max s.consumed).text = [] :=
          List.length_eq_zero_iff.mp (hlength.trans hempty)
        have hdrop : (typed max s.consumed).text.dropLast = (typed max s.consumed).text := by
          rw [hnil, List.dropLast_nil]
        rw [if_pos hc, hdrop] at htyped
        rw [htyped, ← hnot]
      · have hrange : ¬(32 ≤ c.toInt ∧ c.toInt ≤ 126) := hprint
        rw [if_neg hc, if_neg hrange] at htyped
        exact htyped
    rw [if_neg (fun hs => hprint ((hstores hline hback).mp hs))]
    have hmid : Typing max { s with consumed := s.consumed ++ [c] } := by
      refine ⟨h.stores, ?_, hopen, ?_, ?_, h.shown⟩
      · simp only [hsame, h.text]
      · simp only [hsame, hnot, Bool.false_eq_true, false_iff]
        omega
      · simp only
        omega
    exact hmid.test

theorem room_finish (s : Editor) : Room max s.finish := fun h => Bool.noConfusion h

theorem room_test (s : Editor) : Room max (test max s) := by
  unfold test
  split
  · rename_i hroom
    exact fun _ => hroom
  · exact room_finish s

/-- The loop goes on only with room in the buffer, whatever the filter. -/
theorem step_room (f : Filter) (vga : Bool) (s : Editor) (key : Key) (h : Room max s) :
    Room max (step f max vga s key) := by
  unfold step
  split
  · exact h
  · unfold Editor.body
    split
    · exact room_finish _
    · split
      · exact room_test _
      · split
        · exact room_test _
        · exact room_test _

theorem start_room (max : Int) (buf : Buffer) : Room max (start max buf) := room_test _

theorem step_open (hopen : s.returned = false) (key : Key) : step f max vga s key =
    body f max vga { s with consumed := s.consumed ++ [key.val] } key.val := by
  rw [step, hopen]
  rfl

/-- read_password treats every character as typing does. -/
theorem password_step (vga : Bool) (key : Key) (h : Sound max s) (hroom : Room max s) :
    Sound max (step readPassword max vga s key) := by
  cases hopen : s.returned with
  | true =>
    rw [step, hopen, if_pos rfl]
    exact h
  | false =>
    rw [step_open hopen]
    have hasterisk : (glyphIndex 42).isSome := by decide
    refine h.body hopen (hroom hopen) vga ?_ (fun _ _ => ?_) (fun _ => hasterisk)
    · simp only [readPassword, decide_eq_true_eq]
    · simp only [readPassword, decide_eq_true_eq]

theorem mem_stored_test {p : Nat × Byte} (h : p ∈ s.stored) : p ∈ (test max s).stored := by
  unfold test
  split
  · exact h
  · exact List.mem_append_left _ h

/-- What is neither a newline nor a backspace behind some text read_line stores. -/
theorem line_stores (vga : Bool) (hopen : s.returned = false) (key : Key) (hline : key.val ≠ 10)
    (hback : ¬(key.val = 8 ∧ 0 < s.i)) :
    (s.i, key.val) ∈ (step readLine max vga s key).stored := by
  rw [step_open hopen, Editor.body, if_neg (by simpa [readLine] using hline), if_neg hback,
    if_pos (show readLine.stores key.val = true from rfl)]
  apply mem_stored_test
  rw [(putChar_fields _ _ _).2.2.2]
  exact List.mem_append_right _ (List.mem_singleton.mpr rfl)

theorem line_step_iff (key : Key) (hroom : Room max s) (h : Sound max s) :
    Sound max (step readLine max vga s key) ↔ s.Plain key := by
  cases hopen : s.returned with
  | true =>
    rw [step, hopen, if_pos rfl]
    exact iff_of_true h (Or.inl hopen)
  | false =>
    constructor
    · intro hsound
      by_cases hline : key.val = 10
      · exact Or.inr (Or.inl hline)
      by_cases hback : key.val = 8 ∧ 0 < s.i
      · exact Or.inr (Or.inr (Or.inr hback))
      have hstored := (hsound.stores _ (line_stores vga hopen key hline hback)).2
      exact Or.inr (Or.inr (Or.inl (hstored.resolve_left key.ne_zero)))
    · intro hplain
      rw [step_open hopen]
      refine h.body hopen (hroom hopen) vga ?_ (fun hline hback => ?_) (fun hprint => ?_)
      · simp only [readLine, decide_eq_true_eq]
        exact ⟨Or.inl, fun hend => hend.resolve_right key.ne_cr⟩
      · refine iff_of_true rfl ?_
        rcases hplain with hret | hnl | hprint | hbs
        · rw [hopen] at hret
          exact absurd hret Bool.false_ne_true
        · exact absurd (Or.inl hnl) hline
        · exact hprint
        · exact absurd hbs hback
      · exact (glyphIndex_isSome _).mpr hprint

end

/-- read_password is sound whatever is typed; read_line exactly if each character that it
consumes ends the line, is printable, or is a backspace behind some text. -/
theorem sound_iff_plain (max : Int) (hmax : 1 ≤ max) (vga : Bool) (buf : Buffer)
    (keys : List Key) :
    Throughout (step readPassword max vga) (Sound max) (start max buf) keys ∧
      (Throughout (step readLine max vga) (Sound max) (start max buf) keys ↔
        Guarded (step readLine max vga) Plain (start max buf) keys) :=
  ⟨throughout_of_step (Room max) (fun s key => step_room _ vga s key)
      (fun _ key hroom h => password_step vga key h hroom) (start_room max buf)
      (sound_start hmax buf),
    throughout_iff_guarded (Room max) (fun s key => step_room _ vga s key)
      (fun _ key => line_step_iff key) (start_room max buf) (sound_start hmax buf)⟩

/-- The word ok and Enter. -/
theorem sound_ok : Throughout (step readLine 8 true) (Sound 8) (start 8 fun _ => 0)
    [⟨111, 0x18, by decide⟩, ⟨107, 0x25, by decide⟩, ⟨10, 0x1C, by decide⟩] := by
  refine (sound_iff_plain 8 (by decide) true (fun _ => 0) _).2.mpr ⟨?_, ?_, ?_, trivial⟩
  · exact Or.inr (Or.inr (Or.inl (by decide)))
  · exact Or.inr (Or.inr (Or.inl (by decide)))
  · exact Or.inr (Or.inl rfl)

/-- Tab is stored and drawn with a glyph before the font. -/
theorem not_sound_tab : ¬Throughout (step readLine 8 true) (Sound 8) (start 8 fun _ => 0)
    [⟨9, 0x0F, by decide⟩] := by
  intro h
  exact absurd (h.last.shown 9 (by decide)) (by decide)

end Editor

end EmergenceOS.Hal.Keyboard
