/- Module: EmergenceOS/Lib/CString
   digest: Strings in byte memory that end at the first zero. -/

import EmergenceOS.Lib.Bytes

set_option autoImplicit false
set_option relaxedAutoImplicit false

namespace EmergenceOS.Lib.CString

open EmergenceOS.Lib.Bytes

/-- The characters of a string. None of them is the terminator. -/
structure Str where
  chars : List Byte
  unterminated : 0 ∉ chars
  deriving DecidableEq

/-- One string behind the other. -/
def Str.append (s t : Str) : Str where
  chars := s.chars ++ t.chars
  unterminated h := (List.mem_append.mp h).elim s.unterminated t.unterminated

/-- From offset o on the memory holds the characters and a terminator. -/
def Holds (mem : Buffer) : Nat → List Byte → Prop
  | o, [] => mem o = 0
  | o, c :: cs => mem o = c ∧ Holds mem (o + 1) cs

end EmergenceOS.Lib.CString
