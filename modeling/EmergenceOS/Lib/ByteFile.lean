/- Module: EmergenceOS/Lib/ByteFile
   digest: Sequential files of bytes: whole-object reads at an offset, equal-sized records. -/

import EmergenceOS.Lib.Bytes
import Mathlib.Data.List.GetD

set_option autoImplicit false
set_option relaxedAutoImplicit false

namespace EmergenceOS.Lib.ByteFile

open EmergenceOS.Lib.Bytes

/-- What is left of a file from the current position on. -/
abbrev File := List Byte

/-- The n bytes that one write appends. -/
def fwrite (buf : Buffer) (n : Nat) : File := (List.range n).map buf

/-- Reading one object of n bytes fails if fewer are left. -/
def fread (n : Nat) (fp : File) : Option (Buffer × File) :=
  if n ≤ fp.length then some (fun i => fp.getD i 0, fp.drop n) else none

@[simp] theorem length_fwrite (buf : Buffer) (n : Nat) : (fwrite buf n).length = n := by
  simp [fwrite]

theorem getD_fwrite (buf : Buffer) {n i : Nat} (h : i < n) : (fwrite buf n).getD i 0 = buf i := by
  simp [fwrite, h]

theorem fread_drop (file : File) (o : Nat) {n : Nat} (hn : 0 < n) :
    fread n (file.drop o) =
      if o + n ≤ file.length then some (fun i => file.getD (o + i) 0, file.drop (o + n))
      else none := by
  unfold fread
  simp only [List.length_drop, List.drop_drop, List.getD_eq_getElem?_getD, List.getElem?_drop]
  by_cases h : o + n ≤ file.length
  · rw [if_pos h, if_pos (by omega)]
  · rw [if_neg h, if_neg (by omega)]

/-- The file with bit k of byte a inverted. -/
def flipBit (file : File) (a k : Nat) : File := file.set a (file.getD a 0 ^^^ BitVec.twoPow 8 k)

@[simp] theorem length_flipBit (file : File) (a k : Nat) :
    (flipBit file a k).length = file.length := List.length_set

theorem getD_flipBit_self {file : File} {a : Nat} (h : a < file.length) (k : Nat) :
    (flipBit file a k).getD a 0 = file.getD a 0 ^^^ BitVec.twoPow 8 k := by
  rw [flipBit, List.getD_eq_getElem?_getD, List.getElem?_set_self h, Option.getD_some]

theorem getD_flipBit_of_ne (file : File) {a j : Nat} (h : j ≠ a) (k : Nat) :
    (flipBit file a k).getD j 0 = file.getD j 0 := by
  rw [flipBit, List.getD_eq_getElem?_getD, List.getElem?_set_ne h.symm,
    ← List.getD_eq_getElem?_getD]

/-- Records of w bytes, one for each element of a list. -/
theorem length_records {α : Type} {w : Nat} (rec : α → File) (hrec : ∀ a, (rec a).length = w)
    (l : List α) : (l.flatMap rec).length = w * l.length := by
  induction l with
  | nil => rfl
  | cons a l ih =>
    rw [List.flatMap_cons, List.length_append, ih, hrec, List.length_cons, Nat.mul_succ,
      Nat.add_comm]

theorem getD_records {α : Type} {w : Nat} (rec : α → File) (hrec : ∀ a, (rec a).length = w)
    {l : List α} {i : Nat} {a : α} (ha : l[i]? = some a) {k : Nat} (hk : k < w) :
    (l.flatMap rec).getD (w * i + k) 0 = (rec a).getD k 0 := by
  induction l generalizing i with
  | nil => simp at ha
  | cons b l ih =>
    rw [List.flatMap_cons]
    cases i with
    | zero =>
      obtain rfl : b = a := by simpa using ha
      rw [Nat.mul_zero, Nat.zero_add, List.getD_append _ _ _ _ (by rw [hrec]; exact hk)]
    | succ i =>
      rw [List.getD_append_right _ _ _ _ (by rw [hrec, Nat.mul_succ]; omega), hrec, Nat.mul_succ,
        show w * i + w + k - w = w * i + k by omega]
      exact ih (by simpa using ha)

end EmergenceOS.Lib.ByteFile
