/- Module: EmergenceOS/Core/HookTable
   digest: The symbol table of the transducer: registered names and their coordinates. -/

import EmergenceOS.Lib.CString
import Mathlib.Data.List.Forall2
import Mathlib.Data.List.Induction

/-!
A symbol has room for 31 characters and a terminator. register_hook cuts a longer name
there; get_hook_coordinate compares the whole of the name it is asked for.
-/

set_option autoImplicit false
set_option relaxedAutoImplicit false

namespace EmergenceOS.Core.LogicTransducer

open EmergenceOS.Lib.Bytes EmergenceOS.Lib.CString

structure Symbol where
  name : Buffer
  coordinate : BitVec 64

/-- The symbols registered so far, and what the names of all 64 were before that. -/
structure SymbolTable where
  storage : Nat → Buffer
  symbols : List Symbol

namespace SymbolTable

def capacity : Nat := 64

/-- The last index of a name. -/
def nameLimit : Nat := 31

/-- The copy loop of register_hook from index i on, and the terminator behind it. -/
def copyName : List Byte → Nat → Buffer → Buffer
  | [], i, dst => Function.update dst i 0
  | c :: cs, i, dst =>
    if i < nameLimit then copyName cs (i + 1) (Function.update dst i c)
    else Function.update dst i 0

def registerHook (t : SymbolTable) (name : Str) (coord : BitVec 64) : SymbolTable :=
  if t.symbols.length < capacity then
    { t with
      symbols := t.symbols ++ [⟨copyName name.chars 0 (t.storage t.symbols.length), coord⟩] }
  else t

/-- The comparison loop of get_hook_coordinate from index j on. -/
def matchName : List Byte → Buffer → Nat → Bool
  | [], sym, j => sym j == 0
  | c :: cs, sym, j => c == sym j && matchName cs sym (j + 1)

def getHookCoordinate (t : SymbolTable) (name : Str) : BitVec 64 :=
  match t.symbols.find? fun s => matchName name.chars s.name 0 with
  | some s => s.coordinate
  | none => 0

/-- The table after a sequence of registrations. -/
def registered (storage : Nat → Buffer) (hooks : List (Str × BitVec 64)) : SymbolTable :=
  hooks.foldl (fun t h => t.registerHook h.1 h.2) ⟨storage, []⟩

/-- The coordinate of the first entry whose name has the given characters. -/
def firstNamed (names : List (List Byte × BitVec 64)) (name : List Byte) : BitVec 64 :=
  match names.find? fun h => h.1 = name with
  | some h => h.2
  | none => 0

/-- The names of the first 64 registrations, as given. -/
def given (hooks : List (Str × BitVec 64)) : List (List Byte × BitVec 64) :=
  (hooks.take capacity).map fun h => (h.1.chars, h.2)

/-- The same names cut to what a symbol has room for. -/
def cut (hooks : List (Str × BitVec 64)) : List (List Byte × BitVec 64) :=
  (hooks.take capacity).map fun h => (h.1.chars.take nameLimit, h.2)

theorem copyName_frame (cs : List Byte) (i : Nat) (dst : Buffer) {k : Nat} (hk : k < i) :
    copyName cs i dst k = dst k := by
  induction cs generalizing i dst with
  | nil => exact Function.update_of_ne (by omega) _ _
  | cons c cs ih =>
    rw [copyName]
    split
    · rw [ih (i + 1) _ (by omega), Function.update_of_ne (by omega)]
    · exact Function.update_of_ne (by omega) _ _

/-- A symbol holds the name up to its limit. -/
theorem copyName_holds (cs : List Byte) (i : Nat) (dst : Buffer) :
    Holds (copyName cs i dst) i (cs.take (nameLimit - i)) := by
  induction cs generalizing i dst with
  | nil =>
    rw [List.take_nil]
    exact Function.update_self ..
  | cons c cs ih =>
    rw [copyName]
    by_cases hi : i < nameLimit
    · rw [if_pos hi, show nameLimit - i = nameLimit - (i + 1) + 1 by omega, List.take_succ_cons]
      refine ⟨?_, ih (i + 1) _⟩
      rw [copyName_frame _ _ _ (Nat.lt_succ_self i), Function.update_self]
    · rw [if_neg hi, Nat.sub_eq_zero_of_le (Nat.le_of_not_lt hi), List.take_zero]
      exact Function.update_self ..

/-- The comparison is exact for the string that the symbol holds. -/
theorem matchName_iff {sym : Buffer} {stored : List Byte} {j : Nat} (h : Holds sym j stored)
    (hstored : 0 ∉ stored) {name : List Byte} (hname : 0 ∉ name) :
    matchName name sym j = true ↔ stored = name := by
  induction name generalizing j stored with
  | nil =>
    cases stored with
    | nil =>
      have hzero : sym j = 0 := h
      simp [matchName, hzero]
    | cons d stored =>
      have hd : sym j ≠ 0 := fun hzero => hstored (by rw [← hzero, h.1]; exact List.mem_cons_self)
      simpa [matchName] using hd
  | cons c name ih =>
    rw [List.mem_cons, not_or] at hname
    cases stored with
    | nil =>
      have hzero : sym j = 0 := h
      have hc : (c == sym j) = false := by
        rw [hzero, beq_eq_false_iff_ne]
        exact Ne.symm hname.1
      simp [matchName, hc]
    | cons d stored =>
      rw [List.mem_cons, not_or] at hstored
      have hrest := ih h.2 hstored.2 hname.2
      rw [matchName, Bool.and_eq_true, hrest, h.1, beq_iff_eq, List.cons.injEq, eq_comm]

/-- A symbol that holds a registered name with its coordinate. -/
def Stores (s : Symbol) (h : List Byte × BitVec 64) : Prop :=
  Holds s.name 0 h.1 ∧ 0 ∉ h.1 ∧ s.coordinate = h.2

theorem registered_concat (storage : Nat → Buffer) (hooks : List (Str × BitVec 64))
    (h : Str × BitVec 64) : registered storage (hooks ++ [h]) =
      (registered storage hooks).registerHook h.1 h.2 := by
  rw [registered, List.foldl_append]
  rfl

/-- The table holds the cut names of the first 64 registrations, in order. -/
theorem registered_stores (storage : Nat → Buffer) (hooks : List (Str × BitVec 64)) :
    List.Forall₂ Stores (registered storage hooks).symbols (cut hooks) := by
  induction hooks using List.reverseRecOn with
  | nil => exact .nil
  | append_singleton hooks h ih =>
    have hlength : (registered storage hooks).symbols.length = min capacity hooks.length := by
      rw [ih.length_eq, cut, List.length_map, List.length_take]
    rw [registered_concat, registerHook, hlength]
    by_cases hroom : hooks.length < capacity
    · rw [if_pos (by omega)]
      have hcut : cut (hooks ++ [h]) = cut hooks ++ [(h.1.chars.take nameLimit, h.2)] := by
        rw [cut, cut, List.take_of_length_le (by simpa using Nat.succ_le_of_lt hroom),
          List.take_of_length_le (Nat.le_of_lt hroom), List.map_append, List.map_singleton]
      rw [hcut]
      refine List.rel_append ih (.cons ⟨copyName_holds _ 0 _, fun hzero => ?_, rfl⟩ .nil)
      exact h.1.unterminated (List.mem_of_mem_take hzero)
    · rw [if_neg (by omega)]
      rwa [cut, List.take_append_of_le_length (Nat.le_of_not_lt hroom)]

theorem find_stores {symbols : List Symbol} {names : List (List Byte × BitVec 64)}
    (h : List.Forall₂ Stores symbols names) {name : List Byte} (hname : 0 ∉ name) :
    (match symbols.find? fun s => matchName name s.name 0 with
      | some s => s.coordinate
      | none => 0) = firstNamed names name := by
  induction h with
  | nil => rfl
  | cons hs _ ih =>
    obtain ⟨hholds, hstored, hcoord⟩ := hs
    have hmatch := matchName_iff hholds hstored hname
    rw [firstNamed, List.find?_cons, List.find?_cons]
    rename_i s h symbols names _
    by_cases hsame : h.1 = name
    · simp only [hmatch.mpr hsame, hsame, decide_true, hcoord]
    · simp only [Bool.eq_false_iff.mpr (mt hmatch.mp hsame), hsame, decide_false]
      exact ih

/-- A lookup finds the first of the first 64 registrations whose name, cut to its first 31
characters, is the one it is asked for. -/
theorem getHookCoordinate_cut (storage : Nat → Buffer) (hooks : List (Str × BitVec 64))
    (name : Str) :
    (registered storage hooks).getHookCoordinate name = firstNamed (cut hooks) name.chars :=
  find_stores (registered_stores storage hooks) name.unterminated

/-- The name of 32 letters a. -/
def longName : Str := ⟨List.replicate 32 97, by decide⟩

/-- It is registered and not found. -/
theorem getHookCoordinate_not_given :
    (registered (fun _ _ => 0) [(longName, 5)]).getHookCoordinate longName ≠
      firstNamed (given [(longName, 5)]) longName.chars := by
  rw [getHookCoordinate, find_stores (registered_stores _ _) longName.unterminated]
  decide

end SymbolTable

end EmergenceOS.Core.LogicTransducer
