/- Module: EmergenceOS/Lib/Pic8259
   digest: The pair of interrupt controllers of a PC, driven by writes to its ports. -/

import EmergenceOS.Lib.Bytes
import Mathlib.Data.List.FinRange
import Mathlib.Logic.Function.Basic

/-!
Requests are latched at their edges. Rotating priorities, the special mask mode and polling
are left out: the commands that ask for them change nothing here.
-/

set_option autoImplicit false
set_option relaxedAutoImplicit false

namespace EmergenceOS.Lib.Pic8259

open EmergenceOS.Lib.Bytes

/-- What the next write to the data port is taken for. -/
inductive Phase
  | vector (single needsMode : Bool)
  | cascade (needsMode : Bool)
  | mode
  | ready
  deriving DecidableEq

/-- The registers: requests, interrupts in service, masks, and what the set-up words left. -/
structure Chip where
  requested : Fin 8 → Bool
  inService : Fin 8 → Bool
  masks : Byte
  base : Byte
  cascade : Byte
  mode : Byte
  phase : Phase

namespace Chip

def masked (c : Chip) (i : Fin 8) : Bool := c.masks.getLsbD i.val

/-- The first input of those in service, which has the highest priority. -/
def served (c : Chip) : Option (Fin 8) := (List.finRange 8).find? fun i => c.inService i

/-- A request waits for those of its own and of higher priority that are in service. -/
def eligible (c : Chip) (i : Fin 8) : Bool :=
  c.requested i && !c.masked i && (c.served.all fun j => decide (i < j))

/-- The input that the output pin stands for. -/
def output (c : Chip) : Option (Fin 8) := (List.finRange 8).find? c.eligible

/-- The first set-up word resets the chip and starts its set-up. -/
def startSetup (c : Chip) (v : Byte) : Chip :=
  { c with
    requested := fun _ => false
    inService := fun _ => false
    masks := 0
    mode := 0
    phase := .vector (v.getLsbD 1) (v.getLsbD 0) }

def retire (c : Chip) (i : Fin 8) : Chip :=
  { c with inService := Function.update c.inService i false }

/-- The end of the interrupt that is served, or of a given one. -/
def endOfInterrupt (c : Chip) (v : Byte) : Chip :=
  if v &&& 0xE0 = 0x20 then
    match c.served with
    | some i => c.retire i
    | none => c
  else if v &&& 0xE0 = 0x60 then c.retire (v.setWidth 3).toFin
  else c

def writeCommand (c : Chip) (v : Byte) : Chip :=
  if v.getLsbD 4 then c.startSetup v
  else if v.getLsbD 3 then c
  else c.endOfInterrupt v

def afterCascade (needsMode : Bool) : Phase := if needsMode then .mode else .ready

def writeData (c : Chip) (v : Byte) : Chip :=
  match c.phase with
  | .vector single needsMode =>
    { c with base := v, phase := if single then afterCascade needsMode else .cascade needsMode }
  | .cascade needsMode => { c with cascade := v, phase := afterCascade needsMode }
  | .mode => { c with mode := v, phase := .ready }
  | .ready => { c with masks := v }

def raise (c : Chip) (i : Fin 8) : Chip :=
  { c with requested := Function.update c.requested i true }

/-- The request is taken; without automatic ends it is in service from now on. -/
def acknowledge (c : Chip) (i : Fin 8) : Chip :=
  { c with
    requested := Function.update c.requested i false
    inService := if c.mode.getLsbD 1 then c.inService else Function.update c.inService i true }

/-- The upper five bits come from the set-up. -/
def vector (c : Chip) (i : Fin 8) : Byte := (c.base &&& 0xF8) ||| BitVec.ofNat 8 i.val

end Chip

/-- The output of the slave is input 2 of the master. -/
structure Pair where
  master : Chip
  slave : Chip

def cascadeInput : Fin 8 := ⟨2, by decide⟩

/-- The lines of the devices. -/
inductive Line
  | master (i : Fin 8)
  | slave (i : Fin 8)
  deriving DecidableEq

namespace Pair

def write (p : Pair) (port v : Byte) : Pair :=
  if port = 0x20 then { p with master := p.master.writeCommand v }
  else if port = 0x21 then { p with master := p.master.writeData v }
  else if port = 0xA0 then { p with slave := p.slave.writeCommand v }
  else if port = 0xA1 then { p with slave := p.slave.writeData v }
  else p

def writes (p : Pair) (ws : List (Byte × Byte)) : Pair :=
  ws.foldl (fun p w => p.write w.1 w.2) p

/-- No device is connected to input 2 of the master. -/
def raise (p : Pair) : Line → Pair
  | .master i => if i = cascadeInput then p else { p with master := p.master.raise i }
  | .slave i => { p with slave := p.slave.raise i }

/-- The master as it sees its inputs. -/
def seen (p : Pair) : Chip :=
  { p.master with
    requested := Function.update p.master.requested cascadeInput p.slave.output.isSome }

/-- The line whose interrupt is to be taken next. -/
def pending (p : Pair) : Option Line :=
  p.seen.output.bind fun i => if i = cascadeInput then p.slave.output.map .slave
    else some (.master i)

/-- The vector that the processor reads, and the controllers after that. -/
def acknowledge (p : Pair) : Line → Byte × Pair
  | .master i => (p.master.vector i, { p with master := p.master.acknowledge i })
  | .slave i =>
    (p.slave.vector i,
      ⟨p.master.acknowledge cascadeInput, p.slave.acknowledge i⟩)

end Pair

namespace Chip
variable {c : Chip} {i : Fin 8}

theorem output_eligible (h : c.output = some i) : c.eligible i = true := List.find?_some h

theorem output_eq_none (h : ∀ i, c.masked i = true) : c.output = none := by
  rw [output, List.find?_eq_none]
  intro i _ he
  simp [eligible, h i] at he

theorem served_eq_none_iff : c.served = none ↔ ∀ i, c.inService i = false := by
  simp [served, List.find?_eq_none]

/-- With one input unmasked the output is that one, while it is requested and nothing of its
own or of higher priority is in service. -/
theorem output_of_unmasked (h : ∀ j, c.masked j = decide (j ≠ i)) :
    c.output = if c.eligible i then some i else none := by
  have hother {j : Fin 8} (hj : c.eligible j = true) : j = i := by
    by_contra hne
    simp [eligible, h j, hne] at hj
  split
  · rename_i hi
    cases ho : c.output with
    | none => exact absurd hi (List.find?_eq_none.mp ho i (List.mem_finRange i))
    | some j => rw [hother (output_eligible ho)]
  · rename_i hi
    rw [output, List.find?_eq_none]
    intro j _ hj
    exact hi (hother hj ▸ hj)

@[simp] theorem masked_raise (j k : Fin 8) : (c.raise j).masked k = c.masked k := rfl
@[simp] theorem masked_acknowledge (j k : Fin 8) : (c.acknowledge j).masked k = c.masked k := rfl

theorem inService_acknowledge (h : c.mode.getLsbD 1 = false) (i j : Fin 8) :
    (c.acknowledge i).inService j = if j = i then true else c.inService j := by
  simp only [acknowledge, h, Bool.false_eq_true, if_false, Function.update_apply]

theorem inService_retire (i j : Fin 8) :
    (c.retire i).inService j = if j = i then false else c.inService j :=
  Function.update_apply _ _ _ _

/-- The plain command ends the interrupt that is served. -/
theorem writeCommand_endOfInterrupt (h : c.served = some i) :
    c.writeCommand 0x20 = c.retire i := by
  have hend : c.endOfInterrupt 0x20 = c.retire i := by
    rw [endOfInterrupt, if_pos (by decide), h]
  rw [writeCommand, if_neg (by decide), if_neg (by decide), hend]

end Chip

end EmergenceOS.Lib.Pic8259
