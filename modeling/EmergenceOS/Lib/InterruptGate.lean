/- Module: EmergenceOS/Lib/InterruptGate
   digest: How a 64-bit processor gets from an exception or interrupt to a handler. -/

import EmergenceOS.Lib.Bytes

set_option autoImplicit false
set_option relaxedAutoImplicit false

namespace EmergenceOS.Lib.InterruptGate

open EmergenceOS.Lib.Bytes

/-- A gate of the descriptor table; the kind with the bit that tells system descriptors. -/
structure Gate where
  offset : BitVec 64
  selector : BitVec 16
  ist : BitVec 3
  kind : BitVec 5
  dpl : BitVec 2
  present : Bool

def decodeGate (d : BitVec 128) : Gate where
  offset := d.extractLsb' 64 32 ++ d.extractLsb' 48 16 ++ d.extractLsb' 0 16
  selector := d.extractLsb' 16 16
  ist := d.extractLsb' 32 3
  kind := d.extractLsb' 40 5
  dpl := d.extractLsb' 45 2
  present := d.getLsbD 47

/-- Interrupts are turned off on the way through. -/
def interruptGate : BitVec 5 := 0xE
def trapGate : BitVec 5 := 0xF

/-- The limits and contents of the two descriptor tables. -/
structure Tables where
  idt : Buffer
  idtLimit : BitVec 16
  gdt : List (BitVec 64)

def Tables.gate (t : Tables) (v : Byte) : Gate :=
  decodeGate (ofBytes 128 (fun k => t.idt (16 * v.toNat + k)) 16)

/-- A descriptor of a present code segment of ring 0 for 64-bit code. -/
def isKernelCode (d : BitVec 64) : Bool :=
  d.getLsbD 43 && d.getLsbD 44 && d.extractLsb' 45 2 == 0 && d.getLsbD 47 && d.getLsbD 53 &&
    !d.getLsbD 54

/-- The descriptor that a selector chooses; the first one is never used. -/
def Tables.segment (t : Tables) (selector : BitVec 16) : Option (BitVec 64) :=
  if selector >>> 3 = 0 ∨ selector.getLsbD 2 then none else t.gdt[(selector >>> 3).toNat]?

/-- The faults that come out of a bad gate. -/
inductive Fault
  | notPresent
  | protection

def Fault.vector : Fault → Byte
  | .notPresent => 11
  | .protection => 13

/-- The upper bits of an address that can be used are copies of bit 47. -/
def isCanonical (a : BitVec 64) : Bool := (a.extractLsb' 0 48).signExtend 64 == a

/-- The checks of one delivery to a handler of the same ring. -/
def Tables.check (t : Tables) (v : Byte) : Except Fault Gate :=
  let g := t.gate v
  if t.idtLimit.toNat < 16 * v.toNat + 15 then .error .protection
  else if ¬(g.kind = interruptGate ∨ g.kind = trapGate) then .error .protection
  else if g.present = false then .error .notPresent
  else if (t.segment g.selector).any isKernelCode && isCanonical g.offset then .ok g
  else .error .protection

inductive Event
  | exception (v : Fin 32)
  | interrupt (v : Byte)

def Event.vector : Event → Byte
  | .exception v => BitVec.ofNat 8 v.val
  | .interrupt v => v

/-- What a further fault makes of it. -/
inductive Severity
  | benign
  | contributory
  | pageFault
  | doubleFault
  deriving DecidableEq

def Event.severity : Event → Severity
  | .exception v =>
    if v.val = 8 then .doubleFault
    else if v.val = 14 ∨ v.val = 20 then .pageFault
    else if v.val = 0 ∨ 10 ≤ v.val ∧ v.val ≤ 13 ∨ v.val = 21 then .contributory
    else .benign
  | .interrupt _ => .benign

theorem Event.vector_of_doubleFault {e : Event} (h : e.severity = .doubleFault) :
    e.vector = 8 := by
  cases e with
  | interrupt v => cases h
  | exception v =>
    simp only [severity] at h
    split at h
    · rename_i hv
      rw [vector, hv]
      rfl
    · split at h
      · cases h
      · split at h <;> cases h

inductive Outcome
  | handler (vector : Byte) (g : Gate)
  | shutdown

namespace Tables

def deliverDouble (t : Tables) : Outcome :=
  match t.check 8 with
  | .ok g => .handler 8 g
  | .error _ => .shutdown

/-- A fault that is served after the event it came from; one more makes it a double fault. -/
def deliverFault (t : Tables) (f : Fault) : Outcome :=
  match t.check f.vector with
  | .ok g => .handler f.vector g
  | .error _ => t.deliverDouble

def deliver (t : Tables) (e : Event) : Outcome :=
  match t.check e.vector with
  | .ok g => .handler e.vector g
  | .error f =>
    match e.severity with
    | .benign => t.deliverFault f
    | .contributory => t.deliverDouble
    | .pageFault => t.deliverDouble
    | .doubleFault => .shutdown

variable {t : Tables} {v : Byte} {e : Event}

theorem check_ok (hlimit : 16 * v.toNat + 15 ≤ t.idtLimit.toNat)
    (hkind : (t.gate v).kind = interruptGate ∨ (t.gate v).kind = trapGate)
    (hpresent : (t.gate v).present = true)
    (hcode : (t.segment (t.gate v).selector).any isKernelCode = true)
    (hcanonical : isCanonical (t.gate v).offset = true) : t.check v = .ok (t.gate v) := by
  simp only [check]
  rw [if_neg (Nat.not_lt.mpr hlimit), if_neg (not_not_intro hkind), if_neg (by simp [hpresent]),
    hcode, hcanonical]
  rfl

/-- A table entry that was never set is of no kind of gate. -/
theorem check_of_kind
    (hkind : ¬((t.gate v).kind = interruptGate ∨ (t.gate v).kind = trapGate)) :
    t.check v = .error .protection := by
  simp only [check]
  rw [if_pos hkind, ite_self]

theorem deliver_of_ok {g : Gate} (h : t.check e.vector = .ok g) :
    t.deliver e = .handler e.vector g := by
  rw [deliver, h]

theorem deliver_benign {f : Fault} (h : t.check e.vector = .error f)
    (hs : e.severity = .benign) : t.deliver e = t.deliverFault f := by
  rw [deliver, h]
  simp only [hs]

theorem deliver_severe {f : Fault} (h : t.check e.vector = .error f)
    (hs : e.severity = .contributory ∨ e.severity = .pageFault) :
    t.deliver e = t.deliverDouble := by
  rw [deliver, h]
  rcases hs with hs | hs <;> simp only [hs]

end Tables

end EmergenceOS.Lib.InterruptGate
