/- Module: EmergenceOS/Hal/InterruptTable
   digest: The descriptor table that init_idt sets up, and where each event ends there. -/

import EmergenceOS.Lib.InterruptGate
import EmergenceOS.Lib.Pic8259

set_option autoImplicit false
set_option relaxedAutoImplicit false

namespace EmergenceOS.Hal.InterruptTable

open EmergenceOS.Lib.Bytes EmergenceOS.Lib.InterruptGate EmergenceOS.Lib.Pic8259

structure IDTEntry where
  offsetLow : BitVec 16
  selector : BitVec 16
  ist : Byte
  typeAttr : Byte
  offsetMid : BitVec 16
  offsetHigh : BitVec 32
  reserved : BitVec 32

/-- The packed structure, its first field lowest. -/
def IDTEntry.packed (e : IDTEntry) : BitVec 128 :=
  e.reserved ++ e.offsetHigh ++ e.offsetMid ++ e.typeAttr ++ e.ist ++ e.selector ++ e.offsetLow

def IDTEntry.zero : IDTEntry := ⟨0, 0, 0, 0, 0, 0, 0⟩

structure IDTPtr where
  limit : BitVec 16
  base : BitVec 64

/-- idt and idt_ptr, and the controllers. -/
structure Interrupts where
  idt : Fin 256 → IDTEntry
  idtPtr : IDTPtr
  pics : Pair

/-- The addresses of idt and of the five handlers. -/
structure Symbols where
  idt : BitVec 64
  exceptionHandlerUd : BitVec 64
  exceptionHandlerNm : BitVec 64
  exceptionHandlerDf : BitVec 64
  exceptionHandlerGp : BitVec 64
  timerInterruptHandler : BitVec 64

def Symbols.handlers (symbols : Symbols) : List (BitVec 64) :=
  [symbols.exceptionHandlerUd,
    symbols.exceptionHandlerNm,
    symbols.exceptionHandlerDf,
    symbols.exceptionHandlerGp,
    symbols.timerInterruptHandler]

/-- The bytes of init_pic with their ports. -/
def initPic : List (Byte × Byte) :=
  [(0x20, 0x11),
    (0xA0, 0x11),
    (0x21, 0x20),
    (0xA1, 0x28),
    (0x21, 0x04),
    (0xA1, 0x02),
    (0x21, 0x01),
    (0xA1, 0x01),
    (0x21, 0xFE),
    (0xA1, 0xFF)]

def gateFor (handler : BitVec 64) : IDTEntry where
  offsetLow := (handler &&& 0xFFFF).setWidth 16
  selector := 0x08
  ist := 0
  typeAttr := 0x8E
  offsetMid := ((handler >>> 16) &&& 0xFFFF).setWidth 16
  offsetHigh := ((handler >>> 32) &&& 0xFFFFFFFF).setWidth 32
  reserved := 0

def Interrupts.setIdtGate (s : Interrupts) (n : Fin 256) (handler : BitVec 64) : Interrupts :=
  { s with idt := Function.update s.idt n (gateFor handler) }

def udVector : Fin 256 := ⟨6, by decide⟩
def nmVector : Fin 256 := ⟨7, by decide⟩
def dfVector : Fin 256 := ⟨8, by decide⟩
def gpVector : Fin 256 := ⟨13, by decide⟩
def timerVector : Fin 256 := ⟨32, by decide⟩

/-- sizeof(idt) -/
def idtBytes : Nat := 256 * 16

def Interrupts.initIdt (s : Interrupts) (symbols : Symbols) : Interrupts :=
  let s := { s with idtPtr := ⟨BitVec.ofNat 16 (idtBytes - 1), symbols.idt⟩ }
  let s := s.setIdtGate udVector symbols.exceptionHandlerUd
  let s := s.setIdtGate nmVector symbols.exceptionHandlerNm
  let s := s.setIdtGate dfVector symbols.exceptionHandlerDf
  let s := s.setIdtGate gpVector symbols.exceptionHandlerGp
  let s := s.setIdtGate timerVector symbols.timerInterruptHandler
  { s with pics := s.pics.writes initPic }

/-- gdt64 -/
def gdt64 : List (BitVec 64) :=
  [0, ((1 : BitVec 64) <<< 43) ||| ((1 : BitVec 64) <<< 44) ||| ((1 : BitVec 64) <<< 47) |||
    ((1 : BitVec 64) <<< 53)]

/-- The bytes at the base that lidt loads. -/
def tableImage (idt : Fin 256 → IDTEntry) : Buffer := fun k =>
  byteAt (idt (BitVec.ofNat 8 (k / 16)).toFin).packed (k % 16)

def Interrupts.tables (s : Interrupts) : Tables where
  idt := tableImage s.idt
  idtLimit := s.idtPtr.limit
  gdt := gdt64

/-- idt lies in .bss, and the controllers are as the firmware left them. -/
def Interrupts.beforeInit (idtPtr : IDTPtr) (pics : Pair) : Interrupts :=
  ⟨fun _ => IDTEntry.zero, idtPtr, pics⟩

/-- The handlers of the vectors that have one. -/
def handlerOf (symbols : Symbols) (n : Fin 256) : Option (BitVec 64) :=
  if n = timerVector then some symbols.timerInterruptHandler
  else if n = gpVector then some symbols.exceptionHandlerGp
  else if n = dfVector then some symbols.exceptionHandlerDf
  else if n = nmVector then some symbols.exceptionHandlerNm
  else if n = udVector then some symbols.exceptionHandlerUd
  else none

/-- What the processor makes of a gate that was set: the selector of the kernel's code, ring 0,
interrupts off. -/
def kernelGate (handler : BitVec 64) : Gate :=
  ⟨handler, 0x08, 0, interruptGate, 0, true⟩

theorem mem_of_handlerOf {symbols : Symbols} {n : Fin 256} {handler : BitVec 64}
    (h : handlerOf symbols n = some handler) : handler ∈ symbols.handlers := by
  simp only [handlerOf] at h
  simp only [Symbols.handlers, List.mem_cons, List.not_mem_nil, or_false]
  grind

theorem initIdt_idt (s : Interrupts) (symbols : Symbols) (n : Fin 256) :
    (s.initIdt symbols).idt n = ((handlerOf symbols n).map gateFor).getD (s.idt n) := by
  simp only [Interrupts.initIdt, Interrupts.setIdtGate, handlerOf, Function.update_apply]
  split
  · rfl
  · split
    · rfl
    · split
      · rfl
      · split
        · rfl
        · split
          · rfl
          · rfl

theorem tableImage_entry (idt : Fin 256 → IDTEntry) (v : Byte) {k : Nat} (hk : k < 16) :
    tableImage idt (16 * v.toNat + k) = byteAt (idt v.toFin).packed k := by
  have hdiv : (16 * v.toNat + k) / 16 = v.toNat := by omega
  have hmod : (16 * v.toNat + k) % 16 = k := by omega
  rw [tableImage, hdiv, hmod, BitVec.ofNat_toNat, BitVec.setWidth_eq]

theorem gate_tables (s : Interrupts) (v : Byte) :
    s.tables.gate v = decodeGate (s.idt v.toFin).packed := by
  have hbytes : ∀ k < 16, s.tables.idt (16 * v.toNat + k) =
      byteAt (s.idt v.toFin).packed k := fun k hk => tableImage_entry s.idt v hk
  rw [Tables.gate, ofBytes_congr 128 16 hbytes, ofBytes_byteAt (m := 16) _ rfl]

/-- A masked part of an address is the field of its bits. -/
theorem part_eq (x mask : BitVec 64) (o n : Nat) (hmask : ∀ k < n, mask.getLsbD k = true) :
    ((x >>> o) &&& mask).setWidth n = x.extractLsb' o n := by
  apply BitVec.eq_of_getLsbD_eq
  intro k hk
  rw [BitVec.getLsbD_setWidth, BitVec.getLsbD_and, BitVec.getLsbD_ushiftRight, hmask k hk,
    BitVec.getLsbD_extractLsb', Bool.and_true]

theorem gateFor_offsets (handler : BitVec 64) :
    (gateFor handler).offsetLow = handler.extractLsb' 0 16 ∧
      (gateFor handler).offsetMid = handler.extractLsb' 16 16 ∧
      (gateFor handler).offsetHigh = handler.extractLsb' 32 32 := by
  refine ⟨?_, ?_, ?_⟩
  · have hlow := part_eq handler 0xFFFF 0 16 (by decide)
    rwa [BitVec.ushiftRight_zero] at hlow
  · exact part_eq handler 0xFFFF 16 16 (by decide)
  · exact part_eq handler 0xFFFFFFFF 32 32 (by decide)

/-- The processor puts the three parts of an address together again. -/
theorem offset_parts (handler : BitVec 64) :
    handler.extractLsb' 32 32 ++ handler.extractLsb' 16 16 ++ handler.extractLsb' 0 16 =
      handler := by
  apply BitVec.eq_of_getLsbD_eq
  intro k hk
  simp only [BitVec.getLsbD_append, BitVec.getLsbD_extractLsb']
  grind

theorem packed_getLsbD (e : IDTEntry) (k : Nat) : e.packed.getLsbD k =
    if k < 16 then e.offsetLow.getLsbD k
    else if k < 32 then e.selector.getLsbD (k - 16)
    else if k < 40 then e.ist.getLsbD (k - 32)
    else if k < 48 then e.typeAttr.getLsbD (k - 40)
    else if k < 64 then e.offsetMid.getLsbD (k - 48)
    else if k < 96 then e.offsetHigh.getLsbD (k - 64)
    else e.reserved.getLsbD (k - 96) := by
  refine BitVec.getLsbD_append.trans ?_
  simp only [BitVec.getLsbD_append, Nat.sub_sub]
  grind

theorem decodeGate_packed (e : IDTEntry) : decodeGate e.packed =
    ⟨e.offsetHigh ++ e.offsetMid ++ e.offsetLow, e.selector, e.ist.extractLsb' 0 3,
      e.typeAttr.extractLsb' 0 5, e.typeAttr.extractLsb' 5 2, e.typeAttr.getLsbD 7⟩ := by
  have hfield (o n : Nat) (x : BitVec n) (h : ∀ k < n, e.packed.getLsbD (o + k) = x.getLsbD k) :
      e.packed.extractLsb' o n = x := by
    apply BitVec.eq_of_getLsbD_eq
    intro k hk
    rw [BitVec.getLsbD_extractLsb', h k hk, decide_eq_true hk, Bool.true_and]
  have hhigh := hfield 64 32 e.offsetHigh fun k hk => by
    rw [packed_getLsbD]
    grind
  have hmid := hfield 48 16 e.offsetMid fun k hk => by
    rw [packed_getLsbD]
    grind
  have hlow := hfield 0 16 e.offsetLow fun k hk => by
    rw [packed_getLsbD]
    grind
  have hselector := hfield 16 16 e.selector fun k hk => by
    rw [packed_getLsbD]
    grind
  have hist := hfield 32 3 (e.ist.extractLsb' 0 3) fun k hk => by
    rw [packed_getLsbD, BitVec.getLsbD_extractLsb']
    grind
  have hkind := hfield 40 5 (e.typeAttr.extractLsb' 0 5) fun k hk => by
    rw [packed_getLsbD, BitVec.getLsbD_extractLsb']
    grind
  have hdpl := hfield 45 2 (e.typeAttr.extractLsb' 5 2) fun k hk => by
    rw [packed_getLsbD, BitVec.getLsbD_extractLsb']
    grind
  have hpresent : e.packed.getLsbD 47 = e.typeAttr.getLsbD 7 := packed_getLsbD e 47
  simp only [decodeGate, hhigh, hmid, hlow, hselector, hist, hkind, hdpl, hpresent]

theorem decodeGate_gateFor (handler : BitVec 64) :
    decodeGate (gateFor handler).packed = kernelGate handler := by
  obtain ⟨hlow, hmid, hhigh⟩ := gateFor_offsets handler
  have hattr : (gateFor handler).typeAttr = 0x8E := rfl
  rw [decodeGate_packed, hlow, hmid, hhigh, offset_parts, hattr]
  simp only [kernelGate, Gate.mk.injEq, true_and]
  exact ⟨rfl, rfl, by decide, by decide, by decide⟩

/-- Where an event ends: in its own handler, or else in the one for protection faults, or the
one for double faults where it was a fault itself. -/
def endOf (symbols : Symbols) (e : Event) : Outcome :=
  match handlerOf symbols e.vector.toFin with
  | some handler => .handler e.vector (kernelGate handler)
  | none =>
    if e.severity = .benign then .handler 13 (kernelGate symbols.exceptionHandlerGp)
    else .handler 8 (kernelGate symbols.exceptionHandlerDf)

section
variable {symbols : Symbols} (idtPtr : IDTPtr) (pics : Pair)

theorem gate_initIdt (symbols : Symbols) (idtPtr : IDTPtr) (pics : Pair) (v : Byte) :
    ((Interrupts.beforeInit idtPtr pics).initIdt symbols).tables.gate v =
      decodeGate (((handlerOf symbols v.toFin).map gateFor).getD IDTEntry.zero).packed := by
  rw [gate_tables, initIdt_idt]
  rfl

theorem segment_kernelCode (s : Interrupts) : (s.tables.segment 0x08).any isKernelCode = true := by
  simp only [Tables.segment, Interrupts.tables]
  decide

/-- The limit covers all vectors, and the kernel's selector is that of its code. -/
theorem check_some {v : Byte} {handler : BitVec 64}
    (h : handlerOf symbols v.toFin = some handler)
    (hcanonical : ∀ handler ∈ symbols.handlers, isCanonical handler = true) :
    ((Interrupts.beforeInit idtPtr pics).initIdt symbols).tables.check v =
      .ok (kernelGate handler) := by
  have hgate := gate_initIdt symbols idtPtr pics v
  rw [h, Option.map_some, Option.getD_some, decodeGate_gateFor] at hgate
  have hlimit : 16 * v.toNat + 15 ≤ (BitVec.ofNat 16 (idtBytes - 1)).toNat := by
    have hv := v.isLt
    have hbytes : idtBytes - 1 = 4095 := rfl
    rw [hbytes, BitVec.toNat_ofNat]
    omega
  have hcheck := Tables.check_ok
    (t := ((Interrupts.beforeInit idtPtr pics).initIdt symbols).tables) (v := v) hlimit
  rw [hgate] at hcheck
  exact hcheck (.inl rfl) rfl (segment_kernelCode _) (hcanonical handler (mem_of_handlerOf h))

theorem check_none {v : Byte} (h : handlerOf symbols v.toFin = none) :
    ((Interrupts.beforeInit idtPtr pics).initIdt symbols).tables.check v =
      .error .protection := by
  apply Tables.check_of_kind
  rw [gate_initIdt, h, Option.map_none, Option.getD_none]
  decide

end

/-- Every exception and every interrupt ends in one of the five handlers, at its address and in
the kernel's code segment, whatever the table register and the controllers held before: the
events without a handler in that for protection faults, if they are no faults themselves, or
in that for double faults. -/
theorem deliver_initIdt (symbols : Symbols)
    (hcanonical : ∀ handler ∈ symbols.handlers, isCanonical handler = true)
    (idtPtr : IDTPtr) (pics : Pair) (e : Event) :
    ((Interrupts.beforeInit idtPtr pics).initIdt symbols).tables.deliver e =
      endOf symbols e := by
  have hgp : handlerOf symbols (13 : Byte).toFin =
      some symbols.exceptionHandlerGp := rfl
  have hdf : handlerOf symbols (8 : Byte).toFin =
      some symbols.exceptionHandlerDf := rfl
  have hprotection := check_some idtPtr pics hgp hcanonical
  have hdouble := check_some idtPtr pics hdf hcanonical
  unfold endOf
  cases h : handlerOf symbols e.vector.toFin with
  | some handler => exact Tables.deliver_of_ok (check_some idtPtr pics h hcanonical)
  | none =>
    have hcheck := check_none idtPtr pics h
    cases hs : e.severity with
    | benign =>
      rw [Tables.deliver_benign hcheck hs, Tables.deliverFault, Fault.vector, hprotection]
      exact (if_pos rfl).symm
    | contributory =>
      rw [Tables.deliver_severe hcheck (.inl hs), Tables.deliverDouble, hdouble]
      exact (if_neg Severity.noConfusion).symm
    | pageFault =>
      rw [Tables.deliver_severe hcheck (.inr hs), Tables.deliverDouble, hdouble]
      exact (if_neg Severity.noConfusion).symm
    | doubleFault =>
      -- the vector of double faults has a handler
      rw [Event.vector_of_doubleFault hs] at h
      cases h

/-- Handlers one after the other. -/
def sampleSymbols : Symbols := ⟨0x200000, 0x100000, 0x100100, 0x100200, 0x100300, 0x100400⟩

/-- Controllers that the firmware left with everything requested. -/
def samplePics : Pair :=
  ⟨⟨fun _ => true, fun _ => true, 0, 0, 0, 0, .ready⟩,
    ⟨fun _ => true, fun _ => true, 0, 0, 0, 0, .ready⟩⟩

theorem sampleSymbols_canonical :
    ∀ handler ∈ sampleSymbols.handlers, isCanonical handler = true := by
  simp [sampleSymbols, Symbols.handlers, isCanonical]

/-- A page fault is a double fault here. -/
theorem deliver_initIdt_pageFault :
    ((Interrupts.beforeInit ⟨0, 0⟩ samplePics).initIdt sampleSymbols).tables.deliver
      (.exception ⟨14, by decide⟩) = .handler 8 (kernelGate 0x100200) := by
  have h := deliver_initIdt sampleSymbols sampleSymbols_canonical ⟨0, 0⟩ samplePics
    (.exception ⟨14, by decide⟩)
  exact h

end EmergenceOS.Hal.InterruptTable
