/- Module: EmergenceOS/Boot/Interrupts
   digest: Interrupt requests, the handler that runs for them and the pulses that it counts. -/

import EmergenceOS.Boot.TimerHandler
import EmergenceOS.Hal.InterruptTable

/-!
From the end of init_idt on, any device may request an interrupt at any time. The handler of
the timer runs to its end while requests come in; of the other handlers none returns to a
program that an interrupt stopped.
-/

set_option autoImplicit false
set_option relaxedAutoImplicit false

namespace EmergenceOS.Boot.Interrupts

open EmergenceOS.Lib.Bytes EmergenceOS.Lib.WordMemory EmergenceOS.Lib.X86
open EmergenceOS.Lib.InterruptGate EmergenceOS.Lib.Pic8259
open EmergenceOS.Hal.Idt EmergenceOS.Hal.InterruptTable
open EmergenceOS.Boot.Handlers EmergenceOS.Boot.TimerHandler

/-- The kernel's globals, the controllers, the interrupt flag and the handler that runs. -/
structure System where
  world : TimerGlobals
  pics : Pair
  tables : Tables
  enabled : Bool
  running : Option Outcome

/-- A handler ends with the code that the compiler made of it, for a stopped program. -/
inductive Step
  | raise (line : Line)
  | accept
  | finish (c : Clobber) (ret : Addr) (m : Machine TimerGlobals)
  | sti

/-- The interrupt that is pending goes through the table. -/
def System.accept (s : System) : System :=
  match s.pics.pending with
  | none => s
  | some line =>
    let (v, pics) := s.pics.acknowledge line
    { s with pics := pics, enabled := false, running := some (s.tables.deliver (.interrupt v)) }

/-- The handler's writes reach the controllers; the flags of the program come back. -/
def System.finish (s : System) (handler : Addr) (c : Clobber) (ret : Addr)
    (m : Machine TimerGlobals) : System :=
  match timerPath c handler ret { m with world := s.world } with
  | none => s
  | some m' =>
    { s with
      world := m'.world
      pics := s.pics.writes (m'.world.portWrites.drop s.world.portWrites.length)
      enabled := true
      running := none }

def System.apply (symbols : Symbols) (s : System) : Step → System
  | .raise line => { s with pics := s.pics.raise line }
  | .accept => if s.enabled then s.accept else s
  | .finish c ret m =>
    match s.running with
    | some (.handler _ g) =>
      if g.offset = symbols.timerInterruptHandler then s.finish g.offset c ret m else s
    | _ => s
  | .sti => if s.running.isNone then { s with enabled := true } else s

/-- After init_idt, with the interrupts still off. -/
def System.boot (symbols : Symbols) (idtPtr : IDTPtr) (pics : Pair) (world : TimerGlobals) :
    System :=
  let s := (Interrupts.beforeInit idtPtr pics).initIdt symbols
  ⟨world, s.pics, s.tables, false, none⟩

def timerInput : Fin 8 := ⟨0, by decide⟩

def timerLine : Line := .master timerInput

/-- What the handler does to the globals. -/
def timerReturn (g : TimerGlobals) : TimerGlobals :=
  emit 0x20 0x20 { g with temporalPulse := g.temporalPulse + 1 }

def System.requested (s : System) : Bool := s.pics.master.requested timerInput

/-- Ticks that are taken in but not yet counted. -/
def System.waiting (s : System) : Nat := s.running.isSome.toNat + s.requested.toNat

def Step.tick : Step → Nat
  | .raise line => if line = timerLine then 1 else 0
  | _ => 0

def ticks (steps : List Step) : Nat := (steps.map Step.tick).sum

/-- The ticks that come while the one before still is a request. -/
def merged (symbols : Symbols) : System → List Step → Nat
  | _, [] => 0
  | s, e :: es => (if s.requested then e.tick else 0) + merged symbols (s.apply symbols e) es

/-- The code of the handler, whichever program it stops. -/
theorem timerPath_world (c : Clobber) (handler ret : Addr) (m : Machine TimerGlobals) :
    ∃ m', timerPath c handler ret m = some m' ∧ m'.world = timerReturn m.world := by
  obtain ⟨t, ht, htstack, -, htworld⟩ :=
    exec_timerCall c ret (m.deliver_stack kernelCodeSelector handler) (by simp)
  obtain ⟨s, hs, -, -, hworld⟩ := portExec_timerEnd c htstack (by simp)
  refine ⟨s.iret, ?_, ?_⟩
  · rw [timerPath, timerInterruptHandler, portExec_append, portExec_code, ht, Option.bind_some]
    exact hs
  · change s.world = _
    rw [hworld, htworld]
    rfl

/-- Of all lines only the timer's gets through, and only its handler ever runs. -/
structure OnlyTimer (symbols : Symbols) (s : System) : Prop where
  masterMasked : ∀ j, s.pics.master.masked j = decide (j ≠ timerInput)
  slaveMasked : ∀ j, s.pics.slave.masked j = true
  base : s.pics.master.base = 0x20
  manualEnd : s.pics.master.mode.getLsbD 1 = false
  served : ∀ j, s.pics.master.inService j = (s.running.isSome && decide (j = timerInput))
  running : s.running = none ∨
    s.running = some (.handler 32 (kernelGate symbols.timerInterruptHandler))
  quiet : s.running.isSome = true → s.enabled = false
  gate : s.tables.check 32 = .ok (kernelGate symbols.timerInterruptHandler)

section
variable {symbols : Symbols} {s : System}

/-- What one step counts: ticks go from the request over the handler to the pulse counter. -/
def Counts (s s' : System) (e : Step) : Prop :=
  ∃ n, s'.world = timerReturn^[n] s.world ∧
    n + s'.waiting + (if s.requested then e.tick else 0) = s.waiting + e.tick

theorem counts_of_same {s' : System} {e : Step} (he : e.tick = 0) (hworld : s'.world = s.world)
    (hwaiting : s'.waiting = s.waiting) : Counts s s' e :=
  ⟨0, hworld, by rw [hwaiting, he, ite_self, Nat.zero_add, Nat.add_zero]⟩

theorem OnlyTimer.seen_served (h : OnlyTimer symbols s) :
    s.pics.seen.served = if s.running.isSome then some timerInput else none := by
  split
  · rename_i hrunning
    have hserved (j : Fin 8) : s.pics.master.inService j = decide (j = timerInput) := by
      rw [h.served, hrunning, Bool.true_and]
    exact (congrArg (fun f => (List.finRange 8).find? f) (funext hserved)).trans (by decide)
  · rename_i hrunning
    rw [Chip.served_eq_none_iff]
    intro j
    exact (h.served j).trans (by simp [hrunning])

theorem OnlyTimer.pending (h : OnlyTimer symbols s) :
    s.pics.pending = if s.requested && s.running.isNone then some timerLine else none := by
  have hslave : s.pics.slave.output = none := Chip.output_eq_none h.slaveMasked
  have hne : timerInput ≠ cascadeInput := by decide
  have hrequested : s.pics.seen.requested timerInput = s.requested :=
    Function.update_of_ne hne s.pics.slave.output.isSome s.pics.master.requested
  have hmasked : s.pics.seen.masked timerInput = false := (h.masterMasked timerInput).trans rfl
  have heligible : s.pics.seen.eligible timerInput = (s.requested && s.running.isNone) := by
    rw [Chip.eligible, hrequested, hmasked, h.seen_served]
    cases s.running <;> simp
  rw [Pair.pending, Chip.output_of_unmasked (c := s.pics.seen) h.masterMasked, heligible]
  split
  · rw [Option.bind_some, if_neg hne]
    rfl
  · rfl

theorem raise_step (h : OnlyTimer symbols s) (line : Line) :
    OnlyTimer symbols (s.apply symbols (.raise line)) ∧
      Counts s (s.apply symbols (.raise line)) (.raise line) := by
  cases line with
  | master i =>
    simp only [System.apply, Pair.raise]
    split
    · rename_i hi
      refine ⟨h, counts_of_same (if_neg ?_) rfl rfl⟩
      rintro ⟨⟩
      exact absurd hi (by decide)
    · refine ⟨{ h with }, 0, rfl, ?_⟩
      by_cases hi : i = timerInput
      · obtain rfl := hi
        have htick : (Step.raise (.master timerInput)).tick = 1 := rfl
        simp only [System.waiting, System.requested, Chip.raise, Function.update_self, htick]
        cases s.pics.master.requested timerInput <;> simp
      · have htick : (Step.raise (.master i)).tick = 0 := if_neg fun he => hi (Line.master.inj he)
        simp only [System.waiting, System.requested, Chip.raise,
          Function.update_of_ne (Ne.symm hi), htick, ite_self, Nat.zero_add]
  | slave i => exact ⟨{ h with }, counts_of_same rfl rfl rfl⟩

/-- The timer's interrupt on its way into the handler. -/
theorem OnlyTimer.accept_eq (h : OnlyTimer symbols s) (hpending : s.pics.pending = some timerLine) :
    s.accept = { s with
      pics := { s.pics with master := s.pics.master.acknowledge timerInput }
      enabled := false
      running := some (.handler 32 (kernelGate symbols.timerInterruptHandler)) } := by
  have hvector : s.pics.master.vector timerInput = 32 := by
    rw [Chip.vector, h.base]
    rfl
  have hdeliver := Tables.deliver_of_ok (e := .interrupt 32) h.gate
  simp only [System.accept, hpending, timerLine, Pair.acknowledge, hvector, hdeliver]
  rfl

theorem accept_step (h : OnlyTimer symbols s) :
    OnlyTimer symbols (s.apply symbols .accept) ∧ Counts s (s.apply symbols .accept) .accept := by
  simp only [System.apply]
  split
  · rename_i henabled
    have hrunning : s.running = none := by
      cases hr : s.running with
      | none => rfl
      | some o => exact absurd (h.quiet (by rw [hr]; rfl)) (by simp [henabled])
    have hpending := h.pending
    rw [hrunning, Option.isNone_none, Bool.and_true] at hpending
    cases hrequested : s.requested with
    | false =>
      rw [hrequested, if_neg Bool.false_ne_true] at hpending
      simp only [System.accept, hpending]
      exact ⟨h, counts_of_same rfl rfl rfl⟩
    | true =>
      rw [hrequested, if_pos rfl] at hpending
      rw [h.accept_eq hpending]
      have hmanual := h.manualEnd
      refine ⟨{ h with
        served := fun j => ?_
        running := .inr rfl
        quiet := fun _ => rfl }, 0, rfl, ?_⟩
      · have hserved := h.served j
        rw [hrunning, Option.isSome_none, Bool.false_and] at hserved
        rw [Chip.inService_acknowledge hmanual, hserved]
        simp
      · simp only [System.requested] at hrequested
        simp only [System.waiting, System.requested, Chip.acknowledge, Function.update_self,
          hrunning, hrequested, Step.tick]
        rfl
  · exact ⟨h, counts_of_same rfl rfl rfl⟩

theorem finish_step (h : OnlyTimer symbols s) (c : Clobber) (ret : Addr)
    (m : Machine TimerGlobals) :
    OnlyTimer symbols (s.apply symbols (.finish c ret m)) ∧
      Counts s (s.apply symbols (.finish c ret m)) (.finish c ret m) := by
  simp only [System.apply]
  rcases h.running with hr | hr
  · simp only [hr]
    exact ⟨h, counts_of_same rfl rfl rfl⟩
  · obtain ⟨m', hm', hworld⟩ := timerPath_world c symbols.timerInterruptHandler ret
      { m with world := s.world }
    have hwrites : s.pics.writes [(0x20, 0x20)] =
        { s.pics with master := s.pics.master.retire timerInput } := by
      have hserved : s.pics.master.served = some timerInput := by
        have hseen := h.seen_served
        rwa [hr] at hseen
      change { s.pics with master := s.pics.master.writeCommand 0x20 } = _
      rw [Chip.writeCommand_endOfInterrupt hserved]
    have hfinish : s.finish symbols.timerInterruptHandler c ret m =
        { s with
          world := timerReturn s.world
          pics := { s.pics with master := s.pics.master.retire timerInput }
          enabled := true
          running := none } := by
      have hdrop : (timerReturn s.world).portWrites.drop s.world.portWrites.length =
          [(0x20, 0x20)] := List.drop_left
      simp only [System.finish, hm', hworld, hdrop, hwrites]
    simp only [hr, kernelGate, if_pos, hfinish]
    refine ⟨{ h with
      served := fun j => ?_
      running := .inl rfl
      quiet := fun hsome => absurd hsome Bool.false_ne_true }, 1, rfl, ?_⟩
    · have hserved := h.served j
      rw [hr, Option.isSome_some, Bool.true_and] at hserved
      rw [Chip.inService_retire, hserved]
      simp
    · have htick : (Step.finish c ret m).tick = 0 := rfl
      rw [htick, ite_self]
      simp only [System.waiting, System.requested, Chip.retire, hr]
      simp

theorem sti_step (h : OnlyTimer symbols s) :
    OnlyTimer symbols (s.apply symbols .sti) ∧ Counts s (s.apply symbols .sti) .sti := by
  simp only [System.apply]
  split
  · rename_i hrunning
    have hnot : s.running.isSome = false := by simpa using hrunning
    exact ⟨{ h with quiet := fun hsome => absurd (hnot.symm.trans hsome) Bool.false_ne_true },
      counts_of_same rfl rfl rfl⟩
  · exact ⟨h, counts_of_same rfl rfl rfl⟩

theorem apply_step (h : OnlyTimer symbols s) (e : Step) :
    OnlyTimer symbols (s.apply symbols e) ∧ Counts s (s.apply symbols e) e := by
  cases e with
  | raise line => exact raise_step h line
  | accept => exact accept_step h
  | finish c ret m => exact finish_step h c ret m
  | sti => exact sti_step h

theorem run_counts (h : OnlyTimer symbols s) (steps : List Step) :
    OnlyTimer symbols (steps.foldl (System.apply symbols) s) ∧
      ∃ n, (steps.foldl (System.apply symbols) s).world = timerReturn^[n] s.world ∧
        n + (steps.foldl (System.apply symbols) s).waiting + merged symbols s steps =
          s.waiting + ticks steps := by
  induction steps generalizing s with
  | nil => exact ⟨h, 0, rfl, by simp [merged, ticks]⟩
  | cons e es ih =>
    obtain ⟨hnext, n, hworld, hcount⟩ := apply_step h e
    obtain ⟨hlast, n', hworld', hcount'⟩ := ih hnext
    refine ⟨hlast, n' + n, ?_, ?_⟩
    · rw [List.foldl_cons, hworld', hworld, Function.iterate_add_apply]
    · simp only [List.foldl_cons, merged, ticks, List.map_cons, List.sum_cons] at hcount' ⊢
      omega

end

theorem temporalPulse_timerReturn (n : Nat) (g : TimerGlobals) :
    (timerReturn^[n] g).temporalPulse = g.temporalPulse + BitVec.ofNat 64 n := by
  induction n with
  | zero => exact (BitVec.add_zero _).symm
  | succ n ih =>
    rw [Function.iterate_succ_apply', timerReturn, emit, ih, BitVec.ofNat_add, BitVec.add_assoc]
    rfl

theorem boot_onlyTimer {symbols : Symbols}
    (hcanonical : ∀ handler ∈ symbols.handlers, isCanonical handler = true)
    (idtPtr : IDTPtr) (pics : Pair) (world : TimerGlobals) :
    OnlyTimer symbols (System.boot symbols idtPtr pics world) := by
  have hmaster : ∀ j : Fin 8, (0xFE : Byte).getLsbD j.val = decide (j ≠ timerInput) := by decide
  have hslave : ∀ j : Fin 8, (0xFF : Byte).getLsbD j.val = true := by decide
  have hmode : (0x01 : Byte).getLsbD 1 = false := by decide
  have htimer : handlerOf symbols (32 : Byte).toFin =
      some symbols.timerInterruptHandler := rfl
  exact {
    masterMasked := hmaster
    slaveMasked := hslave
    base := rfl
    manualEnd := hmode
    served := fun _ => rfl
    running := .inl rfl
    quiet := fun _ => rfl
    gate := check_some idtPtr pics htimer hcanonical }

/-- Whatever the devices request and in whatever state the firmware left the controllers, after
init_idt the only handler that runs for an interrupt is the timer's, and each tick is a
pulse, but for those that are still on their way and those that came while the tick before
was not yet taken. -/
theorem run_pulses (symbols : Symbols)
    (hcanonical : ∀ handler ∈ symbols.handlers, isCanonical handler = true)
    (idtPtr : IDTPtr) (pics : Pair) (world : TimerGlobals) (steps : List Step) :
    ((steps.foldl (System.apply symbols) (System.boot symbols idtPtr pics world)).running = none ∨
      (steps.foldl (System.apply symbols) (System.boot symbols idtPtr pics world)).running =
        some (.handler 32 (kernelGate symbols.timerInterruptHandler))) ∧
      ∃ n, (steps.foldl (System.apply symbols)
          (System.boot symbols idtPtr pics world)).world.temporalPulse =
          world.temporalPulse + BitVec.ofNat 64 n ∧
        n + (steps.foldl (System.apply symbols) (System.boot symbols idtPtr pics world)).waiting +
          merged symbols (System.boot symbols idtPtr pics world) steps = ticks steps := by
  obtain ⟨hlast, n, hworld, hcount⟩ :=
    run_counts (boot_onlyTimer hcanonical idtPtr pics world) steps
  refine ⟨hlast.running, n, ?_, ?_⟩
  · rw [hworld, temporalPulse_timerReturn]
    rfl
  · rw [hcount]
    exact Nat.zero_add _

/-- Three ticks and a key: the second tick finds the first one not yet taken, and the third one
comes while the handler runs. -/
def sampleSteps : List Step :=
  [.raise timerLine, .raise (.master ⟨1, by decide⟩), .raise timerLine, .sti, .accept,
    .raise timerLine, .finish (gentle 0x100000) 0x100020
      ⟨fun _ => 0x9000, 0x100000, 8, 0x202, 16, fun _ => 0, ⟨0, []⟩⟩]

/-- One tick is counted, one is waiting and one was merged. -/
theorem run_pulses_merged :
    (sampleSteps.foldl (System.apply sampleSymbols)
      (System.boot sampleSymbols ⟨0, 0⟩ samplePics ⟨7, []⟩)).world.temporalPulse = 8 := by
  have hwaiting : (sampleSteps.foldl (System.apply sampleSymbols)
      (System.boot sampleSymbols ⟨0, 0⟩ samplePics ⟨7, []⟩)).waiting = 1 := by rfl
  have hmerged : merged sampleSymbols (System.boot sampleSymbols ⟨0, 0⟩ samplePics ⟨7, []⟩)
      sampleSteps = 1 := by rfl
  have hticks : ticks sampleSteps = 3 := rfl
  obtain ⟨-, n, hpulse, hcount⟩ :=
    run_pulses sampleSymbols sampleSymbols_canonical ⟨0, 0⟩ samplePics ⟨7, []⟩ sampleSteps
  rw [hwaiting, hmerged, hticks] at hcount
  obtain rfl : n = 1 := by omega
  exact hpulse

end EmergenceOS.Boot.Interrupts
