/- Module: EmergenceOS/Core/TopologicalVM
   digest: The exit loop of the virtual machine dispatches to the handlers in its manifold. -/

import EmergenceOS.Core.LogicTransducer
import EmergenceOS.Vdev.PhaseFoldBounds
import EmergenceOS.Vdev.TopologyFlat
import EmergenceOS.Vdev.TopologyRoute

/-!
What the guest leaves in the context at an exit, and what a handler does to the context and
the manifold, is code that is not in the repository. The preemption service only ever
moves its horizon here, so it is kept apart from the manifold of the dispatch table.
-/

set_option autoImplicit false
set_option relaxedAutoImplicit false

namespace EmergenceOS.Core.TVM

open EmergenceOS.Lib.Bytes EmergenceOS.Lib.Walk EmergenceOS.Core.LogicTransducer
open EmergenceOS.Vdev.Topology EmergenceOS.Vdev.Topology.SubstrateManifold
open EmergenceOS.Vdev.SubstrateService

structure GuestContext where
  gprs : Fin 32 → BitVec 64
  rip : BitVec 64
  rsp : BitVec 64
  exitReason : BitVec 32
  exitQual : BitVec 32

/-- What the code at an address does when it is called as an exit handler. -/
abbrev TopologicalExitHandlers :=
  BitVec 64 → GuestContext → SubstrateManifold → GuestContext × SubstrateManifold

/-- The last field lists the handlers called so far, each with the exit reason. -/
structure TopologicalVM where
  substrate : SubstrateManifold
  preemptionService : Option Service
  context : GuestContext
  vmexits : BitVec 64
  isActive : Bool
  called : List (BitVec 64 × BitVec 32)

def hypervisorDispatchRoot : BitVec 64 := 0x8000000000

/-- HYPERVISOR_DISPATCH_ROOT | (exit_reason << 10). -/
def dispatchVaddr (exitReason : BitVec 32) : BitVec 64 :=
  hypervisorDispatchRoot ||| (exitReason.setWidth 64 <<< 10)

namespace TopologicalVM

def new (topo : SubstrateManifold) (srv : Option Service) : TopologicalVM :=
  ⟨topo, srv, ⟨fun _ => 0, 0, 0, 0, 0⟩, 0, false, []⟩

def loadGuest (vm : TopologicalVM) (image : Buffer) (size : Nat) (entryPoint : BitVec 64) :
    TopologicalVM :=
  { vm with
    substrate := vm.substrate.materializeRange 0x1000 image size
    context := { vm.context with rip := entryPoint }
    isActive := true }

/-- One turn of the loop of run, where vmx_enter_guest leaves the given context. -/
def turn (handlers : TopologicalExitHandlers) (vm : TopologicalVM) (exit : GuestContext) :
    TopologicalVM :=
  if !vm.isActive then vm
  else
    let vm := { vm with context := exit }
    if vm.context.exitReason = 12 ∧ vm.preemptionService.isSome then
      { vm with preemptionService := vm.preemptionService.map (·.utilizeIdleCycles 128) }
    else
      let vm := { vm with vmexits := vm.vmexits + 1 }
      let (handlerState, substrate) :=
        vm.substrate.holographicFetch (dispatchVaddr vm.context.exitReason)
      let vm := { vm with substrate := substrate }
      if handlerState.route = haltRoute ∨ handlerState.route = errorRoute then
        { vm with isActive := false }
      else if handlerState.lo ≠ 0 then
        let (context, substrate) := handlers handlerState.lo vm.context vm.substrate
        let called := vm.called ++ [(handlerState.lo, vm.context.exitReason)]
        { vm with context, substrate, called }
      else { vm with isActive := false }

/-- The loop, for the exits that the guest takes as long as it is entered. -/
def run (handlers : TopologicalExitHandlers) (vm : TopologicalVM) (exits : List GuestContext) :
    TopologicalVM :=
  exits.foldl (turn handlers) vm

end TopologicalVM

/-- The handler that the loop finds for an exit reason, if it does not stop. -/
def handlerOf (m : SubstrateManifold) (exitReason : BitVec 32) : Option (BitVec 64) :=
  let handlerState := (m.holographicFetch (dispatchVaddr exitReason)).1
  if handlerState.route = haltRoute ∨ handlerState.route = errorRoute then none
  else if handlerState.lo ≠ 0 then some handlerState.lo
  else none

/-- Handlers that leave the dispatch table alone. -/
def KeepsTable (handlers : TopologicalExitHandlers) : Prop :=
  ∀ a ctx m r, handlerOf (handlers a ctx m).2 r = handlerOf m r

section
variable (t : BitVec 32 → Option (BitVec 64)) (preempts : Bool)

/-- The exit is an idle one, and there is a service to hand it to. -/
def idles (r : BitVec 32) : Bool := preempts && decide (r = 12)

/-- The guest is entered again after the exit. -/
def resumes (r : BitVec 32) : Bool := idles preempts r || (t r).isSome

/-- The handler called at an exit. -/
def call (r : BitVec 32) : Option (BitVec 64 × BitVec 32) :=
  if idles preempts r then none else (t r).map fun a => (a, r)

/-- The exits up to the first one that ends the run, without it. -/
def resumed (rs : List (BitVec 32)) : List (BitVec 32) := rs.takeWhile (resumes t preempts)

/-- A run as a table of handlers prescribes it. -/
structure RunsAs (vm vm' : TopologicalVM) (rs : List (BitVec 32)) : Prop where
  active : vm'.isActive = rs.all (resumes t preempts)
  called : vm'.called = vm.called ++ (resumed t preempts rs).filterMap (call t preempts)
  vmexits : vm'.vmexits = vm.vmexits + BitVec.ofNat 64
    ((resumed t preempts rs).countP (!idles preempts ·) +
      if rs.all (resumes t preempts) then 0 else 1)
  idled : vm'.preemptionService = (Option.map (·.utilizeIdleCycles 128))^[
    (resumed t preempts rs).countP (idles preempts)] vm.preemptionService

end

theorem run_stopped (handlers : TopologicalExitHandlers) {vm : TopologicalVM}
    (h : vm.isActive = false) (exits : List GuestContext) : vm.run handlers exits = vm := by
  induction exits with
  | nil => rfl
  | cons exit exits ih =>
    have hturn : vm.turn handlers exit = vm := by
      rw [TopologicalVM.turn, h]
      rfl
    rw [TopologicalVM.run, List.foldl_cons, hturn]
    exact ih

section
variable {handlers : TopologicalExitHandlers} {vm : TopologicalVM} {exit : GuestContext}

theorem turn_idle (hactive : vm.isActive = true)
    (h : idles vm.preemptionService.isSome exit.exitReason = true) :
    vm.turn handlers exit =
      { vm with
        context := exit
        preemptionService := vm.preemptionService.map (·.utilizeIdleCycles 128) } := by
  rw [idles, Bool.and_eq_true, decide_eq_true_eq] at h
  have hidle : exit.exitReason = 12 ∧ vm.preemptionService.isSome = true := ⟨h.2, h.1⟩
  rw [TopologicalVM.turn, hactive]
  simp only [Bool.not_true, Bool.false_eq_true, if_false]
  rw [if_pos hidle]

/-- Any other exit is counted, and looked up in the table. -/
theorem turn_dispatch (handlers : TopologicalExitHandlers) (hactive : vm.isActive = true)
    (h : idles vm.preemptionService.isSome exit.exitReason = false) :
    (vm.turn handlers exit).vmexits = vm.vmexits + 1 ∧
      (vm.turn handlers exit).preemptionService = vm.preemptionService ∧
      match handlerOf vm.substrate exit.exitReason with
      | none => (vm.turn handlers exit).isActive = false ∧
          (vm.turn handlers exit).called = vm.called
      | some a => (vm.turn handlers exit).isActive = true ∧
          (vm.turn handlers exit).called = vm.called ++ [(a, exit.exitReason)] ∧
          (vm.turn handlers exit).substrate = (handlers a exit vm.substrate).2 := by
  have hbusy : ¬(exit.exitReason = 12 ∧ vm.preemptionService.isSome = true) := by
    rintro ⟨hreason, hservice⟩
    rw [idles, hservice, decide_eq_true hreason] at h
    cases h
  rw [TopologicalVM.turn, hactive]
  simp only [Bool.not_true, Bool.false_eq_true, if_false, holographicFetch_snd]
  rw [if_neg hbusy, handlerOf]
  by_cases hroute : (vm.substrate.holographicFetch (dispatchVaddr exit.exitReason)).1.route =
      haltRoute ∨ (vm.substrate.holographicFetch (dispatchVaddr exit.exitReason)).1.route =
        errorRoute
  · simp only [if_pos hroute]
    exact ⟨trivial, trivial, trivial, trivial⟩
  · simp only [if_neg hroute]
    by_cases hlo : (vm.substrate.holographicFetch (dispatchVaddr exit.exitReason)).1.lo ≠ 0
    · simp only [if_pos hlo]
      exact ⟨trivial, trivial, trivial, trivial, trivial⟩
    · simp only [if_neg hlo]
      exact ⟨trivial, trivial, trivial, trivial⟩

end

section
variable {t : BitVec 32 → Option (BitVec 64)} {preempts : Bool} {vm mid vm' : TopologicalVM}
  {r : BitVec 32} {rs : List (BitVec 32)}

theorem RunsAs.idle (h : RunsAs t preempts mid vm' rs) (hr : idles preempts r = true)
    (hcalled : mid.called = vm.called) (hexits : mid.vmexits = vm.vmexits)
    (hservice : mid.preemptionService = vm.preemptionService.map (·.utilizeIdleCycles 128)) :
    RunsAs t preempts vm vm' (r :: rs) := by
  have hres : resumes t preempts r = true := by rw [resumes, hr, Bool.true_or]
  have hkept : resumed t preempts (r :: rs) = r :: resumed t preempts rs :=
    List.takeWhile_cons_of_pos hres
  obtain ⟨hactive, hcalls, hcount, hidled⟩ := h
  refine ⟨?_, ?_, ?_, ?_⟩
  · rw [List.all_cons, hres, Bool.true_and, hactive]
  · rw [hkept, List.filterMap_cons, call, hr, if_pos rfl, hcalls, hcalled]
  · rw [hkept, List.all_cons, hres, Bool.true_and, List.countP_cons_of_neg (by simp [hr]), hcount,
      hexits]
  · rw [hkept, List.countP_cons_of_pos hr, Function.iterate_succ_apply, hidled, hservice]

theorem RunsAs.handled (h : RunsAs t preempts mid vm' rs) (hr : idles preempts r = false)
    {a : BitVec 64} (ht : t r = some a) (hcalled : mid.called = vm.called ++ [(a, r)])
    (hexits : mid.vmexits = vm.vmexits + 1)
    (hservice : mid.preemptionService = vm.preemptionService) :
    RunsAs t preempts vm vm' (r :: rs) := by
  have hres : resumes t preempts r = true := by rw [resumes, ht, Option.isSome_some, Bool.or_true]
  have hkept : resumed t preempts (r :: rs) = r :: resumed t preempts rs :=
    List.takeWhile_cons_of_pos hres
  have hcall : call t preempts r = some (a, r) := by
    rw [call, hr, ht]
    rfl
  obtain ⟨hactive, hcalls, hcount, hidled⟩ := h
  refine ⟨?_, ?_, ?_, ?_⟩
  · rw [List.all_cons, hres, Bool.true_and, hactive]
  · rw [hkept, List.filterMap_cons, hcall, hcalls, hcalled, List.append_assoc]
    rfl
  · rw [hkept, List.all_cons, hres, Bool.true_and, List.countP_cons_of_pos (by simp [hr]), hcount,
      hexits, Nat.add_right_comm]
    generalize List.countP _ _ + _ = n
    rw [BitVec.ofNat_add, BitVec.add_assoc, BitVec.add_comm 1]
    rfl
  · rw [hkept, List.countP_cons_of_neg (by simp [hr]), hidled, hservice]

theorem runsAs_stop (hr : idles preempts r = false) (ht : t r = none)
    (hactive : mid.isActive = false) (hcalled : mid.called = vm.called)
    (hexits : mid.vmexits = vm.vmexits + 1)
    (hservice : mid.preemptionService = vm.preemptionService) :
    RunsAs t preempts vm mid (r :: rs) := by
  have hres : resumes t preempts r = false := by rw [resumes, hr, ht]; rfl
  have hkept : resumed t preempts (r :: rs) = [] :=
    List.takeWhile_cons_of_neg (by rw [hres]; exact Bool.false_ne_true)
  refine ⟨?_, ?_, ?_, ?_⟩
  · rw [List.all_cons, hres, Bool.false_and, hactive]
  · rw [hkept, List.filterMap_nil, List.append_nil, hcalled]
  · rw [hkept, List.all_cons, hres, hexits]
    rfl
  · rw [hkept, hservice]
    rfl

end

/-- From an active machine on, the loop does what the table in the manifold prescribes for the
exits that occur. -/
theorem run_runsAs {handlers : TopologicalExitHandlers} (hkeep : KeepsTable handlers)
    {t : BitVec 32 → Option (BitVec 64)} {vm : TopologicalVM} (hactive : vm.isActive = true)
    {exits : List GuestContext}
    (ht : ∀ exit ∈ exits, idles vm.preemptionService.isSome exit.exitReason = false →
      handlerOf vm.substrate exit.exitReason = t exit.exitReason) :
    RunsAs t vm.preemptionService.isSome vm (vm.run handlers exits)
      (exits.map GuestContext.exitReason) := by
  induction exits generalizing vm with
  | nil =>
    refine ⟨hactive, ?_, ?_, rfl⟩
    · exact (List.append_nil _).symm
    · exact (BitVec.add_zero _).symm
  | cons exit exits ih =>
    rw [List.map_cons, TopologicalVM.run, List.foldl_cons]
    have hlater := fun exit' he => ht exit' (List.mem_cons_of_mem exit he)
    have hfirst := ht exit List.mem_cons_self
    cases hidle : idles vm.preemptionService.isSome exit.exitReason with
    | true =>
      rw [turn_idle hactive hidle]
      have hrest := @ih { vm with
        context := exit
        preemptionService := vm.preemptionService.map (·.utilizeIdleCycles 128) } hactive
      simp only [Option.isSome_map] at hrest
      have hrest := hrest hlater
      exact hrest.idle hidle rfl rfl rfl
    | false =>
      obtain ⟨hexits, hservice, hcase⟩ := turn_dispatch handlers hactive hidle
      rw [hfirst hidle] at hcase
      cases hhandler : t exit.exitReason with
      | none =>
        rw [hhandler] at hcase
        have hstopped := run_stopped handlers hcase.1 exits
        rw [TopologicalVM.run] at hstopped
        rw [hstopped]
        exact runsAs_stop hidle hhandler hcase.1 hcase.2 hexits hservice
      | some a =>
        rw [hhandler] at hcase
        have hrest := ih hcase.1 fun exit' he hbusy => by
          rw [hservice] at hbusy
          rw [hcase.2.2, hkeep a exit vm.substrate, hlater exit' he hbusy]
        rw [hservice] at hrest
        exact hrest.handled hidle hhandler hcase.2.1 hexits hservice

/-! The table of handlers. -/

/-- Exit reasons that share an entry of the table agree with this bit set. -/
def entryOf (r : BitVec 32) : BitVec 32 := r ||| 0x20000000

/-- Bit 29 of the reason is where the root of the table has its bit. -/
theorem toNat_dispatchVaddr (r : BitVec 32) :
    (dispatchVaddr r).toNat = 1024 * (entryOf r).toNat := by
  have heq : dispatchVaddr r = (entryOf r).setWidth 64 <<< 10 := by
    have hroot : hypervisorDispatchRoot = (0x20000000 : BitVec 32).setWidth 64 <<< 10 := by decide
    rw [dispatchVaddr, hroot, entryOf, BitVec.setWidth_or, BitVec.or_comm,
      BitVec.shiftLeft_or_distrib]
  have hlt := (entryOf r).isLt
  rw [heq, BitVec.toNat_shiftLeft, BitVec.toNat_setWidth, Nat.shiftLeft_eq]
  omega

/-- Other reasons share an entry only if they differ in this bit alone. -/
theorem entryOf_eq_iff {r r' : BitVec 32} (h : r ^^^ r' ≠ 0x20000000) :
    entryOf r = entryOf r' ↔ r = r' := by
  refine ⟨fun he => ?_, congrArg entryOf⟩
  have hbits (i : Nat) (hi : i ≠ 29) : r.getLsbD i = r'.getLsbD i := by
    have hbit : (0x20000000 : BitVec 32).getLsbD i = false := by
      rw [show (0x20000000 : BitVec 32) = BitVec.twoPow 32 29 by decide, BitVec.getLsbD_twoPow]
      simp [Ne.symm hi]
    have hor := congrArg (BitVec.getLsbD · i) he
    simpa only [entryOf, BitVec.getLsbD_or, hbit, Bool.or_false] using hor
  by_cases hlast : r.getLsbD 29 = r'.getLsbD 29
  · refine BitVec.eq_of_getLsbD_eq fun i _ => ?_
    by_cases hi : i = 29
    · rw [hi, hlast]
    · exact hbits i hi
  · refine absurd (BitVec.eq_of_getLsbD_eq fun i hi => ?_) h
    rw [show (0x20000000 : BitVec 32) = BitVec.twoPow 32 29 by decide, BitVec.getLsbD_twoPow,
      BitVec.getLsbD_xor]
    by_cases h29 : i = 29
    · subst h29
      simpa using hlast
    · rw [hbits i h29]
      simp [Ne.symm h29]

/-- The handler that was burned last for an exit reason; zero is none. -/
def handlerFor (entries : List (BitVec 32 × BitVec 64)) (r : BitVec 32) : Option (BitVec 64) :=
  (table entries r).filter (· ≠ 0)

/-- A new manifold, over whatever the storage held, into which handlers are burned. -/
def withHandlers (pool : Buffer) (map : Fin cachePoolSize → BitVec 64)
    (entries : List (BitVec 32 × BitVec 64)) : SubstrateManifold :=
  entries.foldl (fun manifold e => burnAtom manifold (dispatchVaddr e.1) e.2) (construct pool map)

/-- burn_atom as a write into plain memory. -/
def burnOp (e : BitVec 32 × BitVec 64) : Op :=
  .materialize (dispatchVaddr e.1) (Value128.mk 0 e.2).data 16

theorem withHandlers_eq_run (pool : Buffer) (map : Fin cachePoolSize → BitVec 64)
    (entries : List (BitVec 32 × BitVec 64)) :
    withHandlers pool map entries = (construct pool map).run (entries.map burnOp) := by
  rw [run, List.foldl_map]
  rfl

/-- What the entries put into the place that a reason shares. -/
def shared (entries : List (BitVec 32 × BitVec 64)) (r : BitVec 32) : Option (BitVec 64) :=
  table (entries.map fun e => (entryOf e.1, e.2)) (entryOf r)

theorem shared_concat (entries : List (BitVec 32 × BitVec 64)) (e : BitVec 32 × BitVec 64)
    (r : BitVec 32) : shared (entries ++ [e]) r =
      if entryOf r = entryOf e.1 then some e.2 else shared entries r := by
  rw [shared, List.map_append, List.map_singleton, table_concat, Function.update_apply]
  rfl

theorem shared_of_apart {entries : List (BitVec 32 × BitVec 64)} {r : BitVec 32}
    (h : ∀ e ∈ entries, e.1 ^^^ r ≠ 0x20000000) : shared entries r = table entries r :=
  table_map_key fun e he => eq_comm.trans ((entryOf_eq_iff (h e he)).trans eq_comm)

theorem toNat_entryOf_ge (r : BitVec 32) : 0x20000000 ≤ (entryOf r).toNat := by
  rw [entryOf, BitVec.toNat_or]
  exact Nat.right_le_or

/-- Two entries of the table are the same or lie apart. -/
theorem inEntry_iff (r r' : BitVec 32) {k : Nat} (hk : k < 16) :
    vblockOf (dispatchVaddr r) = vblockOf (dispatchVaddr r') ∧
        atomOf (dispatchVaddr r') ≤ atomOf (dispatchVaddr r) + k ∧
        atomOf (dispatchVaddr r) + k < atomOf (dispatchVaddr r') + 16 ↔
      entryOf r = entryOf r' := by
  rw [← BitVec.toNat_inj, ← BitVec.toNat_inj, toNat_vblockOf, toNat_vblockOf,
    toNat_dispatchVaddr, toNat_dispatchVaddr]
  simp only [atomOf, blockBytes, toNat_dispatchVaddr]
  omega

/-- The memory holds the table: what was burned, and around it what the storage held. -/
structure TableIn (pool : Buffer) (entries : List (BitVec 32 × BitVec 64)) (f : FlatMemory) :
    Prop where
  opened : f.opened.length ≤ entries.length
  found : ∀ r a, shared entries r = some a → vblockOf (dispatchVaddr r) ∈ f.opened ∧
    ∀ k < 16, f.bytes (blockBytes * (vblockOf (dispatchVaddr r)).toNat +
      (atomOf (dispatchVaddr r) + k)) = (Value128.mk 0 a).data k
  missing : (∀ k < blockBytes * entries.length, pool k = 0) → ∀ r, shared entries r = none →
    ∀ k < 16, f.bytes (blockBytes * (vblockOf (dispatchVaddr r)).toNat +
      (atomOf (dispatchVaddr r) + k)) = 0

section
variable {pool : Buffer} {entries : List (BitVec 32 × BitVec 64)} {f : FlatMemory}

theorem tableIn_nil (pool : Buffer) : TableIn pool [] .zeroed :=
  ⟨Nat.le_refl 0, fun _ _ h => (nomatch h), fun _ _ _ _ _ => rfl⟩

/-- What a burned handler changes at another entry of its vblock is that the vblock is opened. -/
theorem bytes_burn (pool : Buffer) (f : FlatMemory) (e : BitVec 32 × BitVec 64) (r : BitVec 32)
    {k : Nat} (hk : k < 16) :
    (Op.flat pool f (burnOp e)).bytes (blockBytes * (vblockOf (dispatchVaddr r)).toNat +
      (atomOf (dispatchVaddr r) + k)) =
    if entryOf r = entryOf e.1 then
      (Value128.mk 0 e.2).data (atomOf (dispatchVaddr r) + k - atomOf (dispatchVaddr e.1))
    else if vblockOf (dispatchVaddr r) = vblockOf (dispatchVaddr e.1) ∧
        vblockOf (dispatchVaddr e.1) ∉ f.opened then
      pool (blockBytes * f.opened.length + (atomOf (dispatchVaddr r) + k))
    else f.bytes (blockBytes * (vblockOf (dispatchVaddr r)).toNat +
      (atomOf (dispatchVaddr r) + k)) := by
  have hblock : atomOf (dispatchVaddr e.1) + 16 ≤ blockBytes := atomOf_add_lt _ (by decide)
  have hplace := atomOf_add_lt (dispatchVaddr r) hk
  refine (bytes_flat_materialize hblock _ ⟨_, hplace⟩).trans ?_
  rw [if_congr (inEntry_iff r e.1 hk) rfl (FlatMemory.bytes_openBlock _ _ ⟨_, hplace⟩)]

theorem TableIn.burn (h : TableIn pool entries f) (e : BitVec 32 × BitVec 64) :
    TableIn pool (entries ++ [e]) (Op.flat pool f (burnOp e)) := by
  refine ⟨?_, fun r a hr => ?_, fun hzero r hr k hk => ?_⟩
  · have hlength : (Op.flat pool f (burnOp e)).opened.length ≤ f.opened.length + 1 :=
      FlatMemory.length_openBlock_le _
    rw [List.length_append, List.length_singleton]
    exact hlength.trans (Nat.succ_le_succ h.opened)
  · rw [shared_concat] at hr
    by_cases he : entryOf r = entryOf e.1
    · have hsame : dispatchVaddr r = dispatchVaddr e.1 := by
        rw [← BitVec.toNat_inj, toNat_dispatchVaddr, toNat_dispatchVaddr, he]
      rw [if_pos he, Option.some.injEq] at hr
      refine ⟨FlatMemory.mem_openBlock.mpr (.inl (congrArg vblockOf hsame)), fun k hk => ?_⟩
      rw [bytes_burn pool f e r hk, if_pos he, hsame, Nat.add_sub_cancel_left, hr]
    · rw [if_neg he] at hr
      obtain ⟨hopened, hdata⟩ := h.found r a hr
      refine ⟨FlatMemory.mem_openBlock.mpr (.inr hopened), fun k hk => ?_⟩
      rw [bytes_burn pool f e r hk, if_neg he, if_neg fun hnew => hnew.2 (hnew.1 ▸ hopened), hdata k hk]
  · rw [shared_concat] at hr
    have hplace := atomOf_add_lt (dispatchVaddr r) hk
    have hopened := h.opened
    rw [List.length_append, List.length_singleton] at hzero
    simp only [blockBytes] at hplace hzero
    by_cases he : entryOf r = entryOf e.1
    · rw [if_pos he] at hr
      cases hr
    rw [if_neg he] at hr
    rw [bytes_burn pool f e r hk, if_neg he]
    split
    · exact hzero _ (by simp only [blockBytes]; omega)
    · refine h.missing (fun k hk => hzero k ?_) r hr k hk
      simp only [blockBytes] at hk
      omega

theorem tableIn_burned (pool : Buffer) (entries : List (BitVec 32 × BitVec 64)) :
    TableIn pool entries (flatRun pool .zeroed (entries.map burnOp)) := by
  induction entries using List.reverseRecOn with
  | nil => exact tableIn_nil pool
  | append_singleton entries e ih =>
    rw [flatRun, List.map_append, List.foldl_append]
    exact ih.burn e

/-- The guest's image lies in vblock 0, where no entry is. -/
theorem bytes_load {image : Buffer} {size : Nat} (hfit : 0x1000 + size ≤ blockBytes)
    (r : BitVec 32) {k : Nat} (hk : k < 16) :
    (Op.flat pool f (.materialize 0x1000 image size)).bytes
      (blockBytes * (vblockOf (dispatchVaddr r)).toNat + (atomOf (dispatchVaddr r) + k)) =
    f.bytes (blockBytes * (vblockOf (dispatchVaddr r)).toNat + (atomOf (dispatchVaddr r) + k)) := by
  have hplace := atomOf_add_lt (dispatchVaddr r) hk
  have hother : vblockOf (dispatchVaddr r) ≠ vblockOf 0x1000 := by
    intro he
    have hnat := congrArg BitVec.toNat he
    have hbit := toNat_entryOf_ge r
    rw [toNat_vblockOf, toNat_dispatchVaddr, toNat_vblockOf] at hnat
    simp only [blockBytes, BitVec.reduceToNat] at hnat
    omega
  refine (bytes_flat_materialize hfit _ ⟨_, hplace⟩).trans ?_
  rw [if_neg fun hin => hother hin.1]
  exact (FlatMemory.bytes_openBlock _ _ ⟨_, hplace⟩).trans (if_neg fun hnew => hother hnew.1)

theorem flat_loaded (pool : Buffer) (map : Fin cachePoolSize → BitVec 64)
    (hentries : entries.length < cachePoolSize) {image : Buffer} {size : Nat}
    (hfit : 0x1000 + size ≤ blockBytes) :
    ∃ S, Flat ((withHandlers pool map entries).materializeRange 0x1000 image size) pool S
      (Op.flat pool (flatRun pool .zeroed (entries.map burnOp))
        (.materialize 0x1000 image size)) := by
  let places : List (BitVec 64) := entries.map fun e => vblockOf (dispatchVaddr e.1)
  let S := (places ++ [vblockOf 0x1000]).toFinset
  have hcard : S.card ≤ cachePoolSize := by
    refine (List.toFinset_card_le _).trans ?_
    rw [List.length_append, List.length_map, List.length_singleton]
    exact hentries
  have hops : ∀ op ∈ entries.map burnOp, op.StaysInBlock ∧ ∀ v ∈ op.vblocks, v ∈ S := by
    intro op hop
    obtain ⟨e, he, rfl⟩ := List.mem_map.mp hop
    refine ⟨atomOf_add_lt (dispatchVaddr e.1) (show 15 < 16 by decide), fun v hv => ?_⟩
    rw [List.mem_singleton.mp hv]
    exact List.mem_toFinset.mpr (List.mem_append_left _ (List.mem_map.mpr ⟨e, he, rfl⟩))
  have hburned := (flat_construct pool map hcard).run (fun op hop => (hops op hop).1)
    fun op hop => (hops op hop).2
  rw [← withHandlers_eq_run pool map entries] at hburned
  exact ⟨S, hburned.materialize hfit (List.mem_toFinset.mpr (by simp))⟩

/-- An entry without a handler is what the storage held, so it needs storage that was zero. -/
theorem fetch_loaded (map : Fin cachePoolSize → BitVec 64)
    (hentries : entries.length < cachePoolSize) {image : Buffer} {size : Nat}
    (hfit : 0x1000 + size ≤ blockBytes) {r : BitVec 32}
    (hclear : (shared entries r).isSome ∨ ∀ k < blockBytes * entries.length, pool k = 0) :
    (((withHandlers pool map entries).materializeRange 0x1000 image size).holographicFetch
      (dispatchVaddr r)).1 = ⟨0, (shared entries r).getD 0⟩ := by
  obtain ⟨S, hflat⟩ := flat_loaded pool map hentries hfit
  have htable := tableIn_burned pool entries
  apply Value128.ext_data
  intro k hk
  rw [holographicFetch_data _ _ hk, hflat.bytes _ ⟨_, atomOf_add_lt (dispatchVaddr r) hk⟩,
    bytes_load hfit r hk]
  cases hshared : shared entries r with
  | some a => exact (htable.found r a hshared).2 k hk
  | none =>
    rw [hshared] at hclear
    rw [htable.missing (hclear.resolve_left Bool.false_ne_true) r hshared k hk]
    simp [Value128.data, byteAt]

/-- So the loop finds the handler of each reason that shares its place with no other. -/
theorem handlerOf_loaded (map : Fin cachePoolSize → BitVec 64)
    (hentries : entries.length < cachePoolSize) {image : Buffer} {size : Nat}
    (hfit : 0x1000 + size ≤ blockBytes) {r : BitVec 32}
    (hapart : ∀ e ∈ entries, e.1 ^^^ r ≠ 0x20000000)
    (hclear : (table entries r).isSome ∨ ∀ k < blockBytes * entries.length, pool k = 0) :
    handlerOf ((withHandlers pool map entries).materializeRange 0x1000 image size) r =
      handlerFor entries r := by
  have hroute (lo : BitVec 64) : (Value128.mk 0 lo).route = 0 := by
    change ((0 : BitVec 64) >>> (54 : Nat)).setWidth 16 &&& lensMask = 0
    decide
  rw [← shared_of_apart hapart] at hclear
  rw [handlerOf, fetch_loaded map hentries hfit hclear, handlerFor, shared_of_apart hapart]
  simp only [hroute]
  rw [if_neg (by decide)]
  cases table entries r with
  | none => rfl
  | some a =>
    rw [Option.getD_some, Option.filter_some]
    by_cases ha : a = 0
    · rw [if_neg (not_not_intro ha), if_neg (by simpa using ha)]
    · rw [if_pos ha, if_pos (by simpa using ha)]

end

/-- A machine over any storage, whose handlers were burned into the manifold, at most 1023
times, and that loaded a guest of up to 12 KiB. No exit reason differs from one that has a
handler in bit 29 alone, and the storage was zero if a handler is ever missing. Along any exits,
idle ones go to the service, each other one calls the handler that was burned last for its
reason, and the first without one ends the run. -/
theorem run_dispatches (pool : Buffer) (map : Fin cachePoolSize → BitVec 64)
    (entries : List (BitVec 32 × BitVec 64)) (hentries : entries.length < cachePoolSize)
    (srv : Option Service) (image : Buffer) (size : Nat) (hfit : 0x1000 + size ≤ blockBytes)
    (entryPoint : BitVec 64) (handlers : TopologicalExitHandlers) (hkeep : KeepsTable handlers)
    (exits : List GuestContext)
    (hapart : ∀ e ∈ entries, ∀ exit ∈ exits, e.1 ^^^ exit.exitReason ≠ 0x20000000)
    (hclear : (∀ exit ∈ exits, resumes (table entries) srv.isSome exit.exitReason = true) ∨
      ∀ k < blockBytes * entries.length, pool k = 0) :
    let vm := (TopologicalVM.new (withHandlers pool map entries) srv).loadGuest image size
      entryPoint
    RunsAs (handlerFor entries) srv.isSome vm (vm.run handlers exits)
      (exits.map GuestContext.exitReason) := by
  intro vm
  have hactive : vm.isActive = true := rfl
  refine run_runsAs hkeep hactive fun exit hexit hbusy => ?_
  refine handlerOf_loaded map hentries hfit (fun e he => hapart e he exit hexit)
    (hclear.imp_left fun h => ?_)
  have hresumes := h exit hexit
  have hidle : idles srv.isSome exit.exitReason = false := hbusy
  rwa [resumes, hidle, Bool.false_or] at hresumes

/-- Two handlers; an idle exit between calls of them, and then one that has no handler. -/
def sampleEntries : List (BitVec 32 × BitVec 64) := [(10, 0x5000), (48, 0x6000)]

def sampleExits : List GuestContext :=
  [10, 12, 48, 1].map fun r => ⟨fun _ => 0, 0, 0, r, 0⟩

/-- The storage is zero as far as the table can take it. -/
def sampleVM : TopologicalVM :=
  (TopologicalVM.new (withHandlers (fun k => if k < 2 * blockBytes then 0 else 0xEE) (fun _ => 3)
    sampleEntries) (some (.new .enterprise zeroed none))).loadGuest (fun _ => 0x90) 19 0x1000

theorem run_dispatches_two_handlers :
    (sampleVM.run (fun _ ctx m => (ctx, m)) sampleExits).called = [(0x5000, 10), (0x6000, 48)] ∧
      (sampleVM.run (fun _ ctx m => (ctx, m)) sampleExits).isActive = false := by
  have hapart : ∀ e ∈ sampleEntries, ∀ exit ∈ sampleExits,
      e.1 ^^^ exit.exitReason ≠ 0x20000000 := by
    simp [sampleEntries, sampleExits]
  have hrun : RunsAs (handlerFor sampleEntries) true sampleVM
      (sampleVM.run (fun _ ctx m => (ctx, m)) sampleExits)
      (sampleExits.map GuestContext.exitReason) :=
    run_dispatches (fun k => if k < 2 * blockBytes then 0 else 0xEE) (fun _ => 3) sampleEntries
      (by decide) (some (.new .enterprise zeroed none)) (fun _ => 0x90) 19 (by decide) 0x1000
      (fun _ ctx m => (ctx, m)) (fun _ _ _ _ => rfl) sampleExits hapart
      (.inr fun k hk => if_pos (by rwa [Nat.mul_comm] at hk))
  have hcalls : (resumed (handlerFor sampleEntries) true
      (sampleExits.map GuestContext.exitReason)).filterMap (call (handlerFor sampleEntries) true) =
        [(0x5000, 10), (0x6000, 48)] := by decide
  refine ⟨?_, hrun.active.trans (by decide)⟩
  rw [hrun.called, hcalls]
  rfl

end EmergenceOS.Core.TVM
