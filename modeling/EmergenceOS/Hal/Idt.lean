/- Module: EmergenceOS/Hal/Idt
   digest: The C side of the invalid-opcode path and of the timer interrupt. -/

import EmergenceOS.Lib.X86
import EmergenceOS.Vdev.Topology

set_option autoImplicit false
set_option relaxedAutoImplicit false

namespace EmergenceOS.Hal.Idt

open EmergenceOS.Lib.Bytes EmergenceOS.Lib.WordMemory EmergenceOS.Lib.X86
open EmergenceOS.Vdev.Topology

structure Globals where
  fuzzActive : Byte
  faultDetected : Byte
  manifoldInstance : Option SubstrateManifold

/-- The three pointers may alias; stores happen in program order. -/
def resolveHic : CFunction Globals := fun rip rax rbx g mem =>
  let code := read64 mem rip
  if g.fuzzActive ≠ 0 then
    some ({ g with faultDetected := 1 }, write64 mem rip (read64 mem rip + 2))
  else if mem code = 0x0F ∧ mem (code + 1) = 0xFF then
    match g.manifoldInstance with
    | none =>
      let mem := write64 mem rax 0x0A
      some (g, write64 mem rip (read64 mem rip + 2))
    | some manifold =>
      let intent := read64 mem rax ^^^ read64 mem rbx
      let (res, manifold) := manifold.holographicFetch intent
      let mem := write64 mem rax res.lo
      some ({ g with manifoldInstance := some manifold }, write64 mem rip (read64 mem rip + 2))
  else
    -- dump_registers prints and halts
    none

/-- The pulse counter, and the bytes written to ports so far with their ports. -/
structure TimerGlobals where
  temporalPulse : BitVec 64
  portWrites : List (Byte × Byte)

def handleTimerPulse : CFunction TimerGlobals := fun _ _ _ g mem =>
  some ({ g with temporalPulse := g.temporalPulse + 1 }, mem)

section
variable {rip rax rbx : Addr} {g : Globals} {mem : Mem} {manifold : SubstrateManifold}

variable (rip rax rbx) in
theorem resolveHic_resolves (hfuzz : g.fuzzActive = 0)
    (hm : g.manifoldInstance = some manifold)
    (hcode : mem (read64 mem rip) = 0x0F ∧ mem (read64 mem rip + 1) = 0xFF) :
    ∃ g', resolveHic rip rax rbx g mem =
      some (g', write64
        (write64 mem rax (manifold.holographicFetch (read64 mem rax ^^^ read64 mem rbx)).1.lo) rip
        (read64 (write64 mem rax
          (manifold.holographicFetch (read64 mem rax ^^^ read64 mem rbx)).1.lo) rip + 2)) := by
  unfold resolveHic
  rw [if_neg (not_not_intro hfuzz), if_pos hcode, hm]
  exact ⟨_, rfl⟩

theorem resolveHic_halts (hfuzz : g.fuzzActive = 0)
    (hcode : ¬(mem (read64 mem rip) = 0x0F ∧ mem (read64 mem rip + 1) = 0xFF)) :
    resolveHic rip rax rbx g mem = none := by
  unfold resolveHic
  rw [if_neg (not_not_intro hfuzz), if_neg hcode]

end

end EmergenceOS.Hal.Idt
