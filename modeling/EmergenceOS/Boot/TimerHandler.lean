/- Module: EmergenceOS/Boot/TimerHandler
   digest: The timer interrupt leaves the interrupted program as it was and counts one pulse. -/

import EmergenceOS.Boot.Handlers
import EmergenceOS.Lib.X86Ports

set_option autoImplicit false
set_option relaxedAutoImplicit false

namespace EmergenceOS.Boot.TimerHandler

open EmergenceOS.Lib.Bytes EmergenceOS.Lib.WordMemory EmergenceOS.Lib.X86
open EmergenceOS.Hal.Idt EmergenceOS.Boot.Handlers

/-- The C function that the handler calls. -/
inductive Symbol
  | handleTimerPulse

def functions : Symbol → CFunction TimerGlobals
  | .handleTimerPulse => Hal.Idt.handleTimerPulse

def emit (port value : Byte) (g : TimerGlobals) : TimerGlobals :=
  { g with portWrites := g.portWrites ++ [(port, value)] }

def timerSpill : List (Instr Symbol) :=
  [.push .rax,
    .push .rcx,
    .push .rdx,
    .push .rsi,
    .push .rdi,
    .push .r8,
    .push .r9,
    .push .r10,
    .push .r11]

def timerRestore : List (Instr Symbol) :=
  [.pop .r11,
    .pop .r10,
    .pop .r9,
    .pop .r8,
    .pop .rdi,
    .pop .rsi,
    .pop .rdx,
    .pop .rcx,
    .pop .rax]

/-- The end of the interrupt, told to the interrupt controller, and the return. -/
def timerEnd : List (PortInstr Symbol) :=
  [.code (.push .rax),
    .movb 0x20 .rax,
    .outb .rax 0x20,
    .code (.pop .rax),
    .code .iretq]

def timerInterruptHandler (ret : Addr) : List (PortInstr Symbol) :=
  (timerSpill ++ .call .handleTimerPulse ret :: timerRestore).map .code ++ timerEnd

/-- The timer interrupt from its delivery to the return. -/
def timerPath (c : Clobber) (handler ret : Addr) (m : Machine TimerGlobals) :
    Option (Machine TimerGlobals) :=
  portExec functions c emit (timerInterruptHandler ret) (m.deliver kernelCodeSelector handler)

/-- What the processor pushes for the interrupted program. -/
def frameWords (m : Machine TimerGlobals) : List (BitVec 64) :=
  [m.rip, m.cs, m.rflags, m.regs .rsp, m.ss]

/-- The program goes on with all its registers; the frame is still what it was, one pulse is
counted and the end of the interrupt written to the controller. -/
structure Transparent (frameAt : Addr) (m m' : Machine TimerGlobals) : Prop where
  regs : m'.regs = m.regs
  rip : m'.rip = m.rip
  cs : m'.cs = m.cs
  rflags : m'.rflags = m.rflags
  ss : m'.ss = m.ss
  frame : Words m'.mem frameAt (frameWords m)
  pulse : m'.world.temporalPulse = m.world.temporalPulse + 1
  ports : m'.world.portWrites = m.world.portWrites ++ [(0x20, 0x20)]

/-- The registers that the handler saves, in the order of its pushes. -/
def saved : List Reg := [.rax, .rcx, .rdx, .rsi, .rdi, .r8, .r9, .r10, .r11]

theorem mem_saved_iff (r : Reg) : r ∈ saved ↔ r.callerSaved = true := by cases r <;> decide

/-- The call between the pushes and the pops leaves no trace in the registers. -/
theorem exec_timerCall (c : Clobber) (ret : Addr) {m : Machine TimerGlobals}
    {ws : List (BitVec 64)} (h : m.Stack ws) (hlen : ws.length ≤ 16) :
    ∃ m', exec functions c (timerSpill ++ .call .handleTimerPulse ret :: timerRestore) m =
        some m' ∧
      m'.Stack ws ∧ m'.regs = m.regs ∧
      m'.world = { m.world with temporalPulse := m.world.temporalPulse + 1 } := by
  have hsaved : saved.length = 9 := rfl
  have hnot : Reg.rsp ∉ saved := by decide
  have hnotRev : Reg.rsp ∉ saved.reverse := by decide
  obtain ⟨s, hs, hstack, hsp, hregs, hworld⟩ :=
    exec_pushes functions c hnot h (by rw [hsaved]; omega)
  have hwords := hstack.push (by simp [hsaved]; omega) ret
  rw [Machine.Stack, s.push_rsp] at hwords
  have hcall : functions .handleTimerPulse (s.regs .rdi) (s.regs .rsi) (s.regs .rdx) s.world
      (s.push ret).mem = some (_, _) := rfl
  obtain ⟨t, ht, htstack, htsp, htregs, htworld⟩ :=
    exec_call c hcall hwords (by simp [hsaved]; omega)
  rw [← List.map_reverse] at htstack
  obtain ⟨m', hm', hstack', hsp', hregs', hworld'⟩ :=
    exec_pops functions c hnotRev m.regs htstack
  refine ⟨m', ?_, hstack', funext fun r => ?_, ?_⟩
  · rw [exec_append, show timerSpill = saved.map .push from rfl, hs, Option.bind_some, ht]
    exact hm'
  · by_cases hr : r = .rsp
    · rw [hr, hsp', htsp, hsp, List.length_reverse]
      exact BitVec.sub_add_cancel _ _
    · -- what the call may change was saved, and the rest it keeps
      rw [hregs' r hr, htregs r hr, hregs r hr]
      simp only [List.mem_reverse, mem_saved_iff]
      split
      · rfl
      · rfl
  · rw [hworld', htworld, hworld]

/-- The register that carries the command byte comes back from the stack. -/
theorem portExec_timerEnd (c : Clobber) {m : Machine TimerGlobals} {ws : List (BitVec 64)}
    (h : m.Stack ws) (hlen : ws.length ≤ 16) :
    ∃ s : Machine TimerGlobals, portExec functions c emit timerEnd m = some s.iret ∧
      s.Stack ws ∧ s.regs = m.regs ∧
      s.world = { m.world with portWrites := m.world.portWrites ++ [(0x20, 0x20)] } := by
  let command := ((m.push (m.regs .rax)).regs .rax &&& ~~~0xFF) ||| (0x20 : Byte).setWidth 64
  let loaded := (m.push (m.regs .rax)).set .rax command
  let told := { loaded with world := emit 0x20 ((loaded.regs .rax).setWidth 8) loaded.world }
  have hstack : told.Stack (m.regs .rax :: ws) :=
    (h.push (by omega) (m.regs .rax)).set (by decide) command
  have hbyte : (loaded.regs .rax).setWidth 8 = (0x20 : Byte) := by
    rw [Machine.set_regs, Function.update_self]
    exact setWidth_movb _ _
  refine ⟨told.drop.set .rax (m.regs .rax), ?_, hstack.pop .rax (by decide), ?_, ?_⟩
  · rw [← hstack.top]
    rfl
  · funext r
    by_cases hax : r = .rax
    · rw [hax, Machine.set_regs, Function.update_self]
    rw [Machine.set_regs, Function.update_of_ne hax, Machine.drop_regs]
    by_cases hsp : r = .rsp
    · rw [hsp, Function.update_self]
      exact BitVec.sub_add_cancel _ _
    · rw [Function.update_of_ne hsp]
      change loaded.regs r = _
      rw [Machine.set_regs, Function.update_of_ne hax, m.push_of_ne _ hsp]
  · change emit 0x20 ((loaded.regs .rax).setWidth 8) m.world = _
    rw [hbyte]
    rfl

/-- Whatever the called function leaves behind where it may, the interrupted program finds all
its registers and flags, and the pulse counter is one further. -/
theorem timerPath_transparent (c : Clobber) (handler ret : Addr) (m : Machine TimerGlobals) :
    ∃ m', timerPath c handler ret m = some m' ∧
      Transparent ((m.deliver kernelCodeSelector handler).regs .rsp) m m' := by
  have hframe := m.deliver_stack kernelCodeSelector handler
  obtain ⟨t, ht, htstack, htregs, htworld⟩ := exec_timerCall c ret hframe (by simp)
  obtain ⟨s, hs, hstack, hregs, hworld⟩ := portExec_timerEnd c htstack (by simp)
  obtain ⟨hrip, hiret⟩ := hstack.iret
  obtain ⟨hcs, hrflags, hss⟩ := hstack.iret_segments
  refine ⟨s.iret, ?_, ?_, hrip, hcs, hrflags, hss, ?_, ?_, ?_⟩
  · rw [timerPath, timerInterruptHandler, portExec_append, portExec_code, ht, Option.bind_some]
    exact hs
  · funext r
    rw [hiret]
    by_cases hsp : r = .rsp
    · rw [hsp, Function.update_self]
    · rw [Function.update_of_ne hsp, hregs, htregs]
      exact m.deliver_regs kernelCodeSelector handler hsp
  · rw [← htregs, ← hregs]
    exact hstack
  · change s.world.temporalPulse = _
    rw [hworld, htworld]
    rfl
  · change s.world.portWrites = _
    rw [hworld, htworld]
    rfl

end EmergenceOS.Boot.TimerHandler
