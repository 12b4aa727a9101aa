/- Module: EmergenceOS/Lib/X86
   digest: Straight-line 64-bit code with calls of C functions, and interrupt frames. -/

import EmergenceOS.Lib.WordMemory

/-!
A C function is its effect on memory and on a world of its own. What the calling
convention leaves open (caller-saved registers, flags, the stack below the
return address) is taken from a parameter, so a result for every parameter holds
for every compiler.
-/

set_option autoImplicit false
set_option relaxedAutoImplicit false

namespace EmergenceOS.Lib.X86

open EmergenceOS.Lib.Bytes EmergenceOS.Lib.WordMemory

inductive Reg
  | rax | rbx | rcx | rdx | rsi | rdi | rbp | rsp
  | r8 | r9 | r10 | r11 | r12 | r13 | r14 | r15
  deriving DecidableEq

/-- The registers that a called function may change. -/
def Reg.callerSaved : Reg → Bool
  | rax | rcx | rdx | rsi | rdi | r8 | r9 | r10 | r11 => true
  | rbx | rbp | rsp | r12 | r13 | r14 | r15 => false

universe u v
variable {ω : Type u} {F : Type v}

structure Machine (ω : Type u) where
  regs : Reg → BitVec 64
  rip : Addr
  cs : BitVec 64
  rflags : BitVec 64
  ss : BitVec 64
  mem : Mem
  world : ω

namespace Machine

def set (m : Machine ω) (r : Reg) (v : BitVec 64) : Machine ω :=
  { m with regs := Function.update m.regs r v }

def push (m : Machine ω) (v : BitVec 64) : Machine ω :=
  { m with
    regs := Function.update m.regs .rsp (m.regs .rsp - 8)
    mem := write64 m.mem (m.regs .rsp - 8) v }

/-- The word on top of the stack. -/
def top (m : Machine ω) : BitVec 64 := read64 m.mem (m.regs .rsp)

def drop (m : Machine ω) : Machine ω :=
  { m with regs := Function.update m.regs .rsp (m.regs .rsp + 8) }

@[simp] theorem set_regs (m : Machine ω) (r : Reg) (v : BitVec 64) :
    (m.set r v).regs = Function.update m.regs r v := rfl
@[simp] theorem set_mem (m : Machine ω) (r : Reg) (v : BitVec 64) : (m.set r v).mem = m.mem := rfl
@[simp] theorem push_regs (m : Machine ω) (v : BitVec 64) :
    (m.push v).regs = Function.update m.regs .rsp (m.regs .rsp - 8) := rfl
@[simp] theorem push_mem (m : Machine ω) (v : BitVec 64) :
    (m.push v).mem = write64 m.mem (m.regs .rsp - 8) v := rfl
@[simp] theorem push_world (m : Machine ω) (v : BitVec 64) : (m.push v).world = m.world := rfl
@[simp] theorem drop_regs (m : Machine ω) :
    m.drop.regs = Function.update m.regs .rsp (m.regs .rsp + 8) := rfl
@[simp] theorem drop_mem (m : Machine ω) : m.drop.mem = m.mem := rfl

theorem push_rsp (m : Machine ω) (v : BitVec 64) :
    (m.push v).regs .rsp = m.regs .rsp - 8 := by
  rw [push_regs, Function.update_self]

theorem push_of_ne (m : Machine ω) (v : BitVec 64) {r : Reg} (hr : r ≠ .rsp) :
    (m.push v).regs r = m.regs r := by
  rw [push_regs, Function.update_of_ne hr]

/-- The words on the stack, from the top. -/
def Stack (m : Machine ω) (ws : List (BitVec 64)) : Prop := Words m.mem (m.regs .rsp) ws

section Stack
variable {m : Machine ω} {w : BitVec 64} {ws : List (BitVec 64)}

theorem Stack.push (h : m.Stack ws) (hlen : 8 * (ws.length + 1) ≤ 2 ^ 64) (w : BitVec 64) :
    (m.push w).Stack (w :: ws) := by
  have hwords := Words.push h hlen w
  simpa only [Stack, push_mem, push_regs, Function.update_self] using hwords

theorem Stack.top (h : m.Stack (w :: ws)) : m.top = w := Words.head h

theorem Stack.drop (h : m.Stack (w :: ws)) : m.drop.Stack ws := by
  have hwords := Words.tail h
  simpa only [Stack, drop_mem, drop_regs, Function.update_self] using hwords

theorem Stack.set (h : m.Stack ws) {r : Reg} (hr : r ≠ .rsp) (v : BitVec 64) :
    (m.set r v).Stack ws := by
  simpa only [Stack, set_mem, set_regs, Function.update_of_ne (Ne.symm hr)] using h

end Stack

end Machine

/-- One status flag. -/
def setFlag (flags : BitVec 64) (bit : Nat) (b : Bool) : BitVec 64 :=
  (flags &&& ~~~((1 : BitVec 64) <<< bit)) ||| (if b then (1 : BitVec 64) <<< bit else 0)

/-- CF, PF, AF, ZF, SF and OF after an addition. -/
def addFlags (flags a b : BitVec 64) : BitVec 64 :=
  let sum := a + b
  let ones := (List.range 8).countP fun i => sum.getLsbD i
  let flags := setFlag flags 0 (decide (2 ^ 64 ≤ a.toNat + b.toNat))
  let flags := setFlag flags 2 (decide (ones % 2 = 0))
  let flags := setFlag flags 4 (decide (16 ≤ a.toNat % 16 + b.toNat % 16))
  let flags := setFlag flags 6 (decide (sum = 0))
  let flags := setFlag flags 7 sum.msb
  setFlag flags 11 (a.msb == b.msb && sum.msb != a.msb)

/-- Source first, destination last. A call names the address that it returns to. -/
inductive Instr (F : Type v)
  | push (src : Reg)
  | pop (dst : Reg)
  | mov (src dst : Reg)
  | add (imm : BitVec 64) (dst : Reg)
  | lea (disp : BitVec 64) (base dst : Reg)
  | call (target : F) (ret : Addr)
  | iretq

/-- A C function of up to three arguments; none if it does not return. -/
abbrev CFunction (ω : Type u) := BitVec 64 → BitVec 64 → BitVec 64 → ω → Mem → Option (ω × Mem)

/-- What a call leaves where the calling convention allows anything. -/
structure Clobber where
  regs : Reg → BitVec 64
  rflags : BitVec 64
  depth : Nat
  below : Mem
  depth_le : depth ≤ 2 ^ 63

/-- Memory after a function used up to `depth` bytes of stack below an address. -/
def Clobber.stack (c : Clobber) (sp : Addr) (mem : Mem) : Mem :=
  fun x => if (sp - 1 - x).toNat < c.depth then c.below x else mem x

/-- The state at the return of a called function, its return address on top. -/
def Machine.afterCall (c : Clobber) (m : Machine ω) (world : ω) (mem : Mem) : Machine ω :=
  { m with
    regs := fun r => if r.callerSaved then c.regs r else m.regs r
    rflags := c.rflags
    mem := c.stack (m.regs .rsp) mem
    world := world }

/-- The far return from an interrupt. -/
def Machine.iret (m : Machine ω) : Machine ω :=
  let sp := m.regs .rsp
  { m with
    rip := read64 m.mem sp
    cs := read64 m.mem (sp + 8)
    rflags := read64 m.mem (sp + 16)
    regs := Function.update m.regs .rsp (read64 m.mem (sp + 24))
    ss := read64 m.mem (sp + 32) }

section Exec
variable (functions : F → CFunction ω) (c : Clobber)

/-- None when a callee does not return, or returns to somewhere else. -/
def step : Instr F → Machine ω → Option (Machine ω)
  | .push src, m => some (m.push (m.regs src))
  | .pop dst, m => some (m.drop.set dst m.top)
  | .mov src dst, m => some (m.set dst (m.regs src))
  | .add imm dst, m =>
    some { m.set dst (m.regs dst + imm) with rflags := addFlags m.rflags (m.regs dst) imm }
  | .lea disp base dst, m => some (m.set dst (m.regs base + disp))
  | .call target ret, m =>
    let m := m.push ret
    (functions target (m.regs .rdi) (m.regs .rsi) (m.regs .rdx) m.world m.mem).bind fun r =>
      let m := m.afterCall c r.1 r.2
      if m.top = ret then some m.drop else none
  | .iretq, m => some m.iret

/-- The instructions one after another. -/
def exec : List (Instr F) → Machine ω → Option (Machine ω)
  | [], m => some m
  | i :: is, m => (step functions c i m).bind (exec is)

theorem exec_append (is js : List (Instr F)) (m : Machine ω) :
    exec functions c (is ++ js) m = (exec functions c is m).bind (exec functions c js) := by
  induction is generalizing m with
  | nil => rfl
  | cons i is ih =>
    rw [List.cons_append, exec, exec]
    cases step functions c i m with
    | none => rfl
    | some m => exact ih m

/-- Popping a known word. -/
theorem exec_pop {m : Machine ω} {w : BitVec 64} {ws : List (BitVec 64)} (h : m.Stack (w :: ws))
    (dst : Reg) (is : List (Instr F)) :
    exec functions c (.pop dst :: is) m = exec functions c is (m.drop.set dst w) := by
  rw [exec, step, h.top, Option.bind_some]

theorem Machine.Stack.pop {m : Machine ω} {w : BitVec 64} {ws : List (BitVec 64)}
    (h : m.Stack (w :: ws)) (dst : Reg) (hdst : dst ≠ .rsp) : (m.drop.set dst w).Stack ws :=
  h.drop.set hdst w

end Exec

/-- Delivery of an interrupt without error code at the same privilege: the stack pointer is
rounded down to 16 bytes and the five-word frame goes below it. -/
def Machine.deliver (m : Machine ω) (selector : BitVec 64) (handler : Addr) : Machine ω :=
  let aligned := { m with regs := Function.update m.regs .rsp (m.regs .rsp &&& ~~~0xF) }
  let framed := ((((aligned.push m.ss).push (m.regs .rsp)).push m.rflags).push m.cs).push m.rip
  { framed with
    rip := handler
    cs := selector
    rflags := m.rflags &&& ~~~0x34300 }

theorem Machine.deliver_stack (m : Machine ω) (selector : BitVec 64) (handler : Addr) :
    (m.deliver selector handler).Stack [m.rip, m.cs, m.rflags, m.regs .rsp, m.ss] :=
  have haligned : Machine.Stack
      { m with regs := Function.update m.regs .rsp (m.regs .rsp &&& ~~~0xF) } [] := words_nil _ _
  ((((haligned.push (by simp) m.ss).push (by simp) (m.regs .rsp)).push (by simp)
    m.rflags).push (by simp) m.cs).push (by simp) m.rip

theorem Machine.deliver_regs (m : Machine ω) (selector : BitVec 64) (handler : Addr) {r : Reg}
    (hr : r ≠ .rsp) : (m.deliver selector handler).regs r = m.regs r := by
  simp [deliver, Function.update_of_ne hr]

/-- The stack words above a callee's frame outlive it. -/
theorem Clobber.words_stack (c : Clobber) {mem : Mem} {sp : Addr} {ws : List (BitVec 64)}
    (h : Words mem sp ws) (hlen : 8 * ws.length ≤ 2 ^ 62) : Words (c.stack sp mem) sp ws := by
  refine h.congr fun k hk => if_neg ?_
  have hdepth := c.depth_le
  have hone : (1 : BitVec 64).toNat = 1 := rfl
  have hsub : (sp - 1 - (sp + BitVec.ofNat 64 k)).toNat = 2 ^ 64 - 1 - k := by
    simp only [BitVec.toNat_sub, BitVec.toNat_add, BitVec.toNat_ofNat, hone]
    omega
  omega

/-- The registers and the place to go on that an interrupt frame on the stack gives back. -/
theorem Machine.Stack.iret {m : Machine ω} {rip cs rflags rsp ss : BitVec 64}
    (h : m.Stack [rip, cs, rflags, rsp, ss]) :
    m.iret.rip = rip ∧ m.iret.regs = Function.update m.regs .rsp rsp := by
  have hrip := Words.head h
  have hrsp := Words.read h (i := 3) rfl
  exact ⟨hrip, by simp only [Machine.iret]; rw [← hrsp]; rfl⟩

/-- The segments and the flags that it gives back. -/
theorem Machine.Stack.iret_segments {m : Machine ω} {rip cs rflags rsp ss : BitVec 64}
    (h : m.Stack [rip, cs, rflags, rsp, ss]) :
    m.iret.cs = cs ∧ m.iret.rflags = rflags ∧ m.iret.ss = ss :=
  ⟨Words.read h (i := 1) rfl, Words.read h (i := 2) rfl, Words.read h (i := 4) rfl⟩

/-- An address is none of the n bytes below the stack pointer. -/
def Machine.Clear (m : Machine ω) (n : Nat) (x : Addr) : Prop :=
  n ≤ (x - (m.regs .rsp - BitVec.ofNat 64 n)).toNat

theorem Machine.Clear.push {m : Machine ω} {n : Nat} {x : Addr} (h : m.Clear (n + 8) x)
    (hn : n + 8 < 2 ^ 64) (v : BitVec 64) :
    (m.push v).Clear n x ∧ (m.push v).mem x = m.mem x := by
  have h8 : (8 : BitVec 64).toNat = 8 := rfl
  simp only [Clear, BitVec.toNat_sub, BitVec.toNat_ofNat] at h
  constructor
  · simp only [Clear, push_rsp, BitVec.toNat_sub, BitVec.toNat_ofNat, h8]
    omega
  · rw [push_mem]
    apply write64_outside
    simp only [BitVec.toNat_sub, h8]
    omega

section Saving
variable (functions : F → CFunction ω) (c : Clobber)

/-- Registers that are pushed one after another lie on the stack, the last one on top. -/
theorem exec_pushes {rs : List Reg} (hrs : Reg.rsp ∉ rs) {m : Machine ω} {ws : List (BitVec 64)}
    (h : m.Stack ws) (hlen : 8 * (rs.length + ws.length) ≤ 2 ^ 64) :
    ∃ m', exec functions c (rs.map .push) m = some m' ∧
      m'.Stack ((rs.map m.regs).reverse ++ ws) ∧
      m'.regs .rsp = m.regs .rsp - BitVec.ofNat 64 (8 * rs.length) ∧
      (∀ r, r ≠ .rsp → m'.regs r = m.regs r) ∧ m'.world = m.world := by
  induction rs generalizing m ws with
  | nil => exact ⟨m, rfl, h, by simp, fun _ _ => rfl, rfl⟩
  | cons r rs ih =>
    rw [List.mem_cons, not_or] at hrs
    rw [List.length_cons] at hlen
    obtain ⟨m', hexec, hstack, hsp, hregs, hworld⟩ :=
      ih hrs.2 (h.push (by omega) (m.regs r)) (by rw [List.length_cons]; omega)
    have hothers (x : Reg) (hx : x ≠ .rsp) := m.push_of_ne (m.regs r) hx
    have hmap : rs.map (m.push (m.regs r)).regs = rs.map m.regs :=
      List.map_congr_left fun x hx => hothers x fun heq => hrs.2 (heq ▸ hx)
    refine ⟨m', hexec, ?_, ?_, fun x hx => (hregs x hx).trans (hothers x hx), hworld⟩
    · rw [hmap] at hstack
      rw [List.map_cons, List.reverse_cons, List.append_assoc]
      exact hstack
    · rw [hsp, m.push_rsp, List.length_cons, Nat.mul_succ, Nat.add_comm, BitVec.ofNat_add,
        BitVec.sub_sub]
      rfl

/-- Registers that are popped one after another hold the words of the stack. -/
theorem exec_pops {rs : List Reg} (hrs : Reg.rsp ∉ rs) (f : Reg → BitVec 64) {m : Machine ω}
    {ws : List (BitVec 64)} (h : m.Stack (rs.map f ++ ws)) :
    ∃ m', exec functions c (rs.map .pop) m = some m' ∧ m'.Stack ws ∧
      m'.regs .rsp = m.regs .rsp + BitVec.ofNat 64 (8 * rs.length) ∧
      (∀ r, r ≠ .rsp → m'.regs r = if r ∈ rs then f r else m.regs r) ∧
      m'.world = m.world := by
  induction rs generalizing m with
  | nil => exact ⟨m, rfl, h, by simp, fun _ _ => by simp, rfl⟩
  | cons r rs ih =>
    rw [List.mem_cons, not_or] at hrs
    have hne : r ≠ .rsp := fun heq => hrs.1 heq.symm
    obtain ⟨m', hexec, hstack, hsp, hregs, hworld⟩ := ih hrs.2 (h.pop r hne)
    refine ⟨m', ?_, hstack, ?_, fun x hx => ?_, hworld⟩
    · rw [List.map_cons, exec_pop functions c h]
      exact hexec
    · rw [hsp, Machine.set_regs, Function.update_of_ne (Ne.symm hne), Machine.drop_regs,
        Function.update_self, List.length_cons, Nat.mul_succ, Nat.add_comm (8 * rs.length),
        BitVec.ofNat_add, BitVec.add_assoc]
      rfl
    · rw [hregs x hx, Machine.set_regs]
      by_cases hxr : x = r
      · subst hxr
        simp
      · simp [hxr, Function.update_of_ne hx]

end Saving

section Call
variable {functions : F → CFunction ω} {c : Clobber} {target : F} {ret : Addr} {m : Machine ω}

/-- A call of a function that returns: the stack below the return address is as the function
left it, and the registers are the caller's up to what the convention allows. -/
theorem exec_call (c : Clobber) {g : ω} {mem : Mem} {ws : List (BitVec 64)}
    (hcall : functions target (m.regs .rdi) (m.regs .rsi) (m.regs .rdx) m.world (m.push ret).mem =
      some (g, mem)) (hwords : Words mem (m.regs .rsp - 8) (ret :: ws))
    (hlen : 8 * (ret :: ws).length ≤ 2 ^ 62) :
    ∃ m', (∀ is, exec functions c (.call target ret :: is) m = exec functions c is m') ∧
      m'.Stack ws ∧ m'.regs .rsp = m.regs .rsp ∧
      (∀ r, r ≠ .rsp → m'.regs r = if r.callerSaved then c.regs r else m.regs r) ∧
      m'.world = g := by
  have hsp := m.push_rsp ret
  have hstack : ((m.push ret).afterCall c g mem).Stack (ret :: ws) := by
    have h := c.words_stack hwords hlen
    rw [← hsp] at h
    exact h
  refine ⟨((m.push ret).afterCall c g mem).drop, fun is => ?_, hstack.drop, ?_, ?_, rfl⟩
  · rw [exec, step]
    simp only [m.push_of_ne ret (r := .rdi) (by decide), m.push_of_ne ret (r := .rsi) (by decide),
      m.push_of_ne ret (r := .rdx) (by decide), Machine.push_world, hcall, Option.bind_some,
      hstack.top, if_true]
  · rw [Machine.drop_regs, Function.update_self]
    change (m.push ret).regs .rsp + 8 = _
    rw [hsp, BitVec.sub_add_cancel]
  · intro r hr
    rw [Machine.drop_regs, Function.update_of_ne hr]
    simp only [Machine.afterCall, Machine.push_regs, Function.update_of_ne hr]

/-- A call of a function that does not return. -/
theorem exec_call_none (hcall : functions target (m.regs .rdi) (m.regs .rsi) (m.regs .rdx) m.world
    (m.push ret).mem = none) (is : List (Instr F)) :
    exec functions c (.call target ret :: is) m = none := by
  rw [exec, step]
  simp only [m.push_of_ne ret (r := .rdi) (by decide), m.push_of_ne ret (r := .rsi) (by decide),
    m.push_of_ne ret (r := .rdx) (by decide), Machine.push_world, hcall, Option.bind_none]

end Call

end EmergenceOS.Lib.X86
