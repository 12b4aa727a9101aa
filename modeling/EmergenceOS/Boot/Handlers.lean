/- Module: EmergenceOS/Boot/Handlers
   digest: The invalid-opcode stub: what it hands to resolve_hic and what it restores. -/

import EmergenceOS.Hal.Idt

/-!
The stub computes its second and third pointer while it is still pushing, from a
stack pointer that is 16 below the frame: the one for the saved RAX is the slot
of RIP, the one for the saved RBX is the slot of RAX.
-/

set_option autoImplicit false
set_option relaxedAutoImplicit false

namespace EmergenceOS.Boot.Handlers

open EmergenceOS.Lib.Bytes EmergenceOS.Lib.WordMemory EmergenceOS.Lib.X86
open EmergenceOS.Hal.Idt EmergenceOS.Vdev.Topology

/-- The C functions that the stubs call. -/
inductive Symbol
  | resolveHic

def functions : Symbol → CFunction Globals
  | .resolveHic => Hal.Idt.resolveHic

/-- exception_handler_ud up to the call. -/
def udSpill : List (Instr Symbol) :=
  [.push .rax,
    .push .rbx,
    .mov .rsp .rax,
    .add 16 .rax,
    .mov .rsp .rdx,
    .add 8 .rdx,
    .push .rcx,
    .lea 24 .rsp .rdi,
    .mov .rax .rsi]

def udRestore : List (Instr Symbol) :=
  [.pop .rcx,
    .pop .rbx,
    .pop .rax,
    .iretq]

def exceptionHandlerUd (ret : Addr) : List (Instr Symbol) :=
  udSpill ++ .call .resolveHic ret :: udRestore

def kernelCodeSelector : BitVec 64 := 0x08

/-- The invalid-opcode exception from its delivery to the return. -/
def udPath (c : Clobber) (handler ret : Addr) (m : Machine Globals) : Option (Machine Globals) :=
  exec functions c (exceptionHandlerUd ret) (m.deliver kernelCodeSelector handler)

theorem udSpill_spec (c : Clobber) (m : Machine Globals) {ws : List (BitVec 64)}
    (h : m.Stack ws) (hlen : ws.length ≤ 16) :
    ∃ m', exec functions c udSpill m = some m' ∧
      (∀ v, (m'.push v).mem =
        ((((m.push (m.regs .rax)).push (m.regs .rbx)).push (m.regs .rcx)).push v).mem) ∧
      m'.Stack (m.regs .rcx :: m.regs .rbx :: m.regs .rax :: ws) ∧
      m'.world = m.world ∧
      m'.regs .rdi = m'.regs .rsp + 24 ∧
      m'.regs .rsi = m'.regs .rsp + 24 ∧
      m'.regs .rdx = m'.regs .rsp + 16 ∧
      ∀ r, r.callerSaved = false → r ≠ .rsp → m'.regs r = m.regs r := by
  have hstack := ((h.push (by omega) (m.regs .rax)).push (by simp only [List.length_cons]; omega)
    (m.regs .rbx)).push (by simp only [List.length_cons]; omega) (m.regs .rcx)
  refine ⟨_, rfl, fun _ => rfl, hstack, rfl, rfl, ?_, ?_, ?_⟩
  · change m.regs .rsp - 8 - 8 + 16 = m.regs .rsp - 8 - 8 - 8 + 24
    bv_omega
  · change m.regs .rsp - 8 - 8 + 8 = m.regs .rsp - 8 - 8 - 8 + 16
    bv_omega
  · intro r hr hsp
    cases r <;> first | rfl | exact absurd hr (by decide) | exact absurd rfl hsp

/-- The restoring half on a stack with the three saved registers and the frame. -/
theorem udRestore_spec (c : Clobber) (m : Machine Globals)
    {rcx rbx rax rip cs rflags rsp ss : BitVec 64}
    (h : m.Stack [rcx, rbx, rax, rip, cs, rflags, rsp, ss]) :
    ∃ m', exec functions c udRestore m = some m' ∧
      m'.rip = rip ∧ m'.regs .rcx = rcx ∧ m'.regs .rbx = rbx ∧ m'.regs .rax = rax ∧
      m'.regs .rsp = rsp ∧
      ∀ r, r ≠ .rcx → r ≠ .rbx → r ≠ .rax → r ≠ .rsp → m'.regs r = m.regs r := by
  have hrcx := h.pop .rcx (by decide)
  have hrbx := hrcx.pop .rbx (by decide)
  have hrax := hrbx.pop .rax (by decide)
  obtain ⟨hrip, hregs⟩ := hrax.iret
  refine ⟨_, ?_, hrip, ?_, ?_, ?_, ?_, ?_⟩
  · rw [udRestore, exec_pop functions c h, exec_pop functions c hrcx, exec_pop functions c hrbx]
    rfl
  · rw [hregs]
    rfl
  · rw [hregs]
    rfl
  · rw [hregs]
    rfl
  · rw [hregs, Function.update_self]
  · intro r hcx hbx hax hsp
    rw [hregs]
    simp [Function.update_of_ne hcx, Function.update_of_ne hbx, Function.update_of_ne hax,
      Function.update_of_ne hsp]

/-- The state when resolve_hic is entered: the frame, the three saved registers and the
return address are on the stack. -/
def entered (handler ret : Addr) (m : Machine Globals) : Machine Globals :=
  ((((m.deliver kernelCodeSelector handler).push (m.regs .rax)).push (m.regs .rbx)).push
    (m.regs .rcx)).push ret

/-- The caller-saved registers that the stub neither pushes nor pops. -/
def unsaved : List Reg := [.rdx, .rsi, .rdi, .r8, .r9, .r10, .r11]

/-- The bytes at RIP as resolve_hic finds them. They are those of the interrupted program
unless RIP points into the stack words that were pushed. -/
def CodeVisible (handler ret : Addr) (m : Machine Globals) : Prop :=
  (entered handler ret m).mem m.rip = 0x0F ∧ (entered handler ret m).mem (m.rip + 1) = 0xFF

/-- Code that lies outside the nine words below the aligned stack pointer stays visible. -/
theorem codeVisible_of_clear {handler ret : Addr} {m : Machine Globals}
    (hcode : m.mem m.rip = 0x0F ∧ m.mem (m.rip + 1) = 0xFF)
    (hclear : ∀ x, x = m.rip ∨ x = m.rip + 1 →
      72 ≤ (x - ((m.regs .rsp &&& ~~~0xF) - 72)).toNat) : CodeVisible handler ret m := by
  have hmem (x : Addr) (hx : x = m.rip ∨ x = m.rip + 1) :
      (entered handler ret m).mem x = m.mem x := by
    have h : Machine.Clear
        { m with regs := Function.update m.regs .rsp (m.regs .rsp &&& ~~~0xF) } (64 + 8) x := by
      simp only [Machine.Clear, Function.update_self]
      exact hclear x hx
    obtain ⟨h, hss⟩ := h.push (by decide) m.ss
    obtain ⟨h, hrsp⟩ := h.push (n := 56) (by decide) (m.regs .rsp)
    obtain ⟨h, hrflags⟩ := h.push (n := 48) (by decide) m.rflags
    obtain ⟨h, hcs⟩ := h.push (n := 40) (by decide) m.cs
    obtain ⟨h, hrip⟩ := h.push (n := 32) (by decide) m.rip
    obtain ⟨h, hrax⟩ := Machine.Clear.push (m := m.deliver kernelCodeSelector handler) (n := 24) h
      (by decide) (m.regs .rax)
    obtain ⟨h, hrbx⟩ := h.push (n := 16) (by decide) (m.regs .rbx)
    obtain ⟨h, hrcx⟩ := h.push (n := 8) (by decide) (m.regs .rcx)
    obtain ⟨-, hret⟩ := h.push (n := 0) (by decide) ret
    exact hret.trans (hrcx.trans (hrbx.trans (hrax.trans (hrip.trans (hcs.trans (hrflags.trans
      (hrsp.trans hss)))))))
  exact ⟨(hmem _ (Or.inl rfl)).trans hcode.1, (hmem _ (Or.inr rfl)).trans hcode.2⟩

/-- The interrupted program goes on behind the two bytes with the fetched word in RAX and
everything else as it was. -/
structure Resumes (manifold : SubstrateManifold) (m m' : Machine Globals) : Prop where
  rip : m'.rip = m.rip + 2
  rax : m'.regs .rax = (manifold.holographicFetch (m.regs .rax ^^^ m.regs .rbx)).1.lo
  others : ∀ r, r ≠ .rax → m'.regs r = m.regs r

/-- What resolve_hic is called with: pointers to the slots of RIP, RIP and RAX. -/
theorem exists_called (c : Clobber) (handler ret : Addr) (m : Machine Globals) :
    ∃ s, exec functions c udSpill (m.deliver kernelCodeSelector handler) = some s ∧
      (s.push ret).mem = (entered handler ret m).mem ∧
      Words (s.push ret).mem (s.regs .rsp - 8) [ret, m.regs .rcx, m.regs .rbx, m.regs .rax, m.rip,
        m.cs, m.rflags, m.regs .rsp, m.ss] ∧
      s.world = m.world ∧
      s.regs .rdi = s.regs .rsp - 8 + BitVec.ofNat 64 (8 * 4) ∧
      s.regs .rsi = s.regs .rsp - 8 + BitVec.ofNat 64 (8 * 4) ∧
      s.regs .rdx = s.regs .rsp - 8 + BitVec.ofNat 64 (8 * 3) ∧
      ∀ r, r.callerSaved = false → r ≠ .rsp → s.regs r = m.regs r := by
  obtain ⟨s, hs, hmem, hstack, hworld, hdi, hsi, hdx, hsaved⟩ :=
    udSpill_spec c _ (m.deliver_stack kernelCodeSelector handler) (by simp)
  have hregs {r : Reg} (hr : r ≠ .rsp) := m.deliver_regs kernelCodeSelector handler hr
  have hwords := hstack.push (by simp) ret
  simp only [Machine.Stack, Machine.push_rsp, hregs (r := .rcx) (by decide),
    hregs (r := .rbx) (by decide), hregs (r := .rax) (by decide)] at hwords
  refine ⟨s, hs, ?_, hwords, hworld, ?_, ?_, ?_,
    fun r hr hsp => (hsaved r hr hsp).trans (hregs hsp)⟩
  · rw [hmem, entered, hregs (r := .rcx) (by decide), hregs (r := .rbx) (by decide),
      hregs (r := .rax) (by decide)]
  · rw [hdi]
    bv_omega
  · rw [hsi]
    bv_omega
  · rw [hdx]
    bv_omega

/-- What the path does once resolve_hic finds 0F FF: RIP is replaced by the fetched word of
RIP xor RAX, RAX comes back as it was, and seven registers are not restored. -/
theorem udPath_of_codeVisible (c : Clobber) {handler ret : Addr} {m : Machine Globals}
    {manifold : SubstrateManifold} (hfuzz : m.world.fuzzActive = 0)
    (hmanifold : m.world.manifoldInstance = some manifold)
    (hcode : CodeVisible handler ret m) :
    ∃ m', udPath c handler ret m = some m' ∧
      m'.rip = (manifold.holographicFetch (m.rip ^^^ m.regs .rax)).1.lo + 2 ∧
      ∀ r, m'.regs r = if r ∈ unsaved then c.regs r else m.regs r := by
  obtain ⟨s, hs, hmem, hwords, hworld, hdi, hsi, hdx, hsaved⟩ := exists_called c handler ret m
  have hrip := hwords.read (i := 4) rfl
  have hrax := hwords.read (i := 3) rfl
  -- *rax = res.lo goes into the slot of RIP, and the increment of *rip adds two to it
  let slot := s.regs .rsp - 8 + BitVec.ofNat 64 (8 * 4)
  let word := (manifold.holographicFetch (m.rip ^^^ m.regs .rax)).1.lo
  have hfetched := hwords.set (by simp) (i := 4) (by simp) word
  have hnext := hfetched.read (i := 4) rfl
  have hresumed := hfetched.set (by simp) (i := 4) (by simp) (word + 2)
  have hat : (s.push ret).mem (read64 (s.push ret).mem (s.regs .rdi)) = 0x0F ∧
      (s.push ret).mem (read64 (s.push ret).mem (s.regs .rdi) + 1) = 0xFF := by
    rw [hdi, hrip, hmem]
    exact hcode
  obtain ⟨g, hcall⟩ := resolveHic_resolves (s.regs .rdi) (s.regs .rsi) (s.regs .rdx)
    (hworld ▸ hfuzz) (hworld ▸ hmanifold) hat
  rw [hdi, hsi, hdx, hrip, hrax, hnext] at hcall
  have hreturns : functions .resolveHic (s.regs .rdi) (s.regs .rsi) (s.regs .rdx) s.world
      (s.push ret).mem =
        some (g, write64 (write64 (s.push ret).mem slot word) slot (word + 2)) := by
    rw [hdi, hsi, hdx]
    exact hcall
  obtain ⟨t, hexec, hstack, hsp, hregs, -⟩ := exec_call c hreturns hresumed (by simp)
  obtain ⟨m', hm', hrip', hrcx, hrbx, hrax', hrsp, hothers⟩ := udRestore_spec c t hstack
  refine ⟨m', ?_, hrip', fun r => ?_⟩
  · rw [udPath, exceptionHandlerUd, exec_append, hs, Option.bind_some, hexec, hm']
  · cases r with
    | rax => exact hrax'
    | rbx => exact hrbx
    | rcx => exact hrcx
    | rsp => exact hrsp
    | rdx | rsi | rdi | r8 | r9 | r10 | r11 =>
      rw [hothers _ (by decide) (by decide) (by decide) (by decide), hregs _ (by decide)]
      rfl
    | rbp | r12 | r13 | r14 | r15 =>
      rw [hothers _ (by decide) (by decide) (by decide) (by decide), hregs _ (by decide)]
      exact hsaved _ rfl (by decide)

theorem udPath_of_not_codeVisible (c : Clobber) {handler ret : Addr} {m : Machine Globals}
    (hfuzz : m.world.fuzzActive = 0) (hcode : ¬CodeVisible handler ret m) :
    udPath c handler ret m = none := by
  obtain ⟨s, hs, hmem, hwords, hworld, hdi, -, -, -⟩ := exists_called c handler ret m
  have hrip := hwords.read (i := 4) rfl
  have hcall : functions .resolveHic (s.regs .rdi) (s.regs .rsi) (s.regs .rdx) s.world
      (s.push ret).mem = none :=
    resolveHic_halts (hworld ▸ hfuzz) (by
      rw [hdi, hrip, hmem]
      exact hcode)
  rw [udPath, exceptionHandlerUd, exec_append, hs, Option.bind_some, exec_call_none hcall]

/-- The invalid-opcode path does what it is for exactly when the word fetched for RIP xor RAX
is RIP, the one for RAX xor RBX is RAX, and resolve_hic happens to leave the seven registers
alone that nobody restores. -/
theorem udPath_resumes_iff (c : Clobber) (handler ret : Addr) (m : Machine Globals)
    (manifold : SubstrateManifold) (hfuzz : m.world.fuzzActive = 0)
    (hmanifold : m.world.manifoldInstance = some manifold) :
    (∃ m', udPath c handler ret m = some m' ∧ Resumes manifold m m') ↔
      CodeVisible handler ret m ∧
        (manifold.holographicFetch (m.rip ^^^ m.regs .rax)).1.lo = m.rip ∧
        (manifold.holographicFetch (m.regs .rax ^^^ m.regs .rbx)).1.lo = m.regs .rax ∧
        ∀ r ∈ unsaved, c.regs r = m.regs r := by
  by_cases hcode : CodeVisible handler ret m
  · obtain ⟨m', hm', hrip, hregs⟩ := udPath_of_codeVisible c hfuzz hmanifold hcode
    have hrax := hregs .rax
    rw [if_neg (by decide)] at hrax
    constructor
    · rintro ⟨n, hn, hresumes⟩
      obtain rfl : m' = n := Option.some.inj (hm'.symm.trans hn)
      refine ⟨hcode, ?_, hresumes.rax.symm.trans hrax, fun r hr => ?_⟩
      · exact (BitVec.add_left_inj 2).mp (hrip.symm.trans hresumes.rip)
      · have hne : r ≠ .rax := by
          rintro rfl
          exact absurd hr (by decide)
        rw [← hresumes.others r hne, hregs r, if_pos hr]
    · rintro ⟨-, hfetch, hword, hkept⟩
      refine ⟨m', hm', hrip.trans (congrArg (· + 2) hfetch), hrax.trans hword.symm, fun r _ => ?_⟩
      rw [hregs r]
      split
      · rename_i hr
        exact hkept r hr
      · rfl
  · refine iff_of_false ?_ fun h => hcode h.1
    rw [udPath_of_not_codeVisible c hfuzz hcode]
    rintro ⟨m', hm', -⟩
    cases hm'

/-- A program with 0F FF at the given address, all other registers but RSP zero, over a
manifold without content. -/
def probe (rip : Addr) : Machine Globals where
  regs := fun r => if r = .rsp then 0x8000 else 0
  rip := rip
  cs := kernelCodeSelector
  rflags := 0x202
  ss := 0
  mem := fun x => if x = rip then 0x0F else if x = rip + 1 then 0xFF else 0
  world := ⟨0, 0, some SubstrateManifold.zeroed⟩

/-- A compiler that touches nothing it need not touch. -/
def gentle (rip : Addr) : Clobber := ⟨(probe rip).regs, 0x202, 0, fun _ => 0, by decide⟩

theorem zeroed_fetch (w : BitVec 64) :
    (SubstrateManifold.zeroed.holographicFetch w).1 = ⟨0, 0⟩ := by
  apply SubstrateManifold.holographicFetch_absent
  rw [SubstrateManifold.resident_iff_slots, SubstrateManifold.zeroed,
    SubstrateManifold.construct_slots]
  rintro ⟨i, hi⟩
  cases hi

/-- At address 0 every fetched word is the one that is wanted. -/
theorem udPath_resumes_at_zero : ∃ m', udPath (gentle 0) 0x2000 0x3000 (probe 0) = some m' ∧
    Resumes SubstrateManifold.zeroed (probe 0) m' :=
  (udPath_resumes_iff (gentle 0) 0x2000 0x3000 (probe 0) SubstrateManifold.zeroed rfl rfl).mpr
    ⟨codeVisible_of_clear (by decide) (by rintro x (rfl | rfl) <;> decide),
      by rw [zeroed_fetch]; rfl, by rw [zeroed_fetch]; rfl, fun _ _ => rfl⟩

/-- From address 0x1000 the program goes on at address 2. -/
theorem not_resumes_misplaced_pointer :
    ((probe 0x1000).mem (probe 0x1000).rip = 0x0F ∧
      (probe 0x1000).mem ((probe 0x1000).rip + 1) = 0xFF) ∧
    ¬∃ m', udPath (gentle 0x1000) 0x2000 0x3000 (probe 0x1000) = some m' ∧
      Resumes SubstrateManifold.zeroed (probe 0x1000) m' := by
  have hcode : (probe 0x1000).mem (probe 0x1000).rip = 0x0F ∧
      (probe 0x1000).mem ((probe 0x1000).rip + 1) = 0xFF := by decide
  refine ⟨hcode, fun ⟨m', hm', hresumes⟩ => ?_⟩
  have hvisible : CodeVisible 0x2000 0x3000 (probe 0x1000) :=
    codeVisible_of_clear hcode (by rintro x (rfl | rfl) <;> decide)
  obtain ⟨n, hn, hrip, -⟩ := udPath_of_codeVisible (gentle 0x1000) rfl rfl hvisible
  obtain rfl : m' = n := Option.some.inj (hm'.symm.trans hn)
  have hresumed := hresumes.rip.symm.trans hrip
  rw [zeroed_fetch] at hresumed
  exact absurd hresumed (by decide)

end EmergenceOS.Boot.Handlers
