/- Module: EmergenceOS/Lib/X86Ports
   digest: Straight-line code that also moves byte constants and writes to ports. -/

import EmergenceOS.Lib.X86

set_option autoImplicit false
set_option relaxedAutoImplicit false

namespace EmergenceOS.Lib.X86

open EmergenceOS.Lib.Bytes EmergenceOS.Lib.WordMemory

universe u v
variable {ω : Type u} {F : Type v}

inductive PortInstr (F : Type v)
  | code (i : Instr F)
  /-- An immediate into the low byte of a register. -/
  | movb (imm : Byte) (dst : Reg)
  /-- The low byte of a register to a port. -/
  | outb (src : Reg) (port : Byte)

/-- The low byte after a byte move. -/
theorem setWidth_movb (x : BitVec 64) (imm : Byte) :
    ((x &&& ~~~0xFF) ||| imm.setWidth 64).setWidth 8 = imm := by
  have hmask : ∀ k < 8, (~~~(0xFF : BitVec 64)).getLsbD k = false := by decide
  apply BitVec.eq_of_getLsbD_eq
  intro k hk
  rw [BitVec.getLsbD_setWidth, BitVec.getLsbD_or, BitVec.getLsbD_and, hmask k hk,
    BitVec.getLsbD_setWidth]
  simp [hk, show k < 64 by omega]

section
variable (functions : F → CFunction ω) (c : Clobber) (emit : Byte → Byte → ω → ω)

/-- The world takes each byte together with its port. -/
def portStep : PortInstr F → Machine ω → Option (Machine ω)
  | .code i, m => step functions c i m
  | .movb imm dst, m => some (m.set dst ((m.regs dst &&& ~~~0xFF) ||| imm.setWidth 64))
  | .outb src port, m => some { m with world := emit port ((m.regs src).setWidth 8) m.world }

def portExec : List (PortInstr F) → Machine ω → Option (Machine ω)
  | [], m => some m
  | i :: is, m => (portStep functions c emit i m).bind (portExec is)

theorem portExec_append (is js : List (PortInstr F)) (m : Machine ω) :
    portExec functions c emit (is ++ js) m =
      (portExec functions c emit is m).bind (portExec functions c emit js) := by
  induction is generalizing m with
  | nil => rfl
  | cons i is ih =>
    rw [List.cons_append, portExec, portExec]
    cases portStep functions c emit i m with
    | none => rfl
    | some m => exact ih m

/-- Code without port writes runs as it does by itself. -/
theorem portExec_code (is : List (Instr F)) (m : Machine ω) :
    portExec functions c emit (is.map .code) m = exec functions c is m := by
  induction is generalizing m with
  | nil => rfl
  | cons i is ih =>
    rw [List.map_cons, portExec, portStep, exec]
    cases step functions c i m with
    | none => rfl
    | some m => exact ih m

end

end EmergenceOS.Lib.X86
