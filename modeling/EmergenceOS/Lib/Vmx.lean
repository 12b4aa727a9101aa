/- Module: EmergenceOS/Lib/Vmx
   digest: A processor on its way into virtual-machine operation. -/

import EmergenceOS.Lib.Bytes
import Mathlib.Logic.Function.Basic

/-!
The processor runs 64-bit code in ring 0. An instruction that faults has no result. Memory is
seen as the double words at their addresses, and addresses are physical ones. PCIDs are left
out, and so is whatever happens inside a virtual machine.
-/

set_option autoImplicit false
set_option relaxedAutoImplicit false

namespace EmergenceOS.Lib.Vmx

open EmergenceOS.Lib.Bytes

/-- What the capability registers and cpuid tell. -/
structure Capabilities where
  hasVmx : Bool
  basic : BitVec 64
  cr0Fixed0 : BitVec 64
  cr0Fixed1 : BitVec 64
  cr4Fixed0 : BitVec 64
  cr4Fixed1 : BitVec 64
  cr4Reserved : BitVec 64
  physicalBits : Nat

/-- The feature control register may be missing; the pointers are set inside VMX operation. -/
structure Cpu where
  caps : Capabilities
  featureControl : Option (BitVec 64)
  cr0 : BitVec 64
  cr4 : BitVec 64
  vmxonPointer : Option (BitVec 64)
  currentVmcs : Option (BitVec 64)
  words : BitVec 64 → BitVec 32

/-- Bits that must be one and bits that may be one. -/
def supported (fixed0 fixed1 v : BitVec 64) : Bool :=
  fixed0 &&& ~~~v == 0 && v &&& ~~~fixed1 == 0

namespace Cpu

def supportsControl (cpu : Cpu) (cr0 cr4 : BitVec 64) : Bool :=
  supported cpu.caps.cr0Fixed0 cpu.caps.cr0Fixed1 cr0 &&
    supported cpu.caps.cr4Fixed0 cpu.caps.cr4Fixed1 cr4

def rdmsr (cpu : Cpu) (msr : BitVec 32) : Option (BitVec 64) :=
  if msr = 0x3A then cpu.featureControl
  else if cpu.caps.hasVmx = false then none
  else if msr = 0x480 then some cpu.caps.basic
  else if msr = 0x486 then some cpu.caps.cr0Fixed0
  else if msr = 0x487 then some cpu.caps.cr0Fixed1
  else if msr = 0x488 then some cpu.caps.cr4Fixed0
  else if msr = 0x489 then some cpu.caps.cr4Fixed1
  else none

/-- The lock bit keeps the register as it is. -/
def writeFeatureControl (cpu : Cpu) (v : BitVec 64) : Option Cpu :=
  match cpu.featureControl with
  | none => none
  | some old => if old.getLsbD 0 then none else some { cpu with featureControl := some v }

def movCr4 (cpu : Cpu) (v : BitVec 64) : Option Cpu :=
  if v &&& cpu.caps.cr4Reserved ≠ 0 ∨ v.getLsbD 5 = false then none
  else if cpu.vmxonPointer.isSome ∧ cpu.supportsControl cpu.cr0 v = false then none
  else some { cpu with cr4 := v }

def movCr0 (cpu : Cpu) (v : BitVec 64) : Option Cpu :=
  if v >>> 32 ≠ 0 ∨ v.getLsbD 0 = false ∨ v.getLsbD 31 = false ∨
      v.getLsbD 29 = true ∧ v.getLsbD 30 = false then none
  else if cpu.vmxonPointer.isSome ∧ cpu.supportsControl v cpu.cr4 = false then none
  else some { cpu with cr0 := v }

def store32 (cpu : Cpu) (address : BitVec 64) (v : BitVec 32) : Cpu :=
  { cpu with words := Function.update cpu.words address v }

/-- The address can be that of a region, and its revision identifier is the processor's. -/
def acceptsRegion (cpu : Cpu) (address : BitVec 64) : Bool :=
  address &&& 0xFFF == 0 && decide (address.toNat < 2 ^ cpu.caps.physicalBits) &&
    (cpu.words address &&& 0x7FFFFFFF == cpu.caps.basic.setWidth 32 &&& 0x7FFFFFFF) &&
    !(cpu.words address).getLsbD 31

/-- The error flag of setna, and the processor after the instruction. -/
def vmxon (cpu : Cpu) (address : BitVec 64) : Option (Bool × Cpu) :=
  if cpu.cr0.getLsbD 0 = false ∨ cpu.cr4.getLsbD 13 = false then none
  else if cpu.vmxonPointer.isSome then some (true, cpu)
  else if cpu.supportsControl cpu.cr0 cpu.cr4 = false then none
  else if !cpu.featureControl.any fun fc => fc.getLsbD 0 && fc.getLsbD 2 then none
  else if cpu.acceptsRegion address = false then some (true, cpu)
  else some (false, { cpu with vmxonPointer := some address, currentVmcs := none })

def vmptrld (cpu : Cpu) (address : BitVec 64) : Option (Bool × Cpu) :=
  if cpu.vmxonPointer = none then none
  else if cpu.vmxonPointer = some address then some (true, cpu)
  else if cpu.acceptsRegion address = false then some (true, cpu)
  else some (false, { cpu with currentVmcs := some address })

end Cpu

/-- What the manuals say of the capability registers. -/
structure Capabilities.Sound (caps : Capabilities) : Prop where
  cr0Fixed : caps.cr0Fixed0 &&& ~~~caps.cr0Fixed1 = 0
  cr0Fixed0_high : caps.cr0Fixed0 >>> 32 = 0
  cr0_protected : caps.cr0Fixed1.getLsbD 0 = true
  cr0_paging : caps.cr0Fixed1.getLsbD 31 = true
  cr0_cache : caps.cr0Fixed0.getLsbD 29 = false ∧ caps.cr0Fixed1.getLsbD 30 = true
  cr4Fixed : caps.cr4Fixed0 &&& ~~~caps.cr4Fixed1 = 0
  cr4Fixed0_high : caps.cr4Fixed0 >>> 32 = 0
  cr4_pae : caps.cr4Fixed1.getLsbD 5 = true
  cr4_vmxe : caps.cr4Fixed1.getLsbD 13 = true
  cr4_reserved : caps.cr4Fixed1 &&& caps.cr4Reserved = 0
  revision : caps.basic.getLsbD 31 = false

/-- 64-bit code runs with protection, paging and the address extension on. -/
structure Cpu.LongMode (cpu : Cpu) : Prop where
  protection : cpu.cr0.getLsbD 0 = true
  paging : cpu.cr0.getLsbD 31 = true
  cache : cpu.cr0.getLsbD 29 = true → cpu.cr0.getLsbD 30 = true
  pae : cpu.cr4.getLsbD 5 = true

/-- One set of bits lies in another. -/
theorem and_not_eq_zero_iff (x y : BitVec 64) :
    x &&& ~~~y = 0 ↔ ∀ i, x.getLsbD i = true → y.getLsbD i = true := by
  constructor
  · intro h i hx
    have hbit := congrArg (·.getLsbD i) h
    simpa [hx, BitVec.lt_of_getLsbD hx] using hbit
  · intro h
    apply BitVec.eq_of_getLsbD_eq
    intro i hi
    have hbit := h i
    grind

theorem supported_iff (fixed0 fixed1 v : BitVec 64) : supported fixed0 fixed1 v = true ↔
    (∀ i, fixed0.getLsbD i = true → v.getLsbD i = true) ∧
      ∀ i, v.getLsbD i = true → fixed1.getLsbD i = true := by
  rw [supported, Bool.and_eq_true, beq_iff_eq, beq_iff_eq, and_not_eq_zero_iff,
    and_not_eq_zero_iff]

end EmergenceOS.Lib.Vmx
