/- Module: EmergenceOS/Core/VmxController
   digest: VMXController::enable: when it succeeds, and that one call decides for all. -/

import EmergenceOS.Lib.Vmx

/-!
The capability registers are read by their lower halves alone, so the upper halves of both
control registers are cleared on the way.
-/

set_option autoImplicit false
set_option relaxedAutoImplicit false

namespace EmergenceOS.Core.VmxController

open EmergenceOS.Lib.Vmx

structure VMXController where
  vmxonRegion : BitVec 64
  vmcsRegion : BitVec 64

/-- The lower and the upper half of a register that is read, as eax and edx. -/
def lower (v : BitVec 64) : BitVec 32 := v.setWidth 32
def upper (v : BitVec 64) : BitVec 32 := (v >>> 32).setWidth 32

/-- Step 0 of enable: whether to go on, and the processor. -/
def enableFeature (cpu : Cpu) : Option (Bool × Cpu) := do
  let fc ← cpu.rdmsr 0x3A
  if lower fc &&& 1 = 0 then
    let cpu ← cpu.writeFeatureControl (upper fc ++ (lower fc ||| 0x5))
    return (true, cpu)
  else if lower fc &&& 0x4 = 0 then return (false, cpu)
  else return (true, cpu)

/-- A control register with the lower halves of its fixed bits. -/
def withFixed (fixed0 fixed1 v : BitVec 64) : BitVec 64 :=
  (v ||| (lower fixed0).setWidth 64) &&& (lower fixed1).setWidth 64

/-- Step 2 of enable. -/
def applyFixed (cpu : Cpu) : Option Cpu := do
  let cr4 := cpu.cr4 ||| ((1 : BitVec 64) <<< (13 : Nat))
  let cr4Fixed0 ← cpu.rdmsr 0x488
  let cr4Fixed1 ← cpu.rdmsr 0x489
  let cpu ← cpu.movCr4 (withFixed cr4Fixed0 cr4Fixed1 cr4)
  let cr0 := cpu.cr0
  let cr0Fixed0 ← cpu.rdmsr 0x486
  let cr0Fixed1 ← cpu.rdmsr 0x487
  cpu.movCr0 (withFixed cr0Fixed0 cr0Fixed1 cr0)

/-- Steps 3 and 4 of enable. -/
def VMXController.enter (c : VMXController) (cpu : Cpu) : Option (Bool × Cpu) := do
  let basic ← cpu.rdmsr 0x480
  let cpu := cpu.store32 c.vmxonRegion (lower basic)
  let (error, cpu) ← cpu.vmxon c.vmxonRegion
  if error then return (false, cpu)
  let cpu := cpu.store32 c.vmcsRegion (lower basic)
  let (error, cpu) ← cpu.vmptrld c.vmcsRegion
  return (!error, cpu)

def VMXController.enable (c : VMXController) (cpu : Cpu) : Option (Bool × Cpu) := do
  let (proceed, cpu) ← enableFeature cpu
  if !proceed then return (false, cpu)
  if !cpu.caps.hasVmx then return (false, cpu)
  let cpu ← applyFixed cpu
  c.enter cpu

/-- The feature control register after step 0, where that does not give up. -/
def unlocked (fc : BitVec 64) : BitVec 64 :=
  if fc.getLsbD 0 then fc else upper fc ++ (lower fc ||| 0x5)

/-- The processor after it. -/
def opened (cpu : Cpu) (fc : BitVec 64) : Cpu := { cpu with featureControl := some (unlocked fc) }

/-- The firmware locked the register with VMX off. -/
def refused (fc : BitVec 64) : Bool := fc.getLsbD 0 && !fc.getLsbD 2

theorem lower_and_eq_zero_iff (v : BitVec 64) {i : Nat} (hi : i < 32) :
    lower v &&& BitVec.twoPow 32 i = 0 ↔ v.getLsbD i = false := by
  rw [BitVec.and_twoPow, lower, BitVec.getLsbD_setWidth, decide_eq_true hi, Bool.true_and]
  cases hv : v.getLsbD i with
  | false => simp
  | true =>
    simp only [if_true, Bool.true_eq_false, iff_false]
    intro h
    have hbit := congrArg (·.getLsbD i) h
    simp [hi] at hbit

theorem unlocked_bits (fc : BitVec 64) (h : refused fc = false) :
    (unlocked fc).getLsbD 0 = true ∧ (unlocked fc).getLsbD 2 = true := by
  unfold unlocked
  unfold refused at h
  split
  · rename_i hlock
    rw [hlock] at h
    exact ⟨hlock, by simpa using h⟩
  · have hlow {i : Nat} (hi : i < 32) :
        (upper fc ++ (lower fc ||| 0x5)).getLsbD i = (lower fc ||| 0x5).getLsbD i := by
      rw [BitVec.getLsbD_append, if_pos hi]
    have hfive : (0x5 : BitVec 32).getLsbD 0 = true ∧ (0x5 : BitVec 32).getLsbD 2 = true := by
      decide
    refine ⟨(hlow (by decide)).trans ?_, (hlow (by decide)).trans ?_⟩
    · rw [BitVec.getLsbD_or, hfive.1, Bool.or_true]
    · rw [BitVec.getLsbD_or, hfive.2, Bool.or_true]

theorem enableFeature_eq {cpu : Cpu} {fc : BitVec 64} (h : cpu.featureControl = some fc) :
    enableFeature cpu = some (!refused fc, if refused fc then cpu else opened cpu fc) := by
  have hread : cpu.rdmsr 0x3A = some fc := h
  have hlock : lower fc &&& 1 = 0 ↔ fc.getLsbD 0 = false :=
    lower_and_eq_zero_iff fc (i := 0) (by decide)
  have henable : lower fc &&& 0x4 = 0 ↔ fc.getLsbD 2 = false :=
    lower_and_eq_zero_iff fc (i := 2) (by decide)
  rw [enableFeature, hread, Option.bind_eq_bind, Option.bind_some]
  split
  · rename_i hfree
    have h0 := hlock.mp hfree
    have hrefused : refused fc = false := by rw [refused, h0, Bool.false_and]
    have hnot : ¬fc.getLsbD 0 = true := by rw [h0]; exact Bool.false_ne_true
    have hunlocked : unlocked fc = upper fc ++ (lower fc ||| 0x5) := if_neg hnot
    have hwrite : cpu.writeFeatureControl (unlocked fc) = some (opened cpu fc) := by
      rw [Cpu.writeFeatureControl, h]
      exact if_neg hnot
    rw [← hunlocked, hwrite, hrefused]
    rfl
  · rename_i hlocked
    have h0 : fc.getLsbD 0 = true := by simpa using mt hlock.mpr hlocked
    split
    · rename_i hoff
      have hrefused : refused fc = true := by rw [refused, h0, henable.mp hoff]; rfl
      simp [hrefused]
    · rename_i hon
      have h2 : fc.getLsbD 2 = true := by simpa using mt henable.mpr hon
      have hrefused : refused fc = false := by rw [refused, h0, h2]; rfl
      have hunlocked : unlocked fc = fc := if_pos h0
      rw [hrefused, opened, hunlocked, ← h]
      rfl

theorem withFixed_getLsbD (fixed0 fixed1 v : BitVec 64) (i : Nat) :
    (withFixed fixed0 fixed1 v).getLsbD i =
      ((v.getLsbD i || decide (i < 32) && fixed0.getLsbD i) &&
        (decide (i < 32) && fixed1.getLsbD i)) := by
  simp only [withFixed, lower, BitVec.getLsbD_and, BitVec.getLsbD_or, BitVec.getLsbD_setWidth]
  grind

theorem withFixed_high (fixed0 fixed1 v : BitVec 64) : withFixed fixed0 fixed1 v >>> 32 = 0 := by
  apply BitVec.eq_of_getLsbD_eq
  intro i _
  rw [BitVec.getLsbD_ushiftRight, withFixed_getLsbD,
    decide_eq_false (show ¬32 + i < 32 by omega)]
  simp

/-- The fixed bits are met, also those of the upper half. -/
theorem supported_withFixed {fixed0 fixed1 : BitVec 64} (h : fixed0 &&& ~~~fixed1 = 0)
    (hhigh : fixed0 >>> 32 = 0) (v : BitVec 64) :
    supported fixed0 fixed1 (withFixed fixed0 fixed1 v) = true := by
  rw [and_not_eq_zero_iff] at h
  have hlow (i : Nat) (hi : fixed0.getLsbD i = true) : i < 32 := by
    by_contra hge
    have hbit := congrArg (·.getLsbD (i - 32)) hhigh
    simp [show 32 + (i - 32) = i by omega, hi] at hbit
  rw [supported_iff]
  refine ⟨fun i hi => ?_, fun i hi => ?_⟩
  · rw [withFixed_getLsbD, hi, h i hi, decide_eq_true (hlow i hi)]
    simp
  · rw [withFixed_getLsbD, Bool.and_eq_true, Bool.and_eq_true] at hi
    exact hi.2.2

/-- A value that went through the fixed bits stays as it is, also with bits that it has. -/
theorem withFixed_or (fixed0 fixed1 v b : BitVec 64)
    (hb : ∀ i, b.getLsbD i = true → (withFixed fixed0 fixed1 v).getLsbD i = true) :
    withFixed fixed0 fixed1 (withFixed fixed0 fixed1 v ||| b) = withFixed fixed0 fixed1 v := by
  apply BitVec.eq_of_getLsbD_eq
  intro i _
  have hbit := hb i
  rw [withFixed_getLsbD] at hbit
  rw [withFixed_getLsbD, BitVec.getLsbD_or, withFixed_getLsbD]
  grind

/-- The control registers after step 2. -/
def fixedCr4 (cpu : Cpu) : BitVec 64 :=
  withFixed cpu.caps.cr4Fixed0 cpu.caps.cr4Fixed1 (cpu.cr4 ||| ((1 : BitVec 64) <<< (13 : Nat)))

def fixedCr0 (cpu : Cpu) : BitVec 64 :=
  withFixed cpu.caps.cr0Fixed0 cpu.caps.cr0Fixed1 cpu.cr0

section
variable {cpu : Cpu}

theorem fixedCr4_bits (hsound : cpu.caps.Sound) (hlong : cpu.LongMode) :
    (fixedCr4 cpu).getLsbD 5 = true ∧ (fixedCr4 cpu).getLsbD 13 = true := by
  have hvmxe : ((1 : BitVec 64) <<< (13 : Nat)).getLsbD 13 = true := by decide
  constructor
  · rw [fixedCr4, withFixed_getLsbD, BitVec.getLsbD_or, hlong.pae, hsound.cr4_pae]
    rfl
  · rw [fixedCr4, withFixed_getLsbD, BitVec.getLsbD_or, hvmxe, hsound.cr4_vmxe, Bool.or_true]
    rfl

theorem fixedCr0_bits (hsound : cpu.caps.Sound) (hlong : cpu.LongMode) :
    (fixedCr0 cpu).getLsbD 0 = true ∧ (fixedCr0 cpu).getLsbD 31 = true ∧
      ((fixedCr0 cpu).getLsbD 29 = true → (fixedCr0 cpu).getLsbD 30 = true) := by
  refine ⟨?_, ?_, fun h => ?_⟩
  · rw [fixedCr0, withFixed_getLsbD, hlong.protection, hsound.cr0_protected]
    rfl
  · rw [fixedCr0, withFixed_getLsbD, hlong.paging, hsound.cr0_paging]
    rfl
  · rw [fixedCr0, withFixed_getLsbD, hsound.cr0_cache.1, Bool.and_false, Bool.or_false,
      Bool.and_eq_true] at h
    rw [fixedCr0, withFixed_getLsbD, hlong.cache h.1, hsound.cr0_cache.2]
    rfl

variable (cpu) in
theorem supportsControl_fixed (hsound : cpu.caps.Sound) :
    cpu.supportsControl (fixedCr0 cpu) (fixedCr4 cpu) = true := by
  rw [Cpu.supportsControl, fixedCr0, fixedCr4,
    supported_withFixed hsound.cr0Fixed hsound.cr0Fixed0_high,
    supported_withFixed hsound.cr4Fixed hsound.cr4Fixed0_high]
  rfl

/-- The processor as step 2 leaves it. -/
def fixed (cpu : Cpu) : Cpu := { cpu with cr4 := fixedCr4 cpu, cr0 := fixedCr0 cpu }

theorem movCr4_fixed (hsound : cpu.caps.Sound) (hlong : cpu.LongMode)
    (hinside : cpu.vmxonPointer.isSome = true → cpu.supportsControl cpu.cr0 cpu.cr4 = true) :
    cpu.movCr4 (fixedCr4 cpu) = some { cpu with cr4 := fixedCr4 cpu } := by
  have hreserved : fixedCr4 cpu &&& cpu.caps.cr4Reserved = 0 := by
    apply BitVec.eq_of_getLsbD_eq
    intro i _
    have hbit := congrArg (·.getLsbD i) hsound.cr4_reserved
    simp only [BitVec.getLsbD_and] at hbit
    rw [BitVec.getLsbD_and, fixedCr4, withFixed_getLsbD]
    grind
  have hsupports (h : cpu.vmxonPointer.isSome = true) :
      cpu.supportsControl cpu.cr0 (fixedCr4 cpu) = true := by
    have hcontrol := hinside h
    rw [Cpu.supportsControl, Bool.and_eq_true] at hcontrol ⊢
    exact ⟨hcontrol.1, supported_withFixed hsound.cr4Fixed hsound.cr4Fixed0_high _⟩
  rw [Cpu.movCr4, if_neg, if_neg]
  · rintro ⟨h, hnot⟩
    rw [hsupports h] at hnot
    cases hnot
  · rw [hreserved, (fixedCr4_bits hsound hlong).1]
    simp

theorem movCr0_fixed (hsound : cpu.caps.Sound) (hlong : cpu.LongMode) :
    ({ cpu with cr4 := fixedCr4 cpu } : Cpu).movCr0 (fixedCr0 cpu) = some (fixed cpu) := by
  obtain ⟨hprotection, hpaging, hcache⟩ := fixedCr0_bits hsound hlong
  have hhigh : fixedCr0 cpu >>> 32 = 0 := withFixed_high _ _ _
  rw [Cpu.movCr0, if_neg, if_neg]
  · rfl
  · rintro ⟨-, hnot⟩
    have hsupports := supportsControl_fixed cpu hsound
    rw [show ({ cpu with cr4 := fixedCr4 cpu } : Cpu).supportsControl (fixedCr0 cpu)
      (fixedCr4 cpu) = true from hsupports] at hnot
    cases hnot
  · rw [hhigh, hprotection, hpaging]
    rintro (h | h | h | ⟨h, hnot⟩)
    · exact h rfl
    · cases h
    · cases h
    · rw [hcache h] at hnot
      cases hnot

/-- Neither write to a control register faults. Inside VMX operation that takes registers that
are as it requires already. -/
theorem applyFixed_eq (hvmx : cpu.caps.hasVmx = true) (hsound : cpu.caps.Sound)
    (hlong : cpu.LongMode)
    (hinside : cpu.vmxonPointer.isSome = true → cpu.supportsControl cpu.cr0 cpu.cr4 = true) :
    applyFixed cpu = some (fixed cpu) := by
  have h488 : cpu.rdmsr 0x488 = some cpu.caps.cr4Fixed0 := by simp [Cpu.rdmsr, hvmx]
  have h489 : cpu.rdmsr 0x489 = some cpu.caps.cr4Fixed1 := by simp [Cpu.rdmsr, hvmx]
  have h486 : ({ cpu with cr4 := fixedCr4 cpu } : Cpu).rdmsr 0x486 = some cpu.caps.cr0Fixed0 := by
    simp [Cpu.rdmsr, hvmx]
  have h487 : ({ cpu with cr4 := fixedCr4 cpu } : Cpu).rdmsr 0x487 = some cpu.caps.cr0Fixed1 := by
    simp [Cpu.rdmsr, hvmx]
  have hcr4 : (cpu.movCr4 (withFixed cpu.caps.cr4Fixed0 cpu.caps.cr4Fixed1
      (cpu.cr4 ||| ((1 : BitVec 64) <<< (13 : Nat))))) = _ := movCr4_fixed hsound hlong hinside
  simp only [applyFixed, h488, h489, Option.bind_eq_bind, Option.bind_some, hcr4, h486, h487]
  exact movCr0_fixed hsound hlong

end

/-- Where a region may lie. -/
def canHold (cpu : Cpu) (address : BitVec 64) : Bool :=
  address &&& 0xFFF == 0 && decide (address.toNat < 2 ^ cpu.caps.physicalBits)

/-- The revision identifier that enable writes. -/
def revision (cpu : Cpu) : BitVec 32 := lower cpu.caps.basic

/-- VMXON does not fault. -/
structure Prepared (cpu : Cpu) : Prop where
  protection : cpu.cr0.getLsbD 0 = true
  vmxe : cpu.cr4.getLsbD 13 = true
  control : cpu.supportsControl cpu.cr0 cpu.cr4 = true
  feature : (cpu.featureControl.any fun fc => fc.getLsbD 0 && fc.getLsbD 2) = true

section
variable {c : VMXController} {cpu : Cpu}

variable (cpu) in
theorem acceptsRegion_revision (hsound : cpu.caps.Sound) {address : BitVec 64}
    (h : cpu.words address = revision cpu) : cpu.acceptsRegion address = canHold cpu address := by
  have hbit : (revision cpu).getLsbD 31 = false := by
    rw [revision, lower, BitVec.getLsbD_setWidth, hsound.revision, Bool.and_false]
  rw [Cpu.acceptsRegion, h, hbit, revision, lower, BEq.rfl]
  simp [canHold]

theorem words_store32 (cpu : Cpu) (address other : BitVec 64) (v : BitVec 32) :
    (cpu.store32 address v).words other = if other = address then v else cpu.words other :=
  Function.update_apply _ _ _ _

theorem vmxon_inside (h : Prepared cpu) (hinside : cpu.vmxonPointer.isSome = true)
    (address : BitVec 64) : cpu.vmxon address = some (true, cpu) := by
  rw [Cpu.vmxon, if_neg (by simp [h.protection, h.vmxe]), if_pos hinside]

variable (cpu) in
theorem vmxon_outside (hsound : cpu.caps.Sound) (h : Prepared cpu)
    (houtside : cpu.vmxonPointer = none) {address : BitVec 64}
    (hword : cpu.words address = revision cpu) :
    cpu.vmxon address = some (if canHold cpu address then
      (false, { cpu with vmxonPointer := some address, currentVmcs := none })
      else (true, cpu)) := by
  rw [Cpu.vmxon, if_neg (by simp [h.protection, h.vmxe]), if_neg (by simp [houtside]),
    if_neg (by simp [h.control]), h.feature, if_neg (by simp),
    acceptsRegion_revision cpu hsound hword]
  cases canHold cpu address <;> rfl

/-- The processor after VMXON and after the store to the other region. -/
def inside (c : VMXController) (cpu : Cpu) : Cpu :=
  ({ cpu with vmxonPointer := some c.vmxonRegion, currentVmcs := none } : Cpu).store32
    c.vmcsRegion (revision cpu)

variable (c cpu) in
theorem vmptrld_inside (hsound : cpu.caps.Sound) : (inside c cpu).vmptrld c.vmcsRegion =
    some (if c.vmcsRegion ≠ c.vmxonRegion ∧ canHold cpu c.vmcsRegion then
      (false, { inside c cpu with currentVmcs := some c.vmcsRegion })
      else (true, inside c cpu)) := by
  have hword : (inside c cpu).words c.vmcsRegion = revision (inside c cpu) :=
    Function.update_self _ _ _
  have haccepts := acceptsRegion_revision (inside c cpu) hsound hword
  have hpointer : (inside c cpu).vmxonPointer = some c.vmxonRegion := rfl
  have hhold : canHold (inside c cpu) c.vmcsRegion = canHold cpu c.vmcsRegion := rfl
  rw [Cpu.vmptrld, haccepts, hpointer, hhold, if_neg (by simp)]
  by_cases hsame : c.vmxonRegion = c.vmcsRegion
  · rw [if_pos (congrArg some hsame), if_neg fun h => h.1 hsame.symm]
  · rw [if_neg fun h => hsame (Option.some.inj h)]
    cases canHold cpu c.vmcsRegion with
    | false => rw [if_pos rfl, if_neg fun h => Bool.false_ne_true h.2]
    | true =>
      rw [if_neg (by simp), if_pos ⟨Ne.symm hsame, rfl⟩]
      rfl

theorem rdmsr_basic (hvmx : cpu.caps.hasVmx = true) : cpu.rdmsr 0x480 = some cpu.caps.basic := by
  simp [Cpu.rdmsr, hvmx]

/-- Inside VMX operation VMXON fails, and nothing changes but the double word before it. -/
theorem enter_inside (hvmx : cpu.caps.hasVmx = true) (h : Prepared cpu)
    (hinside : cpu.vmxonPointer.isSome = true) :
    c.enter cpu = some (false, cpu.store32 c.vmxonRegion (revision cpu)) := by
  have hprepared : Prepared (cpu.store32 c.vmxonRegion (revision cpu)) := { h with }
  have hvmxon := vmxon_inside hprepared hinside c.vmxonRegion
  rw [revision] at hvmxon ⊢
  simp only [VMXController.enter, rdmsr_basic hvmx, Option.bind_eq_bind, Option.bind_some, hvmxon]
  rfl

/-- What enter does outside VMX operation. -/
def entered (c : VMXController) (cpu : Cpu) : Bool × Cpu :=
  let stored := cpu.store32 c.vmxonRegion (revision cpu)
  if canHold cpu c.vmxonRegion then
    if c.vmcsRegion ≠ c.vmxonRegion ∧ canHold cpu c.vmcsRegion then
      (true, { inside c stored with currentVmcs := some c.vmcsRegion })
    else (false, inside c stored)
  else (false, stored)

theorem enter_outside (hvmx : cpu.caps.hasVmx = true) (hsound : cpu.caps.Sound)
    (h : Prepared cpu) (houtside : cpu.vmxonPointer = none) :
    c.enter cpu = some (entered c cpu) := by
  let stored := cpu.store32 c.vmxonRegion (revision cpu)
  have hprepared : Prepared stored := { h with }
  have hword : stored.words c.vmxonRegion = revision cpu := Function.update_self _ _ _
  have hvmxon := vmxon_outside stored hsound hprepared houtside hword
  have hvmptrld := vmptrld_inside c stored hsound
  have hhold (address : BitVec 64) : canHold stored address = canHold cpu address := rfl
  have henter : c.enter cpu = (stored.vmxon c.vmxonRegion).bind fun r =>
      if r.1 then some (false, r.2)
      else (((r.2.store32 c.vmcsRegion (revision cpu)).vmptrld c.vmcsRegion).bind fun r =>
        some (!r.1, r.2)) := by
    simp only [VMXController.enter, rdmsr_basic hvmx, Option.bind_eq_bind, Option.bind_some]
    rfl
  rw [henter, hvmxon, hhold, Option.bind_some, entered]
  cases hfirst : canHold cpu c.vmxonRegion with
  | false => rfl
  | true =>
    rw [hhold] at hvmptrld
    change ((inside c stored).vmptrld c.vmcsRegion).bind _ = _
    rw [hvmptrld, Option.bind_some]
    split
    · rfl
    · rfl

end

/-- Both regions can be used, and they are two. -/
def Usable (c : VMXController) (cpu : Cpu) : Prop :=
  canHold cpu c.vmxonRegion = true ∧ c.vmcsRegion ≠ c.vmxonRegion ∧
    canHold cpu c.vmcsRegion = true

/-- VMX operation with the region of the virtual machine loaded. -/
structure InOperation (c : VMXController) (cpu : Cpu) : Prop where
  vmxonPointer : cpu.vmxonPointer = some c.vmxonRegion
  currentVmcs : cpu.currentVmcs = some c.vmcsRegion
  prepared : Prepared cpu
  high : cpu.cr0 >>> 32 = 0 ∧ cpu.cr4 >>> 32 = 0
  revisions : cpu.words c.vmxonRegion = revision cpu ∧ cpu.words c.vmcsRegion = revision cpu

/-- The processor after steps 0 to 2, where they do not give up. -/
def readied (cpu : Cpu) (fc : BitVec 64) : Cpu := fixed (opened cpu fc)

section
variable {c : VMXController} {cpu : Cpu} {fc : BitVec 64}

theorem enable_none (h : cpu.featureControl = none) : c.enable cpu = none := by
  have hread : cpu.rdmsr 0x3A = none := h
  rw [VMXController.enable, enableFeature, hread]
  rfl

theorem opened_longMode (hlong : cpu.LongMode) (fc : BitVec 64) : (opened cpu fc).LongMode :=
  { hlong with }

theorem opened_sound (hsound : cpu.caps.Sound) (fc : BitVec 64) : (opened cpu fc).caps.Sound :=
  hsound

theorem readied_prepared (hsound : cpu.caps.Sound) (hlong : cpu.LongMode)
    (h : refused fc = false) : Prepared (readied cpu fc) := by
  obtain ⟨h0, h2⟩ := unlocked_bits fc h
  exact {
    protection := (fixedCr0_bits (opened_sound hsound fc) (opened_longMode hlong fc)).1
    vmxe := (fixedCr4_bits (opened_sound hsound fc) (opened_longMode hlong fc)).2
    control := supportsControl_fixed (opened cpu fc) hsound
    feature := by
      change ((unlocked fc).getLsbD 0 && (unlocked fc).getLsbD 2) = true
      rw [h0, h2]
      rfl }

/-- enable after step 0. -/
theorem enable_some (hfc : cpu.featureControl = some fc) : c.enable cpu =
    if refused fc then some (false, cpu)
    else if cpu.caps.hasVmx then (applyFixed (opened cpu fc)).bind c.enter
    else some (false, opened cpu fc) := by
  rw [VMXController.enable, enableFeature_eq hfc]
  cases refused fc with
  | true => rfl
  | false => cases hvmx : cpu.caps.hasVmx <;> simp [hvmx, opened]

/-- What enable gives outside VMX operation. -/
def result (c : VMXController) (cpu : Cpu) (fc : BitVec 64) : Bool × Cpu :=
  if refused fc then (false, cpu)
  else if cpu.caps.hasVmx then entered c (readied cpu fc)
  else (false, opened cpu fc)

theorem enable_outside (hsound : cpu.caps.Sound) (hlong : cpu.LongMode)
    (houtside : cpu.vmxonPointer = none) (hfc : cpu.featureControl = some fc) :
    c.enable cpu = some (result c cpu fc) := by
  have hinside (h : (opened cpu fc).vmxonPointer.isSome = true) :
      (opened cpu fc).supportsControl (opened cpu fc).cr0 (opened cpu fc).cr4 = true :=
    absurd h (by simp [opened, houtside])
  rw [enable_some hfc, result]
  split
  · rfl
  · rename_i hrefused
    split
    · rename_i hvmx
      have happly : applyFixed (opened cpu fc) = some (readied cpu fc) :=
        applyFixed_eq hvmx (opened_sound hsound fc) (opened_longMode hlong fc) hinside
      have hprepared := readied_prepared hsound hlong (Bool.not_eq_true _ ▸ hrefused)
      rw [happly, Option.bind_some]
      exact enter_outside hvmx hsound hprepared houtside
    · rfl

theorem fst_entered (cpu : Cpu) : (entered c cpu).1 = true ↔ Usable c cpu := by
  unfold entered Usable
  split
  · rename_i hfirst
    split
    · rename_i hsecond
      exact iff_of_true rfl ⟨hfirst, hsecond⟩
    · rename_i hsecond
      exact iff_of_false Bool.false_ne_true fun h => hsecond h.2
  · rename_i hfirst
    exact iff_of_false Bool.false_ne_true fun h => hfirst h.1

/-- What holds when it succeeds. -/
theorem entered_inOperation (hprepared : Prepared cpu)
    (hhigh : cpu.cr0 >>> 32 = 0 ∧ cpu.cr4 >>> 32 = 0) (h : Usable c cpu) :
    InOperation c (entered c cpu).2 := by
  have hentered : entered c cpu = (true, { inside c (cpu.store32 c.vmxonRegion (revision cpu)) with
      currentVmcs := some c.vmcsRegion }) := by
    rw [entered, if_pos h.1, if_pos h.2]
  rw [hentered]
  refine ⟨rfl, rfl, { hprepared with }, hhigh, ?_, ?_⟩
  · exact (Function.update_of_ne (Ne.symm h.2.1) _ _).trans (Function.update_self _ _ _)
  · exact Function.update_self _ _ _

theorem refused_eq_false_iff (fc : BitVec 64) :
    refused fc = false ↔ (fc.getLsbD 0 = true → fc.getLsbD 2 = true) := by
  unfold refused
  cases fc.getLsbD 0 <;> cases fc.getLsbD 2 <;> simp

theorem fst_result (cpu : Cpu) (fc : BitVec 64) : (result c cpu fc).1 = true ↔
    refused fc = false ∧ cpu.caps.hasVmx = true ∧ Usable c cpu := by
  unfold result
  cases refused fc with
  | true => simp
  | false =>
    cases cpu.caps.hasVmx with
    | true =>
      have hentered : (entered c (readied cpu fc)).1 = true ↔ Usable c cpu :=
        fst_entered (readied cpu fc)
      simpa using hentered
    | false => simp

/-- It faults for want of the feature control register alone, and succeeds where the firmware
left VMX on or open, the processor has it and both regions can be used. -/
theorem enable_spec (c : VMXController) (cpu : Cpu) (hsound : cpu.caps.Sound)
    (hlong : cpu.LongMode) (houtside : cpu.vmxonPointer = none) :
    (c.enable cpu = none ↔ cpu.featureControl = none) ∧
      ((∃ cpu', c.enable cpu = some (true, cpu')) ↔
        (∃ fc, cpu.featureControl = some fc ∧ (fc.getLsbD 0 = true → fc.getLsbD 2 = true)) ∧
          cpu.caps.hasVmx = true ∧ Usable c cpu) ∧
      ∀ cpu', c.enable cpu = some (true, cpu') → InOperation c cpu' := by
  cases hfc : cpu.featureControl with
  | none => simp [enable_none hfc]
  | some fc =>
    have henable := enable_outside (c := c) hsound hlong houtside hfc
    have hfirst := fst_result (c := c) cpu fc
    rw [henable]
    refine ⟨by simp, ?_, fun cpu' h => ?_⟩
    · constructor
      · rintro ⟨cpu', h⟩
        obtain ⟨hrefused, hrest⟩ := hfirst.mp (congrArg Prod.fst (Option.some.inj h))
        exact ⟨⟨fc, rfl, (refused_eq_false_iff fc).mp hrefused⟩, hrest⟩
      · rintro ⟨⟨fc', hfc', hbits⟩, hrest⟩
        obtain rfl := Option.some.inj hfc'
        refine ⟨(result c cpu fc).2, congrArg some (Prod.ext ?_ rfl)⟩
        exact hfirst.mpr ⟨(refused_eq_false_iff fc).mpr hbits, hrest⟩
    · have hresult := Option.some.inj h
      obtain ⟨hrefused, hvmx, husable⟩ := hfirst.mp (congrArg Prod.fst hresult)
      have hentered : result c cpu fc = entered c (readied cpu fc) := by
        rw [result, hrefused, if_neg Bool.false_ne_true, if_pos hvmx]
      have hprepared := readied_prepared hsound hlong hrefused
      have hinOperation := entered_inOperation (c := c) hprepared
        ⟨withFixed_high _ _ _, withFixed_high _ _ _⟩ husable
      rwa [← hentered, hresult] at hinOperation

end

/-- A processor with its control registers as _start leaves them, and two regions. -/
def sampleCpu : Cpu where
  caps := ⟨true, 0x12, 0x80000021, 0xFFFFFFFF, 0x2000, 0x3767FF, ~~~0x3767FF, 36⟩
  featureControl := some 0
  cr0 := 0x80000013
  cr4 := 0x620
  vmxonPointer := none
  currentVmcs := none
  words := fun _ => 0

def sampleController : VMXController := ⟨0x2100000, 0x2101000⟩

theorem sampleCpu_sound : sampleCpu.caps.Sound := by constructor <;> decide

theorem sampleCpu_longMode : sampleCpu.LongMode := by constructor <;> decide

theorem enable_spec_open :
    (∃ cpu', sampleController.enable sampleCpu = some (true, cpu')) ∧
      ∀ cpu', sampleController.enable sampleCpu = some (true, cpu') →
        InOperation sampleController cpu' := by
  obtain ⟨-, hiff, hstate⟩ :=
    enable_spec sampleController sampleCpu sampleCpu_sound sampleCpu_longMode rfl
  exact ⟨hiff.mpr ⟨⟨0, rfl, by decide⟩, rfl, by decide, by decide, by decide⟩, hstate⟩

section
variable {c : VMXController} {cpu : Cpu} {fc : BitVec 64}

/-- Where enable leads, it fails and changes nothing: the first call decides. -/
inductive Settled (c : VMXController) (cpu : Cpu) : Prop
  | refused (fc : BitVec 64) (hfc : cpu.featureControl = some fc) (h : refused fc = true)
  | missing (fc : BitVec 64) (hfc : cpu.featureControl = some (unlocked fc))
    (h : refused fc = false) (hvmx : cpu.caps.hasVmx = false)
  | entered (fc : BitVec 64) (hfc : cpu.featureControl = some (unlocked fc))
    (h : refused fc = false) (hvmx : cpu.caps.hasVmx = true) (hfixed : fixed cpu = cpu)
    (hprepared : Prepared cpu) (hword : cpu.words c.vmxonRegion = revision cpu)
    (hend : cpu.vmxonPointer.isSome = true ∨
      cpu.vmxonPointer = none ∧ canHold cpu c.vmxonRegion = false)

theorem unlocked_unlocked (h : refused fc = false) : unlocked (unlocked fc) = unlocked fc :=
  if_pos (unlocked_bits fc h).1

theorem refused_unlocked (h : refused fc = false) : refused (unlocked fc) = false := by
  rw [refused, (unlocked_bits fc h).2, Bool.not_true, Bool.and_false]

theorem opened_of_unlocked (hfc : cpu.featureControl = some (unlocked fc))
    (h : refused fc = false) : opened cpu (unlocked fc) = cpu := by
  rw [opened, unlocked_unlocked h, ← hfc]

theorem Settled.enable (hsound : cpu.caps.Sound) (hlong : cpu.LongMode) (h : Settled c cpu) :
    c.enable cpu = some (false, cpu) := by
  cases h with
  | refused fc hfc h => rw [enable_some hfc, h, if_pos rfl]
  | missing fc hfc h hvmx =>
    rw [enable_some hfc, refused_unlocked h, opened_of_unlocked hfc h, hvmx]
    rfl
  | entered fc hfc h hvmx hfixed hprepared hword hend =>
    have happly := applyFixed_eq hvmx hsound hlong fun _ => hprepared.control
    have hstore : cpu.store32 c.vmxonRegion (revision cpu) = cpu := by
      rw [Cpu.store32, ← hword, Function.update_eq_self]
    rw [enable_some hfc, refused_unlocked h, opened_of_unlocked hfc h, if_neg Bool.false_ne_true,
      if_pos hvmx, happly, hfixed, Option.bind_some]
    rcases hend with hinside | ⟨houtside, hhold⟩
    · rw [enter_inside hvmx hprepared hinside, hstore]
    · rw [enter_outside hvmx hsound hprepared houtside, VmxController.entered, hhold, hstore]
      rfl

theorem fixed_fixed (hsound : cpu.caps.Sound) (hlong : cpu.LongMode) :
    fixed (fixed cpu) = fixed cpu := by
  have hbit : ∀ i, ((1 : BitVec 64) <<< (13 : Nat)).getLsbD i = true →
      (fixedCr4 cpu).getLsbD i = true := by
    intro i hi
    rw [show (1 : BitVec 64) <<< (13 : Nat) = BitVec.twoPow 64 13 from rfl, BitVec.getLsbD_twoPow,
      Bool.and_eq_true, decide_eq_true_eq, decide_eq_true_eq] at hi
    rw [← hi.2]
    exact (fixedCr4_bits hsound hlong).2
  have hcr4 : fixedCr4 (fixed cpu) = fixedCr4 cpu := withFixed_or _ _ _ _ hbit
  have hcr0 : fixedCr0 (fixed cpu) = fixedCr0 cpu := by
    have hzero := withFixed_or cpu.caps.cr0Fixed0 cpu.caps.cr0Fixed1 cpu.cr0 0#64 (by simp)
    rwa [BitVec.or_zero] at hzero
  rw [fixed, hcr4, hcr0]
  rfl

theorem fixed_longMode (hsound : cpu.caps.Sound) (hlong : cpu.LongMode) :
    (fixed cpu).LongMode :=
  ⟨(fixedCr0_bits hsound hlong).1, (fixedCr0_bits hsound hlong).2.1,
    (fixedCr0_bits hsound hlong).2.2, (fixedCr4_bits hsound hlong).1⟩

/-- What enter leaves of the processor. -/
structure Kept (cpu cpu' : Cpu) : Prop where
  caps : cpu'.caps = cpu.caps
  featureControl : cpu'.featureControl = cpu.featureControl
  cr0 : cpu'.cr0 = cpu.cr0
  cr4 : cpu'.cr4 = cpu.cr4

theorem Kept.longMode {cpu' : Cpu} (h : Kept cpu cpu') (hlong : cpu.LongMode) : cpu'.LongMode := by
  obtain ⟨hprotection, hpaging, hcache, hpae⟩ := hlong
  rw [← h.cr0] at hprotection hpaging hcache
  rw [← h.cr4] at hpae
  exact ⟨hprotection, hpaging, hcache, hpae⟩

theorem Kept.prepared {cpu' : Cpu} (h : Kept cpu cpu') (hprepared : Prepared cpu) :
    Prepared cpu' := by
  obtain ⟨hprotection, hvmxe, hcontrol, hfeature⟩ := hprepared
  rw [Cpu.supportsControl, ← h.caps, ← h.cr0, ← h.cr4] at hcontrol
  rw [← h.cr0] at hprotection
  rw [← h.cr4] at hvmxe
  rw [← h.featureControl] at hfeature
  exact ⟨hprotection, hvmxe, hcontrol, hfeature⟩

theorem Kept.fixed {cpu' : Cpu} (h : Kept cpu cpu') (hfixed : fixed cpu = cpu) :
    fixed cpu' = cpu' := by
  have hcr4 : fixedCr4 cpu = cpu.cr4 := congrArg Cpu.cr4 hfixed
  have hcr0 : fixedCr0 cpu = cpu.cr0 := congrArg Cpu.cr0 hfixed
  rw [fixedCr4, ← h.caps, ← h.cr4] at hcr4
  rw [fixedCr0, ← h.caps, ← h.cr0] at hcr0
  rw [VmxController.fixed, fixedCr4, fixedCr0, hcr4, hcr0]

theorem entered_kept (c : VMXController) (cpu : Cpu) : Kept cpu (entered c cpu).2 := by
  unfold entered
  split
  · split <;> exact ⟨rfl, rfl, rfl, rfl⟩
  · exact ⟨rfl, rfl, rfl, rfl⟩

/-- Either VMX operation was entered, or the region for it cannot be used. -/
theorem entered_end (houtside : cpu.vmxonPointer = none) :
    (entered c cpu).2.words c.vmxonRegion = revision cpu ∧
      ((entered c cpu).2.vmxonPointer.isSome = true ∨
        (entered c cpu).2.vmxonPointer = none ∧ canHold cpu c.vmxonRegion = false) := by
  have hstored : (cpu.store32 c.vmxonRegion (revision cpu)).words c.vmxonRegion = revision cpu :=
    Function.update_self _ _ _
  have hinside : (inside c (cpu.store32 c.vmxonRegion (revision cpu))).words c.vmxonRegion =
      revision cpu := by
    refine (words_store32 _ _ _ _).trans ?_
    split
    · rfl
    · exact hstored
  unfold entered
  split
  · split
    · exact ⟨hinside, .inl rfl⟩
    · exact ⟨hinside, .inl rfl⟩
  · rename_i hfirst
    exact ⟨hstored, .inr ⟨houtside, Bool.not_eq_true _ ▸ hfirst⟩⟩

theorem settled_result (hsound : cpu.caps.Sound) (hlong : cpu.LongMode)
    (houtside : cpu.vmxonPointer = none) (hfc : cpu.featureControl = some fc) :
    (result c cpu fc).2.caps = cpu.caps ∧ (result c cpu fc).2.LongMode ∧
      Settled c (result c cpu fc).2 := by
  unfold result
  cases hrefused : refused fc with
  | true => exact ⟨rfl, hlong, .refused fc hfc hrefused⟩
  | false =>
    cases hvmx : cpu.caps.hasVmx with
    | false => exact ⟨rfl, opened_longMode hlong fc, .missing fc rfl hrefused hvmx⟩
    | true =>
      have hkept := entered_kept c (readied cpu fc)
      have hlongReady := fixed_longMode (opened_sound hsound fc) (opened_longMode hlong fc)
      have hprepared := readied_prepared hsound hlong hrefused
      have hfixed : fixed (readied cpu fc) = readied cpu fc :=
        fixed_fixed (opened_sound hsound fc) (opened_longMode hlong fc)
      obtain ⟨hword, hend⟩ :=
        entered_end (c := c) (show (readied cpu fc).vmxonPointer = none from houtside)
      change (entered c (readied cpu fc)).2.caps = _ ∧ (entered c (readied cpu fc)).2.LongMode ∧
        Settled c (entered c (readied cpu fc)).2
      refine ⟨hkept.caps, hkept.longMode hlongReady, .entered fc hkept.featureControl hrefused ?_
        (hkept.fixed hfixed) (hkept.prepared hprepared) ?_ ?_⟩
      · rw [hkept.caps]
        exact hvmx
      · rw [hword, revision, revision, hkept.caps]
      · rwa [canHold, hkept.caps]

/-- n calls of enable one after the other. -/
def calls (c : VMXController) : Nat → Cpu → Option (List Bool × Cpu)
  | 0, cpu => some ([], cpu)
  | n + 1, cpu => do
    let (r, cpu) ← c.enable cpu
    let (rs, cpu) ← calls c n cpu
    return (r :: rs, cpu)

theorem Settled.calls (hsound : cpu.caps.Sound) (hlong : cpu.LongMode) (h : Settled c cpu)
    (n : Nat) : calls c n cpu = some (List.replicate n false, cpu) := by
  induction n with
  | zero => rfl
  | succ n ih =>
    rw [VmxController.calls, h.enable hsound hlong]
    simp only [Option.bind_eq_bind, Option.bind_some, ih]
    rfl

/-- However often enable is called, only the first call can succeed, and no other call changes
anything. -/
theorem enable_once (c : VMXController) (cpu : Cpu) (hsound : cpu.caps.Sound)
    (hlong : cpu.LongMode) (houtside : cpu.vmxonPointer = none) (fc : BitVec 64)
    (hfc : cpu.featureControl = some fc) : ∃ r cpu', c.enable cpu = some (r, cpu') ∧
      ∀ n, calls c (n + 1) cpu = some (r :: List.replicate n false, cpu') := by
  obtain ⟨hcaps, hlongAfter, hsettled⟩ := settled_result (c := c) hsound hlong houtside hfc
  have henable := enable_outside (c := c) hsound hlong houtside hfc
  refine ⟨(result c cpu fc).1, (result c cpu fc).2, henable, fun n => ?_⟩
  rw [calls, henable]
  simp only [Option.bind_eq_bind, Option.bind_some,
    hsettled.calls (hcaps ▸ hsound) hlongAfter n]
  rfl

end

theorem enable_once_open : ∃ r cpu', sampleController.enable sampleCpu = some (r, cpu') ∧
    ∀ n, calls sampleController (n + 1) sampleCpu = some (r :: List.replicate n false, cpu') :=
  enable_once sampleController sampleCpu sampleCpu_sound sampleCpu_longMode rfl 0 rfl

end EmergenceOS.Core.VmxController
