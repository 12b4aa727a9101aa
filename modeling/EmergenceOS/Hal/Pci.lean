/- Module: EmergenceOS/Hal/Pci
   digest: Reads of the PCI configuration space and the scan for the AHCI controller. -/

import EmergenceOS.Lib.Bytes
import EmergenceOS.Lib.ScanOrder

/-!
Both scans of the source look at function 0 of the buses 0 to 7. A controller that is
another function of its device, or behind a higher bus, is not found.
-/

set_option autoImplicit false
set_option relaxedAutoImplicit false

namespace EmergenceOS.Hal.Pci

open EmergenceOS.Lib.Bytes EmergenceOS.Lib.ScanOrder

/-- The registers of each function, as double words. -/
abbrev ConfigSpace := BitVec 8 → BitVec 5 → BitVec 3 → BitVec 6 → BitVec 32

/-- Port 0xCFC after a write to port 0xCF8: the double word that the address selects. -/
def configData (space : ConfigSpace) (address : BitVec 32) : BitVec 32 :=
  if address.msb then
    space (address.extractLsb' 16 8) (address.extractLsb' 11 5) (address.extractLsb' 8 3)
      (address.extractLsb' 2 6)
  else 0xFFFFFFFF

def pciConfigRead (space : ConfigSpace) (bus slot func offset : Byte) : BitVec 32 :=
  let address := (bus.setWidth 32 <<< 16) ||| (slot.setWidth 32 <<< 11) |||
    (func.setWidth 32 <<< 8) ||| (offset &&& 0xfc).setWidth 32 ||| (0x80000000 : BitVec 32)
  configData space address

structure Device where
  bus : Byte
  slot : Byte
  func : Byte
  vendor : BitVec 16
  device : BitVec 16
  baseClass : Byte
  subClass : Byte
  progIf : Byte
  bar5 : BitVec 64

def getDevice (space : ConfigSpace) (bus slot func : Byte) : Device :=
  let d0 := pciConfigRead space bus slot func 0
  let vendor := d0.setWidth 16
  let device := (d0 >>> 16).setWidth 16
  if vendor = 0xFFFF then ⟨bus, slot, func, vendor, device, 0, 0, 0, 0⟩
  else
    let d8 := pciConfigRead space bus slot func 8
    let d24 := pciConfigRead space bus slot func 0x24
    { bus, slot, func, vendor, device
      baseClass := (d8 >>> 24).setWidth 8
      subClass := (d8 >>> 16).setWidth 8
      progIf := (d8 >>> 8).setWidth 8
      bar5 := (d24 &&& ~~~0xF).setWidth 64 }

def findAhciBase (space : ConfigSpace) : BitVec 64 :=
  (scan 8 32 fun bus slot =>
    let dev := getDevice space (BitVec.ofNat 8 bus) (BitVec.ofNat 8 slot) 0
    if dev.baseClass = 0x01 ∧ dev.subClass = 0x06 then some dev.bar5 else none).getD 0

/-- A function by its place in the order of the buses, their slots and the functions there. -/
structure Location where
  bus : BitVec 8
  slot : BitVec 5
  func : BitVec 3

def Location.Before (p q : Location) : Prop :=
  p.bus < q.bus ∨ p.bus = q.bus ∧ (p.slot < q.slot ∨ p.slot = q.slot ∧ p.func < q.func)

/-- A function that is present, which shows in its vendor id, and of class 01h/06h. -/
def IsAhci (space : ConfigSpace) (p : Location) : Prop :=
  (space p.bus p.slot p.func 0).setWidth 16 ≠ (0xFFFF : BitVec 16) ∧
    (space p.bus p.slot p.func 2 >>> 24).setWidth 8 = (0x01 : BitVec 8) ∧
    (space p.bus p.slot p.func 2 >>> 16).setWidth 8 = (0x06 : BitVec 8)

def maskedBar5 (space : ConfigSpace) (p : Location) : BitVec 64 :=
  (space p.bus p.slot p.func 9 &&& ~~~0xF).setWidth 64

/-- The masked BAR5 of the first AHCI function among those in question, or 0 if there is none. -/
def FirstAhci (space : ConfigSpace) (among : Location → Prop) (base : BitVec 64) : Prop :=
  (∃ p, among p ∧ IsAhci space p ∧ (∀ q, among q → q.Before p → ¬IsAhci space q) ∧
    base = maskedBar5 space p) ∨
  (∀ p, among p → ¬IsAhci space p) ∧ base = 0

/-- The functions that find_ahci_base looks at. -/
def Scanned (p : Location) : Prop := p.bus < 8 ∧ p.func = 0

/-- The address that selects a register, for arguments of the widths of its fields. -/
def configAddress (bus : BitVec 8) (slot : BitVec 5) (func : BitVec 3) (masked : Byte) :
    BitVec 32 :=
  (bus.setWidth 32 <<< 16) ||| ((slot.setWidth 8).setWidth 32 <<< 11) |||
    ((func.setWidth 8).setWidth 32 <<< 8) ||| masked.setWidth 32 ||| (0x80000000 : BitVec 32)

section
variable (space : ConfigSpace) (bus : BitVec 8) (slot : BitVec 5) (func : BitVec 3) (masked : Byte)

theorem getLsbD_configAddress {k : Nat} (hk : k < 31) :
    (configAddress bus slot func masked).getLsbD k =
      ((decide (16 ≤ k) && bus.getLsbD (k - 16)) || (decide (11 ≤ k) && slot.getLsbD (k - 11)) ||
        (decide (8 ≤ k) && func.getLsbD (k - 8)) || masked.getLsbD k) := by
  have hslot : (slot.setWidth 8).setWidth 32 = slot.setWidth 32 :=
    BitVec.setWidth_setWidth (by decide)
  have hfunc : (func.setWidth 8).setWidth 32 = func.setWidth 32 :=
    BitVec.setWidth_setWidth (by decide)
  have htop : (0x80000000 : BitVec 32).getLsbD k = false := by
    rw [show (0x80000000 : BitVec 32) = BitVec.twoPow 32 31 from rfl, BitVec.getLsbD_twoPow]
    simp [show 31 ≠ k by omega]
  have hbelow (m : Nat) : (!decide (k < m)) = decide (m ≤ k) := by
    rw [← decide_not, decide_eq_decide]
    exact Nat.not_lt
  have hk32 : k < 32 := by omega
  have hsub (m : Nat) : k - m < 32 := by omega
  simp only [configAddress, hslot, hfunc, BitVec.getLsbD_or, htop, BitVec.getLsbD_shiftLeft,
    BitVec.getLsbD_setWidth, hbelow, hk32, hsub, decide_true, Bool.true_and, Bool.or_false]

theorem configAddress_enable : (configAddress bus slot func masked).msb = true := by
  rw [configAddress, BitVec.msb_or]
  exact Bool.or_true _

theorem configAddress_bus : (configAddress bus slot func masked).extractLsb' 16 8 = bus := by
  apply BitVec.eq_of_getLsbD_eq
  intro i hi
  have hslot : slot.getLsbD (16 + i - 11) = false := BitVec.getLsbD_of_ge _ _ (by omega)
  have hfunc : func.getLsbD (16 + i - 8) = false := BitVec.getLsbD_of_ge _ _ (by omega)
  have hmasked : masked.getLsbD (16 + i) = false := BitVec.getLsbD_of_ge _ _ (by omega)
  rw [BitVec.getLsbD_extractLsb', getLsbD_configAddress _ _ _ _ (by omega), hslot, hfunc, hmasked]
  simp [hi]

theorem configAddress_slot : (configAddress bus slot func masked).extractLsb' 11 5 = slot := by
  apply BitVec.eq_of_getLsbD_eq
  intro i hi
  have hfunc : func.getLsbD (11 + i - 8) = false := BitVec.getLsbD_of_ge _ _ (by omega)
  have hmasked : masked.getLsbD (11 + i) = false := BitVec.getLsbD_of_ge _ _ (by omega)
  rw [BitVec.getLsbD_extractLsb', getLsbD_configAddress _ _ _ _ (by omega), hfunc, hmasked]
  simp [hi, show ¬16 ≤ 11 + i by omega]

theorem configAddress_func : (configAddress bus slot func masked).extractLsb' 8 3 = func := by
  apply BitVec.eq_of_getLsbD_eq
  intro i hi
  have hmasked : masked.getLsbD (8 + i) = false := BitVec.getLsbD_of_ge _ _ (by omega)
  rw [BitVec.getLsbD_extractLsb', getLsbD_configAddress _ _ _ _ (by omega), hmasked]
  simp [hi, show ¬16 ≤ 8 + i by omega, show ¬11 ≤ 8 + i by omega]

theorem configAddress_register :
    (configAddress bus slot func masked).extractLsb' 2 6 = masked.extractLsb' 2 6 := by
  apply BitVec.eq_of_getLsbD_eq
  intro i hi
  rw [BitVec.getLsbD_extractLsb', getLsbD_configAddress _ _ _ _ (by omega),
    BitVec.getLsbD_extractLsb']
  simp [hi, show ¬16 ≤ 2 + i by omega, show ¬11 ≤ 2 + i by omega, show ¬8 ≤ 2 + i by omega]

/-- The fields of the address do not overlap: what is read is the register that is meant. -/
theorem pciConfigRead_eq (offset : Byte) :
    pciConfigRead space bus (slot.setWidth 8) (func.setWidth 8) offset =
      space bus slot func ((offset &&& 0xfc).extractLsb' 2 6) := by
  change configData space (configAddress bus slot func (offset &&& 0xfc)) = _
  rw [configData, if_pos (configAddress_enable bus slot func _), configAddress_bus,
    configAddress_slot, configAddress_func, configAddress_register]

end

section
variable (space : ConfigSpace)

/-- What the scan tests and returns for one function. -/
theorem getDevice_spec (p : Location) :
    ((getDevice space p.bus (p.slot.setWidth 8) (p.func.setWidth 8)).baseClass = 0x01 ∧
      (getDevice space p.bus (p.slot.setWidth 8) (p.func.setWidth 8)).subClass = 0x06 ↔
        IsAhci space p) ∧
    (IsAhci space p →
      (getDevice space p.bus (p.slot.setWidth 8) (p.func.setWidth 8)).bar5 =
        maskedBar5 space p) := by
  have hvendor : ((0 : Byte) &&& 0xfc).extractLsb' 2 6 = (0 : BitVec 6) := by decide
  have hclass : ((8 : Byte) &&& 0xfc).extractLsb' 2 6 = (2 : BitVec 6) := by decide
  have hbar : ((0x24 : Byte) &&& 0xfc).extractLsb' 2 6 = (9 : BitVec 6) := by decide
  unfold getDevice IsAhci
  simp only [pciConfigRead_eq, hvendor, hclass, hbar]
  by_cases habsent : (space p.bus p.slot p.func 0).setWidth 16 = (0xFFFF : BitVec 16)
  · rw [if_pos habsent]
    have hzero : (0 : Byte) ≠ 0x01 := by decide
    exact ⟨iff_of_false (fun h => hzero h.1) (fun h => h.1 habsent), fun h => absurd habsent h.1⟩
  · rw [if_neg habsent]
    exact ⟨⟨fun h => ⟨habsent, h.1, h.2⟩, And.right⟩, fun _ => rfl⟩

/-- What one turn of the inner loop returns, if anything. -/
def hit (bus slot : Nat) : Option (BitVec 64) :=
  let dev := getDevice space (BitVec.ofNat 8 bus) (BitVec.ofNat 8 slot) 0
  if dev.baseClass = 0x01 ∧ dev.subClass = 0x06 then some dev.bar5 else none

/-- Function 0 of a slot. -/
def at0 (bus slot : Nat) : Location := ⟨BitVec.ofNat 8 bus, BitVec.ofNat 5 slot, 0⟩

theorem hit_eq (bus : Nat) {slot : Nat} (hslot : slot < 32) :
    (IsAhci space (at0 bus slot) → hit space bus slot = some (maskedBar5 space (at0 bus slot))) ∧
      (¬IsAhci space (at0 bus slot) → hit space bus slot = none) := by
  obtain ⟨htest, hbase⟩ := getDevice_spec space (at0 bus slot)
  have hwidth : (BitVec.ofNat 5 slot).setWidth 8 = BitVec.ofNat 8 slot := by
    apply BitVec.eq_of_toNat_eq
    simp only [BitVec.toNat_setWidth, BitVec.toNat_ofNat]
    omega
  simp only [at0, hwidth] at htest hbase ⊢
  constructor
  · intro h
    exact (if_pos (htest.mpr h)).trans (congrArg some (hbase h))
  · intro h
    exact if_neg fun ht => h (htest.mp ht)

theorem exists_at0 {p : Location} (hp : Scanned p) :
    p = at0 p.bus.toNat p.slot.toNat ∧ p.bus.toNat < 8 ∧ p.slot.toNat < 32 := by
  obtain ⟨bus, slot, func⟩ := p
  obtain ⟨hbus, rfl⟩ : bus < 8 ∧ func = 0 := hp
  refine ⟨?_, BitVec.lt_def.mp hbus, slot.isLt⟩
  simp only [at0, BitVec.ofNat_toNat, BitVec.setWidth_eq]

/-- No turn of the inner loop returns for a function that is no AHCI controller. -/
theorem not_isAhci_of_hit {bus slot : Nat} (hslot : slot < 32) (h : hit space bus slot = none) :
    ¬IsAhci space (at0 bus slot) := by
  intro hahci
  rw [(hit_eq space bus hslot).1 hahci] at h
  cases h

/-- What is returned is the masked BAR5 of the first function of class 01h/06h among the
functions 0 of the buses 0 to 7. -/
theorem findAhciBase_firstAhci : FirstAhci space Scanned (findAhciBase space) := by
  change FirstAhci space Scanned ((scan 8 32 (hit space)).getD 0)
  cases hscan : scan 8 32 (hit space) with
  | none =>
    rw [scan_eq_none_iff] at hscan
    refine Or.inr ⟨fun p hp => ?_, rfl⟩
    obtain ⟨hp0, hbus, hslot⟩ := exists_at0 hp
    rw [hp0]
    exact not_isAhci_of_hit space hslot (hscan _ hbus _ hslot)
  | some base =>
    rw [scan_eq_some_iff] at hscan
    obtain ⟨bus, hbus, slot, hslot, hhit, hrows, hrow⟩ := hscan
    obtain ⟨hfound, hmissed⟩ := hit_eq space bus hslot
    have hahci : IsAhci space (at0 bus slot) := by
      by_contra hnot
      rw [hmissed hnot] at hhit
      cases hhit
    have hbase : base = maskedBar5 space (at0 bus slot) :=
      Option.some.inj (hhit.symm.trans (hfound hahci))
    have hbusNat : (BitVec.ofNat 8 bus).toNat = bus := Nat.mod_eq_of_lt (by omega)
    have hslotNat : (BitVec.ofNat 5 slot).toNat = slot := Nat.mod_eq_of_lt (by omega)
    refine Or.inl ⟨at0 bus slot, ⟨?_, rfl⟩, hahci, fun q hq hbefore => ?_, hbase⟩
    · change BitVec.ofNat 8 bus < 8
      rw [BitVec.lt_def, hbusNat]
      exact hbus
    obtain ⟨hq0, hqbus, hqslot⟩ := exists_at0 hq
    rw [hq0]
    rcases hbefore with hlt | ⟨heq, hlt | ⟨-, hlt⟩⟩
    · have hlt' := BitVec.lt_def.mp hlt
      rw [at0, hbusNat] at hlt'
      exact not_isAhci_of_hit space hqslot (hrows _ hlt' _ hqslot)
    · have hlt' := BitVec.lt_def.mp hlt
      rw [at0, hslotNat] at hlt'
      have hqbus' : q.bus.toNat = bus := by rw [heq, at0, hbusNat]
      rw [hqbus']
      exact not_isAhci_of_hit space hqslot (hrow _ hlt')
    · rw [hq.2, at0] at hlt
      exact absurd hlt (BitVec.lt_irrefl 0)

end

/-- A space with one function, an AHCI controller with its registers at FEBF1000h. -/
def single (p : Location) : ConfigSpace := fun bus slot func register =>
  if bus = p.bus ∧ slot = p.slot ∧ func = p.func then
    if register = 0 then 0x29228086
    else if register = 2 then 0x01060102
    else if register = 9 then 0xFEBF1000
    else 0
  else 0xFFFFFFFF

theorem single_self (p : Location) (register : BitVec 6) :
    single p p.bus p.slot p.func register =
      if register = 0 then 0x29228086
      else if register = 2 then 0x01060102
      else if register = 9 then 0xFEBF1000
      else 0 :=
  if_pos ⟨rfl, rfl, rfl⟩

theorem eq_of_isAhci_single {p q : Location} (h : IsAhci (single p) q) : q = p := by
  obtain ⟨bus, slot, func⟩ := p
  obtain ⟨bus', slot', func'⟩ := q
  by_contra hne
  refine h.1 ?_
  rw [single, if_neg]
  · decide
  · rintro ⟨rfl, rfl, rfl⟩
    exact hne rfl

/-- For a space with a controller the base is not 0. -/
theorem not_firstAhci_single (p : Location) : ¬FirstAhci (single p) (fun _ => True) 0 := by
  rintro (⟨q, -, hahci, -, hbase⟩ | ⟨hnone, -⟩)
  · rw [eq_of_isAhci_single hahci, maskedBar5, single_self] at hbase
    exact absurd hbase (by decide)
  · refine hnone p trivial ?_
    unfold IsAhci
    rw [single_self, single_self]
    decide

/-- Neither a controller at 0:1f.2 nor one on bus 8 is found. -/
theorem not_firstAhci_anywhere :
    ¬FirstAhci (single ⟨0, 31, 2⟩) (fun _ => True) (findAhciBase (single ⟨0, 31, 2⟩)) ∧
      ¬FirstAhci (single ⟨8, 0, 0⟩) (fun _ => True) (findAhciBase (single ⟨8, 0, 0⟩)) := by
  have hfunc : findAhciBase (single ⟨0, 31, 2⟩) = 0 := by decide +kernel
  have hbus : findAhciBase (single ⟨8, 0, 0⟩) = 0 := by decide +kernel
  rw [hfunc, hbus]
  exact ⟨not_firstAhci_single _, not_firstAhci_single _⟩

end EmergenceOS.Hal.Pci
