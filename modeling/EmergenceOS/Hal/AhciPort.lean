/- Module: EmergenceOS/Hal/AhciPort
   digest: The port that the AHCI driver picks, and the structures that it hands to the device. -/

import EmergenceOS.Hal.Ahci
import EmergenceOS.Mm.Memory
import EmergenceOS.Mm.PhysicalMemory
import Mathlib.Data.List.FinRange

/-!
Bits 15 and 14 of the command register, CR and FR, say whether the engines of the port are
running. The device alone changes them; a write to them has no effect. What is printed on
the console is left out.
-/

set_option autoImplicit false
set_option relaxedAutoImplicit false

namespace EmergenceOS.Hal.Ahci

open EmergenceOS.Lib.Bytes EmergenceOS.Mm EmergenceOS.Mm.Memory EmergenceOS.Mm.PhysicalMemory

/-- The registers of a port that are touched here; cmd without CR and FR. -/
structure HBAPort where
  clb : BitVec 32
  clbu : BitVec 32
  fb : BitVec 32
  fbu : BitVec 32
  cmd : BitVec 32
  ssts : BitVec 32

structure AHCIHBA where
  ghc : BitVec 32
  pi : BitVec 32
  ports : Fin 32 → HBAPort

/-- CR and FR. -/
def engineBits : BitVec 32 := 0xC000

/-- A read of cmd, when the engines are as given. -/
def HBAPort.readCmd (port : HBAPort) (engines : BitVec 32) : BitVec 32 :=
  (port.cmd &&& ~~~engineBits) ||| (engines &&& engineBits)

def HBAPort.writeCmd (port : HBAPort) (value : BitVec 32) : HBAPort :=
  { port with cmd := value &&& ~~~engineBits }

/-- The wait for CR and FR to clear, from read n of cmd on: the number of the next read. No
result if the fuel runs out. -/
def waitStopped (port : HBAPort) (engines : Nat → BitVec 32) : Nat → Nat → Option Nat
  | 0, _ => none
  | fuel + 1, n =>
    if port.readCmd (engines n) &&& ((1 : BitVec 32) <<< 15) ≠ 0 then
      waitStopped port engines fuel (n + 1)
    else if port.readCmd (engines (n + 1)) &&& ((1 : BitVec 32) <<< 14) ≠ 0 then
      waitStopped port engines fuel (n + 2)
    else some (n + 2)

/-- The memory that the kernel allocates from. -/
structure Ram where
  pmm : PhysicalMemory
  bytes : Buffer

/-- allocate and kmemset. -/
def Ram.allocateZeroed (ram : Ram) (size : Nat) : BitVec 64 × Ram :=
  let (p, pmm) := ram.pmm.allocate (BitVec.ofNat 64 size)
  (p, ⟨pmm, kmemset ram.bytes p.toNat 0 size⟩)

/-- cmd_list_, fis_base_ and cmd_table_. -/
structure Structures where
  cmdList : BitVec 64
  fisBase : BitVec 64
  cmdTable : BitVec 64

/-- sizeof(HBACommandTable) -/
def commandTableBytes : Nat := 144

def setupPort (port : HBAPort) (engines : Nat → BitVec 32) (fuel : Nat) (ram : Ram) :
    Option (HBAPort × Structures × Ram) := do
  let port := port.writeCmd (port.readCmd (engines 0) &&& ~~~1)
  let port := port.writeCmd (port.readCmd (engines 1) &&& ~~~((1 : BitVec 32) <<< 4))
  let n ← waitStopped port engines fuel 2
  let (cmdList, ram) := ram.allocateZeroed 1024
  let port := { port with clb := cmdList.setWidth 32, clbu := 0 }
  let (fisBase, ram) := ram.allocateZeroed 256
  let port := { port with fb := fisBase.setWidth 32, fbu := 0 }
  let (cmdTable, ram) := ram.allocateZeroed commandTableBytes
  let port := port.writeCmd (port.readCmd (engines n) ||| ((1 : BitVec 32) <<< 4))
  let port := port.writeCmd (port.readCmd (engines (n + 1)) ||| 1)
  return (port, ⟨cmdList, fisBase, cmdTable⟩, ram)

/-- The test that ends the search for a port: it is implemented, and there is a device. -/
def AHCIHBA.hasDevice (hba : AHCIHBA) (i : Fin 32) : Bool :=
  decide (hba.pi &&& ((1 : BitVec 32) <<< i.val) ≠ 0 ∧ (hba.ports i).ssts &&& 0x0F = 3)

/-- What initialize leaves: the device, active_port_, the structures and the memory. -/
structure Initialized where
  hba : AHCIHBA
  activePort : Int
  structures : Option Structures
  ram : Ram

/-- initialize, for a base address other than zero. -/
def initializeWith (hba : AHCIHBA) (engines : Nat → BitVec 32) (fuel : Nat) (ram : Ram) :
    Option Initialized :=
  let hba := { hba with ghc := hba.ghc ||| ((1 : BitVec 32) <<< 31) }
  match (List.finRange 32).find? hba.hasDevice with
  | none => some ⟨hba, -1, none, ram⟩
  | some i => do
    let (port, structures, ram) ← setupPort (hba.ports i) engines fuel ram
    let hba := { hba with ports := Function.update hba.ports i port }
    return ⟨hba, i.val, some structures, ram⟩

/-- The driver that issue_command starts from. -/
def Structures.driver (s : Structures) (activePort : Int) : AHCIDriver where
  activePort := activePort
  cmdHeader := ⟨0, 0, 0, 0, 0, 0, 0, 0, 0, 0, 0, 0, 0, fun _ => 0⟩
  cmdTableAddr := s.cmdTable
  cmdTable := ⟨fun _ => 0, fun _ => 0, fun _ => 0, ⟨0, 0, 0, 0, 0⟩⟩

/-- A byte of one of the structures. -/
def Structures.Covers (s : Structures) (a : Nat) : Prop :=
  (s.cmdList.toNat ≤ a ∧ a < s.cmdList.toNat + 1024) ∨
    (s.fisBase.toNat ≤ a ∧ a < s.fisBase.toNat + 256) ∨
    (s.cmdTable.toNat ≤ a ∧ a < s.cmdTable.toNat + commandTableBytes)

/-- A port was set up: the device has the whole addresses of structures that it can use, and
nothing else in the memory was touched. -/
structure SetUp (ram ram' : Ram) (port port' : HBAPort) (s : Structures) : Prop where
  commandList : port'.clbu ++ port'.clb = s.cmdList
  fis : port'.fbu ++ port'.fb = s.fisBase
  table : ∀ activePort lba count buffer write,
    let header := ((s.driver activePort).prepare lba count buffer write).cmdHeader
    header.ctbau ++ header.ctba = s.cmdTable
  aligned : s.cmdList.toNat % 1024 = 0 ∧ s.fisBase.toNat % 256 = 0 ∧ s.cmdTable.toNat % 128 = 0
  inside : ram.pmm.currentAddress.toNat ≤ s.cmdList.toNat ∧
    s.cmdTable.toNat + commandTableBytes < ram.pmm.maxAddress.toNat
  apart : s.cmdList.toNat + 1024 ≤ s.fisBase.toNat ∧ s.fisBase.toNat + 256 ≤ s.cmdTable.toNat
  zeroed : ∀ a, s.Covers a → ram'.bytes a = 0
  kept : ∀ a, ¬s.Covers a → ram'.bytes a = ram.bytes a
  started : port'.cmd = (port.cmd &&& ~~~engineBits) ||| 0x11
  status : port'.ssts = port.ssts

theorem cmd_and (port : HBAPort) (engines mask : BitVec 32) :
    (port.writeCmd (port.readCmd engines &&& mask)).cmd = port.cmd &&& ~~~engineBits &&& mask := by
  simp only [HBAPort.writeCmd, HBAPort.readCmd]
  apply BitVec.eq_of_getLsbD_eq
  intro i hi
  simp only [BitVec.getLsbD_and, BitVec.getLsbD_or, BitVec.getLsbD_not, hi, decide_true,
    Bool.true_and]
  cases engineBits.getLsbD i <;> simp

theorem cmd_or (port : HBAPort) (engines mask : BitVec 32) :
    (port.writeCmd (port.readCmd engines ||| mask)).cmd =
      (port.cmd &&& ~~~engineBits) ||| (mask &&& ~~~engineBits) := by
  simp only [HBAPort.writeCmd, HBAPort.readCmd]
  apply BitVec.eq_of_getLsbD_eq
  intro i hi
  simp only [BitVec.getLsbD_and, BitVec.getLsbD_or, BitVec.getLsbD_not, hi, decide_true,
    Bool.true_and]
  cases engineBits.getLsbD i <;> simp

/-- ST and FRE are cleared and set again, the other bits stay. -/
theorem cmd_restarted (cmd : BitVec 32) :
    (cmd &&& ~~~engineBits &&& ~~~(1 : BitVec 32) &&& ~~~engineBits &&&
        ~~~((1 : BitVec 32) <<< 4) &&& ~~~engineBits |||
        ((1 : BitVec 32) <<< 4) &&& ~~~engineBits) &&& ~~~engineBits |||
      1 &&& ~~~engineBits = cmd &&& ~~~engineBits ||| 0x11 := by
  have hmask : (0x11 : BitVec 32) = (((1 : BitVec 32) <<< 4) ||| 1) &&& ~~~engineBits := by decide
  rw [hmask]
  generalize (1 : BitVec 32) <<< 4 = fre
  generalize (1 : BitVec 32) = st
  apply BitVec.eq_of_getLsbD_eq
  intro i hi
  simp only [BitVec.getLsbD_and, BitVec.getLsbD_or, BitVec.getLsbD_not, hi, decide_true,
    Bool.true_and]
  cases engineBits.getLsbD i <;> cases fre.getLsbD i <;> cases st.getLsbD i <;> simp

/-- While the engines are stopped, CR and FR read as zero. -/
theorem readCmd_stopped {port : HBAPort} {engines : BitVec 32} (h : engines &&& engineBits = 0) :
    port.readCmd engines &&& ((1 : BitVec 32) <<< 15) = 0 ∧
      port.readCmd engines &&& ((1 : BitVec 32) <<< 14) = 0 := by
  have hread : port.readCmd engines = port.cmd &&& ~~~engineBits := by
    rw [HBAPort.readCmd, h]
    exact BitVec.or_zero
  rw [hread, BitVec.and_assoc, BitVec.and_assoc,
    show ~~~engineBits &&& ((1 : BitVec 32) <<< 15) = 0 by decide,
    show ~~~engineBits &&& ((1 : BitVec 32) <<< 14) = 0 by decide]
  exact ⟨BitVec.and_zero, BitVec.and_zero⟩

theorem waitStopped_ends (port : HBAPort) {engines : Nat → BitVec 32} {N : Nat}
    (h : ∀ n ≥ N, engines n &&& engineBits = 0) (n : Nat) :
    ∃ fuel n', waitStopped port engines fuel n = some n' := by
  obtain ⟨left, hleft⟩ : ∃ left, N ≤ n + left := ⟨N, Nat.le_add_left N n⟩
  induction left using Nat.strong_induction_on generalizing n with
  | _ left ih =>
    by_cases hcr : port.readCmd (engines n) &&& ((1 : BitVec 32) <<< 15) ≠ 0
    · have hpos : left ≠ 0 := by
        rintro rfl
        exact hcr (readCmd_stopped (h n hleft)).1
      obtain ⟨fuel, n', hrest⟩ := ih (left - 1) (by omega) (n + 1) (by omega)
      refine ⟨fuel + 1, n', ?_⟩
      rw [waitStopped, if_pos hcr, hrest]
    by_cases hfr : port.readCmd (engines (n + 1)) &&& ((1 : BitVec 32) <<< 14) ≠ 0
    · have hpos : 1 < left := by
        by_contra hle
        exact hfr (readCmd_stopped (h (n + 1) (by omega))).2
      obtain ⟨fuel, n', hrest⟩ := ih (left - 2) (by omega) (n + 2) (by omega)
      refine ⟨fuel + 1, n', ?_⟩
      rw [waitStopped, if_neg hcr, if_pos hfr, hrest]
    · refine ⟨1, n + 2, ?_⟩
      rw [waitStopped, if_neg hcr, if_neg hfr]

/-- Addresses below 4 GiB lose nothing in a register. -/
theorem append_setWidth {p : BitVec 64} (h : p.toNat < 2 ^ 32) :
    (0 : BitVec 32) ++ p.setWidth 32 = p := by
  apply BitVec.eq_of_toNat_eq
  rw [BitVec.toNat_append, BitVec.toNat_setWidth, Nat.mod_eq_of_lt h]
  simp

/-- An allocation that fits, and what it leaves. -/
structure Granted (ram : Ram) (size : Nat) (p : BitVec 64) (ram' : Ram) : Prop where
  base : p.toNat = alignUp ram.pmm.currentAddress.toNat
  current : ram'.pmm.currentAddress.toNat = p.toNat + size
  limit : ram'.pmm.maxAddress = ram.pmm.maxAddress
  bytes : ∀ a, ram'.bytes a = if p.toNat ≤ a ∧ a < p.toNat + size then 0 else ram.bytes a

theorem Ram.allocateZeroed_granted (ram : Ram) (size : Nat)
    (h : alignUp ram.pmm.currentAddress.toNat + size < ram.pmm.maxAddress.toNat) :
    Granted ram size (ram.allocateZeroed size).1 (ram.allocateZeroed size).2 := by
  have hmax := ram.pmm.maxAddress.isLt
  have hsize : (BitVec.ofNat 64 size).toNat = size := by
    rw [BitVec.toNat_ofNat, Nat.mod_eq_of_lt]
    omega
  have hroom : alignUp ram.pmm.currentAddress.toNat + (BitVec.ofNat 64 size).toNat <
      ram.pmm.maxAddress.toNat := by
    rw [hsize]
    exact h
  have hfits := allocate_fits hroom
  rw [hsize] at hfits
  exact ⟨hfits.1, hfits.2.1.trans (congrArg (· + size) hfits.1.symm), hfits.2.2,
    fun a => kmemset_apply _ _ _ _ _⟩

/-- The next allocation begins at the next multiple of 16 KiB. -/
theorem Granted.next {ram ram' : Ram} {size : Nat} {p : BitVec 64} (h : Granted ram size p ram')
    (hpos : 0 < size) (hsize : size ≤ 16384) :
    alignUp ram'.pmm.currentAddress.toNat = p.toNat + 16384 := by
  rw [h.current]
  refine alignUp_add ?_ hpos hsize
  rw [h.base]
  exact alignUp_mod _

/-- Room for the three structures, each at a multiple of 16 KiB. -/
structure HasRoom (pmm : PhysicalMemory) : Prop where
  room : alignUp pmm.currentAddress.toNat + 2 * 16384 + commandTableBytes < pmm.maxAddress.toNat
  below : pmm.maxAddress.toNat ≤ 2 ^ 32

theorem setupPort_setUp (port : HBAPort) {engines : Nat → BitVec 32} {N : Nat}
    (hstops : ∀ n ≥ N, engines n &&& engineBits = 0) {ram : Ram} (hroom : HasRoom ram.pmm) :
    ∃ fuel port' s ram', setupPort port engines fuel ram = some (port', s, ram') ∧
      SetUp ram ram' port port' s := by
  obtain ⟨fuel, n, hwait⟩ := waitStopped_ends ((port.writeCmd (port.readCmd (engines 0) &&&
    ~~~1)).writeCmd ((port.writeCmd (port.readCmd (engines 0) &&& ~~~1)).readCmd (engines 1) &&&
      ~~~((1 : BitVec 32) <<< 4))) hstops 2
  obtain ⟨hfit, hbelow⟩ := hroom
  rw [commandTableBytes] at hfit
  have hlist := ram.allocateZeroed_granted 1024 (by omega)
  have hnext := hlist.next (by decide) (by decide)
  have hmod := alignUp_mod ram.pmm.currentAddress.toNat
  have hle := le_alignUp ram.pmm.currentAddress.toNat
  refine ⟨fuel, ?_⟩
  rw [setupPort]
  simp only [hwait, Option.bind_eq_bind, Option.bind_some]
  generalize ram.allocateZeroed 1024 = list at hlist hnext ⊢
  obtain ⟨cmdList, ram₁⟩ := list
  have hlimit₁ := congrArg BitVec.toNat hlist.limit
  have hbase₁ := hlist.base
  simp only at hlist hnext hlimit₁ hbase₁ ⊢
  have hfis := ram₁.allocateZeroed_granted 256 (by omega)
  have hnext' := hfis.next (by decide) (by decide)
  generalize ram₁.allocateZeroed 256 = fis at hfis hnext' ⊢
  obtain ⟨fisBase, ram₂⟩ := fis
  have hlimit₂ := congrArg BitVec.toNat hfis.limit
  have hbase₂ := hfis.base
  simp only at hfis hnext' hlimit₂ hbase₂ ⊢
  have htable := ram₂.allocateZeroed_granted commandTableBytes (by rw [commandTableBytes]; omega)
  generalize ram₂.allocateZeroed commandTableBytes = table at htable ⊢
  obtain ⟨cmdTable, ram₃⟩ := table
  have hbase₃ := htable.base
  simp only at htable hbase₃ ⊢
  refine ⟨_, _, _, rfl, ?_⟩
  refine ⟨append_setWidth (by omega), append_setWidth (by omega), fun _ _ _ _ _ => ?_, ?_, ?_, ?_,
    fun a ha => ?_, fun a ha => ?_, ?_, rfl⟩
  · change (0 : BitVec 32) ++ cmdTable.setWidth 32 = cmdTable
    exact append_setWidth (by omega)
  · simp only
    omega
  · simp only [commandTableBytes]
    omega
  · simp only
    omega
  · rw [htable.bytes, hfis.bytes, hlist.bytes]
    split
    · rfl
    rename_i hnottable
    split
    · rfl
    rename_i hnotfis
    exact if_pos ((ha.resolve_right fun h => h.elim hnotfis hnottable))
  · simp only [Structures.Covers, not_or] at ha
    rw [htable.bytes, if_neg ha.2.2, hfis.bytes, if_neg ha.2.1, hlist.bytes, if_neg ha.1]
  · rw [cmd_or, cmd_or, cmd_and, cmd_and]
    exact cmd_restarted port.cmd

/-- The driver picks the first implemented port with a device and leaves the others as they are.
If the engines of the port stop at some time, it returns, and the device can use what it was
given. -/
theorem initialize_setUp (hba : AHCIHBA) (ram : Ram) {engines : Nat → BitVec 32} {N : Nat}
    (hstops : ∀ n ≥ N, engines n &&& engineBits = 0) (hroom : HasRoom ram.pmm) :
    ∃ fuel r, initializeWith hba engines fuel ram = some r ∧
      r.hba.ghc = hba.ghc ||| ((1 : BitVec 32) <<< 31) ∧ r.hba.pi = hba.pi ∧
      ((∀ i, hba.hasDevice i = false) ∧ r.activePort = -1 ∧ r.structures = none ∧
          r.hba.ports = hba.ports ∧ r.ram = ram ∨
        ∃ i s, hba.hasDevice i = true ∧ (∀ j < i, hba.hasDevice j = false) ∧
          r.activePort = i.val ∧ r.structures = some s ∧
          (∀ j ≠ i, r.hba.ports j = hba.ports j) ∧
          SetUp ram r.ram (hba.ports i) (r.hba.ports i) s) := by
  cases hfind : (List.finRange 32).find? hba.hasDevice with
  | none =>
    have hnone := List.find?_eq_none.mp hfind
    have hfind' : (List.finRange 32).find?
        { hba with ghc := hba.ghc ||| ((1 : BitVec 32) <<< 31) }.hasDevice = none := hfind
    refine ⟨0, ⟨{ hba with ghc := hba.ghc ||| ((1 : BitVec 32) <<< 31) }, -1, none, ram⟩, ?_, rfl,
      rfl, Or.inl ⟨fun i => ?_, rfl, rfl, rfl, rfl⟩⟩
    · simp only [initializeWith, hfind']
    · exact Bool.eq_false_iff.mpr (hnone i (List.mem_finRange i))
  | some i =>
    have hfind' : (List.finRange 32).find?
        { hba with ghc := hba.ghc ||| ((1 : BitVec 32) <<< 31) }.hasDevice = some i := hfind
    obtain ⟨fuel, port', s, ram', hsetup, hspec⟩ := setupPort_setUp (hba.ports i) hstops hroom
    rw [List.find?_eq_some_iff_getElem] at hfind
    obtain ⟨hdevice, k, hk, hki, hbefore⟩ := hfind
    refine ⟨fuel, ⟨⟨hba.ghc ||| ((1 : BitVec 32) <<< 31), hba.pi,
      Function.update hba.ports i port'⟩, i.val, some s, ram'⟩, ?_, rfl, rfl,
      Or.inr ⟨i, s, hdevice, fun j hj => ?_, rfl, rfl, fun j hj => ?_, ?_⟩⟩
    · simp only [initializeWith, hfind', hsetup]
      rfl
    · rw [List.getElem_finRange] at hki
      have hjk : j.val < k := by
        rw [← hki] at hj
        exact hj
      have hj' := hbefore j.val hjk
      rw [List.getElem_finRange, Bool.not_eq_true'] at hj'
      exact hj'
    · exact Function.update_of_ne hj _ _
    · simp only [Function.update_self]
      exact hspec

/-- A device on port 1 alone, and the kernel's memory before any other allocation. -/
theorem initialize_setUp_port_one :
    let hba : AHCIHBA := ⟨0, 3, fun i => ⟨0, 0, 0, 0, 0x17, if i = 1 then 0x123 else 0⟩⟩
    let ram : Ram := ⟨.new 0x2000000 0x40000000, fun _ => 0xFF⟩
    ∃ fuel r, initializeWith hba (fun n => if n < 5 then 0xC000 else 0) fuel ram = some r ∧
      r.activePort = 1 := by
  intro hba ram
  have hstops : ∀ n ≥ 5, (if n < 5 then 0xC000 else 0 : BitVec 32) &&& engineBits = 0 := by
    intro n hn
    rw [if_neg (Nat.not_lt.mpr hn)]
    decide
  have honly : ∀ i, hba.hasDevice i = true → i = 1 := by decide
  obtain ⟨fuel, r, hr, -, -, hcase⟩ := initialize_setUp hba ram hstops ⟨by decide, by decide⟩
  refine ⟨fuel, r, hr, ?_⟩
  rcases hcase with ⟨hnone, -⟩ | ⟨i, s, hdevice, -, hactive, -⟩
  · exact absurd (hnone 1) (by decide)
  · rw [hactive, honly i hdevice]
    rfl

end EmergenceOS.Hal.Ahci
