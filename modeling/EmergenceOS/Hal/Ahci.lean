/- Module: EmergenceOS/Hal/Ahci
   digest: The command that issue_command builds, and the requests that it encodes. -/

import EmergenceOS.Vdev.SubstrateService

/-!
The sector number has six bytes in the command, the sector count two, and the byte count
31 bits. Nothing compares a request with these widths before it is issued.
-/

set_option autoImplicit false
set_option relaxedAutoImplicit false

namespace EmergenceOS.Hal.Ahci

open EmergenceOS.Lib.Bytes EmergenceOS.Vdev.SubstrateService

structure HBAPRDTEntry where
  dba : BitVec 32
  dbau : BitVec 32
  rsv0 : BitVec 32
  dbc : BitVec 31
  i : BitVec 1

structure HBACommandTable where
  cfis : Fin 64 → Byte
  acmd : Fin 16 → Byte
  rsv : Fin 48 → Byte
  prdtEntry : HBAPRDTEntry

structure HBACommandHeader where
  cfl : BitVec 5
  a : BitVec 1
  w : BitVec 1
  p : BitVec 1
  r : BitVec 1
  b : BitVec 1
  c : BitVec 1
  rsv0 : BitVec 1
  pmp : BitVec 4
  prdtl : BitVec 16
  prdbc : BitVec 32
  ctba : BitVec 32
  ctbau : BitVec 32
  rsv1 : Fin 4 → BitVec 32

/-- The driver with the first header of its command list and its one command table. -/
structure AHCIDriver where
  activePort : Int
  cmdHeader : HBACommandHeader
  cmdTableAddr : BitVec 64
  cmdTable : HBACommandTable

/-- What the successive reads of three port registers return. -/
structure PortReads where
  tfd : Nat → BitVec 32
  ci : Nat → BitVec 32
  is : Nat → BitVec 32

/-- x & 0xFF, stored in a byte. -/
def lowByte {n : Nat} (x : BitVec n) : Byte := (x &&& 0xFF).setWidth 8

/-- The command FIS in a table that was cleared before. -/
def commandFis (lba : BitVec 64) (count : BitVec 32) (write : Bool) : Fin 64 → Byte :=
  let fis : Fin 64 → Byte := fun _ => 0
  let fis := Function.update fis 0 0x27
  let fis := Function.update fis 1 0x80
  let fis := Function.update fis 2 (if write then 0x35 else 0x25)
  let fis := Function.update fis 4 (lowByte lba)
  let fis := Function.update fis 5 (lowByte (lba >>> 8))
  let fis := Function.update fis 6 (lowByte (lba >>> 16))
  let fis := Function.update fis 7 0x40
  let fis := Function.update fis 8 (lowByte (lba >>> 24))
  let fis := Function.update fis 9 (lowByte (lba >>> 32))
  let fis := Function.update fis 10 (lowByte (lba >>> 40))
  let fis := Function.update fis 12 (lowByte count)
  Function.update fis 13 (lowByte (count >>> 8))

def commandTable (lba : BitVec 64) (count : BitVec 32) (buffer : BitVec 64) (write : Bool) :
    HBACommandTable where
  cfis := commandFis lba count write
  acmd := fun _ => 0
  rsv := fun _ => 0
  prdtEntry :=
    { dba := buffer.setWidth 32
      dbau := 0
      rsv0 := 0
      dbc := ((count <<< 9) - 1).setWidth 31
      i := 1 }

/-- issue_command up to the wait for the port. -/
def AHCIDriver.prepare (d : AHCIDriver) (lba : BitVec 64) (count : BitVec 32)
    (buffer : BitVec 64) (write : Bool) : AHCIDriver :=
  { d with
    cmdHeader :=
      { d.cmdHeader with
        cfl := 5
        w := if write then 1 else 0
        prdtl := 1
        ctba := d.cmdTableAddr.setWidth 32
        ctbau := 0 }
    cmdTable := commandTable lba count buffer write }

/-- The rest of the wait for the port: the value of spin in the end. -/
def spin (tfd : Nat → BitVec 32) : Nat → Nat → Nat
  | 0, n => n
  | left + 1, n => if tfd n &&& (0x80 ||| 0x08) ≠ 0 then spin tfd left (n + 1) else n

/-- The wait for completion. No result if the fuel runs out. -/
def complete (port : PortReads) : Nat → Nat → Option Bool
  | 0, _ => none
  | fuel + 1, n =>
    if port.ci n &&& 1 = 0 then some true
    else if port.is n &&& ((1 : BitVec 32) <<< 30) ≠ 0 then some false
    else complete port fuel (n + 1)

/-- What the device finds at the write to ci, if there is one, and what is returned. -/
structure Outcome where
  issued : Option (HBACommandHeader × HBACommandTable)
  returned : Option Bool
  driver : AHCIDriver

def issueCommand (d : AHCIDriver) (port : PortReads) (fuel : Nat) (lba : BitVec 64)
    (count : BitVec 32) (buffer : BitVec 64) (write : Bool) : Outcome :=
  if d.activePort = -1 then ⟨none, some false, d⟩
  else
    let d := d.prepare lba count buffer write
    if spin port.tfd 1000000 0 = 1000000 then ⟨none, some false, d⟩
    else ⟨some (d.cmdHeader, d.cmdTable), complete port fuel 0, d⟩

/-- A command FIS, for a device that is addressed by sector numbers. -/
def IsCommand (t : HBACommandTable) : Prop :=
  t.cfis 0 = 0x27 ∧ t.cfis 1 = 0x80 ∧ t.cfis 7 = 0x40

instance (t : HBACommandTable) : Decidable (IsCommand t) := inferInstanceAs (Decidable (_ ∧ _ ∧ _))

def decodedOpcode (t : HBACommandTable) : Byte := t.cfis 2

/-- The sector number of a 48-bit command. -/
def decodedLba (t : HBACommandTable) : Nat :=
  (t.cfis 4).toNat + 2 ^ 8 * (t.cfis 5).toNat + 2 ^ 16 * (t.cfis 6).toNat +
    2 ^ 24 * (t.cfis 8).toNat + 2 ^ 32 * (t.cfis 9).toNat + 2 ^ 40 * (t.cfis 10).toNat

/-- The sector count of a 48-bit command. -/
def decodedCount (t : HBACommandTable) : Nat :=
  let n := (t.cfis 12).toNat + 2 ^ 8 * (t.cfis 13).toNat
  if n = 0 then 65536 else n

/-- The bytes that the region of the table describes. -/
def decodedBytes (t : HBACommandTable) : Nat := t.prdtEntry.dbc.toNat + 1

/-- The device takes the table for the request. -/
structure Exact (t : HBACommandTable) (lba : BitVec 64) (count : BitVec 32) : Prop where
  lba_eq : decodedLba t = lba.toNat
  count_eq : decodedCount t = count.toNat
  bytes_eq : decodedBytes t = count.toNat * 512

def Encodable (lba : BitVec 64) (count : BitVec 32) : Prop := ∃ t, Exact t lba count

/-- A request is issued exactly, or it is refused. -/
def Meets (d : AHCIDriver) (port : PortReads) (lba : BitVec 64) (count : BitVec 32)
    (buffer : BitVec 64) (write : Bool) : Prop :=
  ∀ fuel,
    (∀ c, (issueCommand d port fuel lba count buffer write).issued = some c →
      Exact c.2 lba count) ∧
    (¬Encodable lba count → (issueCommand d port fuel lba count buffer write).issued = none ∧
      (issueCommand d port fuel lba count buffer write).returned = some false)

/-- The port stays busy for all reads of the wait. -/
def StaysBusy (port : PortReads) : Prop := ∀ n < 1000000, port.tfd n &&& (0x80 ||| 0x08) ≠ 0

theorem toNat_lowByte {n : Nat} (hn : 8 ≤ n) (x : BitVec n) :
    (lowByte x).toNat = x.toNat % 2 ^ 8 := by
  have hlt : 0xFF < 2 ^ n := Nat.lt_of_lt_of_le (by decide) (Nat.pow_le_pow_right (by decide) hn)
  have hmask : (0xFF : BitVec n).toNat = 2 ^ 8 - 1 := Nat.mod_eq_of_lt hlt
  rw [lowByte, BitVec.toNat_setWidth, BitVec.toNat_and, hmask, Nat.and_two_pow_sub_one_eq_mod,
    Nat.mod_mod]

section
variable (lba : BitVec 64) (count : BitVec 32) (buffer : BitVec 64) (write : Bool)

theorem isCommand_commandTable : IsCommand (commandTable lba count buffer write) := ⟨rfl, rfl, rfl⟩

theorem decodedOpcode_commandTable :
    decodedOpcode (commandTable lba count buffer write) = if write then 0x35 else 0x25 := rfl

/-- The six bytes of the sector number are its low 48 bits. -/
theorem decodedLba_commandTable :
    decodedLba (commandTable lba count buffer write) = lba.toNat % 2 ^ 48 := by
  have hbyte (k : Nat) : (lowByte (lba >>> k)).toNat = lba.toNat / 2 ^ k % 2 ^ 8 := by
    rw [toNat_lowByte (by decide), BitVec.toNat_ushiftRight, Nat.shiftRight_eq_div_pow]
  change (lowByte lba).toNat + 2 ^ 8 * (lowByte (lba >>> 8)).toNat +
    2 ^ 16 * (lowByte (lba >>> 16)).toNat + 2 ^ 24 * (lowByte (lba >>> 24)).toNat +
    2 ^ 32 * (lowByte (lba >>> 32)).toNat + 2 ^ 40 * (lowByte (lba >>> 40)).toNat = _
  rw [toNat_lowByte (by decide), hbyte, hbyte, hbyte, hbyte, hbyte]
  omega

theorem decodedCount_commandTable : decodedCount (commandTable lba count buffer write) =
    if count.toNat % 2 ^ 16 = 0 then 65536 else count.toNat % 2 ^ 16 := by
  have hsplit : (lowByte count).toNat + 2 ^ 8 * (lowByte (count >>> 8)).toNat =
      count.toNat % 2 ^ 16 := by
    rw [toNat_lowByte (by decide), toNat_lowByte (by decide), BitVec.toNat_ushiftRight,
      Nat.shiftRight_eq_div_pow]
    omega
  unfold decodedCount
  change (if (lowByte count).toNat + 2 ^ 8 * (lowByte (count >>> 8)).toNat = 0 then _ else
    (lowByte count).toNat + 2 ^ 8 * (lowByte (count >>> 8)).toNat) = _
  rw [hsplit]

theorem decodedBytes_commandTable : decodedBytes (commandTable lba count buffer write) =
    (count.toNat * 512 + (2 ^ 31 - 1)) % 2 ^ 31 + 1 := by
  have hone : (1 : BitVec 32).toNat = 1 := rfl
  change (((count <<< 9) - 1).setWidth 31).toNat + 1 = _
  rw [BitVec.toNat_setWidth, BitVec.toNat_sub, BitVec.toNat_shiftLeft, hone,
    Nat.shiftLeft_eq]
  omega

end

/-- The fields hold a request exactly if it is within their ranges. -/
theorem exact_commandTable_iff (lba : BitVec 64) (count : BitVec 32) (buffer : BitVec 64)
    (write : Bool) : Exact (commandTable lba count buffer write) lba count ↔
      lba.toNat < 2 ^ 48 ∧ 1 ≤ count.toNat ∧ count.toNat ≤ 65536 := by
  have hlba := decodedLba_commandTable lba count buffer write
  have hcount := decodedCount_commandTable lba count buffer write
  have hbytes := decodedBytes_commandTable lba count buffer write
  constructor
  · rintro ⟨hl, hc, -⟩
    rw [hlba] at hl
    rw [hcount] at hc
    refine ⟨by omega, ?_⟩
    split at hc <;> omega
  · rintro ⟨hl, hc1, hc2⟩
    refine ⟨by omega, ?_, by omega⟩
    rw [hcount]
    split <;> omega

/-- No other table does better. -/
theorem encodable_iff (lba : BitVec 64) (count : BitVec 32) :
    Encodable lba count ↔ lba.toNat < 2 ^ 48 ∧ 1 ≤ count.toNat ∧ count.toNat ≤ 65536 := by
  constructor
  · rintro ⟨t, hl, hc, -⟩
    have hbyte (k : Fin 64) := (t.cfis k).isLt
    have h4 := hbyte 4
    have h5 := hbyte 5
    have h6 := hbyte 6
    have h8 := hbyte 8
    have h9 := hbyte 9
    have h10 := hbyte 10
    have h12 := hbyte 12
    have h13 := hbyte 13
    unfold decodedLba at hl
    unfold decodedCount at hc
    refine ⟨by omega, ?_⟩
    dsimp only at hc
    split at hc <;> omega
  · intro h
    exact ⟨_, (exact_commandTable_iff lba count 0 false).mpr h⟩

/-- The journal sectors of guest sectors below the capacity of any build are within the fields.
serve_write does not keep a guest below it. -/
theorem encodable_journal {svc : Service} {build : Build}
    (hbuild : svc.getCapacity = build.capacityBytes) {guestLba : BitVec 64}
    {sectorCount : BitVec 32} (h : svc.InCapacity guestLba sectorCount) {i : Nat}
    (hi : i < sectorCount.toNat) :
    Encodable (16384 + (guestLba + BitVec.ofNat 64 i) * 2) 1 := by
  have hcapacity : svc.getCapacity.toNat ≤ 2 ^ 47 := by
    rw [hbuild]
    cases build <;> decide
  have hsector := h i hi
  have hstart : (16384 : BitVec 64).toNat = 16384 := rfl
  have htwo : (2 : BitVec 64).toNat = 2 := rfl
  rw [sectorBytes] at hsector
  rw [encodable_iff]
  refine ⟨?_, by decide, by decide⟩
  simp only [BitVec.toNat_add, BitVec.toNat_mul, BitVec.toNat_ofNat, hstart, htwo]
  omega

/-- The wait is used up exactly if the port was busy at each of its reads. -/
theorem spin_eq_iff (tfd : Nat → BitVec 32) (left n : Nat) :
    spin tfd left n = n + left ↔ ∀ k < left, tfd (n + k) &&& (0x80 ||| 0x08) ≠ 0 := by
  induction left generalizing n with
  | zero => exact iff_of_true rfl fun k hk => absurd hk (Nat.not_lt_zero k)
  | succ left ih =>
    rw [spin]
    by_cases hbusy : tfd n &&& (0x80 ||| 0x08) ≠ 0
    · rw [if_pos hbusy, Nat.add_comm left, ← Nat.add_assoc, ih]
      constructor
      · intro h k hk
        cases k with
        | zero => exact hbusy
        | succ k =>
          rw [Nat.add_comm k, ← Nat.add_assoc]
          exact h k (by omega)
      · intro h k hk
        rw [Nat.add_assoc, Nat.add_comm 1]
        exact h (k + 1) (by omega)
    · rw [if_neg hbusy]
      refine iff_of_false (by omega) fun h => hbusy (h 0 (by omega))

section
variable {d : AHCIDriver} {port : PortReads} (lba : BitVec 64) (count : BitVec 32)
  (buffer : BitVec 64) (write : Bool)

theorem issueCommand_refused (h : d.activePort = -1 ∨ StaysBusy port) (fuel : Nat) :
    (issueCommand d port fuel lba count buffer write).issued = none ∧
      (issueCommand d port fuel lba count buffer write).returned = some false := by
  unfold issueCommand
  by_cases hport : d.activePort = -1
  · rw [if_pos hport]
    exact ⟨rfl, rfl⟩
  · have hbusy : spin port.tfd 1000000 0 = 1000000 := by
      have hspin := (spin_eq_iff port.tfd 1000000 0).mpr fun k hk => by
        rw [Nat.zero_add]
        exact h.resolve_left hport k hk
      rwa [Nat.zero_add] at hspin
    rw [if_neg hport]
    dsimp only
    rw [if_pos hbusy]
    exact ⟨rfl, rfl⟩

/-- With a port that gets ready every request is issued. -/
theorem issueCommand_issued (hport : d.activePort ≠ -1) (hready : ¬StaysBusy port) (fuel : Nat) :
    (issueCommand d port fuel lba count buffer write).issued =
      some ((d.prepare lba count buffer write).cmdHeader, commandTable lba count buffer write) := by
  have hspin : spin port.tfd 1000000 0 ≠ 1000000 := by
    intro hspin
    have hbusy := (spin_eq_iff port.tfd 1000000 0).mp (by rwa [Nat.zero_add])
    refine hready fun n hn => ?_
    have hread := hbusy n hn
    rwa [Nat.zero_add] at hread
  unfold issueCommand
  rw [if_neg hport]
  dsimp only
  rw [if_neg hspin]
  rfl

end

/-- A request is issued exactly or refused if and only if it fits the fields, unless none is
issued at all. -/
theorem meets_iff (d : AHCIDriver) (port : PortReads) (lba : BitVec 64) (count : BitVec 32)
    (buffer : BitVec 64) (write : Bool) : Meets d port lba count buffer write ↔
      d.activePort = -1 ∨ StaysBusy port ∨
        lba.toNat < 2 ^ 48 ∧ 1 ≤ count.toNat ∧ count.toNat ≤ 65536 := by
  rw [← or_assoc]
  by_cases hidle : d.activePort = -1 ∨ StaysBusy port
  · refine iff_of_true (fun fuel => ?_) (Or.inl hidle)
    have hrefused := issueCommand_refused lba count buffer write hidle fuel
    refine ⟨fun c hc => ?_, fun _ => hrefused⟩
    rw [hrefused.1] at hc
    cases hc
  · rw [not_or] at hidle
    have hissued := issueCommand_issued lba count buffer write hidle.1 hidle.2
    constructor
    · intro h
      exact Or.inr ((exact_commandTable_iff lba count buffer write).mp ((h 0).1 _ (hissued 0)))
    · rintro (hnone | hfits)
      · exact absurd hnone (not_or.mpr hidle)
      · refine fun fuel => ⟨fun c hc => ?_, fun h => absurd ((encodable_iff lba count).mpr hfits) h⟩
        rw [hissued fuel] at hc
        obtain rfl := Option.some.inj hc
        exact (exact_commandTable_iff lba count buffer write).mpr hfits

/-- A driver and a port that is ready at once and completes at once. -/
def readyPort : PortReads := ⟨fun _ => 0, fun _ => 0, fun _ => 0⟩
def readyDriver : AHCIDriver where
  activePort := 0
  cmdHeader := ⟨0, 0, 0, 0, 0, 0, 0, 0, 0, 0, 0, 0, 0, fun _ => 0⟩
  cmdTableAddr := 0x2000500
  cmdTable := ⟨fun _ => 0, fun _ => 0, fun _ => 0, ⟨0, 0, 0, 0, 0⟩⟩

/-- The write of sector 2^48 is issued for sector 0. -/
theorem not_meets_sector_2_48 : ¬Meets readyDriver readyPort 0x1000000000000 1 0x2001000 true := by
  intro h
  have hready : ¬StaysBusy readyPort := fun hbusy => hbusy 0 (by decide) (by decide)
  have hport : readyDriver.activePort ≠ -1 := by decide
  have hissued := issueCommand_issued 0x1000000000000 1 0x2001000 true hport hready 0
  exact absurd ((h 0).1 _ hissued).lba_eq (by decide)

end EmergenceOS.Hal.Ahci
