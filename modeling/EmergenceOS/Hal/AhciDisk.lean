/- Module: EmergenceOS/Hal/AhciDisk
   digest: The AHCI driver and its device together are a disk, up to the first refused request. -/

import EmergenceOS.Hal.AhciPort
import EmergenceOS.Lib.GuardedRun

/-!
The device executes the command that it finds behind the command list, or stops with a task
file error. The driver never clears the error, so it finds it again at every later command.
The structures of the driver are apart from the memory in which the buffers are.
-/

set_option autoImplicit false
set_option relaxedAutoImplicit false

namespace EmergenceOS.Hal.Ahci

open EmergenceOS.Lib.Bytes EmergenceOS.Lib.GuardedRun

/-- The memory with the buffers, and what is behind the port. -/
structure Device where
  memory : Buffer
  disk : Buffer
  sectors : Nat
  halted : Bool

/-- Where the region of a table begins. Bit 0 is reserved. -/
def dataAddr (t : HBACommandTable) : Nat :=
  ((t.prdtEntry.dbau ++ t.prdtEntry.dba) &&& ~~~(1 : BitVec 64)).toNat

/-- A header with a command FIS of five double words and one region, and in the table that it
points to a command to read or write within the disk. -/
def Device.Accepts (dev : Device) (tableAddr : BitVec 64) (header : HBACommandHeader)
    (table : HBACommandTable) : Prop :=
  (header.cfl = 5 ∧ header.prdtl = 1 ∧ header.ctbau ++ header.ctba = tableAddr) ∧
  IsCommand table ∧
  (decodedOpcode table = 0x25 ∧ header.w = 0 ∨ decodedOpcode table = 0x35 ∧ header.w = 1) ∧
  512 * decodedCount table ≤ decodedBytes table ∧
  decodedLba table + decodedCount table ≤ dev.sectors

instance (dev : Device) (tableAddr : BitVec 64) (header : HBACommandHeader)
    (table : HBACommandTable) : Decidable (dev.Accepts tableAddr header table) :=
  inferInstanceAs (Decidable ((_ ∧ _ ∧ _) ∧ _ ∧ (_ ∧ _ ∨ _ ∧ _) ∧ _ ∧ _))

def Device.transfer (dev : Device) (table : HBACommandTable) : Device :=
  let n := 512 * decodedCount table
  let place := 512 * decodedLba table
  if decodedOpcode table = 0x35 then
    { dev with disk := blit dev.disk place dev.memory (dataAddr table) n }
  else { dev with memory := blit dev.memory (dataAddr table) dev.disk place n }

/-- A command is issued. -/
def Device.execute (dev : Device) (tableAddr : BitVec 64) (header : HBACommandHeader)
    (table : HBACommandTable) : Device :=
  if dev.halted then dev
  else if dev.Accepts tableAddr header table then dev.transfer table
  else { dev with halted := true }

/-- A call of read or write, and what the reads of the port's registers return during it. -/
structure Call where
  lba : BitVec 64
  count : BitVec 32
  buffer : BitVec 64
  write : Bool
  port : PortReads

/-- The driver and the device, with the results of the calls so far. -/
structure System where
  driver : AHCIDriver
  device : Device
  results : List Bool

/-- What happens to the system. Between the calls the kernel does with the memory what it likes. -/
inductive Event
  | call (e : Call)
  | compute (f : Buffer → Buffer)

/-- No result if the wait for completion takes more than fuel reads. -/
def System.call (fuel : Nat) (s : System) (e : Call) : Option System :=
  let o := issueCommand s.driver e.port fuel e.lba e.count e.buffer e.write
  o.returned.map fun result =>
    { driver := o.driver
      device := match o.issued with
        | none => s.device
        | some (header, table) => s.device.execute s.driver.cmdTableAddr header table
      results := s.results ++ [result] }

def System.step (fuel : Nat) (s : System) : Event → Option System
  | .call e => s.call fuel e
  | .compute f => some { s with device := { s.device with memory := f s.device.memory } }

/-! The disk that the callers expect. -/

structure Ideal where
  memory : Buffer
  disk : Buffer
  sectors : Nat
  failed : Bool
  results : List Bool

theorem staysBusy_iff (port : PortReads) : spin port.tfd 1000000 0 = 1000000 ↔ StaysBusy port := by
  have hspin := spin_eq_iff port.tfd 1000000 0
  simp only [Nat.zero_add] at hspin
  exact hspin

instance (port : PortReads) : Decidable (StaysBusy port) := decidable_of_iff _ (staysBusy_iff port)

namespace Ideal

/-- The sectors between the disk and the buffer. -/
def copy (d : Ideal) (e : Call) : Ideal :=
  let n := 512 * e.count.toNat
  let place := 512 * e.lba.toNat
  if e.write then { d with disk := blit d.disk place d.memory e.buffer.toNat n }
  else { d with memory := blit d.memory e.buffer.toNat d.disk place n }

def Inside (d : Ideal) (e : Call) : Prop := e.lba.toNat + e.count.toNat ≤ d.sectors

instance (d : Ideal) (e : Call) : Decidable (d.Inside e) := inferInstanceAs (Decidable (_ ≤ _))

/-- A call fails while the port is busy, and for good once a request was not inside the disk. -/
def call (d : Ideal) (e : Call) : Ideal :=
  if StaysBusy e.port ∨ d.failed then { d with results := d.results ++ [false] }
  else if d.Inside e then { d.copy e with results := d.results ++ [true] }
  else { d with failed := true, results := d.results ++ [false] }

def step (d : Ideal) : Event → Ideal
  | .call e => d.call e
  | .compute f => { d with memory := f d.memory }

end Ideal

/-- A read of the registers that says neither completion nor an error. -/
def Pending (port : PortReads) (n : Nat) : Prop :=
  port.ci n &&& 1 ≠ 0 ∧ port.is n &&& ((1 : BitVec 32) <<< 30) = 0

def Completes (port : PortReads) (fuel : Nat) : Prop :=
  ∃ k < fuel, (∀ j < k, Pending port j) ∧ port.ci k &&& 1 = 0

def Fails (port : PortReads) (fuel : Nat) : Prop :=
  ∃ k < fuel, (∀ j < k, Pending port j) ∧ port.ci k &&& 1 ≠ 0 ∧
    port.is k &&& ((1 : BitVec 32) <<< 30) ≠ 0

/-- The request fits the command, the buffer is below 4 GiB at an even address, and the registers
tell in time what the device did. -/
structure Answered (fuel : Nat) (d : Ideal) (e : Call) : Prop where
  encodable : e.lba.toNat < 2 ^ 48 ∧ 1 ≤ e.count.toNat ∧ e.count.toNat ≤ 65536
  below : e.buffer.toNat < 2 ^ 32
  even : e.buffer.toNat % 2 = 0
  completes : ¬StaysBusy e.port → d.failed = false → d.Inside e → Completes e.port fuel
  fails : ¬StaysBusy e.port → d.failed = true ∨ ¬d.Inside e → Fails e.port fuel

def Ok (fuel : Nat) (d : Ideal) : Event → Prop
  | .call e => Answered fuel d e
  | .compute _ => True

/-- The system is where the ideal disk is. -/
structure Serves (tableAddr : BitVec 64) (s : System) (d : Ideal) : Prop where
  port : s.driver.activePort ≠ -1
  table : s.driver.cmdTableAddr = tableAddr
  memory : s.device.memory = d.memory
  disk : s.device.disk = d.disk
  sectors : s.device.sectors = d.sectors
  halted : s.device.halted = d.failed
  results : s.results = d.results

theorem complete_pending {port : PortReads} (k : Nat) {fuel n : Nat}
    (h : ∀ j < k, Pending port (n + j)) :
    complete port (fuel + k) n = complete port fuel (n + k) := by
  induction k generalizing n with
  | zero => rfl
  | succ k ih =>
    obtain ⟨hci, his⟩ := h 0 (Nat.succ_pos k)
    have hrest := ih (n := n + 1) fun j hj => by
      rw [Nat.add_assoc, Nat.add_comm 1 j]
      exact h (j + 1) (Nat.succ_lt_succ hj)
    rw [Nat.add_zero] at hci his
    rw [← Nat.add_assoc, complete, if_neg hci, if_neg (not_not_intro his), hrest,
      Nat.add_assoc, Nat.add_comm 1 k]

theorem Completes.complete {port : PortReads} {fuel : Nat} (h : Completes port fuel) :
    Ahci.complete port fuel 0 = some true := by
  obtain ⟨k, hk, hpending, hdone⟩ := h
  obtain ⟨left, rfl⟩ : ∃ left, fuel = left + 1 + k := ⟨fuel - k - 1, by omega⟩
  rw [complete_pending k fun j hj => by rw [Nat.zero_add]; exact hpending j hj, Nat.zero_add,
    Ahci.complete, if_pos hdone]

theorem Fails.complete {port : PortReads} {fuel : Nat} (h : Fails port fuel) :
    Ahci.complete port fuel 0 = some false := by
  obtain ⟨k, hk, hpending, hbusy, herror⟩ := h
  obtain ⟨left, rfl⟩ : ∃ left, fuel = left + 1 + k := ⟨fuel - k - 1, by omega⟩
  rw [complete_pending k fun j hj => by rw [Nat.zero_add]; exact hpending j hj, Nat.zero_add,
    Ahci.complete, if_neg hbusy, if_pos herror]

/-- An even address below 4 GiB arrives whole. -/
theorem dataAddr_commandTable (lba : BitVec 64) (count : BitVec 32) {buffer : BitVec 64}
    (write : Bool) (hbelow : buffer.toNat < 2 ^ 32) (heven : buffer.toNat % 2 = 0) :
    dataAddr (commandTable lba count buffer write) = buffer.toNat := by
  have hwhole : (commandTable lba count buffer write).prdtEntry.dbau ++
      (commandTable lba count buffer write).prdtEntry.dba = buffer := append_setWidth hbelow
  have hmask := toNat_and_not_mask buffer 1
  rw [dataAddr, hwhole]
  refine hmask.trans ?_
  omega

/-- The device accepts what prepare builds exactly if the sectors are inside the disk. -/
theorem accepts_prepare_iff {dev : Device} {d : AHCIDriver} (htable : d.cmdTableAddr.toNat < 2 ^ 32)
    {lba : BitVec 64} {count : BitVec 32} (buffer : BitVec 64) (write : Bool)
    (hexact : Exact (commandTable lba count buffer write) lba count) :
    dev.Accepts d.cmdTableAddr (d.prepare lba count buffer write).cmdHeader
        (commandTable lba count buffer write) ↔ lba.toNat + count.toNat ≤ dev.sectors := by
  have haddr : (d.prepare lba count buffer write).cmdHeader.ctbau ++
      (d.prepare lba count buffer write).cmdHeader.ctba = d.cmdTableAddr := append_setWidth htable
  have hopcode : decodedOpcode (commandTable lba count buffer write) = 0x25 ∧
        (d.prepare lba count buffer write).cmdHeader.w = 0 ∨
      decodedOpcode (commandTable lba count buffer write) = 0x35 ∧
        (d.prepare lba count buffer write).cmdHeader.w = 1 := by
    rw [decodedOpcode_commandTable]
    cases write with
    | false => exact Or.inl ⟨rfl, rfl⟩
    | true => exact Or.inr ⟨rfl, rfl⟩
  rw [Device.Accepts, hexact.lba_eq, hexact.count_eq, hexact.bytes_eq]
  constructor
  · intro h
    exact h.2.2.2.2
  · intro h
    exact ⟨⟨rfl, rfl, haddr⟩, isCommand_commandTable lba count buffer write, hopcode, by omega, h⟩

theorem transfer_commandTable {dev : Device} {lba : BitVec 64} {count : BitVec 32}
    {buffer : BitVec 64} (write : Bool) (hbelow : buffer.toNat < 2 ^ 32)
    (heven : buffer.toNat % 2 = 0)
    (hexact : Exact (commandTable lba count buffer write) lba count) :
    dev.transfer (commandTable lba count buffer write) =
      if write then
        { dev with
          disk := blit dev.disk (512 * lba.toNat) dev.memory buffer.toNat (512 * count.toNat) }
      else
        { dev with
          memory := blit dev.memory buffer.toNat dev.disk (512 * lba.toNat)
            (512 * count.toNat) } := by
  rw [Device.transfer, hexact.lba_eq, hexact.count_eq,
    dataAddr_commandTable lba count write hbelow heven, decodedOpcode_commandTable]
  cases write with
  | false => exact if_neg (by decide)
  | true => exact if_pos rfl

section
variable (d : AHCIDriver) (port : PortReads) (fuel : Nat) (lba : BitVec 64) (count : BitVec 32)
  (buffer : BitVec 64) (write : Bool)

/-- The driver stays with its port and its table. -/
theorem issueCommand_driver :
    (issueCommand d port fuel lba count buffer write).driver.activePort = d.activePort ∧
      (issueCommand d port fuel lba count buffer write).driver.cmdTableAddr = d.cmdTableAddr := by
  unfold issueCommand
  split
  · exact ⟨rfl, rfl⟩
  · simp only
    split <;> exact ⟨rfl, rfl⟩

theorem issueCommand_returned (hport : d.activePort ≠ -1) (hready : ¬StaysBusy port) :
    (issueCommand d port fuel lba count buffer write).returned = complete port fuel 0 := by
  unfold issueCommand
  rw [if_neg hport]
  simp only
  rw [if_neg (mt (staysBusy_iff port).mp hready)]

end

section
variable {tableAddr : BitVec 64} {fuel : Nat} {s : System} {d : Ideal} {e : Call}

theorem Serves.compute (h : Serves tableAddr s d) (f : Buffer → Buffer) :
    Serves tableAddr { s with device := { s.device with memory := f s.device.memory } }
      { d with memory := f d.memory } :=
  ⟨h.port, h.table, congrArg f h.memory, h.disk, h.sectors, h.halted, h.results⟩

/-- A call that the port is too busy for. -/
theorem Serves.busy (h : Serves tableAddr s d) (hbusy : StaysBusy e.port) :
    ∃ s', s.call fuel e = some s' ∧ Serves tableAddr s' (d.call e) := by
  obtain ⟨hissued, hreturned⟩ :=
    issueCommand_refused (d := s.driver) e.lba e.count e.buffer e.write (Or.inr hbusy) fuel
  obtain ⟨hport, htable⟩ := issueCommand_driver s.driver e.port fuel e.lba e.count e.buffer e.write
  rw [System.call, Ideal.call, if_pos (Or.inl hbusy)]
  simp only [hissued, hreturned, Option.map_some]
  exact ⟨_, rfl, hport.symm ▸ h.port, htable.trans h.table, h.memory, h.disk, h.sectors, h.halted,
    congrArg (· ++ [false]) h.results⟩

/-- A call whose command is issued, and what the system is then. -/
theorem Serves.issued (h : Serves tableAddr s d) (hready : ¬StaysBusy e.port) {result : Bool}
    (hresult : complete e.port fuel 0 = some result) :
    ∃ driver, s.call fuel e = some ⟨driver, s.device.execute tableAddr
        (s.driver.prepare e.lba e.count e.buffer e.write).cmdHeader
        (commandTable e.lba e.count e.buffer e.write), s.results ++ [result]⟩ ∧
      driver.activePort ≠ -1 ∧ driver.cmdTableAddr = tableAddr := by
  have hissued := issueCommand_issued e.lba e.count e.buffer e.write h.port hready fuel
  have hreturned := issueCommand_returned s.driver e.port fuel e.lba e.count e.buffer e.write
    h.port hready
  obtain ⟨hport, htable⟩ := issueCommand_driver s.driver e.port fuel e.lba e.count e.buffer e.write
  refine ⟨_, ?_, hport.symm ▸ h.port, htable.trans h.table⟩
  simp only [System.call, hissued, hreturned, hresult, Option.map_some, h.table]

theorem Serves.call (h : Serves tableAddr s d) (htable : tableAddr.toNat < 2 ^ 32)
    (hcall : Answered fuel d e) :
    ∃ s', s.call fuel e = some s' ∧ Serves tableAddr s' (d.call e) := by
  by_cases hbusy : StaysBusy e.port
  · exact h.busy hbusy
  have hexact := (exact_commandTable_iff e.lba e.count e.buffer e.write).mpr hcall.encodable
  have haccepts : s.device.Accepts tableAddr
      (s.driver.prepare e.lba e.count e.buffer e.write).cmdHeader
      (commandTable e.lba e.count e.buffer e.write) ↔ d.Inside e := by
    rw [← h.table, Ideal.Inside, ← h.sectors]
    exact accepts_prepare_iff (by rw [h.table]; exact htable) e.buffer e.write hexact
  by_cases hfailed : d.failed = true
  · have hresult := (hcall.fails hbusy (Or.inl hfailed)).complete
    obtain ⟨driver, hcalled, hport, haddr⟩ := h.issued hbusy hresult
    have hhalted : s.device.halted = true := h.halted.trans hfailed
    rw [Ideal.call, if_pos (Or.inr hfailed)]
    refine ⟨_, hcalled, ?_⟩
    rw [Device.execute, if_pos hhalted]
    exact ⟨hport, haddr, h.memory, h.disk, h.sectors, h.halted,
      congrArg (· ++ [false]) h.results⟩
  have hrunning : d.failed = false := Bool.eq_false_iff.mpr hfailed
  have hhalted : ¬s.device.halted = true := by
    rw [h.halted]
    exact hfailed
  rw [Ideal.call, if_neg (not_or.mpr ⟨hbusy, hfailed⟩)]
  by_cases hinside : d.Inside e
  · have hresult := (hcall.completes hbusy hrunning hinside).complete
    obtain ⟨driver, hcalled, hport, haddr⟩ := h.issued hbusy hresult
    refine ⟨_, hcalled, ?_⟩
    rw [Device.execute, if_neg hhalted, if_pos (haccepts.mpr hinside), if_pos hinside,
      transfer_commandTable e.write hcall.below hcall.even hexact, Ideal.copy, ← h.memory,
      ← h.disk]
    cases e.write with
    | false =>
      exact ⟨hport, haddr, rfl, rfl, h.sectors, h.halted, congrArg (· ++ [true]) h.results⟩
    | true =>
      exact ⟨hport, haddr, rfl, rfl, h.sectors, h.halted, congrArg (· ++ [true]) h.results⟩
  · have hresult := (hcall.fails hbusy (Or.inr hinside)).complete
    obtain ⟨driver, hcalled, hport, haddr⟩ := h.issued hbusy hresult
    refine ⟨_, hcalled, ?_⟩
    rw [Device.execute, if_neg hhalted, if_neg (mt haccepts.mp hinside), if_neg hinside]
    exact ⟨hport, haddr, h.memory, h.disk, h.sectors, rfl, congrArg (· ++ [false]) h.results⟩

end

/-- Whatever calls are made, however long the device takes for them and whatever the kernel does
with the memory in between: the results, the disk and the memory are those of a disk that stops
for good at the first request outside of it. -/
theorem run_serves (driver : AHCIDriver) (hport : driver.activePort ≠ -1)
    (htable : driver.cmdTableAddr.toNat < 2 ^ 32) (memory disk : Buffer) (sectors fuel : Nat)
    (events : List Event)
    (h : Guarded Ideal.step (Ok fuel) ⟨memory, disk, sectors, false, []⟩ events) :
    ∃ s, events.foldlM (System.step fuel) ⟨driver, ⟨memory, disk, sectors, false⟩, []⟩ = some s ∧
      let ideal := events.foldl Ideal.step ⟨memory, disk, sectors, false, []⟩
      s.results = ideal.results ∧ s.device.disk = ideal.disk ∧ s.device.memory = ideal.memory := by
  have hstep (s : System) (d : Ideal) (e : Event) (hs : Serves driver.cmdTableAddr s d)
      (hok : Ok fuel d e) :
      ∃ s', s.step fuel e = some s' ∧ Serves driver.cmdTableAddr s' (d.step e) := by
    cases e with
    | call e => exact hs.call htable hok
    | compute f => exact ⟨_, rfl, hs.compute f⟩
  have hfirst : Serves driver.cmdTableAddr ⟨driver, ⟨memory, disk, sectors, false⟩, []⟩
      ⟨memory, disk, sectors, false, []⟩ := ⟨hport, rfl, rfl, rfl, rfl, rfl, rfl⟩
  obtain ⟨s, hrun, hserves⟩ := foldlM_simulates hstep hfirst h
  exact ⟨s, hrun, hserves.results, hserves.disk, hserves.memory⟩

/-- A port that is ready and then reports a task file error. -/
def refusingPort : PortReads := ⟨fun _ => 0, fun _ => 1, fun _ => (1 : BitVec 32) <<< 30⟩

/-- Bytes are put at 0x1000 and written to sector 5 of 64; then sector 64 is asked for. -/
def sampleEvents : List Event :=
  [.compute fun _ => BitVec.ofNat 8, .call ⟨5, 1, 0x1000, true, readyPort⟩,
    .call ⟨64, 1, 0x3000, false, refusingPort⟩]

theorem run_serves_refused : ∃ s,
    sampleEvents.foldlM (System.step 1)
      ⟨readyDriver, ⟨fun _ => 0, fun _ => 0, 64, false⟩, []⟩ = some s ∧
    s.results = [true, false] ∧ s.device.disk 2563 = 3 := by
  have hready : ¬StaysBusy readyPort := fun hbusy => hbusy 0 (by decide) (by decide)
  have hrefusing : ¬StaysBusy refusingPort := fun hbusy => hbusy 0 (by decide) (by decide)
  have hcomputed : Ideal.step ⟨fun _ => 0, fun _ => 0, 64, false, []⟩
      (.compute fun _ => BitVec.ofNat 8) = ⟨BitVec.ofNat 8, fun _ => 0, 64, false, []⟩ := rfl
  have hwritten : Ideal.step ⟨BitVec.ofNat 8, fun _ => 0, 64, false, []⟩
      (.call ⟨5, 1, 0x1000, true, readyPort⟩) = ⟨BitVec.ofNat 8,
        blit (fun _ => 0) 2560 (BitVec.ofNat 8) 0x1000 512, 64, false, [true]⟩ := by
    rw [Ideal.step, Ideal.call, if_neg (not_or.mpr ⟨hready, Bool.false_ne_true⟩),
      if_pos (by decide)]
    rfl
  have houtside : ¬64 + 1 ≤ 64 := by decide
  have hrefused : Ideal.step ⟨BitVec.ofNat 8,
        blit (fun _ => 0) 2560 (BitVec.ofNat 8) 0x1000 512, 64, false, [true]⟩
      (.call ⟨64, 1, 0x3000, false, refusingPort⟩) = ⟨BitVec.ofNat 8,
        blit (fun _ => 0) 2560 (BitVec.ofNat 8) 0x1000 512, 64, true, [true, false]⟩ := by
    rw [Ideal.step, Ideal.call, if_neg (not_or.mpr ⟨hrefusing, Bool.false_ne_true⟩)]
    exact if_neg houtside
  have hfirst : Answered 1 ⟨BitVec.ofNat 8, fun _ => 0, 64, false, []⟩
      ⟨5, 1, 0x1000, true, readyPort⟩ := by
    refine ⟨by decide, by decide, by decide, fun _ _ _ => ⟨0, by decide, fun j hj => ?_, rfl⟩,
      fun _ hfails => ?_⟩
    · exact absurd hj (Nat.not_lt_zero j)
    · exact absurd hfails (not_or.mpr ⟨Bool.false_ne_true, fun h => h (by decide)⟩)
  have hsecond : Answered 1 ⟨BitVec.ofNat 8,
        blit (fun _ => 0) 2560 (BitVec.ofNat 8) 0x1000 512, 64, false, [true]⟩
      ⟨64, 1, 0x3000, false, refusingPort⟩ := by
    refine ⟨by decide, by decide, by decide, fun _ _ hinside => absurd hinside houtside,
      fun _ _ => ⟨0, by decide, fun j hj => ?_, by decide, by decide⟩⟩
    exact absurd hj (Nat.not_lt_zero j)
  have hguard : Guarded Ideal.step (Ok 1) ⟨fun _ => 0, fun _ => 0, 64, false, []⟩ sampleEvents := by
    refine ⟨trivial, hfirst, ?_, trivial⟩
    rw [hcomputed, hwritten]
    exact hsecond
  obtain ⟨s, hrun, hresults, hdisk, -⟩ := run_serves readyDriver (by decide) (by decide)
    (fun _ => 0) (fun _ => 0) 64 1 sampleEvents hguard
  simp only [sampleEvents, List.foldl_cons, List.foldl_nil, hcomputed, hwritten, hrefused]
    at hresults hdisk
  refine ⟨s, hrun, hresults, ?_⟩
  rw [hdisk, blit_inside _ _ (by decide) (by decide)]
  rfl

end EmergenceOS.Hal.Ahci
