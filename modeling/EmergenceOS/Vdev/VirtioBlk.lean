/- Module: EmergenceOS/Vdev/VirtioBlk
   digest: The block device behind the notify register is a plain disk while it fits. -/

import EmergenceOS.Lib.GuardedRun
import EmergenceOS.Vdev.PhaseFoldBounds
import EmergenceOS.Vdev.SubstrateRuns
import EmergenceOS.Vdev.TopologyFlat

/-!
Descriptors, requests and data are read where the guest's addresses point in the
memory of the host. That memory is one buffer here; the pool of the manifold is
another, so a chain that points into the pool is outside of the model.
-/

set_option autoImplicit false
set_option relaxedAutoImplicit false

namespace EmergenceOS.Vdev.VirtioBlk

open EmergenceOS.Lib.Bytes EmergenceOS.Lib.GuardedRun EmergenceOS.Vdev.Topology
open EmergenceOS.Vdev.ContextDrivenEngine EmergenceOS.Vdev.SubstrateService
open EmergenceOS.Vdev.Topology.SubstrateManifold

structure VirtqDesc where
  addr : BitVec 64
  len : BitVec 32
  flags : BitVec 16
  next : BitVec 16

structure VirtioBlkReq where
  type : BitVec 32
  reserved : BitVec 32
  sector : BitVec 64

/-- sizeof(virtq_desc). -/
def descBytes : Nat := 16

def readDesc (mem : Buffer) (a : Nat) : VirtqDesc where
  addr := ofBytes 64 (fun k => mem (a + k)) 8
  len := ofBytes 32 (fun k => mem (a + 8 + k)) 4
  flags := ofBytes 16 (fun k => mem (a + 12 + k)) 2
  next := ofBytes 16 (fun k => mem (a + 14 + k)) 2

def readReq (mem : Buffer) (a : Nat) : VirtioBlkReq where
  type := ofBytes 32 (fun k => mem (a + k)) 4
  reserved := ofBytes 32 (fun k => mem (a + 4 + k)) 4
  sector := ofBytes 64 (fun k => mem (a + 8 + k)) 8

/-- The arguments of handle_guest_notify. -/
structure Notify where
  queueIndex : BitVec 16
  descTablePaddr : BitVec 64
  descIdx : BitVec 16

/-- What is read of a chain: its request, and where the data is and how many sectors. -/
structure Chain where
  req : VirtioBlkReq
  buffer : BitVec 64
  sectorCount : BitVec 32

def chainAt (mem : Buffer) (n : Notify) : Chain :=
  let desc (i : BitVec 16) := readDesc mem (n.descTablePaddr.toNat + descBytes * i.toNat)
  let next := (desc n.descIdx).next
  { req := readReq mem (desc n.descIdx).addr.toNat
    buffer := (desc next).addr
    sectorCount := (desc next).len / 512 }

/-- VIRTIO_BLK_T_IN and VIRTIO_BLK_T_OUT. -/
def typeIn : BitVec 32 := 0
def typeOut : BitVec 32 := 1

/-- The memory behind an address. -/
def window (mem : Buffer) (a : BitVec 64) : Buffer := fun k => mem (a.toNat + k)

/-- The memory after stores through a pointer to the address. -/
def rebase (mem : Buffer) (a : BitVec 64) (buf : Buffer) : Buffer :=
  fun x => if a.toNat ≤ x then buf (x - a.toNat) else mem x

/-- The device, the memory that it shares with the guest, and the interrupts injected so far. -/
structure VirtIOBlock where
  substrate : Service
  memory : Buffer
  interrupts : Nat

namespace VirtIOBlock

def injectGuestInterrupt (dev : VirtIOBlock) : VirtIOBlock :=
  { dev with interrupts := dev.interrupts + 1 }

/-- No result where serve_write has none. -/
def handleGuestNotify (dev : VirtIOBlock) (n : Notify) : Option VirtIOBlock :=
  if n.queueIndex ≠ 0 then some dev
  else if n.descTablePaddr = 0 then some dev
  else
    let c := chainAt dev.memory n
    let guestBuffer := window dev.memory c.buffer
    let served :=
      if c.req.type = typeIn then
        let (_, substrate, buf) := dev.substrate.serveRead c.req.sector c.sectorCount guestBuffer
        some { dev with substrate, memory := rebase dev.memory c.buffer buf }
      else if c.req.type = typeOut then
        (dev.substrate.serveWrite c.req.sector c.sectorCount guestBuffer).map fun r =>
          { dev with substrate := r.2 }
      else some dev
    served.map injectGuestInterrupt

def run (dev : VirtIOBlock) (ns : List Notify) : Option VirtIOBlock :=
  ns.foldlM handleGuestNotify dev

/-- The device over a fresh manifold, whatever its storage held. -/
def start (build : Build) (pool : Buffer) (map : Fin cachePoolSize → BitVec 64)
    (phys : Option (List JournalWrite)) (memory : Buffer) : VirtIOBlock :=
  ⟨Service.new build (construct pool map) phys, memory, 0⟩

end VirtIOBlock

/-- What a guest asks of a disk. -/
structure DiskRequest where
  type : BitVec 32
  sector : BitVec 64
  buffer : BitVec 64
  len : BitVec 32

namespace DiskRequest

def sectorCount (r : DiskRequest) : Nat := r.len.toNat / sectorBytes

/-- Where the sectors lie on the disk, and how many bytes they are. -/
def place (r : DiskRequest) : Nat := sectorBytes * r.sector.toNat
def size (r : DiskRequest) : Nat := sectorBytes * r.sectorCount

end DiskRequest

/-- The bytes of a word stand at an address, the lowest first. -/
def Holds {w : Nat} (mem : Buffer) (a : Nat) (x : BitVec w) : Prop :=
  ∀ k < w / 8, mem (a + k) = byteAt x k

/-- The guest has laid out a request: a descriptor of its header, and a next one of its data. -/
structure LaidOut (mem : Buffer) (n : Notify) (r : DiskRequest) (header : BitVec 64)
    (next : BitVec 16) : Prop where
  headAddr : Holds mem (n.descTablePaddr.toNat + descBytes * n.descIdx.toNat) header
  headNext : Holds mem (n.descTablePaddr.toNat + descBytes * n.descIdx.toNat + 14) next
  buffer : Holds mem (n.descTablePaddr.toNat + descBytes * next.toNat) r.buffer
  len : Holds mem (n.descTablePaddr.toNat + descBytes * next.toNat + 8) r.len
  type : Holds mem header.toNat r.type
  sector : Holds mem (header.toNat + 8) r.sector

/-- A disk that is a row of bytes, with the same interface. -/
structure IdealDisk where
  storage : FlatMemory
  memory : Buffer
  interrupts : Nat

/-- Sectors that are about to be written have their vblocks opened. -/
def openSectors (pool : Buffer) (f : FlatMemory) (first count : Nat) : FlatMemory :=
  (List.range' first count).foldl (fun f s => f.openBlock pool (vblockOfSector s)) f

namespace IdealDisk

def start (memory : Buffer) : IdealDisk := ⟨.zeroed, memory, 0⟩

/-- Whole sectors, copied at once. -/
def read (d : IdealDisk) (r : DiskRequest) : IdealDisk :=
  { d with memory := blit d.memory r.buffer.toNat d.storage.bytes r.place r.size }

def write (pool : Buffer) (d : IdealDisk) (r : DiskRequest) : IdealDisk :=
  let f := openSectors pool d.storage r.sector.toNat r.sectorCount
  { d with storage := { f with bytes := blit f.bytes r.place d.memory r.buffer.toNat r.size } }

def serve (pool : Buffer) (d : IdealDisk) (r : DiskRequest) : IdealDisk :=
  if r.type = typeIn then d.read r else if r.type = typeOut then d.write pool r else d

/-- One notification, and the request that it is about. -/
def notify (pool : Buffer) (d : IdealDisk) (e : Notify × DiskRequest) : IdealDisk :=
  if e.1.queueIndex ≠ 0 ∨ e.1.descTablePaddr = 0 then d
  else { d.serve pool e.2 with interrupts := d.interrupts + 1 }

/-- The request lies inside the capacity; what it writes belongs to the working set and, if there
is a physical disk, folds into its arrays. -/
structure Serves (build : Build) (evaporates : Bool) (S : Finset (BitVec 64)) (d : IdealDisk)
    (r : DiskRequest) : Prop where
  inside : r.type = typeIn ∨ r.type = typeOut → ∀ i < r.sectorCount,
    (r.sector.toNat + i) * sectorBytes < build.capacityBytes.toNat
  working : r.type = typeOut → ∀ i < r.sectorCount, vblockOfSector (r.sector.toNat + i) ∈ S
  folds : r.type = typeOut → evaporates = true → ∀ i < r.sectorCount,
    Folds (sectorOf (window d.memory r.buffer) i)

/-- A notification that is heard is about such a request, laid out in the memory. -/
def Admits (build : Build) (evaporates : Bool) (S : Finset (BitVec 64)) (d : IdealDisk)
    (e : Notify × DiskRequest) : Prop :=
  e.1.queueIndex = 0 → e.1.descTablePaddr ≠ 0 →
    (∃ header next, LaidOut d.memory e.1 e.2 header next) ∧ d.Serves build evaporates S e.2

end IdealDisk

/-- The device answers as the disk does: same memory, same interrupts, and the sectors of the
disk in the manifold. -/
structure Follows (build : Build) (pool : Buffer) (evaporates : Bool) (S : Finset (BitVec 64))
    (dev : VirtIOBlock) (d : IdealDisk) : Prop where
  flat : Flat dev.substrate.manifold pool S d.storage
  capacity : dev.substrate.virtualCapacityBytes = build.capacityBytes
  disk : evaporates = false → dev.substrate.physicalDisk = none
  memory : dev.memory = d.memory
  interrupts : dev.interrupts = d.interrupts

theorem Holds.ofBytes_eq {w : Nat} {mem : Buffer} {a : Nat} {x : BitVec w} (h : Holds mem a x)
    {n : Nat} (hw : w = 8 * n) : ofBytes w (fun k => mem (a + k)) n = x := by
  rw [← ofBytes_byteAt x hw]
  exact ofBytes_congr w n fun k hk => h k (by omega)

/-- What the device reads of a chain is the request that the guest has laid out. -/
theorem LaidOut.chainAt_eq {mem : Buffer} {n : Notify} {r : DiskRequest} {header : BitVec 64}
    {next : BitVec 16} (h : LaidOut mem n r header next) :
    (chainAt mem n).req.type = r.type ∧ (chainAt mem n).req.sector = r.sector ∧
      (chainAt mem n).buffer = r.buffer ∧ (chainAt mem n).sectorCount.toNat = r.sectorCount := by
  have h512 : (512 : BitVec 32).toNat = sectorBytes := rfl
  have hhead := h.headAddr.ofBytes_eq (n := 8) rfl
  have hnext := h.headNext.ofBytes_eq (n := 2) rfl
  have hbuffer := h.buffer.ofBytes_eq (n := 8) rfl
  have hlen := h.len.ofBytes_eq (n := 4) rfl
  simp only [chainAt, readDesc, readReq]
  rw [hhead, hnext, hbuffer, hlen, BitVec.toNat_udiv, h512]
  exact ⟨h.type.ofBytes_eq (n := 4) rfl, h.sector.ofBytes_eq (n := 8) rfl, rfl, rfl⟩

theorem sectorVaddr_toNat {lba : BitVec 64} {i : Nat} (h : (lba.toNat + i) * sectorBytes < 2 ^ 64) :
    (sectorVaddr lba i).toNat = sectorBytes * (lba.toNat + i) := by
  rw [sectorVaddr_eq, BitVec.toNat_ofNat, Nat.mod_eq_of_lt h, Nat.mul_comm]

/-- Opening a vblock and copying into one that is open may change their order. -/
theorem openBlock_blit {pool : Buffer} {f : FlatMemory} {u : BitVec 64} (hu : u ∈ f.opened)
    (data : Buffer) {first len : Nat} (off : Nat) (hblock : first + len ≤ blockBytes)
    (v : BitVec 64) :
    FlatMemory.openBlock pool
        { f with bytes := blit f.bytes (blockBytes * u.toNat + first) data off len } v =
      { f.openBlock pool v with
        bytes := blit (f.openBlock pool v).bytes (blockBytes * u.toNat + first) data off len } := by
  unfold FlatMemory.openBlock
  by_cases hv : v ∈ f.opened
  · rw [if_pos hv, if_pos hv]
  · have hne : v.toNat ≠ u.toNat := by
      intro he
      rw [BitVec.eq_of_toNat_eq he] at hv
      exact hv hu
    rw [if_neg hv, if_neg hv]
    refine congrArg (FlatMemory.mk _) (blit_comm _ _ _ _ _ ?_)
    simp only [blockBytes] at hblock ⊢
    omega

theorem openSectors_blit {pool : Buffer} {f : FlatMemory} {u : BitVec 64} (hu : u ∈ f.opened)
    (data : Buffer) {first len : Nat} (off : Nat) (hblock : first + len ≤ blockBytes)
    (s count : Nat) :
    openSectors pool
        { f with bytes := blit f.bytes (blockBytes * u.toNat + first) data off len } s count =
      { openSectors pool f s count with
        bytes := blit (openSectors pool f s count).bytes (blockBytes * u.toNat + first) data off
          len } := by
  induction count generalizing f s with
  | zero => rfl
  | succ count ih =>
    have hopen : u ∈ (f.openBlock pool (vblockOfSector s)).opened :=
      FlatMemory.mem_openBlock.mpr (.inr hu)
    have hrest := ih hopen (s + 1)
    simp only [openSectors, List.range'_succ, List.foldl_cons] at hrest ⊢
    rw [openBlock_blit hu data off hblock]
    exact hrest

/-- A sector lies inside one vblock. -/
theorem sector_place {s : Nat} (h : s * sectorBytes < 2 ^ 64) :
    ∃ first, sectorBytes * s = blockBytes * (vblockOfSector s).toNat + first ∧
      first + sectorBytes ≤ blockBytes := by
  have hS : sectorBytes = 512 := rfl
  have hB : blockBytes = 16384 := rfl
  have hvblock : (vblockOfSector s).toNat = s * sectorBytes / blockBytes := by
    change (vblockOf (BitVec.ofNat 64 (s * sectorBytes))).toNat = _
    rw [toNat_vblockOf, BitVec.toNat_ofNat, Nat.mod_eq_of_lt h]
  refine ⟨s * sectorBytes % blockBytes, ?_, ?_⟩
  · rw [hvblock, Nat.div_add_mod, Nat.mul_comm]
  · rw [hS, hB]
    omega

/-- A sector write opens its vblock and copies 512 bytes of the request's buffer. -/
theorem flat_sectorWrite (pool : Buffer) (f : FlatMemory) {lba : BitVec 64} (buf : Buffer)
    {i : Nat} (hi : i < 2 ^ 23) (h : (lba.toNat + i) * sectorBytes < 2 ^ 64) :
    Op.flat pool f (.materialize (sectorVaddr lba i) (sectorOf buf i) sectorBytes) =
      let g := f.openBlock pool (vblockOfSector (lba.toNat + i))
      { g with
        bytes := blit g.bytes (sectorBytes * (lba.toNat + i)) buf (sectorBytes * i)
          sectorBytes } := by
  have hS : sectorBytes = 512 := rfl
  have haddress : 16 * ((sectorVaddr lba i).toNat / 16) = sectorBytes * (lba.toNat + i) := by
    rw [sectorVaddr_toNat h, hS]
    omega
  have hvblock : vblockOf (sectorVaddr lba i) = vblockOfSector (lba.toNat + i) := by
    rw [sectorVaddr_eq]
    rfl
  simp only [Op.flat, hvblock, haddress]
  congr 1
  apply blit_congr
  intro k _
  rw [sectorOf, bufferOffset_eq (by omega), Nat.zero_add]

/-- The sector writes of a request open their vblocks and are one copy. -/
theorem flatRun_writeOps (pool : Buffer) (f : FlatMemory) {lba : BitVec 64} (buf : Buffer)
    {left i : Nat} (hcount : i + left ≤ 2 ^ 23)
    (h : ∀ j < i + left, (lba.toNat + j) * sectorBytes < 2 ^ 64) :
    flatRun pool f (writeOps lba buf left i) =
      let g := openSectors pool f (lba.toNat + i) left
      { g with
        bytes := blit g.bytes (sectorBytes * (lba.toNat + i)) buf (sectorBytes * i)
          (sectorBytes * left) } := by
  induction left generalizing i f with
  | zero => simp [writeOps, flatRun, openSectors]
  | succ left ih =>
    have hlt := h i (by omega)
    let v := vblockOfSector (lba.toNat + i)
    have hopen : v ∈ (f.openBlock pool v).opened := FlatMemory.mem_openBlock.mpr (.inl rfl)
    obtain ⟨first, hfirst, hblock⟩ := sector_place hlt
    have hop : Op.flat pool f (.materialize (sectorVaddr lba i) (sectorOf buf i) sectorBytes) =
        { f.openBlock pool v with
          bytes := blit (f.openBlock pool v).bytes (blockBytes * v.toNat + first) buf
            (sectorBytes * i) sectorBytes } := by
      rw [← hfirst]
      exact flat_sectorWrite pool f buf (by omega) hlt
    have hrest := ih (Op.flat pool f
      (.materialize (sectorVaddr lba i) (sectorOf buf i) sectorBytes)) (i := i + 1) (by omega)
      fun j hj => h j (by omega)
    rw [hop, ← Nat.add_assoc] at hrest
    simp only [openSectors_blit hopen buf (sectorBytes * i) hblock] at hrest
    rw [writeOps, List.range'_succ, List.map_cons, flatRun, List.foldl_cons, hop]
    refine hrest.trans ?_
    simp only [openSectors, List.range'_succ, List.foldl_cons]
    rw [← hfirst, Nat.mul_succ, Nat.mul_succ, blit_blit, Nat.mul_succ, Nat.add_comm sectorBytes]

/-- A sector in the manifold is a sector of the memory it stands for. -/
theorem sectorByte_flat {m : SubstrateManifold} {pool : Buffer} {S : Finset (BitVec 64)}
    {f : FlatMemory} (hflat : Flat m pool S f) {lba : BitVec 64} {i : Nat}
    (h : (lba.toNat + i) * sectorBytes < 2 ^ 64) {k : Nat} (hk : k < sectorBytes) :
    sectorByte m (sectorVaddr lba i) k = f.bytes (sectorBytes * (lba.toNat + i) + k) := by
  have hS : sectorBytes = 512 := rfl
  have hvaddr := sectorVaddr_toNat h
  have hsum : (sectorVaddr lba i + BitVec.ofNat 64 (16 * (k / 16))).toNat =
      sectorBytes * (lba.toNat + i) + 16 * (k / 16) := by
    rw [hS] at h hk hvaddr ⊢
    rw [BitVec.toNat_add, hvaddr, BitVec.toNat_ofNat]
    omega
  rw [sectorByte, hflat.fetch_data _ (Nat.mod_lt k (by decide)), hsum]
  congr 1
  rw [hS]
  omega

theorem capacityBytes_lt (build : Build) : build.capacityBytes.toNat < 2 ^ 64 :=
  build.capacityBytes.isLt

section
variable {build : Build} {pool : Buffer} {evaporates : Bool} {S : Finset (BitVec 64)}
  {dev : VirtIOBlock} {d : IdealDisk} {c : Chain} {r : DiskRequest}

/-- The length of a request counts fewer than 2^23 sectors. -/
theorem DiskRequest.sectorCount_lt (r : DiskRequest) : r.sectorCount < 2 ^ 23 := by
  have hS : sectorBytes = 512 := rfl
  have hlt := r.len.isLt
  rw [DiskRequest.sectorCount, hS]
  omega

/-- A read request puts the sectors of the disk into the guest's buffer. -/
theorem Follows.read (h : Follows build pool evaporates S dev d) {lba buffer : BitVec 64}
    {count : BitVec 32} (hlba : lba = r.sector) (hbuffer : buffer = r.buffer)
    (hcount : count.toNat = r.sectorCount)
    (hinside : ∀ i < r.sectorCount,
      (r.sector.toNat + i) * sectorBytes < build.capacityBytes.toNat) :
    let answer := dev.substrate.serveRead lba count (window dev.memory buffer)
    Follows build pool evaporates S
      { dev with substrate := answer.2.1, memory := rebase dev.memory buffer answer.2.2 }
      (d.read r) := by
  subst hlba hbuffer
  intro answer
  have hlt := r.sectorCount_lt
  rw [← hcount] at hinside hlt
  have hread := dev.substrate.serveRead_eq r.sector count (window dev.memory r.buffer)
  have haccept : answer.1 = true := by
    apply Service.serveRead_of_inCapacity
    intro i hi
    rw [Service.getCapacity, h.capacity]
    exact hinside i hi
  have hS : sectorBytes = 512 := rfl
  refine ⟨?_, ?_, fun he => ?_, ?_, h.interrupts⟩
  · rw [Service.serveRead_manifold]
    exact h.flat
  · rw [Service.serveRead_capacity]
    exact h.capacity
  · simp only [answer, Service.serveRead]
    split
    · exact h.disk he
    · exact h.disk he
  · funext x
    have hbuf (x : Nat) := readSectors_snd (i := 0) (by omega)
      ((congrArg Prod.fst hread).symm.trans haccept) x
    simp only [← congrArg Prod.snd hread, Nat.mul_zero, Nat.zero_le, Nat.zero_add, true_and] at hbuf
    simp only [rebase, IdealDisk.read, blit, DiskRequest.place, DiskRequest.size, ← hcount,
      ← h.memory]
    by_cases ha : r.buffer.toNat ≤ x
    · simp only [ha, if_true, true_and]
      rw [hbuf]
      by_cases hx : x < r.buffer.toNat + sectorBytes * count.toNat
      · have hi : (x - r.buffer.toNat) / sectorBytes < count.toNat := by
          rw [Nat.div_lt_iff_lt_mul (by decide), Nat.mul_comm]
          omega
        rw [if_pos (by omega), if_pos hx, sectorByte_flat h.flat
          (Nat.lt_trans (hinside _ hi) (capacityBytes_lt build)) (Nat.mod_lt _ (by decide))]
        congr 1
        rw [hS]
        omega
      · rw [if_neg (by omega), if_neg hx, window, Nat.add_sub_cancel' ha]
    · simp only [ha, if_false, false_and]

/-- A write request puts the guest's buffer into the sectors of the disk. -/
theorem Follows.write (h : Follows build pool evaporates S dev d) {lba buffer : BitVec 64}
    {count : BitVec 32} (hlba : lba = r.sector) (hbuffer : buffer = r.buffer)
    (hcount : count.toNat = r.sectorCount)
    (hinside : ∀ i < r.sectorCount,
      (r.sector.toNat + i) * sectorBytes < build.capacityBytes.toNat)
    (hworking : ∀ i < r.sectorCount, vblockOfSector (r.sector.toNat + i) ∈ S)
    (hfolds : evaporates = true → ∀ i < r.sectorCount,
      Folds (sectorOf (window d.memory r.buffer) i)) :
    ∃ answer, dev.substrate.serveWrite lba count (window dev.memory buffer) = some answer ∧
      Follows build pool evaporates S { dev with substrate := answer.2 } (d.write pool r) := by
  subst hlba hbuffer
  have hlt := r.sectorCount_lt
  rw [← hcount] at hinside hworking hfolds hlt
  have hfoldable : dev.substrate.Foldable count (window dev.memory r.buffer) := by
    intro i hi
    cases he : evaporates with
    | false => exact Or.inl (h.disk he)
    | true =>
      rw [h.memory]
      exact Or.inr (hfolds he i hi)
  obtain ⟨answer, hanswer⟩ := Service.exists_serveWrite_iff.mpr hfoldable
  obtain ⟨svc, hloop, rfl⟩ := Option.map_eq_some_iff.mp hanswer
  obtain ⟨hm, hcap, hdisk⟩ := writeSectors_frame hloop
  have hops : ∀ op ∈ writeOps r.sector (window dev.memory r.buffer) count.toNat 0,
      op.StaysInBlock ∧ ∀ v ∈ op.vblocks, v ∈ S := by
    intro op hop
    obtain ⟨i, hi, rfl⟩ := List.mem_map.mp hop
    rw [List.mem_range'_1] at hi
    rw [sectorVaddr_eq]
    refine ⟨?_, fun v hv => ?_⟩
    · have hin := sectorOp_inBlock (r.sector.toNat + i, sectorOf (window dev.memory r.buffer) i)
      rw [Op.StaysInBlock, atomOf_of_aligned hin.1]
      exact hin.2.2
    · rw [List.mem_singleton.mp hv]
      exact hworking i (by omega)
  have hflat := h.flat.run (fun op hop => (hops op hop).1) fun op hop => (hops op hop).2
  rw [flatRun_writeOps _ _ _ (by omega) fun j hj =>
    Nat.lt_trans (hinside j (by omega)) (capacityBytes_lt build)] at hflat
  refine ⟨_, hanswer, ?_, hcap.trans h.capacity, fun he => ?_, h.memory, h.interrupts⟩
  · simp only
    rw [hm]
    convert hflat using 1
    simp only [IdealDisk.write, DiskRequest.place, DiskRequest.size, ← hcount, Nat.add_zero,
      Nat.mul_zero]
    congr 1
    apply blit_congr
    intro k _
    rw [window, h.memory, Nat.zero_add]
  · exact hdisk.mpr (h.disk he)

theorem Follows.interrupt (h : Follows build pool evaporates S dev d) :
    Follows build pool evaporates S dev.injectGuestInterrupt
      { d with interrupts := d.interrupts + 1 } :=
  ⟨h.flat, h.capacity, h.disk, h.memory, congrArg (· + 1) h.interrupts⟩

theorem Follows.notify (h : Follows build pool evaporates S dev d) {e : Notify × DiskRequest}
    (he : d.Admits build evaporates S e) :
    ∃ dev', dev.handleGuestNotify e.1 = some dev' ∧
      Follows build pool evaporates S dev' (d.notify pool e) := by
  obtain ⟨n, r⟩ := e
  unfold VirtIOBlock.handleGuestNotify IdealDisk.notify
  by_cases hqueue : n.queueIndex = 0
  swap
  · rw [if_pos hqueue, if_pos (Or.inl hqueue)]
    exact ⟨dev, rfl, h⟩
  by_cases htable : n.descTablePaddr = 0
  · rw [if_neg (not_not_intro hqueue), if_pos htable, if_pos (Or.inr htable)]
    exact ⟨dev, rfl, h⟩
  obtain ⟨⟨header, next, hlaid⟩, hinside, hworking, hfolds⟩ := he hqueue htable
  rw [← h.memory] at hlaid
  obtain ⟨htype, hsector, hbuffer, hcount⟩ := hlaid.chainAt_eq
  rw [if_neg (not_not_intro hqueue), if_neg htable,
    if_neg (not_or.mpr ⟨not_not_intro hqueue, htable⟩)]
  simp only
  generalize chainAt dev.memory n = c at htype hsector hbuffer hcount ⊢
  unfold IdealDisk.serve
  rw [htype]
  by_cases hin : r.type = typeIn
  · rw [if_pos hin, if_pos hin]
    exact ⟨_, rfl, (h.read hsector hbuffer hcount (hinside (Or.inl hin))).interrupt⟩
  rw [if_neg hin, if_neg hin]
  by_cases hout : r.type = typeOut
  · obtain ⟨answer, hanswer, hnext⟩ := h.write hsector hbuffer hcount (hinside (Or.inr hout))
      (hworking hout) (hfolds hout)
    rw [if_pos hout, if_pos hout, hanswer]
    exact ⟨_, rfl, hnext.interrupt⟩
  · rw [if_neg hout, if_neg hout]
    exact ⟨_, rfl, h.interrupt⟩

end

theorem follows_start (build : Build) (pool : Buffer) (map : Fin cachePoolSize → BitVec 64)
    (phys : Option (List JournalWrite)) (memory : Buffer) {S : Finset (BitVec 64)}
    (hcard : S.card ≤ cachePoolSize) :
    Follows build pool phys.isSome S (VirtIOBlock.start build pool map phys memory)
      (IdealDisk.start memory) :=
  ⟨flat_construct pool map hcard, rfl, by simp [VirtIOBlock.start, Service.new], rfl, rfl⟩

/-- Whatever requests the guest lays out, as long as they lie inside the capacity, what they write
is in at most 1024 vblocks in all and folds where there is a physical disk, the device is a plain
disk: the same interrupts, and the same memory, byte for byte. -/
theorem run_refines_ideal (build : Build) (pool : Buffer) (map : Fin cachePoolSize → BitVec 64)
    (phys : Option (List JournalWrite)) (memory : Buffer) (S : Finset (BitVec 64))
    (hcard : S.card ≤ cachePoolSize) (es : List (Notify × DiskRequest))
    (h : Guarded (IdealDisk.notify pool) (IdealDisk.Admits build phys.isSome S)
      (IdealDisk.start memory) es) :
    ∃ dev, (VirtIOBlock.start build pool map phys memory).run (es.map Prod.fst) = some dev ∧
      dev.memory = (es.foldl (IdealDisk.notify pool) (IdealDisk.start memory)).memory ∧
      dev.interrupts =
        (es.foldl (IdealDisk.notify pool) (IdealDisk.start memory)).interrupts := by
  have hstep (dev : VirtIOBlock) (d : IdealDisk) (e : Notify × DiskRequest)
      (hdev : Follows build pool phys.isSome S dev d) (he : d.Admits build phys.isSome S e) :=
    hdev.notify he
  obtain ⟨dev, hrun, hfollows⟩ := foldlM_simulates hstep
    (follows_start build pool map phys memory hcard) h
  refine ⟨dev, ?_, hfollows.memory, hfollows.interrupts⟩
  rw [VirtIOBlock.run, List.foldlM_map]
  exact hrun

instance {w : Nat} (mem : Buffer) (a : Nat) (x : BitVec w) : Decidable (Holds mem a x) :=
  inferInstanceAs (Decidable (∀ k < w / 8, _))

/-- A table at 1000h with three chains: one writes sector 5 from 3000h, one reads sectors 5 and 6
to 4000h and one sector 224 to 4400h. -/
def guestMemory : Buffer := fun a =>
  if 0x3000 ≤ a ∧ a < 0x3200 then foldingSector (a - 0x3000)
  else (([(0x1001, 0x20), (0x100E, 1), (0x1011, 0x30), (0x1019, 2), (0x1021, 0x21), (0x102E, 3),
    (0x1031, 0x40), (0x1039, 4), (0x1041, 0x22), (0x104E, 5), (0x1051, 0x44), (0x1059, 2),
    (0x2000, 1), (0x2008, 5), (0x2108, 5), (0x2208, 224)] : List (Nat × Byte)).lookup a).getD 0

def guestRun : List (Notify × DiskRequest) :=
  [(⟨0, 0x1000, 0⟩, ⟨1, 5, 0x3000, 512⟩), (⟨0, 0x1000, 2⟩, ⟨0, 5, 0x4000, 1024⟩),
    (⟨0, 0x1000, 4⟩, ⟨0, 224, 0x4400, 512⟩)]

/-- With a physical disk: what was written is read back, beside it is what the storage held, and
a vblock that nobody has written is zero. -/
theorem run_refines_ideal_write_read :
    ∃ dev, (VirtIOBlock.start .enterprise (fun _ => 0xEE) (fun _ => 0) (some []) guestMemory).run
        (guestRun.map Prod.fst) = some dev ∧
      dev.memory 0x4000 = 74 ∧ dev.memory 0x4200 = 0xEE ∧ dev.memory 0x4400 = 0 ∧
      dev.interrupts = 3 := by
  have hwritten : IdealDisk.Admits .enterprise true {vblockOfSector 5}
      (IdealDisk.start guestMemory) (⟨0, 0x1000, 0⟩, ⟨1, 5, 0x3000, 512⟩) := by
    refine fun _ _ => ⟨⟨0x2000, 1, by decide, by decide, by decide, by decide, by decide,
      by decide⟩, fun _ => by decide, fun _ => by decide, fun _ _ i hi => ?_⟩
    obtain rfl : i = 0 := Nat.lt_one_iff.mp hi
    have hnearly : NearlyReproduced 0x1234567890ABCDEF 0xABCDEF0123456789
        (sectorOf (window guestMemory 0x3000) 0) := by
      refine ⟨1, 1, fun k hk hne _ => (reproduced_congr fun j hj => ?_).mpr
        (foldingSector_reproduced hk hne)⟩
      have hbuffer : (0x3000 : BitVec 64).toNat = 0x3000 := rfl
      rw [sectorOf, window, bufferOffset_eq (by decide), Nat.mul_zero, Nat.zero_add, hbuffer,
        guestMemory, if_pos ⟨Nat.le_add_right _ _, by omega⟩, Nat.add_sub_cancel_left]
    exact hnearly.fits
  obtain ⟨dev, hrun, hmem, hint⟩ := run_refines_ideal .enterprise (fun _ => 0xEE) (fun _ => 0)
    (some []) guestMemory {vblockOfSector 5} (by decide) guestRun
    ⟨hwritten,
      fun _ _ => ⟨⟨0x2100, 3, by decide, by decide, by decide, by decide, by decide, by decide⟩,
        fun _ => by decide, fun h => absurd h (by decide), fun h => absurd h (by decide)⟩,
      fun _ _ => ⟨⟨0x2200, 5, by decide, by decide, by decide, by decide, by decide, by decide⟩,
        fun _ => by decide, fun h => absurd h (by decide), fun h => absurd h (by decide)⟩, trivial⟩
  refine ⟨dev, hrun, ?_, ?_, ?_, hint⟩
  · rw [hmem]
    decide
  · rw [hmem]
    decide
  · rw [hmem]
    decide

end EmergenceOS.Vdev.VirtioBlk
