/- Module: EmergenceOS/Vdev/SubstrateRuns
   digest: Runs of sector requests: what a read gives back as long as the cache holds it. -/

import EmergenceOS.Vdev.SubstrateService
import EmergenceOS.Vdev.TopologyFlat

/-!
Nothing is written back when a vblock leaves the cache and nothing is read from
the disk: the residue stream has no reader. A sector is therefore as durable as
the residency of its vblock.
-/

set_option autoImplicit false
set_option relaxedAutoImplicit false

namespace EmergenceOS.Vdev.SubstrateService

open EmergenceOS.Lib.Bytes EmergenceOS.Lib.FifoCache EmergenceOS.Vdev.Topology
open EmergenceOS.Vdev.Topology.SubstrateManifold

inductive Request
  | read (guestLba : BitVec 64) (sectorCount : BitVec 32) (buf : Buffer)
  | write (guestLba : BitVec 64) (sectorCount : BitVec 32) (buf : Buffer)

namespace Request

def guestLba : Request → BitVec 64
  | .read lba _ _ => lba
  | .write lba _ _ => lba

def sectorCount : Request → BitVec 32
  | .read _ count _ => count
  | .write _ count _ => count

/-- All sectors below the capacity, at most as many as a 32-bit descriptor length counts. -/
def Admissible (build : Build) (r : Request) : Prop :=
  (∀ i < r.sectorCount.toNat, (r.guestLba.toNat + i) * sectorBytes < build.capacityBytes.toNat) ∧
    r.sectorCount.toNat < 2 ^ 23

/-- The sectors that a request writes, by number. -/
def sectorWrites : Request → List (Nat × Buffer)
  | .read _ _ _ => []
  | .write lba count buf =>
    (List.range count.toNat).map fun i => (lba.toNat + i, fun k => buf (sectorBytes * i + k))

end Request

namespace Service

def serve (svc : Service) : Request → Option Service
  | .read lba count buf => some (svc.serveRead lba count buf).2.1
  | .write lba count buf => (svc.serveWrite lba count buf).map Prod.snd

def serveAll (svc : Service) : List Request → Option Service
  | [] => some svc
  | r :: rs => (svc.serve r).bind fun svc => svc.serveAll rs

end Service

def allSectorWrites (rs : List Request) : List (Nat × Buffer) := rs.flatMap Request.sectorWrites

/-- The manifold operation that one sector write is. -/
def sectorOp (w : Nat × Buffer) : Op :=
  .materialize (BitVec.ofNat 64 (w.1 * sectorBytes)) w.2 sectorBytes

/-- The vblock of a sector. -/
def vblockOfSector (s : Nat) : BitVec 64 := vblockOf (BitVec.ofNat 64 (s * sectorBytes))

theorem sectorOp_inBlock (w : Nat × Buffer) : (sectorOp w).InBlock := by
  have hS : sectorBytes = 512 := rfl
  have hB : blockBytes = 16384 := rfl
  have hvaddr : (BitVec.ofNat 64 (w.1 * sectorBytes)).toNat = w.1 * sectorBytes % 2 ^ 64 :=
    BitVec.toNat_ofNat _ _
  rw [hS] at hvaddr
  exact ⟨by rw [hS, hvaddr]; omega, by decide, by rw [hS, hB, hvaddr]; omega⟩

theorem sectorWrites_single (lba : BitVec 64) (buf : Buffer) :
    (Request.write lba 1 buf).sectorWrites = [(lba.toNat, buf)] := by
  simp [Request.sectorWrites]

theorem serve_frame {build : Build} {r : Request} (hr : r.Admissible build) {svc svc' : Service}
    (h : svc.serve r = some svc') :
    svc'.manifold = svc.manifold.run (r.sectorWrites.map sectorOp) ∧
      svc'.virtualCapacityBytes = svc.virtualCapacityBytes := by
  cases r with
  | read lba count buf =>
    cases h
    exact ⟨Service.serveRead_manifold .., Service.serveRead_capacity ..⟩
  | write lba count buf =>
    obtain ⟨r, hwrite, rfl⟩ := Option.map_eq_some_iff.mp h
    obtain ⟨svc', hloop, rfl⟩ := Option.map_eq_some_iff.mp hwrite
    obtain ⟨hm, hcap, -⟩ := writeSectors_frame hloop
    refine ⟨?_, hcap⟩
    have hops : writeOps lba buf count.toNat 0 =
        (Request.write lba count buf).sectorWrites.map sectorOp := by
      simp only [writeOps, Request.sectorWrites, List.map_map, List.range_eq_range']
      apply List.map_congr_left
      intro i hi
      have hlt := hr.2
      simp only [Request.sectorCount] at hlt
      simp only [List.mem_range'_1] at hi
      simp only [Function.comp_apply, sectorOp, sectorVaddr_eq, Op.materialize.injEq, true_and,
        and_true]
      funext k
      rw [sectorOf, bufferOffset_eq (by omega)]
    rw [hm, hops]

theorem serveAll_frame {build : Build} {rs : List Request} (hrs : ∀ r ∈ rs, r.Admissible build)
    {svc svc' : Service} (h : svc.serveAll rs = some svc') :
    svc'.manifold = svc.manifold.run ((allSectorWrites rs).map sectorOp) ∧
      svc'.virtualCapacityBytes = svc.virtualCapacityBytes := by
  induction rs generalizing svc with
  | nil =>
    cases h
    exact ⟨rfl, rfl⟩
  | cons r rs ih =>
    obtain ⟨mid, hserve, hrest⟩ := Option.bind_eq_some_iff.mp h
    obtain ⟨hm, hcap⟩ := serve_frame (hrs r List.mem_cons_self) hserve
    obtain ⟨hm', hcap'⟩ := ih (fun r' hr' => hrs r' (List.mem_cons_of_mem r hr')) hrest
    rw [hm', hcap', hm, hcap, allSectorWrites, allSectorWrites, List.flatMap_cons,
      List.map_append, SubstrateManifold.run_append]
    exact ⟨rfl, rfl⟩

/-- A sector write as a store of the cache. -/
def sectorStore (w : Nat × Buffer) : BitVec 64 × (Fin blockBytes → Option Byte) :=
  (vblockOfSector w.1, rangeBytes (BitVec.ofNat 64 (w.1 * sectorBytes)) w.2 sectorBytes)

theorem specRun_sectorOps (ws : List (Nat × Buffer)) :
    specRun (ws.map sectorOp) = Cache.empty.run cachePoolSize (ws.map sectorStore) := by
  unfold specRun Cache.run
  rw [List.foldl_map, List.foldl_map]
  rfl

/-- The bytes of a sector inside its vblock. -/
theorem rangeBytes_sector {s : Nat} (hs : s * sectorBytes < 2 ^ 64) (d : Buffer) {k : Nat}
    (hk : k < sectorBytes) (o : Fin blockBytes) (ho : o.val = s * sectorBytes % blockBytes + k) :
    rangeBytes (BitVec.ofNat 64 (s * sectorBytes)) d sectorBytes o = some (d k) := by
  unfold rangeBytes
  rw [BitVec.toNat_ofNat, Nat.mod_eq_of_lt hs, if_pos (by omega), ho, Nat.add_sub_cancel_left]

/-- Another sector of the same vblock does not reach them. -/
theorem rangeBytes_other {s s' : Nat} (hs : s * sectorBytes < 2 ^ 64)
    (hs' : s' * sectorBytes < 2 ^ 64) (hne : s' ≠ s) (hv : vblockOfSector s' = vblockOfSector s)
    (d : Buffer) {k : Nat} (hk : k < sectorBytes) (o : Fin blockBytes)
    (ho : o.val = s * sectorBytes % blockBytes + k) :
    rangeBytes (BitVec.ofNat 64 (s' * sectorBytes)) d sectorBytes o = none := by
  have hval := congrArg BitVec.toNat hv
  simp only [vblockOfSector, toNat_vblockOf, BitVec.toNat_ofNat, Nat.mod_eq_of_lt hs,
    Nat.mod_eq_of_lt hs'] at hval
  unfold rangeBytes
  rw [BitVec.toNat_ofNat, Nat.mod_eq_of_lt hs', if_neg]
  simp only [sectorBytes, blockBytes] at *
  omega

/-- Where the atom that holds byte k of a sector lies in its vblock. -/
theorem sector_address {s : Nat} (hs : s * sectorBytes < 2 ^ 64) {k : Nat} (hk : k < sectorBytes) :
    vblockOf (BitVec.ofNat 64 (s * sectorBytes) + BitVec.ofNat 64 (16 * (k / 16))) =
        vblockOfSector s ∧
      atomOf (BitVec.ofNat 64 (s * sectorBytes) + BitVec.ofNat 64 (16 * (k / 16))) + k % 16 =
        s * sectorBytes % blockBytes + k := by
  have hS : sectorBytes = 512 := rfl
  have hB : blockBytes = 16384 := rfl
  rw [hS] at hs hk ⊢
  have haddr : (BitVec.ofNat 64 (s * 512) + BitVec.ofNat 64 (16 * (k / 16))).toNat =
      s * 512 + 16 * (k / 16) := by
    simp only [BitVec.toNat_add, BitVec.toNat_ofNat]
    omega
  constructor
  · apply BitVec.eq_of_toNat_eq
    rw [vblockOfSector, toNat_vblockOf, toNat_vblockOf, haddr, hS, hB, BitVec.toNat_ofNat]
    omega
  · rw [atomOf, haddr, hB]
    omega

/-- A sector reads as it was last written if its vblock has been resident ever since. -/
theorem sectorByte_run {pool : Buffer} {map : Fin cachePoolSize → BitVec 64}
    {ws1 ws2 : List (Nat × Buffer)} {s : Nat} {d : Buffer}
    (hbound : ∀ w ∈ (s, d) :: ws2, w.1 * sectorBytes < 2 ^ 64) (hlatest : ∀ w ∈ ws2, w.1 ≠ s)
    (hstays : ∀ p, p <+: ws2 →
      ((construct pool map).run ((ws1 ++ (s, d) :: p).map sectorOp)).Resident (vblockOfSector s))
    {k : Nat} (hk : k < sectorBytes) :
    sectorByte ((construct pool map).run ((ws1 ++ (s, d) :: ws2).map sectorOp))
      (BitVec.ofNat 64 (s * sectorBytes)) k = d k := by
  have hS : sectorBytes = 512 := rfl
  have hB : blockBytes = 16384 := rfl
  have hs : s * sectorBytes < 2 ^ 64 := hbound (s, d) List.mem_cons_self
  have hrefines (p : List (Nat × Buffer)) :
      Refines ((construct pool map).run ((ws1 ++ (s, d) :: p).map sectorOp))
        (((ws1 ++ (s, d) :: p).map sectorOp).foldl Op.spec Cache.empty) := by
    apply (refines_construct pool map).run
    intro op hop
    obtain ⟨w, -, rfl⟩ := List.mem_map.mp hop
    exact sectorOp_inBlock w
  have hspec (p : List (Nat × Buffer)) :
      ((ws1 ++ (s, d) :: p).map sectorOp).foldl Op.spec Cache.empty =
        ((Cache.empty.run cachePoolSize (ws1.map sectorStore)).store cachePoolSize
          (vblockOfSector s) (sectorStore (s, d)).2).run cachePoolSize (p.map sectorStore) := by
    have h := specRun_sectorOps (ws1 ++ (s, d) :: p)
    rw [specRun] at h
    rw [h, List.map_append, List.map_cons, Lib.FifoCache.run_append]
    rfl
  have hlt : s * sectorBytes % blockBytes + k < blockBytes := by
    rw [hS] at hk
    rw [hS, hB]
    omega
  have hcontent : (((ws1 ++ (s, d) :: ws2).map sectorOp).foldl Op.spec Cache.empty).content
      (vblockOfSector s) ⟨s * sectorBytes % blockBytes + k, hlt⟩ = some (d k) := by
    rw [hspec, content_run_of_resident]
    · exact content_store_self _ _ _ (rangeBytes_sector hs d hk _ rfl)
    · intro p hp
      obtain ⟨q, hq, rfl⟩ := List.prefix_map_iff.mp hp
      have hres := ((hrefines q).resident_iff _).mp (hstays q hq)
      rwa [hspec] at hres
    · intro w hw
      obtain ⟨w, hmem, rfl⟩ := List.mem_map.mp hw
      exact fun hv => rangeBytes_other hs (hbound w (List.mem_cons_of_mem _ hmem))
        (hlatest w hmem) hv w.2 hk _ rfl
  have hresident := ((hrefines ws2).resident_iff _).mp (hstays ws2 (List.prefix_refl _))
  obtain ⟨hv, hatom⟩ := sector_address hs hk
  rw [← hv] at hresident hcontent
  exact (hrefines ws2).fetch_data hresident (Nat.mod_lt k (by decide)) (by
    simpa only [hatom] using hcontent)

/-- Requests have an outcome if there is no disk or if what they write folds. -/
theorem exists_serveAll (svc : Service) (rs : List Request)
    (hfold : ∀ lba count buf, .write lba count buf ∈ rs → svc.Foldable count buf) :
    ∃ svc', svc.serveAll rs = some svc' := by
  induction rs generalizing svc with
  | nil => exact ⟨svc, rfl⟩
  | cons r rs ih =>
    obtain ⟨mid, hserve, hmid⟩ : ∃ mid, svc.serve r = some mid ∧
        (mid.physicalDisk = none ↔ svc.physicalDisk = none) := by
      cases r with
      | read lba count buf =>
        refine ⟨_, rfl, ?_⟩
        simp only [Service.serveRead]
        split <;> exact Iff.rfl
      | write lba count buf =>
        obtain ⟨answer, hanswer⟩ :=
          Service.exists_serveWrite_iff.mpr (hfold lba count buf List.mem_cons_self)
        obtain ⟨svc', hloop, rfl⟩ := Option.map_eq_some_iff.mp hanswer
        exact ⟨svc', by rw [Service.serve, hanswer]; rfl, (writeSectors_frame hloop).2.2⟩
    obtain ⟨svc', hrest⟩ := ih mid fun lba count buf hmem i hi => by
      rw [hmid]
      exact hfold lba count buf (List.mem_cons_of_mem r hmem) i hi
    exact ⟨svc', by rw [Service.serveAll, hserve]; exact hrest⟩

/-- Each sector of a read is what the last write of it in the run put there. -/
def ReturnsLatest (svc : Service) (rs : List Request) (guestLba : BitVec 64)
    (sectorCount : BitVec 32) (out : Buffer) : Prop :=
  ∀ i < sectorCount.toNat, ∀ ws1 d ws2,
    allSectorWrites rs = ws1 ++ (guestLba.toNat + i, d) :: ws2 →
    (∀ w ∈ ws2, w.1 ≠ guestLba.toNat + i) → ∀ k < sectorBytes,
      (svc.serveRead guestLba sectorCount out).2.2 (sectorBytes * i + k) = d k

/-- After the sector writes ws1 and that of s, the vblock of s stays resident through ws2. -/
def StaysResident (m : SubstrateManifold) (ws1 : List (Nat × Buffer)) (s : Nat) (d : Buffer)
    (ws2 : List (Nat × Buffer)) : Prop :=
  ∀ p, p <+: ws2 → (m.run ((ws1 ++ (s, d) :: p).map sectorOp)).Resident (vblockOfSector s)

/-- As long as the run writes at most 1024 vblocks they all stay. -/
theorem staysResident_of_room (pool : Buffer) (map : Fin cachePoolSize → BitVec 64)
    {ws1 : List (Nat × Buffer)} {s : Nat} {d : Buffer} {ws2 : List (Nat × Buffer)}
    (hroom : (workingSet ((ws1 ++ (s, d) :: ws2).map sectorOp)).card ≤ cachePoolSize) :
    StaysResident (construct pool map) ws1 s d ws2 := by
  intro p hp
  have hwritten : vblockOfSector s ∈ workingSet ((ws1 ++ (s, d) :: p).map sectorOp) := by
    rw [workingSet, List.mem_toFinset, List.mem_flatMap]
    refine ⟨sectorOp (s, d), List.mem_map_of_mem ?_, List.mem_singleton_self _⟩
    exact List.mem_append_right _ List.mem_cons_self
  have hsub : ∀ op ∈ (ws1 ++ (s, d) :: p).map sectorOp, ∀ v ∈ op.vblocks,
      v ∈ workingSet ((ws1 ++ (s, d) :: ws2).map sectorOp) := by
    intro op hop v hv
    obtain ⟨w, hw, rfl⟩ := List.mem_map.mp hop
    rw [workingSet, List.mem_toFinset, List.mem_flatMap]
    refine ⟨sectorOp w, List.mem_map_of_mem ?_, hv⟩
    exact (List.prefix_append_right_inj ws1).mpr (List.cons_prefix_cons.mpr ⟨rfl, hp⟩) |>.subset hw
  have hflat := (flat_construct pool map hroom).run (fun op hop => ?_) hsub
  · rw [hflat.resident_iff]
    exact mem_opened_flatRun (.inr hwritten)
  · obtain ⟨w, -, rfl⟩ := List.mem_map.mp hop
    have hin := sectorOp_inBlock w
    rw [sectorOp, Op.StaysInBlock, atomOf_of_aligned hin.1]
    exact hin.2.2

theorem allSectorWrites_bound {build : Build} {rs : List Request}
    (hrs : ∀ r ∈ rs, r.Admissible build) {w : Nat × Buffer} (hw : w ∈ allSectorWrites rs) :
    w.1 * sectorBytes < 2 ^ 64 := by
  obtain ⟨r, hr, hmem⟩ := List.mem_flatMap.mp hw
  cases r with
  | read lba count buf => simp [Request.sectorWrites] at hmem
  | write lba count buf =>
    obtain ⟨i, hi, rfl⟩ := List.mem_map.mp hmem
    have hlt := (hrs _ hr).1 i (List.mem_range.mp hi)
    have hcap := build.capacityBytes.isLt
    simp only [Request.guestLba] at hlt ⊢
    omega

/-- What an accepted read puts into the buffer, sector by sector. -/
theorem serveRead_sector {svc : Service} {guestLba : BitVec 64} {sectorCount : BitVec 32}
    (hcount : sectorCount.toNat < 2 ^ 23) {out : Buffer}
    (h : (svc.serveRead guestLba sectorCount out).1 = true) {i k : Nat}
    (hi : i < sectorCount.toNat) (hk : k < sectorBytes) :
    (svc.serveRead guestLba sectorCount out).2.2 (sectorBytes * i + k) =
      sectorByte svc.manifold (sectorVaddr guestLba i) k := by
  have hS : sectorBytes = 512 := rfl
  have hread := svc.serveRead_eq guestLba sectorCount out
  rw [congrArg Prod.fst hread] at h
  rw [congrArg Prod.snd hread, readSectors_snd (by omega) h]
  rw [hS] at hk ⊢
  rw [if_pos (by omega), show (512 * i + k) / 512 = i by omega,
    show (512 * i + k) % 512 = k by omega]

/-- A run of requests over a fresh manifold: a read inside the capacity is accepted, and each
of its sectors that was written and has stayed in the cache since is the latest one. -/
theorem serveRead_returns_resident (build : Build) (pool : Buffer)
    (map : Fin cachePoolSize → BitVec 64) (phys : Option (List JournalWrite)) (rs : List Request)
    (hrs : ∀ r ∈ rs, r.Admissible build) (svc : Service)
    (hrun : (Service.new build (construct pool map) phys).serveAll rs = some svc)
    (guestLba : BitVec 64) (sectorCount : BitVec 32) (out : Buffer)
    (hread : (Request.read guestLba sectorCount out).Admissible build) :
    (svc.serveRead guestLba sectorCount out).1 = true ∧
      ∀ i < sectorCount.toNat, ∀ ws1 d ws2,
        allSectorWrites rs = ws1 ++ (guestLba.toNat + i, d) :: ws2 →
        (∀ w ∈ ws2, w.1 ≠ guestLba.toNat + i) →
        StaysResident (construct pool map) ws1 (guestLba.toNat + i) d ws2 →
        ∀ k < sectorBytes,
          (svc.serveRead guestLba sectorCount out).2.2 (sectorBytes * i + k) = d k := by
  obtain ⟨hm, hcap⟩ := serveAll_frame hrs hrun
  have hcount : sectorCount.toNat < 2 ^ 23 := hread.2
  have haccept : (svc.serveRead guestLba sectorCount out).1 = true := by
    apply Service.serveRead_of_inCapacity
    intro i hi
    rw [Service.getCapacity, hcap]
    exact hread.1 i hi
  refine ⟨haccept, fun i hi ws1 d ws2 hws hlatest hstays k hk => ?_⟩
  rw [serveRead_sector hcount haccept hi hk, sectorVaddr_eq, hm, hws]
  refine sectorByte_run (fun w hw => ?_) hlatest hstays hk
  apply allSectorWrites_bound hrs
  rw [hws]
  exact List.mem_append_right _ hw

/-- Sector 3 is written twice, then its neighbour and two sectors of other vblocks. -/
def interleaved : List Request :=
  [.write 3 1 fun _ => 1, .write 3 1 fun _ => 7, .write 40 1 fun _ => 8, .read 40 1 fun _ => 0,
    .write 4 1 fun _ => 9, .write 1000 1 fun _ => 5]

theorem serveRead_returns_resident_interleaved :
    ∃ svc, (Service.new .enterprise (construct (fun _ => 0xEE) fun _ => 2) none).serveAll
        interleaved = some svc ∧
      (svc.serveRead 3 2 fun _ => 0).2.2 5 = 7 ∧ (svc.serveRead 3 2 fun _ => 0).2.2 517 = 9 := by
  have hrs : ∀ r ∈ interleaved, r.Admissible .enterprise := by
    simp [interleaved, Request.Admissible, Request.sectorCount, Request.guestLba, sectorBytes,
      Build.capacityBytes]
  have hread : (Request.read 3 2 fun _ => 0).Admissible .enterprise := by
    constructor
    · decide
    · decide
  obtain ⟨svc, hrun⟩ := exists_serveAll
    (Service.new .enterprise (construct (fun _ => 0xEE) fun _ => 2) none) interleaved
    fun _ _ _ _ _ _ => .inl rfl
  have hsectors := (serveRead_returns_resident .enterprise (fun _ => 0xEE) (fun _ => 2) none
    interleaved hrs svc hrun 3 2 (fun _ => 0) hread).2
  refine ⟨svc, hrun, ?_, ?_⟩
  · exact hsectors 0 (by decide) [(3, fun _ => 1)] (fun _ => 7)
      [(40, fun _ => 8), (4, fun _ => 9), (1000, fun _ => 5)] rfl (by simp)
      (staysResident_of_room _ _ (by decide)) 5 (by decide)
  · exact hsectors 1 (by decide) [(3, fun _ => 1), (3, fun _ => 7), (40, fun _ => 8)] (fun _ => 9)
      [(1000, fun _ => 5)] rfl (by simp) (staysResident_of_room _ _ (by decide)) 5 (by decide)

/-- 1025 writes of one sector, each into a vblock of its own. -/
def evicting : List Request :=
  (List.range 1025).map fun j => .write (BitVec.ofNat 64 (32 * j)) 1 fun _ => 1

private theorem evicting_writes :
    allSectorWrites evicting = (List.range 1025).map fun j => (32 * j, fun _ => 1) := by
  have hwrites (l : List Nat) (hl : ∀ j ∈ l, j < 1025) :
      (l.map fun j => Request.write (BitVec.ofNat 64 (32 * j)) 1 fun _ => 1).flatMap
        Request.sectorWrites = l.map fun j => (32 * j, fun _ => 1) := by
    induction l with
    | nil => rfl
    | cons j l ih =>
      have hj := hl j List.mem_cons_self
      have hnat : (BitVec.ofNat 64 (32 * j)).toNat = 32 * j := by
        simp only [BitVec.toNat_ofNat]
        omega
      rw [List.map_cons, List.flatMap_cons, ih fun j' hj' => hl j' (List.mem_cons_of_mem j hj'),
        List.map_cons, sectorWrites_single, hnat]
      rfl
  exact hwrites _ fun j hj => List.mem_range.mp hj

private theorem evicting_ops :
    (allSectorWrites evicting).map sectorOp = fill (fun _ => 512) (fun _ => 1) 1025 := by
  rw [evicting_writes, fill, List.map_map]
  apply List.map_congr_left
  intro j _
  simp only [Function.comp_apply, sectorOp, fillOp, sectorBytes, blockBytes, Op.materialize.injEq,
    and_true]
  congr 1
  omega

/-- The 1025th vblock displaces vblock 0; sector 0 then reads as zeros. -/
theorem not_returnsLatest_after_eviction :
    (∀ r ∈ evicting, r.Admissible .enterprise) ∧
      ∃ svc, (Service.new .enterprise zeroed none).serveAll evicting = some svc ∧
        (svc.serveRead 0 1 fun _ => 0).1 = true ∧ ¬ReturnsLatest svc evicting 0 1 fun _ => 0 := by
  have hrs : ∀ r ∈ evicting, r.Admissible .enterprise := by
    intro r hr
    obtain ⟨j, hj, rfl⟩ := List.mem_map.mp hr
    have hlt := List.mem_range.mp hj
    have hone : (1 : BitVec 32).toNat = 1 := rfl
    have hcap : Build.enterprise.capacityBytes.toNat = 10 * 1024 ^ 4 := rfl
    simp only [Request.Admissible, Request.sectorCount, Request.guestLba, BitVec.toNat_ofNat, hcap,
      hone, sectorBytes]
    exact ⟨fun i hi => by omega, by decide⟩
  obtain ⟨svc, hrun⟩ := exists_serveAll (Service.new .enterprise zeroed none) evicting
    fun _ _ _ _ _ _ => .inl rfl
  obtain ⟨hm, hcap⟩ := serveAll_frame hrs hrun
  rw [evicting_ops] at hm
  have haccept : (svc.serveRead 0 1 fun _ => 0).1 = true := by
    apply Service.serveRead_of_inCapacity
    rw [Service.InCapacity, Service.getCapacity, hcap]
    decide
  refine ⟨hrs, svc, hrun, haccept, fun h => ?_⟩
  have habsent : ¬svc.manifold.Resident
      (vblockOf (sectorVaddr 0 0 + BitVec.ofNat 64 (16 * (0 / 16)))) := by
    rw [hm, show vblockOf (sectorVaddr 0 0 + BitVec.ofNat 64 (16 * (0 / 16))) =
      BitVec.ofNat 64 0 by decide]
    exact evicted_fill (fun _ => by decide) _ (by decide) (by decide)
  have hfirst : allSectorWrites evicting =
      [] ++ (0, fun _ => 1) :: (List.range 1024).map fun j => (32 * (j + 1), fun _ => 1) := by
    rw [evicting_writes, List.range_succ_eq_map, List.map_cons, List.map_map]
    rfl
  have hlater : ∀ w ∈ (List.range 1024).map fun j => (32 * (j + 1), (fun _ => 1 : Buffer)),
      w.1 ≠ 0 := by
    intro w hw
    obtain ⟨j, -, rfl⟩ := List.mem_map.mp hw
    simp only
    omega
  have hlatest := h 0 (by decide) [] (fun _ => 1) _ hfirst hlater 0 (by decide)
  rw [serveRead_sector (by decide) haccept (by decide) (by decide), sectorByte,
    holographicFetch_absent habsent] at hlatest
  exact absurd hlatest (by decide)

end EmergenceOS.Vdev.SubstrateService
