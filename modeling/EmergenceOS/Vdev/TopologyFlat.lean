/- Module: EmergenceOS/Vdev/TopologyFlat
   digest: The manifold is plain memory while at most 1024 vblocks are written. -/

import EmergenceOS.Vdev.TopologyFilling

/-!
Nothing in the class limits the vblocks that a run writes. The pool has 1024 slots,
and a run that writes no more vblocks than that never takes a slot twice. What a slot
holds when it is taken is the memory's own business: it was there before.
-/

set_option autoImplicit false
set_option relaxedAutoImplicit false

namespace EmergenceOS.Vdev.Topology.SubstrateManifold

open EmergenceOS.Lib.Bytes

/-- One memory of 2^64 bytes, and the vblocks that have been written, the first one first. -/
structure FlatMemory where
  opened : List (BitVec 64)
  bytes : Buffer

namespace FlatMemory

def zeroed : FlatMemory := ⟨[], fun _ => 0⟩

/-- A vblock that is written for the first time brings the next 16 KiB of the pool along. -/
def openBlock (pool : Buffer) (f : FlatMemory) (v : BitVec 64) : FlatMemory :=
  if v ∈ f.opened then f
  else ⟨f.opened ++ [v],
    blit f.bytes (blockBytes * v.toNat) pool (blockBytes * f.opened.length) blockBytes⟩

end FlatMemory

/-- What an operation means for the memory: a write starts at the atom of its address. -/
def Op.flat (pool : Buffer) (f : FlatMemory) : Op → FlatMemory
  | .materialize vaddr data len =>
    let f := f.openBlock pool (vblockOf vaddr)
    { f with bytes := blit f.bytes (16 * (vaddr.toNat / 16)) data 0 len }
  | .fetch _ => f

def flatRun (pool : Buffer) (f : FlatMemory) (ops : List Op) : FlatMemory :=
  ops.foldl (Op.flat pool) f

/-- What a write stores, from the atom of its address on, ends inside the vblock. -/
def Op.StaysInBlock : Op → Prop
  | .materialize vaddr _ len => atomOf vaddr + len ≤ blockBytes
  | .fetch _ => True

/-- The vblocks that an operation writes. -/
def Op.vblocks : Op → List (BitVec 64)
  | .materialize vaddr _ _ => [vblockOf vaddr]
  | .fetch _ => []

/-- The different vblocks that a run writes. -/
def workingSet (ops : List Op) : Finset (BitVec 64) := (ops.flatMap Op.vblocks).toFinset

/-- The vblocks of S have room in the pool, those that were written are in it and the slots that
follow are as they were, and the manifold answers as the memory does. -/
structure Flat (m : SubstrateManifold) (pool : Buffer) (S : Finset (BitVec 64)) (f : FlatMemory) :
    Prop where
  room : S.card ≤ cachePoolSize
  nodup : f.opened.Nodup
  within : ∀ v ∈ f.opened, v ∈ S
  occupied : Occupied m f.opened.toFinset
  untouched : ∀ i : Fin cachePoolSize, f.opened.length ≤ i.val → ∀ o,
    m.slotBytes i o = pool (blockBytes * i.val + o.val)
  bytes : ∀ v (o : Fin blockBytes), m.byteOf v o.val = f.bytes (blockBytes * v.toNat + o.val)

theorem flat_construct (pool : Buffer) (map : Fin cachePoolSize → BitVec 64)
    {S : Finset (BitVec 64)} (hS : S.card ≤ cachePoolSize) :
    Flat (construct pool map) pool S .zeroed := by
  refine ⟨hS, List.nodup_nil, fun v hv => absurd hv List.not_mem_nil, occupied_construct pool map,
    fun _ _ _ => rfl, fun v o => ?_⟩
  apply byteOf_of_absent
  rw [findBlock_eq_none_iff, construct_slots]
  exact fun i h => by cases h

/-- A copy into one vblock, seen from any vblock. -/
theorem blit_in_vblock (mem data : Buffer) (u v : BitVec 64) (off : Nat) {first len : Nat}
    (hblock : first + len ≤ blockBytes) (o : Fin blockBytes) :
    blit mem (blockBytes * u.toNat + first) data off len (blockBytes * v.toNat + o.val) =
      if v = u ∧ first ≤ o.val ∧ o.val < first + len then data (off + (o.val - first))
      else mem (blockBytes * v.toNat + o.val) := by
  have ho := o.isLt
  have hne : v ≠ u → v.toNat ≠ u.toNat := fun hvu he => hvu (BitVec.eq_of_toNat_eq he)
  simp only [blockBytes] at ho hblock ⊢
  split
  · rename_i hin
    obtain ⟨rfl, hle, hlt⟩ := hin
    rw [blit_inside _ _ (by omega) (by omega)]
    congr 1
    omega
  · rename_i hout
    apply blit_outside
    by_cases hvu : v = u
    · subst hvu
      have hrange : ¬(first ≤ o.val ∧ o.val < first + len) := fun hin => hout ⟨rfl, hin⟩
      omega
    · have hdiff := hne hvu
      omega

theorem blit_whole_vblock (mem data : Buffer) (u v : BitVec 64) (off : Nat) (o : Fin blockBytes) :
    blit mem (blockBytes * u.toNat) data off blockBytes (blockBytes * v.toNat + o.val) =
      if v = u then data (off + o.val) else mem (blockBytes * v.toNat + o.val) := by
  have hcopy := blit_in_vblock mem data u v off (Nat.le_of_eq (Nat.zero_add blockBytes)) o
  rwa [Nat.add_zero, if_congr (and_iff_left ⟨Nat.zero_le _, by omega⟩) rfl rfl] at hcopy

section
variable {m : SubstrateManifold} {pool : Buffer} {S : Finset (BitVec 64)} {f : FlatMemory}

theorem Flat.card_opened (h : Flat m pool S f) : f.opened.toFinset.card = f.opened.length :=
  List.toFinset_card_of_nodup h.nodup

theorem Flat.room_insert (h : Flat m pool S f) {v : BitVec 64} (hv : v ∈ S) :
    (insert v f.opened.toFinset).card ≤ cachePoolSize := by
  refine (Finset.card_le_card (Finset.insert_subset hv fun u hu => ?_)).trans h.room
  exact h.within u (List.mem_toFinset.mp hu)

theorem FlatMemory.opened_openBlock (v : BitVec 64) :
    (f.openBlock pool v).opened.toFinset = insert v f.opened.toFinset := by
  unfold FlatMemory.openBlock
  split
  · rename_i hmem
    exact (Finset.insert_eq_of_mem (List.mem_toFinset.mpr hmem)).symm
  · rw [List.toFinset_append, List.toFinset_cons, List.toFinset_nil, Finset.union_comm]
    rfl

theorem FlatMemory.length_openBlock_le (v : BitVec 64) :
    (f.openBlock pool v).opened.length ≤ f.opened.length + 1 := by
  unfold FlatMemory.openBlock
  split
  · exact Nat.le_succ _
  · rw [List.length_append, List.length_singleton]

theorem FlatMemory.mem_openBlock {u v : BitVec 64} :
    v ∈ (f.openBlock pool u).opened ↔ v = u ∨ v ∈ f.opened := by
  rw [← List.mem_toFinset, FlatMemory.opened_openBlock, Finset.mem_insert, List.mem_toFinset]

theorem Flat.nodup_openBlock (h : Flat m pool S f) (v : BitVec 64) :
    (f.openBlock pool v).opened.Nodup := by
  unfold FlatMemory.openBlock
  split
  · exact h.nodup
  · rename_i hnew
    exact List.nodup_append.mpr ⟨h.nodup, List.nodup_singleton v, fun u hu w hw => by
      rw [List.mem_singleton.mp hw]
      rintro rfl
      exact hnew hu⟩

/-- Opened vblocks stay open, and a vblock that is written is one of them. -/
theorem mem_opened_flatRun {ops : List Op} {v : BitVec 64}
    (hv : v ∈ f.opened ∨ v ∈ workingSet ops) : v ∈ (flatRun pool f ops).opened := by
  induction ops generalizing f with
  | nil => exact hv.resolve_right (by simp [workingSet])
  | cons op ops ih =>
    refine ih ?_
    rw [workingSet, List.flatMap_cons, List.toFinset_append, Finset.mem_union] at hv
    cases op with
    | fetch vaddr => exact hv.imp_right fun h => h.resolve_left (by simp [Op.vblocks])
    | materialize vaddr data len =>
      rcases hv with hold | hnew | hlater
      · exact .inl (FlatMemory.mem_openBlock.mpr (.inr hold))
      · have hwritten := List.mem_singleton.mp (List.mem_toFinset.mp hnew)
        exact .inl (FlatMemory.mem_openBlock.mpr (.inl hwritten))
      · exact .inr hlater

/-- An opened vblock shows the storage it found, every other one what it was. -/
theorem FlatMemory.bytes_openBlock (u v : BitVec 64) (o : Fin blockBytes) :
    (f.openBlock pool u).bytes (blockBytes * v.toNat + o.val) =
      if v = u ∧ u ∉ f.opened then pool (blockBytes * f.opened.length + o.val)
      else f.bytes (blockBytes * v.toNat + o.val) := by
  unfold FlatMemory.openBlock
  by_cases hmem : u ∈ f.opened
  · rw [if_pos hmem, if_neg fun h => h.2 hmem]
  · rw [if_neg hmem]
    refine (blit_whole_vblock f.bytes pool u v (blockBytes * f.opened.length) o).trans ?_
    exact if_congr (and_iff_left hmem).symm rfl rfl

theorem atom_place (vaddr : BitVec 64) : 16 * (vaddr.toNat / 16) =
    blockBytes * (vblockOf vaddr).toNat + atomOf vaddr := by
  rw [toNat_vblockOf]
  simp only [atomOf, blockBytes]
  omega

/-- After a write the vblock is opened, and the range has the data. -/
theorem bytes_flat_materialize {vaddr : BitVec 64} {data : Buffer} {len : Nat}
    (hblock : atomOf vaddr + len ≤ blockBytes) (v : BitVec 64) (o : Fin blockBytes) :
    (Op.flat pool f (.materialize vaddr data len)).bytes (blockBytes * v.toNat + o.val) =
      if v = vblockOf vaddr ∧ atomOf vaddr ≤ o.val ∧ o.val < atomOf vaddr + len then
        data (o.val - atomOf vaddr)
      else (f.openBlock pool (vblockOf vaddr)).bytes (blockBytes * v.toNat + o.val) := by
  have hcopy := blit_in_vblock (f.openBlock pool (vblockOf vaddr)).bytes data (vblockOf vaddr) v
    0 hblock o
  rwa [← atom_place, Nat.zero_add] at hcopy

theorem Flat.findBlock_eq_none_iff (h : Flat m pool S f) (v : BitVec 64) :
    m.findBlock v = none ↔ v ∉ f.opened :=
  (h.occupied.findBlock_eq_none_iff v).trans (not_congr List.mem_toFinset)

/-- A new vblock gets the slot behind those that are taken. -/
theorem Flat.place_new (h : Flat m pool S f) {v : BitVec 64} (hv : v ∈ S)
    (hf : m.findBlock v = none) : (m.place v).1.val = f.opened.length := by
  have hcard := Finset.card_insert_of_notMem ((h.occupied.findBlock_eq_none_iff v).mp hf)
  have hroom := h.room_insert hv
  rw [(place_of_absent hf).1, h.occupied.victim_val (by omega), h.card_opened]

/-- Before the copy the slot of a vblock holds what the memory has in the opened vblock. -/
theorem Flat.slotBytes_place (h : Flat m pool S f) {v : BitVec 64} (hv : v ∈ S)
    (o : Fin blockBytes) : m.slotBytes (m.place v).1 o =
      (f.openBlock pool v).bytes (blockBytes * v.toNat + o.val) := by
  rw [FlatMemory.bytes_openBlock]
  cases hf : m.findBlock v with
  | some p =>
    have hmem : v ∈ f.opened := by
      by_contra hnot
      rw [(h.findBlock_eq_none_iff v).mpr hnot] at hf
      cases hf
    rw [if_neg fun hnew => hnew.2 hmem, place_of_findBlock hf, ← byteOf_of_findBlock hf, h.bytes]
  | none =>
    have hval := h.place_new hv hf
    rw [if_pos ⟨rfl, (h.findBlock_eq_none_iff v).mp hf⟩, h.untouched _ hval.ge, hval]

/-- The slot that a vblock gets is among the opened ones. -/
theorem Flat.place_lt (h : Flat m pool S f) {v : BitVec 64} (hv : v ∈ S) :
    (m.place v).1.val < (f.openBlock pool v).opened.length := by
  cases hf : m.findBlock v with
  | some p =>
    have hlt : p.val < f.opened.length := by
      by_contra hge
      have hvacant := h.occupied.vacant p (by rwa [h.card_opened, ← Nat.not_lt])
      rw [slots_of_findBlock hf] at hvacant
      cases hvacant
    rw [place_of_findBlock hf]
    exact hlt.trans_le (h.nodup.length_le_of_subset fun u hu =>
      FlatMemory.mem_openBlock.mpr (.inr hu))
  | none =>
    rw [h.place_new hv hf, FlatMemory.openBlock, if_neg ((h.findBlock_eq_none_iff v).mp hf),
      List.length_append, List.length_singleton]
    exact Nat.lt_succ_self _

theorem Flat.materialize (h : Flat m pool S f) {vaddr : BitVec 64} {data : Buffer} {len : Nat}
    (hblock : atomOf vaddr + len ≤ blockBytes) (hv : vblockOf vaddr ∈ S) :
    Flat (m.materializeRange vaddr data len) pool S
      (Op.flat pool f (.materialize vaddr data len)) := by
  have hroom := h.room_insert hv
  have haligned : (aligned vaddr).toNat % 16 = 0 := by
    rw [toNat_aligned]
    exact Nat.mul_mod_right 16 _
  have hatom : (aligned vaddr).toNat % blockBytes = atomOf vaddr := by
    rw [← atomOf_of_aligned haligned, atomOf_aligned]
  have hend : (aligned vaddr).toNat % blockBytes + len ≤ blockBytes := by rwa [hatom]
  rw [← materializeRange_aligned]
  have hnext := h.occupied.materializeRange (aligned vaddr) data len (by rwa [vblockOf_aligned])
  have hslots := slotBytes_materializeRange m data haligned hend
  have hbytes := h.occupied.byteOf_materializeRange data haligned hend
    (by rwa [vblockOf_aligned])
  rw [vblockOf_aligned] at hnext hslots hbytes
  have hopened : (Op.flat pool f (.materialize vaddr data len)).opened =
      (f.openBlock pool (vblockOf vaddr)).opened := rfl
  refine ⟨h.room, ?_, ?_, ?_, fun i hi o => ?_, fun v o => ?_⟩
  · rw [hopened]
    exact h.nodup_openBlock _
  · rw [hopened]
    intro v hmem
    rcases FlatMemory.mem_openBlock.mp hmem with rfl | hold
    · exact hv
    · exact h.within v hold
  · rw [hopened, FlatMemory.opened_openBlock]
    exact hnext
  · rw [hopened] at hi
    have hold := (h.nodup.length_le_of_subset fun u hu =>
      FlatMemory.mem_openBlock.mpr (.inr hu)).trans hi
    have hne : i ≠ (m.place (vblockOf vaddr)).1 := by
      rintro rfl
      exact absurd (h.place_lt hv) (Nat.not_lt.mpr hi)
    rw [hslots, if_neg hne, h.untouched i hold]
  · rw [hbytes, bytes_flat_materialize hblock]
    by_cases hvu : v = vblockOf vaddr
    · rw [if_pos hvu, hvu, h.slotBytes_place hv, rangeBytes, hatom]
      by_cases hin : atomOf vaddr ≤ o.val ∧ o.val < atomOf vaddr + len
      · rw [if_pos hin, if_pos ⟨rfl, hin⟩, Option.getD_some]
      · rw [if_neg hin, if_neg fun h => hin h.2, Option.getD_none]
    · rw [if_neg hvu, if_neg fun h => hvu h.1, h.bytes, FlatMemory.bytes_openBlock,
        if_neg fun h => hvu h.1]

theorem Flat.step (h : Flat m pool S f) {op : Op} (hop : op.StaysInBlock)
    (hS : ∀ v ∈ op.vblocks, v ∈ S) : Flat (op.apply m) pool S (op.flat pool f) := by
  cases op with
  | fetch vaddr =>
    rw [Op.apply, holographicFetch_snd]
    exact h
  | materialize vaddr data len => exact h.materialize hop (hS _ (List.mem_singleton_self _))

theorem Flat.run (h : Flat m pool S f) {ops : List Op} (hops : ∀ op ∈ ops, op.StaysInBlock)
    (hS : ∀ op ∈ ops, ∀ v ∈ op.vblocks, v ∈ S) :
    Flat (m.run ops) pool S (flatRun pool f ops) := by
  induction ops generalizing m f with
  | nil => exact h
  | cons op ops ih =>
    have hstep := h.step (hops op List.mem_cons_self) (hS op List.mem_cons_self)
    exact ih hstep (fun op' hop' => hops op' (List.mem_cons_of_mem op hop'))
      fun op' hop' => hS op' (List.mem_cons_of_mem op hop')

/-- A fetch reads the atom of its address. -/
theorem Flat.fetch_data (h : Flat m pool S f) (w : BitVec 64) {k : Nat} (hk : k < 16) :
    (m.holographicFetch w).1.data k = f.bytes (16 * (w.toNat / 16) + k) := by
  rw [holographicFetch_data _ _ hk, h.bytes _ ⟨atomOf w + k, atomOf_add_lt w hk⟩, toNat_vblockOf]
  congr 1
  simp only [atomOf, blockBytes]
  omega

theorem Flat.resident_iff (h : Flat m pool S f) (v : BitVec 64) : m.Resident v ↔ v ∈ f.opened := by
  rw [resident_iff_slots, h.occupied.resident, List.mem_toFinset]

end

/-- A run of fetches and writes inside one vblock each, on a fresh manifold, that writes at most
1024 different vblocks leaves every fetch what it is in plain memory, into which the pool's
storage comes along with each new vblock. -/
theorem run_refines_flat (pool : Buffer) (map : Fin cachePoolSize → BitVec 64) (ops : List Op)
    (hops : ∀ op ∈ ops, op.StaysInBlock) (hfit : (workingSet ops).card ≤ cachePoolSize)
    (w : BitVec 64) (k : Nat) (hk : k < 16) :
    (((construct pool map).run ops).holographicFetch w).1.data k =
      (flatRun pool .zeroed ops).bytes (16 * (w.toNat / 16) + k) := by
  have hflat := (flat_construct pool map hfit).run hops fun op hop v hv =>
    List.mem_toFinset.mpr (List.mem_flatMap.mpr ⟨op, hop, hv⟩)
  exact hflat.fetch_data w hk

/-- Writes at odd addresses into two vblocks: around them the storage shows, elsewhere zeros. -/
theorem run_refines_flat_two_blocks :
    let m := (construct (fun a => if a < blockBytes then 1 else 2) fun _ => 5).run
      [.materialize 8 (fun _ => 7) 8, .materialize 0x8003 (fun _ => 9) 20, .fetch 0]
    (m.holographicFetch 3).1.data 7 = 7 ∧ (m.holographicFetch 8).1.data 9 = 1 ∧
      (m.holographicFetch 0x8010).1.data 3 = 9 ∧ (m.holographicFetch 0x8010).1.data 4 = 2 ∧
      (m.holographicFetch 0x4000).1.data 0 = 0 := by
  intro m
  have hflat := run_refines_flat (fun a => if a < blockBytes then 1 else 2) (fun _ => 5)
    [.materialize 8 (fun _ => 7) 8, .materialize 0x8003 (fun _ => 9) 20, .fetch 0]
    (by simp [Op.StaysInBlock, atomOf, blockBytes]) (by decide)
  exact ⟨(hflat 3 7 (by decide)).trans (by decide), (hflat 8 9 (by decide)).trans (by decide),
    (hflat 0x8010 3 (by decide)).trans (by decide), (hflat 0x8010 4 (by decide)).trans (by decide),
    (hflat 0x4000 0 (by decide)).trans (by decide)⟩

end EmergenceOS.Vdev.Topology.SubstrateManifold
