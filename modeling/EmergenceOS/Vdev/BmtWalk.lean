/- Module: EmergenceOS/Vdev/BmtWalk
   digest: In every reachable topology all checksums hold and every walk moves forward. -/

import EmergenceOS.Vdev.BmtImage
import Mathlib.Data.Fintype.Card

/-!
set_payload leaves a stale checksum and pack_route repairs it, so an entry is valid
as soon as its last change was a pack_route. The codes packed are FREE, HALT and the
index of the next entry: a walk can only move forward or stop.
-/

set_option autoImplicit false
set_option relaxedAutoImplicit false

namespace EmergenceOS.Vdev.BmtTopology

open EmergenceOS.Lib.Bytes EmergenceOS.Lib.ByteFile

namespace Value128

def crc (v : Value128) : Byte := (v.hi >>> 52).setWidth 8 &&& 0x03

def crcValid (v : Value128) : Bool := v.crc == v.computeCrc

theorem crc_getLsbD (v : Value128) (c : Nat) :
    v.crc.getLsbD c = (decide (c < 2) && v.hi.getLsbD (52 + c)) := by
  rw [crc, BitVec.getLsbD_and, BitVec.getLsbD_setWidth, BitVec.getLsbD_ushiftRight,
    crcMask_getLsbD]
  by_cases hc : c < 2
  · simp [hc, show c < 8 by omega]
  · simp [hc]

/-- The checksum looks at the payload only. -/
theorem computeCrc_congr {v v' : Value128} (hlo : v.lo = v'.lo)
    (hhi : ∀ i < 52, v.hi.getLsbD i = v'.hi.getLsbD i) : v.computeCrc = v'.computeCrc := by
  have hpayload : v.hi &&& 0x000FFFFFFFFFFFFF = v'.hi &&& 0x000FFFFFFFFFFFFF := by
    apply BitVec.eq_of_getLsbD_eq
    intro i hi
    rw [BitVec.getLsbD_and, BitVec.getLsbD_and, payloadMask_getLsbD]
    by_cases h52 : i < 52
    · rw [hhi i h52]
    · simp only [h52, decide_false, Bool.and_false]
  unfold computeCrc
  rw [hlo, hpayload]

theorem computeCrc_getLsbD_of_ge (v : Value128) {i : Nat} (hi : 2 ≤ i) :
    v.computeCrc.getLsbD i = false := by
  have hmask : (0x03 : BitVec 64).getLsbD i = decide (i < 2) :=
    getLsbD_lowMask (w := 64) (n := 2) (by decide) i
  rw [decide_eq_false (by omega)] at hmask
  simp only [computeCrc, BitVec.getLsbD_setWidth, BitVec.getLsbD_and, hmask, Bool.and_false]

theorem computeCrc_packRoute (v : Value128) (r : BitVec 16) :
    (v.packRoute r).computeCrc = v.computeCrc :=
  computeCrc_congr rfl fun _ hi => packRoute_payloadBit v r hi

theorem packRoute_crcBit (v : Value128) (r : BitVec 16) {i : Nat} (hi : i < 2) :
    (v.packRoute r).hi.getLsbD (52 + i) = v.computeCrc.getLsbD i := by
  -- the checksum is taken after the route bits went in, which it does not see
  have hcrc : (Value128.mk ((v.hi &&& (0x000FFFFFFFFFFFFF : BitVec 64)) |||
      ((r &&& lensMask).setWidth 64 <<< 54)) v.lo).computeCrc = v.computeCrc := by
    refine computeCrc_congr rfl fun k hk => ?_
    simp only [BitVec.getLsbD_or, BitVec.getLsbD_and, payloadMask_getLsbD,
      BitVec.getLsbD_shiftLeft]
    simp [hk, show k < 54 by omega]
  simp only [packRoute, hcrc, BitVec.getLsbD_or, BitVec.getLsbD_and, payloadMask_getLsbD,
    BitVec.getLsbD_shiftLeft, BitVec.getLsbD_setWidth, crcMask_getLsbD]
  simp [hi, show ¬52 + i < 52 by omega, show 52 + i < 64 by omega, show 52 + i < 54 by omega,
    show i < 64 by omega]

theorem crcValid_packRoute (v : Value128) (r : BitVec 16) : (v.packRoute r).crcValid := by
  rw [crcValid, beq_iff_eq, computeCrc_packRoute]
  apply BitVec.eq_of_getLsbD_eq
  intro i hi
  rw [crc_getLsbD]
  by_cases h2 : i < 2
  · rw [packRoute_crcBit v r h2]
    simp [hi, h2]
  · rw [computeCrc_getLsbD_of_ge v (by omega)]
    simp [h2]

/-- An entry whose checksum holds and whose route, if it is not a stop, is the next index. -/
structure ForwardAt (v : Value128) (e : Nat) : Prop where
  crc : v.crcValid
  route : v.route = haltRoute ∨ v.route = freeRoute ∨ v.route = BitVec.ofNat 16 (e + 1)

theorem packRoute_halt_forwardAt (v : Value128) (e : Nat) :
    (v.packRoute haltRoute).ForwardAt e :=
  ⟨crcValid_packRoute v haltRoute, Or.inl (route_packRoute v haltRoute)⟩

theorem packRoute_free_forwardAt (v : Value128) (e : Nat) :
    (v.packRoute freeRoute).ForwardAt e :=
  ⟨crcValid_packRoute v freeRoute, Or.inr (Or.inl (route_packRoute v freeRoute))⟩

theorem packRoute_next_forwardAt (v : Value128) {e : Nat} (he : e + 1 < entriesPerBlock) :
    (v.packRoute (BitVec.ofNat 16 (e + 1))).ForwardAt e := by
  refine ⟨crcValid_packRoute v _, Or.inr (Or.inr ?_)⟩
  rw [route_packRoute, ofNat_and_lensMask he]

end Value128

namespace Block

def Forward (b : Block) : Prop := ∀ e : Fin entriesPerBlock, (b.entries e).ForwardAt e.val

theorem new_forward : Block.new.Forward := fun e => Value128.packRoute_free_forwardAt _ e.val

theorem expandedBlock_forward (lk : LensKey) : (expandedBlock lk).Forward :=
  fun e => Value128.packRoute_free_forwardAt _ e.val

theorem written_forward (b : Block) (data : Buffer) (d len : Nat) :
    (b.written data d len).Forward := by
  intro e
  simp only [written]
  split
  · simp only [hop]
    split
    · rename_i hnext
      exact Value128.packRoute_next_forwardAt _ hnext.2
    · exact Value128.packRoute_halt_forwardAt _ e.val
  · exact Value128.packRoute_free_forwardAt _ e.val

end Block

/-- One turn of read_block_data: the payload of entry e goes to the end of what was read. -/
def copyHop (es : Fin entriesPerBlock → Value128) (o maxLen : Nat) (s : Nat × Buffer)
    (e : Fin entriesPerBlock) : Nat × Buffer :=
  let got := (es e).getPayload (fun _ => 0) payloadBytesPerHop
  let cp := min got.1 (maxLen - s.1)
  (s.1 + cp, blit s.2 (o + s.1) got.2 0 cp)

/-- The entries that read_block_data visits. -/
def hops (es : Fin entriesPerBlock → Value128) (maxLen total entry : Nat) :
    List (Fin entriesPerBlock) :=
  if h : total < maxLen ∧ entry < entriesPerBlock then
    let v := es ⟨entry, h.2⟩
    let cp := min payloadBytesPerHop (maxLen - total)
    ⟨entry, h.2⟩ ::
      if v.route = haltRoute ∨ v.route = freeRoute then []
      else if v.route.toNat < entriesPerBlock then hops es maxLen (total + cp) v.route.toNat
      else []
  else []
termination_by maxLen - total
decreasing_by
  simp only [payloadBytesPerHop]
  omega

/-- The reader is its loop body run over the entries visited. -/
theorem readHops_eq_foldl (es : Fin entriesPerBlock → Value128) (out : Buffer)
    (o maxLen total entry : Nat) :
    readHops es out o maxLen total entry =
      (hops es maxLen total entry).foldl (copyHop es o maxLen) (total, out) := by
  obtain ⟨n, hn⟩ : ∃ n, maxLen ≤ total + n := ⟨maxLen, by omega⟩
  induction n generalizing total entry out with
  | zero =>
    rw [readHops, hops, dif_neg (by omega), dif_neg (by omega)]
    rfl
  | succ n ih =>
    rw [readHops, hops]
    by_cases h : total < maxLen ∧ entry < entriesPerBlock
    · rw [dif_pos h, dif_pos h]
      simp only [List.foldl_cons]
      split
      · rfl
      · split
        · refine ih _ _ _ ?_
          rw [Value128.getPayload_hop, payloadBytesPerHop]
          omega
        · rfl
    · rw [dif_neg h, dif_neg h]
      rfl

theorem foldl_copyHop_le (es : Fin entriesPerBlock → Value128) (o maxLen : Nat)
    (l : List (Fin entriesPerBlock)) (s : Nat × Buffer) :
    (l.foldl (copyHop es o maxLen) s).1 ≤ s.1 + payloadBytesPerHop * l.length := by
  induction l generalizing s with
  | nil => exact Nat.le_refl _
  | cons e l ih =>
    have hcopy : (copyHop es o maxLen s e).1 ≤ s.1 + payloadBytesPerHop :=
      Nat.add_le_add_left (Nat.min_le_left _ _) _
    have hrest := ih (copyHop es o maxLen s e)
    rw [List.foldl_cons, List.length_cons, Nat.mul_succ]
    omega

/-- Routes that only stop or point to the next entry make the walk strictly increasing. -/
theorem hops_increasing {b : Block} (hb : b.Forward) (maxLen total entry : Nat) :
    (hops b.entries maxLen total entry).Pairwise (· < ·) ∧
      ∀ e ∈ hops b.entries maxLen total entry, entry ≤ e.val := by
  obtain ⟨n, hn⟩ : ∃ n, maxLen ≤ total + n := ⟨maxLen, by omega⟩
  induction n generalizing total entry with
  | zero =>
    rw [hops, dif_neg (by omega)]
    exact ⟨List.Pairwise.nil, fun e he => absurd he List.not_mem_nil⟩
  | succ n ih =>
    rw [hops]
    by_cases h : total < maxLen ∧ entry < entriesPerBlock
    · rw [dif_pos h]
      simp only
      split
      · exact ⟨List.pairwise_singleton _ _, fun e he => by simp_all⟩
      · rename_i hstop
        obtain ⟨hhalt, hfree⟩ := not_or.mp hstop
        have hnext := ((hb ⟨entry, h.2⟩).route.resolve_left hhalt).resolve_left hfree
        have hnat : (BitVec.ofNat 16 (entry + 1)).toNat = entry + 1 := by
          have hE : entriesPerBlock = 1024 := rfl
          rw [BitVec.toNat_ofNat]
          omega
        rw [hnext, hnat]
        split
        · obtain ⟨hpair, hle⟩ := ih (total + min payloadBytesPerHop (maxLen - total)) (entry + 1)
            (by simp only [payloadBytesPerHop]; omega)
          refine ⟨List.pairwise_cons.mpr ⟨fun e he => hle e he, hpair⟩, fun e he => ?_⟩
          rcases List.mem_cons.mp he with rfl | he
          · exact Nat.le_refl _
          · exact Nat.le_of_succ_le (hle e he)
        · exact ⟨List.pairwise_singleton _ _, fun e he => by simp_all⟩
    · rw [dif_neg h]
      exact ⟨List.Pairwise.nil, fun e he => absurd he List.not_mem_nil⟩

theorem length_le_of_increasing {n : Nat} {l : List (Fin n)} (h : l.Pairwise (· < ·)) :
    l.length ≤ n := by
  have hnodup : l.Nodup := h.imp ne_of_lt
  simpa using hnodup.length_le_card

/-- All checksums hold; every walk from entry 0 moves forward and is over after 1024 hops. -/
structure Block.Walkable (b : Block) : Prop where
  crc : ∀ e, (b.entries e).crcValid
  increasing : ∀ maxLen, (hops b.entries maxLen 0 0).Pairwise (· < ·)
  length : ∀ maxLen, (hops b.entries maxLen 0 0).length ≤ entriesPerBlock

theorem Block.Forward.walkable {b : Block} (hb : b.Forward) : b.Walkable :=
  ⟨fun e => (hb e).crc, fun maxLen => (hops_increasing hb maxLen 0 0).1,
    fun maxLen => length_le_of_increasing (hops_increasing hb maxLen 0 0).1⟩

theorem Block.Walkable.readHops_le {b : Block} (hb : b.Walkable) (out : Buffer) (o maxLen : Nat) :
    (readHops b.entries out o maxLen 0 0).1 ≤ bytesPerBlock := by
  have hfold := foldl_copyHop_le b.entries o maxLen (hops b.entries maxLen 0 0) (0, out)
  have hlen := Nat.mul_le_mul_left payloadBytesPerHop (hb.length maxLen)
  rw [← readHops_eq_foldl] at hfold
  simp only [bytesPerBlock, Nat.mul_comm entriesPerBlock] at hfold hlen ⊢
  omega

namespace Topology

/-- The topologies that initialize, the operations on blocks and stored images lead to.
An image goes into any object, with the seed it was saved under. -/
inductive Reachable : Topology → Prop
  | initializeWith (t : Topology) (s : Seed) : Reachable (t.initializeWith s)
  | apply {t : Topology} (op : DataOp) : Reachable t → Reachable (t.apply op)
  | expandBlock {t : Topology} (i : Fin lensCount) : Reachable t → Reachable (t.expandBlock i)
  | loadImage {t : Topology} (target : Topology) (canOpen : Bool) (before : Option File)
      (file : File) : Reachable t → t.saveImage canOpen before = (true, some file) →
      Reachable (target.loadImage (some file) t.seed).2

/-- What every operation keeps: the fields of initialize and forward routes in every block. -/
structure Sound (t : Topology) : Prop where
  setUp : SetUp t.seed t
  root : t.root.Forward
  level1 : ∀ i b, t.level1 i = some b → b.Forward

theorem update_forward {level1 : Fin lensCount → Option Block}
    (h : ∀ i b, level1 i = some b → b.Forward) (j : Fin lensCount) {b' : Option Block}
    (hb' : ∀ b, b' = some b → b.Forward) :
    ∀ i b, Function.update level1 j b' i = some b → b.Forward := by
  intro i b hi
  by_cases hij : i = j
  · subst hij
    rw [Function.update_self] at hi
    exact hb' b hi
  · rw [Function.update_of_ne hij] at hi
    exact h i b hi

theorem initializeWith_sound (t : Topology) (s : Seed) : (t.initializeWith s).Sound := by
  have hsetUp := initializeWith_setUp t s
  refine ⟨?_, ?_, fun i b hb => ?_⟩
  · rwa [hsetUp.seed]
  · rw [hsetUp.root]
    exact Block.new_forward
  · rw [initializeWith_eq, Option.some.injEq] at hb
    rw [← hb]
    exact Block.expandedBlock_forward _

theorem expandBlock_sound {t : Topology} (ht : t.Sound) (i : Fin lensCount) :
    (t.expandBlock i).Sound := by
  refine ⟨⟨rfl, ht.setUp.lensKeys, ht.setUp.root, fun j => ?_⟩, ht.root,
    update_forward ht.level1 i fun b hb => ?_⟩
  · by_cases hij : j = i
    · subst hij
      simpa only [expandBlock, Function.update_self, Option.isSome_map] using ht.setUp.level1 j
    · simpa only [expandBlock, Function.update_of_ne hij] using ht.setUp.level1 j
  · obtain ⟨_, _, rfl⟩ := Option.map_eq_some_iff.mp hb
    exact Block.expandedBlock_forward _

theorem writeBlockData_forward {t : Topology} (ht : ∀ i b, t.level1 i = some b → b.Forward)
    (idx : BitVec 16) (data : Buffer) (d len : Nat) :
    ∀ i b, (t.writeBlockData idx data d len).2.level1 i = some b → b.Forward := by
  by_cases h : idx.toNat < lensCount
  · cases hb : t.level1 ⟨idx.toNat, h⟩ with
    | none => simpa only [writeBlockData, dif_pos h, hb] using ht
    | some block =>
      rw [writeBlockData_eq h hb]
      exact update_forward ht _ fun b hb => Option.some.inj hb ▸ Block.written_forward _ data d len
  · simpa only [writeBlockData, dif_neg h] using ht

theorem writeChainFrom_forward (data : Buffer) (len : Nat) (blocks : List (BitVec 16))
    (written : Nat) {t : Topology} (ht : ∀ i b, t.level1 i = some b → b.Forward) :
    ∀ i b, (writeChainFrom data len blocks written t).2.level1 i = some b → b.Forward := by
  induction blocks generalizing written t with
  | nil => exact ht
  | cons c blocks ih =>
    rw [writeChainFrom]
    split
    · exact ih _ (writeBlockData_forward ht c data _ _)
    · exact ht

theorem clearBlocks_forward (blocks : List (BitVec 16)) {t : Topology}
    (ht : ∀ i b, t.level1 i = some b → b.Forward) :
    ∀ i b, (t.clearBlocks blocks).level1 i = some b → b.Forward := by
  unfold clearBlocks
  simp only
  induction blocks generalizing t with
  | nil => exact ht
  | cons c blocks ih =>
    rw [List.foldl_cons]
    apply ih
    split
    · refine update_forward ht _ fun b hb => ?_
      obtain ⟨_, _, rfl⟩ := Option.map_eq_some_iff.mp hb
      exact fun e => Value128.packRoute_free_forwardAt _ e.val
    · exact ht

theorem apply_sound {t : Topology} (ht : t.Sound) (op : DataOp) : (t.apply op).Sound := by
  have hsetUp := apply_setUp ht.setUp op
  refine ⟨?_, ?_, ?_⟩
  · rwa [hsetUp.seed]
  · rw [hsetUp.root, ← ht.setUp.root]
    exact ht.root
  · cases op with
    | writeBlockData idx data len => exact writeBlockData_forward ht.level1 idx data 0 len
    | writeChain blocks data len => exact writeChainFrom_forward data len blocks 0 ht.level1
    | clearBlocks blocks => exact clearBlocks_forward blocks ht.level1

theorem runData_sound {t : Topology} (ht : t.Sound) (ops : List DataOp) :
    (t.runData ops).Sound :=
  List.foldlRecOn ops apply ht fun _ ht op _ => apply_sound ht op

theorem loadImage_sound {t : Topology} (ht : t.Sound) (target : Topology) {canOpen : Bool}
    {before : Option File} {file : File}
    (h : t.saveImage canOpen before = (true, some file)) :
    (target.loadImage (some file) t.seed).2.Sound := by
  have hload := restored_of_saveImage ht.setUp h target
  refine ⟨⟨rfl, ?_, hload.root.trans ht.setUp.root, ?_⟩, hload.root ▸ ht.root, ?_⟩
  · rw [hload.lensKeys, hload.seed]
    exact ht.setUp.lensKeys
  · intro i
    rw [hload.level1]
    exact ht.setUp.level1 i
  · rw [hload.level1]
    exact ht.level1

theorem Reachable.sound {t : Topology} (h : Reachable t) : t.Sound := by
  induction h with
  | initializeWith t s => exact initializeWith_sound t s
  | apply op _ ih => exact apply_sound ih op
  | expandBlock i _ ih => exact expandBlock_sound ih i
  | loadImage target _ _ _ _ hsave ih => exact loadImage_sound ih target hsave

/-- In every reachable topology all checksums hold, all walks move forward, and no read gives
more than the payload of a block. -/
theorem reachable_walkable (t : Topology) (h : Reachable t) :
    t.root.Walkable ∧ (∀ i, ∃ b, t.level1 i = some b ∧ b.Walkable) ∧
      ∀ idx out o maxLen, (t.readBlockData idx out o maxLen).1 ≤ bytesPerBlock := by
  have hsound := h.sound
  have hlevel1 (i : Fin lensCount) : ∃ b, t.level1 i = some b ∧ b.Walkable := by
    obtain ⟨b, hb⟩ := Option.isSome_iff_exists.mp (hsound.setUp.level1 i)
    exact ⟨b, hb, (hsound.level1 i b hb).walkable⟩
  refine ⟨hsound.root.walkable, hlevel1, fun idx out o maxLen => ?_⟩
  by_cases hidx : idx.toNat < lensCount
  · obtain ⟨b, hb, hwalk⟩ := hlevel1 ⟨idx.toNat, hidx⟩
    rw [readBlockData_eq hidx hb]
    exact hwalk.readHops_le out o maxLen
  · simp only [readBlockData, dif_neg hidx, Nat.zero_le]

/-- A written topology, saved and loaded into another object. -/
theorem reachable_walkable_restored : ∃ file,
    (sample.apply (.writeChain [5, 9] ones 20000)).saveImage true none = (true, some file) ∧
      (let t := ((construct ⟨0, 0⟩ fun _ => ⟨0, 0⟩).loadImage (some file)
        (sample.apply (.writeChain [5, 9] ones 20000)).seed).2
      t.root.Walkable ∧ (∀ i, ∃ b, t.level1 i = some b ∧ b.Walkable) ∧
        ∀ idx out o maxLen, (t.readBlockData idx out o maxLen).1 ≤ bytesPerBlock) :=
  ⟨_, rfl, reachable_walkable _ (.loadImage _ true none _
    (.apply (.writeChain [5, 9] ones 20000) (.initializeWith _ _)) rfl)⟩

end Topology

end EmergenceOS.Vdev.BmtTopology
