/- Module: EmergenceOS/Vdev/BmtStore
   digest: A topology and its image as a store of blocks with a snapshot. -/

import EmergenceOS.Lib.GuardedRun
import EmergenceOS.Vdev.BmtImage
import EmergenceOS.Vdev.BmtVisible

/-!
The image is written whole, and whoever takes over after a crash has nothing but the image.
Of a block that was written, 13273 bytes can be read back; a block that was cleared, or
written with no data, is left open.
-/

set_option autoImplicit false
set_option relaxedAutoImplicit false

namespace EmergenceOS.Vdev.BmtTopology

open EmergenceOS.Lib.Bytes EmergenceOS.Lib.ByteFile EmergenceOS.Lib.GuardedRun

inductive StoreOp
  | write (idx : BitVec 16) (data : Buffer) (len : Nat)
  | clear (blocks : List (BitVec 16))
  | save (canOpen : Bool)
  | crash (target : Topology)

/-- A topology and the file that its image is saved to. -/
structure Site where
  topology : Topology
  image : Option File

/-- After a crash another object, in whatever state, loads the image under the seed. -/
def Site.apply (s : Seed) (site : Site) : StoreOp → Site
  | .write idx data len => { site with topology := (site.topology.writeBlockData idx data 0 len).2 }
  | .clear blocks => { site with topology := site.topology.clearBlocks blocks }
  | .save canOpen => { site with image := (site.topology.saveImage canOpen site.image).2 }
  | .crash target => { site with topology := (target.loadImage site.image s).2 }

/-- The data and its length that were last written to each block. -/
abbrev Contents := Fin lensCount → Option (Buffer × Nat)

/-- What the store is meant to hold, and what was saved of it. -/
structure Store where
  current : Contents
  saved : Option Contents

namespace Store

def write (c : Contents) (idx : BitVec 16) (data : Buffer) (len : Nat) : Contents := fun i =>
  if i.val = idx.toNat then if len = 0 then none else some (data, len) else c i

def clear (c : Contents) (blocks : List (BitVec 16)) : Contents := fun i =>
  if ∃ b ∈ blocks, b.toNat = i.val then none else c i

def apply (store : Store) : StoreOp → Store
  | .write idx data len => { store with current := write store.current idx data len }
  | .clear blocks => { store with current := clear store.current blocks }
  | .save canOpen => { store with saved := if canOpen then some store.current else store.saved }
  | .crash _ => { store with current := store.saved.getD store.current }

/-- A crash loses everything if nothing was saved before. -/
def Allows (store : Store) : StoreOp → Prop
  | .crash _ => store.saved.isSome
  | _ => True

instance (store : Store) (op : StoreOp) : Decidable (store.Allows op) :=
  match op with
  | .write _ _ _ => isTrue trivial
  | .clear _ => isTrue trivial
  | .save _ => isTrue trivial
  | .crash _ => inferInstanceAs (Decidable (_ = true))

end Store

namespace Topology

/-- The blocks hold what was written to them. -/
def HoldsContents (t : Topology) (c : Contents) : Prop :=
  ∀ i data len, c i = some (data, len) → 0 < len ∧ ∃ b : Block,
    t.level1 i = some (b.written data 0 len)

section
variable {t : Topology} {c : Contents} {s : Seed}

theorem HoldsContents.write (h : t.HoldsContents c) (ht : t.Initialized) (idx : BitVec 16)
    (data : Buffer) (len : Nat) :
    (t.writeBlockData idx data 0 len).2.HoldsContents (Store.write c idx data len) := by
  intro i data' len' hi
  unfold Store.write at hi
  split at hi
  · rename_i hidx
    split at hi
    · cases hi
    · rename_i hlen
      obtain ⟨rfl, rfl⟩ := Prod.mk.inj (Option.some.inj hi)
      have hlt : idx.toNat < lensCount := hidx ▸ i.isLt
      obtain ⟨b, hb⟩ := Option.isSome_iff_exists.mp (ht ⟨idx.toNat, hlt⟩)
      obtain rfl : i = ⟨idx.toNat, hlt⟩ := Fin.ext hidx
      refine ⟨Nat.pos_of_ne_zero hlen, b, ?_⟩
      rw [writeBlockData_eq hlt hb]
      exact Function.update_self _ _ _
  · rename_i hidx
    rw [writeBlockData_level1_of_ne t idx data 0 len hidx]
    exact h i data' len' hi

theorem HoldsContents.clear (h : t.HoldsContents c) (blocks : List (BitVec 16)) :
    (t.clearBlocks blocks).HoldsContents (Store.clear c blocks) := by
  intro i data len hi
  unfold Store.clear at hi
  split at hi
  · cases hi
  · rename_i hmem
    rw [clearBlocks_level1, if_neg hmem]
    exact h i data len hi

/-- A block that holds data gives it back, as far as its hops can be read. -/
theorem HoldsContents.reads (h : t.HoldsContents c) {idx : BitVec 16} (hidx : idx.toNat < lensCount)
    {data : Buffer} {len : Nat} (hc : c ⟨idx.toNat, hidx⟩ = some (data, len)) (out : Buffer)
    (maxLen : Nat) :
    ReadsBack data (min len 13273) maxLen (t.readBlockData idx out 0 maxLen) := by
  have hB : bytesPerBlock = 1024 * 13 := rfl
  have hR : readableBytes = 1021 * 13 := rfl
  have hP : payloadBytesPerHop = 13 := rfl
  obtain ⟨hpos, b, hb⟩ := h _ data len hc
  have hread := readBlockData_written hidx hb hpos out 0 maxLen
  have hreadable : min readableBytes (payloadBytesPerHop * ((len + 12) / payloadBytesPerHop)) =
      payloadBytesPerHop * ((min len 13273 + 12) / payloadBytesPerHop) := by
    rw [hR, hP]
    omega
  rw [hreadable] at hread
  rw [hread]
  refine ⟨rfl, fun i hi => ?_, fun i hi hlast => ?_⟩
  · simp only
    rw [hP, blit_inside _ _ (Nat.zero_le i) (by omega), Nat.zero_add, Nat.sub_zero,
      Block.payload_written b data 0 (by omega) (by omega), Nat.zero_add]
  · simp only at hlast ⊢
    rw [blit_inside _ _ (Nat.zero_le i) (by omega), Nat.zero_add, Nat.sub_zero]
    rw [hP] at hlast
    exact Block.payload_written_zero b data 0 (by omega) (by rw [hP]; omega) (by omega)

end

end Topology

open Topology

/-- The topology holds the store, and its image is one of a topology that held what was saved. -/
structure Follows (s : Seed) (site : Site) (store : Store) : Prop where
  setUp : SetUp s site.topology
  current : site.topology.HoldsContents store.current
  saved : ∀ c, store.saved = some c → ∃ t canOpen before file, SetUp s t ∧ t.HoldsContents c ∧
    t.saveImage canOpen before = (true, some file) ∧ site.image = some file

section
variable {s : Seed} {site : Site} {store : Store}

theorem follows_save (h : Follows s site store) (canOpen : Bool) :
    Follows s (site.apply s (.save canOpen)) (store.apply (.save canOpen)) := by
  refine ⟨h.setUp, h.current, fun c hc => ?_⟩
  cases canOpen with
  | false => exact h.saved c hc
  | true =>
    obtain rfl := Option.some.inj hc
    obtain ⟨file, hfile⟩ := saveImage_true site.topology site.image
    exact ⟨site.topology, true, site.image, file, h.setUp, h.current, hfile,
      congrArg Prod.snd hfile⟩

/-- Whatever object takes over, it holds what was saved. -/
theorem follows_crash (h : Follows s site store) (target : Topology)
    (hsaved : store.saved.isSome) :
    Follows s (site.apply s (.crash target)) (store.apply (.crash target)) := by
  obtain ⟨c, hc⟩ := Option.isSome_iff_exists.mp hsaved
  obtain ⟨t, canOpen, before, file, hset, hholds, hsave, himage⟩ := h.saved c hc
  have hrestored := restored_of_saveImage hset hsave target
  have hcurrent : (store.apply (.crash target)).current = c := by
    simp only [Store.apply, hc, Option.getD_some]
  refine ⟨?_, ?_, h.saved⟩
  · simp only [Site.apply, himage]
    exact ⟨hrestored.seed.trans hset.seed, hrestored.lensKeys.trans hset.lensKeys,
      hrestored.root.trans hset.root, fun i => hrestored.level1 ▸ hset.level1 i⟩
  · rw [hcurrent]
    simp only [Site.apply, himage]
    intro i data len hi
    rw [hrestored.level1]
    exact hholds i data len hi

theorem follows_apply (h : Follows s site store) (op : StoreOp) (hop : store.Allows op) :
    Follows s (site.apply s op) (store.apply op) := by
  cases op with
  | write idx data len =>
    exact ⟨writeBlockData_setUp h.setUp idx data 0 len,
      h.current.write h.setUp.level1 idx data len, h.saved⟩
  | clear blocks => exact ⟨clearBlocks_setUp h.setUp blocks, h.current.clear blocks, h.saved⟩
  | save canOpen => exact follows_save h canOpen
  | crash target => exact follows_crash h target hop

theorem follows_run {ops : List StoreOp} (h : Follows s site store)
    (hops : Guarded Store.apply Store.Allows store ops) :
    Follows s (ops.foldl (Site.apply s) site) (ops.foldl Store.apply store) := by
  induction ops generalizing site store with
  | nil => exact h
  | cons op ops ih => exact ih (follows_apply h op hops.1) hops.2

end

def Store.empty : Store := ⟨fun _ => none, none⟩

/-- Through any run of writes, clears, saves and crashes, a block that was written last with
data gives that data back, the last write being the last one before the last save where a crash
came after it. -/
theorem run_readsBack (t : Topology) (image : Option File) (s : Seed) (ops : List StoreOp)
    (hops : Guarded Store.apply Store.Allows Store.empty ops) (idx : BitVec 16)
    (hidx : idx.toNat < lensCount) (data : Buffer) (len : Nat)
    (hc : (ops.foldl Store.apply Store.empty).current ⟨idx.toNat, hidx⟩ = some (data, len))
    (out : Buffer) (maxLen : Nat) :
    ReadsBack data (min len 13273) maxLen
      ((ops.foldl (Site.apply s) ⟨t.initializeWith s, image⟩).topology.readBlockData idx out 0
        maxLen) := by
  have hstart : Follows s ⟨t.initializeWith s, image⟩ Store.empty := by
    refine ⟨initializeWith_setUp t s, ?_, ?_⟩
    · intro i data len hi
      cases hi
    · intro c hc
      cases hc
  exact (follows_run hstart hops).current.reads hidx hc out maxLen

/-- The second write is lost with the crash. -/
theorem run_readsBack_crash : ReadsBack ones (min 20 13273) 20
    (([.write 5 ones 20, .save true, .write 5 (fun _ => 2) 20, .crash sample].foldl
      (Site.apply ⟨1, 2⟩) ⟨sample.initializeWith ⟨1, 2⟩, none⟩).topology.readBlockData 5
        (fun _ => 0) 0 20) :=
  run_readsBack sample none ⟨1, 2⟩
    [.write 5 ones 20, .save true, .write 5 (fun _ => 2) 20, .crash sample]
    ⟨trivial, trivial, trivial, rfl, trivial⟩ 5 (by decide) ones 20 rfl (fun _ => 0) 20

end EmergenceOS.Vdev.BmtTopology
