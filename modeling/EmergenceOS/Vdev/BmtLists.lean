/- Module: EmergenceOS/Vdev/BmtLists
   digest: Chains whose lists name blocks that do not exist: what is written, what is read. -/

import EmergenceOS.Vdev.BmtChain

/-!
The writer passes over an index without a block and goes on with the next one. The
reader takes the empty answer for the end of the data.
-/

set_option autoImplicit false
set_option relaxedAutoImplicit false

namespace EmergenceOS.Vdev.BmtTopology.Topology

open EmergenceOS.Lib.Bytes

/-- The positions of a list that name a block. -/
def usable (blocks : List (BitVec 16)) : Nat := blocks.countP fun b => decide (b.toNat < lensCount)

/-- What write_chain reports, and what it leaves alone. -/
structure ChainWritten (t : Topology) (blocks : List (BitVec 16)) (len : Nat)
    (result : Nat × Topology) : Prop where
  count : result.1 = min len (bytesPerBlock * usable blocks)
  root : result.2.root = t.root
  seed : result.2.seed = t.seed
  lensKeys : result.2.lensKeys = t.lensKeys
  level1 : ∀ j : Fin lensCount, (∀ b ∈ blocks, b.toNat ≠ j.val) → result.2.level1 j = t.level1 j

theorem usable_cons (b : BitVec 16) (blocks : List (BitVec 16)) :
    usable (b :: blocks) = usable blocks + if b.toNat < lensCount then 1 else 0 := by
  simp only [usable, List.countP_cons, decide_eq_true_eq]

/-- Each block that exists takes as much as it can hold, or all that is left. -/
theorem writeChainFrom_fst {t : Topology} (ht : t.Initialized) (data : Buffer) {len written : Nat}
    (hle : written ≤ len) (blocks : List (BitVec 16)) :
    (writeChainFrom data len blocks written t).1 =
      min len (written + bytesPerBlock * usable blocks) := by
  induction blocks generalizing written t with
  | nil => exact (Nat.min_eq_right hle).symm
  | cons b blocks ih =>
    rw [writeChainFrom, usable_cons]
    split
    · rename_i hlt
      by_cases h : b.toNat < lensCount
      · obtain ⟨block, hb⟩ := Option.isSome_iff_exists.mp (ht ⟨b.toNat, h⟩)
        have hnext := writeBlockData_initialized ht b data written
          (min bytesPerBlock (len - written))
        simp only [writeBlockData_eq h hb] at hnext ⊢
        rw [ih hnext (by omega), if_pos h, Nat.mul_succ]
        omega
      · simp only [writeBlockData_of_not_lt t h, Nat.add_zero, if_neg h]
        exact ih ht hle
    · omega

theorem writeChain_fst {t : Topology} (ht : t.Initialized) (blocks : List (BitVec 16))
    (data : Buffer) (len : Nat) :
    (t.writeChain blocks data len).1 = min len (bytesPerBlock * usable blocks) := by
  rw [writeChain, writeChainFrom_fst ht data (Nat.zero_le len), Nat.zero_add]

theorem writeChainFrom_frame (data : Buffer) (len : Nat) (blocks : List (BitVec 16))
    (written : Nat) (t : Topology) :
    (writeChainFrom data len blocks written t).2.seed = t.seed ∧
      (writeChainFrom data len blocks written t).2.lensKeys = t.lensKeys ∧
      (writeChainFrom data len blocks written t).2.root = t.root := by
  induction blocks generalizing written t with
  | nil => exact ⟨rfl, rfl, rfl⟩
  | cons b blocks ih =>
    rw [writeChainFrom]
    split
    · obtain ⟨hseed, hkeys, hroot⟩ :=
        writeBlockData_frame t b data written (min bytesPerBlock (len - written))
      obtain ⟨hseed', hkeys', hroot'⟩ := ih
        (written + (t.writeBlockData b data written (min bytesPerBlock (len - written))).1)
        (t.writeBlockData b data written (min bytesPerBlock (len - written))).2
      exact ⟨hseed'.trans hseed, hkeys'.trans hkeys, hroot'.trans hroot⟩
    · exact ⟨rfl, rfl, rfl⟩

/-- A chain takes 13312 bytes for each position that names a block, and touches no other one. -/
theorem writeChain_written (t : Topology) (ht : t.Initialized) (blocks : List (BitVec 16))
    (data : Buffer) (len : Nat) : ChainWritten t blocks len (t.writeChain blocks data len) := by
  obtain ⟨hseed, hkeys, hroot⟩ := writeChainFrom_frame data len blocks 0 t
  refine ⟨writeChain_fst ht blocks data len, hroot, hseed, hkeys, fun j hj => ?_⟩
  exact writeChainFrom_level1_of_notMem data len (fun b hb => (hj b hb).symm) 0 t

/-- The same block twice, and an index that names none. -/
theorem writeChain_written_repeated :
    ChainWritten sample [5, 2000, 5] 20000 (sample.writeChain [5, 2000, 5] ones 20000) :=
  writeChain_written sample sample_initialized [5, 2000, 5] ones 20000

/-- What was written in full is read back in full, on the same list. -/
def ReadsWritten (t : Topology) (blocks : List (BitVec 16)) (data : Buffer) (len : Nat)
    (out : Buffer) : Prop :=
  (t.writeChain blocks data len).1 = len → t.RoundTrips blocks data len out

/-- The first index names a block, unless none of them does or there are no data. -/
def StartsUsable (blocks : List (BitVec 16)) (len : Nat) : Prop :=
  len = 0 ∨ usable blocks = 0 ∨ ∀ b ∈ blocks.head?, b.toNat < lensCount

theorem readChain_of_head_not_lt (t : Topology) {b : BitVec 16} (h : ¬b.toNat < lensCount)
    (blocks : List (BitVec 16)) (out : Buffer) (maxLen : Nat) :
    (t.readChain (b :: blocks) out maxLen).1 = 0 := by
  rw [readChain, readChainFrom]
  split
  · rw [readBlockData_of_not_lt t h]
    rfl
  · rfl

/-- Up to the 13273 bytes of a block, a list without repetition gives back what was written
exactly if it does not begin with an index that the writer had to pass over. -/
theorem readsWritten_iff_startsUsable (t : Topology) (ht : t.Initialized)
    (blocks : List (BitVec 16)) (hnodup : blocks.Nodup) (data : Buffer) (len : Nat)
    (hlen : len ≤ 13273) (out : Buffer) :
    t.ReadsWritten blocks data len out ↔ StartsUsable blocks len := by
  have hR : readableBytes = 13273 := rfl
  have hB : bytesPerBlock = 13312 := rfl
  have hcount := writeChain_fst ht blocks data len
  constructor
  · intro h
    by_cases hzero : len = 0
    · exact Or.inl hzero
    by_cases hnone : usable blocks = 0
    · exact Or.inr (Or.inl hnone)
    refine Or.inr (Or.inr fun b hb => ?_)
    by_contra hout
    obtain ⟨rest, rfl⟩ := List.head?_eq_some_iff.mp hb
    have hread := (h (by rw [hcount, hB]; omega)).reads
    rw [readChain_of_head_not_lt _ hout] at hread
    exact hzero hread.symm
  · rintro (rfl | hnone | hhead) hwritten
    · exact roundTrips_zero t data out blocks
    · rw [hcount, hnone, Nat.mul_zero, Nat.min_zero] at hwritten
      subst hwritten
      exact roundTrips_zero t data out blocks
    · cases blocks with
      | nil =>
        obtain rfl : 0 = len := by simpa [writeChain, writeChainFrom] using hwritten
        exact roundTrips_zero t data out []
      | cons b blocks => exact roundTrips_of_head ht hnodup (hhead b rfl) (by omega)

theorem readsWritten_two_blocks : sample.ReadsWritten [5, 2000] ones 20 ones :=
  (readsWritten_iff_startsUsable sample sample_initialized [5, 2000] (by decide) ones 20
    (by decide) ones).mpr (Or.inr (Or.inr (by simp [lensCount])))

/-- Block 5 takes the byte; the reader gives up at index 2000. -/
theorem not_readsWritten_unusable_head :
    sample.Initialized ∧ [(2000 : BitVec 16), 5].Nodup ∧ 1 ≤ 13273 ∧
      ¬sample.ReadsWritten [2000, 5] ones 1 ones := by
  refine ⟨sample_initialized, by decide, by decide, fun h => ?_⟩
  have hcount := writeChain_fst sample_initialized [2000, 5] ones 1
  have hread := (h (by rw [hcount]; decide)).reads
  rw [readChain_of_head_not_lt _ (by simp [lensCount])] at hread
  cases hread

end EmergenceOS.Vdev.BmtTopology.Topology
