/- Module: EmergenceOS/Vdev/BmtChain
   digest: Reading back what was written into blocks, up to the first reserved link code. -/

import EmergenceOS.Vdev.BmtTopology
import Mathlib.Data.List.Nodup

/-!
Entry e of a written block links to entry e + 1. The link of entry 1020 would be
1021, which is the code of a free entry, so the reader stops there: 1021 hops of
13 bytes are all that a block gives back.
-/

set_option autoImplicit false
set_option relaxedAutoImplicit false

namespace EmergenceOS.Vdev.BmtTopology

open EmergenceOS.Lib.Bytes

/-- The bytes that a block gives back at most: one hop for each index below FREE_ROUTE. -/
def readableBytes : Nat := payloadBytesPerHop * freeRoute.toNat

/-- The first m entries link one to the next and the last of them ends the walk. -/
structure Linked (es : Fin entriesPerBlock → Value128) (m : Nat) : Prop where
  link : ∀ e : Fin entriesPerBlock, e.val + 1 < m →
    (es e).route = BitVec.ofNat 16 (e.val + 1) ∧ e.val + 1 < freeRoute.toNat
  stop : ∀ e : Fin entriesPerBlock, e.val + 1 = m →
    (es e).route = haltRoute ∨ (es e).route = freeRoute
  bound : m ≤ entriesPerBlock

theorem toNat_link {n : Nat} (h : n < freeRoute.toNat) :
    (BitVec.ofNat 16 n).toNat = n ∧ BitVec.ofNat 16 n ≠ haltRoute ∧
      BitVec.ofNat 16 n ≠ freeRoute := by
  have hfree : freeRoute.toNat = 1021 := rfl
  have hhalt : haltRoute.toNat = 1023 := rfl
  have hnat : (BitVec.ofNat 16 n).toNat = n := by
    simp only [BitVec.toNat_ofNat]
    omega
  refine ⟨hnat, fun he => ?_, fun he => ?_⟩ <;>
  · have := congrArg BitVec.toNat he
    omega

/-- One turn of the reader copies the entry's bytes to where the next ones continue. -/
theorem copy_hop (b : Block) (out : Buffer) (o : Nat) (e : Fin entriesPerBlock) {n : Nat}
    (hn : n ≤ payloadBytesPerHop) :
    blit out (o + payloadBytesPerHop * e.val)
        ((b.entries e).getPayload (fun _ => 0) payloadBytesPerHop).2 0 n =
      blit out (o + payloadBytesPerHop * e.val) b.payload (payloadBytesPerHop * e.val) n := by
  apply blit_congr
  intro k hk
  have he := e.isLt
  have hdiv : (payloadBytesPerHop * e.val + k) / payloadBytesPerHop = e.val := by
    simp only [payloadBytesPerHop] at hn ⊢
    omega
  have hmod : (payloadBytesPerHop * e.val + k) % payloadBytesPerHop = k := by
    simp only [payloadBytesPerHop] at hn ⊢
    omega
  rw [Nat.zero_add,
    Value128.getPayload_hop_apply _ _ (by simp only [payloadBytesPerHop] at hn; omega),
    Block.payload]
  simp only [hdiv, hmod, he, dif_pos]

/-- With nothing left to read the copy is empty. -/
private theorem readHops_exhausted (b : Block) (out : Buffer) (o : Nat) {maxLen m e : Nat}
    (he : e < m) (hmax : maxLen = payloadBytesPerHop * e) :
    readHops b.entries out o maxLen (payloadBytesPerHop * e) e =
      (min maxLen (payloadBytesPerHop * m),
        blit out (o + payloadBytesPerHop * e) b.payload (payloadBytesPerHop * e)
          (min maxLen (payloadBytesPerHop * m) - payloadBytesPerHop * e)) := by
  have hP : payloadBytesPerHop = 13 := rfl
  rw [readHops, dif_neg (by omega)]
  rw [hP] at hmax ⊢
  refine Prod.ext (by simp only; omega) ?_
  simp only
  rw [show min maxLen (13 * m) - 13 * e = 0 by omega, blit_zero]

/-- The walk over linked entries is one copy of their payload. -/
theorem readHops_linked {b : Block} {m : Nat} (h : Linked b.entries m) (out : Buffer)
    (o maxLen : Nat) {e : Nat} (he : e < m) (hle : payloadBytesPerHop * e ≤ maxLen) :
    readHops b.entries out o maxLen (payloadBytesPerHop * e) e =
      (min maxLen (payloadBytesPerHop * m),
        blit out (o + payloadBytesPerHop * e) b.payload (payloadBytesPerHop * e)
          (min maxLen (payloadBytesPerHop * m) - payloadBytesPerHop * e)) := by
  have hP : payloadBytesPerHop = 13 := rfl
  have hbound := h.bound
  obtain ⟨n, hn⟩ : ∃ n, e + n + 1 = m := ⟨m - e - 1, by omega⟩
  induction n generalizing e out with
  | zero =>
    by_cases hlt : payloadBytesPerHop * e < maxLen
    · rw [readHops, dif_pos ⟨hlt, by omega⟩]
      simp only [Value128.getPayload_hop]
      rw [if_pos (h.stop ⟨e, by omega⟩ (by simp only; omega)),
        copy_hop b out o ⟨e, by omega⟩ (Nat.min_le_left _ _)]
      rw [hP] at hlt ⊢
      refine Prod.ext (by simp only; omega) ?_
      simp only
      congr 1
      omega
    · exact readHops_exhausted b out o he (by omega)
  | succ n ih =>
    by_cases hlt : payloadBytesPerHop * e < maxLen
    · obtain ⟨hroute, hfree⟩ := h.link ⟨e, by omega⟩ (by simp only; omega)
      obtain ⟨hnat, hhalt, hnfree⟩ := toNat_link hfree
      simp only at hroute hfree hnat
      rw [readHops, dif_pos ⟨hlt, by omega⟩]
      simp only [Value128.getPayload_hop, hroute, hnat]
      rw [if_neg (by simp only [hhalt, hnfree, or_self, not_false_eq_true]), if_pos (by omega),
        copy_hop b out o ⟨e, by omega⟩ (Nat.min_le_left _ _)]
      by_cases hfull : payloadBytesPerHop * (e + 1) ≤ maxLen
      · have hcp : min payloadBytesPerHop (maxLen - payloadBytesPerHop * e) =
            payloadBytesPerHop := by
          rw [hP] at hfull ⊢
          omega
        rw [hcp, ← Nat.mul_succ, ih _ (by omega) hfull (by omega)]
        refine Prod.ext rfl ?_
        simp only
        rw [Nat.mul_succ, ← Nat.add_assoc, blit_blit]
        congr 1
        rw [hP] at hfull ⊢
        omega
      · rw [readHops, dif_neg (by rw [hP] at hfull hlt ⊢; omega)]
        rw [hP] at hfull hlt ⊢
        refine Prod.ext (by simp only; omega) ?_
        simp only
        congr 1
        omega
    · exact readHops_exhausted b out o he (by omega)

theorem readHops_start {b : Block} {m : Nat} (h : Linked b.entries m) (hm : 0 < m) (out : Buffer)
    (o maxLen : Nat) : readHops b.entries out o maxLen 0 0 =
      (min maxLen (payloadBytesPerHop * m),
        blit out o b.payload 0 (min maxLen (payloadBytesPerHop * m))) := by
  have hwalk := readHops_linked h out o maxLen hm (Nat.zero_le _)
  rwa [Nat.mul_zero, Nat.add_zero, Nat.sub_zero] at hwalk

theorem ofNat_and_lensMask {n : Nat} (h : n < 1024) :
    BitVec.ofNat 16 n &&& lensMask = BitVec.ofNat 16 n := by
  apply BitVec.eq_of_getLsbD_eq
  intro i hi
  rw [BitVec.getLsbD_and, Value128.lensMask_getLsbD]
  by_cases h10 : i < 10
  · simp [h10]
  · have hge : 2 ^ 10 ≤ 2 ^ i := Nat.pow_le_pow_right (by omega) (by omega)
    have hbit : n.testBit i = false := Nat.testBit_lt_two_pow (by omega)
    simp [h10, BitVec.getLsbD_ofNat, hbit]

/-- A written block is linked up to its last chunk, or up to the first reserved code. -/
theorem Block.written_linked (b : Block) (data : Buffer) (d : Nat) {len : Nat} (hlen : 0 < len) :
    Linked (b.written data d len).entries
      (min freeRoute.toNat ((len + 12) / payloadBytesPerHop)) := by
  have hP : payloadBytesPerHop = 13 := rfl
  have hE : entriesPerBlock = 1024 := rfl
  have hfree : freeRoute.toNat = 1021 := rfl
  rw [hP, hfree]
  refine ⟨fun e he => ?_, fun e he => ?_, by omega⟩
  · simp only [Block.written, hop, hP]
    rw [if_pos (by omega), if_pos (by omega), Value128.route_packRoute,
      ofNat_and_lensMask (by omega)]
    exact ⟨rfl, by omega⟩
  · simp only [Block.written, hop, hP]
    rw [if_pos (by omega)]
    split
    · rw [Value128.route_packRoute, ofNat_and_lensMask (by omega)]
      right
      rw [show e.val + 1 = 1021 by omega]
      rfl
    · left
      rw [Value128.route_packRoute]
      rfl

theorem payloadByte_hop (v : Value128) (data : Buffer) (d : Nat) {len e k : Nat}
    (hk : k < payloadBytesPerHop) (hlen : payloadBytesPerHop * e + k < len) :
    (hop v data d len e).payloadByte k = data (d + (payloadBytesPerHop * e + k)) := by
  have hset : (v.setPayload data (d + payloadBytesPerHop * e)
      (min payloadBytesPerHop (len - payloadBytesPerHop * e))).payloadByte k =
        data (d + (payloadBytesPerHop * e + k)) := by
    rw [Value128.payloadByte_setPayload _ _ _ _ hk, if_pos (by omega), Nat.add_assoc]
  simp only [hop]
  split <;> rw [Value128.payloadByte_packRoute _ _ hk, hset]

/-- The last chunk is filled up with zeros. -/
theorem payloadByte_hop_zero (v : Value128) (data : Buffer) (d : Nat) {len e k : Nat}
    (hk : k < payloadBytesPerHop) (hlen : len ≤ payloadBytesPerHop * e + k) :
    (hop v data d len e).payloadByte k = 0 := by
  have hset : (v.setPayload data (d + payloadBytesPerHop * e)
      (min payloadBytesPerHop (len - payloadBytesPerHop * e))).payloadByte k = 0 := by
    rw [Value128.payloadByte_setPayload _ _ _ _ hk, if_neg (by omega)]
  simp only [hop]
  split <;> rw [Value128.payloadByte_packRoute _ _ hk, hset]

theorem Block.payload_written (b : Block) (data : Buffer) (d : Nat) {len i : Nat}
    (hi : i < len) (hblock : i < bytesPerBlock) :
    (b.written data d len).payload i = data (d + i) := by
  have hB : bytesPerBlock = entriesPerBlock * payloadBytesPerHop := rfl
  have hpos : 0 < payloadBytesPerHop := by decide
  have hsplit := Nat.div_add_mod i payloadBytesPerHop
  have hentry : i / payloadBytesPerHop < entriesPerBlock :=
    (Nat.div_lt_iff_lt_mul hpos).mpr (hB ▸ hblock)
  rw [Block.payload, dif_pos hentry]
  simp only [Block.written]
  rw [if_pos (by omega), payloadByte_hop _ _ _ (Nat.mod_lt _ hpos) (by omega), hsplit]

theorem Block.payload_written_zero (b : Block) (data : Buffer) (d : Nat) {len i : Nat}
    (hi : len ≤ i) (hchunk : i < payloadBytesPerHop * ((len + 12) / payloadBytesPerHop))
    (hblock : i < bytesPerBlock) : (b.written data d len).payload i = 0 := by
  have hB : bytesPerBlock = 1024 * 13 := rfl
  have hE : entriesPerBlock = 1024 := rfl
  have hP : payloadBytesPerHop = 13 := rfl
  have hsplit := Nat.div_add_mod i payloadBytesPerHop
  have hentry : i / payloadBytesPerHop < entriesPerBlock := by
    rw [hP]
    omega
  have hlt : payloadBytesPerHop * (i / payloadBytesPerHop) < len := by
    rw [hP] at hchunk ⊢
    omega
  rw [Block.payload, dif_pos hentry]
  simp only [Block.written]
  rw [if_pos hlt, payloadByte_hop_zero _ _ _ (Nat.mod_lt _ (by decide)) (by omega)]

namespace Topology

/-- write_block_data on an allocated block. -/
theorem writeBlockData_eq {t : Topology} {idx : BitVec 16} (h : idx.toNat < lensCount)
    {b : Block} (hb : t.level1 ⟨idx.toNat, h⟩ = some b) (data : Buffer) (d len : Nat) :
    t.writeBlockData idx data d len = (min len bytesPerBlock, { t with
      level1 := Function.update t.level1 ⟨idx.toNat, h⟩ (some (b.written data d len))
      dirty := true }) := by
  obtain ⟨hwritten, hfree⟩ := writeHops_freeRest b data d len
  unfold writeBlockData
  rw [dif_pos h, hb]
  simp only [hwritten, hfree]

/-- An index out of range names no block. -/
theorem writeBlockData_of_not_lt (t : Topology) {idx : BitVec 16} (h : ¬idx.toNat < lensCount)
    (data : Buffer) (d len : Nat) : t.writeBlockData idx data d len = (0, t) := dif_neg h

theorem readBlockData_of_not_lt (t : Topology) {idx : BitVec 16} (h : ¬idx.toNat < lensCount)
    (out : Buffer) (o maxLen : Nat) : t.readBlockData idx out o maxLen = (0, out) := dif_neg h

theorem readBlockData_eq {t : Topology} {idx : BitVec 16} (h : idx.toNat < lensCount)
    {b : Block} (hb : t.level1 ⟨idx.toNat, h⟩ = some b) (out : Buffer) (o maxLen : Nat) :
    t.readBlockData idx out o maxLen = readHops b.entries out o maxLen 0 0 := by
  unfold readBlockData
  rw [dif_pos h, hb]

/-- Reading a block that received len bytes. -/
theorem readBlockData_written {t : Topology} {idx : BitVec 16} (h : idx.toNat < lensCount)
    {b : Block} {data : Buffer} {d len : Nat}
    (hb : t.level1 ⟨idx.toNat, h⟩ = some (b.written data d len)) (hlen : 0 < len)
    (out : Buffer) (o maxLen : Nat) :
    t.readBlockData idx out o maxLen =
      (min maxLen (min readableBytes (payloadBytesPerHop * ((len + 12) / payloadBytesPerHop))),
        blit out o (b.written data d len).payload 0
          (min maxLen (min readableBytes
            (payloadBytesPerHop * ((len + 12) / payloadBytesPerHop))))) := by
  have hP : payloadBytesPerHop = 13 := rfl
  have hfree : freeRoute.toNat = 1021 := rfl
  have hwalk := readHops_start (b.written_linked data d hlen) (by rw [hP, hfree]; omega) out o
    maxLen
  rw [readBlockData_eq h hb]
  simpa only [readableBytes, ← Nat.mul_min_mul_left] using hwalk

theorem writeBlockData_level1_of_ne (t : Topology) (idx : BitVec 16) (data : Buffer)
    (d len : Nat) {j : Fin lensCount} (hj : j.val ≠ idx.toNat) :
    (t.writeBlockData idx data d len).2.level1 j = t.level1 j := by
  unfold writeBlockData
  split
  · rename_i h
    have hne : j ≠ ⟨idx.toNat, h⟩ := fun he => hj (congrArg Fin.val he)
    split
    · rfl
    · simp only [Function.update_of_ne hne]
  · rfl

theorem writeBlockData_initialized {t : Topology} (ht : t.Initialized) (idx : BitVec 16)
    (data : Buffer) (d len : Nat) : (t.writeBlockData idx data d len).2.Initialized := by
  intro j
  by_cases hj : j.val = idx.toNat
  · have h : idx.toNat < lensCount := hj ▸ j.isLt
    obtain ⟨b, hb⟩ := Option.isSome_iff_exists.mp (ht ⟨idx.toNat, h⟩)
    rw [writeBlockData_eq h hb]
    obtain rfl : j = ⟨idx.toNat, h⟩ := Fin.ext hj
    simp
  · rw [writeBlockData_level1_of_ne t idx data d len hj]
    exact ht j

theorem writeChainFrom_done (data : Buffer) {len written : Nat} (h : len ≤ written)
    (blocks : List (BitVec 16)) (t : Topology) :
    writeChainFrom data len blocks written t = (written, t) := by
  cases blocks with
  | nil => rfl
  | cons b blocks => rw [writeChainFrom, if_neg (by omega)]

/-- Blocks outside the list are not touched. -/
theorem writeChainFrom_level1_of_notMem (data : Buffer) (len : Nat) {blocks : List (BitVec 16)}
    {j : Fin lensCount} (hj : ∀ b ∈ blocks, j.val ≠ b.toNat) (written : Nat) (t : Topology) :
    (writeChainFrom data len blocks written t).2.level1 j = t.level1 j := by
  induction blocks generalizing written t with
  | nil => rfl
  | cons b blocks ih =>
    rw [writeChainFrom]
    split
    · simp only
      rw [ih (fun c hc => hj c (List.mem_cons_of_mem b hc)),
        writeBlockData_level1_of_ne _ _ _ _ _ (hj b List.mem_cons_self)]
    · rfl

/-- What a chain of blocks promises about data of length len. -/
structure RoundTrips (t : Topology) (blocks : List (BitVec 16)) (data : Buffer) (len : Nat)
    (out : Buffer) : Prop where
  writes : (t.writeChain blocks data len).1 = len
  reads : ((t.writeChain blocks data len).2.readChain blocks out len).1 = len
  bytes : ∀ i < len, ((t.writeChain blocks data len).2.readChain blocks out len).2 i = data i

/-- The first block of a chain takes as much as it can hold, and keeps it to the end. -/
theorem level1_writeChain_head {t : Topology} {b : BitVec 16} {blocks : List (BitVec 16)}
    (hnodup : (b :: blocks).Nodup) (h : b.toNat < lensCount) {block : Block}
    (hb : t.level1 ⟨b.toNat, h⟩ = some block) (data : Buffer) {len : Nat} (hlen : 0 < len) :
    (t.writeChain (b :: blocks) data len).2.level1 ⟨b.toNat, h⟩ =
      some (block.written data 0 (min bytesPerBlock len)) := by
  have hout : ∀ c ∈ blocks, (⟨b.toNat, h⟩ : Fin lensCount).val ≠ c.toNat := by
    intro c hc he
    exact (List.nodup_cons.mp hnodup).1 (BitVec.eq_of_toNat_eq he ▸ hc)
  rw [writeChain, writeChainFrom, if_pos hlen]
  simp only
  rw [writeChainFrom_level1_of_notMem _ _ hout, writeBlockData_eq h hb]
  simp

section RoundTrip
variable {t : Topology} {blocks : List (BitVec 16)} {data out : Buffer} {len : Nat}

variable (data out) in
/-- A nonempty chain reads back what its first block gives. -/
theorem readBlockData_chain_head {b : BitVec 16} (hnodup : (b :: blocks).Nodup)
    (h : b.toNat < lensCount) {block : Block} (hb : t.level1 ⟨b.toNat, h⟩ = some block)
    (hpos : 0 < len) :
    (t.writeChain (b :: blocks) data len).2.readBlockData b out 0 len =
      (min len readableBytes, blit out 0 (block.written data 0 (min bytesPerBlock len)).payload 0
        (min len readableBytes)) := by
  have hB : bytesPerBlock = 1024 * 13 := rfl
  have hR : readableBytes = 1021 * 13 := rfl
  have hP : payloadBytesPerHop = 13 := rfl
  have hread := readBlockData_written h (level1_writeChain_head hnodup h hb data hpos) (by omega)
    out 0 len
  rwa [hP, show min len (min readableBytes (13 * ((min bytesPerBlock len + 12) / 13))) =
    min len readableBytes by omega] at hread

theorem le_readable_of_roundTrips (ht : t.Initialized) (hnodup : blocks.Nodup)
    (hrange : ∀ b ∈ blocks, b.toNat < lensCount) (hlen : len ≤ bytesPerBlock * blocks.length)
    (hround : t.RoundTrips blocks data len out) : len ≤ readableBytes := by
  have hB : bytesPerBlock = 1024 * 13 := rfl
  have hR : readableBytes = 1021 * 13 := rfl
  cases blocks with
  | nil =>
    simp only [List.length_nil, Nat.mul_zero] at hlen
    omega
  | cons b blocks =>
    by_contra hbig
    have h := hrange b List.mem_cons_self
    obtain ⟨block, hb⟩ := Option.isSome_iff_exists.mp (ht ⟨b.toNat, h⟩)
    have hread := readBlockData_chain_head data out hnodup h hb
      (by omega : 0 < len)
    have hreads := hround.reads
    -- the first block comes back short, so the loop of read_chain ends with it
    rw [readChain, readChainFrom, if_pos (by omega), Nat.sub_zero, hread] at hreads
    simp only at hreads
    rw [if_pos (by omega)] at hreads
    simp only at hreads
    omega

variable (t data out) in
theorem roundTrips_zero (blocks : List (BitVec 16)) : t.RoundTrips blocks data 0 out := by
  refine ⟨?_, ?_, fun i hi => absurd hi (Nat.not_lt_zero i)⟩
  · rw [writeChain, writeChainFrom_done data (Nat.le_refl 0)]
  · cases blocks <;> simp [readChain, readChainFrom]

/-- A first block that exists takes everything that a single block can give back. -/
theorem roundTrips_of_head (ht : t.Initialized) {b : BitVec 16} (hnodup : (b :: blocks).Nodup)
    (h : b.toNat < lensCount) (hsmall : len ≤ readableBytes) :
    t.RoundTrips (b :: blocks) data len out := by
  have hB : bytesPerBlock = 1024 * 13 := rfl
  have hR : readableBytes = 1021 * 13 := rfl
  rcases Nat.eq_zero_or_pos len with rfl | hpos
  · exact roundTrips_zero t data out (b :: blocks)
  obtain ⟨block, hb⟩ := Option.isSome_iff_exists.mp (ht ⟨b.toNat, h⟩)
  have hread := readBlockData_chain_head data out hnodup h hb hpos
  have hchain : (t.writeChain (b :: blocks) data len).2.readChain (b :: blocks) out len =
      (len, blit out 0 (block.written data 0 (min bytesPerBlock len)).payload 0 len) := by
    rw [readChain, readChainFrom, if_pos hpos, Nat.sub_zero, hread, Nat.min_eq_left hsmall]
    simp only
    rw [if_pos (by omega), Nat.zero_add]
  refine ⟨?_, by rw [hchain], fun i hi => ?_⟩
  · rw [writeChain, writeChainFrom, if_pos hpos]
    simp only
    rw [writeBlockData_eq h hb]
    simp only
    rw [writeChainFrom_done data (by omega)]
    simp only
    omega
  · rw [hchain]
    simp only
    rw [blit_inside _ _ (by omega) (by omega), Nat.zero_add, Nat.sub_zero,
      Block.payload_written _ _ _ (by omega) (by omega), Nat.zero_add]

theorem roundTrips_of_le_readable (ht : t.Initialized) (hnodup : blocks.Nodup)
    (hrange : ∀ b ∈ blocks, b.toNat < lensCount) (hlen : len ≤ bytesPerBlock * blocks.length)
    (hsmall : len ≤ readableBytes) : t.RoundTrips blocks data len out := by
  cases blocks with
  | nil =>
    obtain rfl : len = 0 := Nat.le_zero.mp hlen
    exact roundTrips_zero t data out []
  | cons b blocks =>
    exact roundTrips_of_head ht hnodup (hrange b List.mem_cons_self) hsmall

end RoundTrip

/-- A list of distinct blocks gives data back if and only if the data needs no link with
a reserved code, that is, fits the readable part of one block. -/
theorem roundTrips_iff_readable (t : Topology) (ht : t.Initialized) (blocks : List (BitVec 16))
    (hnodup : blocks.Nodup) (hrange : ∀ b ∈ blocks, b.toNat < lensCount) (data : Buffer)
    (len : Nat) (hlen : len ≤ bytesPerBlock * blocks.length) (out : Buffer) :
    t.RoundTrips blocks data len out ↔ len ≤ readableBytes :=
  ⟨le_readable_of_roundTrips ht hnodup hrange hlen,
    roundTrips_of_le_readable ht hnodup hrange hlen⟩

/-- A topology set up by initialize with seed {1, 2}. -/
def sample : Topology := (construct ⟨0, 0⟩ fun _ => ⟨0, 0⟩).initializeWith ⟨1, 2⟩

theorem sample_initialized : sample.Initialized := initializeWith_initialized _ _

def ones : Buffer := fun _ => 1

theorem roundTrips_two_blocks : sample.RoundTrips [5, 9] ones 13273 ones :=
  (roundTrips_iff_readable sample sample_initialized [5, 9] (by decide) (by simp [lensCount]) ones
    13273 (by decide) ones).mpr (by decide)

/-- One byte more needs a link to entry 1021. -/
theorem not_roundTrips_reserved_link :
    sample.Initialized ∧ [(5 : BitVec 16), 9].Nodup ∧
      (∀ b ∈ [(5 : BitVec 16), 9], b.toNat < lensCount) ∧
      13274 ≤ bytesPerBlock * [(5 : BitVec 16), 9].length ∧
      ¬sample.RoundTrips [5, 9] ones 13274 ones :=
  ⟨sample_initialized, by decide, by simp [lensCount], by decide, fun h =>
    absurd (le_readable_of_roundTrips sample_initialized (by decide) (by simp [lensCount])
      (by decide) h) (by decide)⟩

/-- What read_block_data gives after n bytes of data were written to the block. -/
structure ReadsBack (data : Buffer) (n maxLen : Nat) (result : Nat × Buffer) : Prop where
  length : result.1 = min maxLen (payloadBytesPerHop * ((n + 12) / payloadBytesPerHop))
  bytes : ∀ i < min maxLen n, result.2 i = data i
  padding : ∀ i, min maxLen n ≤ i → i < result.1 → result.2 i = 0

/-- Up to 13273 bytes, a block gives back what was written and zeros up to the end of the last
hop, whatever it held before. -/
theorem readBlockData_writeBlockData (t : Topology) (ht : t.Initialized) (idx : BitVec 16)
    (hidx : idx.toNat < lensCount) (data : Buffer) (n : Nat) (hpos : 1 ≤ n) (hn : n ≤ 13273)
    (out : Buffer) (maxLen : Nat) :
    ReadsBack data n maxLen
      ((t.writeBlockData idx data 0 n).2.readBlockData idx out 0 maxLen) := by
  have hB : bytesPerBlock = 1024 * 13 := rfl
  have hR : readableBytes = 1021 * 13 := rfl
  have hP : payloadBytesPerHop = 13 := rfl
  obtain ⟨b, hb⟩ := Option.isSome_iff_exists.mp (ht ⟨idx.toNat, hidx⟩)
  have hwritten : (t.writeBlockData idx data 0 n).2.level1 ⟨idx.toNat, hidx⟩ =
      some (b.written data 0 n) := by
    rw [writeBlockData_eq hidx hb]
    simp only [Function.update_self]
  -- 1021 whole hops hold every length allowed here
  have hreadable : min readableBytes (payloadBytesPerHop * ((n + 12) / payloadBytesPerHop)) =
      payloadBytesPerHop * ((n + 12) / payloadBytesPerHop) := by
    rw [hR, hP]
    omega
  have hread := readBlockData_written hidx hwritten hpos out 0 maxLen
  rw [hreadable] at hread
  rw [hread]
  refine ⟨rfl, fun i hi => ?_, fun i hi hlast => ?_⟩
  · simp only
    rw [hP, blit_inside _ _ (Nat.zero_le i) (by omega), Nat.zero_add, Nat.sub_zero,
      Block.payload_written b data 0 (by omega) (by omega), Nat.zero_add]
  · simp only at hlast ⊢
    rw [blit_inside _ _ (Nat.zero_le i) (by omega), Nat.zero_add, Nat.sub_zero]
    rw [hP] at hlast
    exact Block.payload_written_zero b data 0 (by omega) (by rw [hP]; omega) (by omega)

theorem readBlockData_writeBlockData_padded : ReadsBack ones 20 30
    ((sample.writeBlockData 5 ones 0 20).2.readBlockData 5 (fun _ => 7) 0 30) :=
  readBlockData_writeBlockData sample sample_initialized 5 (by decide) ones 20 (by decide)
    (by decide) (fun _ => 7) 30

end Topology

/-- The operations that change stored data. -/
inductive DataOp where
  | writeBlockData (idx : BitVec 16) (data : Buffer) (len : Nat)
  | writeChain (blocks : List (BitVec 16)) (data : Buffer) (len : Nat)
  | clearBlocks (blocks : List (BitVec 16))

namespace Topology

def apply (t : Topology) : DataOp → Topology
  | .writeBlockData idx data len => (t.writeBlockData idx data 0 len).2
  | .writeChain blocks data len => (t.writeChain blocks data len).2
  | .clearBlocks blocks => t.clearBlocks blocks

def runData (t : Topology) (ops : List DataOp) : Topology := ops.foldl apply t

/-- The fields set up by initialize(s), all but the contents of the level-1 blocks. -/
structure SetUp (s : Seed) (t : Topology) : Prop where
  seed : t.seed = s
  lensKeys : t.lensKeys = generate s
  root : t.root = Block.new
  level1 : t.Initialized

theorem initializeWith_setUp (t : Topology) (s : Seed) : SetUp s (t.initializeWith s) := by
  refine ⟨?_, ?_, ?_, initializeWith_initialized t s⟩ <;> rw [initializeWith_eq]

theorem writeBlockData_frame (t : Topology) (idx : BitVec 16) (data : Buffer) (d len : Nat) :
    (t.writeBlockData idx data d len).2.seed = t.seed ∧
      (t.writeBlockData idx data d len).2.lensKeys = t.lensKeys ∧
      (t.writeBlockData idx data d len).2.root = t.root := by
  unfold writeBlockData
  split
  · split <;> exact ⟨rfl, rfl, rfl⟩
  · exact ⟨rfl, rfl, rfl⟩

theorem writeBlockData_setUp {s : Seed} {t : Topology} (ht : SetUp s t) (idx : BitVec 16)
    (data : Buffer) (d len : Nat) : SetUp s (t.writeBlockData idx data d len).2 := by
  obtain ⟨hseed, hkeys, hroot⟩ := writeBlockData_frame t idx data d len
  exact ⟨hseed.trans ht.seed, hkeys.trans ht.lensKeys, hroot.trans ht.root,
    writeBlockData_initialized ht.level1 idx data d len⟩

theorem writeChainFrom_setUp {s : Seed} (data : Buffer) (len : Nat) (blocks : List (BitVec 16))
    (written : Nat) {t : Topology} (ht : SetUp s t) :
    SetUp s (writeChainFrom data len blocks written t).2 := by
  induction blocks generalizing written t with
  | nil => exact ht
  | cons b blocks ih =>
    rw [writeChainFrom]
    split
    · exact ih _ (writeBlockData_setUp ht b data _ _)
    · exact ht

theorem clearBlocks_setUp {s : Seed} {t : Topology} (ht : SetUp s t) (blocks : List (BitVec 16)) :
    SetUp s (t.clearBlocks blocks) := by
  suffices h : ∀ t, SetUp s t → SetUp s (blocks.foldl (fun t idx =>
      if h : idx.toNat < lensCount then
        { t with
          level1 := Function.update t.level1 ⟨idx.toNat, h⟩
            ((t.level1 ⟨idx.toNat, h⟩).map fun b =>
              ⟨fun i => (b.entries i).packRoute freeRoute⟩) }
      else t) t) by
    obtain ⟨hseed, hkeys, hroot, hlevel1⟩ := h t ht
    exact ⟨hseed, hkeys, hroot, hlevel1⟩
  induction blocks with
  | nil => exact fun t ht => ht
  | cons b blocks ih =>
    intro t ht
    rw [List.foldl_cons]
    apply ih
    split
    · rename_i hb
      refine ⟨ht.seed, ht.lensKeys, ht.root, fun j => ?_⟩
      by_cases hj : j = ⟨b.toNat, hb⟩
      · subst j
        simpa only [Function.update_self, Option.isSome_map] using ht.level1 ⟨b.toNat, hb⟩
      · simpa only [Function.update_of_ne hj] using ht.level1 j
    · exact ht

theorem apply_setUp {s : Seed} {t : Topology} (ht : SetUp s t) (op : DataOp) :
    SetUp s (t.apply op) := by
  cases op with
  | writeBlockData idx data len => exact writeBlockData_setUp ht idx data 0 len
  | writeChain blocks data len => exact writeChainFrom_setUp data len blocks 0 ht
  | clearBlocks blocks => exact clearBlocks_setUp ht blocks

theorem runData_setUp {s : Seed} {t : Topology} (ht : SetUp s t) (ops : List DataOp) :
    SetUp s (t.runData ops) :=
  List.foldlRecOn ops apply ht fun _ ht op _ => apply_setUp ht op

end Topology

end EmergenceOS.Vdev.BmtTopology
