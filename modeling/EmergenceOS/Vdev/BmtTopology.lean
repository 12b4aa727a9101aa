/- Module: EmergenceOS/Vdev/BmtTopology
   digest: The reference topology: routed entries, lens keys, blocks and their data operations. -/

import EmergenceOS.Lib.Bytes
import Mathlib.Logic.Function.Iterate

/-!
An entry carries 13 payload bytes, a 10-bit route and a 2-bit checksum. The route
of a data entry is the index of the next one; three of the 1024 codes are
reserved, and nothing keeps them apart from the indices 1021, 1022 and 1023.
-/

set_option autoImplicit false
set_option relaxedAutoImplicit false

namespace EmergenceOS.Vdev.BmtTopology

open EmergenceOS.Lib.Bytes

def lensCount : Nat := 1024
def lensMask : BitVec 16 := 0x3FF
def haltRoute : BitVec 16 := 0x3FF
def freeRoute : BitVec 16 := 0x3FD
def phiHi : BitVec 64 := 0x9E3779B97F4A7C15
def phiLo : BitVec 64 := 0x517CC1B727220A95
def entriesPerBlock : Nat := 1024
def payloadBytesPerHop : Nat := 13
def blockSizeBytes : Nat := entriesPerBlock * 16
def bytesPerBlock : Nat := entriesPerBlock * payloadBytesPerHop

@[ext] structure Value128 where
  hi : BitVec 64
  lo : BitVec 64
  deriving DecidableEq

namespace Value128

def route (v : Value128) : BitVec 16 := (v.hi >>> 54).setWidth 16 &&& lensMask

def computeCrc (v : Value128) : Byte :=
  let payloadHi := v.hi &&& 0x000FFFFFFFFFFFFF
  let fold := payloadHi ^^^ v.lo
  let fold := fold ^^^ (fold >>> 32)
  let fold := fold ^^^ (fold >>> 16)
  let fold := fold ^^^ (fold >>> 8)
  let fold := fold ^^^ (fold >>> 4)
  let fold := fold ^^^ (fold >>> 2)
  (fold &&& 0x03).setWidth 8

def packRoute (v : Value128) (r : BitVec 16) : Value128 :=
  let hi := v.hi &&& 0x000FFFFFFFFFFFFF
  let hi := hi ||| ((r &&& lensMask).setWidth 64 <<< 54)
  let c := computeCrc ⟨hi, v.lo⟩
  ⟨hi ||| ((c &&& 0x03).setWidth 64 <<< 52), v.lo⟩

/-- The two copy loops of get_payload, and the number of bytes copied. -/
def getPayload (v : Value128) (out : Buffer) (maxBytes : Nat) : Nat × Buffer :=
  let n := min 8 maxBytes
  let out := blit out 0 (byteAt v.lo) 0 n
  let m := min 5 (maxBytes - n)
  (n + m, blit out n (byteAt v.hi) 0 m)

/-- Bytes that the data does not reach are cleared; route and checksum bits stay. -/
def setPayload (v : Value128) (data : Buffer) (d len : Nat) : Value128 :=
  let topBits := v.hi &&& 0xFFF0000000000000
  ⟨ofBytes 64 (fun i => data (d + 8 + i)) (min 5 (len - 8)) ||| topBits,
    ofBytes 64 (fun i => data (d + i)) (min 8 len)⟩

/-- Payload byte k of an entry. -/
def payloadByte (v : Value128) (k : Nat) : Byte :=
  if k < 8 then byteAt v.lo k else byteAt v.hi (k - 8)

end Value128

structure Seed where
  hi : BitVec 64
  lo : BitVec 64
  deriving DecidableEq

structure LensKey where
  hi : BitVec 64
  lo : BitVec 64
  deriving DecidableEq

/-- One of the 64 rounds for lens i. -/
def lensRound (i : BitVec 64) (mix : BitVec 64 × BitVec 64) : BitVec 64 × BitVec 64 :=
  let mixHi := ((mix.1 <<< 7) ||| (mix.1 >>> 57)) ^^^ (mix.2 * phiHi)
  let mixLo := ((mix.2 <<< 11) ||| (mix.2 >>> 53)) ^^^ (mixHi * phiLo)
  (mixHi + i, mixLo)

/-- LensGenerator::generate. -/
def generate (master : Seed) : Fin lensCount → LensKey := fun i =>
  let n := BitVec.ofNat 64 i.val
  let mix := (lensRound n)^[64] (master.hi ^^^ n, master.lo ^^^ (n <<< 32))
  ⟨mix.1, mix.2⟩

structure Block where
  entries : Fin entriesPerBlock → Value128

/-- A constructed block: all entries zero and marked free. -/
def Block.new : Block := ⟨fun _ => (Value128.mk 0 0).packRoute freeRoute⟩

/-- The stream step that expand_block and obfuscate share. -/
def spin (s : BitVec 64 × BitVec 64) : BitVec 64 × BitVec 64 :=
  let sh := ((s.1 <<< 13) ||| (s.1 >>> 51)) ^^^ (s.2 * phiHi)
  let sl := ((s.2 <<< 17) ||| (s.2 >>> 47)) ^^^ (sh * phiLo)
  (sh, sl)

/-- Entry j of an expanded block is the stream after j + 1 steps. -/
def expandedBlock (lk : LensKey) : Block :=
  ⟨fun j =>
    let s := spin^[j.val + 1] (lk.hi, lk.lo)
    (Value128.mk s.1 s.2).packRoute freeRoute⟩

/-- level1_ always has lensCount pointers; none is the null pointer. -/
structure Topology where
  seed : Seed
  lensKeys : Fin lensCount → LensKey
  root : Block
  level1 : Fin lensCount → Option Block
  dirty : Bool

/-- The first loop of write_block_data: one entry for each chunk of 13 bytes. -/
def writeHops (data : Buffer) (d len : Nat) (es : Fin entriesPerBlock → Value128)
    (written entry : Nat) : (Fin entriesPerBlock → Value128) × Nat × Nat :=
  if h : written < len ∧ entry < entriesPerBlock then
    let chunk := min payloadBytesPerHop (len - written)
    let v := (es ⟨entry, h.2⟩).setPayload data (d + written) chunk
    let v :=
      if written + chunk < len ∧ entry + 1 < entriesPerBlock then
        v.packRoute (BitVec.ofNat 16 (entry + 1))
      else v.packRoute haltRoute
    writeHops data d len (Function.update es ⟨entry, h.2⟩ v) (written + chunk) (entry + 1)
  else (es, written, entry)
termination_by entriesPerBlock - entry

/-- The second loop of write_block_data: the entries left over are marked free. -/
def freeRest (es : Fin entriesPerBlock → Value128) (entry : Nat) :
    Fin entriesPerBlock → Value128 :=
  if h : entry < entriesPerBlock then
    freeRest (Function.update es ⟨entry, h⟩ ((es ⟨entry, h⟩).packRoute freeRoute)) (entry + 1)
  else es
termination_by entriesPerBlock - entry

/-- The loop of read_block_data. Each turn copies at least one byte, whatever the routes say. -/
def readHops (es : Fin entriesPerBlock → Value128) (out : Buffer) (o maxLen total entry : Nat) :
    Nat × Buffer :=
  if h : total < maxLen ∧ entry < entriesPerBlock then
    let v := es ⟨entry, h.2⟩
    let got := v.getPayload (fun _ => 0) payloadBytesPerHop
    let cp := min got.1 (maxLen - total)
    let out := blit out (o + total) got.2 0 cp
    if v.route = haltRoute ∨ v.route = freeRoute then (total + cp, out)
    else if v.route.toNat < entriesPerBlock then
      readHops es out o maxLen (total + cp) v.route.toNat
    else (total + cp, out)
  else (total, out)
termination_by maxLen - total
decreasing_by
  simp only [Value128.getPayload, payloadBytesPerHop]
  omega

namespace Topology

/-- A constructed object: seed and keys are whatever the storage held. -/
def construct (seed : Seed) (lensKeys : Fin lensCount → LensKey) : Topology :=
  ⟨seed, lensKeys, Block.new, fun _ => none, false⟩

def expandBlock (t : Topology) (lensIndex : Fin lensCount) : Topology :=
  { t with
    level1 := Function.update t.level1 lensIndex
      ((t.level1 lensIndex).map fun _ => expandedBlock (t.lensKeys lensIndex)) }

/-- Topology::initialize(s). -/
def initializeWith (t : Topology) (s : Seed) : Topology :=
  let t := { t with seed := s, lensKeys := generate s, root := Block.new }
  let t := (List.finRange lensCount).foldl (fun t i =>
    expandBlock { t with level1 := Function.update t.level1 i (some Block.new) } i) t
  { t with dirty := true }

def writeBlockData (t : Topology) (idx : BitVec 16) (data : Buffer) (d len : Nat) :
    Nat × Topology :=
  if h : idx.toNat < lensCount then
    match t.level1 ⟨idx.toNat, h⟩ with
    | none => (0, t)
    | some block =>
      let (es, written, entry) := writeHops data d len block.entries 0 0
      (written, { t with
        level1 := Function.update t.level1 ⟨idx.toNat, h⟩ (some ⟨freeRest es entry⟩)
        dirty := true })
  else (0, t)

def readBlockData (t : Topology) (idx : BitVec 16) (out : Buffer) (o maxLen : Nat) :
    Nat × Buffer :=
  if h : idx.toNat < lensCount then
    match t.level1 ⟨idx.toNat, h⟩ with
    | none => (0, out)
    | some block => readHops block.entries out o maxLen 0 0
  else (0, out)

/-- The loop of write_chain over the blocks that are left. -/
def writeChainFrom (data : Buffer) (len : Nat) :
    List (BitVec 16) → Nat → Topology → Nat × Topology
  | [], written, t => (written, t)
  | b :: blocks, written, t =>
    if written < len then
      let toWrite := min bytesPerBlock (len - written)
      let (w, t) := t.writeBlockData b data written toWrite
      writeChainFrom data len blocks (written + w) t
    else (written, t)

def writeChain (t : Topology) (blocks : List (BitVec 16)) (data : Buffer) (len : Nat) :
    Nat × Topology :=
  writeChainFrom data len blocks 0 t

/-- The loop of read_chain over the blocks that are left. -/
def readChainFrom (t : Topology) (maxLen : Nat) :
    List (BitVec 16) → Nat → Buffer → Nat × Buffer
  | [], total, out => (total, out)
  | b :: blocks, total, out =>
    if total < maxLen then
      let (r, out) := t.readBlockData b out total (maxLen - total)
      if r < bytesPerBlock then (total + r, out)
      else readChainFrom t maxLen blocks (total + r) out
    else (total, out)

def readChain (t : Topology) (blocks : List (BitVec 16)) (out : Buffer) (maxLen : Nat) :
    Nat × Buffer :=
  readChainFrom t maxLen blocks 0 out

def clearBlocks (t : Topology) (blocks : List (BitVec 16)) : Topology :=
  let t := blocks.foldl (fun t idx =>
    if h : idx.toNat < lensCount then
      { t with
        level1 := Function.update t.level1 ⟨idx.toNat, h⟩
          ((t.level1 ⟨idx.toNat, h⟩).map fun b =>
            ⟨fun i => (b.entries i).packRoute freeRoute⟩) }
    else t) t
  { t with dirty := true }

/-- All level-1 blocks are allocated. -/
def Initialized (t : Topology) : Prop := ∀ i, (t.level1 i).isSome

end Topology

namespace Value128

theorem payloadMask_getLsbD (i : Nat) :
    (0x000FFFFFFFFFFFFF : BitVec 64).getLsbD i = decide (i < 52) :=
  getLsbD_lowMask (w := 64) (n := 52) (by decide) i

theorem lensMask_getLsbD (i : Nat) : lensMask.getLsbD i = decide (i < 10) :=
  getLsbD_lowMask (w := 16) (n := 10) (by decide) i

theorem crcMask_getLsbD (i : Nat) : (0x03 : Byte).getLsbD i = decide (i < 2) :=
  getLsbD_lowMask (w := 8) (n := 2) (by decide) i

theorem topMask_getLsbD (i : Nat) :
    (0xFFF0000000000000 : BitVec 64).getLsbD i = (decide (i < 64) && !decide (i < 52)) := by
  rw [show (0xFFF0000000000000 : BitVec 64) = ~~~0x000FFFFFFFFFFFFF by decide,
    BitVec.getLsbD_not, payloadMask_getLsbD]

theorem packRoute_payloadBit (v : Value128) (r : BitVec 16) {i : Nat} (hi : i < 52) :
    (v.packRoute r).hi.getLsbD i = v.hi.getLsbD i := by
  simp only [packRoute, BitVec.getLsbD_or, BitVec.getLsbD_and, payloadMask_getLsbD,
    BitVec.getLsbD_shiftLeft]
  simp [hi, show i < 54 by omega]

theorem packRoute_routeBit (v : Value128) (r : BitVec 16) {i : Nat} (hi : i < 10) :
    (v.packRoute r).hi.getLsbD (54 + i) = r.getLsbD i := by
  simp only [packRoute, BitVec.getLsbD_or, BitVec.getLsbD_and, payloadMask_getLsbD,
    BitVec.getLsbD_shiftLeft, BitVec.getLsbD_setWidth, lensMask_getLsbD, crcMask_getLsbD]
  have hcrc : ¬54 + i - 52 < 2 := by omega
  simp [hi, hcrc, show ¬54 + i < 52 by omega, show 54 + i < 64 by omega, show i < 64 by omega]

theorem route_packRoute (v : Value128) (r : BitVec 16) :
    (v.packRoute r).route = r &&& lensMask := by
  apply BitVec.eq_of_getLsbD_eq
  intro i hi
  simp only [route, BitVec.getLsbD_and, BitVec.getLsbD_setWidth, BitVec.getLsbD_ushiftRight,
    lensMask_getLsbD]
  by_cases h10 : i < 10
  · simp [hi, h10, packRoute_routeBit v r h10]
  · simp [h10]

theorem payloadByte_packRoute (v : Value128) (r : BitVec 16) {k : Nat} (hk : k < 13) :
    (v.packRoute r).payloadByte k = v.payloadByte k := by
  unfold payloadByte
  split
  · rfl
  · apply BitVec.eq_of_getLsbD_eq
    intro i hi
    rw [byteAt_getLsbD, byteAt_getLsbD, packRoute_payloadBit v r (by omega)]

theorem payloadByte_setPayload (v : Value128) (data : Buffer) (d len : Nat) {k : Nat}
    (hk : k < 13) :
    (v.setPayload data d len).payloadByte k = if k < len then data (d + k) else 0 := by
  unfold payloadByte setPayload
  by_cases h8 : k < 8
  · rw [if_pos h8, byteAt_ofBytes _ (by omega)]
    simp only [show k < min 8 len ↔ k < len by omega]
  · rw [if_neg h8]
    have hlow (w : BitVec 64) :
        byteAt (w ||| v.hi &&& 0xFFF0000000000000) (k - 8) = byteAt w (k - 8) := by
      apply BitVec.eq_of_getLsbD_eq
      intro i hi
      simp only [byteAt_getLsbD, BitVec.getLsbD_or, BitVec.getLsbD_and, topMask_getLsbD]
      simp [show 8 * (k - 8) + i < 52 by omega]
    rw [hlow, byteAt_ofBytes _ (by omega)]
    by_cases hl : k < len
    · rw [if_pos (by omega), if_pos hl]
      congr 1
      omega
    · rw [if_neg (by omega), if_neg hl]

theorem getPayload_hop (v : Value128) (out : Buffer) :
    (v.getPayload out payloadBytesPerHop).1 = payloadBytesPerHop := rfl

/-- The two loops of get_payload copy the payload bytes one after another. -/
theorem getPayload_eq (v : Value128) (out : Buffer) (maxBytes : Nat) :
    v.getPayload out maxBytes =
      (min 13 maxBytes, blit out 0 v.payloadByte 0 (min 13 maxBytes)) := by
  have hlo : blit out 0 (byteAt v.lo) 0 (min 8 maxBytes) =
      blit out 0 v.payloadByte 0 (min 8 maxBytes) :=
    blit_congr out 0 fun k hk => by rw [payloadByte, if_pos (by omega)]
  have hhi (dest : Buffer) :
      blit dest (min 8 maxBytes) (byteAt v.hi) 0 (min 5 (maxBytes - min 8 maxBytes)) =
        blit dest (0 + min 8 maxBytes) v.payloadByte (0 + min 8 maxBytes)
          (min 5 (maxBytes - min 8 maxBytes)) := by
    rw [Nat.zero_add]
    refine blit_congr dest _ fun k hk => ?_
    rw [payloadByte, if_neg (by omega)]
    congr 1
    omega
  have hcount : min 8 maxBytes + min 5 (maxBytes - min 8 maxBytes) = min 13 maxBytes := by omega
  simp only [getPayload]
  rw [hlo, hhi, blit_blit, hcount]

theorem getPayload_hop_apply (v : Value128) (out : Buffer) {k : Nat} (hk : k < 13) :
    (v.getPayload out payloadBytesPerHop).2 k = v.payloadByte k := by
  have hcopied := blit_inside out v.payloadByte (d := 0) (s := 0) (n := 13) (Nat.zero_le k)
    (by omega)
  rw [Nat.sub_zero, Nat.zero_add] at hcopied
  rw [getPayload_eq]
  exact hcopied

end Value128

/-- What write_block_data leaves in entry e, which held v. -/
def hop (v : Value128) (data : Buffer) (d len e : Nat) : Value128 :=
  let chunk := min payloadBytesPerHop (len - payloadBytesPerHop * e)
  let v := v.setPayload data (d + payloadBytesPerHop * e) chunk
  if payloadBytesPerHop * e + chunk < len ∧ e + 1 < entriesPerBlock then
    v.packRoute (BitVec.ofNat 16 (e + 1))
  else v.packRoute haltRoute

/-- A block after write_block_data: entries with data, then free ones with their old payload. -/
def Block.written (b : Block) (data : Buffer) (d len : Nat) : Block :=
  ⟨fun e =>
    if payloadBytesPerHop * e.val < len then hop (b.entries e) data d len e.val
    else (b.entries e).packRoute freeRoute⟩

/-- The payload bytes of a block in entry order. -/
def Block.payload (b : Block) : Buffer := fun i =>
  if h : i / payloadBytesPerHop < entriesPerBlock then
    (b.entries ⟨i / payloadBytesPerHop, h⟩).payloadByte (i % payloadBytesPerHop)
  else 0

theorem writeHops_step (data : Buffer) (d : Nat) {len : Nat}
    (es : Fin entriesPerBlock → Value128) {k : Nat} (hk : k < entriesPerBlock)
    (hlen : payloadBytesPerHop * k < len) :
    writeHops data d len es (min len (payloadBytesPerHop * k)) k =
      writeHops data d len (Function.update es ⟨k, hk⟩ (hop (es ⟨k, hk⟩) data d len k))
        (min len (payloadBytesPerHop * (k + 1))) (k + 1) := by
  have hmin : min len (payloadBytesPerHop * k) = payloadBytesPerHop * k := by omega
  have hnext : payloadBytesPerHop * k + min payloadBytesPerHop (len - payloadBytesPerHop * k) =
      min len (payloadBytesPerHop * (k + 1)) := by
    rw [Nat.mul_succ]
    omega
  rw [hmin, writeHops, dif_pos ⟨hlen, hk⟩]
  simp only [hnext]
  unfold hop
  simp only [hnext]

theorem writeHops_stop (data : Buffer) (d : Nat) {len : Nat}
    (es : Fin entriesPerBlock → Value128) {k : Nat}
    (h : len ≤ payloadBytesPerHop * k ∨ entriesPerBlock ≤ k) :
    writeHops data d len es (min len (payloadBytesPerHop * k)) k =
      (es, min len (payloadBytesPerHop * k), k) := by
  rw [writeHops, dif_neg (by omega)]

/-- The first loop from entry k on: it stops after the last chunk or the last entry. -/
theorem writeHops_spec (data : Buffer) (d len : Nat) (es : Fin entriesPerBlock → Value128)
    (k : Nat) (hk : k ≤ entriesPerBlock) :
    writeHops data d len es (min len (payloadBytesPerHop * k)) k =
      (fun e => if k ≤ e.val ∧ payloadBytesPerHop * e.val < len then hop (es e) data d len e.val
        else es e,
      min len bytesPerBlock,
      max k (min entriesPerBlock ((len + 12) / payloadBytesPerHop))) := by
  have hE : entriesPerBlock = 1024 := rfl
  have hB : bytesPerBlock = 1024 * 13 := rfl
  have hP : payloadBytesPerHop = 13 := rfl
  obtain ⟨n, hn⟩ : ∃ n, k + n = entriesPerBlock := ⟨entriesPerBlock - k, by omega⟩
  induction n generalizing k es with
  | zero =>
    rw [writeHops_stop data d es (Or.inr (by omega))]
    have hes : (fun e => if k ≤ e.val ∧ payloadBytesPerHop * e.val < len then
        hop (es e) data d len e.val else es e) = es := by
      funext e
      exact if_neg (by omega)
    have hwritten : min len (payloadBytesPerHop * k) = min len bytesPerBlock := by
      rw [hP]
      omega
    have hentry : max k (min entriesPerBlock ((len + 12) / payloadBytesPerHop)) = k := by omega
    rw [hes, hwritten, hentry]
  | succ n ih =>
    by_cases hlen : payloadBytesPerHop * k < len
    · rw [writeHops_step data d es (by omega) hlen, ih _ (k + 1) (by omega) (by omega)]
      have hmax : max (k + 1) (min entriesPerBlock ((len + 12) / payloadBytesPerHop)) =
          max k (min entriesPerBlock ((len + 12) / payloadBytesPerHop)) := by
        rw [hP] at hlen ⊢
        omega
      rw [hmax]
      congr 1
      funext e
      by_cases he : e = ⟨k, by omega⟩
      · subst e
        rw [if_neg (by simp only; omega), if_pos ⟨Nat.le_refl k, hlen⟩, Function.update_self]
      · have hne : e.val ≠ k := fun h => he (Fin.ext h)
        simp only [Function.update_of_ne he, show k + 1 ≤ e.val ↔ k ≤ e.val by omega]
    · rw [writeHops_stop data d es (Or.inl (by omega))]
      have hes : (fun e => if k ≤ e.val ∧ payloadBytesPerHop * e.val < len then
          hop (es e) data d len e.val else es e) = es := by
        funext e
        rw [hP] at hlen ⊢
        exact if_neg (by omega)
      have hwritten : min len (payloadBytesPerHop * k) = min len bytesPerBlock := by
        rw [hP] at hlen ⊢
        omega
      have hentry : max k (min entriesPerBlock ((len + 12) / payloadBytesPerHop)) = k := by
        rw [hP] at hlen ⊢
        omega
      rw [hes, hwritten, hentry]

theorem freeRest_spec (es : Fin entriesPerBlock → Value128) (k : Nat) (hk : k ≤ entriesPerBlock) :
    freeRest es k = fun e => if k ≤ e.val then (es e).packRoute freeRoute else es e := by
  obtain ⟨n, hn⟩ : ∃ n, k + n = entriesPerBlock := ⟨entriesPerBlock - k, by omega⟩
  induction n generalizing k es with
  | zero =>
    rw [freeRest, dif_neg (by omega)]
    funext e
    rw [if_neg (by omega)]
  | succ n ih =>
    rw [freeRest, dif_pos (by omega), ih _ (k + 1) (by omega) (by omega)]
    funext e
    by_cases he : e = ⟨k, by omega⟩
    · subst e
      rw [if_neg (by simp only; omega), if_pos (Nat.le_refl k), Function.update_self]
    · have hne : e.val ≠ k := fun h => he (Fin.ext h)
      simp only [Function.update_of_ne he, show k + 1 ≤ e.val ↔ k ≤ e.val by omega]

theorem writeHops_freeRest (b : Block) (data : Buffer) (d len : Nat) :
    (writeHops data d len b.entries 0 0).2.1 = min len bytesPerBlock ∧
      freeRest (writeHops data d len b.entries 0 0).1 (writeHops data d len b.entries 0 0).2.2 =
        (b.written data d len).entries := by
  have h := writeHops_spec data d len b.entries 0 (Nat.zero_le _)
  rw [Nat.mul_zero, Nat.min_zero] at h
  rw [h]
  refine ⟨rfl, ?_⟩
  simp only [Nat.zero_max]
  rw [freeRest_spec _ _ (Nat.min_le_left _ _)]
  funext e
  have he := e.isLt
  simp only [Block.written]
  by_cases hlen : payloadBytesPerHop * e.val < len
  · rw [if_neg (by simp only [payloadBytesPerHop] at hlen ⊢; omega), if_pos ⟨Nat.zero_le _, hlen⟩,
      if_pos hlen]
  · rw [if_pos (by simp only [payloadBytesPerHop] at hlen ⊢; omega), if_neg (fun h => hlen h.2),
      if_neg hlen]

namespace Topology

private theorem expandAll (l : List (Fin lensCount)) (t : Topology) :
    ∃ level1, l.foldl (fun t i =>
        expandBlock { t with level1 := Function.update t.level1 i (some Block.new) } i) t =
      { t with level1 := level1 } ∧
        ∀ i, (i ∈ l → level1 i = some (expandedBlock (t.lensKeys i))) ∧
          (i ∉ l → level1 i = t.level1 i) := by
  induction l generalizing t with
  | nil => exact ⟨t.level1, rfl, fun i => ⟨fun hi => absurd hi List.not_mem_nil, fun _ => rfl⟩⟩
  | cons j l ih =>
    obtain ⟨level1, hfold, hlevel1⟩ :=
      ih (expandBlock { t with level1 := Function.update t.level1 j (some Block.new) } j)
    simp only [expandBlock, Function.update_self, Option.map_some, Function.update_idem]
      at hfold hlevel1
    refine ⟨level1, ?_, fun i => ⟨fun hi => ?_, fun hi => ?_⟩⟩
    · simp only [List.foldl_cons, expandBlock, Function.update_self, Option.map_some,
        Function.update_idem, hfold]
    · by_cases hil : i ∈ l
      · exact (hlevel1 i).1 hil
      · obtain rfl : i = j := (List.mem_cons.mp hi).resolve_right hil
        rw [(hlevel1 i).2 hil, Function.update_self]
    · obtain ⟨hij, hil⟩ := not_or.mp (mt List.mem_cons.mpr hi)
      rw [(hlevel1 i).2 hil, Function.update_of_ne hij]

theorem initializeWith_eq (t : Topology) (s : Seed) :
    t.initializeWith s =
      ⟨s, generate s, Block.new, fun i => some (expandedBlock (generate s i)), true⟩ := by
  obtain ⟨level1, hfold, hlevel1⟩ := expandAll (List.finRange lensCount)
    { t with seed := s, lensKeys := generate s, root := Block.new }
  have hall : level1 = fun i => some (expandedBlock (generate s i)) :=
    funext fun i => (hlevel1 i).1 (List.mem_finRange i)
  simp only [initializeWith, hfold, hall]

theorem initializeWith_initialized (t : Topology) (s : Seed) :
    (t.initializeWith s).Initialized := by
  intro i
  rw [initializeWith_eq]
  rfl

end Topology

end EmergenceOS.Vdev.BmtTopology
