/- Module: EmergenceOS/Vdev/BmtTamper
   digest: Images with one payload bit inverted, and what later reads show of it. -/

import EmergenceOS.Vdev.BmtVisible

/-!
Every pack_route stores a checksum and nothing ever compares it. Whether an inverted
bit comes back as data depends only on the walk: it has to pass the entry, and the
bit has to belong to one of its 13 bytes.
-/

set_option autoImplicit false
set_option relaxedAutoImplicit false

namespace EmergenceOS.Vdev.BmtTopology

open EmergenceOS.Lib.Bytes EmergenceOS.Lib.ByteFile EmergenceOS.Lib.Keystream

namespace Value128

/-- Bit i of an entry, in the order in which its bytes are stored. -/
def bit (v : Value128) (i : Nat) : Bool :=
  if i < 64 then v.lo.getLsbD i else v.hi.getLsbD (i - 64)

/-- The entry with bit p inverted. -/
def flip (v : Value128) (p : Nat) : Value128 :=
  if p < 64 then ⟨v.hi, v.lo ^^^ BitVec.twoPow 64 p⟩
  else ⟨v.hi ^^^ BitVec.twoPow 64 (p - 64), v.lo⟩

theorem ext_bit {v v' : Value128} (h : ∀ i < 128, v.bit i = v'.bit i) : v = v' := by
  apply Value128.ext <;> apply BitVec.eq_of_getLsbD_eq <;> intro i hi
  · simpa only [bit, show ¬64 + i < 64 by omega, if_false, Nat.add_sub_cancel_left] using
      h (64 + i) (by omega)
  · simpa only [bit, hi, if_true] using h i (by omega)

theorem bit_flip (v : Value128) {p i : Nat} (hp : p < 128) (hi : i < 128) :
    (v.flip p).bit i = (v.bit i ^^ decide (i = p)) := by
  unfold flip bit
  by_cases hp64 : p < 64
  · by_cases hi64 : i < 64
    · simp [hp64, hi64, eq_comm]
    · simp [hp64, hi64, show i ≠ p by omega]
  · by_cases hi64 : i < 64
    · simp [hp64, hi64, show i ≠ p by omega]
    · simp [hp64, hi64, show i - 64 < 64 by omega, show i - 64 = p - 64 ↔ i = p by omega]

theorem bit_readFrom (buf : Buffer) (o : Nat) {i : Nat} (hi : i < 128) :
    (readFrom buf o).bit i = (buf (o + i / 8)).getLsbD (i % 8) := by
  unfold readFrom bit
  by_cases h64 : i < 64
  · rw [if_pos h64, ofBytes_getLsbD]
    simp only [h64, decide_true, Bool.true_and]
  · have hin : i - 64 < 64 := by omega
    have hindex : o + 8 + (i - 64) / 8 = o + i / 8 := by omega
    have hmod : (i - 64) % 8 = i % 8 := by omega
    rw [if_neg h64, ofBytes_getLsbD, hmod, hindex]
    simp only [hin, decide_true, Bool.true_and]

/-- A bit inverted in the stored bytes is inverted in the entry. -/
theorem readFrom_flip {buf buf' : Buffer} {o p : Nat} (hp : p < 128)
    (hself : buf' (o + p / 8) = buf (o + p / 8) ^^^ BitVec.twoPow 8 (p % 8))
    (hne : ∀ k < 16, k ≠ p / 8 → buf' (o + k) = buf (o + k)) :
    readFrom buf' o = (readFrom buf o).flip p := by
  apply ext_bit
  intro i hi
  rw [bit_flip _ hp hi, bit_readFrom buf' o hi, bit_readFrom buf o hi]
  by_cases hbyte : i / 8 = p / 8
  · rw [hbyte, hself, BitVec.getLsbD_xor, BitVec.getLsbD_twoPow]
    have hmod : p % 8 < 8 := Nat.mod_lt p (by decide)
    simp only [hmod, decide_true, Bool.true_and, show p % 8 = i % 8 ↔ i = p by omega]
  · rw [hne (i / 8) (by omega) hbyte, decide_eq_false (by omega : ¬i = p), Bool.xor_false]

theorem route_getLsbD (v : Value128) (i : Nat) :
    v.route.getLsbD i = (decide (i < 10) && v.bit (118 + i)) := by
  rw [route, BitVec.getLsbD_and, lensMask_getLsbD, BitVec.getLsbD_setWidth,
    BitVec.getLsbD_ushiftRight]
  by_cases h10 : i < 10
  · simp [h10, bit, show i < 16 by omega, show ¬118 + i < 64 by omega,
      show 118 + i - 64 = 54 + i by omega]
  · simp [h10]

theorem payloadByte_getLsbD (v : Value128) (k j : Nat) :
    (v.payloadByte k).getLsbD j = (decide (j < 8) && v.bit (8 * k + j)) := by
  unfold payloadByte bit
  by_cases hj : j < 8
  · by_cases hk : k < 8
    · rw [if_pos hk, if_pos (by omega), byteAt_getLsbD]
    · rw [if_neg hk, if_neg (by omega), byteAt_getLsbD,
        show 8 * (k - 8) + j = 8 * k + j - 64 by omega]
  · split <;> simp only [byteAt_getLsbD, hj, decide_false, Bool.false_and]

/-- Payload bits are below the route. -/
theorem route_flip (v : Value128) {p : Nat} (hp : p < 116) : (v.flip p).route = v.route := by
  apply BitVec.eq_of_getLsbD_eq
  intro i _
  rw [route_getLsbD, route_getLsbD]
  by_cases h10 : i < 10
  · rw [bit_flip v (by omega) (by omega), decide_eq_false (by omega : ¬118 + i = p),
      Bool.xor_false]
  · simp only [h10, decide_false, Bool.false_and]

theorem payloadByte_flip_of_ne (v : Value128) {p k : Nat} (hp : p < 128) (hk : k < 16)
    (hne : k ≠ p / 8) : (v.flip p).payloadByte k = v.payloadByte k := by
  apply BitVec.eq_of_getLsbD_eq
  intro j hj
  rw [payloadByte_getLsbD, payloadByte_getLsbD, bit_flip v hp (by omega),
    decide_eq_false (by omega : ¬8 * k + j = p), Bool.xor_false]

theorem payloadByte_flip_self_ne (v : Value128) {p : Nat} (hp : p < 128) :
    (v.flip p).payloadByte (p / 8) ≠ v.payloadByte (p / 8) := by
  intro h
  have hbit := congrArg (fun b : Byte => b.getLsbD (p % 8)) h
  have hmod : p % 8 < 8 := Nat.mod_lt p (by decide)
  have hindex : 8 * (p / 8) + p % 8 = p := Nat.div_add_mod p 8
  simp only [payloadByte_getLsbD, hmod, hindex, decide_true, Bool.true_and, bit_flip v hp hp]
    at hbit
  cases hv : v.bit p <;> simp [hv] at hbit

end Value128

namespace Block

/-- Two blocks that no walk tells apart: the same links, and the same payload along them. -/
def Alike (b b' : Block) : Prop :=
  ∃ m, 0 < m ∧ Linked b.entries m ∧ Linked b'.entries m ∧
    ∀ i < payloadBytesPerHop * m, b.payload i = b'.payload i

section
variable {b b' : Block}

theorem Alike.symm (h : b.Alike b') : b'.Alike b := by
  obtain ⟨m, hm, hlinked, hlinked', hpayload⟩ := h
  exact ⟨m, hm, hlinked', hlinked, fun i hi => (hpayload i hi).symm⟩

theorem Alike.readHops (h : b.Alike b') (out : Buffer) (o maxLen : Nat) :
    readHops b.entries out o maxLen 0 0 = readHops b'.entries out o maxLen 0 0 := by
  obtain ⟨m, hm, hlinked, hlinked', hpayload⟩ := h
  exact (readHops_eq_iff hlinked hlinked' hm).mpr hpayload out o maxLen

theorem Alike.cleared (h : b.Alike b') : b.cleared.Alike b'.cleared := by
  obtain ⟨m, hm, -, -, hpayload⟩ := h
  refine ⟨1, Nat.one_pos, b.cleared_linked, b'.cleared_linked, fun i hi => ?_⟩
  rw [b.payload_cleared, b'.payload_cleared]
  exact hpayload i (Nat.lt_of_lt_of_le hi (Nat.mul_le_mul_left _ hm))

theorem written_zero (b : Block) (data : Buffer) (d : Nat) : b.written data d 0 = b.cleared := rfl

/-- Data hide what a block held before, as far as any walk goes. -/
theorem written_alike (b b' : Block) (data : Buffer) (d : Nat) {len : Nat} (hlen : 0 < len) :
    (b.written data d len).Alike (b'.written data d len) := by
  have hB : bytesPerBlock = 1024 * 13 := rfl
  have hP : payloadBytesPerHop = 13 := rfl
  have hfree : freeRoute.toNat = 1021 := rfl
  refine ⟨_, ?_, b.written_linked data d hlen, b'.written_linked data d hlen, fun i hi => ?_⟩
  · rw [hP, hfree]
    omega
  · rw [hP, hfree] at hi
    by_cases hdata : i < len
    · rw [b.payload_written data d hdata (by omega), b'.payload_written data d hdata (by omega)]
    · rw [b.payload_written_zero data d (by omega) (by rw [hP]; omega) (by omega),
        b'.payload_written_zero data d (by omega) (by rw [hP]; omega) (by omega)]

theorem Alike.written (h : b.Alike b') (data : Buffer) (d len : Nat) :
    (b.written data d len).Alike (b'.written data d len) := by
  rcases Nat.eq_zero_or_pos len with rfl | hlen
  · rw [written_zero, written_zero]
    exact h.cleared
  · exact written_alike b b' data d hlen

end

/-- Routes that point to the next entry run into a stop, at the latest before entry 1021. -/
theorem Forward.linked {b : Block} (hb : b.Forward) : ∃ m, 0 < m ∧ Linked b.entries m := by
  have hfree : freeRoute.toNat = 1021 := rfl
  have hE : entriesPerBlock = 1024 := rfl
  have hlast : (b.entries ⟨1020, by decide⟩).route = haltRoute ∨
      (b.entries ⟨1020, by decide⟩).route = freeRoute := by
    -- the index that would follow is the code of a free entry
    rcases (hb ⟨1020, by decide⟩).route with hhalt | hfree | hnext
    · exact Or.inl hhalt
    · exact Or.inr hfree
    · exact Or.inr hnext
  have hstops : ∃ n, ∃ h : n < entriesPerBlock,
      (b.entries ⟨n, h⟩).route = haltRoute ∨ (b.entries ⟨n, h⟩).route = freeRoute :=
    ⟨1020, by decide, hlast⟩
  classical
  obtain ⟨hlt, hstop⟩ := Nat.find_spec hstops
  have hle : Nat.find hstops ≤ 1020 := Nat.find_min' hstops ⟨by decide, hlast⟩
  refine ⟨Nat.find hstops + 1, Nat.succ_pos _, fun e he => ⟨?_, by omega⟩, fun e he => ?_, by omega⟩
  · have hnot := Nat.find_min hstops (m := e.val) (by omega)
    rcases (hb e).route with hhalt | hfree | hnext
    · exact absurd ⟨e.isLt, Or.inl hhalt⟩ hnot
    · exact absurd ⟨e.isLt, Or.inr hfree⟩ hnot
    · exact hnext
  · obtain rfl : e = ⟨Nat.find hstops, hlt⟩ := Fin.ext (by simpa using he)
    exact hstop

theorem Forward.alike_self {b : Block} (hb : b.Forward) : b.Alike b := by
  obtain ⟨m, hm, hlinked⟩ := hb.linked
  exact ⟨m, hm, hlinked, hlinked, fun _ _ => rfl⟩

/-- No entry before e ends the walk. -/
def Visits (b : Block) (e : Fin entriesPerBlock) : Prop :=
  ∀ e' < e, (b.entries e').route ≠ haltRoute ∧ (b.entries e').route ≠ freeRoute

theorem visits_iff_lt (b : Block) {m : Nat} (h : Linked b.entries m) (hm : 0 < m)
    (e : Fin entriesPerBlock) : b.Visits e ↔ e.val < m := by
  constructor
  · intro hvisits
    by_contra hge
    have hlast : m - 1 < entriesPerBlock := by have := h.bound; omega
    obtain ⟨hhalt, hfree⟩ := hvisits ⟨m - 1, hlast⟩ (Fin.lt_def.mpr (by simp only; omega))
    exact (h.stop ⟨m - 1, hlast⟩ (by simp only; omega)).elim hhalt hfree
  · intro hlt e' he'
    obtain ⟨hroute, hindex⟩ := h.link e' (by have := Fin.lt_def.mp he'; omega)
    rw [hroute]
    exact (toNat_link hindex).2

/-- A block with payload bit p of entry e inverted. -/
def flip (b : Block) (e : Fin entriesPerBlock) (p : Nat) : Block :=
  ⟨Function.update b.entries e ((b.entries e).flip p)⟩

theorem route_flip (b : Block) (e : Fin entriesPerBlock) {p : Nat} (hp : p < 116)
    (j : Fin entriesPerBlock) : ((b.flip e p).entries j).route = (b.entries j).route := by
  by_cases hj : j = e
  · simp only [flip, hj, Function.update_self, Value128.route_flip _ hp]
  · simp only [flip, Function.update_of_ne hj]

theorem payload_flip_of_ne (b : Block) (e : Fin entriesPerBlock) {p i : Nat} (hp : p < 116)
    (hi : i ≠ payloadBytesPerHop * e.val + p / 8 ∨ 104 ≤ p) :
    (b.flip e p).payload i = b.payload i := by
  have hP : payloadBytesPerHop = 13 := rfl
  unfold payload flip
  split
  · rename_i hentry
    by_cases he : (⟨i / payloadBytesPerHop, hentry⟩ : Fin entriesPerBlock) = e
    · have hval : i / payloadBytesPerHop = e.val := congrArg Fin.val he
      have hmod := Nat.mod_lt i (by decide : 0 < payloadBytesPerHop)
      have hsplit := Nat.div_add_mod i payloadBytesPerHop
      rw [hval] at hsplit
      simp only [he, Function.update_self]
      exact Value128.payloadByte_flip_of_ne _ (by omega) (by omega) (by omega)
    · simp only [Function.update_of_ne he]
  · rfl

theorem payload_flip_self_ne (b : Block) (e : Fin entriesPerBlock) {p : Nat} (hp : p < 104) :
    (b.flip e p).payload (payloadBytesPerHop * e.val + p / 8) ≠
      b.payload (payloadBytesPerHop * e.val + p / 8) := by
  have hP : payloadBytesPerHop = 13 := rfl
  have hdiv : (payloadBytesPerHop * e.val + p / 8) / payloadBytesPerHop = e.val := by
    rw [hP]
    omega
  have hmod : (payloadBytesPerHop * e.val + p / 8) % payloadBytesPerHop = p / 8 := by
    rw [hP]
    omega
  unfold payload flip
  simp only [hdiv, hmod, e.isLt, dif_pos, Fin.eta, Function.update_self]
  exact Value128.payloadByte_flip_self_ne _ (by omega)

theorem deserialize_flip {buf buf' : Buffer} (e : Fin entriesPerBlock) {p : Nat} (hp : p < 128)
    (hself : buf' (e.val * 16 + p / 8) = buf (e.val * 16 + p / 8) ^^^ BitVec.twoPow 8 (p % 8))
    (hne : ∀ k < blockSizeBytes, k ≠ e.val * 16 + p / 8 → buf' k = buf k) :
    deserialize buf' = (deserialize buf).flip e p := by
  have hsize : blockSizeBytes = entriesPerBlock * 16 := rfl
  refine congrArg Block.mk (funext fun j => ?_)
  have hj := j.isLt
  by_cases hje : j = e
  · subst hje
    rw [Function.update_self]
    exact Value128.readFrom_flip hp hself fun k hk hk' => hne _ (by omega) (by omega)
  · have hval : j.val ≠ e.val := fun h => hje (Fin.ext h)
    rw [Function.update_of_ne hje]
    exact Value128.readFrom_congr fun k hk => hne _ (by omega) (by omega)

/-- An inverted bit goes unseen unless a walk passes its entry and copies its byte. -/
theorem alike_flip {b : Block} (hb : b.Forward) {e : Fin entriesPerBlock} {p : Nat}
    (hp : p < 116) (h : ¬(p < 104 ∧ b.Visits e)) : b.Alike (b.flip e p) := by
  have hP : payloadBytesPerHop = 13 := rfl
  obtain ⟨m, hm, hlinked⟩ := hb.linked
  refine ⟨m, hm, hlinked, hlinked.congr (b.route_flip e hp), fun i hi => ?_⟩
  rw [b.visits_iff_lt hlinked hm] at h
  refine (b.payload_flip_of_ne e hp ?_).symm
  rw [hP] at hi ⊢
  omega

end Block

namespace Topology

/-- Two topologies whose blocks no walk tells apart. -/
def LooksLike (t t' : Topology) : Prop :=
  ∀ j, Option.Rel Block.Alike (t.level1 j) (t'.level1 j)

section
variable {t t' : Topology}

theorem LooksLike.readBlockData (h : t.LooksLike t') (idx : BitVec 16) (out : Buffer)
    (o maxLen : Nat) : t.readBlockData idx out o maxLen = t'.readBlockData idx out o maxLen := by
  by_cases hidx : idx.toNat < lensCount
  · have hrel := h ⟨idx.toNat, hidx⟩
    simp only [Topology.readBlockData, dif_pos hidx]
    generalize t.level1 ⟨idx.toNat, hidx⟩ = l, t'.level1 ⟨idx.toNat, hidx⟩ = l' at hrel ⊢
    cases hrel with
    | none => rfl
    | some halike => exact halike.readHops out o maxLen
  · rw [readBlockData_of_not_lt t hidx, readBlockData_of_not_lt t' hidx]

theorem rel_update {level1 level1' : Fin lensCount → Option Block}
    (h : ∀ j, Option.Rel Block.Alike (level1 j) (level1' j)) (i : Fin lensCount)
    {b b' : Option Block} (hb : Option.Rel Block.Alike b b') (j : Fin lensCount) :
    Option.Rel Block.Alike (Function.update level1 i b j) (Function.update level1' i b' j) := by
  by_cases hj : j = i
  · simpa only [hj, Function.update_self] using hb
  · simpa only [Function.update_of_ne hj] using h j

theorem LooksLike.writeBlockData (h : t.LooksLike t') (idx : BitVec 16) (data : Buffer)
    (d len : Nat) :
    (t.writeBlockData idx data d len).1 = (t'.writeBlockData idx data d len).1 ∧
      (t.writeBlockData idx data d len).2.LooksLike (t'.writeBlockData idx data d len).2 := by
  by_cases hidx : idx.toNat < lensCount
  · have hrel := h ⟨idx.toNat, hidx⟩
    generalize hb : t.level1 ⟨idx.toNat, hidx⟩ = l at hrel
    generalize hb' : t'.level1 ⟨idx.toNat, hidx⟩ = l' at hrel
    cases hrel with
    | none =>
      simp only [Topology.writeBlockData, dif_pos hidx, hb, hb']
      exact ⟨trivial, h⟩
    | some halike =>
      rw [writeBlockData_eq hidx hb, writeBlockData_eq hidx hb']
      exact ⟨rfl, rel_update h _ (.some (halike.written data d len))⟩
  · rw [writeBlockData_of_not_lt t hidx, writeBlockData_of_not_lt t' hidx]
    exact ⟨rfl, h⟩

theorem LooksLike.writeChainFrom (data : Buffer) (len : Nat) (blocks : List (BitVec 16))
    (written : Nat) (h : t.LooksLike t') :
    (writeChainFrom data len blocks written t).2.LooksLike
      (writeChainFrom data len blocks written t').2 := by
  induction blocks generalizing written t t' with
  | nil => exact h
  | cons b blocks ih =>
    rw [Topology.writeChainFrom, Topology.writeChainFrom]
    split
    · obtain ⟨hcount, hlooks⟩ := h.writeBlockData b data written (min bytesPerBlock (len - written))
      simp only [hcount]
      exact ih _ hlooks
    · exact h

theorem LooksLike.clearBlocks (h : t.LooksLike t') (blocks : List (BitVec 16)) :
    (t.clearBlocks blocks).LooksLike (t'.clearBlocks blocks) := by
  intro j
  rw [clearBlocks_level1, clearBlocks_level1]
  split
  · have hrel := h j
    generalize t.level1 j = l, t'.level1 j = l' at hrel ⊢
    cases hrel with
    | none => exact .none
    | some halike => exact .some halike.cleared
  · exact h j

theorem LooksLike.runData (h : t.LooksLike t') (ops : List DataOp) :
    (t.runData ops).LooksLike (t'.runData ops) := by
  induction ops generalizing t t' with
  | nil => exact h
  | cons op ops ih =>
    refine ih ?_
    cases op with
    | writeBlockData idx data len => exact (h.writeBlockData idx data 0 len).2
    | writeChain blocks data len => exact h.writeChainFrom data len blocks 0
    | clearBlocks blocks => exact h.clearBlocks blocks

end

/-- The image with payload bit p of entry e of level-1 block i inverted. -/
def tampered (file : File) (i : Fin lensCount) (e : Fin entriesPerBlock) (p : Nat) : File :=
  flipBit file (16 + blockSizeBytes * (i.val + 1) + (e.val * 16 + p / 8)) (p % 8)

/-- The mask carries an inverted bit through to the entry that the loader decodes. -/
theorem storedBlock_tampered {file : File}
    (hlen : 16 + blockSizeBytes * (lensCount + 1) ≤ file.length) (s : Seed)
    (i j : Fin lensCount) (e : Fin entriesPerBlock) {p : Nat} (hp : p < 116) :
    storedBlock s (tampered file i e p) (j.val + 1) =
      if j = i then (storedBlock s file (j.val + 1)).flip e p
      else storedBlock s file (j.val + 1) := by
  have hS : blockSizeBytes = 16384 := rfl
  have hE : entriesPerBlock = 1024 := rfl
  have hL : lensCount = 1024 := rfl
  have hi := i.isLt
  have he := e.isLt
  rw [hS, hL] at hlen
  unfold storedBlock
  split
  · rename_i hj
    subst hj
    refine Block.deserialize_flip e (by omega) ?_ fun k hk hne => ?_
    · rw [obfuscate, obfuscate, mask_apply, mask_apply, if_pos (by omega), if_pos (by omega),
        tampered, getD_flipBit_self (by rw [hS]; omega)]
      ac_rfl
    · rw [obfuscate, obfuscate, mask_apply, mask_apply, if_pos hk, if_pos hk, tampered,
        getD_flipBit_of_ne _ (by omega)]
  · rename_i hj
    have hne : j.val ≠ i.val := fun h => hj (Fin.ext h)
    refine Block.deserialize_congr fun k hk => mask_congr _ _ _ _ (fun x hx => ?_) hk
    rw [tampered, getD_flipBit_of_ne _ (by rw [hS] at hx ⊢; omega)]

section
variable {t : Topology} {before : Option File} {file : File}

/-- The loader takes the altered image, and decodes the altered block. -/
theorem loadImage_tampered (ht : t.Initialized) {canOpen : Bool}
    (h : t.saveImage canOpen before = (true, some file)) (target : Topology) (i : Fin lensCount)
    (e : Fin entriesPerBlock) {p : Nat} (hp : p < 116) :
    (target.loadImage (some (tampered file i e p)) t.seed).1 = true ∧
      ∀ j, (target.loadImage (some (tampered file i e p)) t.seed).2.level1 j =
        if j = i then (t.level1 j).map fun b => b.flip e p else t.level1 j := by
  have hlen := saveImage_length h
  have hheader : headerOk t.seed (tampered file i e p) = true := by
    rw [← saveImage_headerOk h, headerOk, headerOk, tampered, length_flipBit]
    congr 3
    exact ofBytes_congr 64 8 fun k hk => getD_flipBit_of_ne _ (by omega) _
  have hblock {bi : Nat} (hbi : bi ≤ lensCount) : hasBlock (tampered file i e p) bi = true := by
    rw [← saveImage_hasBlock h hbi, hasBlock, hasBlock, tampered, length_flipBit]
  rw [loadImage_eq]
  simp only [hheader, hblock (Nat.le_refl _), Bool.and_self, true_and]
  intro j
  rw [hblock j.isLt, Bool.and_self, if_pos rfl,
    storedBlock_tampered (Nat.le_of_eq hlen.symm) _ i j e hp, ← saveImage_storedBlock ht h j]
  split <;> rfl

end

/-- Every byte that a read returns is the one that the other read gives at that place. -/
def Genuine (o : Nat) (read genuine : Nat × Buffer) : Prop :=
  ∀ k < read.1, read.2 (o + k) = genuine.2 (o + k)

/-- An altered image of t was refused, or no read shows an altered byte, whatever is written
and cleared before. -/
def Caught (t : Topology) (result : Bool × Topology) : Prop :=
  result.1 = true → ∀ ops : List DataOp,
    (∀ idx out o maxLen, Genuine o ((result.2.runData ops).readBlockData idx out o maxLen)
      ((t.runData ops).readBlockData idx out o maxLen)) ∧
    ∀ blocks out maxLen, Genuine 0 ((result.2.runData ops).readChain blocks out maxLen)
      ((t.runData ops).readChain blocks out maxLen)

/-- The walk through block i passes entry e. -/
def Visits (t : Topology) (i : Fin lensCount) (e : Fin entriesPerBlock) : Prop :=
  ∃ b, t.level1 i = some b ∧ b.Visits e

theorem LooksLike.caught {t : Topology} {result : Bool × Topology} (h : result.2.LooksLike t) :
    Caught t result := by
  intro _ ops
  have hread := (h.runData ops).readBlockData
  refine ⟨fun idx out o maxLen k _ => ?_, fun blocks out maxLen k _ => ?_⟩
  · rw [hread]
  · rw [readChain_congr_of_mem fun b _ => hread b]

theorem readBlockData_index {t : Topology} {i : Fin lensCount} {b : Block}
    (hb : t.level1 i = some b) (out : Buffer) (o maxLen : Nat) :
    t.readBlockData (BitVec.ofNat 16 i.val) out o maxLen = readHops b.entries out o maxLen 0 0 := by
  have hi := i.isLt
  have hidx : (BitVec.ofNat 16 i.val).toNat = i.val := by
    simp only [lensCount] at hi
    rw [BitVec.toNat_ofNat]
    omega
  have hlt : (BitVec.ofNat 16 i.val).toNat < lensCount := by omega
  refine readBlockData_eq hlt ?_ out o maxLen
  rw [show (⟨(BitVec.ofNat 16 i.val).toNat, hlt⟩ : Fin lensCount) = i from Fin.ext hidx, hb]

theorem not_caught_of_visits {t : Topology} (ht : t.Sound) {result : Bool × Topology}
    {i : Fin lensCount} {e : Fin entriesPerBlock} {p : Nat} (hp : p < 104) (hok : result.1 = true)
    (hlevel1 : result.2.level1 i = (t.level1 i).map fun b => b.flip e p) (hvisits : t.Visits i e) :
    ¬Caught t result := by
  intro hcaught
  have hP : payloadBytesPerHop = 13 := rfl
  obtain ⟨b, hb, hvisits⟩ := hvisits
  obtain ⟨m, hm, hlinked⟩ := (ht.level1 i b hb).linked
  have he := (b.visits_iff_lt hlinked hm e).mp hvisits
  have hlinked' : Linked (b.flip e p).entries m :=
    hlinked.congr (b.route_flip e (by omega))
  have hread := (hcaught hok []).1 (BitVec.ofNat 16 i.val) (fun _ => 0) 0 (payloadBytesPerHop * m)
  rw [readBlockData_index (by rw [runData, List.foldl_nil, hlevel1, hb]; rfl),
    readBlockData_index (by rw [runData, List.foldl_nil, hb])] at hread
  have hin : payloadBytesPerHop * e.val + p / 8 < payloadBytesPerHop * m := by
    rw [hP]
    omega
  obtain ⟨-, hshown⟩ := readHops_payload hlinked hm (fun _ => 0) hin
  obtain ⟨hcount, hshown'⟩ := readHops_payload hlinked' hm (fun _ => 0) hin
  have hbyte := hread _ (by rwa [hcount])
  rw [Nat.zero_add, hshown, hshown'] at hbyte
  exact b.payload_flip_self_ne e hp hbyte

/-- A loaded image with one payload bit inverted shows it exactly if the bit is in one of the
13 bytes of an entry that the walk through its block passes. -/
theorem caught_iff_not_visits (t target : Topology) (s : Seed) (ops : List DataOp)
    (canOpen : Bool) (before : Option File) (file : File)
    (h : ((t.initializeWith s).runData ops).saveImage canOpen before = (true, some file))
    (i : Fin lensCount) (e : Fin entriesPerBlock) (p : Nat) (hp : p < 116) :
    Caught ((t.initializeWith s).runData ops)
        (target.loadImage (some (tampered file i e p)) s) ↔
      ¬(p < 104 ∧ ((t.initializeWith s).runData ops).Visits i e) := by
  have hsound := runData_sound (initializeWith_sound t s) ops
  have hseed := (runData_setUp (initializeWith_setUp t s) ops).seed
  generalize (t.initializeWith s).runData ops = saved at h hsound hseed ⊢
  subst hseed
  obtain ⟨hok, hlevel1⟩ := loadImage_tampered hsound.setUp.level1 h target i e hp
  constructor
  · rintro hcaught ⟨hp104, hvisits⟩
    refine not_caught_of_visits hsound hp104 hok ?_ hvisits hcaught
    rw [hlevel1, if_pos rfl]
  · intro hunseen
    refine LooksLike.caught fun j => ?_
    obtain ⟨b, hb⟩ := Option.isSome_iff_exists.mp (hsound.setUp.level1 j)
    have hforward := hsound.level1 j b hb
    rw [hlevel1, hb]
    split
    · rename_i hj
      subst hj
      refine .some (Block.Alike.symm ?_)
      exact Block.alike_flip hforward hp fun hv => hunseen ⟨hv.1, b, hb, hv.2⟩
    · exact .some hforward.alike_self

/-- The sample with one byte in block 5. -/
def oneByte : Topology := sample.runData [.writeChain [5] ones 1]

/-- Bit 110 belongs to the checksummed part of an entry and to none of its bytes. -/
theorem caught_unread_bit : ∃ file, oneByte.saveImage true none = (true, some file) ∧
    Caught oneByte
      (sample.loadImage (some (tampered file ⟨5, by decide⟩ ⟨0, by decide⟩ 110)) ⟨1, 2⟩) := by
  obtain ⟨file, hsave⟩ := oneByte.saveImage_true none
  refine ⟨file, hsave, ?_⟩
  refine (caught_iff_not_visits (construct ⟨0, 0⟩ fun _ => ⟨0, 0⟩) sample ⟨1, 2⟩
    [.writeChain [5] ones 1] true none file hsave _ _ 110 (by decide)).mpr ?_
  exact fun h => absurd h.1 (by decide)

/-- The first bit of the first entry: the image is loaded, and the byte is read. -/
theorem not_caught_first_bit : ∃ file, oneByte.saveImage true none = (true, some file) ∧
    ¬Caught oneByte
      (sample.loadImage (some (tampered file ⟨5, by decide⟩ ⟨0, by decide⟩ 0)) ⟨1, 2⟩) := by
  obtain ⟨file, hsave⟩ := oneByte.saveImage_true none
  have hsound : oneByte.Sound := runData_sound (initializeWith_sound _ _) _
  have hseed : oneByte.seed = ⟨1, 2⟩ := (runData_setUp (initializeWith_setUp _ _) _).seed
  obtain ⟨b, hb⟩ := Option.isSome_iff_exists.mp (hsound.setUp.level1 ⟨5, by decide⟩)
  have hload := loadImage_tampered hsound.setUp.level1 hsave sample ⟨5, by decide⟩ ⟨0, by decide⟩
    (by decide : 0 < 116)
  rw [hseed] at hload
  refine ⟨file, hsave, ?_⟩
  have hlevel1 := (hload.2 ⟨5, by decide⟩).trans (if_pos rfl)
  refine not_caught_of_visits hsound (by decide : 0 < 104) hload.1 hlevel1 ⟨b, hb, ?_⟩
  exact fun e he => absurd (Fin.lt_def.mp he) (Nat.not_lt_zero e.val)

end Topology

end EmergenceOS.Vdev.BmtTopology
