/- Module: EmergenceOS/Crypto/Sha256Stream
   digest: Whatever the chunks, the object computes the standard's hash of the message. -/

import EmergenceOS.Crypto.Sha256

set_option autoImplicit false
set_option relaxedAutoImplicit false

namespace EmergenceOS.Crypto.Sha256.SHA256

open EmergenceOS.Lib EmergenceOS.Lib.Bytes EmergenceOS.Lib.BlockHash EmergenceOS.Mm.Memory

variable {ctx : SHA256} {m : List Byte}

/-- The object has taken in the bytes m: count counts them, state covers the whole blocks,
and the first count % 64 bytes of buffer are the rest. -/
structure Represents (ctx : SHA256) (m : List Byte) : Prop where
  count : ctx.count = BitVec.ofNat 64 m.length
  absorbed : Absorbed 64 Fips180.compress Fips180.H0 ctx.state
    (slice ctx.buffer 0 (m.length % 64)) m

theorem new_represents (buffer : Buffer) : Represents (new buffer) [] := by
  refine ⟨rfl, ?_⟩
  rw [new_state]
  exact absorbed_nil (by decide)

/-- 64 divides 2^64, so a wrapped count would still tell the position in the block. -/
theorem Represents.count_mod (h : Represents ctx m) :
    (ctx.count % 64).toNat = m.length % 64 := by
  rw [BitVec.toNat_umod, h.count, BitVec.toNat_ofNat]
  exact Nat.mod_mod_of_dvd _ (by decide)

theorem Represents.count_mod_eq_zero (h : Represents ctx m) :
    ctx.count % 64 = 0 ↔ m.length % 64 = 0 := by
  rw [← h.count_mod]
  exact ⟨fun h0 => by rw [h0]; rfl, fun h0 => BitVec.eq_of_toNat_eq h0⟩

/-- Bytes that do not complete the block go to the buffer. -/
theorem Represents.keep (h : Represents ctx m) {x : List Byte} {buffer : Buffer}
    (hx : m.length % 64 + x.length < 64)
    (hbuffer : slice buffer 0 (m.length % 64 + x.length) =
      slice ctx.buffer 0 (m.length % 64) ++ x) :
    Represents ⟨ctx.state, ctx.count + BitVec.ofNat 64 x.length, buffer⟩ (m ++ x) := by
  constructor
  · simp only [h.count, List.length_append, BitVec.ofNat_add]
  · have hmod : (m ++ x).length % 64 = m.length % 64 + x.length := by
      rw [List.length_append]
      omega
    rw [hmod, hbuffer]
    exact h.absorbed.keep (by rwa [length_slice])

/-- Bytes that complete the block send it through transform; what the buffer holds then does
not matter. -/
theorem Represents.complete (h : Represents ctx m) {x : List Byte} {block : Buffer}
    (buffer : Buffer) (hx : m.length % 64 + x.length = 64)
    (hblock : slice block 0 64 = slice ctx.buffer 0 (m.length % 64) ++ x) :
    Represents ⟨transform ctx.state block, ctx.count + BitVec.ofNat 64 x.length, buffer⟩
      (m ++ x) := by
  constructor
  · simp only [h.count, List.length_append, BitVec.ofNat_add]
  · have hmod : (m ++ x).length % 64 = 0 := by
      rw [List.length_append]
      omega
    rw [hmod, slice_zero, transform_eq, hblock]
    exact h.absorbed.complete (by rwa [length_slice])

/-- A block the object has begun is topped up: all the data goes there, or the block is
complete afterwards. -/
theorem topUp_represents (h : Represents ctx m) (data : Buffer) (len : Nat) :
    Represents (ctx.topUp data len).1 (m ++ slice data 0 (ctx.topUp data len).2) ∧
      (ctx.topUp data len).2 ≤ len ∧
      ((ctx.topUp data len).2 = len ∨ (m.length + (ctx.topUp data len).2) % 64 = 0) := by
  by_cases h0 : ctx.count % 64 = 0
  · have hmod := h.count_mod_eq_zero.mp h0
    rw [topUp, if_neg (not_not_intro h0), slice_zero, List.append_nil]
    exact ⟨h, Nat.zero_le len, Or.inr hmod⟩
  · have hlt : m.length % 64 < 64 := Nat.mod_lt _ (by decide)
    rw [topUp, if_pos h0]
    simp only [h.count_mod, kmemcpy_eq_blit]
    generalize hcopy : (if len < 64 - m.length % 64 then len else 64 - m.length % 64) = toCopy
    have hlen := length_slice data 0 toCopy
    have hbuffer := slice_blit ctx.buffer data (m.length % 64) 0 toCopy
    by_cases hfull : m.length % 64 + toCopy = 64
    · rw [hfull] at hbuffer
      have hrep := h.complete (blit ctx.buffer (m.length % 64) data 0 toCopy)
        (hlen.symm ▸ hfull) hbuffer
      rw [hlen] at hrep
      have hif := hrep.count_mod_eq_zero.mpr (by rw [List.length_append, hlen]; omega)
      rw [if_pos hif]
      exact ⟨hrep, by split at hcopy <;> omega, Or.inr (by omega)⟩
    · have htoCopy : toCopy = len ∧ len < 64 - m.length % 64 := by
        split at hcopy <;> omega
      have hrep := h.keep (x := slice data 0 toCopy) (by omega) (by rw [hlen]; exact hbuffer)
      rw [hlen] at hrep
      have hpos : m.length % 64 ≠ 0 := fun he => h0 (h.count_mod_eq_zero.mpr he)
      have hif := mt hrep.count_mod_eq_zero.mp (by rw [List.length_append, hlen]; omega)
      rw [if_neg hif]
      exact ⟨hrep, htoCopy.1.le, Or.inl htoCopy.1⟩

/-- From a block boundary on, the loop takes in whole blocks until fewer than 64 bytes of
the data are left. -/
theorem wholeBlocks_represents (h : Represents ctx m) (hm : m.length % 64 = 0) (data : Buffer)
    {len i : Nat} (hi : i ≤ len) :
    ∃ n, ctx.wholeBlocks data len i = ((ctx.wholeBlocks data len i).1, i + n) ∧
      Represents (ctx.wholeBlocks data len i).1 (m ++ slice data i n) ∧
      n % 64 = 0 ∧ i + n ≤ len ∧ len < i + n + 64 := by
  induction hk : len - i using Nat.strong_induction_on generalizing ctx m i with
  | _ k ih =>
    by_cases hblock : i + 64 ≤ len
    · rw [wholeBlocks, if_pos hblock]
      have hslice : slice (fun j => data (i + j)) 0 64 = slice ctx.buffer 0 (m.length % 64) ++
          slice data i 64 := by
        rw [hm, slice_zero, List.nil_append]
        exact slice_congr fun j _ => by rw [Nat.zero_add]
      have hrep := h.complete ctx.buffer (by rw [hm, length_slice]) hslice
      rw [length_slice] at hrep
      obtain ⟨n, heq, hrest, hn, hle, hlt⟩ :=
        ih (len - (i + 64)) (by omega) hrep (by rw [List.length_append, length_slice]; omega)
          hblock rfl
      refine ⟨64 + n, ?_, ?_, by omega, by omega, by omega⟩
      · rw [← Nat.add_assoc]
        exact heq
      · rw [slice_add, ← List.append_assoc]
        exact hrest
    · rw [wholeBlocks_short _ _ (by omega)]
      exact ⟨0, rfl, by rwa [slice_zero, List.append_nil], rfl, hi, by omega⟩

/-- One call of update takes in its bytes, whatever phases it goes through. -/
theorem update_represents (h : Represents ctx m) (data : Buffer) (len : Nat) :
    Represents (ctx.update data len) (m ++ slice data 0 len) := by
  obtain ⟨htop, hle, hcase⟩ := topUp_represents h data len
  unfold update
  generalize ctx.topUp data len = top at *
  obtain ⟨ctx1, i⟩ := top
  simp only at htop hle hcase ⊢
  by_cases hall : i = len
  · subst i
    rw [wholeBlocks_short _ _ (by omega)]
    simpa using htop
  · have hmod : (m ++ slice data 0 i).length % 64 = 0 := by
      rw [List.length_append, length_slice]
      omega
    obtain ⟨n, heq, hwhole, hn, hile, hlt⟩ := wholeBlocks_represents htop hmod data hle
    rw [heq]
    generalize (ctx1.wholeBlocks data len i).1 = ctx2 at *
    rw [List.append_assoc, slice_prefix_append] at hwhole
    by_cases hrest : i + n < len
    · have hmod2 : (m ++ slice data 0 (i + n)).length % 64 = 0 := by
        rw [List.length_append, length_slice] at hmod ⊢
        omega
      let rest := slice data (i + n) (len - (i + n))
      have hlenRest : rest.length = len - (i + n) := length_slice _ _ _
      have hbuffer : slice (blit ctx2.buffer 0 data (i + n) (len - (i + n))) 0
          ((m ++ slice data 0 (i + n)).length % 64 + rest.length) =
            slice ctx2.buffer 0 ((m ++ slice data 0 (i + n)).length % 64) ++ rest := by
        rw [hmod2, hlenRest, slice_blit]
      have hkeep := hwhole.keep (by omega) hbuffer
      rw [hlenRest, List.append_assoc, slice_prefix_append, Nat.add_sub_cancel' hile] at hkeep
      simpa only [if_pos hrest, kmemcpy_eq_blit] using hkeep
    · obtain rfl : i + n = len := by omega
      simpa only [if_neg hrest] using hwhole

theorem foldl_update_represents (h : Represents ctx m) (chunks : List (Buffer × Nat)) :
    Represents (chunks.foldl (fun ctx c => ctx.update c.1 c.2) ctx)
      (m ++ chunks.flatMap fun c => slice c.1 0 c.2) := by
  induction chunks generalizing ctx m with
  | nil => simpa using h
  | cons c chunks ih =>
    rw [List.foldl_cons, List.flatMap_cons, ← List.append_assoc]
    exact ih (update_represents h c.1 c.2)

theorem padZeros_represents (h : Represents ctx m) :
    Represents ctx.padZeros (m ++ List.replicate ((120 - m.length % 64) % 64) 0) := by
  induction hz : (120 - m.length % 64) % 64 generalizing ctx m with
  | zero =>
    have h56 : ctx.count % 64 = 56 := by
      apply BitVec.eq_of_toNat_eq
      rw [h.count_mod]
      change _ = 56
      omega
    rw [padZeros, if_neg (not_not_intro h56)]
    simpa using h
  | succ z ih =>
    have h56 : ctx.count % 64 ≠ 56 := by
      intro h56
      have hmod := h.count_mod
      rw [h56] at hmod
      change 56 = _ at hmod
      omega
    rw [padZeros, if_pos h56]
    have hstep := update_represents h (fun _ => 0x00) 1
    have hrest := ih hstep (by rw [List.length_append, length_slice]; omega)
    rw [List.append_assoc] at hrest
    exact hrest

/-- finalize pads the message by way of update and gives the bytes of the last state. -/
theorem finalize_eq (m : Fips180.Message) (h : Represents ctx m.bytes) :
    ctx.finalize.2 = Fips180.sha256 m := by
  have hone := update_represents h (fun _ => 0x80) 1
  have hzeros := padZeros_represents hone
  have hlen := update_represents hzeros
    (fun i => ((ctx.count * 8) >>> ((7 - i) * 8)).setWidth 8) 8
  have hcount : ctx.count * 8 = BitVec.ofNat 64 (8 * m.bytes.length) := by
    rw [h.count, BitVec.ofNat_mul]
    exact BitVec.mul_comm _ _
  have hbytes : slice (fun i => ((ctx.count * 8) >>> ((7 - i) * 8)).setWidth 8) 0 8 =
      Fips180.bigEndian 8 (BitVec.ofNat 64 (8 * m.bytes.length)) := by
    rw [hcount]
    exact List.map_congr_left fun i _ => by simp only [Nat.zero_add, byteAt, Nat.mul_comm 8]
  have hzeroBytes : (120 - (m.bytes ++ slice (fun _ => (0x80 : Byte)) 0 1).length % 64) % 64 =
      Fips180.zeroBytes m.bytes.length := by
    rw [List.length_append, length_slice, Fips180.zeroBytes]
    omega
  rw [hbytes, hzeroBytes, List.append_assoc m.bytes] at hlen
  have hpad : Represents _ (Fips180.pad m) := hlen
  unfold finalize Fips180.sha256
  simp only [hpad.absorbed.state_eq (Fips180.pad_length m), Fips180.bigEndian_word]

/-- A fresh object that is fed a message in chunks gives its hash, wherever the cuts are. -/
theorem finalize_chunks (m : Fips180.Message) (buffer : Buffer) (chunks : List (Buffer × Nat))
    (hchunks : (chunks.flatMap fun c => slice c.1 0 c.2) = m.bytes) :
    (chunks.foldl (fun ctx c => ctx.update c.1 c.2) (new buffer)).finalize.2 =
      Fips180.sha256 m := by
  apply finalize_eq
  rw [← hchunks]
  exact foldl_update_represents (new_represents buffer) chunks

/-- The message abc in three chunks, the second one empty. -/
theorem finalize_chunks_abc :
    ([(fun i => [0x61, 0x62].getD i 0, 2), (fun _ => 0, 0), (fun _ => 0x63, 1)].foldl
        (fun ctx (c : Buffer × Nat) => ctx.update c.1 c.2) (new fun _ => 0)).finalize.2 =
      Fips180.sha256 ⟨[0x61, 0x62, 0x63], by decide⟩ :=
  finalize_chunks _ _ _ (by decide)

end EmergenceOS.Crypto.Sha256.SHA256
