/- Module: EmergenceOS/Vdev/BmtImage
   digest: Image files: what load_image leaves behind, whether it succeeds or fails. -/

import EmergenceOS.Lib.ByteFile
import EmergenceOS.Lib.Keystream
import EmergenceOS.Vdev.BmtChain

/-!
An image is a tag, a version number and 1025 masked blocks. The loader works on
the object itself: seed and keys go in as soon as the file is open, each block as
soon as it has been read, and no failure exit takes anything back.
-/

set_option autoImplicit false
set_option relaxedAutoImplicit false

namespace EmergenceOS.Vdev.BmtTopology

open EmergenceOS.Lib.Bytes EmergenceOS.Lib.ByteFile EmergenceOS.Lib.Keystream

namespace Value128

def writeTo (v : Value128) : Buffer :=
  blit (blit (fun _ => 0) 0 (byteAt v.lo) 0 8) 8 (byteAt v.hi) 0 8

def readFrom (buf : Buffer) (o : Nat) : Value128 :=
  ⟨ofBytes 64 (fun i => buf (o + 8 + i)) 8, ofBytes 64 (fun i => buf (o + i)) 8⟩

theorem readFrom_congr {buf buf' : Buffer} {o o' : Nat}
    (h : ∀ i < 16, buf (o + i) = buf' (o' + i)) : readFrom buf o = readFrom buf' o' := by
  unfold readFrom
  congr 1
  · exact ofBytes_congr 64 8 fun i hi => by
      simpa only [Nat.add_assoc] using h (8 + i) (by omega)
  · exact ofBytes_congr 64 8 fun i hi => h i (by omega)

theorem readFrom_writeTo (v : Value128) : readFrom v.writeTo 0 = v := by
  apply Value128.ext
  · simp only [readFrom, writeTo]
    rw [ofBytes_congr 64 8 (c := byteAt v.hi) fun i hi => ?_, ofBytes_byteAt v.hi rfl]
    rw [blit_inside _ _ (by omega) (by omega)]
    congr 1
    omega
  · simp only [readFrom, writeTo]
    rw [ofBytes_congr 64 8 (c := byteAt v.lo) fun i hi => ?_, ofBytes_byteAt v.lo rfl]
    rw [blit_outside _ _ (by omega), blit_inside _ _ (by omega) (by omega)]
    congr 1
    omega

end Value128

namespace Block

def serialize (b : Block) (buf : Buffer) : Buffer :=
  writeRecords 16
    (fun i => if h : i < entriesPerBlock then (b.entries ⟨i, h⟩).writeTo else fun _ => 0)
    buf entriesPerBlock

def deserialize (buf : Buffer) : Block := ⟨fun e => Value128.readFrom buf (e.val * 16)⟩

theorem deserialize_congr {buf buf' : Buffer} (h : ∀ k < blockSizeBytes, buf k = buf' k) :
    deserialize buf = deserialize buf' := by
  have hsize : blockSizeBytes = entriesPerBlock * 16 := rfl
  unfold deserialize
  congr 1
  funext e
  have he := e.isLt
  exact Value128.readFrom_congr fun i hi => h _ (by omega)

theorem deserialize_serialize (b : Block) (buf : Buffer) : deserialize (b.serialize buf) = b := by
  have hentry (e : Fin entriesPerBlock) :
      Value128.readFrom (b.serialize buf) (e.val * 16) = b.entries e := by
    rw [← Value128.readFrom_writeTo (b.entries e)]
    apply Value128.readFrom_congr
    intro i hi
    have he := e.isLt
    have hdiv : (e.val * 16 + i) / 16 = e.val := by omega
    have hmod : (e.val * 16 + i) % 16 = i := by omega
    rw [serialize, writeRecords_apply (by decide), if_pos (by omega)]
    simp only [hdiv, hmod, he, dif_pos, Nat.zero_add]
  unfold deserialize
  simp only [hentry]

end Block

/-- The masked words are the low halves of the running pair. -/
def obfuscate (data : Buffer) (len : Nat) (s : Seed) (bi : BitVec 64) : Buffer :=
  maskFrom spin Prod.snd data len (s.hi ^^^ (bi * phiHi), s.lo ^^^ (bi * phiLo)) 0

def imageTag (s : Seed) : BitVec 64 := s.hi ^^^ s.lo ^^^ 0xA5A5A5A5A5A5A5A5

def imageVersion : BitVec 64 := 4

/-- One block of an image; a null pointer is stored as zero bytes. -/
def blockRecord (s : Seed) (bi : Nat) (b : Option Block) : File :=
  let buf := (b.map fun b => b.serialize fun _ => 0).getD fun _ => 0
  fwrite (obfuscate buf blockSizeBytes s (BitVec.ofNat 64 bi)) blockSizeBytes

namespace Topology

/-- The result and the file at the path, which held `file` before. All writes are complete. -/
def saveImage (t : Topology) (canOpen : Bool) (file : Option File) : Bool × Option File :=
  if canOpen then
    (true, some (fwrite (byteAt (imageTag t.seed)) 8 ++ fwrite (byteAt imageVersion) 8 ++
      blockRecord t.seed 0 (some t.root) ++
      (List.finRange lensCount).flatMap fun i => blockRecord t.seed (i.val + 1) (t.level1 i)))
  else (false, file)

/-- The loop of load_image from level-1 block i on. -/
def loadLevel1 (s : Seed) (fp : File) (i : Nat) (t : Topology) : Bool × Topology :=
  if h : i < lensCount then
    match fread blockSizeBytes fp with
    | none => (false, t)
    | some (buf, fp) =>
      let buf := obfuscate buf blockSizeBytes s (BitVec.ofNat 64 (i + 1))
      loadLevel1 s fp (i + 1) { t with
        level1 := Function.update t.level1 ⟨i, h⟩ (some (Block.deserialize buf)) }
  else (true, { t with dirty := false })
termination_by lensCount - i

def loadImage (t : Topology) (file : Option File) (s : Seed) : Bool × Topology :=
  match file with
  | none => (false, t)
  | some fp =>
    let t := { t with seed := s, lensKeys := generate s }
    match fread 8 fp with
    | none => (false, t)
    | some (tag, fp) =>
      match fread 8 fp with
      | none => (false, t)
      | some (_, fp) =>
        -- the version is read and never looked at
        if ofBytes 64 tag 8 ≠ imageTag s then (false, t)
        else
          match fread blockSizeBytes fp with
          | none => (false, t)
          | some (buf, fp) =>
            let buf := obfuscate buf blockSizeBytes s 0
            loadLevel1 s fp 0 { t with root := Block.deserialize buf }

end Topology

/-- Block bi as the loader decodes it. -/
def storedBlock (s : Seed) (file : File) (bi : Nat) : Block :=
  Block.deserialize
    (obfuscate (fun k => file.getD (16 + blockSizeBytes * bi + k) 0) blockSizeBytes s
      (BitVec.ofNat 64 bi))

/-- The file has its 16-byte header and the tag is that of the seed. -/
def headerOk (s : Seed) (file : File) : Bool :=
  decide (16 ≤ file.length) && decide (ofBytes 64 (fun i => file.getD i 0) 8 = imageTag s)

/-- Block bi is in the file as a whole. -/
def hasBlock (file : File) (bi : Nat) : Bool :=
  decide (16 + blockSizeBytes * (bi + 1) ≤ file.length)

theorem hasBlock_mono {file : File} {i j : Nat} (h : hasBlock file j) (hij : i ≤ j) :
    hasBlock file i := by
  have hle := Nat.mul_le_mul_left blockSizeBytes (Nat.add_le_add_right hij 1)
  simp only [hasBlock, decide_eq_true_eq] at h ⊢
  omega

theorem fread_block (file : File) (bi : Nat) :
    fread blockSizeBytes (file.drop (16 + blockSizeBytes * bi)) =
      if hasBlock file bi then
        some (fun k => file.getD (16 + blockSizeBytes * bi + k) 0,
          file.drop (16 + blockSizeBytes * (bi + 1)))
      else none := by
  rw [fread_drop file _ (by decide), Nat.add_assoc, ← Nat.mul_succ]
  simp only [hasBlock, decide_eq_true_eq, Nat.succ_eq_add_one]

namespace Topology

/-- The level-1 loop replaces the blocks that the file has, from the one it starts with. -/
theorem loadLevel1_eq (s : Seed) (file : File) (i : Nat) (hi : i ≤ lensCount)
    (hstart : hasBlock file i) (t : Topology) :
    loadLevel1 s (file.drop (16 + blockSizeBytes * (i + 1))) i t =
      (hasBlock file lensCount, { t with
        level1 := fun j =>
          if i ≤ j.val ∧ hasBlock file (j.val + 1) then some (storedBlock s file (j.val + 1))
          else t.level1 j
        dirty := if hasBlock file lensCount then false else t.dirty }) := by
  obtain ⟨n, hn⟩ : ∃ n, i + n = lensCount := ⟨lensCount - i, by omega⟩
  induction n generalizing i t with
  | zero =>
    obtain rfl : i = lensCount := by omega
    rw [loadLevel1, dif_neg (by omega), hstart]
    congr 2
    funext j
    rw [if_neg (by have := j.isLt; omega)]
  | succ n ih =>
    rw [loadLevel1, dif_pos (by omega), fread_block]
    by_cases hnext : hasBlock file (i + 1)
    · rw [if_pos hnext]
      simp only
      rw [ih (i + 1) (by omega) hnext _ (by omega)]
      congr 2
      funext j
      by_cases hj : j = ⟨i, by omega⟩
      · subst j
        rw [if_neg (by simp only; omega), if_pos ⟨Nat.le_refl i, hnext⟩]
        simp only [Function.update_self]
        rfl
      · have hne : j.val ≠ i := fun h => hj (Fin.ext h)
        simp only [Function.update_of_ne hj, show i + 1 ≤ j.val ↔ i ≤ j.val by omega]
    · have hnone (j : Fin lensCount) : ¬(i ≤ j.val ∧ hasBlock file (j.val + 1) = true) :=
        fun h => hnext (hasBlock_mono h.2 (by omega))
      have hlast : hasBlock file lensCount = false := by
        simpa using fun h => hnext (hasBlock_mono h (by omega))
      rw [if_neg hnext]
      simp only [hlast, hnone, if_false, Bool.false_eq_true]

/-- What load_image does to the object, for every content of the file. -/
theorem loadImage_eq (t : Topology) (s : Seed) (file : File) :
    t.loadImage (some file) s =
      (headerOk s file && hasBlock file lensCount, {
        seed := s
        lensKeys := generate s
        root := if headerOk s file && hasBlock file 0 then storedBlock s file 0 else t.root
        level1 := fun i =>
          if headerOk s file && hasBlock file (i.val + 1) then
            some (storedBlock s file (i.val + 1))
          else t.level1 i
        dirty := if headerOk s file && hasBlock file lensCount then false else t.dirty }) := by
  have htag : fread 8 file =
      if 8 ≤ file.length then some (fun i => file.getD i 0, file.drop 8) else none := by
    simpa only [List.drop_zero, Nat.zero_add] using fread_drop file 0 (n := 8) (by decide)
  unfold loadImage
  simp only
  rw [htag]
  by_cases h8 : 8 ≤ file.length
  · rw [if_pos h8]
    simp only
    rw [fread_drop file 8 (by decide)]
    by_cases h16 : 8 + 8 ≤ file.length
    · rw [if_pos h16]
      simp only
      by_cases hok : ofBytes 64 (fun i => file.getD i 0) 8 = imageTag s
      · have hheader : headerOk s file = true := by
          simp only [headerOk, h16, hok, decide_true, Bool.and_self]
        have hroot := fread_block file 0
        rw [Nat.mul_zero, Nat.add_zero] at hroot
        rw [if_neg (not_not_intro hok), hroot, hheader]
        by_cases h0 : hasBlock file 0
        · rw [if_pos h0]
          simp only
          rw [loadLevel1_eq s file 0 (Nat.zero_le _) h0]
          simp only [Nat.zero_le, true_and, Bool.true_and, h0, if_true]
          rfl
        · have hnone (i : Nat) : hasBlock file i = false := by
            simpa using fun h => h0 (hasBlock_mono h (Nat.zero_le _))
          rw [if_neg h0]
          simp only [hnone, Bool.and_false, Bool.false_eq_true, if_false]
      · have hheader : headerOk s file = false := by
          simp only [headerOk, hok, decide_false, Bool.and_false]
        rw [if_pos hok, hheader]
        simp only [Bool.false_and, Bool.false_eq_true, if_false]
    · have hheader : headerOk s file = false := by
        simp only [headerOk, h16, decide_false, Bool.false_and]
      rw [if_neg h16, hheader]
      simp only [Bool.false_and, Bool.false_eq_true, if_false]
  · have hheader : headerOk s file = false := by
      simp only [headerOk, show ¬16 ≤ file.length by omega, decide_false, Bool.false_and]
    rw [if_neg h8, hheader]
    simp only [Bool.false_and, Bool.false_eq_true, if_false]

end Topology

/-- A block that a file holds as save_image wrote it is the block that load_image decodes. -/
theorem storedBlock_of_record {s : Seed} {file : File} {bi : Nat} {b : Block}
    (h : ∀ k < blockSizeBytes,
      file.getD (16 + blockSizeBytes * bi + k) 0 = (blockRecord s bi (some b)).getD k 0) :
    storedBlock s file bi = b := by
  rw [storedBlock, ← Block.deserialize_serialize b fun _ => 0]
  apply Block.deserialize_congr
  intro k hk
  have hmask := mask_mask spin Prod.snd (b.serialize fun _ => 0) blockSizeBytes
    (s.hi ^^^ (BitVec.ofNat 64 bi * phiHi), s.lo ^^^ (BitVec.ofNat 64 bi * phiLo))
  rw [← hmask]
  refine mask_congr spin Prod.snd blockSizeBytes _ (fun j hj => ?_) hk
  rw [h j hj, blockRecord, getD_fwrite _ hj]
  rfl

namespace Topology

theorem length_blockRecord (s : Seed) (bi : Nat) (b : Option Block) :
    (blockRecord s bi b).length = blockSizeBytes := length_fwrite _ _

theorem saveImage_true (t : Topology) (before : Option File) :
    ∃ file, t.saveImage true before = (true, some file) := ⟨_, rfl⟩

section RoundTrip
variable {t : Topology} {before : Option File} {file : File}

/-- The layout of an image that was written. -/
theorem saveImage_some {canOpen : Bool} (h : t.saveImage canOpen before = (true, some file)) :
    file = fwrite (byteAt (imageTag t.seed)) 8 ++ fwrite (byteAt imageVersion) 8 ++
      (blockRecord t.seed 0 (some t.root) ++
        (List.finRange lensCount).flatMap
          fun i => blockRecord t.seed (i.val + 1) (t.level1 i)) := by
  unfold saveImage at h
  cases canOpen with
  | false => simp at h
  | true =>
    rw [if_pos rfl, Prod.mk.injEq, Option.some.injEq] at h
    rw [← h.2, List.append_assoc _ (blockRecord t.seed 0 (some t.root))]

theorem saveImage_length {canOpen : Bool} (h : t.saveImage canOpen before = (true, some file)) :
    file.length = 16 + blockSizeBytes * (lensCount + 1) := by
  rw [saveImage_some h, List.length_append, List.length_append, List.length_append,
    length_records _ (fun i => length_blockRecord _ _ _), length_fwrite, length_fwrite,
    length_blockRecord, List.length_finRange, Nat.mul_succ]
  omega

theorem saveImage_headerOk {canOpen : Bool} (h : t.saveImage canOpen before = (true, some file)) :
    headerOk t.seed file := by
  have hlen := saveImage_length h
  have htag : ofBytes 64 (fun i => file.getD i 0) 8 = imageTag t.seed := by
    rw [← ofBytes_byteAt (m := 8) (imageTag t.seed) rfl]
    apply ofBytes_congr
    intro i hi
    rw [saveImage_some h, List.getD_append _ _ _ _ (by simp; omega),
      List.getD_append _ _ _ _ (by simpa using hi), getD_fwrite _ hi]
  simp only [headerOk, htag, decide_true, Bool.and_true, decide_eq_true_eq]
  omega

theorem saveImage_record {canOpen : Bool} (h : t.saveImage canOpen before = (true, some file))
    {k : Nat} (hk : k < blockSizeBytes) :
    file.getD (16 + blockSizeBytes * 0 + k) 0 = (blockRecord t.seed 0 (some t.root)).getD k 0 ∧
      ∀ i : Fin lensCount, file.getD (16 + blockSizeBytes * (i.val + 1) + k) 0 =
        (blockRecord t.seed (i.val + 1) (t.level1 i)).getD k 0 := by
  have hrest (x : Nat) : file.getD (16 + x) 0 = (blockRecord t.seed 0 (some t.root) ++
      (List.finRange lensCount).flatMap fun i =>
        blockRecord t.seed (i.val + 1) (t.level1 i)).getD x 0 := by
    rw [saveImage_some h, List.getD_append_right _ _ _ _ (by simp)]
    congr 1
    simp
  constructor
  · rw [Nat.mul_zero, Nat.add_zero, hrest, List.getD_append _ _ _ _ (by rwa [length_blockRecord])]
  · intro i
    rw [Nat.add_assoc, hrest, List.getD_append_right _ _ _ _ (by
      rw [length_blockRecord, Nat.mul_succ]
      omega), length_blockRecord, Nat.mul_succ,
      show blockSizeBytes * i.val + blockSizeBytes + k - blockSizeBytes =
        blockSizeBytes * i.val + k by omega]
    exact getD_records _ (fun i => length_blockRecord _ _ _) (by simp) hk

/-- What load_image restores from an image of t. -/
structure Restored (t : Topology) (result : Bool × Topology) : Prop where
  accepted : result.1 = true
  seed : result.2.seed = t.seed
  lensKeys : result.2.lensKeys = t.lensKeys
  root : result.2.root = t.root
  level1 : result.2.level1 = t.level1
  reads : ∀ blocks out maxLen, result.2.readChain blocks out maxLen = t.readChain blocks out maxLen

/-- A chain reads the same if each of its blocks does. -/
theorem readChain_congr_of_mem {t t' : Topology} {chain : List (BitVec 16)}
    (h : ∀ b ∈ chain, ∀ out o maxLen,
      t.readBlockData b out o maxLen = t'.readBlockData b out o maxLen)
    (out : Buffer) (maxLen : Nat) :
    t.readChain chain out maxLen = t'.readChain chain out maxLen := by
  unfold readChain
  generalize (0 : Nat) = total
  induction chain generalizing total out with
  | nil => rfl
  | cons b chain ih =>
    have hrest := ih fun c hc => h c (List.mem_cons_of_mem b hc)
    rw [readChainFrom, readChainFrom, h b List.mem_cons_self]
    split
    · simp only [hrest]
    · rfl

theorem readChain_congr {t t' : Topology} (h : t.level1 = t'.level1) (blocks : List (BitVec 16))
    (out : Buffer) (maxLen : Nat) :
    t.readChain blocks out maxLen = t'.readChain blocks out maxLen := by
  refine readChain_congr_of_mem (fun b _ out o n => ?_) out maxLen
  unfold readBlockData
  rw [h]

theorem saveImage_hasBlock {canOpen : Bool} (h : t.saveImage canOpen before = (true, some file))
    {bi : Nat} (hbi : bi ≤ lensCount) : hasBlock file bi = true := by
  have hlen := saveImage_length h
  have hle := Nat.mul_le_mul_left blockSizeBytes (Nat.add_le_add_right hbi 1)
  simp only [hasBlock, decide_eq_true_eq]
  omega

/-- The blocks of an image are those of the topology that was saved. -/
theorem saveImage_storedBlock (ht : t.Initialized) {canOpen : Bool}
    (h : t.saveImage canOpen before = (true, some file)) (i : Fin lensCount) :
    some (storedBlock t.seed file (i.val + 1)) = t.level1 i := by
  obtain ⟨b, hb⟩ := Option.isSome_iff_exists.mp (ht i)
  rw [hb, Option.some.injEq]
  exact storedBlock_of_record fun k hk => hb ▸ (saveImage_record h hk).2 i

theorem restored_of_saveImage {s : Seed} (ht : SetUp s t) {canOpen : Bool}
    (h : t.saveImage canOpen before = (true, some file)) (target : Topology) :
    Restored t (target.loadImage (some file) s) := by
  obtain rfl := ht.seed
  have hheader := saveImage_headerOk h
  have hblock (bi : Nat) (hbi : bi ≤ lensCount) := saveImage_hasBlock h hbi
  have hroot : storedBlock t.seed file 0 = t.root :=
    storedBlock_of_record fun k hk => (saveImage_record h hk).1
  have hlevel1 := saveImage_storedBlock ht.level1 h
  have hload := loadImage_eq target t.seed file
  have hsame : (target.loadImage (some file) t.seed).2.level1 = t.level1 := by
    rw [hload]
    funext i
    simp only [hheader, hblock _ i.isLt, Bool.and_self, if_true, hlevel1]
  refine ⟨?_, ?_, ?_, ?_, hsame, readChain_congr hsame⟩ <;> rw [hload]
  · simp only [hheader, hblock _ (Nat.le_refl _), Bool.and_self]
  · exact ht.lensKeys.symm
  · simp only [hheader, hblock 0 (Nat.zero_le _), Bool.and_self, if_true, hroot]

end RoundTrip

/-- An image of a topology that was set up and used gives the same topology in any object. -/
theorem loadImage_saveImage (t target : Topology) (s : Seed) (ops : List DataOp) (canOpen : Bool)
    (before : Option File) (file : File)
    (h : ((t.initializeWith s).runData ops).saveImage canOpen before = (true, some file)) :
    Restored ((t.initializeWith s).runData ops) (target.loadImage (some file) s) :=
  restored_of_saveImage (runData_setUp (initializeWith_setUp t s) ops) h target

theorem loadImage_saveImage_sample : ∃ file,
    (((construct ⟨0, 0⟩ fun _ => ⟨0, 0⟩).initializeWith ⟨1, 2⟩).runData
      [.writeChain [5, 9] ones 20000, .clearBlocks [9]]).saveImage true none = (true, some file) ∧
    Restored (((construct ⟨0, 0⟩ fun _ => ⟨0, 0⟩).initializeWith ⟨1, 2⟩).runData
      [.writeChain [5, 9] ones 20000, .clearBlocks [9]]) (sample.loadImage (some file) ⟨1, 2⟩) :=
  ⟨_, rfl, loadImage_saveImage (construct ⟨0, 0⟩ fun _ => ⟨0, 0⟩) sample ⟨1, 2⟩
    [.writeChain [5, 9] ones 20000, .clearBlocks [9]] true none _ rfl⟩

/-- A load that fails leaves the object as it was. -/
def FailsClean (t : Topology) (file : Option File) (s : Seed) : Prop :=
  (t.loadImage file s).1 = false → (t.loadImage file s).2 = t

/-- The object already is what the loader makes of it: the same seed and keys and, once the
header is accepted, the same blocks as far as the file has them. -/
structure Agrees (t : Topology) (s : Seed) (file : File) : Prop where
  seed : t.seed = s
  lensKeys : t.lensKeys = generate s
  root : headerOk s file → hasBlock file 0 → t.root = storedBlock s file 0
  level1 : headerOk s file → ∀ i : Fin lensCount, hasBlock file (i.val + 1) →
    t.level1 i = some (storedBlock s file (i.val + 1))

/-- Once the header is accepted, the blocks are those that the file has, as far as it goes. -/
structure BlocksAgree (t : Topology) (s : Seed) (file : File) : Prop where
  root : headerOk s file → hasBlock file 0 → t.root = storedBlock s file 0
  level1 : headerOk s file → ∀ i : Fin lensCount, hasBlock file (i.val + 1) →
    t.level1 i = some (storedBlock s file (i.val + 1))

theorem loadImage_blocks_iff (t : Topology) (s : Seed) (file : File) :
    (t.loadImage (some file) s).2.root = t.root ∧ (t.loadImage (some file) s).2.level1 = t.level1 ↔
      t.BlocksAgree s file := by
  rw [loadImage_eq]
  simp only [Bool.and_eq_true]
  constructor
  · rintro ⟨hroot, hlevel1⟩
    refine ⟨fun hok h0 => ?_, fun hok i hi => ?_⟩
    · rw [if_pos ⟨hok, h0⟩] at hroot
      exact hroot.symm
    · have hblock := congrFun hlevel1 i
      rw [if_pos ⟨hok, hi⟩] at hblock
      exact hblock.symm
  · intro h
    refine ⟨?_, funext fun i => ?_⟩
    · split
      · rename_i hok
        exact (h.root hok.1 hok.2).symm
      · rfl
    · split
      · rename_i hok
        exact (h.level1 hok.1 i hok.2).symm
      · rfl

theorem loadImage_eq_self_iff {t : Topology} {s : Seed} {file : File}
    (hfail : (t.loadImage (some file) s).1 = false) :
    (t.loadImage (some file) s).2 = t ↔ t.Agrees s file := by
  have hblocks := t.loadImage_blocks_iff s file
  rw [loadImage_eq] at hfail hblocks ⊢
  simp only at hfail hblocks ⊢
  rw [hfail]
  constructor
  · intro h
    obtain ⟨hroot, hlevel1⟩ :=
      hblocks.mp ⟨congrArg Topology.root h, congrArg Topology.level1 h⟩
    exact ⟨(congrArg Topology.seed h).symm, (congrArg Topology.lensKeys h).symm, hroot, hlevel1⟩
  · intro h
    obtain ⟨hroot, hlevel1⟩ := hblocks.mpr ⟨h.root, h.level1⟩
    rw [hroot, hlevel1, ← h.lensKeys, ← h.seed]
    rfl

/-- A failed load goes unnoticed if and only if it had nothing to change: the file is missing
or the object agrees with what was read. -/
theorem failsClean_iff (t : Topology) (file : Option File) (s : Seed) :
    t.FailsClean file s ↔
      ∀ fp, file = some fp → (headerOk s fp ∧ hasBlock fp lensCount) ∨ t.Agrees s fp := by
  cases file with
  | none => simp [FailsClean, loadImage]
  | some file =>
    have hresult :
        (t.loadImage (some file) s).1 = (headerOk s file && hasBlock file lensCount) := by
      rw [loadImage_eq]
    simp only [Option.some.injEq, forall_eq', FailsClean]
    cases hfail : (t.loadImage (some file) s).1 with
    | false =>
      have hnot : ¬(headerOk s file = true ∧ hasBlock file lensCount = true) := by
        rw [← Bool.and_eq_true, ← hresult, hfail]
        exact Bool.false_ne_true
      rw [loadImage_eq_self_iff hfail]
      simp only [hnot, true_implies, false_or]
    | true =>
      rw [hfail, eq_comm, Bool.and_eq_true] at hresult
      simp only [hresult, Bool.true_eq_false, false_implies, and_self, true_or]

/-- An empty file: the tag cannot be read, and the seed has been replaced. -/
theorem not_failsClean_empty :
    ¬((construct ⟨0, 0⟩ fun _ => ⟨0, 0⟩).initializeWith ⟨0, 0⟩).FailsClean (some []) ⟨1, 0⟩ := by
  intro h
  rw [FailsClean, loadImage_eq] at h
  have hseed := congrArg Topology.seed (h rfl)
  rw [initializeWith_eq] at hseed
  exact absurd hseed (by decide)

end Topology

end EmergenceOS.Vdev.BmtTopology
