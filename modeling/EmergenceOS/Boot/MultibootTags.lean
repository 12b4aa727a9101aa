/- Module: EmergenceOS/Boot/MultibootTags
   digest: The tag loop of kmain: the structures it stays inside, and what it takes from them. -/

import EmergenceOS.Lib.BoundedLoop
import EmergenceOS.Lib.Bytes

/-!
The loop compares the address of a tag with the end of the structure, and nothing else: the
fields of the tag are read without a further comparison, and its size is added as it stands.
-/

set_option autoImplicit false
set_option relaxedAutoImplicit false

namespace EmergenceOS.Boot.MultibootTags

open EmergenceOS.Lib.Bytes EmergenceOS.Lib.BoundedLoop

def read32 (mem : Buffer) (a : Nat) : BitVec 32 := ofBytes 32 (fun i => mem (a + i)) 4

def read64 (mem : Buffer) (a : Nat) : BitVec 64 := ofBytes 64 (fun i => mem (a + i)) 8

/-- (size + 7) & ~7 -/
def stride (size : BitVec 32) : Nat := ((size + 7) &&& ~~~7).toNat

/-- The variables of the loop. Of what it read, the addresses with the numbers of bytes; of the
tags that it came to, the addresses with the types. -/
structure Scan where
  tag : Nat
  lfb : BitVec 64
  p : BitVec 32
  w : BitVec 32
  h : BitVec 32
  vgaActive : Bool
  reads : List (Nat × Nat)
  visited : List (Nat × BitVec 32)

/-- The variables before the loop. -/
def Scan.start (tag : Nat) : Scan := ⟨tag, 0, 0, 0, 0, false, [], []⟩

/-- What graphics are initialised with, in the order in which it is read. -/
def Scan.framebuffer (s : Scan) : BitVec 64 × BitVec 32 × BitVec 32 × BitVec 32 :=
  (s.lfb, s.p, s.w, s.h)

/-- The type and the size are read. -/
def Scan.readHeader (mem : Buffer) (s : Scan) : Scan :=
  { s with
    reads := s.reads ++ [(s.tag, 4), (s.tag + 4, 4)]
    visited := s.visited ++ [(s.tag, read32 mem s.tag)] }

def Scan.readFramebuffer (mem : Buffer) (s : Scan) : Scan :=
  { s with
    lfb := read64 mem (s.tag + 8)
    p := read32 mem (s.tag + 16)
    w := read32 mem (s.tag + 20)
    h := read32 mem (s.tag + 24)
    vgaActive := true
    reads := s.reads ++ [(s.tag + 8, 8), (s.tag + 16, 4), (s.tag + 20, 4), (s.tag + 24, 4)] }

def Scan.advance (n : Nat) (s : Scan) : Scan := { s with tag := s.tag + n }

/-- One turn, and whether it goes on to the next tag. -/
def turn (mem : Buffer) (s : Scan) : Scan × Bool :=
  let type := read32 mem s.tag
  let size := read32 mem (s.tag + 4)
  let s := s.readHeader mem
  if type = 0 then (s, false)
  else
    let s := if type = 8 then s.readFramebuffer mem else s
    (s.advance (stride size), true)

def tagLoop (mem : Buffer) (stop : Nat) : Nat → Scan → Option Scan :=
  whileDo (fun s => s.tag < stop) (turn mem)

/-- info_addr + 8 -/
def firstTag (info : BitVec 32) : Nat := (info + 8).toNat

/-- info_addr + total_size -/
def stopOf (mem : Buffer) (info : BitVec 32) : Nat := (info + read32 mem info.toNat).toNat

/-- kmain from the check of the magic number to the end of the loop. -/
def readTags (mem : Buffer) (magic info : BitVec 32) (fuel : Nat) : Option Scan :=
  if magic = 0x36d76289 then
    tagLoop mem (stopOf mem info) fuel (Scan.start (firstTag info))
  else some (Scan.start 0)

section
variable {mem : Buffer} {s : Scan}

theorem turn_end (h : read32 mem s.tag = 0) : turn mem s = (s.readHeader mem, false) := if_pos h

theorem turn_framebuffer (h : read32 mem s.tag = 8) : turn mem s =
    (((s.readHeader mem).readFramebuffer mem).advance (stride (read32 mem (s.tag + 4))), true) := by
  have hne : read32 mem s.tag ≠ 0 := by
    rw [h]
    decide
  rw [turn, if_neg hne, if_pos h]

theorem turn_other (hne : read32 mem s.tag ≠ 0) (h : read32 mem s.tag ≠ 8) : turn mem s =
    ((s.readHeader mem).advance (stride (read32 mem (s.tag + 4))), true) := by
  rw [turn, if_neg hne, if_neg h]

/-- What a turn reads at address a. -/
def touched (mem : Buffer) (a : Nat) : List (Nat × Nat) :=
  [(a, 4), (a + 4, 4)] ++
    if read32 mem a = 8 then [(a + 8, 8), (a + 16, 4), (a + 20, 4), (a + 24, 4)] else []

theorem touched_of_ne {a : Nat} (h : read32 mem a ≠ 8) : touched mem a = [(a, 4), (a + 4, 4)] := by
  rw [touched, if_neg h, List.append_nil]

/-- What a turn does to the address, and what it reads. -/
theorem turn_spec (mem : Buffer) (s : Scan) :
    (turn mem s).1.reads = s.reads ++ touched mem s.tag ∧
      ((read32 mem s.tag = 0 ∧ (turn mem s).2 = false ∧ (turn mem s).1.tag = s.tag) ∨
        (read32 mem s.tag ≠ 0 ∧ (turn mem s).2 = true ∧
          (turn mem s).1.tag = s.tag + stride (read32 mem (s.tag + 4)))) := by
  by_cases hend : read32 mem s.tag = 0
  · have hne : read32 mem s.tag ≠ 8 := by
      rw [hend]
      decide
    rw [turn_end hend, touched_of_ne hne]
    exact ⟨rfl, Or.inl ⟨hend, rfl, rfl⟩⟩
  by_cases hframe : read32 mem s.tag = 8
  · rw [turn_framebuffer hframe]
    refine ⟨?_, Or.inr ⟨hend, rfl, rfl⟩⟩
    simp [Scan.advance, Scan.readFramebuffer, Scan.readHeader, touched, hframe]
  · rw [turn_other hend hframe, touched_of_ne hframe]
    exact ⟨rfl, Or.inr ⟨hend, rfl, rfl⟩⟩

end

/-- The bytes read lie in the n bytes from lo on. -/
def Within (lo n : Nat) (r : Nat × Nat) : Prop := lo ≤ r.1 ∧ r.1 + r.2 ≤ lo + n

/-- The loop ends, and reads only bytes of the structure. -/
def Contained (mem : Buffer) (magic info : BitVec 32) : Prop :=
  ∃ fuel s, readTags mem magic info fuel = some s ∧
    ∀ r ∈ s.reads, Within info.toNat (read32 mem info.toNat).toNat r

/-- A tag that is not the last one leads to the next. -/
def Follows (mem : Buffer) (stop a b : Nat) : Prop :=
  a < stop ∧ read32 mem a ≠ 0 ∧ b = a + stride (read32 mem (a + 4))

/-- Room for what is read of a tag, and a size that leads on. -/
structure Fits (mem : Buffer) (stop a : Nat) : Prop where
  header : a + 8 ≤ stop
  framebuffer : read32 mem a = 8 → a + 28 ≤ stop
  size : read32 mem a ≠ 0 →
    0 < (read32 mem (a + 4)).toNat ∧ (read32 mem (a + 4)).toNat + 7 < 2 ^ 32

/-- The structure starts eight bytes below 4 GiB or lower, and every tag fits in it. -/
structure TagsFit (mem : Buffer) (info : BitVec 32) : Prop where
  start : info.toNat + 8 < 2 ^ 32
  tags : ∀ a, Relation.ReflTransGen (Follows mem (stopOf mem info)) (firstTag info) a →
    a < stopOf mem info → Fits mem (stopOf mem info) a

theorem toNat_stride (size : BitVec 32) : stride size = (size.toNat + 7) % 2 ^ 32 / 8 * 8 := by
  rw [stride, show (7 : BitVec 32) = BitVec.ofNat 32 (2 ^ 3 - 1) from rfl, toNat_and_not_mask,
    BitVec.toNat_add]
  rfl

theorem stride_pos_iff (size : BitVec 32) :
    0 < stride size ↔ 0 < size.toNat ∧ size.toNat + 7 < 2 ^ 32 := by
  have := size.isLt
  rw [toNat_stride]
  omega

theorem stopOf_eq {mem : Buffer} {info : BitVec 32}
    (h : info.toNat + (read32 mem info.toNat).toNat < 2 ^ 32) :
    stopOf mem info = info.toNat + (read32 mem info.toNat).toNat := by
  rw [stopOf, BitVec.toNat_add, Nat.mod_eq_of_lt h]

theorem firstTag_eq {info : BitVec 32} (h : info.toNat + 8 < 2 ^ 32) :
    firstTag info = info.toNat + 8 := by
  rw [firstTag, BitVec.toNat_add]
  exact Nat.mod_eq_of_lt h

section
variable {mem : Buffer} {stop fuel : Nat} {s s' : Scan}

theorem touched_within_iff {lo n a : Nat} : (∀ r ∈ touched mem a, Within lo n r) ↔
    lo ≤ a ∧ a + 8 ≤ lo + n ∧ (read32 mem a = 8 → a + 28 ≤ lo + n) := by
  by_cases hframe : read32 mem a = 8
  · rw [imp_iff_right hframe, touched, if_pos hframe]
    simp only [List.forall_mem_append, List.forall_mem_cons, Within, List.not_mem_nil,
      false_imp_iff, implies_true, and_true]
    omega
  · rw [touched_of_ne hframe]
    simp only [hframe, List.forall_mem_cons, Within, List.not_mem_nil, false_imp_iff,
      implies_true, and_true]
    omega

theorem reads_subset (h : tagLoop mem stop fuel s = some s') : s.reads ⊆ s'.reads := by
  refine whileDo_invariant (fun t => s.reads ⊆ t.reads) (fun t ht => ?_) (List.Subset.refl _) h
  rw [(turn_spec mem t).1]
  exact List.subset_append_of_subset_left _ ht

/-- What the first of the turns reads is read. -/
theorem touched_subset (hlt : s.tag < stop) (h : tagLoop mem stop fuel s = some s') :
    touched mem s.tag ⊆ s'.reads := by
  have hread : touched mem s.tag ⊆ (turn mem s).1.reads := by
    rw [(turn_spec mem s).1]
    exact List.subset_append_right _ _
  cases fuel with
  | zero => cases h
  | succ fuel =>
    rw [tagLoop, whileDo, if_pos (decide_eq_true hlt)] at h
    split at h
    · exact List.Subset.trans hread (reads_subset h)
    · exact Option.some.inj h ▸ hread

/-- The loop comes to every tag that the tags before it lead to. -/
theorem turns_of_follows {a : Nat} (h : Relation.ReflTransGen (Follows mem stop) s.tag a) :
    ∃ t, Relation.ReflTransGen (Turn (fun s => s.tag < stop) (turn mem)) s t ∧ t.tag = a := by
  induction h with
  | refl => exact ⟨s, .refl, rfl⟩
  | tail _ hfollows ih =>
    obtain ⟨t, hturns, rfl⟩ := ih
    obtain ⟨hlt, htype, rfl⟩ := hfollows
    obtain ⟨-, hend | ⟨-, hgo, htag⟩⟩ := turn_spec mem t
    · exact absurd hend.1 htype
    · exact ⟨(turn mem t).1, hturns.tail ⟨decide_eq_true hlt, Prod.ext rfl hgo⟩, htag⟩

/-- A tag that leads to itself keeps the loop for ever. -/
theorem tagLoop_stuck (hlt : s.tag < stop) (htype : read32 mem s.tag ≠ 0)
    (hstride : stride (read32 mem (s.tag + 4)) = 0) : tagLoop mem stop fuel s = none := by
  refine whileDo_eq_none (fun t => t.tag = s.tag) (fun t ht => ?_) rfl
  obtain ⟨-, hend | ⟨-, hgo, htag⟩⟩ := turn_spec mem t
  · exact absurd (ht ▸ hend.1) htype
  · rw [ht, hstride] at htag
    exact ⟨decide_eq_true (ht ▸ hlt), hgo, htag⟩

end

theorem tagsFit_of_contained {mem : Buffer} {info : BitVec 32}
    (h : info.toNat + (read32 mem info.toNat).toNat < 2 ^ 32)
    (hcontained : Contained mem 0x36d76289 info) : TagsFit mem info := by
  obtain ⟨fuel, s, hrun, hreads⟩ := hcontained
  rw [readTags, if_pos rfl] at hrun
  have hstop := stopOf_eq h
  have hreached : ∀ a, Relation.ReflTransGen (Follows mem (stopOf mem info)) (firstTag info) a →
      a < stopOf mem info → info.toNat ≤ a ∧ Fits mem (stopOf mem info) a := by
    intro a hpath hlt
    obtain ⟨t, hturns, rfl⟩ := turns_of_follows (s := Scan.start (firstTag info)) hpath
    obtain ⟨m, hrest⟩ := whileDo_of_turns hturns hrun
    have hwithin := touched_within_iff.mp fun r hr => hreads r (touched_subset hlt hrest hr)
    rw [← hstop] at hwithin
    refine ⟨hwithin.1, hwithin.2.1, hwithin.2.2, fun htype => ?_⟩
    rw [← stride_pos_iff]
    refine Nat.pos_of_ne_zero fun hstride => ?_
    cases (tagLoop_stuck hlt htype hstride).symm.trans hrest
  refine ⟨?_, fun a hpath hlt => (hreached a hpath hlt).2⟩
  -- Where info_addr + 8 wraps, the first tag lies below the structure.
  by_contra hwrap
  have hfirst : firstTag info = info.toNat + 8 - 2 ^ 32 := by
    have := info.isLt
    rw [firstTag, BitVec.toNat_add]
    change (info.toNat + 8) % 2 ^ 32 = _
    omega
  have := info.isLt
  have := (hreached (firstTag info) .refl (by omega)).1
  omega

theorem contained_of_tagsFit {mem : Buffer} {info : BitVec 32}
    (h : info.toNat + (read32 mem info.toNat).toNat < 2 ^ 32) (hfit : TagsFit mem info) :
    Contained mem 0x36d76289 info := by
  have hstop := stopOf_eq h
  have hfirst := firstTag_eq hfit.start
  have hrun : ∃ s, tagLoop mem (stopOf mem info) (stopOf mem info + 1)
      (Scan.start (firstTag info)) = some s ∧
        Relation.ReflTransGen (Follows mem (stopOf mem info)) (firstTag info) s.tag ∧
        info.toNat ≤ s.tag ∧
        ∀ r ∈ s.reads, Within info.toNat (read32 mem info.toNat).toNat r := by
    refine whileDo_rule _ (fun s => stopOf mem info - s.tag)
      ⟨.refl, hfirst ▸ Nat.le_add_right _ _, fun r hr => absurd hr List.not_mem_nil⟩
      (by omega) ?_
    rintro s ⟨hpath, hlo, hreads⟩ htest
    have hlt := of_decide_eq_true htest
    obtain ⟨hheader, hframe, hsize⟩ := hfit.tags s.tag hpath hlt
    obtain ⟨hread, hturn⟩ := turn_spec mem s
    have hwithin : ∀ r ∈ (turn mem s).1.reads,
        Within info.toNat (read32 mem info.toNat).toNat r := by
      rw [hread, List.forall_mem_append]
      rw [hstop] at hheader hframe
      exact ⟨hreads, touched_within_iff.mpr ⟨hlo, hheader, hframe⟩⟩
    rcases hturn with ⟨-, hgo, htag⟩ | ⟨htype, -, htag⟩
    · rw [htag, hgo]
      exact ⟨⟨hpath, hlo, hwithin⟩, fun h => absurd h Bool.false_ne_true⟩
    · have hpos := (stride_pos_iff _).mpr (hsize htype)
      rw [htag]
      exact ⟨⟨hpath.tail ⟨hlt, htype, rfl⟩, by omega, hwithin⟩, fun _ => by omega⟩
  obtain ⟨s, hs, -, -, hreads⟩ := hrun
  exact ⟨_, s, (if_pos rfl).trans hs, hreads⟩

/-- A tag before the last one, without its header. -/
structure Tag where
  type : BitVec 32
  payload : List Byte
  type_ne : type ≠ 0
  room : type = 8 → 20 ≤ payload.length

def Tag.size (t : Tag) : Nat := 8 + t.payload.length

/-- The size with what pads it to a multiple of eight bytes. -/
def Tag.span (t : Tag) : Nat := (t.size + 7) / 8 * 8

/-- The word of n bits in the m bytes of the payload from o on. -/
def Tag.field (t : Tag) (n o m : Nat) : BitVec n := ofBytes n (fun i => t.payload.getD (o + i) 0) m

/-- Address, pitch, width and height in a framebuffer tag. -/
def Tag.framebuffer (t : Tag) : BitVec 64 × BitVec 32 × BitVec 32 × BitVec 32 :=
  (t.field 64 0 8, t.field 32 8 4, t.field 32 12 4, t.field 32 16 4)

/-- From address a on, the tags lie one after another, and a tag of type 0 after the last. -/
def Lies (mem : Buffer) : Nat → List Tag → Prop
  | a, [] => read32 mem a = 0
  | a, t :: ts =>
    (read32 mem a = t.type ∧ (read32 mem (a + 4)).toNat = t.size ∧
      slice mem (a + 8) t.payload.length = t.payload) ∧ Lies mem (a + t.span) ts

instance decidableLies (mem : Buffer) : ∀ a tags, Decidable (Lies mem a tags)
  | a, [] => inferInstanceAs (Decidable (read32 mem a = 0))
  | a, t :: ts =>
    have := decidableLies mem (a + t.span) ts
    inferInstanceAs (Decidable ((_ ∧ _ ∧ _) ∧ _))

/-- Where the tag of type 0 lies. -/
def endOf : Nat → List Tag → Nat
  | a, [] => a
  | a, t :: ts => endOf (a + t.span) ts

/-- The tags with the addresses at which they lie. -/
def places : Nat → List Tag → List (Nat × BitVec 32)
  | _, [] => []
  | a, t :: ts => (a, t.type) :: places (a + t.span) ts

def lastFramebuffer (tags : List Tag) : Option Tag := tags.reverse.find? (·.type = 8)

/-- A structure below 4 GiB of these tags, the closing tag inside it. -/
structure WellFormed (mem : Buffer) (info : BitVec 32) (tags : List Tag) : Prop where
  below : info.toNat + (read32 mem info.toNat).toNat < 2 ^ 32
  lies : Lies mem (info.toNat + 8) tags
  closed : endOf (info.toNat + 8) tags < info.toNat + (read32 mem info.toNat).toNat

theorem le_endOf (a : Nat) (tags : List Tag) : a ≤ endOf a tags := by
  induction tags generalizing a with
  | nil => exact Nat.le_refl a
  | cons t ts ih => exact Nat.le_trans (Nat.le_add_right _ _) (ih (a + t.span))

theorem lastFramebuffer_cons (t : Tag) (ts : List Tag) : lastFramebuffer (t :: ts) =
    (lastFramebuffer ts).or (if t.type = 8 then some t else none) := by
  rw [lastFramebuffer, List.reverse_cons, List.find?_append, List.find?_singleton]
  simp only [decide_eq_true_eq]
  rfl

theorem isSome_lastFramebuffer (tags : List Tag) :
    (lastFramebuffer tags).isSome = true ↔ ∃ t ∈ tags, t.type = 8 := by
  simp [lastFramebuffer]

/-- A word that is read from a payload is a word of the payload. -/
theorem read_payload {mem : Buffer} {a : Nat} {t : Tag}
    (h : slice mem (a + 8) t.payload.length = t.payload) (n : Nat) {o m : Nat}
    (hroom : o + m ≤ t.payload.length) :
    ofBytes n (fun i => mem (a + 8 + o + i)) m = t.field n o m := by
  refine ofBytes_congr n m fun i hi => ?_
  have hbyte := getD_slice mem (a + 8) (show o + i < t.payload.length by omega)
  rw [h] at hbyte
  rw [hbyte, Nat.add_assoc (a + 8)]

theorem stride_eq_span {size : BitVec 32} {t : Tag} (hsize : size.toNat = t.size)
    (hspan : t.span < 2 ^ 32) : stride size = t.span := by
  rw [Tag.span] at hspan ⊢
  rw [toNat_stride, hsize, Nat.mod_eq_of_lt (by omega)]

/-- The turn at a tag ends at the next one, whatever the payload holds. -/
theorem turn_of_tag {mem : Buffer} {s : Scan} {t : Tag} (htype : read32 mem s.tag = t.type)
    (hsize : (read32 mem (s.tag + 4)).toNat = t.size)
    (hpayload : slice mem (s.tag + 8) t.payload.length = t.payload) (hspan : t.span < 2 ^ 32) :
    ∃ s', turn mem s = (s', true) ∧ s'.tag = s.tag + t.span ∧
      s'.visited = s.visited ++ [(s.tag, t.type)] ∧
      s'.framebuffer = (if t.type = 8 then t.framebuffer else s.framebuffer) ∧
      s'.vgaActive = (s.vgaActive || decide (t.type = 8)) := by
  have hstride := stride_eq_span hsize hspan
  by_cases hframe : t.type = 8
  · have hroom := t.room hframe
    refine ⟨_, turn_framebuffer (htype.trans hframe), ?_, ?_, ?_, ?_⟩
    · rw [hstride]
      rfl
    · rw [← htype]
      rfl
    · rw [if_pos hframe]
      have hlfb := read_payload hpayload 64 (show 0 + 8 ≤ t.payload.length by omega)
      have hp := read_payload hpayload 32 (show 8 + 4 ≤ t.payload.length by omega)
      have hw := read_payload hpayload 32 (show 12 + 4 ≤ t.payload.length by omega)
      have hh := read_payload hpayload 32 (show 16 + 4 ≤ t.payload.length by omega)
      exact congrArg₂ Prod.mk hlfb (congrArg₂ Prod.mk hp (congrArg₂ Prod.mk hw hh))
    · rw [hframe]
      exact (Bool.or_true _).symm
  · refine ⟨_, turn_other (htype ▸ t.type_ne) (htype ▸ hframe), ?_, ?_, ?_, ?_⟩
    · rw [hstride]
      rfl
    · rw [← htype]
      rfl
    · rw [if_neg hframe]
      rfl
    · rw [decide_eq_false hframe]
      exact (Bool.or_false _).symm

/-- The turns from the first of the tags on. -/
theorem tagLoop_of_lies {mem : Buffer} {stop fuel : Nat} {s : Scan} {tags : List Tag}
    (hlies : Lies mem s.tag tags) (hclosed : endOf s.tag tags < stop) (hstop : stop < 2 ^ 32)
    (hfuel : tags.length < fuel) : ∃ s', tagLoop mem stop fuel s = some s' ∧
      s'.visited = s.visited ++ (places s.tag tags ++ [(endOf s.tag tags, 0)]) ∧
      s'.framebuffer = ((lastFramebuffer tags).map Tag.framebuffer).getD s.framebuffer ∧
      s'.vgaActive = (s.vgaActive || (lastFramebuffer tags).isSome) := by
  induction tags generalizing s fuel with
  | nil =>
    obtain ⟨fuel, rfl⟩ := Nat.exists_eq_succ_of_ne_zero (Nat.ne_of_gt (Nat.zero_lt_of_lt hfuel))
    have htest : decide (s.tag < stop) = true := decide_eq_true hclosed
    refine ⟨s.readHeader mem, ?_, ?_, rfl, ?_⟩
    · rw [tagLoop, whileDo, if_pos htest, turn_end hlies]
      rfl
    · rw [Scan.readHeader, show read32 mem s.tag = 0 from hlies]
      rfl
    · exact (Bool.or_false _).symm
  | cons t ts ih =>
    obtain ⟨⟨htype, hsize, hpayload⟩, hrest⟩ := hlies
    rw [endOf] at hclosed
    have hnext := le_endOf (s.tag + t.span) ts
    obtain ⟨fuel, rfl⟩ := Nat.exists_eq_succ_of_ne_zero (Nat.ne_of_gt (Nat.zero_lt_of_lt hfuel))
    obtain ⟨s', hturn, htag, hvisited, hframe, hactive⟩ :=
      turn_of_tag htype hsize hpayload (by omega)
    have htest : decide (s.tag < stop) = true := decide_eq_true (by omega)
    rw [← htag] at hrest hclosed
    obtain ⟨s'', hrun, hvisited', hframe', hactive'⟩ :=
      ih hrest hclosed (Nat.lt_of_succ_lt_succ hfuel)
    refine ⟨s'', ?_, ?_, ?_, ?_⟩
    · rw [tagLoop, whileDo, if_pos htest, hturn, if_pos rfl]
      exact hrun
    · rw [hvisited', hvisited, htag, List.append_assoc]
      rfl
    · rw [hframe', hframe, lastFramebuffer_cons]
      cases lastFramebuffer ts with
      | some u => rfl
      | none => by_cases h : t.type = 8 <;> simp only [h, if_true, if_false] <;> rfl
    · rw [hactive', hactive, lastFramebuffer_cons, Bool.or_assoc]
      cases lastFramebuffer ts with
      | some u => exact congrArg (s.vgaActive || ·) (Bool.or_true _)
      | none => by_cases h : t.type = 8 <;> simp only [h, if_true, if_false] <;> rfl

/-- The loop of kmain visits the tags of a well-formed structure in order, then its end, and
takes the framebuffer from the last tag that has one. -/
theorem readTags_wellFormed {mem : Buffer} {info : BitVec 32} {tags : List Tag} {fuel : Nat}
    (h : WellFormed mem info tags) (hfuel : tags.length < fuel) :
    ∃ s, readTags mem 0x36d76289 info fuel = some s ∧
      s.visited = places (info.toNat + 8) tags ++ [(endOf (info.toNat + 8) tags, 0)] ∧
      s.framebuffer = ((lastFramebuffer tags).map Tag.framebuffer).getD (0, 0, 0, 0) ∧
      (s.vgaActive = true ↔ ∃ t ∈ tags, t.type = 8) := by
  have hstop := stopOf_eq h.below
  have hbelow := h.below
  have hclosed := h.closed
  have hle := le_endOf (info.toNat + 8) tags
  have hfirst : firstTag info = info.toNat + 8 := firstTag_eq (by omega)
  obtain ⟨s, hrun, hvisited, hframe, hactive⟩ :=
    tagLoop_of_lies (s := Scan.start (info.toNat + 8)) h.lies h.closed h.below hfuel
  refine ⟨s, ?_, hvisited, hframe, ?_⟩
  · rw [readTags, if_pos rfl, hstop, hfirst]
    exact hrun
  · rw [hactive, ← isSome_lastFramebuffer]
    exact iff_of_eq (congrArg (· = true) (Bool.false_or _))

/-- A tag of type 1 whose payload and padding look like framebuffer headers. -/
def nameTag : Tag := ⟨1, [8], by decide, by decide⟩

/-- 1024 by 768 pixels in rows of 4096 bytes at FD000000h. -/
def screenTag : Tag :=
  ⟨8, [0, 0, 0, 0xFD, 0, 0, 0, 0, 0, 0x10, 0, 0, 0, 4, 0, 0, 0, 3, 0, 0], by decide, by decide⟩

/-- These two tags at 1000h. -/
def screenInfo : Buffer := fun a =>
  ([64, 0, 0, 0, 0, 0, 0, 0] ++ [1, 0, 0, 0, 9, 0, 0, 0, 8, 8, 0, 0, 0, 8, 0, 0] ++
    [8, 0, 0, 0, 28, 0, 0, 0] ++ screenTag.payload ++
    [8, 0, 0, 0, 0, 0, 0, 0, 8, 0, 0, 0]).getD (a - 0x1000) 0

theorem screenInfo_wellFormed : WellFormed screenInfo 0x1000 [nameTag, screenTag] :=
  ⟨by decide, by decide, by decide⟩

theorem readTags_screenInfo : ∃ s, readTags screenInfo 0x36d76289 0x1000 3 = some s ∧
    s.visited = [(0x1008, 1), (0x1018, 8)] ++ [(0x1038, 0)] ∧
    s.framebuffer = (0xFD000000, 4096, 1024, 768) ∧
    (s.vgaActive = true ↔ ∃ t ∈ [nameTag, screenTag], t.type = 8) := by
  obtain ⟨s, hrun, hvisited, hframe, hactive⟩ :=
    readTags_wellFormed screenInfo_wellFormed (show [nameTag, screenTag].length < 3 by decide)
  exact ⟨s, hrun, hvisited, hframe.trans (by decide), hactive⟩

/-- What is reached in a well-formed structure is one of its tags or its end. -/
theorem lies_of_follows {mem : Buffer} {stop a b : Nat} {tags : List Tag}
    (hlies : Lies mem a tags) (hclosed : endOf a tags < 2 ^ 32)
    (h : Relation.ReflTransGen (Follows mem stop) a b) :
    ∃ rest, Lies mem b rest ∧ endOf b rest = endOf a tags := by
  induction h with
  | refl => exact ⟨tags, hlies, rfl⟩
  | @tail b _ _ hfollows ih =>
    obtain ⟨rest, hrest, hend⟩ := ih
    obtain ⟨-, htype, rfl⟩ := hfollows
    cases rest with
    | nil => exact absurd hrest htype
    | cons t ts =>
      have := le_endOf (b + t.span) ts
      rw [endOf] at hend
      rw [stride_eq_span hrest.1.2.1 (by omega)]
      exact ⟨ts, hrest.2, hend⟩

/-- In a well-formed structure with room for the header of its last tag the loop stays inside. -/
theorem WellFormed.tagsFit {mem : Buffer} {info : BitVec 32} {tags : List Tag}
    (h : WellFormed mem info tags)
    (hroom : endOf (info.toNat + 8) tags + 8 ≤ info.toNat + (read32 mem info.toNat).toNat) :
    TagsFit mem info := by
  have hbelow := h.below
  have hle := le_endOf (info.toNat + 8) tags
  have hstart : info.toNat + 8 < 2 ^ 32 := by omega
  refine ⟨hstart, fun a hpath _ => ?_⟩
  rw [firstTag_eq hstart] at hpath
  rw [stopOf_eq h.below] at hpath ⊢
  obtain ⟨rest, hlies, hend⟩ := lies_of_follows h.lies (by omega) hpath
  cases rest with
  | nil =>
    have hzero : read32 mem a = 0 := hlies
    rw [endOf] at hend
    refine ⟨by omega, fun hframe => ?_, fun hne => absurd hzero hne⟩
    rw [hzero] at hframe
    cases hframe
  | cons t ts =>
    obtain ⟨⟨htype, hsize, -⟩, -⟩ := hlies
    have hnext := le_endOf (a + t.span) ts
    rw [endOf] at hend
    rw [Tag.span, Tag.size] at hnext hend
    rw [Tag.size] at hsize
    refine ⟨by omega, fun hframe => ?_, fun _ => by omega⟩
    have := t.room (htype.symm.trans hframe)
    omega

/-- The loop of kmain ends and stays inside the structure exactly if every tag that it comes to
fits. -/
theorem contained_iff_tagsFit (mem : Buffer) (magic info : BitVec 32)
    (h : info.toNat + (read32 mem info.toNat).toNat < 2 ^ 32) :
    Contained mem magic info ↔ (magic = 0x36d76289 → TagsFit mem info) := by
  by_cases hmagic : magic = 0x36d76289
  · rw [imp_iff_right hmagic, hmagic]
    exact ⟨tagsFit_of_contained h, contained_of_tagsFit h⟩
  · refine iff_of_true ⟨0, Scan.start 0, if_neg hmagic, ?_⟩ (absurd · hmagic)
    exact fun r hr => absurd hr List.not_mem_nil

/-- A structure of one tag of type 1 whose size is zero. -/
def sizeless : Buffer := fun a => if a = 0x1000 then 16 else if a = 0x1008 then 1 else 0

theorem not_contained_sizeless :
    (0x1000 : BitVec 32).toNat + (read32 sizeless 0x1000).toNat < 2 ^ 32 ∧
      ¬Contained sizeless 0x36d76289 0x1000 := by
  refine ⟨by decide, fun h => ?_⟩
  have hfit := (tagsFit_of_contained (by decide) h).tags (firstTag 0x1000) .refl (by decide)
  exact absurd (hfit.size (by decide)).1 (by decide)

theorem contained_screenInfo : Contained screenInfo 0x36d76289 0x1000 :=
  (contained_iff_tagsFit screenInfo 0x36d76289 0x1000 (by decide)).mpr fun _ =>
    screenInfo_wellFormed.tagsFit (by decide)

end EmergenceOS.Boot.MultibootTags
