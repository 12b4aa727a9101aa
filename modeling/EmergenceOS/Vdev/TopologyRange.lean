/- Module: EmergenceOS/Vdev/TopologyRange
   digest: Exactly when one linear copy stores a range that spans several vblocks. -/

import EmergenceOS.Vdev.Topology

/-!
materialize_range looks up the slot of the first vblock only and then copies
linearly through the pool. The range is stored as a range of addresses just when
the slots that follow belong to the vblocks that follow. The condition is about
the state before the call and the extent of the range, for all data at once.
-/

set_option autoImplicit false
set_option relaxedAutoImplicit false

namespace EmergenceOS.Vdev.Topology.SubstrateManifold

open EmergenceOS.Lib.Bytes EmergenceOS.Mm.Memory

/-- The atom at address w lies in the range of len bytes from vaddr on. -/
def Covers (vaddr : BitVec 64) (len : Nat) (w : BitVec 64) : Prop :=
  vaddr.toNat ≤ 16 * (w.toNat / 16) ∧ 16 * (w.toNat / 16) < vaddr.toNat + len

instance (vaddr : BitVec 64) (len : Nat) (w : BitVec 64) : Decidable (Covers vaddr len w) :=
  inferInstanceAs (Decidable (_ ∧ _))

/-- A store of a range as its addresses say: all chunks read back, no byte is written
behind the pool, and every other atom of a vblock that stays resident is untouched. -/
structure RangeStored (m : SubstrateManifold) (vaddr : BitVec 64) (data : Buffer) (len : Nat) :
    Prop where
  chunks : ∀ k < len / 16, ∀ j < 16,
    ((m.materializeRange vaddr data len).holographicFetch
      (vaddr + BitVec.ofNat 64 (16 * k))).1.data j = data (16 * k + j)
  inPool : ∀ i < len,
    entryOffset (m.getPhysicalBlock (vblockOf vaddr) true).1 vaddr + i < poolBytes
  frame : ∀ w, m.Resident (vblockOf w) →
    (m.materializeRange vaddr data len).Resident (vblockOf w) → ¬Covers vaddr len w →
    ((m.materializeRange vaddr data len).holographicFetch w).1 = (m.holographicFetch w).1

/-- Slot i is the first one besides the victim that carries v. -/
def IsSpare (m : SubstrateManifold) (v : BitVec 64) (i : Fin cachePoolSize) : Prop :=
  m.slots i = some v ∧ i ≠ m.victim ∧ ∀ j, m.slots j = some v → j = m.victim ∨ i ≤ j

/-- If the victim has to make room for the first vblock, then a vblock that was found there and
has a spare slot has the same bytes in it, outside the range. -/
def SparesAgree (m : SubstrateManifold) (vaddr : BitVec 64) (len : Nat) : Prop :=
  m.findBlock (vblockOf vaddr) = none → ∀ w i, m.findBlock (vblockOf w) = some m.victim →
    m.IsSpare (vblockOf w) i → ¬Covers vaddr len w → ∀ k < 16,
    m.cachePool (blockBytes * i.val + atomOf w + k) =
      m.cachePool (blockBytes * m.victim.val + atomOf w + k)

/-- Each vblock that the range touches sits in the slot that its position in the copy
says, and making room for the first one uncovers no second slot with other atoms. -/
structure Contiguous (m : SubstrateManifold) (vaddr : BitVec 64) (len : Nat) : Prop where
  lined : ∀ j, blockBytes * j < atomOf vaddr + len →
    ∃ i, (m.place (vblockOf vaddr)).2.findBlock (vblockOf vaddr + BitVec.ofNat 64 j) = some i ∧
      i.val = (m.place (vblockOf vaddr)).1.val + j
  quiet : m.SparesAgree vaddr len

section Copy
variable {m : SubstrateManifold} {vaddr : BitVec 64} {len : Nat}

theorem findBlock_materializeRange (data : Buffer) (v : BitVec 64) :
    (m.materializeRange vaddr data len).findBlock v =
      (m.place (vblockOf vaddr)).2.findBlock v :=
  findBlock_congr (materializeRange_slots m vaddr data len) v

theorem resident_materializeRange (data : Buffer) (v : BitVec 64) :
    (m.materializeRange vaddr data len).Resident v ↔
      (m.place (vblockOf vaddr)).2.Resident v := by
  rw [resident_iff, resident_iff, findBlock_materializeRange]

theorem toNat_vblockOf_add (vaddr : BitVec 64) {j : Nat} (hj : j < 2 ^ 63) :
    (vblockOf vaddr + BitVec.ofNat 64 j).toNat = vaddr.toNat / blockBytes + j := by
  have hlt := vaddr.isLt
  rw [BitVec.toNat_add, toNat_vblockOf, BitVec.toNat_ofNat]
  simp only [blockBytes]
  omega

theorem atomOf_of_aligned (haligned : vaddr.toNat % 16 = 0) :
    atomOf vaddr = vaddr.toNat % blockBytes := by
  simp only [atomOf, blockBytes]
  omega

/-- In a lined-up pool the copy meets no atom outside the range. -/
theorem copy_avoids (haligned : vaddr.toNat % 16 = 0) (hlen : len % 16 = 0)
    (hlined : ∀ j, blockBytes * j < atomOf vaddr + len →
      ∃ i, (m.place (vblockOf vaddr)).2.findBlock (vblockOf vaddr + BitVec.ofNat 64 j) = some i ∧
        i.val = (m.place (vblockOf vaddr)).1.val + j)
    {w : BitVec 64} {i : Fin cachePoolSize}
    (hi : (m.place (vblockOf vaddr)).2.findBlock (vblockOf w) = some i)
    (hw : ¬Covers vaddr len w) {k : Nat} (hk : k < 16) :
    blockBytes * i.val + atomOf w + k <
        blockBytes * (m.place (vblockOf vaddr)).1.val + atomOf vaddr ∨
      blockBytes * (m.place (vblockOf vaddr)).1.val + atomOf vaddr + len ≤
        blockBytes * i.val + atomOf w + k := by
  by_contra hmeet
  apply hw
  have hatom := atomOf_add_lt w hk
  have hoff := atomOf_of_aligned haligned
  obtain ⟨i', hi', hval⟩ := hlined (i.val - (m.place (vblockOf vaddr)).1.val) (by
    simp only [blockBytes] at hmeet hatom hoff ⊢
    omega)
  -- the slot the copy runs into is the one that lines up with its distance from the first
  have hsame : i' = i := by
    apply Fin.ext
    simp only [blockBytes] at hmeet hatom hoff
    omega
  subst i'
  have hv := (slots_of_findBlock hi).symm.trans (slots_of_findBlock hi')
  have hvnat := congrArg BitVec.toNat (Option.some.inj hv)
  rw [toNat_vblockOf, toNat_vblockOf_add vaddr (by
    have := i.isLt
    simp only [cachePoolSize] at this
    omega)] at hvnat
  simp only [atomOf, blockBytes, Covers] at hmeet hatom hoff hvnat ⊢
  omega

theorem fetch_outside (haligned : vaddr.toNat % 16 = 0) (hlen : len % 16 = 0)
    (hlined : ∀ j, blockBytes * j < atomOf vaddr + len →
      ∃ i, (m.place (vblockOf vaddr)).2.findBlock (vblockOf vaddr + BitVec.ofNat 64 j) = some i ∧
        i.val = (m.place (vblockOf vaddr)).1.val + j)
    (data : Buffer) {w : BitVec 64} (hw : ¬Covers vaddr len w) :
    ((m.materializeRange vaddr data len).holographicFetch w).1 =
      ((m.place (vblockOf vaddr)).2.holographicFetch w).1 := by
  rw [holographicFetch_fst, holographicFetch_fst, findBlock_materializeRange]
  cases hf : (m.place (vblockOf vaddr)).2.findBlock (vblockOf w) with
  | none => rfl
  | some i =>
    rw [materializeRange_eq]
    apply readAtom_congr
    intro k hk
    rw [place_cachePool]
    exact blit_outside _ _ (copy_avoids haligned hlen hlined hf hw hk)

/-- An address in the range names its vblock by the distance from the first one. -/
theorem split_address (haligned : vaddr.toNat % 16 = 0) {d : Nat}
    (hfit : vaddr.toNat + d < 2 ^ 64) (hd : d % 16 = 0) :
    vblockOf (vaddr + BitVec.ofNat 64 d) =
        vblockOf vaddr + BitVec.ofNat 64 ((atomOf vaddr + d) / blockBytes) ∧
      atomOf (vaddr + BitVec.ofNat 64 d) = (atomOf vaddr + d) % blockBytes := by
  have hnat : (vaddr + BitVec.ofNat 64 d).toNat = vaddr.toNat + d := by
    rw [BitVec.toNat_add, BitVec.toNat_ofNat]
    omega
  have hoff := atomOf_of_aligned haligned
  constructor
  · apply BitVec.eq_of_toNat_eq
    rw [toNat_vblockOf, hnat, toNat_vblockOf_add vaddr (by
      simp only [blockBytes] at hoff ⊢
      omega)]
    simp only [blockBytes] at hoff ⊢
    omega
  · rw [hoff, atomOf, hnat]
    simp only [blockBytes]
    omega

theorem findBlock_eq_some_iff {v : BitVec 64} {i : Fin cachePoolSize} :
    m.findBlock v = some i ↔ m.slots i = some v ∧ ∀ j < i, m.slots j ≠ some v := by
  rw [findBlock_eq_find_slots, List.find?_eq_some_iff_getElem, decide_eq_true_eq]
  refine and_congr_right fun _ => ⟨?_, fun h => ?_⟩
  · rintro ⟨n, hn, rfl, hbefore⟩ j hj
    have hfirst := hbefore j.val (by simpa [Fin.lt_def] using hj)
    simpa using hfirst
  · refine ⟨i.val, by simp, by simp, fun j hj => ?_⟩
    have hbefore := h ⟨j, hj.trans i.isLt⟩ hj
    simpa using hbefore

/-- Taking over the victim's slot moves a vblock to its spare slot, and no other one. -/
theorem findBlock_takeover (hf : m.findBlock (vblockOf vaddr) = none) {v : BitVec 64}
    {i i' : Fin cachePoolSize} (hi : m.findBlock v = some i)
    (hi' : (m.place (vblockOf vaddr)).2.findBlock v = some i') :
    if i = m.victim then m.IsSpare v i' else i' = i := by
  obtain ⟨hvictim, hslots, -⟩ := place_of_absent hf
  have hne : v ≠ vblockOf vaddr := by
    rintro rfl
    rw [hi] at hf
    cases hf
  have hother (j : Fin cachePoolSize) : (m.place (vblockOf vaddr)).2.slots j = some v ↔
      j ≠ m.victim ∧ m.slots j = some v := by
    rw [hslots, hvictim, Function.update_apply]
    by_cases hj : j = m.victim
    · rw [if_pos hj, Option.some.injEq]
      exact ⟨fun h => absurd h.symm hne, fun h => absurd hj h.1⟩
    · rw [if_neg hj]
      exact ⟨fun h => ⟨hj, h⟩, fun h => h.2⟩
  obtain ⟨hslot, hfirst⟩ := findBlock_eq_some_iff.mp hi
  obtain ⟨hslot', hfirst'⟩ := findBlock_eq_some_iff.mp hi'
  obtain ⟨hne', hold⟩ := (hother i').mp hslot'
  split
  · refine ⟨hold, hne', fun j hj => or_iff_not_imp_left.mpr fun hjv => ?_⟩
    exact Fin.not_lt.mp fun hlt => hfirst' j hlt ((hother j).mpr ⟨hjv, hj⟩)
  · rename_i hiv
    apply Fin.le_antisymm
    · exact Fin.not_lt.mp fun hlt => hfirst' i hlt ((hother i).mpr ⟨hiv, hslot⟩)
    · exact Fin.not_lt.mp fun hlt => hfirst i' hlt hold

/-- What is fetched after the takeover, before the copy. -/
theorem fetch_takeover_iff : m.SparesAgree vaddr len ↔
    ∀ w, m.Resident (vblockOf w) → (m.place (vblockOf vaddr)).2.Resident (vblockOf w) →
      ¬Covers vaddr len w →
      ((m.place (vblockOf vaddr)).2.holographicFetch w).1 = (m.holographicFetch w).1 := by
  constructor
  · intro h w hw hplace hout
    obtain ⟨i, hi⟩ := resident_iff.mp hw
    obtain ⟨i', hi'⟩ := resident_iff.mp hplace
    cases hf : m.findBlock (vblockOf vaddr) with
    | some p => rw [place_of_findBlock hf]
    | none =>
      have hmoved := findBlock_takeover hf hi hi'
      rw [holographicFetch_fst, holographicFetch_fst, hi, hi', place_cachePool]
      split at hmoved
      · rename_i hvictim
        subst hvictim
        exact readAtom_congr (h hf w i' hi hmoved hout)
      · rw [hmoved]
  · intro h hf w i hi hspare hout k hk
    obtain ⟨hvictim, hslots, -⟩ := place_of_absent hf
    have hresident : (m.place (vblockOf vaddr)).2.Resident (vblockOf w) := by
      refine resident_iff_slots.mpr ⟨i, ?_⟩
      rw [hslots, hvictim, Function.update_of_ne hspare.2.1]
      exact hspare.1
    obtain ⟨i', hi'⟩ := resident_iff.mp hresident
    have hmoved := findBlock_takeover hf hi hi'
    rw [if_pos rfl] at hmoved
    have hsame : i' = i := Fin.le_antisymm ((hmoved.2.2 i hspare.1).resolve_left hspare.2.1)
      ((hspare.2.2 i' hmoved.1).resolve_left hmoved.2.1)
    have hfetch := h w (resident_iff.mpr ⟨_, hi⟩) hresident hout
    rw [holographicFetch_fst, holographicFetch_fst, hi, hi', place_cachePool, hsame] at hfetch
    have hbyte := congrArg (fun x => Value128.data x k) hfetch
    simpa only [readAtom_data _ _ hk] using hbyte

theorem rangeStored_of_contiguous (haligned : vaddr.toNat % 16 = 0) (hlen : len % 16 = 0)
    (hfit : vaddr.toNat + len < 2 ^ 64) (h : Contiguous m vaddr len) (data : Buffer) :
    RangeStored m vaddr data len := by
  refine ⟨fun k hk j hj => ?_, fun i hi => ?_, fun w hm hm' hw => ?_⟩
  · obtain ⟨hv, ho⟩ := split_address haligned (d := 16 * k) (by omega) (by omega)
    obtain ⟨i, hi, hval⟩ := h.lined ((atomOf vaddr + 16 * k) / blockBytes) (by
      simp only [blockBytes]
      omega)
    have hpos : blockBytes * i.val + (atomOf (vaddr + BitVec.ofNat 64 (16 * k)) + j) =
        blockBytes * (m.place (vblockOf vaddr)).1.val + atomOf vaddr + (16 * k + j) := by
      rw [ho, hval, Nat.mul_add]
      have := Nat.div_add_mod (atomOf vaddr + 16 * k) blockBytes
      omega
    rw [holographicFetch_data _ _ hj, byteOf, findBlock_materializeRange, hv, hi,
      materializeRange_eq]
    dsimp only
    rw [hpos, blit_inside _ _ (by omega) (by omega)]
    congr 1
    omega
  · obtain ⟨i', -, hval⟩ := h.lined ((atomOf vaddr + i) / blockBytes) (by
      simp only [blockBytes]
      omega)
    have hlt := i'.isLt
    rw [getPhysicalBlock_true, entryOffset_slot]
    simp only [poolBytes, blockBytes, cachePoolSize] at hval hlt ⊢
    omega
  · rw [fetch_outside haligned hlen h.lined data hw]
    exact fetch_takeover_iff.mp h.quiet w hm ((resident_materializeRange data _).mp hm') hw

private theorem exists_byte_ne (x : Byte) : ∃ y : Byte, y ≠ 0 ∧ y ≠ x := by
  by_cases hx : x = 1
  · exact ⟨2, by decide, by rw [hx]; decide⟩
  · exact ⟨1, by decide, fun h => hx h.symm⟩

/-- Data with a single marked chunk tells the slot that the copy wrote it to. -/
theorem lined_of_rangeStored (haligned : vaddr.toNat % 16 = 0) (hlen : len % 16 = 0)
    (hfit : vaddr.toNat + len < 2 ^ 64) (h : ∀ data, RangeStored m vaddr data len)
    {j : Nat} (hj : blockBytes * j < atomOf vaddr + len) :
    ∃ i, (m.place (vblockOf vaddr)).2.findBlock (vblockOf vaddr + BitVec.ofNat 64 j) = some i ∧
      i.val = (m.place (vblockOf vaddr)).1.val + j := by
  rcases Nat.eq_zero_or_pos j with rfl | hpos
  · exact ⟨_, by simpa using findBlock_place m (vblockOf vaddr), rfl⟩
  have hoff := atomOf_of_aligned haligned
  obtain ⟨k, hk⟩ : ∃ k, atomOf vaddr + 16 * k = blockBytes * j :=
    ⟨(blockBytes * j - atomOf vaddr) / 16, by simp only [blockBytes] at hoff ⊢; omega⟩
  obtain ⟨hv, ho⟩ := split_address haligned (d := 16 * k) (by omega) (by omega)
  rw [hk, Nat.mul_div_cancel_left _ (by decide)] at hv
  rw [hk, Nat.mul_mod_right] at ho
  obtain ⟨y, hy, hold⟩ := exists_byte_ne ((m.place (vblockOf vaddr)).2.byteOf
    (vblockOf vaddr + BitVec.ofNat 64 j) 0)
  have hread := (h fun t => if t = 16 * k then y else 0).chunks k (by omega) 0 (by omega)
  rw [holographicFetch_data _ _ (by omega), byteOf, findBlock_materializeRange, hv, ho] at hread
  cases hf : (m.place (vblockOf vaddr)).2.findBlock (vblockOf vaddr + BitVec.ofNat 64 j) with
  | none =>
    simp only [hf, Nat.add_zero, if_true] at hread
    exact absurd hread.symm hy
  | some i =>
    refine ⟨i, rfl, ?_⟩
    simp only [hf, byteOf, place_cachePool] at hread hold
    rw [materializeRange_eq] at hread
    dsimp only at hread
    simp only [Nat.add_zero, if_true] at hread hold
    unfold blit at hread
    split at hread
    · dsimp only at hread
      split at hread
      · rename_i hin hmark
        simp only [blockBytes] at hin hmark hk
        omega
      · exact absurd hread.symm hy
    · exact absurd hread.symm hold

end Copy

/-- One linear copy stores the range for every data of its length if and only if the
slots that follow the first one belong, in order, to the vblocks that follow. -/
theorem rangeStored_iff_contiguous (m : SubstrateManifold) (vaddr : BitVec 64) (len : Nat)
    (haligned : vaddr.toNat % 16 = 0) (hlen : len % 16 = 0)
    (hfit : vaddr.toNat + len < 2 ^ 64) :
    (∀ data, RangeStored m vaddr data len) ↔ Contiguous m vaddr len := by
  constructor
  · intro h
    have hlined : ∀ j, blockBytes * j < atomOf vaddr + len → _ :=
      fun j hj => lined_of_rangeStored haligned hlen hfit h hj
    refine ⟨hlined, fetch_takeover_iff.mpr fun w hm hplace hw => ?_⟩
    rw [← fetch_outside haligned hlen hlined (fun _ => 0) hw]
    exact (h fun _ => 0).frame w hm ((resident_materializeRange _ _).mpr hplace) hw
  · exact fun h data => rangeStored_of_contiguous haligned hlen hfit h data

/-- A manifold that holds every resident vblock in one slot only. -/
def Distinct (m : SubstrateManifold) : Prop :=
  ∀ i i' v, m.slots i = some v → m.slots i' = some v → i = i'

/-- Inside one vblock there is nothing to line up. -/
theorem contiguous_of_inBlock {m : SubstrateManifold} (hm : m.Distinct) {vaddr : BitVec 64}
    {len : Nat} (hblock : atomOf vaddr + len ≤ blockBytes) : Contiguous m vaddr len := by
  refine ⟨fun j hj => ?_, fun _ w i hi hspare _ => ?_⟩
  · obtain rfl : j = 0 := by
      simp only [blockBytes] at hblock hj
      omega
    exact ⟨_, by simpa using findBlock_place m (vblockOf vaddr), rfl⟩
  · exact absurd (hm i m.victim _ hspare.1 (slots_of_findBlock hi)) hspare.2.1

theorem zeroed_distinct : zeroed.Distinct := by
  intro i i' v hi
  simp [zeroed] at hi

/-- A write of one whole vblock into an empty manifold. -/
theorem rangeStored_zeroed_block : RangeStored zeroed 0 (fun _ => 7) 16384 :=
  (rangeStored_iff_contiguous zeroed 0 16384 (by decide) (by decide) (by decide)).mpr
    (contiguous_of_inBlock zeroed_distinct (by decide)) _

/-- One chunk past the vblock goes to the next slot, which carries no vblock. -/
theorem not_rangeStored_across_blocks :
    (0 : BitVec 64).toNat % 16 = 0 ∧ 16400 % 16 = 0 ∧ 16400 ≤ 1024 * blockBytes ∧
      (0 : BitVec 64).toNat + 16400 < 2 ^ 64 ∧ ¬RangeStored zeroed 0 (fun _ => 1) 16400 := by
  refine ⟨by decide, by decide, by decide, by decide, fun h => ?_⟩
  have hread := h.chunks 1024 (by decide) 0 (by decide)
  have habsent : zeroed.findBlock (vblockOf 0) = none :=
    findBlock_eq_none_iff.mpr fun i => by simp [zeroed]
  obtain ⟨-, hslots, -⟩ := place_of_absent habsent
  have hnext : (zeroed.place (vblockOf 0)).2.findBlock (vblockOf (0 + BitVec.ofNat 64 16384)) =
      none := by
    rw [findBlock_eq_none_iff, hslots]
    intro i
    by_cases hi : i = (zeroed.place (vblockOf 0)).1
    · subst i
      rw [Function.update_self]
      decide
    · rw [Function.update_of_ne hi]
      simp [zeroed]
  rw [holographicFetch_data _ _ (by decide), byteOf, findBlock_materializeRange, hnext] at hread
  exact absurd hread (by decide)

end EmergenceOS.Vdev.Topology.SubstrateManifold
