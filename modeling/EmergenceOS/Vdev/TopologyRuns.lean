/- Module: EmergenceOS/Vdev/TopologyRuns
   digest: Runs of the manifold refine a first-in first-out cache; what a reused slot holds. -/

import EmergenceOS.Vdev.TopologyRange
import Mathlib.Data.List.Induction

set_option autoImplicit false
set_option relaxedAutoImplicit false

namespace EmergenceOS.Vdev.Topology.SubstrateManifold

open EmergenceOS.Lib.Bytes EmergenceOS.Lib.FifoCache

/-- The operations of the address space, without those on slots. -/
inductive Op
  | materialize (vaddr : BitVec 64) (data : Buffer) (len : Nat)
  | fetch (vaddr : BitVec 64)

def Op.apply (m : SubstrateManifold) : Op → SubstrateManifold
  | .materialize vaddr data len => m.materializeRange vaddr data len
  | .fetch vaddr => (m.holographicFetch vaddr).2

def run (m : SubstrateManifold) (ops : List Op) : SubstrateManifold := ops.foldl Op.apply m

theorem run_append (m : SubstrateManifold) (ops ops' : List Op) :
    m.run (ops ++ ops') = (m.run ops).run ops' :=
  List.foldl_append

theorem run_singleton (m : SubstrateManifold) (op : Op) : m.run [op] = op.apply m := rfl

/-- Whole atoms inside one vblock. -/
def Op.InBlock : Op → Prop
  | .materialize vaddr _ len => vaddr.toNat % 16 = 0 ∧ len % 16 = 0 ∧
      vaddr.toNat % blockBytes + len ≤ blockBytes
  | .fetch _ => True

/-- The bytes of its vblock that an in-block write defines. -/
def rangeBytes (vaddr : BitVec 64) (data : Buffer) (len : Nat) :
    Fin blockBytes → Option Byte := fun o =>
  if vaddr.toNat % blockBytes ≤ o.val ∧ o.val < vaddr.toNat % blockBytes + len then
    some (data (o.val - vaddr.toNat % blockBytes))
  else none

/-- What an operation means for a cache of vblocks with byte contents. -/
def Op.spec (c : Cache (BitVec 64) (Fin blockBytes) Byte) :
    Op → Cache (BitVec 64) (Fin blockBytes) Byte
  | .materialize vaddr data len =>
    c.store cachePoolSize (vblockOf vaddr) (rangeBytes vaddr data len)
  | .fetch _ => c

def specRun (ops : List Op) : Cache (BitVec 64) (Fin blockBytes) Byte :=
  ops.foldl Op.spec Cache.empty

/-- The bytes of one slot. -/
def slotBytes (m : SubstrateManifold) (i : Fin cachePoolSize) (o : Fin blockBytes) : Byte :=
  m.cachePool (blockBytes * i.val + o.val)

/-- The slots implement the cache, and the 32-bit counter counts its creations. -/
structure Refines (m : SubstrateManifold) (c : Cache (BitVec 64) (Fin blockBytes) Byte) :
    Prop where
  store : Implements cachePoolSize m.slots m.slotBytes c
  counter : m.vblockCounter = BitVec.ofNat 32 c.created.length

theorem refines_construct (pool : Buffer) (map : Fin cachePoolSize → BitVec 64) :
    Refines (construct pool map) Cache.empty := by
  refine ⟨?_, rfl⟩
  rw [construct_slots]
  exact implements_empty _

/-- 1024 divides 2^32, so the victim is right past the wrap of the counter as well. -/
theorem Refines.victim_eq {m : SubstrateManifold}
    {c : Cache (BitVec 64) (Fin blockBytes) Byte} (h : Refines m c) :
    m.victim = Fin.ofNat cachePoolSize c.created.length := by
  apply Fin.ext
  rw [victim, h.counter, Fin.val_ofNat, Fin.val_ofNat, BitVec.toNat_ofNat]
  exact Nat.mod_mod_of_dvd _ (by decide)

/-- The copy of an in-block write changes its own slot, in the range and nowhere else. -/
theorem slotBytes_materializeRange (m : SubstrateManifold) {vaddr : BitVec 64} (data : Buffer)
    {len : Nat} (haligned : vaddr.toNat % 16 = 0)
    (hblock : vaddr.toNat % blockBytes + len ≤ blockBytes) (i : Fin cachePoolSize)
    (o : Fin blockBytes) : (m.materializeRange vaddr data len).slotBytes i o =
      if i = (m.place (vblockOf vaddr)).1 then
        (rangeBytes vaddr data len o).getD (m.slotBytes i o)
      else m.slotBytes i o := by
  have hoff := atomOf_of_aligned haligned
  have ho := o.isLt
  simp only [slotBytes, materializeRange_eq, rangeBytes]
  by_cases hi : i = (m.place (vblockOf vaddr)).1
  · subst i
    rw [if_pos rfl, hoff]
    split
    · rename_i hin
      rw [blit_inside _ _ (by omega) (by omega), Option.getD_some]
      congr 1
      omega
    · rw [blit_outside _ _ (by omega), Option.getD_none]
  · rw [if_neg hi]
    apply blit_outside
    have hne : i.val ≠ (m.place (vblockOf vaddr)).1.val := fun he => hi (Fin.ext he)
    simp only [blockBytes] at hoff ho hblock ⊢
    omega

/-- One operation of the manifold is one operation of the cache. -/
theorem Refines.step {m : SubstrateManifold} {c : Cache (BitVec 64) (Fin blockBytes) Byte}
    (h : Refines m c) {op : Op} (hop : op.InBlock) : Refines (op.apply m) (op.spec c) := by
  cases op with
  | fetch vaddr => simpa [Op.apply, Op.spec] using h
  | materialize vaddr data len =>
    simp only [Op.apply, Op.spec]
    have hbytes := slotBytes_materializeRange m data hop.1 hop.2.2
    cases hf : m.findBlock (vblockOf vaddr) with
    | some i =>
      have hslot := slots_of_findBlock hf
      have hres := (h.store.ring.exists_slot_iff _).mp ⟨i, hslot⟩
      rw [place_of_findBlock hf] at hbytes
      refine ⟨?_, ?_⟩
      · rw [materializeRange_slots, place_of_findBlock hf]
        refine h.store.hit hslot (fun o => by rw [hbytes, if_pos rfl]) fun j hj => ?_
        funext o
        rw [hbytes, if_neg hj]
      · rw [store_of_resident hres, materializeRange_eq, place_of_findBlock hf]
        exact h.counter
    | none =>
      obtain ⟨hvictim, hslots, hcounter⟩ := place_of_absent hf
      have habsent : ¬c.Resident cachePoolSize (vblockOf vaddr) := fun hres =>
        have ⟨i, hi⟩ := (h.store.ring.exists_slot_iff _).mpr hres
        findBlock_eq_none_iff.mp hf i hi
      rw [hvictim] at hbytes hslots
      rw [h.victim_eq] at hbytes hslots
      refine ⟨?_, ?_⟩
      · rw [materializeRange_slots, hslots]
        refine h.store.miss habsent (fun o => by rw [hbytes, if_pos rfl]) fun j hj => ?_
        funext o
        rw [hbytes, if_neg hj]
      · rw [store_of_absent habsent, materializeRange_eq]
        simp only [hcounter, h.counter, List.length_cons, BitVec.ofNat_add]
        rfl

theorem Refines.run {m : SubstrateManifold} {c : Cache (BitVec 64) (Fin blockBytes) Byte}
    (h : Refines m c) {ops : List Op} (hops : ∀ op ∈ ops, op.InBlock) :
    Refines (m.run ops) (ops.foldl Op.spec c) := by
  induction ops generalizing m c with
  | nil => exact h
  | cons op ops ih =>
    exact ih (h.step (hops op List.mem_cons_self)) fun op' hop' =>
      hops op' (List.mem_cons_of_mem op hop')

section Refined
variable {m : SubstrateManifold} {c : Cache (BitVec 64) (Fin blockBytes) Byte}

theorem Refines.resident_iff (h : Refines m c) (v : BitVec 64) :
    m.Resident v ↔ c.Resident cachePoolSize v := by
  rw [resident_iff_slots]
  exact h.store.ring.exists_slot_iff v

theorem Refines.fetch_data (h : Refines m c) {w : BitVec 64}
    (hres : c.Resident cachePoolSize (vblockOf w)) {k : Nat} (hk : k < 16) {b : Byte}
    (hb : c.content (vblockOf w) ⟨atomOf w + k, atomOf_add_lt w hk⟩ = some b) :
    (m.holographicFetch w).1.data k = b := by
  obtain ⟨i, hi⟩ := SubstrateManifold.resident_iff.mp ((h.resident_iff _).mpr hres)
  rw [holographicFetch_data _ _ hk, byteOf, hi]
  exact h.store.content i _ (slots_of_findBlock hi) _ _ hb

end Refined

/-- Every run of in-block writes and fetches on a fresh manifold, however long, is a run
of the first-in first-out cache of capacity 1024. -/
theorem run_refines_fifo (pool : Buffer) (map : Fin cachePoolSize → BitVec 64) (ops : List Op)
    (hops : ∀ op ∈ ops, op.InBlock) :
    (∀ v, ((construct pool map).run ops).Resident v ↔ v ∈ (specRun ops).created.take 1024) ∧
    (∀ w, vblockOf w ∉ (specRun ops).created.take 1024 →
      (((construct pool map).run ops).holographicFetch w).1 = ⟨0, 0⟩) ∧
    (∀ w k, ∀ hk : k < 16, vblockOf w ∈ (specRun ops).created.take 1024 →
      ∀ b, (specRun ops).content (vblockOf w) ⟨atomOf w + k, atomOf_add_lt w hk⟩ = some b →
        (((construct pool map).run ops).holographicFetch w).1.data k = b) ∧
    (∀ w, (((construct pool map).run ops).holographicFetch w).2 =
      (construct pool map).run ops) := by
  have h : Refines ((construct pool map).run ops) (specRun ops) :=
    (refines_construct pool map).run hops
  refine ⟨h.resident_iff, fun w hw => ?_, fun w k hk hw b hb => h.fetch_data hw hk hb,
    fun w => holographicFetch_snd _ w⟩
  exact holographicFetch_absent fun hres => hw ((h.resident_iff _).mp hres)

/-- Two vblocks over a pool that holds something, the first one written twice. -/
theorem run_refines_fifo_two_vblocks :
    let m := (construct (fun _ => 0xEE) fun _ => 5).run [.materialize 0 (fun _ => 7) 16,
      .materialize 0x4000 (fun _ => 9) 32, .fetch 0, .materialize 16 (fun _ => 8) 16]
    m.Resident 0 ∧ m.Resident 1 ∧ ¬m.Resident 2 ∧ (m.holographicFetch 0x8000).1 = ⟨0, 0⟩ ∧
      (m.holographicFetch 0).1.data 15 = 7 ∧ (m.holographicFetch 16).1.data 0 = 8 ∧
      (m.holographicFetch 0x4010).1.data 3 = 9 := by
  intro m
  obtain ⟨hresident, hother, hdata, -⟩ := run_refines_fifo (fun _ => 0xEE) (fun _ => 5)
    [.materialize 0 (fun _ => 7) 16, .materialize 0x4000 (fun _ => 9) 32, .fetch 0,
      .materialize 16 (fun _ => 8) 16] (by simp [Op.InBlock, blockBytes])
  exact ⟨(hresident 0).mpr (by decide), (hresident 1).mpr (by decide),
    fun h => absurd ((hresident 2).mp h) (by decide), hother 0x8000 (by decide),
    hdata 0 15 (by decide) (by decide) 7 (by decide), hdata 16 0 (by decide) (by decide) 8
      (by decide), hdata 0x4010 3 (by decide) (by decide) 9 (by decide)⟩

/-! Unwritten atoms. A slot is handed over with whatever it holds. -/

/-- Some write of the run covers the atom at w. -/
def Written (ops : List Op) (w : BitVec 64) : Prop :=
  ∃ vaddr data len, Op.materialize vaddr data len ∈ ops ∧ Covers vaddr len w

/-- If the last write of the run creates its vblock, then the atoms of that vblock that
are still unwritten are zero in the slot that it takes over. -/
def CleanHandover (m : SubstrateManifold) (ops : List Op) (vaddr : BitVec 64) : Prop :=
  ¬m.Resident (vblockOf vaddr) → ∀ w, vblockOf w = vblockOf vaddr → ¬Written ops w →
    ∀ k < 16, m.cachePool (blockBytes * m.victim.val + atomOf w + k) = 0

/-- A slot holds zero at the unwritten atoms of the vblock that it carries. -/
def UnwrittenZero (m : SubstrateManifold) (ops : List Op) : Prop :=
  ∀ i w, m.slots i = some (vblockOf w) → ¬Written ops w →
    ∀ k < 16, m.cachePool (blockBytes * i.val + atomOf w + k) = 0

theorem not_written_append {ops ops' : List Op} {w : BitVec 64} (h : ¬Written (ops ++ ops') w) :
    ¬Written ops w :=
  fun ⟨vaddr, data, len, hmem, hcov⟩ => h ⟨vaddr, data, len, List.mem_append_left _ hmem, hcov⟩

theorem not_covers_of_not_written {ops : List Op} {vaddr : BitVec 64} {data : Buffer} {len : Nat}
    {w : BitVec 64} (h : ¬Written (ops ++ [.materialize vaddr data len]) w) :
    ¬Covers vaddr len w :=
  fun hcov => h ⟨vaddr, data, len, by simp, hcov⟩

/-- An atom outside an in-block write keeps its bytes in every slot that may carry it. -/
theorem cachePool_outside {m : SubstrateManifold} {vaddr : BitVec 64} {data : Buffer} {len : Nat}
    (hop : (Op.materialize vaddr data len).InBlock) {w : BitVec 64} (hw : ¬Covers vaddr len w)
    {i : Fin cachePoolSize}
    (hi : (m.materializeRange vaddr data len).slots i = some (vblockOf w)) {k : Nat}
    (hk : k < 16) : (m.materializeRange vaddr data len).cachePool
      (blockBytes * i.val + atomOf w + k) = m.cachePool (blockBytes * i.val + atomOf w + k) := by
  have hbyte := slotBytes_materializeRange m data hop.1 hop.2.2 i ⟨atomOf w + k, atomOf_add_lt w hk⟩
  simp only [slotBytes, ← Nat.add_assoc] at hbyte
  rw [hbyte]
  split
  · rename_i hplace
    subst i
    rw [materializeRange_slots, slots_of_findBlock (findBlock_place m _)] at hi
    have hv := congrArg BitVec.toNat (Option.some.inj hi)
    rw [toNat_vblockOf, toNat_vblockOf] at hv
    have hout : rangeBytes vaddr data len ⟨atomOf w + k, atomOf_add_lt w hk⟩ = none := by
      unfold rangeBytes
      apply if_neg
      obtain ⟨haligned, hlen, hblock⟩ := hop
      simp only [Covers, atomOf, blockBytes] at hw hv hblock ⊢
      omega
    rw [hout, Option.getD_none]
  · rfl

theorem fetch_of_unwrittenZero {m : SubstrateManifold} {ops : List Op} (h : UnwrittenZero m ops)
    {w : BitVec 64} (hw : ¬Written ops w) : (m.holographicFetch w).1 = ⟨0, 0⟩ := by
  rw [holographicFetch_fst]
  cases hf : m.findBlock (vblockOf w) with
  | none => rfl
  | some i =>
    apply Value128.ext_data
    intro k hk
    rw [readAtom_data _ _ hk, h i w (slots_of_findBlock hf) hw k hk]
    simp [Value128.data, byteAt]

theorem UnwrittenZero.step {m : SubstrateManifold} {ops : List Op} (h : UnwrittenZero m ops)
    {vaddr : BitVec 64} {data : Buffer} {len : Nat}
    (hop : (Op.materialize vaddr data len).InBlock)
    (hclean : CleanHandover m (ops ++ [.materialize vaddr data len]) vaddr) :
    UnwrittenZero (m.materializeRange vaddr data len)
      (ops ++ [.materialize vaddr data len]) := by
  intro i w hi hw k hk
  rw [cachePool_outside hop (not_covers_of_not_written hw) hi hk]
  cases hf : m.findBlock (vblockOf vaddr) with
  | some p =>
    rw [materializeRange_slots, place_of_findBlock hf] at hi
    exact h i w hi (not_written_append hw) k hk
  | none =>
    obtain ⟨hvictim, hslots, -⟩ := place_of_absent hf
    rw [materializeRange_slots, hslots, hvictim] at hi
    by_cases hiv : i = m.victim
    · subst i
      rw [Function.update_self] at hi
      have habsent : ¬m.Resident (vblockOf vaddr) := by
        rw [resident_iff, hf]
        simp
      exact hclean habsent w (Option.some.inj hi).symm hw k hk
    · rw [Function.update_of_ne hiv] at hi
      exact h i w hi (not_written_append hw) k hk

/-- The property of one moment of a run: every atom not written so far reads as zero. -/
def ReadsZero (m : SubstrateManifold) (ops : List Op) : Prop :=
  ∀ w, ¬Written ops w → (m.holographicFetch w).1 = ⟨0, 0⟩

theorem cleanHandover_of_readsZero {m : SubstrateManifold} {ops : List Op} {vaddr : BitVec 64}
    {data : Buffer} {len : Nat} (hop : (Op.materialize vaddr data len).InBlock)
    (h : ReadsZero (m.materializeRange vaddr data len) (ops ++ [.materialize vaddr data len])) :
    CleanHandover m (ops ++ [.materialize vaddr data len]) vaddr := by
  intro habsent w hv hw k hk
  have hf : m.findBlock (vblockOf vaddr) = none := by
    rw [resident_iff] at habsent
    exact Option.eq_none_iff_forall_ne_some.mpr fun i hi => habsent ⟨i, hi⟩
  obtain ⟨hvictim, -, -⟩ := place_of_absent hf
  have hfound : (m.materializeRange vaddr data len).findBlock (vblockOf w) = some m.victim := by
    rw [findBlock_materializeRange, hv, findBlock_place, hvictim]
  have hzero := congrArg (fun x => Value128.data x k) (h w hw)
  simp only [holographicFetch_data _ _ hk, byteOf, hfound, ← Nat.add_assoc] at hzero
  rw [cachePool_outside hop (not_covers_of_not_written hw) (slots_of_findBlock hfound) hk] at hzero
  simpa [Value128.data, byteAt] using hzero

/-- Along a run over a zeroed pool, unwritten atoms always read as zero if and only if
every creation of the run takes over a slot that is clean where it stays unwritten. -/
theorem readsZero_iff_cleanHandover (map : Fin cachePoolSize → BitVec 64) (ops : List Op)
    (hops : ∀ op ∈ ops, op.InBlock) :
    (∀ p, p <+: ops → ReadsZero ((construct (fun _ => 0) map).run p) p) ↔
      ∀ p vaddr data len, p ++ [.materialize vaddr data len] <+: ops →
        CleanHandover ((construct (fun _ => 0) map).run p) (p ++ [.materialize vaddr data len])
          vaddr := by
  have hmem {p : List Op} {op : Op} (hp : p ++ [op] <+: ops) : op.InBlock :=
    hops op (hp.subset (by simp))
  constructor
  · intro h p vaddr data len hp
    apply cleanHandover_of_readsZero (hmem hp)
    have := h _ hp
    rwa [run_append] at this
  · intro h
    have hinv (p : List Op) : p <+: ops →
        UnwrittenZero ((construct (fun _ => 0) map).run p) p := by
      induction p using List.reverseRecOn with
      | nil => exact fun _ _ _ _ _ _ _ => rfl
      | append_singleton p op ih =>
        intro hp
        have hprev := ih ((List.prefix_append p [op]).trans hp)
        rw [run_append, run_singleton]
        cases op with
        | fetch w =>
          simp only [Op.apply, holographicFetch_snd]
          exact fun i w hi hw => hprev i w hi (not_written_append hw)
        | materialize vaddr data len => exact hprev.step (hmem hp) (h p vaddr data len hp)
    exact fun p hp w hw => fetch_of_unwrittenZero (hinv p hp) hw

/-- The first vblock goes to the first slot, and the next slot stays as it was. -/
theorem second_slot_untouched (data : Buffer) (o : Fin blockBytes) :
    (zeroed.run [.materialize 0 data 16]).victim = 1 ∧
      (zeroed.run [.materialize 0 data 16]).slotBytes 1 o = 0 := by
  have hops : ∀ op ∈ [Op.materialize 0 data 16], op.InBlock := by simp [Op.InBlock, blockBytes]
  have hrefines := (refines_construct (fun _ => 0) fun _ => 0).run hops
  have hempty : zeroed.findBlock (vblockOf 0) = none := by
    rw [findBlock_eq_none_iff, zeroed, construct_slots]
    exact fun i hi => by cases hi
  have hfirst : (1 : Fin cachePoolSize) ≠ (zeroed.place (vblockOf 0)).1 := by
    rw [(place_of_absent hempty).1]
    decide
  refine ⟨hrefines.victim_eq.trans rfl, ?_⟩
  exact (slotBytes_materializeRange zeroed data (by decide) (by decide) 1 o).trans (if_neg hfirst)

/-- Two vblocks, the first one written twice; its third atom was never written. -/
theorem readsZero_two_vblocks :
    let ops := [Op.materialize 0 (fun _ => 7) 16, .materialize 0x4000 (fun _ => 9) 32, .fetch 0,
      .materialize 16 (fun _ => 8) 16]
    ReadsZero (zeroed.run ops) ops ∧ ¬Written ops 32 := by
  intro ops
  have hops : ∀ op ∈ ops, op.InBlock := by simp [ops, Op.InBlock, blockBytes]
  have hunwritten : ¬Written ops 32 := by
    rintro ⟨vaddr, data, len, hmem, hcov⟩
    simp only [ops, List.mem_cons, List.not_mem_nil, or_false, Op.materialize.injEq,
      reduceCtorEq, false_or] at hmem
    rcases hmem with ⟨rfl, -, rfl⟩ | ⟨rfl, -, rfl⟩ | ⟨rfl, -, rfl⟩ <;>
      exact absurd hcov (by decide)
  refine ⟨(readsZero_iff_cleanHandover (fun _ => 0) ops hops).mpr (fun p vaddr data len hp => ?_)
    ops (List.prefix_refl _), hunwritten⟩
  obtain ⟨hp, hop⟩ : p = ops.take p.length ∧
      ops[p.length]? = some (.materialize vaddr data len) := by
    obtain ⟨rest, hrest⟩ := hp
    rw [← hrest]
    simp
  have hlen : p.length < 4 := (List.getElem?_eq_some_iff.mp hop).1
  generalize p.length = n at hp hop hlen
  subst hp
  rcases n with _ | _ | _ | _ | n
  · exact fun _ _ _ _ _ _ => rfl
  · obtain ⟨rfl, -, -⟩ := Op.materialize.inj (Option.some.inj hop)
    intro _ w _ _ k hk
    obtain ⟨hvictim, hzero⟩ := second_slot_untouched (fun _ => 7)
      ⟨atomOf w + k, atomOf_add_lt w hk⟩
    change (zeroed.run [.materialize 0 (fun _ => 7) 16]).cachePool (blockBytes *
      (zeroed.run [.materialize 0 (fun _ => 7) 16]).victim.val + atomOf w + k) = 0
    rw [hvictim, Nat.add_assoc]
    exact hzero
  · cases hop
  · obtain ⟨rfl, -, -⟩ := Op.materialize.inj (Option.some.inj hop)
    have hrefines := (refines_construct (fun _ => 0) fun _ => 0).run fun op hmem =>
      hops op (List.mem_of_mem_take (i := 3) hmem)
    exact fun habsent => absurd ((hrefines.resident_iff _).mpr (by decide)) habsent
  · omega

/-! A run that creates vblocks 0, 1, 2, ... in turn. -/

def fillOp (len : Nat → Nat) (data : Buffer) (j : Nat) : Op :=
  .materialize (BitVec.ofNat 64 (blockBytes * j)) data (len j)

def fill (len : Nat → Nat) (data : Buffer) (n : Nat) : List Op :=
  (List.range n).map (fillOp len data)

theorem fill_succ (len : Nat → Nat) (data : Buffer) (n : Nat) :
    fill len data (n + 1) = fill len data n ++ [fillOp len data n] := by
  simp [fill, List.range_succ]

theorem fill_inBlock {len : Nat → Nat} (hlen : ∀ j, len j % 16 = 0 ∧ len j ≤ blockBytes)
    (data : Buffer) (n : Nat) : ∀ op ∈ fill len data n, op.InBlock := by
  intro op hop
  obtain ⟨j, -, rfl⟩ := List.mem_map.mp hop
  obtain ⟨h16, hle⟩ := hlen j
  have hnat : (BitVec.ofNat 64 (blockBytes * j)).toNat = blockBytes * j % 2 ^ 64 := by simp
  simp only [fillOp, Op.InBlock, hnat]
  simp only [blockBytes] at hle ⊢
  omega

theorem vblockOf_block {j : Nat} (hj : j < 2 ^ 50) :
    vblockOf (BitVec.ofNat 64 (blockBytes * j)) = BitVec.ofNat 64 j := by
  apply BitVec.eq_of_toNat_eq
  simp only [toNat_vblockOf, BitVec.toNat_ofNat, blockBytes]
  omega

theorem specRun_fill (len : Nat → Nat) (data : Buffer) {n : Nat} (hn : n < 2 ^ 50) :
    (specRun (fill len data n)).created = ((List.range n).map (BitVec.ofNat 64)).reverse ∧
      ∀ j < n, (specRun (fill len data n)).content (BitVec.ofNat 64 j) =
        rangeBytes (BitVec.ofNat 64 (blockBytes * j)) data (len j) := by
  induction n with
  | zero => exact ⟨rfl, fun _ hj => absurd hj (by omega)⟩
  | succ n ih =>
    obtain ⟨hcreated, hcontent⟩ := ih (by omega)
    have hne {j : Nat} (hj : j < n) : BitVec.ofNat 64 j ≠ BitVec.ofNat 64 n := by
      intro he
      have := congrArg BitVec.toNat he
      simp only [BitVec.toNat_ofNat] at this
      omega
    have habsent : ¬(specRun (fill len data n)).Resident cachePoolSize (BitVec.ofNat 64 n) := by
      intro hres
      have hmem := List.mem_of_mem_take hres
      simp only [hcreated, List.mem_reverse, List.mem_map, List.mem_range] at hmem
      obtain ⟨j, hj, he⟩ := hmem
      exact hne hj he
    have hstep : specRun (fill len data (n + 1)) =
        ⟨BitVec.ofNat 64 n :: (specRun (fill len data n)).created,
          Function.update (specRun (fill len data n)).content (BitVec.ofNat 64 n)
            (rangeBytes (BitVec.ofNat 64 (blockBytes * n)) data (len n))⟩ := by
      rw [specRun, fill_succ, List.foldl_append]
      change Op.spec (specRun (fill len data n)) (fillOp len data n) = _
      rw [fillOp, Op.spec, vblockOf_block (by omega), store_of_absent habsent]
    refine ⟨by simp [hstep, hcreated, List.range_succ], fun j hj => ?_⟩
    rw [hstep]
    rcases Nat.lt_succ_iff_lt_or_eq.mp hj with hlt | rfl
    · simp only [Function.update_of_ne (hne hlt), hcontent j hlt]
    · simp

theorem refines_fill {len : Nat → Nat} (hlen : ∀ j, len j % 16 = 0 ∧ len j ≤ blockBytes)
    (data : Buffer) (n : Nat) :
    Refines (zeroed.run (fill len data n)) (specRun (fill len data n)) :=
  (refines_construct _ _).run (fill_inBlock hlen data n)

/-- Before the first eviction vblock j sits in slot j, with the bytes it was created with. -/
theorem slots_fill {len : Nat → Nat} (hlen : ∀ j, len j % 16 = 0 ∧ len j ≤ blockBytes)
    (data : Buffer) {n : Nat} (hn : n ≤ cachePoolSize) {j : Fin cachePoolSize} (hj : j.val < n) :
    (zeroed.run (fill len data n)).slots j = some (BitVec.ofNat 64 j.val) := by
  have hsize : cachePoolSize = 1024 := rfl
  obtain ⟨hcreated, -⟩ := specRun_fill len data (n := n) (by omega)
  have hring := (refines_fill hlen data n).store.ring
  rw [hcreated] at hring
  have hocc := hring.occupied (n - 1 - j.val) (by simp; omega) (by omega)
  have hslot : Fin.ofNat cachePoolSize
      (((List.range n).map (BitVec.ofNat 64)).reverse.length - 1 - (n - 1 - j.val)) = j := by
    apply Fin.ext
    simp only [Fin.val_ofNat, List.length_reverse, List.length_map, List.length_range]
    rw [show n - 1 - (n - 1 - j.val) = j.val by omega, Nat.mod_eq_of_lt j.isLt]
  rw [hslot] at hocc
  rw [hocc]
  simp only [List.getElem_reverse, List.getElem_map, List.getElem_range, List.length_map,
    List.length_range]
  rw [show n - 1 - (n - 1 - j.val) = j.val by omega]

/-- The slots still hold what they were filled with. -/
theorem cachePool_fill {len : Nat → Nat} (hlen : ∀ j, len j % 16 = 0 ∧ len j ≤ blockBytes)
    (data : Buffer) {n : Nat} (hn : n ≤ cachePoolSize) {j : Nat} (hj : j < n) {o : Nat}
    (ho : o < len j) :
    (zeroed.run (fill len data n)).cachePool (blockBytes * j + o) = data o := by
  have hsize : cachePoolSize = 1024 := rfl
  have hslot := slots_fill hlen data hn (j := ⟨j, by omega⟩) hj
  have hbound : o < blockBytes := by
    have := (hlen j).2
    omega
  apply (refines_fill hlen data n).store.content ⟨j, by omega⟩ _ hslot ⟨o, hbound⟩
  rw [(specRun_fill len data (by omega)).2 j hj]
  have hbase : (BitVec.ofNat 64 (blockBytes * j)).toNat % blockBytes = 0 := by
    simp only [BitVec.toNat_ofNat, blockBytes]
    omega
  unfold rangeBytes
  rw [if_pos (by simp only [hbase]; omega), hbase, Nat.sub_zero]

theorem victim_fill {len : Nat → Nat} (hlen : ∀ j, len j % 16 = 0 ∧ len j ≤ blockBytes)
    (data : Buffer) {n : Nat} (hn : n < 2 ^ 50) :
    (zeroed.run (fill len data n)).victim = Fin.ofNat cachePoolSize n := by
  rw [(refines_fill hlen data n).victim_eq, (specRun_fill len data hn).1]
  simp

theorem absent_fill {len : Nat → Nat} (hlen : ∀ j, len j % 16 = 0 ∧ len j ≤ blockBytes)
    (data : Buffer) {n : Nat} (hn : n < 2 ^ 50) :
    ¬(zeroed.run (fill len data n)).Resident (BitVec.ofNat 64 n) := by
  rw [(refines_fill hlen data n).resident_iff]
  intro hres
  have hmem := List.mem_of_mem_take hres
  simp only [(specRun_fill len data hn).1, List.mem_reverse, List.mem_map, List.mem_range] at hmem
  obtain ⟨j, hj, he⟩ := hmem
  have := congrArg BitVec.toNat he
  simp only [BitVec.toNat_ofNat] at this
  omega

/-- Every creation after the first 1024 evicts the oldest vblock. -/
theorem evicted_fill {len : Nat → Nat} (hlen : ∀ j, len j % 16 = 0 ∧ len j ≤ blockBytes)
    (data : Buffer) {n j : Nat} (hn : n < 2 ^ 50) (hj : j + cachePoolSize < n) :
    ¬(zeroed.run (fill len data n)).Resident (BitVec.ofNat 64 j) := by
  rw [(refines_fill hlen data n).resident_iff]
  intro hres
  rw [Cache.Resident, (specRun_fill len data hn).1, List.mem_take_iff_getElem] at hres
  obtain ⟨i, hi, he⟩ := hres
  simp only [List.length_reverse, List.length_map, List.length_range] at hi
  have hval := congrArg BitVec.toNat he
  simp only [List.getElem_reverse, List.getElem_map, List.getElem_range, List.length_map,
    List.length_range, BitVec.toNat_ofNat] at hval
  omega

/-- Vblock 0 is created with 32 bytes, each later one with its first atom only. -/
def staleLen (j : Nat) : Nat := if j = 0 then 32 else 16

private theorem staleLen_spec (j : Nat) : staleLen j % 16 = 0 ∧ staleLen j ≤ blockBytes := by
  unfold staleLen
  split <;> decide

private theorem stale_atom_unwritten :
    ¬Written (fill staleLen (fun _ => 1) 1025) (BitVec.ofNat 64 (blockBytes * 1024 + 16)) := by
  rintro ⟨vaddr, data, len, hmem, hcov⟩
  obtain ⟨j, hj, he⟩ := List.mem_map.mp hmem
  simp only [fillOp, Op.materialize.injEq] at he
  obtain ⟨rfl, rfl, rfl⟩ := he
  have hlt := List.mem_range.mp hj
  have hlen : j = 1024 → staleLen j = 16 := by rintro rfl; rfl
  have hle : staleLen j ≤ 32 := by unfold staleLen; split <;> decide
  simp only [Covers, BitVec.toNat_ofNat, blockBytes] at hcov
  omega

/-- Vblock 1024 takes over the slot of vblock 0 with the second atom that was put there. -/
theorem stale_atom_after_wrap :
    (∀ op ∈ fill staleLen (fun _ => 1) 1025, op.InBlock) ∧
      ¬ReadsZero (zeroed.run (fill staleLen (fun _ => 1) 1025))
        (fill staleLen (fun _ => 1) 1025) := by
  have hops := fill_inBlock staleLen_spec (fun _ => 1) 1025
  refine ⟨hops, fun h => ?_⟩
  have hlast := hops (fillOp staleLen (fun _ => 1) 1024) (by
    rw [fill_succ]
    exact List.mem_append_right _ (List.mem_singleton_self _))
  have hunwritten := stale_atom_unwritten
  rw [fill_succ] at h hunwritten
  rw [run_append, run_singleton] at h
  have habsent : ¬(zeroed.run (fill staleLen (fun _ => 1) 1024)).Resident
      (vblockOf (BitVec.ofNat 64 (blockBytes * 1024))) := by
    rw [vblockOf_block (by decide)]
    exact absent_fill staleLen_spec _ (by decide)
  have hzero := cleanHandover_of_readsZero hlast h habsent _ (by decide) hunwritten 0 (by decide)
  have hold := cachePool_fill staleLen_spec (fun _ => 1) (n := 1024) le_rfl (j := 0) (by decide)
    (o := 16) (by decide)
  rw [victim_fill staleLen_spec _ (by decide),
    show blockBytes * (Fin.ofNat cachePoolSize 1024).val +
      atomOf (BitVec.ofNat 64 (blockBytes * 1024 + 16)) + 0 = 16 by decide] at hzero
  rw [show blockBytes * 0 + 16 = 16 by decide, hzero] at hold
  exact absurd hold (by decide)

end EmergenceOS.Vdev.Topology.SubstrateManifold
