/- Module: EmergenceOS/Core/LogicTransducer
   digest: Burned atoms and chains of lookups: when a chain walks the map that was burned. -/

import EmergenceOS.Lib.Walk
import EmergenceOS.Vdev.TopologyFilling

/-!
An intent is used as a byte address, so the 16 intents of one atom share a result; and
an atom that is all zero counts as never burned, whether it was burned or not.
-/

set_option autoImplicit false
set_option relaxedAutoImplicit false

namespace EmergenceOS.Core.LogicTransducer

open EmergenceOS.Lib.Bytes EmergenceOS.Lib.Walk
open EmergenceOS.Vdev.Topology EmergenceOS.Vdev.Topology.SubstrateManifold

def burnAtom (manifold : SubstrateManifold) (intent resultLo : BitVec 64) : SubstrateManifold :=
  let terminal : Value128 := ⟨0, resultLo⟩
  manifold.materializeRange intent terminal.data 16

structure ExecutionState where
  lastResolve : BitVec 64
  fault : Bool
  deriving DecidableEq

/-- The loop of resolve_chain over the words that are left. -/
def resolveChainFrom (manifold : SubstrateManifold) :
    List (BitVec 64) → ExecutionState → ExecutionState × SubstrateManifold
  | [], state => (state, manifold)
  | word :: script, state =>
    let intent := state.lastResolve ^^^ word
    let (terminal, manifold) := manifold.holographicFetch intent
    if terminal.hi = 0 ∧ terminal.lo = 0 then ({ state with fault := true }, manifold)
    else resolveChainFrom manifold script { state with lastResolve := terminal.lo }

def resolveChain (manifold : SubstrateManifold) (script : List (BitVec 64)) :
    ExecutionState × SubstrateManifold :=
  resolveChainFrom manifold script ⟨0, false⟩

/-- A fresh manifold after a sequence of burns. -/
def transduced (burns : List (BitVec 64 × BitVec 64)) : SubstrateManifold :=
  burns.foldl (fun manifold b => burnAtom manifold b.1 b.2) zeroed

/-- The vblocks that the burns touch. -/
def touched (burns : List (BitVec 64 × BitVec 64)) : Finset (BitVec 64) :=
  (burns.map fun b => vblockOf b.1).toFinset

/-- The map from intents to results. -/
def burned (burns : List (BitVec 64 × BitVec 64)) : BitVec 64 → Option (BitVec 64) := table burns

/-- What the burns leave in each atom, whichever of its intents they name. -/
def atoms (burns : List (BitVec 64 × BitVec 64)) : BitVec 64 → Option (BitVec 64) :=
  table (burns.map fun b => (b.1 / 16, b.2))

/-- What resolve_chain returns if it walks the map: each step looks up the last result
combined with a word of the script, and an intent that is not in the map is a fault. -/
def prescribed (burns : List (BitVec 64 × BitVec 64)) (script : List (BitVec 64)) :
    ExecutionState :=
  let (lastResolve, fault) := follow (· ^^^ ·) (burned burns) script 0
  ⟨lastResolve, fault⟩

/-- The intents that the walk looks up. -/
def lookedUp (burns : List (BitVec 64 × BitVec 64)) (script : List (BitVec 64)) :
    List (BitVec 64) :=
  visited (· ^^^ ·) (burned burns) script 0

/-- The chain walks the map word by word. -/
def Walks (burns : List (BitVec 64 × BitVec 64)) (script : List (BitVec 64)) : Prop :=
  ∀ p, p <+: script → (resolveChain (transduced burns) p).1 = prescribed burns p

/-- A burned intent has a result other than zero, and no later burn of the same atom gave it
another one; around one that was not burned the atom is empty or holds zero. -/
def Undisturbed (burns : List (BitVec 64 × BitVec 64)) (intent : BitVec 64) : Prop :=
  match burned burns intent with
  | none => (atoms burns (intent / 16)).getD 0 = 0
  | some r => r ≠ 0 ∧ atoms burns (intent / 16) = some r

instance (burns : List (BitVec 64 × BitVec 64)) (intent : BitVec 64) :
    Decidable (Undisturbed burns intent) :=
  match h : burned burns intent with
  | none => decidable_of_iff ((atoms burns (intent / 16)).getD 0 = 0) (by rw [Undisturbed, h])
  | some r => decidable_of_iff (r ≠ 0 ∧ atoms burns (intent / 16) = some r) (by
      rw [Undisturbed, h])

/-- What a step of resolve_chain finds at an intent. -/
def lookup (manifold : SubstrateManifold) (intent : BitVec 64) : Option (BitVec 64) :=
  let terminal := (manifold.holographicFetch intent).1
  if terminal.hi = 0 ∧ terminal.lo = 0 then none else some terminal.lo

/-- A chain is a walk through what the steps find. -/
theorem resolveChainFrom_eq (manifold : SubstrateManifold) (script : List (BitVec 64))
    (x : BitVec 64) : resolveChainFrom manifold script ⟨x, false⟩ =
      (⟨(follow (· ^^^ ·) (lookup manifold) script x).1,
        (follow (· ^^^ ·) (lookup manifold) script x).2⟩, manifold) := by
  induction script generalizing x with
  | nil => rfl
  | cons word script ih =>
    have hfetch := holographicFetch_snd manifold (x ^^^ word)
    rw [resolveChainFrom]
    simp only [hfetch]
    by_cases hzero : ((manifold.holographicFetch (x ^^^ word)).1.hi = 0 ∧
        (manifold.holographicFetch (x ^^^ word)).1.lo = 0)
    · rw [if_pos hzero, follow_cons_none (t := lookup manifold) (if_pos hzero)]
    · rw [if_neg hzero, follow_cons_some (t := lookup manifold) (if_neg hzero), ih]

/-! The atom of an intent. -/

theorem burnAtom_eq (manifold : SubstrateManifold) (intent resultLo : BitVec 64) :
    burnAtom manifold intent resultLo =
      manifold.materializeRange (aligned intent) (Value128.mk 0 resultLo).data 16 := by
  rw [burnAtom, materializeRange_aligned]

theorem burn_inBlock (intent : BitVec 64) (data : Buffer) :
    (Op.materialize (aligned intent) data 16).InBlock := by
  have haligned := toNat_aligned intent
  refine ⟨by omega, rfl, ?_⟩
  simp only [blockBytes]
  omega

theorem toNat_div_sixteen (q : BitVec 64) : (q / 16).toNat = q.toNat / 16 := BitVec.toNat_udiv

theorem vblockOf_of_sameAtom {q intent : BitVec 64} (h : q / 16 = intent / 16) :
    vblockOf q = vblockOf intent := by
  have hnat := congrArg BitVec.toNat h
  rw [toNat_div_sixteen, toNat_div_sixteen] at hnat
  apply BitVec.eq_of_toNat_eq
  rw [toNat_vblockOf, toNat_vblockOf]
  simp only [blockBytes]
  omega

/-- In one vblock the offset tells the atoms apart. -/
theorem sameAtom_iff {q intent : BitVec 64} (hv : vblockOf q = vblockOf intent) :
    q / 16 = intent / 16 ↔ atomOf q = atomOf intent := by
  have hvnat := congrArg BitVec.toNat hv
  rw [toNat_vblockOf, toNat_vblockOf] at hvnat
  rw [← BitVec.toNat_inj, toNat_div_sixteen, toNat_div_sixteen]
  simp only [atomOf, blockBytes] at hvnat ⊢
  omega

/-- The bytes of one intent in the range that the burn of another one writes. -/
theorem rangeBytes_burn {intent q : BitVec 64} (hv : vblockOf q = vblockOf intent)
    (data : Buffer) {k : Nat} (hk : k < 16) :
    rangeBytes (aligned intent) data 16 ⟨atomOf q + k, atomOf_add_lt q hk⟩ =
      if q / 16 = intent / 16 then some (data k) else none := by
  have haligned : (aligned intent).toNat % 16 = 0 := by
    rw [toNat_aligned]
    omega
  have hatom := sameAtom_iff hv
  unfold rangeBytes
  rw [← atomOf_of_aligned haligned, atomOf_aligned]
  by_cases hsame : q / 16 = intent / 16
  · have heq := hatom.mp hsame
    rw [if_pos hsame, if_pos (by simp only; omega)]
    congr 2
    simp only
    omega
  · have hne := mt hatom.mpr hsame
    rw [if_neg hsame, if_neg]
    simp only [atomOf] at hne ⊢
    omega

/-! What the burns leave. -/

/-- The transducer's manifold holds the burned atoms and zeros. -/
structure Holds (manifold : SubstrateManifold) (burns : List (BitVec 64 × BitVec 64)) : Prop where
  filling : Filling manifold (touched burns)
  bytes : ∀ q k, k < 16 → manifold.byteOf (vblockOf q) (atomOf q + k) =
    (Value128.mk 0 ((atoms burns (q / 16)).getD 0)).data k

theorem holds_nil : Holds zeroed [] := by
  refine ⟨filling_zeroed, fun q k _ => ?_⟩
  have habsent := (filling_zeroed.occupied.findBlock_eq_none_iff (vblockOf q)).mpr
    (Finset.notMem_empty _)
  rw [byteOf_of_absent habsent]
  simp [atoms, table, Value128.data, byteAt]

theorem touched_concat (burns : List (BitVec 64 × BitVec 64)) (b : BitVec 64 × BitVec 64) :
    touched (burns ++ [b]) = insert (vblockOf b.1) (touched burns) := by
  ext v
  simp [touched, eq_comm]

theorem atoms_concat (burns : List (BitVec 64 × BitVec 64)) (b : BitVec 64 × BitVec 64) :
    atoms (burns ++ [b]) = Function.update (atoms burns) (b.1 / 16) (some b.2) := by
  rw [atoms, List.map_append, List.map_singleton, table_concat]
  rfl

theorem Holds.burn {manifold : SubstrateManifold} {burns : List (BitVec 64 × BitVec 64)}
    (h : Holds manifold burns) (b : BitVec 64 × BitVec 64)
    (hroom : (touched (burns ++ [b])).card ≤ cachePoolSize) :
    Holds (burnAtom manifold b.1 b.2) (burns ++ [b]) := by
  have hblock := burn_inBlock b.1 (Value128.mk 0 b.2).data
  rw [touched_concat, ← vblockOf_aligned] at hroom
  refine ⟨?_, fun q k hk => ?_⟩
  · rw [burnAtom_eq, touched_concat, ← vblockOf_aligned]
    exact h.filling.materializeRange hblock hroom
  · rw [burnAtom_eq, h.filling.byteOf_materializeRange hblock hroom (vblockOf q)
      ⟨atomOf q + k, atomOf_add_lt q hk⟩, vblockOf_aligned, atoms_concat]
    simp only [h.bytes q k hk]
    split
    · rename_i hv
      rw [rangeBytes_burn hv _ hk]
      by_cases hsame : q / 16 = b.1 / 16
      · rw [if_pos hsame, hsame, Function.update_self]
        rfl
      · rw [if_neg hsame, Function.update_of_ne hsame]
        rfl
    · rename_i hv
      have hne : q / 16 ≠ b.1 / 16 := fun hsame => hv (vblockOf_of_sameAtom hsame)
      rw [Function.update_of_ne hne]

theorem holds_transduced (burns : List (BitVec 64 × BitVec 64))
    (h : (touched burns).card ≤ cachePoolSize) : Holds (transduced burns) burns := by
  induction burns using List.reverseRecOn with
  | nil => exact holds_nil
  | append_singleton burns b ih =>
    have hsub : (touched burns).card ≤ (touched (burns ++ [b])).card := by
      rw [touched_concat]
      exact Finset.card_le_card (Finset.subset_insert _ _)
    rw [transduced, List.foldl_append]
    exact (ih (Nat.le_trans hsub h)).burn b h

/-- A fetch gives the atom, with the high word clear. -/
theorem fetch_transduced {burns : List (BitVec 64 × BitVec 64)}
    (h : (touched burns).card ≤ cachePoolSize) (q : BitVec 64) :
    ((transduced burns).holographicFetch q).1 = ⟨0, (atoms burns (q / 16)).getD 0⟩ := by
  apply Value128.ext_data
  intro k hk
  rw [holographicFetch_data _ _ hk, (holds_transduced burns h).bytes q k hk]

theorem lookup_eq_burned_iff {burns : List (BitVec 64 × BitVec 64)}
    (h : (touched burns).card ≤ cachePoolSize) (q : BitVec 64) :
    lookup (transduced burns) q = burned burns q ↔ Undisturbed burns q := by
  rw [lookup, fetch_transduced h, Undisturbed]
  simp only [true_and]
  cases hburned : burned burns q with
  | none => simp
  | some r =>
    cases hatom : atoms burns (q / 16) with
    | none => simp
    | some a =>
      simp only [Option.getD_some, Option.some.injEq]
      by_cases hzero : a = 0
      · rw [if_pos hzero]
        refine ⟨fun h => absurd h nofun, fun h => absurd (h.2.symm.trans hzero) h.1⟩
      · rw [if_neg hzero, Option.some.injEq]
        refine ⟨fun h => ⟨fun hr => hzero (h.trans hr), h⟩, fun h => h.2⟩

/-- A chain walks the map of the burned intents exactly if every intent that the walk looks up
is undisturbed. -/
theorem walks_iff_undisturbed (burns : List (BitVec 64 × BitVec 64))
    (h : (touched burns).card ≤ 1024) (script : List (BitVec 64)) :
    Walks burns script ↔ ∀ q ∈ lookedUp burns script, Undisturbed burns q := by
  simp only [← lookup_eq_burned_iff h, lookedUp]
  rw [← follow_eq_iff, Walks]
  refine forall₂_congr fun p _ => ?_
  rw [resolveChain, resolveChainFrom_eq, prescribed, ExecutionState.mk.injEq, ← Prod.ext_iff]

/-- Two intents in atoms of their own. -/
theorem walks_two_atoms : Walks [(0x10, 5), (0x20, 7)] [0x10, 0x25] := by
  refine (walks_iff_undisturbed [(0x10, 5), (0x20, 7)] (by decide) _).mpr fun q hq => ?_
  rw [show lookedUp [(0x10, 5), (0x20, 7)] [0x10, 0x25] = [0x10, 0x20] by decide] at hq
  rcases List.mem_pair.mp hq with rfl | rfl
  · decide
  · decide

/-- The intent 0x11 was never burned, and 0x10 lies in the same atom. -/
theorem not_walks_shared_atom :
    (touched [(0x10, 5)]).card ≤ 1024 ∧ ¬ Walks [(0x10, 5)] [0x11] := by
  refine ⟨by decide, fun hwalks => ?_⟩
  have hfault := hwalks [0x11] List.prefix_rfl
  have hfound : lookup (transduced [(0x10, 5)]) 0x11 = some 5 := by
    rw [lookup, fetch_transduced (by decide)]
    decide
  have hstep : follow (· ^^^ ·) (lookup (transduced [(0x10, 5)])) [0x11] 0 = (5, false) :=
    follow_cons_some hfound
  have hprescribed : prescribed [(0x10, 5)] [0x11] = ⟨0, true⟩ := by decide
  rw [resolveChain, resolveChainFrom_eq, hstep, hprescribed] at hfault
  cases hfault

end EmergenceOS.Core.LogicTransducer
