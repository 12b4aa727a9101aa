/- Module: EmergenceOS/Vdev/BmtDirty
   digest: What the dirty flag says about the blocks since the last successful load. -/

import EmergenceOS.Lib.GuardedRun
import EmergenceOS.Vdev.BmtImage

/-!
A successful load clears the flag; the operations on data and initialize set it.
expand_block and a load that fails in the middle replace blocks and leave it alone.
-/

set_option autoImplicit false
set_option relaxedAutoImplicit false

namespace EmergenceOS.Vdev.BmtTopology

open EmergenceOS.Lib.Bytes EmergenceOS.Lib.ByteFile EmergenceOS.Lib.GuardedRun

inductive TopologyOp
  | initializeWith (s : Seed)
  | expandBlock (i : Fin lensCount)
  | data (op : DataOp)
  | readBlockData (idx : BitVec 16) (out : Buffer) (maxLen : Nat)
  | readChain (blocks : List (BitVec 16)) (out : Buffer) (maxLen : Nat)
  | saveImage (canOpen : Bool) (before : Option File)
  | loadImage (file : Option File) (s : Seed)

/-- A topology, with the blocks as the last successful load left them. -/
structure Session where
  topology : Topology
  root : Block
  level1 : Fin lensCount → Option Block

namespace Topology

theorem writeBlockData_dirty (t : Topology) (idx : BitVec 16) (data : Buffer) (d len : Nat) :
    (t.writeBlockData idx data d len).2 = t ∨ (t.writeBlockData idx data d len).2.dirty = true := by
  unfold writeBlockData
  split
  · split
    · exact Or.inl rfl
    · exact Or.inr rfl
  · exact Or.inl rfl

theorem writeChainFrom_dirty (data : Buffer) (len : Nat) (blocks : List (BitVec 16))
    (written : Nat) (t : Topology) :
    (writeChainFrom data len blocks written t).2 = t ∨
      (writeChainFrom data len blocks written t).2.dirty = true := by
  induction blocks generalizing written t with
  | nil => exact Or.inl rfl
  | cons b blocks ih =>
    rw [writeChainFrom]
    split
    · simp only
      rcases ih (written + (t.writeBlockData b data written (min bytesPerBlock (len - written))).1)
          (t.writeBlockData b data written (min bytesPerBlock (len - written))).2
        with hsame | hdirty
      · rw [hsame]
        exact writeBlockData_dirty t b data written _
      · exact Or.inr hdirty
    · exact Or.inl rfl

/-- The operations on data change nothing or set the flag. -/
theorem apply_dirty (t : Topology) (op : DataOp) : t.apply op = t ∨ (t.apply op).dirty = true := by
  cases op with
  | writeBlockData idx data len => exact writeBlockData_dirty t idx data 0 len
  | writeChain blocks data len => exact writeChainFrom_dirty data len blocks 0 t
  | clearBlocks blocks => exact Or.inr rfl

end Topology

namespace Session

open BmtTopology.Topology

/-- The session that a load of the file into t begins. -/
def start (t : Topology) (file : Option File) (s : Seed) : Session :=
  let t := (t.loadImage file s).2
  ⟨t, t.root, t.level1⟩

def step (session : Session) : TopologyOp → Session
  | .initializeWith s => { session with topology := session.topology.initializeWith s }
  | .expandBlock i => { session with topology := session.topology.expandBlock i }
  | .data op => { session with topology := session.topology.apply op }
  | .readBlockData _ _ _ => session
  | .readChain _ _ _ => session
  | .saveImage _ _ => session
  | .loadImage file s =>
    let (ok, t) := session.topology.loadImage file s
    if ok then ⟨t, t.root, t.level1⟩ else { session with topology := t }

/-- A clean topology has the blocks of the last successful load. -/
def Clean (session : Session) : Prop :=
  session.topology.dirty = false →
    session.topology.root = session.root ∧ session.topology.level1 = session.level1

/-- The two ways around the flag: expand_block finds the block expanded already, and a load
that fails has read nothing new. Otherwise the flag has been set before. -/
def Noticed (session : Session) : TopologyOp → Prop
  | .expandBlock i => session.topology.dirty ∨ ∀ b, session.topology.level1 i = some b →
      b = expandedBlock (session.topology.lensKeys i)
  | .loadImage file s => session.topology.dirty ∨ ∀ fp, file = some fp →
      (headerOk s fp ∧ hasBlock fp lensCount) ∨ session.topology.BlocksAgree s fp
  | _ => True

/-- An operation that keeps the flag keeps the session clean exactly if it keeps the blocks. -/
theorem clean_iff_of_dirty_eq {session : Session} (h : session.Clean) {t : Topology}
    (hdirty : t.dirty = session.topology.dirty) :
    Clean { session with topology := t } ↔ session.topology.dirty ∨
      (t.root = session.topology.root ∧ t.level1 = session.topology.level1) := by
  unfold Clean
  simp only [hdirty]
  cases hflag : session.topology.dirty with
  | true => simp
  | false =>
    obtain ⟨hroot, hlevel1⟩ := h hflag
    simp [hroot, hlevel1]

theorem clean_expandBlock_iff {session : Session} (h : session.Clean) (i : Fin lensCount) :
    (session.step (.expandBlock i)).Clean ↔ session.Noticed (.expandBlock i) := by
  rw [step, clean_iff_of_dirty_eq h (t := session.topology.expandBlock i) rfl, Noticed]
  refine or_congr_right ?_
  simp only [Topology.expandBlock, true_and, Function.update_eq_self_iff]
  cases session.topology.level1 i with
  | none => simp
  | some b => simp [eq_comm]

theorem clean_loadImage_iff {session : Session} (h : session.Clean) (file : Option File)
    (s : Seed) :
    (session.step (.loadImage file s)).Clean ↔ session.Noticed (.loadImage file s) := by
  cases file with
  | none => exact iff_of_true h (Or.inr fun fp hfp => by cases hfp)
  | some file =>
    have hload := Topology.loadImage_eq session.topology s file
    simp only [Noticed, Option.some.injEq, forall_eq', ← Topology.loadImage_blocks_iff]
    by_cases hok : headerOk s file ∧ hasBlock file lensCount
    · have hresult : (session.topology.loadImage (some file) s).1 = true := by
        rw [hload]
        simp only [hok, Bool.and_self]
      simp only [step, hresult, if_true]
      exact iff_of_true (fun _ => ⟨rfl, rfl⟩) (Or.inr (Or.inl hok))
    · have hnot : (headerOk s file && hasBlock file lensCount) = false := by
        rwa [← Bool.not_eq_true, Bool.and_eq_true]
      have hresult : (session.topology.loadImage (some file) s).1 = false := by
        rw [hload, hnot]
      have hdirty : (session.topology.loadImage (some file) s).2.dirty =
          session.topology.dirty := by
        rw [hload, hnot]
        rfl
      simp only [step, hresult, Bool.false_eq_true, if_false]
      rw [clean_iff_of_dirty_eq h hdirty]
      simp only [hok, false_or]

theorem clean_step_iff (session : Session) (op : TopologyOp) (h : session.Clean) :
    (session.step op).Clean ↔ session.Noticed op := by
  cases op with
  | initializeWith s =>
    refine iff_of_true (fun hclean => ?_) trivial
    rw [step, Topology.initializeWith_eq] at hclean
    cases hclean
  | expandBlock i => exact clean_expandBlock_iff h i
  | data op =>
    refine iff_of_true ?_ trivial
    rcases session.topology.apply_dirty op with hsame | hdirty
    · simpa only [step, hsame] using h
    · intro hclean
      have hflag : true = false := hdirty.symm.trans hclean
      cases hflag
  | readBlockData idx out maxLen => exact iff_of_true h trivial
  | readChain blocks out maxLen => exact iff_of_true h trivial
  | saveImage canOpen before => exact iff_of_true h trivial
  | loadImage file s => exact clean_loadImage_iff h file s

/-- From a successful load on, a clean flag means unchanged blocks throughout exactly the runs
in which expand_block and failing loads change nothing, or come after the flag was set. -/
theorem clean_iff_noticed (t : Topology) (file : Option File) (s : Seed)
    (_ : (t.loadImage file s).1 = true) (ops : List TopologyOp) :
    Throughout step Clean (start t file s) ops ↔ Guarded step Noticed (start t file s) ops :=
  throughout_iff_of_step_iff clean_step_iff fun _ => ⟨rfl, rfl⟩

/-- The image of a topology that was set up can be loaded. -/
theorem loadImage_sample : ∃ file,
    (sample.writeBlockData 5 ones 0 1).2.saveImage true none = (true, some file) ∧
      Restored (sample.writeBlockData 5 ones 0 1).2 (sample.loadImage (some file) ⟨1, 2⟩) := by
  obtain ⟨file, hsave⟩ := (sample.writeBlockData 5 ones 0 1).2.saveImage_true none
  have hsetUp := writeBlockData_setUp
    (initializeWith_setUp (construct ⟨0, 0⟩ fun _ => ⟨0, 0⟩) ⟨1, 2⟩) 5 ones 0 1
  exact ⟨file, hsave, restored_of_saveImage hsetUp hsave sample⟩

theorem dirty_of_loadImage {t : Topology} {file : File} {s : Seed}
    (h : (t.loadImage (some file) s).1 = true) : (t.loadImage (some file) s).2.dirty = false := by
  rw [loadImage_eq] at h ⊢
  simp only at h ⊢
  rw [if_pos h]

/-- clear_blocks sets the flag before the block is expanded again. -/
theorem clean_clearBlocks_expandBlock : ∃ file, (sample.loadImage (some file) ⟨1, 2⟩).1 = true ∧
    Throughout step Clean (start sample (some file) ⟨1, 2⟩)
      [.data (.clearBlocks [5]), .expandBlock ⟨5, by decide⟩] := by
  obtain ⟨file, -, hload⟩ := loadImage_sample
  exact ⟨file, hload.accepted, (clean_iff_noticed sample (some file) ⟨1, 2⟩ hload.accepted _).mpr
    ⟨trivial, Or.inl rfl, trivial⟩⟩

/-- One byte was in block 5; expand_block overwrites it and the flag stays clear. -/
theorem not_clean_expandBlock : ∃ file, (sample.loadImage (some file) ⟨1, 2⟩).1 = true ∧
    ¬Throughout step Clean (start sample (some file) ⟨1, 2⟩) [.expandBlock ⟨5, by decide⟩] := by
  obtain ⟨file, -, hload⟩ := loadImage_sample
  refine ⟨file, hload.accepted, fun h => ?_⟩
  have hlt : (5 : BitVec 16).toNat < lensCount := by decide
  obtain ⟨b, hb⟩ := Option.isSome_iff_exists.mp (sample_initialized ⟨(5 : BitVec 16).toNat, hlt⟩)
  have hblock : (sample.loadImage (some file) ⟨1, 2⟩).2.level1 ⟨(5 : BitVec 16).toNat, hlt⟩ =
      some (b.written ones 0 1) := by
    rw [hload.level1, writeBlockData_eq hlt hb]
    simp only [Function.update_self]
  rcases (clean_step_iff _ _ h.1).mp h.2 with hdirty | hexpanded
  · exact Bool.false_ne_true ((dirty_of_loadImage hload.accepted).symm.trans hdirty)
  · have hroute := congrArg (fun b => (b.entries ⟨0, by decide⟩).route) (hexpanded _ hblock)
    simp only [expandedBlock, Value128.route_packRoute, Block.written, hop] at hroute
    rw [if_pos (by decide), if_neg (by decide), Value128.route_packRoute] at hroute
    exact absurd hroute (by decide)

end Session

end EmergenceOS.Vdev.BmtTopology
