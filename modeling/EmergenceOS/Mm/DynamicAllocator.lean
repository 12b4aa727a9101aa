/- Module: EmergenceOS/Mm/DynamicAllocator
   digest: The counters of the resource allocator over runs of its requests. -/

import EmergenceOS.Lib.CString
import Mathlib.Data.List.FinRange
import Mathlib.Logic.Function.Basic

/-!
What a request prints on the console is left out.
-/

set_option autoImplicit false
set_option relaxedAutoImplicit false

namespace EmergenceOS.Mm

open EmergenceOS.Lib.Bytes EmergenceOS.Lib.CString

inductive AluMode
  | unused | available | force | invisible
  deriving DecidableEq

structure CpuCore where
  id : Byte
  topologicalMode : AluMode
  ramAllocatedMb : BitVec 64
  isIsolated : Bool
  currentTask : Str
  deriving DecidableEq

structure DynamicResourceAllocator where
  cores : Fin 2 → CpuCore
  totalRamMb : BitVec 64
  activeNodes : BitVec 32

namespace DynamicResourceAllocator

/-- "System" -/
def systemTask : Str := ⟨[83, 121, 115, 116, 101, 109], by decide⟩

def new (totalRam : BitVec 64) : DynamicResourceAllocator :=
  ⟨fun i => ⟨BitVec.ofNat 8 i.val, .available, 0, false, systemTask⟩, totalRam, 1⟩

def isolateCore (a : DynamicResourceAllocator) (coreId : Byte) (task : Str) (mode : AluMode)
    (ramAllocation : BitVec 64) : DynamicResourceAllocator :=
  if h : coreId.toNat < 2 then
    let core : CpuCore := {
      a.cores ⟨coreId.toNat, h⟩ with
      isIsolated := true
      topologicalMode := mode
      ramAllocatedMb := ramAllocation
      currentTask := task }
    { a with cores := Function.update a.cores ⟨coreId.toNat, h⟩ core }
  else a

def setActiveCores (a : DynamicResourceAllocator) (numCores : BitVec 32) :
    DynamicResourceAllocator :=
  let numCores := if numCores > 2 then 2 else numCores
  { a with cores := fun i =>
      { a.cores i with
        topologicalMode := if i.val < numCores.toNat then .available else .unused } }

def getActiveCores (a : DynamicResourceAllocator) : BitVec 32 :=
  (List.finRange 2).foldl (fun count i =>
    if (a.cores i).topologicalMode ≠ .unused then count + 1 else count) 0

def foldManifold (a : DynamicResourceAllocator) : DynamicResourceAllocator :=
  { a with activeNodes := a.activeNodes + 1 }

def getActiveNodes (a : DynamicResourceAllocator) : BitVec 32 := a.activeNodes

/-- The calls that change an allocator. -/
inductive Request
  | isolateCore (coreId : Byte) (task : Str) (mode : AluMode) (ramAllocation : BitVec 64)
  | setActiveCores (numCores : BitVec 32)
  | foldManifold

def Request.apply (a : DynamicResourceAllocator) : Request → DynamicResourceAllocator
  | .isolateCore coreId task mode ramAllocation => a.isolateCore coreId task mode ramAllocation
  | .setActiveCores numCores => a.setActiveCores numCores
  | .foldManifold => a.foldManifold

def Request.isFold : Request → Bool
  | .foldManifold => true
  | _ => false

def run (a : DynamicResourceAllocator) (requests : List Request) : DynamicResourceAllocator :=
  requests.foldl Request.apply a

theorem getActiveCores_le_two (a : DynamicResourceAllocator) : a.getActiveCores.toNat ≤ 2 := by
  have hrange : List.finRange 2 = [0, 1] := rfl
  rw [getActiveCores, hrange, List.foldl_cons, List.foldl_cons, List.foldl_nil]
  split <;> split <;> decide

theorem getActiveCores_setActiveCores (a : DynamicResourceAllocator) (numCores : BitVec 32) :
    (a.setActiveCores numCores).getActiveCores.toNat = min numCores.toNat 2 := by
  have hrange : List.finRange 2 = [0, 1] := rfl
  have htwo : (2 : BitVec 32).toNat = 2 := rfl
  obtain ⟨n, hn, hmin⟩ : ∃ n, (if numCores > 2 then 2 else numCores).toNat = n ∧
      n = min numCores.toNat 2 := by
    refine ⟨_, rfl, ?_⟩
    split
    · rename_i hgt
      have := BitVec.lt_def.mp hgt
      rw [htwo]
      omega
    · rename_i hle
      have := mt BitVec.lt_def.mpr hle
      omega
  simp only [getActiveCores, hrange, List.foldl_cons, List.foldl_nil, setActiveCores, hn, ← hmin]
  rcases (show n = 0 ∨ n = 1 ∨ n = 2 by omega) with rfl | rfl | rfl <;> decide

theorem apply_activeNodes (a : DynamicResourceAllocator) (request : Request) :
    (request.apply a).activeNodes = a.activeNodes + if request.isFold then 1 else 0 := by
  cases request with
  | isolateCore coreId task mode ramAllocation =>
    simp only [Request.apply, isolateCore, Request.isFold]
    split <;> simp
  | setActiveCores numCores => simp [Request.apply, setActiveCores, Request.isFold]
  | foldManifold => rfl

/-- The node counter counts the folds, in 32 bits. -/
theorem run_getActiveNodes (a : DynamicResourceAllocator) (requests : List Request) :
    (a.run requests).getActiveNodes =
      a.activeNodes + BitVec.ofNat 32 (requests.countP Request.isFold) := by
  induction requests generalizing a with
  | nil => exact (BitVec.add_zero _).symm
  | cons request requests ih =>
    have hrest := ih (request.apply a)
    rw [apply_activeNodes, BitVec.add_assoc] at hrest
    rw [run, List.foldl_cons, List.countP_cons]
    refine hrest.trans (congrArg (a.activeNodes + ·) ?_)
    split
    · rw [BitVec.add_comm, BitVec.ofNat_add]
      rfl
    · rw [BitVec.ofNat_eq_ofNat, BitVec.zero_add, Nat.add_zero]

end DynamicResourceAllocator

end EmergenceOS.Mm
