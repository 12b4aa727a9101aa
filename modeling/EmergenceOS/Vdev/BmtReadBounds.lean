/- Module: EmergenceOS/Vdev/BmtReadBounds
   digest: Reading blocks whose routes may say anything: turns, entries looked at, bytes stored. -/

import EmergenceOS.Lib.BoundedLoop
import EmergenceOS.Vdev.BmtTopology

/-!
The reader goes where the routes lead, perhaps for ever round in a circle; only the bytes
still wanted go down from turn to turn. Here the loop runs on fuel, over memory that does
not end behind the last entry, and keeps a log.
-/

set_option autoImplicit false
set_option relaxedAutoImplicit false

namespace EmergenceOS.Vdev.BmtTopology

open EmergenceOS.Lib.Bytes EmergenceOS.Lib.BoundedLoop

/-- A read under way: what it has copied, the entries it looked at and the places it stored to,
in order. -/
structure ReadLog where
  total : Nat
  entry : Nat
  out : Buffer
  accessed : List Nat
  stored : List Nat

namespace ReadLog

def start (out : Buffer) : ReadLog := ⟨0, 0, out, [], []⟩

/-- The entry at hand is looked at, and cp bytes go to the end of what was copied to out + o. -/
def copy (s : ReadLog) (o : Nat) (src : Buffer) (cp : Nat) : ReadLog where
  total := s.total + cp
  entry := s.entry
  out := blit s.out (o + s.total) src 0 cp
  accessed := s.accessed ++ [s.entry]
  stored := s.stored ++ List.range' (o + s.total) cp

/-- A read and the one of the next block. -/
def append (s r : ReadLog) : ReadLog where
  total := s.total + r.total
  entry := r.entry
  out := r.out
  accessed := s.accessed ++ r.accessed
  stored := s.stored ++ r.stored

end ReadLog

/-- What stands in memory from the first entry of a block on. -/
def Block.memory (b : Block) (behind : Nat → Value128) (i : Nat) : Value128 :=
  if h : i < entriesPerBlock then b.entries ⟨i, h⟩ else behind i

def readTest (maxLen : Nat) (s : ReadLog) : Bool :=
  decide (s.total < maxLen) && decide (s.entry < entriesPerBlock)

/-- One turn of read_block_data, and whether the loop goes on. -/
def readTurn (memory : Nat → Value128) (o maxLen : Nat) (s : ReadLog) : ReadLog × Bool :=
  let v := memory s.entry
  let route := v.route
  let got := v.getPayload (fun _ => 0) payloadBytesPerHop
  let cp := min got.1 (maxLen - s.total)
  let next := s.copy o got.2 cp
  if route = haltRoute ∨ route = freeRoute then (next, false)
  else if route.toNat < entriesPerBlock then ({ next with entry := route.toNat }, true)
  else (next, false)

namespace Topology

/-- read_block_data with its log; none if the fuel runs out. -/
def readBlockLog (t : Topology) (behind : Nat → Value128) (fuel : Nat) (idx : BitVec 16)
    (out : Buffer) (o maxLen : Nat) : Option ReadLog :=
  if h : idx.toNat < lensCount then
    match t.level1 ⟨idx.toNat, h⟩ with
    | none => some (.start out)
    | some block =>
      whileDo (readTest maxLen) (readTurn (block.memory behind) o maxLen) fuel (.start out)
  else some (.start out)

/-- The loop of read_chain over the blocks that are left. -/
def readChainLogFrom (t : Topology) (behind : Nat → Value128) (fuel maxLen : Nat) :
    List (BitVec 16) → ReadLog → Option ReadLog
  | [], s => some s
  | b :: blocks, s =>
    if s.total < maxLen then
      (t.readBlockLog behind fuel b s.out s.total (maxLen - s.total)).bind fun r =>
        if r.total < bytesPerBlock then some (s.append r)
        else readChainLogFrom t behind fuel maxLen blocks (s.append r)
    else some s

def readChainLog (t : Topology) (behind : Nat → Value128) (fuel : Nat)
    (blocks : List (BitVec 16)) (out : Buffer) (maxLen : Nat) : Option ReadLog :=
  t.readChainLogFrom behind fuel maxLen blocks (.start out)

end Topology

/-- A read to out + o that is under way or has ended: at most the bytes asked for are stored,
one behind the other, and only entries of the block were looked at. -/
structure ReadLog.Bounded (out : Buffer) (o maxLen : Nat) (s : ReadLog) : Prop where
  total : s.total ≤ maxLen
  accessed : ∀ e ∈ s.accessed, e < entriesPerBlock
  stored : s.stored = List.range' o s.total
  untouched : ∀ i, i ∉ s.stored → s.out i = out i

/-- The read ends with the given result, and keeps to its bounds. -/
def EndsBounded (out : Buffer) (o maxLen : Nat) (result : Nat × Buffer) (run : Option ReadLog) :
    Prop :=
  ∃ s, run = some s ∧ (s.total, s.out) = result ∧ s.Bounded out o maxLen

theorem start_bounded (out : Buffer) (o maxLen : Nat) :
    (ReadLog.start out).Bounded out o maxLen :=
  ⟨Nat.zero_le _, fun _ he => absurd he List.not_mem_nil, rfl, fun _ _ => rfl⟩

theorem Block.memory_of_lt (b : Block) (behind : Nat → Value128) {i : Nat}
    (h : i < entriesPerBlock) : b.memory behind i = b.entries ⟨i, h⟩ := by
  rw [Block.memory, dif_pos h]

/-- Storing behind what was stored before. -/
theorem copy_bounded {out : Buffer} {o maxLen : Nat} {s : ReadLog}
    (hs : s.Bounded out o maxLen) (src : Buffer) {cp : Nat} (hcp : s.total + cp ≤ maxLen)
    (hentry : s.entry < entriesPerBlock) : (s.copy o src cp).Bounded out o maxLen := by
  refine ⟨hcp, fun e he => ?_, ?_, fun i hi => ?_⟩
  · rcases List.mem_append.mp he with hold | hnew
    · exact hs.accessed e hold
    · rwa [List.mem_singleton.mp hnew]
  · simp only [ReadLog.copy, hs.stored, List.range'_append_1]
  · obtain ⟨hold, hnew⟩ := not_or.mp (mt List.mem_append.mpr hi)
    have houtside : i < o + s.total ∨ o + s.total + cp ≤ i := by
      rw [List.mem_range'_1] at hnew
      omega
    exact (blit_outside _ _ houtside).trans (hs.untouched i hold)

theorem readTurn_bounded (memory : Nat → Value128) {out : Buffer} {o maxLen : Nat} {s : ReadLog}
    (hs : s.Bounded out o maxLen) (htest : readTest maxLen s = true) :
    (readTurn memory o maxLen s).1.Bounded out o maxLen ∧
      s.total < (readTurn memory o maxLen s).1.total := by
  simp only [readTest, Bool.and_eq_true, decide_eq_true_eq] at htest
  obtain ⟨hmore, hentry⟩ := htest
  have hcp : s.total + min payloadBytesPerHop (maxLen - s.total) ≤ maxLen := by omega
  have hpos : s.total < s.total + min payloadBytesPerHop (maxLen - s.total) := by
    rw [payloadBytesPerHop]
    omega
  have hcopy (src : Buffer) := copy_bounded hs src hcp hentry
  simp only [readTurn, Value128.getPayload_hop]
  split
  · exact ⟨hcopy _, hpos⟩
  · split
    · obtain ⟨htotal, haccessed, hstored, huntouched⟩ := hcopy
        ((memory s.entry).getPayload (fun _ => 0) payloadBytesPerHop).2
      exact ⟨⟨htotal, haccessed, hstored, huntouched⟩, hpos⟩
    · exact ⟨hcopy _, hpos⟩

/-- Each turn that goes on leaves less to read, so the loop ends, as the reader does. -/
theorem whileDo_readTurn (b : Block) (behind : Nat → Value128) (out : Buffer) (o maxLen fuel : Nat)
    {s : ReadLog} (hs : s.Bounded out o maxLen) (hfuel : maxLen < s.total + fuel) :
    EndsBounded out o maxLen (readHops b.entries s.out o maxLen s.total s.entry)
      (whileDo (readTest maxLen) (readTurn (b.memory behind) o maxLen) fuel s) := by
  -- the fuel pays for the bytes still wanted; where the routes lead does not matter
  induction fuel generalizing s with
  | zero =>
    have := hs.total
    omega
  | succ fuel ih =>
    rw [whileDo, readHops]
    by_cases htest : readTest maxLen s = true
    · obtain ⟨hnext, hpos⟩ := readTurn_bounded (b.memory behind) hs htest
      have hrest := ih hnext (by omega)
      rw [if_pos htest]
      simp only [readTest, Bool.and_eq_true, decide_eq_true_eq] at htest
      rw [dif_pos htest]
      simp only [readTurn, Block.memory_of_lt b behind htest.2] at hnext hrest ⊢
      by_cases hstop : (b.entries ⟨s.entry, htest.2⟩).route = haltRoute ∨
          (b.entries ⟨s.entry, htest.2⟩).route = freeRoute
      · simp only [if_pos hstop] at hnext ⊢
        exact ⟨_, rfl, rfl, hnext⟩
      · by_cases hroute : (b.entries ⟨s.entry, htest.2⟩).route.toNat < entriesPerBlock
        · simp only [if_neg hstop, if_pos hroute] at hrest ⊢
          exact hrest
        · simp only [if_neg hstop, if_neg hroute] at hnext ⊢
          exact ⟨_, rfl, rfl, hnext⟩
    · rw [if_neg htest, dif_neg (by simpa [readTest] using htest)]
      exact ⟨s, rfl, rfl, hs⟩

namespace Topology

theorem readBlockLog_ends (t : Topology) (behind : Nat → Value128) {fuel maxLen : Nat}
    (hfuel : maxLen < fuel) (idx : BitVec 16) (out : Buffer) (o : Nat) :
    EndsBounded out o maxLen (t.readBlockData idx out o maxLen)
      (t.readBlockLog behind fuel idx out o maxLen) := by
  have hstart := start_bounded out o maxLen
  rw [readBlockData, readBlockLog]
  by_cases h : idx.toNat < lensCount
  · rw [dif_pos h, dif_pos h]
    cases t.level1 ⟨idx.toNat, h⟩ with
    | none => exact ⟨_, rfl, rfl, hstart⟩
    | some block =>
      exact whileDo_readTurn block behind out o maxLen fuel hstart
        (by rwa [ReadLog.start, Nat.zero_add])
  · rw [dif_neg h, dif_neg h]
    exact ⟨_, rfl, rfl, hstart⟩

/-- What one block adds to a read that was within its bounds. -/
theorem append_bounded {out : Buffer} {maxLen : Nat} {s r : ReadLog} (hs : s.Bounded out 0 maxLen)
    (hr : r.Bounded s.out s.total (maxLen - s.total)) : (s.append r).Bounded out 0 maxLen := by
  have htotal := hr.total
  have hbefore := hs.total
  refine ⟨by simp only [ReadLog.append]; omega, fun e he => ?_, ?_, fun i hi => ?_⟩
  · exact (List.mem_append.mp he).elim (hs.accessed e) (hr.accessed e)
  · have happend := List.range'_append_1 (s := 0) (m := s.total) (n := r.total)
    rw [Nat.zero_add] at happend
    rw [ReadLog.append, hs.stored, hr.stored, happend]
  · obtain ⟨hold, hnew⟩ := not_or.mp (mt List.mem_append.mpr hi)
    exact (hr.untouched i hnew).trans (hs.untouched i hold)

theorem readChainLogFrom_ends (t : Topology) (behind : Nat → Value128) {fuel maxLen : Nat}
    (hfuel : maxLen < fuel) (out : Buffer) (blocks : List (BitVec 16)) {s : ReadLog}
    (hs : s.Bounded out 0 maxLen) :
    EndsBounded out 0 maxLen (t.readChainFrom maxLen blocks s.total s.out)
      (t.readChainLogFrom behind fuel maxLen blocks s) := by
  induction blocks generalizing s with
  | nil => exact ⟨s, rfl, rfl, hs⟩
  | cons b blocks ih =>
    rw [readChainFrom, readChainLogFrom]
    by_cases hmore : s.total < maxLen
    · have hrest : maxLen - s.total < fuel := by omega
      obtain ⟨r, hrun, hresult, hr⟩ := readBlockLog_ends t behind hrest b s.out s.total
      rw [if_pos hmore, if_pos hmore, hrun, ← hresult, Option.bind_some]
      simp only
      by_cases hshort : r.total < bytesPerBlock
      · rw [if_pos hshort, if_pos hshort]
        exact ⟨_, rfl, rfl, append_bounded hs hr⟩
      · rw [if_neg hshort, if_neg hshort]
        exact ih (append_bounded hs hr)
    · rw [if_neg hmore, if_neg hmore]
      exact ⟨s, rfl, rfl, hs⟩

/-- Whatever the blocks hold, both readers end, within the block and within the buffer. -/
theorem reads_bounded (t : Topology) (behind : Nat → Value128) (out : Buffer)
    (maxLen spare : Nat) :
    (∀ idx, EndsBounded out 0 maxLen (t.readBlockData idx out 0 maxLen)
      (t.readBlockLog behind (maxLen + 1 + spare) idx out 0 maxLen)) ∧
    ∀ blocks, EndsBounded out 0 maxLen (t.readChain blocks out maxLen)
      (t.readChainLog behind (maxLen + 1 + spare) blocks out maxLen) := by
  have hfuel : maxLen < maxLen + 1 + spare := by omega
  exact ⟨fun idx => readBlockLog_ends t behind hfuel idx out 0,
    fun blocks => readChainLogFrom_ends t behind hfuel out blocks (start_bounded out 0 maxLen)⟩

end Topology

end EmergenceOS.Vdev.BmtTopology
