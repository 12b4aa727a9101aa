/- Module: EmergenceOS/Vdev/AuditLog
   digest: The last 1024 audit entries, in the vblock of the log, among the writes of others. -/

import EmergenceOS.Vdev.TopologyFilling

/-!
The log has one vblock of its own. As long as the pool is not full nothing evicts it,
and its head goes round the 1024 atoms, so each atom has the last entry that came by.
-/

set_option autoImplicit false
set_option relaxedAutoImplicit false

namespace EmergenceOS.Vdev.AuditLog

open EmergenceOS.Lib.Bytes EmergenceOS.Vdev.Topology EmergenceOS.Vdev.Topology.SubstrateManifold

inductive EventType
  | eventBoot | eventSeal | eventImport | eventAuthFail | eventBypassEngaged
  deriving DecidableEq

def EventType.code : EventType → BitVec 8
  | .eventBoot => 0x01
  | .eventSeal => 0x02
  | .eventImport => 0x03
  | .eventAuthFail => 0x04
  | .eventBypassEngaged => 0x05

def logBaseVaddr : BitVec 64 := 0xFFFFFF0000000000

structure AuditLogger where
  logHead : BitVec 64

def entry (type : EventType) (metadata : BitVec 64) : Value128 :=
  ⟨(type.code.setWidth 64 <<< 56) ||| 0xDEADBEEF, metadata⟩

def AuditLogger.log (a : AuditLogger) (manifold : SubstrateManifold) (type : EventType)
    (metadata : BitVec 64) : AuditLogger × SubstrateManifold :=
  let vaddr := logBaseVaddr + a.logHead * 16
  (⟨(a.logHead + 1) % 1024⟩, manifold.materializeRange vaddr (entry type metadata).data 16)

/-- A logger and its manifold, the entries logged so far, and how many vblocks the other
writers have created. -/
structure Machine where
  logger : AuditLogger
  manifold : SubstrateManifold
  logged : List Value128
  created : Nat

inductive Event
  | log (type : EventType) (metadata : BitVec 64)
  | other (op : Op)

/-- How many vblocks an operation creates. -/
def creates (m : SubstrateManifold) : Op → Nat
  | .materialize vaddr _ _ => if m.Resident (vblockOf vaddr) then 0 else 1
  | .fetch _ => 0

namespace Machine

def start (pool : Buffer) (map : Fin cachePoolSize → BitVec 64) : Machine :=
  ⟨⟨0⟩, construct pool map, [], 0⟩

def step (s : Machine) : Event → Machine
  | .log type metadata =>
    let (logger, manifold) := s.logger.log s.manifold type metadata
    { s with logger, manifold, logged := s.logged ++ [entry type metadata] }
  | .other op =>
    { s with manifold := op.apply s.manifold, created := s.created + creates s.manifold op }

def run (s : Machine) (events : List Event) : Machine := events.foldl step s

end Machine

/-- Other writes are aligned, stay inside one vblock and have no byte of the log. -/
def Event.Apart : Event → Prop
  | .other (.materialize vaddr _ len) => vaddr.toNat % 16 = 0 ∧
      vaddr.toNat % blockBytes + len ≤ blockBytes ∧
      ∀ a, vaddr.toNat ≤ a → a < vaddr.toNat + len →
        a < logBaseVaddr.toNat ∨ logBaseVaddr.toNat + 16384 ≤ a
  | _ => True

/-- Among n numbers j is the last one that is k modulo 1024. -/
def IsLatest (n k j : Nat) : Prop := j < n ∧ j % 1024 = k ∧ ∀ i < n, i % 1024 = k → i ≤ j

theorem toNat_logVaddr {h : BitVec 64} (hh : h.toNat < 1024) :
    (logBaseVaddr + h * 16).toNat = logBaseVaddr.toNat + 16 * h.toNat := by
  rw [BitVec.toNat_add, BitVec.toNat_mul, logBaseVaddr]
  simp only [BitVec.reduceToNat]
  omega

theorem vblockOf_logVaddr {h : BitVec 64} (hh : h.toNat < 1024) :
    vblockOf (logBaseVaddr + h * 16) = vblockOf logBaseVaddr := by
  apply BitVec.eq_of_toNat_eq
  rw [toNat_vblockOf, toNat_vblockOf, toNat_logVaddr hh, logBaseVaddr, blockBytes]
  simp only [BitVec.reduceToNat]
  omega

theorem logVaddr_mod {h : BitVec 64} (hh : h.toNat < 1024) :
    (logBaseVaddr + h * 16).toNat % blockBytes = 16 * h.toNat := by
  rw [toNat_logVaddr hh, logBaseVaddr, blockBytes]
  simp only [BitVec.reduceToNat]
  omega

theorem logVaddr_aligned {h : BitVec 64} (hh : h.toNat < 1024) :
    (logBaseVaddr + h * 16).toNat % 16 = 0 := by
  rw [toNat_logVaddr hh, logBaseVaddr]
  simp only [BitVec.reduceToNat]
  omega

namespace Machine

/-- The vblocks in the pool are counted, and the bytes of the log's vblock are those of the
last 1024 entries. -/
structure Kept (s : Machine) (touched : Finset (BitVec 64)) : Prop where
  occupied : Occupied s.manifold touched
  few : touched.card ≤ s.created + if vblockOf logBaseVaddr ∈ touched then 1 else 0
  resident : s.logged ≠ [] → vblockOf logBaseVaddr ∈ touched
  head : s.logger.logHead.toNat = s.logged.length % 1024
  entries : ∀ j (hj : j < s.logged.length), s.logged.length ≤ j + 1024 → ∀ k < 16,
    s.manifold.byteOf (vblockOf logBaseVaddr) (16 * (j % 1024) + k) = (s.logged[j]).data k

theorem kept_start (pool : Buffer) (map : Fin cachePoolSize → BitVec 64) :
    Kept (start pool map) ∅ := by
  refine ⟨occupied_construct pool map, Nat.zero_le _, fun h => absurd rfl h, rfl, ?_⟩
  intro j hj
  exact absurd hj (Nat.not_lt_zero j)

section
variable {s : Machine} {touched : Finset (BitVec 64)}

theorem Kept.logHead_lt (h : Kept s touched) : s.logger.logHead.toNat < 1024 := by
  rw [h.head]
  exact Nat.mod_lt _ (by decide)

/-- There is room for the vblock of the log. -/
theorem Kept.room (h : Kept s touched) (hcreated : s.created ≤ 1023) :
    (insert (vblockOf logBaseVaddr) touched).card ≤ cachePoolSize := by
  have hfew := h.few
  have hinsert := Finset.card_insert_le (vblockOf logBaseVaddr) touched
  rw [cachePoolSize]
  by_cases hmem : vblockOf logBaseVaddr ∈ touched
  · rw [if_pos hmem] at hfew
    rw [Finset.insert_eq_of_mem hmem]
    omega
  · rw [if_neg hmem] at hfew
    omega

theorem step_log (s : Machine) (type : EventType) (metadata : BitVec 64) :
    (s.step (.log type metadata)).manifold = s.manifold.materializeRange
      (logBaseVaddr + s.logger.logHead * 16) (entry type metadata).data 16 := rfl

theorem Kept.inBlock (h : Kept s touched) :
    (logBaseVaddr + s.logger.logHead * 16).toNat % blockBytes + 16 ≤ blockBytes := by
  have hhead := h.logHead_lt
  rw [logVaddr_mod hhead, blockBytes]
  omega

/-- A call of log writes the atom at the head, and leaves the rest of the slot and all other
vblocks. -/
theorem Kept.byteOf_log (h : Kept s touched) (hcreated : s.created ≤ 1023) (type : EventType)
    (metadata v : BitVec 64) (o : Fin blockBytes) :
    (s.step (.log type metadata)).manifold.byteOf v o.val =
      if v = vblockOf logBaseVaddr then
        if 16 * (s.logged.length % 1024) ≤ o.val ∧ o.val < 16 * (s.logged.length % 1024) + 16 then
          (entry type metadata).data (o.val - 16 * (s.logged.length % 1024))
        else s.manifold.slotBytes (s.manifold.place (vblockOf logBaseVaddr)).1 o
      else s.manifold.byteOf v o.val := by
  have hv := vblockOf_logVaddr h.logHead_lt
  rw [step_log]
  refine (h.occupied.byteOf_materializeRange _ (logVaddr_aligned h.logHead_lt) h.inBlock
    (hv ▸ h.room hcreated) v o).trans ?_
  rw [rangeBytes, logVaddr_mod h.logHead_lt, h.head, hv]
  split
  · split <;> rfl
  · rfl

/-- The vblock of the log, once there, has its bytes in the slot it is found in. -/
theorem Kept.slotBytes_place (h : Kept s touched) (hlogged : s.logged ≠ [])
    (o : Fin blockBytes) : s.manifold.slotBytes (s.manifold.place (vblockOf logBaseVaddr)).1 o =
      s.manifold.byteOf (vblockOf logBaseVaddr) o.val := by
  cases hf : s.manifold.findBlock (vblockOf logBaseVaddr) with
  | none => exact absurd (h.resident hlogged) ((h.occupied.findBlock_eq_none_iff _).mp hf)
  | some i => rw [place_of_findBlock hf, byteOf_of_findBlock hf]

theorem Kept.log (h : Kept s touched) (hcreated : s.created ≤ 1023) (type : EventType)
    (metadata : BitVec 64) :
    Kept (s.step (.log type metadata)) (insert (vblockOf logBaseVaddr) touched) := by
  have hv := vblockOf_logVaddr h.logHead_lt
  have hlogged : (s.step (.log type metadata)).logged = s.logged ++ [entry type metadata] := rfl
  refine ⟨?_, ?_, fun _ => Finset.mem_insert_self _ _, ?_, ?_⟩
  · rw [step_log, ← hv]
    exact h.occupied.materializeRange _ _ _ (hv ▸ h.room hcreated)
  · rw [if_pos (Finset.mem_insert_self _ _)]
    have hfew := h.few
    by_cases hmem : vblockOf logBaseVaddr ∈ touched
    · rw [if_pos hmem] at hfew
      rw [Finset.insert_eq_of_mem hmem]
      exact hfew
    · rw [if_neg hmem] at hfew
      exact (Finset.card_insert_le _ _).trans (Nat.succ_le_succ hfew)
  · have hold := h.head
    change ((s.logger.logHead + 1) % 1024).toNat = _
    rw [hlogged, List.length_append, List.length_singleton, BitVec.toNat_umod, BitVec.toNat_add]
    simp only [BitVec.reduceToNat]
    omega
  · intro j hj hlast k hk
    have ho : 16 * (j % 1024) + k < blockBytes := by
      rw [blockBytes]
      omega
    have hlength : j < s.logged.length + 1 := by simpa [hlogged] using hj
    simp only [hlogged, List.length_append, List.length_singleton] at hlast ⊢
    refine (h.byteOf_log hcreated type metadata _ ⟨_, ho⟩).trans ?_
    rw [if_pos rfl]
    dsimp only
    rcases Nat.lt_succ_iff_lt_or_eq.mp hlength with hold | hnew
    · have hne : s.logged ≠ [] := List.ne_nil_of_length_pos (Nat.zero_lt_of_lt hold)
      rw [if_neg (by omega), h.slotBytes_place hne, List.getElem_append_left hold]
      exact h.entries j hold (by omega) k hk
    · subst hnew
      rw [if_pos (by omega), List.getElem_concat_length rfl, Nat.add_sub_cancel_left]

/-- An apart write has no byte of the log's vblock in its range. -/
theorem rangeBytes_of_apart {vaddr : BitVec 64} {data : Buffer} {len : Nat}
    (hop : (Event.other (.materialize vaddr data len)).Apart)
    (hv : vblockOf logBaseVaddr = vblockOf vaddr) (o : Fin blockBytes) :
    rangeBytes vaddr data len o = none := by
  obtain ⟨-, -, hapart⟩ := hop
  have hnat := congrArg BitVec.toNat hv
  have hbase : logBaseVaddr.toNat = 16384 * (logBaseVaddr.toNat / 16384) := by decide
  have ho := o.isLt
  rw [toNat_vblockOf, toNat_vblockOf] at hnat
  rw [rangeBytes, if_neg]
  intro hin
  simp only [blockBytes] at hnat hin ho
  have hout := hapart (logBaseVaddr.toNat + o.val) (by omega) (by omega)
  omega

theorem Kept.few_other (h : Kept s touched) (vaddr : BitVec 64) (data : Buffer) (len : Nat) :
    (insert (vblockOf vaddr) touched).card ≤ (s.step (.other (.materialize vaddr data len))).created
      + if vblockOf logBaseVaddr ∈ insert (vblockOf vaddr) touched then 1 else 0 := by
  have hresident := (resident_iff_slots.trans (h.occupied.resident (vblockOf vaddr)))
  have hfew := h.few
  simp only [step, creates, hresident]
  by_cases hmem : vblockOf vaddr ∈ touched
  · rw [if_pos hmem, Finset.insert_eq_of_mem hmem]
    exact hfew
  · rw [if_neg hmem, Finset.card_insert_of_notMem hmem]
    by_cases hlog : vblockOf logBaseVaddr ∈ touched
    · rw [if_pos hlog] at hfew
      rw [if_pos (Finset.mem_insert_of_mem hlog)]
      omega
    · rw [if_neg hlog] at hfew
      omega

theorem Kept.other (h : Kept s touched) {op : Op} (hop : (Event.other op).Apart)
    (hcreated : (s.step (.other op)).created ≤ 1023) :
    ∃ touched', Kept (s.step (.other op)) touched' := by
  cases op with
  | fetch vaddr =>
    refine ⟨touched, ?_⟩
    have hsame : s.step (.other (.fetch vaddr)) = s := by
      rw [step, Op.apply, holographicFetch_snd]
      rfl
    rw [hsame]
    exact h
  | materialize vaddr data len =>
    have hfew := h.few_other vaddr data len
    have hroom : (insert (vblockOf vaddr) touched).card ≤ cachePoolSize := by
      rw [cachePoolSize]
      split at hfew <;> omega
    refine ⟨_, h.occupied.materializeRange vaddr data len hroom, hfew,
      fun hlogged => Finset.mem_insert_of_mem (h.resident hlogged), h.head, ?_⟩
    intro j hj hlast k hk
    have ho : 16 * (j % 1024) + k < blockBytes := by
      rw [blockBytes]
      omega
    have hlogged : s.logged ≠ [] := List.ne_nil_of_length_pos (Nat.zero_lt_of_lt hj)
    refine Eq.trans ?_ (h.entries j hj hlast k hk)
    refine (h.occupied.byteOf_materializeRange _ hop.1 hop.2.1 hroom _ ⟨_, ho⟩).trans ?_
    by_cases hv : vblockOf logBaseVaddr = vblockOf vaddr
    · rw [if_pos hv, rangeBytes_of_apart hop hv, Option.getD_none, ← hv,
        h.slotBytes_place hlogged]
    · rw [if_neg hv]

theorem created_le_run (s : Machine) (events : List Event) :
    s.created ≤ (s.run events).created := by
  induction events generalizing s with
  | nil => exact Nat.le_refl _
  | cons e events ih =>
    refine Nat.le_trans ?_ (ih (s.step e))
    cases e with
    | log type metadata => exact Nat.le_refl _
    | other op => exact Nat.le_add_right _ _

theorem Kept.run (h : Kept s touched) (events : List Event) (hothers : ∀ e ∈ events, e.Apart)
    (hcreated : (s.run events).created ≤ 1023) : ∃ touched', Kept (s.run events) touched' := by
  induction events generalizing s touched with
  | nil => exact ⟨touched, h⟩
  | cons e events ih =>
    have hnext := (created_le_run (s.step e) events).trans hcreated
    have hrest : ∀ e' ∈ events, e'.Apart := fun e' he' => hothers e' (List.mem_cons_of_mem _ he')
    cases e with
    | log type metadata => exact ih (h.log hnext type metadata) hrest hcreated
    | other op =>
      obtain ⟨touched', hother⟩ := h.other (hothers _ List.mem_cons_self) hnext
      exact ih hother hrest hcreated

/-- The atom that is read at place k of the log. -/
theorem Kept.fetch_entry (h : Kept s touched) {j : Nat} (hj : j < s.logged.length)
    (hlast : s.logged.length ≤ j + 1024) : (s.manifold.holographicFetch
      (logBaseVaddr + BitVec.ofNat 64 (j % 1024) * 16)).1 = s.logged[j] := by
  have hk : (BitVec.ofNat 64 (j % 1024)).toNat < 1024 := by
    rw [BitVec.toNat_ofNat]
    omega
  have hval : (BitVec.ofNat 64 (j % 1024)).toNat = j % 1024 := by
    rw [BitVec.toNat_ofNat]
    omega
  apply Value128.ext_data
  intro k hbyte
  rw [holographicFetch_data _ _ hbyte, vblockOf_logVaddr hk,
    atomOf_of_aligned (logVaddr_aligned hk), logVaddr_mod hk, hval]
  exact h.entries j hj hlast k hbyte

theorem Kept.fetch_log_ne (h : Kept s touched) (hcreated : s.created ≤ 1023) (type : EventType)
    (metadata : BitVec 64) {w : BitVec 64} (hw : vblockOf w ≠ vblockOf logBaseVaddr) :
    ((s.step (.log type metadata)).manifold.holographicFetch w).1 =
      (s.manifold.holographicFetch w).1 := by
  apply Value128.ext_data
  intro k hbyte
  rw [holographicFetch_data _ _ hbyte, holographicFetch_data _ _ hbyte]
  exact (h.byteOf_log hcreated type metadata _ ⟨_, atomOf_add_lt w hbyte⟩).trans (if_neg hw)

end

theorem exists_isLatest {n k : Nat} (hk : k < min n 1024) :
    ∃ j, IsLatest n k j ∧ n ≤ j + 1024 := by
  have hkn : k < n ∧ k < 1024 := by omega
  refine ⟨k + 1024 * ((n - 1 - k) / 1024), ⟨by omega, by omega, fun i hi hmod => ?_⟩, by omega⟩
  omega

/-- In every run that leaves room in the pool, the log reads back the latest entry of each of
its places, and a call of log changes no other vblock. -/
theorem log_reads_back (pool : Buffer) (map : Fin cachePoolSize → BitVec 64) (events : List Event)
    (hothers : ∀ e ∈ events, e.Apart) (hcreated : ((start pool map).run events).created ≤ 1023) :
    (∀ k < min ((start pool map).run events).logged.length 1024, ∃ j,
      IsLatest ((start pool map).run events).logged.length k j ∧
      ((start pool map).run events).logged[j]? =
        some (((start pool map).run events).manifold.holographicFetch
          (logBaseVaddr + BitVec.ofNat 64 k * 16)).1) ∧
    ∀ type metadata w, vblockOf w ≠ vblockOf logBaseVaddr →
      ((((start pool map).run events).step (.log type metadata)).manifold.holographicFetch w).1 =
        (((start pool map).run events).manifold.holographicFetch w).1 := by
  obtain ⟨touched, h⟩ := (kept_start pool map).run events hothers hcreated
  refine ⟨fun k hk => ?_, fun type metadata w hw => h.fetch_log_ne hcreated type metadata hw⟩
  obtain ⟨j, hlatest, hlast⟩ := exists_isLatest hk
  refine ⟨j, hlatest, ?_⟩
  rw [List.getElem?_eq_getElem hlatest.1, ← h.fetch_entry hlatest.1 hlast, hlatest.2.1]

/-- A boot entry, and another writer at address 0. -/
theorem log_reads_back_boot : (Value128.mk 0x01000000DEADBEEF 7) =
    (((start (fun _ => 0xFF) fun _ => 0).run
      [.log .eventBoot 7, .other (.materialize 0 (fun _ => 1) 16)]).manifold.holographicFetch
        (logBaseVaddr + BitVec.ofNat 64 0 * 16)).1 := by
  obtain ⟨hreads, -⟩ := log_reads_back (fun _ => 0xFF) (fun _ => 0)
    [.log .eventBoot 7, .other (.materialize 0 (fun _ => 1) 16)] (by
      intro e he
      rcases List.mem_cons.mp he with rfl | he
      · exact trivial
      · rw [List.mem_singleton.mp he]
        exact ⟨by decide, by decide, fun a _ ha => Or.inl (Nat.lt_trans ha (by decide))⟩)
    (by
      simp only [run, List.foldl_cons, List.foldl_nil, step, creates, start]
      split <;> omega)
  obtain ⟨j, hlatest, hj⟩ := hreads 0 (by decide)
  obtain rfl : j = 0 := Nat.lt_one_iff.mp hlatest.1
  exact Option.some.inj hj

end Machine

end EmergenceOS.Vdev.AuditLog
