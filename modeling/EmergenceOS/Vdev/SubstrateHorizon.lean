/- Module: EmergenceOS/Vdev/SubstrateHorizon
   digest: Where the idle prefetch stands after any run of requests and idle cycles. -/

import EmergenceOS.Vdev.PhaseFoldBounds

/-!
The service keeps the highest start of a read and a horizon behind it. A read that
starts no lower than any before it moves both; idle cycles move the horizon only.
-/

set_option autoImplicit false
set_option relaxedAutoImplicit false

namespace EmergenceOS.Vdev.SubstrateService

open EmergenceOS.Lib.Bytes EmergenceOS.Vdev.Topology

/-- The horizon after n idle cycles: one atom for each, up to the first atom at the capacity. -/
def advance (capacity horizon n : Nat) : Nat :=
  horizon + 16 * min n ((capacity - horizon + 15) / 16)

/-- The address that a read starts at. -/
def Event.start? : Event → Option (BitVec 64)
  | .request (.read lba _ _) => some (lba * 512)
  | _ => none

def starts (es : List Event) : List (BitVec 64) := es.filterMap Event.start?

def Event.cycles : Event → Nat
  | .idle hint => hint.toNat
  | .request _ => 0

/-- The idle cycles of a run. -/
def cycles (es : List Event) : Nat := (es.map Event.cycles).sum

/-- Where a read puts the horizon. -/
def readEnd (lba : BitVec 64) (count : BitVec 32) : BitVec 64 :=
  lba * 512 + (count * 512).setWidth 64

theorem advance_zero (capacity horizon : Nat) : advance capacity horizon 0 = horizon := by
  rw [advance, Nat.zero_min, Nat.mul_zero, Nat.add_zero]

/-- Idle cycles add up, however they are handed out. -/
theorem advance_advance (capacity horizon m n : Nat) :
    advance capacity (advance capacity horizon m) n = advance capacity horizon (m + n) := by
  unfold advance
  rcases Nat.le_total m ((capacity - horizon + 15) / 16) with hm | hm
  · rw [Nat.min_eq_left hm]
    omega
  · rw [Nat.min_eq_right hm, Nat.min_eq_right (Nat.le_trans hm (Nat.le_add_right m n))]
    omega

theorem starts_append (es es' : List Event) : starts (es ++ es') = starts es ++ starts es' :=
  List.filterMap_append

/-- The loop fetches, which changes nothing, and stops at the capacity. -/
theorem idleLoop_eq {capacity : BitVec 64} (hcap : capacity.toNat + 16 < 2 ^ 64) (left : Nat)
    (m : SubstrateManifold) (target : BitVec 64) :
    (idleLoop capacity left m target).1 = m ∧
      (idleLoop capacity left m target).2.toNat = advance capacity.toNat target.toNat left := by
  induction left generalizing target with
  | zero => exact ⟨rfl, (advance_zero _ _).symm⟩
  | succ left ih =>
    rw [idleLoop]
    split
    · rename_i hdone
      rw [BitVec.le_def] at hdone
      refine ⟨rfl, ?_⟩
      simp only [advance]
      omega
    · rename_i hgo
      rw [BitVec.le_def] at hgo
      have hstep : (16 : BitVec 64).toNat = 16 := rfl
      have hnext : (target + 16).toNat = advance capacity.toNat target.toNat 1 := by
        rw [BitVec.toNat_add, hstep, advance]
        omega
      rw [SubstrateManifold.holographicFetch_snd]
      obtain ⟨hm, htarget⟩ := ih (target + 16)
      refine ⟨hm, ?_⟩
      rw [htarget, hnext, advance_advance, Nat.add_comm]

theorem utilizeIdleCycles_eq {svc : Service} (hcap : svc.virtualCapacityBytes.toNat + 16 < 2 ^ 64)
    (hint : BitVec 32) : ∃ horizon, svc.utilizeIdleCycles hint =
      { svc with preemptionHorizon := horizon } ∧
      horizon.toNat = advance svc.virtualCapacityBytes.toNat svc.preemptionHorizon.toNat
        hint.toNat := by
  obtain ⟨hm, htarget⟩ := idleLoop_eq hcap hint.toNat svc.manifold svc.preemptionHorizon
  refine ⟨_, ?_, htarget⟩
  rw [Service.utilizeIdleCycles]
  simp only [hm]

/-- Writes leave both marks alone. -/
theorem writeSectors_marks {guestLba : BitVec 64} {buf : Buffer} {left i : Nat}
    {svc svc' : Service} (h : writeSectors guestLba buf left i svc = some svc') :
    svc'.highestAccessedVaddr = svc.highestAccessedVaddr ∧
      svc'.preemptionHorizon = svc.preemptionHorizon := by
  induction left generalizing i svc with
  | zero =>
    cases h
    exact ⟨rfl, rfl⟩
  | succ left ih =>
    obtain ⟨mid, hpersist, hrest⟩ := Option.bind_eq_some_iff.mp h
    have hmid : mid.highestAccessedVaddr = svc.highestAccessedVaddr ∧
        mid.preemptionHorizon = svc.preemptionHorizon := by
      unfold persist at hpersist
      split at hpersist
      · cases hpersist
        exact ⟨rfl, rfl⟩
      · obtain ⟨residue, -, hpersist⟩ := Option.bind_eq_some_iff.mp hpersist
        simp only at hpersist
        split at hpersist
        · cases hpersist
          exact ⟨rfl, rfl⟩
        · cases hpersist
    obtain ⟨hhigh, hhor⟩ := ih hrest
    exact ⟨hhigh.trans hmid.1, hhor.trans hmid.2⟩

/-- What the marks of a service say about the run behind it. -/
inductive Marked (capacity : Nat) (svc : Service) (es : List Event) : Prop
  | unread (hstarts : starts es = []) (hhighest : svc.highestAccessedVaddr = 0)
      (hhorizon : svc.preemptionHorizon.toNat = advance capacity 0 (cycles es))
  | read (es₁ es₂ : List Event) (lba : BitVec 64) (count : BitVec 32) (buf : Buffer)
      (hsplit : es = es₁ ++ .request (.read lba count buf) :: es₂)
      (hbefore : ∀ x ∈ starts es₁, x ≤ lba * 512) (hafter : ∀ x ∈ starts es₂, x < lba * 512)
      (hhighest : svc.highestAccessedVaddr = lba * 512)
      (hhorizon : svc.preemptionHorizon.toNat =
        advance capacity (readEnd lba count).toNat (cycles es₂))

section
variable {capacity : Nat} {svc svc' : Service} {es : List Event}

theorem Marked.highest (h : Marked capacity svc es) :
    ∀ x ∈ starts es, x ≤ svc.highestAccessedVaddr := by
  cases h with
  | unread hstarts _ _ =>
    rw [hstarts]
    exact fun x hx => absurd hx List.not_mem_nil
  | read es₁ es₂ lba count buf hsplit hbefore hafter hhighest _ =>
    rw [hhighest, hsplit, starts_append]
    intro x hx
    rcases List.mem_append.mp hx with hold | hnew
    · exact hbefore x hold
    · rw [starts, List.filterMap_cons] at hnew
      rcases List.mem_cons.mp hnew with rfl | hnew
      · exact BitVec.le_refl _
      · exact BitVec.le_of_lt (hafter x hnew)

/-- An event without a start below which the run stays adds its idle cycles. -/
theorem Marked.append (h : Marked capacity svc es) {e : Event}
    (hstart : ∀ x, e.start? = some x → x < svc.highestAccessedVaddr)
    (hhighest : svc'.highestAccessedVaddr = svc.highestAccessedVaddr)
    (hhorizon : svc'.preemptionHorizon.toNat =
      advance capacity svc.preemptionHorizon.toNat e.cycles) :
    Marked capacity svc' (es ++ [e]) := by
  have hcycles (es : List Event) : cycles (es ++ [e]) = cycles es + e.cycles := by simp [cycles]
  cases h with
  | unread hstarts hhigh hhor =>
    have hnone : e.start? = none := by
      rw [Option.eq_none_iff_forall_ne_some]
      intro x hx
      have hlt := hstart x hx
      rw [hhigh] at hlt
      exact absurd hlt (by simp)
    refine .unread ?_ (hhighest.trans hhigh) ?_
    · rw [starts_append, hstarts, starts, List.filterMap_cons, hnone]
      rfl
    · rw [hhorizon, hhor, advance_advance, hcycles]
  | read es₁ es₂ lba count buf hsplit hbefore hafter hhigh hhor =>
    refine .read es₁ (es₂ ++ [e]) lba count buf ?_ hbefore ?_ (hhighest.trans hhigh) ?_
    · rw [hsplit, List.append_assoc, List.cons_append]
    · intro x hx
      rw [starts_append] at hx
      rcases List.mem_append.mp hx with hold | hnew
      · exact hafter x hold
      · rw [← hhigh]
        exact hstart x (by simpa [starts, List.mem_filterMap] using hnew)
    · rw [hhorizon, hhor, advance_advance, hcycles]

theorem Marked.serveRead (h : Marked capacity svc es) (lba : BitVec 64) (count : BitVec 32)
    (buf : Buffer) :
    Marked capacity (svc.serveRead lba count buf).2.1 (es ++ [.request (.read lba count buf)]) := by
  simp only [Service.serveRead]
  split
  · rename_i hle
    refine .read es [] lba count buf rfl (fun x hx => ?_) (fun x hx => ?_) rfl ?_
    · exact BitVec.le_trans (h.highest x hx) hle
    · exact absurd hx List.not_mem_nil
    · exact (advance_zero _ _).symm
  · rename_i hlt
    refine h.append (fun x hx => ?_) rfl (advance_zero _ _).symm
    cases hx
    exact BitVec.not_le.mp hlt

end

/-- Requests and idle cycles keep the capacity. -/
theorem handle_capacity {svc svc' : Service} {e : Event} (h : handle (some svc) e = some svc') :
    svc'.virtualCapacityBytes = svc.virtualCapacityBytes := by
  cases e with
  | idle hint =>
    cases h
    rfl
  | request r =>
    cases r with
    | read lba count buf =>
      cases h
      exact Service.serveRead_capacity ..
    | write lba count buf =>
      obtain ⟨r, hwrite, rfl⟩ := Option.map_eq_some_iff.mp h
      obtain ⟨svc', hloop, rfl⟩ := Option.map_eq_some_iff.mp hwrite
      exact (writeSectors_frame hloop).2.1

theorem Marked.handle {svc svc' : Service} {es : List Event}
    (hcap : svc.virtualCapacityBytes.toNat + 16 < 2 ^ 64)
    (h : Marked svc.virtualCapacityBytes.toNat svc es) {e : Event}
    (he : SubstrateService.handle (some svc) e = some svc') :
    Marked svc.virtualCapacityBytes.toNat svc' (es ++ [e]) := by
  cases e with
  | idle hint =>
    obtain ⟨horizon, heq, hhorizon⟩ := utilizeIdleCycles_eq hcap hint
    obtain rfl : svc.utilizeIdleCycles hint = svc' := Option.some.inj he
    rw [heq]
    exact h.append (fun x hx => by cases hx) rfl hhorizon
  | request r =>
    cases r with
    | read lba count buf =>
      cases he
      exact h.serveRead lba count buf
    | write lba count buf =>
      obtain ⟨r, hwrite, rfl⟩ := Option.map_eq_some_iff.mp he
      obtain ⟨svc', hloop, rfl⟩ := Option.map_eq_some_iff.mp hwrite
      obtain ⟨hhighest, hhorizon⟩ := writeSectors_marks hloop
      refine h.append (fun x hx => by cases hx) hhighest ?_
      rw [hhorizon]
      exact (advance_zero _ _).symm

theorem foldl_handle_none (es : List Event) : es.foldl handle none = none := by
  induction es with
  | nil => rfl
  | cons e es ih =>
    have hnone : handle none e = none := by cases e <;> rfl
    rw [List.foldl_cons, hnone, ih]

/-- After any run the highest address is where the latest of the highest reads starts, and the
horizon is the end of that read, moved by the idle cycles since, or by all of them from 0 if
nothing was read. -/
theorem run_marked (build : Build) (manifold : SubstrateManifold)
    (phys : Option (List JournalWrite)) (es : List Event) (svc : Service)
    (hrun : es.foldl handle (some (.new build manifold phys)) = some svc) :
    svc.virtualCapacityBytes = build.capacityBytes ∧ Marked build.capacityBytes.toNat svc es := by
  induction es using List.reverseRecOn generalizing svc with
  | nil =>
    cases hrun
    exact ⟨rfl, .unread rfl rfl (advance_zero _ _).symm⟩
  | append_singleton es e ih =>
    rw [List.foldl_append] at hrun
    cases hmid : es.foldl handle (some (.new build manifold phys)) with
    | none =>
      rw [hmid, foldl_handle_none] at hrun
      cases hrun
    | some mid =>
      rw [hmid] at hrun
      obtain ⟨hcap, hmarked⟩ := ih mid hmid
      have hroom : mid.virtualCapacityBytes.toNat + 16 < 2 ^ 64 := by
        rw [hcap]
        cases build <;> decide
      rw [← hcap] at hmarked ⊢
      exact ⟨handle_capacity hrun, hmarked.handle hroom hrun⟩

/-- A read of sector 3, idle cycles, and a read below it. -/
theorem run_marked_two_reads :
    Marked Build.enterprise.capacityBytes.toNat
      ((((Service.new .enterprise SubstrateManifold.zeroed none).serveRead 3 1
        fun _ => 0).2.1.utilizeIdleCycles 4).serveRead 1 1 fun _ => 0).2.1
      [.request (.read 3 1 fun _ => 0), .idle 4, .request (.read 1 1 fun _ => 0)] :=
  (run_marked .enterprise SubstrateManifold.zeroed none
    [.request (.read 3 1 fun _ => 0), .idle 4, .request (.read 1 1 fun _ => 0)] _ rfl).2

end EmergenceOS.Vdev.SubstrateService
