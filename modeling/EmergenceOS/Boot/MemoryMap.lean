/- Module: EmergenceOS/Boot/MemoryMap
   digest: What kmain allocates, where it lies and which framebuffers leave room for it. -/

import EmergenceOS.Boot.Paging
import EmergenceOS.Hal.AhciPort
import EmergenceOS.Mm.AllocatorFailure

/-!
No result of allocate is checked before it is used. What a framebuffer takes is the product
of two numbers that the boot loader reports, in 32 bits.
-/

set_option autoImplicit false
set_option relaxedAutoImplicit false

namespace EmergenceOS.Mm.PhysicalMemory

/-- The results of a sequence of calls, as numbers. -/
def placements (current max : Nat) : List Nat → List Nat
  | [] => []
  | size :: sizes =>
    if alignUp current + size < max then
      alignUp current :: placements (alignUp current + size) max sizes
    else 0 :: placements (alignUp current) max sizes

theorem placements_fits {current max size : Nat} (sizes : List Nat)
    (h : alignUp current + size < max) : placements current max (size :: sizes) =
      alignUp current :: placements (alignUp current + size) max sizes := if_pos h

theorem placements_full {current max size : Nat} (sizes : List Nat)
    (h : max ≤ alignUp current + size) : placements current max (size :: sizes) =
      0 :: placements (alignUp current) max sizes := if_neg (Nat.not_lt.mpr h)

theorem allocate_full {m : PhysicalMemory} {size : BitVec 64}
    (hwrap : alignUp m.currentAddress.toNat + size.toNat < 2 ^ 64)
    (h : m.maxAddress.toNat ≤ alignUp m.currentAddress.toNat + size.toNat) :
    (m.allocate size).1 = 0 ∧
      (m.allocate size).2.currentAddress.toNat = alignUp m.currentAddress.toNat ∧
      (m.allocate size).2.maxAddress = m.maxAddress := by
  have hbase : (roundUp m.currentAddress).toNat = alignUp m.currentAddress.toNat :=
    toNat_roundUp (Nat.lt_of_le_of_lt (Nat.le_add_right _ _) hwrap)
  have hfull : m.maxAddress ≤ roundUp m.currentAddress + size := by
    rw [BitVec.le_def, BitVec.toNat_add, hbase, Nat.mod_eq_of_lt hwrap]
    exact h
  rw [allocate_refused hfull]
  exact ⟨rfl, hbase, rfl⟩

/-- Small requests, below a limit that is itself a boundary. -/
theorem results_toNat {m : PhysicalMemory} {max : Nat} (hmax : m.maxAddress.toNat = max)
    (hmod : max % 16384 = 0) (hsmall : max ≤ 2 ^ 40) {sizes : List (BitVec 64)}
    (hsizes : ∀ size ∈ sizes, size.toNat < 2 ^ 40) (hcur : m.currentAddress.toNat ≤ max) :
    (results m sizes).map BitVec.toNat =
      placements m.currentAddress.toNat max (sizes.map BitVec.toNat) := by
  induction sizes generalizing m with
  | nil => rfl
  | cons size sizes ih =>
    have hsize := hsizes size List.mem_cons_self
    have hrest := fun size h => hsizes size (List.mem_cons_of_mem _ h)
    have hround : alignUp m.currentAddress.toNat ≤ max := by
      rw [← alignUp_of_mod hmod]
      exact Nat.mul_le_mul_right _ (Nat.div_le_div_right (Nat.add_le_add_right hcur _))
    rw [results, List.map_cons, List.map_cons]
    by_cases hfits : alignUp m.currentAddress.toNat + size.toNat < max
    · rw [← hmax] at hfits
      obtain ⟨hp, hcur', hmax'⟩ := allocate_fits hfits
      rw [hmax] at hfits
      rw [placements_fits _ hfits, hp, ← hcur']
      refine congrArg _ (ih ?_ hrest ?_)
      · rw [hmax', hmax]
      · rw [hcur']
        exact Nat.le_of_lt hfits
    · have hfull := Nat.not_lt.mp hfits
      rw [← hmax] at hfull
      obtain ⟨hp, hcur', hmax'⟩ := allocate_full (by omega) hfull
      rw [hmax] at hfull
      rw [placements_full _ hfull, hp, ← hcur']
      refine congrArg _ (ih ?_ hrest ?_)
      · rw [hmax', hmax]
      · rw [hcur']
        exact hround

end EmergenceOS.Mm.PhysicalMemory

namespace EmergenceOS.Boot.MemoryMap

open EmergenceOS.Mm EmergenceOS.Mm.PhysicalMemory EmergenceOS.Boot.Paging EmergenceOS.Lib.PageTable

/-- What kmain requests, in order: the structures of the AHCI driver, the back buffer for a
height and a pitch, the two regions of VMXController and the pool of SubstrateManifold. -/
def bootRequests (disk : Bool) (framebuffer : Option (BitVec 32 × BitVec 32)) :
    List (BitVec 64) :=
  (if disk then [1024, 256, 144] else []) ++
    (framebuffer.map fun (height, pitch) => (height * pitch).setWidth 64).toList ++
    [4096, 4096, 16384 * 1024]

/-- g_pmm as kmain constructs it. -/
def kernelMemory : PhysicalMemory := new 0x2000000 0x40000000

def limit : Nat := 0x42000000

def backBufferBytes (framebuffer : Option (BitVec 32 × BitVec 32)) : Nat :=
  framebuffer.elim 0 fun (height, pitch) => (height * pitch).toNat

/-- Where the back buffer begins. -/
def drivers (disk : Bool) : Nat := 0x2000000 + if disk then 3 * 16384 else 0

/-- The regions of VMXController and the pool. -/
def tail : List Nat := [4096, 4096, 16384 * 1024]

section
variable {current : Nat}

theorem placements_tail_fits (h : alignUp current + 0x1008000 < limit) :
    placements current limit tail =
      [alignUp current, alignUp current + 16384, alignUp current + 32768] := by
  have hmod := alignUp_mod current
  have hsecond : alignUp (alignUp current + 4096) = alignUp current + 16384 :=
    alignUp_add hmod (by decide) (by decide)
  have hthird : alignUp (alignUp current + 16384 + 4096) = alignUp current + 32768 :=
    (alignUp_add (by omega) (by decide) (by decide)).trans (Nat.add_assoc _ _ _)
  rw [tail, placements_fits _ (by omega), placements_fits _ (by rw [hsecond]; omega), hsecond,
    placements_fits _ (by rw [hthird]; simpa [Nat.add_assoc] using h), hthird, placements]

/-- The pool does not fit, whether the regions before it do or not. -/
theorem placements_tail_full (h : limit ≤ alignUp current + 0x1008000) :
    (placements current limit tail).getLast? = some 0 := by
  have hmod := alignUp_mod current
  have hsame : alignUp (alignUp current) = alignUp current := alignUp_of_mod hmod
  rw [tail]
  by_cases hfirst : alignUp current + 4096 < limit
  · have hnext := alignUp_add hmod (r := 4096) (by decide) (by decide)
    rw [placements_fits _ hfirst]
    by_cases hsecond : alignUp current + 16384 + 4096 < limit
    · have hlast : alignUp (alignUp current + 16384 + 4096) = alignUp current + 32768 :=
        (alignUp_add (by omega) (by decide) (by decide)).trans (Nat.add_assoc _ _ _)
      rw [placements_fits _ (by rw [hnext]; exact hsecond), hnext,
        placements_full _ (by rw [hlast]; simpa [Nat.add_assoc] using h), placements,
        List.getLast?_cons_cons, List.getLast?_cons_cons, List.getLast?_singleton]
    · have hkept : alignUp (alignUp current + 16384) = alignUp current + 16384 :=
        alignUp_of_mod (by omega)
      rw [placements_full _ (by rw [hnext]; omega), hnext, placements_full _ (by rw [hkept]; omega),
        placements, List.getLast?_cons_cons, List.getLast?_cons_cons, List.getLast?_singleton]
  · rw [placements_full _ (by omega), placements_full _ (by rw [hsame]; omega), hsame,
      placements_full _ (by rw [hsame]; omega), placements, List.getLast?_cons_cons,
      List.getLast?_cons_cons, List.getLast?_singleton]

end

/-- The requests of the AHCI driver are all granted. -/
theorem placements_drivers (disk : Bool) : ∃ current granted, alignUp current = drivers disk ∧
    0 ∉ granted ∧ granted.length = (if disk then 3 else 0) ∧ ∀ rest,
      placements 0x2000000 limit (((if disk then [1024, 256, 144] else []) : List Nat) ++ rest) =
        granted ++ placements current limit rest := by
  cases disk with
  | false => exact ⟨0x2000000, [], rfl, List.not_mem_nil, rfl, fun rest => rfl⟩
  | true =>
    refine ⟨0x2008090, [0x2000000, 0x2004000, 0x2008000], rfl, by decide, rfl, fun rest => ?_⟩
    have hlist (sizes : List Nat) : placements 0x2000000 limit (1024 :: sizes) =
        0x2000000 :: placements 0x2000400 limit sizes := placements_fits sizes (by decide)
    have hfis (sizes : List Nat) : placements 0x2000400 limit (256 :: sizes) =
        0x2004000 :: placements 0x2004100 limit sizes := placements_fits sizes (by decide)
    have htable (sizes : List Nat) : placements 0x2004100 limit (144 :: sizes) =
        0x2008000 :: placements 0x2008090 limit sizes := placements_fits sizes (by decide)
    rw [if_pos rfl, List.cons_append, List.cons_append, List.cons_append, List.nil_append, hlist,
      hfis, htable]
    rfl

theorem getLast?_append_placements (granted : List Nat) (current : Nat) {sizes : List Nat}
    (h : sizes ≠ []) : (granted ++ placements current limit sizes).getLast? =
      (placements current limit sizes).getLast? := by
  have hne : placements current limit sizes ≠ [] := by
    cases sizes with
    | nil => exact absurd rfl h
    | cons size sizes =>
      rw [placements]
      split <;> exact List.cons_ne_nil _ _
  rw [List.getLast?_append_of_ne_nil _ hne]

/-- The regions and the pool behind the back buffer, or in its place. -/
theorem placements_rest {current : Nat} {disk : Bool} (hcurrent : alignUp current = drivers disk)
    (bytes : Nat) :
    (0 ∉ placements current limit (bytes :: tail) ↔ drivers disk + bytes + 0x100C000 ≤ limit) ∧
      ((placements current limit (bytes :: tail)).getLast? = some 0 ↔
        limit < drivers disk + bytes + 0x100C000 ∧ drivers disk + bytes < limit) := by
  have hlow : 0x2000000 ≤ drivers disk ∧ drivers disk ≤ 0x200C000 ∧ drivers disk % 16384 = 0 := by
    cases disk <;> decide
  have hlimit : limit = 0x42000000 := rfl
  by_cases hbuffer : drivers disk + bytes < limit
  · rw [← hcurrent] at hbuffer
    rw [placements_fits _ hbuffer, hcurrent]
    rw [hcurrent] at hbuffer
    have hmod := alignUp_mod (drivers disk + bytes)
    have hle := le_alignUp (drivers disk + bytes)
    have hlt := alignUp_lt (drivers disk + bytes)
    by_cases hpool : alignUp (drivers disk + bytes) + 0x1008000 < limit
    · rw [placements_tail_fits hpool]
      refine ⟨iff_of_true ?_ (by omega), iff_of_false ?_ (by omega)⟩
      · simp only [List.mem_cons, List.not_mem_nil, or_false, not_or]
        omega
      · simp only [List.getLast?_cons_cons, List.getLast?_singleton, Option.some.injEq]
        omega
    · have hlast := placements_tail_full (Nat.not_lt.mp hpool)
      have hmem := List.mem_of_getLast? hlast
      refine ⟨iff_of_false (fun h => h (List.mem_cons_of_mem _ hmem)) (by omega),
        iff_of_true ?_ (by omega)⟩
      rw [List.getLast?_cons, hlast]
      rfl
  · have hfull : limit ≤ alignUp current + bytes := by
      rw [hcurrent]
      exact Nat.not_lt.mp hbuffer
    have hpool : alignUp (alignUp current) + 0x1008000 < limit := by
      rw [alignUp_of_mod (alignUp_mod current), hcurrent]
      omega
    rw [placements_full _ hfull, placements_tail_fits hpool]
    refine ⟨iff_of_false (fun h => h List.mem_cons_self) (by omega), iff_of_false ?_ (by omega)⟩
    simp only [List.getLast?_cons_cons, List.getLast?_singleton, Option.some.injEq]
    omega

theorem map_bootRequests (disk : Bool) (framebuffer : Option (BitVec 32 × BitVec 32)) :
    (bootRequests disk framebuffer).map BitVec.toNat =
      (if disk then [1024, 256, 144] else []) ++
        (framebuffer.elim tail fun _ => backBufferBytes framebuffer :: tail) := by
  cases framebuffer with
  | none => cases disk <;> rfl
  | some size =>
    obtain ⟨height, pitch⟩ := size
    have hbytes : ((height * pitch).setWidth 64).toNat = (height * pitch).toNat := by
      rw [BitVec.toNat_setWidth, Nat.mod_eq_of_lt]
      exact Nat.lt_trans (height * pitch).isLt (by decide)
    have hrest : ((height * pitch).setWidth 64).toNat :: tail = (height * pitch).toNat :: tail :=
      congrArg (· :: tail) hbytes
    cases disk with
    | false => exact hrest
    | true => exact congrArg ([1024, 256, 144] ++ ·) hrest

theorem bootRequests_lt {disk : Bool} {framebuffer : Option (BitVec 32 × BitVec 32)}
    {size : BitVec 64} (h : size ∈ bootRequests disk framebuffer) : size.toNat < 2 ^ 32 := by
  have hmem := List.mem_map_of_mem (f := BitVec.toNat) h
  rw [map_bootRequests, List.mem_append] at hmem
  have htail : ∀ n ∈ tail, n < 2 ^ 32 := by decide
  rcases hmem with hfirst | hrest
  · revert hfirst
    cases disk with
    | false => exact fun hfirst => absurd hfirst List.not_mem_nil
    | true =>
      have hall : ∀ n ∈ [1024, 256, 144], n < 2 ^ 32 := by decide
      exact hall _
  · cases framebuffer with
    | none => exact htail _ hrest
    | some bytes =>
      rcases List.mem_cons.mp hrest with hbytes | hrest
      · rw [hbytes]
        exact (bytes.1 * bytes.2).isLt
      · exact htail _ hrest

theorem map_results (disk : Bool) (framebuffer : Option (BitVec 32 × BitVec 32)) :
    (results kernelMemory (bootRequests disk framebuffer)).map BitVec.toNat =
      placements 0x2000000 limit ((bootRequests disk framebuffer).map BitVec.toNat) :=
  results_toNat rfl (by decide) (by decide)
    (fun _ h => Nat.lt_trans (bootRequests_lt h) (by decide)) (by decide)

theorem map_toNat_eq_zero_iff (p : Option (BitVec 64)) :
    p.map BitVec.toNat = some 0 ↔ p = some 0 := by
  cases p with
  | none => exact iff_of_false (Option.some_ne_none 0).symm (Option.some_ne_none 0).symm
  | some p =>
    rw [Option.map_some, Option.some.injEq, Option.some.injEq]
    exact ⟨fun h => BitVec.eq_of_toNat_eq h, fun h => congrArg BitVec.toNat h⟩

/-- The back buffer is the first request behind those of the driver. -/
theorem backBuffer_null_iff (disk : Bool) (height pitch : BitVec 32) :
    (results kernelMemory (bootRequests disk (some (height, pitch))))[if disk then 3 else 0]? =
      some 0 ↔ limit ≤ drivers disk + (height * pitch).toNat := by
  obtain ⟨current, granted, hcurrent, -, hlength, hfirst⟩ := placements_drivers disk
  have hmap := map_results disk (some (height, pitch))
  rw [map_bootRequests, hfirst, Option.elim_some] at hmap
  have hplace := congrArg (·[if disk then 3 else 0]?) hmap
  simp only [List.getElem?_map] at hplace
  rw [List.getElem?_append_right hlength.le, hlength, Nat.sub_self] at hplace
  have hlow : 0x2000000 ≤ drivers disk := by cases disk <;> decide
  rw [← map_toNat_eq_zero_iff, hplace, backBufferBytes, Option.elim_some, ← hcurrent]
  by_cases hfits : alignUp current + (height * pitch).toNat < limit
  · rw [placements_fits _ hfits, List.getElem?_cons_zero, Option.some.injEq]
    omega
  · rw [placements_full _ (Nat.not_lt.mp hfits), List.getElem?_cons_zero]
    exact iff_of_true rfl (Nat.not_lt.mp hfits)

/-- The drivers' requests are granted, so what fails is among those behind them. -/
theorem results_behind_drivers (disk : Bool) (framebuffer : Option (BitVec 32 × BitVec 32)) :
    ∃ current, alignUp current = drivers disk ∧
      (0 ∈ results kernelMemory (bootRequests disk framebuffer) ↔
        0 ∈ placements current limit
          (framebuffer.elim tail fun _ => backBufferBytes framebuffer :: tail)) ∧
      ((results kernelMemory (bootRequests disk framebuffer)).getLast? = some 0 ↔
        (placements current limit
          (framebuffer.elim tail fun _ => backBufferBytes framebuffer :: tail)).getLast? =
            some 0) := by
  have hmap := map_results disk framebuffer
  obtain ⟨current, granted, hcurrent, hgranted, -, hfirst⟩ := placements_drivers disk
  rw [map_bootRequests, hfirst] at hmap
  refine ⟨current, hcurrent, ?_, ?_⟩
  · have hmem : 0 ∈ (results kernelMemory (bootRequests disk framebuffer)).map BitVec.toNat ↔
        0 ∈ results kernelMemory (bootRequests disk framebuffer) := by
      refine ⟨fun h => ?_, fun h => List.mem_map_of_mem (f := BitVec.toNat) h⟩
      obtain ⟨p, hp, hnull⟩ := List.mem_map.mp h
      have hp0 : p = 0 := BitVec.eq_of_toNat_eq hnull
      rwa [hp0] at hp
    rw [← hmem, hmap, List.mem_append, or_iff_right hgranted]
  · have hsame := congrArg List.getLast? hmap
    have hne : (framebuffer.elim tail fun _ => backBufferBytes framebuffer :: tail) ≠ [] := by
      cases framebuffer <;> exact List.cons_ne_nil _ _
    rw [List.getLast?_map, getLast?_append_placements _ _ hne] at hsame
    rw [← hsame, map_toNat_eq_zero_iff]

/-- Everything that kmain requests is granted unless the framebuffer is too large, the
framebuffers that leave the manifold without a pool are those that only just fit themselves, and
a larger one has no back buffer. -/
theorem boot_results (disk : Bool) (framebuffer : Option (BitVec 32 × BitVec 32)) :
    (0 ∉ results kernelMemory (bootRequests disk framebuffer) ↔
        drivers disk + backBufferBytes framebuffer + 0x100C000 ≤ limit) ∧
      ((results kernelMemory (bootRequests disk framebuffer)).getLast? = some 0 ↔
        limit < drivers disk + backBufferBytes framebuffer + 0x100C000 ∧
          drivers disk + backBufferBytes framebuffer < limit) ∧
      ∀ height pitch : BitVec 32,
        (results kernelMemory (bootRequests disk (some (height, pitch))))[if disk then 3 else 0]? =
          some 0 ↔ limit ≤ drivers disk + (height * pitch).toNat := by
  obtain ⟨current, hcurrent, hzero, hlast⟩ := results_behind_drivers disk framebuffer
  rw [← and_assoc]
  refine ⟨?_, backBuffer_null_iff disk⟩
  cases framebuffer with
  | none =>
    have hlow : 0x2000000 ≤ drivers disk ∧ drivers disk ≤ 0x200C000 := by cases disk <;> decide
    have hlimit : limit = 0x42000000 := rfl
    have htail := placements_tail_fits (show alignUp current + 0x1008000 < limit by omega)
    rw [Option.elim_none, htail, hcurrent] at hzero hlast
    rw [hzero, hlast]
    simp only [backBufferBytes, Option.elim_none, List.getLast?_cons_cons,
      List.getLast?_singleton, Option.some.injEq, List.mem_cons, List.not_mem_nil, or_false]
    omega
  | some size =>
    obtain ⟨hfits, hpool⟩ := placements_rest hcurrent (backBufferBytes (some size))
    exact ⟨(not_congr hzero).trans hfits, hlast.trans hpool⟩

/-- Requests of less than 4 GiB never make a sum wrap. -/
theorem foldl_request_stacked {sizes : List (BitVec 64)} (h : ∀ size ∈ sizes, size.toNat < 2 ^ 32) :
    Stacked 0x2000000 0x40000000
      (sizes.foldl request (PhysicalMemory.boot 0x2000000 0x40000000)) := by
  have hrun : Stacked 0x2000000 0x40000000
        (sizes.foldl request (PhysicalMemory.boot 0x2000000 0x40000000)) ∧
      (sizes.foldl request
        (PhysicalMemory.boot 0x2000000 0x40000000)).memory.currentAddress.toNat ≤ limit := by
    refine List.foldlRecOn (motive := fun heap => Stacked 0x2000000 0x40000000 heap ∧
      heap.memory.currentAddress.toNat ≤ limit) sizes request
      ⟨boot_stacked (by decide), by decide⟩ fun heap hheap size hsize => ?_
    obtain ⟨hstacked, hcur⟩ := hheap
    have hsize32 := h size hsize
    have hmax : heap.memory.maxAddress.toNat = limit := hstacked.limit
    have hround : alignUp heap.memory.currentAddress.toNat ≤ limit := by
      rw [← alignUp_of_mod (show limit % 16384 = 0 from rfl)]
      exact Nat.mul_le_mul_right _ (Nat.div_le_div_right (Nat.add_le_add_right hcur _))
    have hlimit : limit = 0x42000000 := rfl
    have hno : NoWrap heap size := by
      have hnext : nextBase heap = alignUp heap.memory.currentAddress.toNat := rfl
      refine ⟨?_, Or.inl ?_⟩
      · rw [hnext]
        omega
      · rw [hnext]
        omega
    refine ⟨request_stacked heap size hstacked hno, ?_⟩
    by_cases hfits : alignUp heap.memory.currentAddress.toNat + size.toNat < limit
    · have hgranted := allocate_fits (hmax.symm ▸ hfits)
      exact (le_of_eq hgranted.2.1).trans hfits.le
    · have hrefused := allocate_full
        (show alignUp heap.memory.currentAddress.toNat + size.toNat < 2 ^ 64 by omega) (by omega)
      exact (le_of_eq hrefused.2.1).trans hround
  exact hrun.1

/-- Whatever the boot loader reports, what kmain gets lies apart in the memory, and each byte of
it is mapped to itself, present and writable, by the tables of _start. -/
theorem boot_regions (disk : Bool) (framebuffer : Option (BitVec 32 × BitVec 32))
    (p4Table : BitVec 32) (h : Placed p4Table) (cpu : Cpu) (hblank : Blank p4Table cpu.mem) :
    let heap := (bootRequests disk framebuffer).foldl request
      (PhysicalMemory.boot 0x2000000 0x40000000)
    WellPlaced 0x2000000 0x40000000 heap ∧
      ∃ cpu', setupPaging p4Table 2048 cpu = some cpu' ∧ ∀ r ∈ heap.regions, ∀ v : BitVec 64,
        r.base.toNat ≤ v.toNat → v.toNat < r.end_ →
          walk cpu'.mem (p4Table.setWidth 64) v = some ⟨v, true⟩ := by
  intro heap
  have hplaced : WellPlaced 0x2000000 0x40000000 heap :=
    (foldl_request_stacked fun _ hsize => bootRequests_lt hsize).placed
  obtain ⟨cpu', hcpu', hfilled⟩ := filled_setupPaging h hblank (Nat.le_refl 2048)
  refine ⟨hplaced, cpu', hcpu', fun r hr v _ hv => walk_of_filled h hfilled ?_⟩
  have hinside := (hplaced.inside r hr).2
  have htop : (0x2000000 : BitVec 64).toNat + (0x40000000 : BitVec 64).toNat = 0x42000000 := rfl
  omega

/-- The framebuffer that the multiboot header asks for, and zeros for the tables: the regions lie
apart, and the last byte of the pool is mapped to itself. -/
theorem boot_regions_xga :
    WellPlaced 0x2000000 0x40000000 ((bootRequests true (some (768, 4096))).foldl request
      (PhysicalMemory.boot 0x2000000 0x40000000)) ∧
    ∃ cpu', setupPaging 0x106000 2048 ⟨0, 0, 0, fun _ => 0⟩ = some cpu' ∧
      walk cpu'.mem 0x106000 0x3313FFF = some ⟨0x3313FFF, true⟩ := by
  obtain ⟨hplaced, cpu', hrun, hmapped⟩ := boot_regions true (some (768, 4096)) 0x106000
    ⟨by decide, by decide⟩ ⟨0, 0, 0, fun _ => 0⟩ fun _ _ => rfl
  exact ⟨hplaced, cpu', hrun,
    hmapped ⟨0x2314000, 16384 * 1024⟩ (by decide) 0x3313FFF (by decide) (by decide)⟩

example : results kernelMemory (bootRequests true (some (768, 4096))) =
    [0x2000000, 0x2004000, 0x2008000, 0x200C000, 0x230C000, 0x2310000, 0x2314000] := by decide

end EmergenceOS.Boot.MemoryMap
