/- Module: EmergenceOS/Boot/Paging
   digest: The page tables of the start-up code map the first 4 GiB to themselves. -/

import EmergenceOS.Lib.BoundedLoop
import EmergenceOS.Lib.PageTable

/-!
The three tables lie one behind the other in zero-filled memory, so they are one row
of 3072 entries: 512 of level 4, 512 of level 3 and four times 512 of level 2.
-/

set_option autoImplicit false
set_option relaxedAutoImplicit false

namespace EmergenceOS.Boot.Paging

open EmergenceOS.Lib.Bytes EmergenceOS.Lib.WordMemory EmergenceOS.Lib.BoundedLoop
open EmergenceOS.Lib.PageTable

/-- The registers that the code uses, and the memory. -/
structure Cpu where
  eax : BitVec 32
  ecx : BitVec 32
  edx : BitVec 32
  mem : Mem

/-- mov %eax, (a) -/
def Cpu.store (s : Cpu) (a : BitVec 32) : Cpu :=
  { s with mem := write32 s.mem (a.setWidth 64) s.eax }

section
variable (p4Table : BitVec 32)

def p3Table : BitVec 32 := p4Table + 4096
def p2Table : BitVec 32 := p3Table p4Table + 4096

/-- The entry of p4_table. -/
def linkP3 (s : Cpu) : Cpu :=
  let s := { s with eax := p3Table p4Table }
  let s := { s with eax := s.eax ||| 3 }
  s.store p4Table

/-- The body of .fill_p3 up to the comparison. -/
def fillP3 (s : Cpu) : Cpu :=
  let s := { s with eax := p2Table p4Table }
  let s := { s with edx := s.ecx }
  let s := { s with edx := s.edx <<< 12 }
  let s := { s with eax := s.eax + s.edx }
  let s := { s with eax := s.eax ||| 3 }
  let s := s.store (p3Table p4Table + s.ecx * 8)
  { s with ecx := s.ecx + 1 }

/-- The body of .map_p2 up to the comparison. -/
def mapP2 (s : Cpu) : Cpu :=
  let s := { s with eax := 0x200000 }
  let s := { s with eax := s.eax * s.ecx }
  let s := { s with eax := s.eax ||| 0x83 }
  let s := s.store (p2Table p4Table + s.ecx * 8)
  { s with ecx := s.ecx + 1 }

/-- The paging setup of _start. -/
def setupPaging (fuel : Nat) (s : Cpu) : Option Cpu :=
  let s := linkP3 p4Table s
  (doWhile (fillP3 p4Table) (fun s => s.ecx != 4) fuel { s with ecx := 0 }).bind fun s =>
    doWhile (mapP2 p4Table) (fun s => s.ecx != 2048) fuel { s with ecx := 0 }

/-- The tables are aligned to a page and end below 4 GiB. -/
structure Placed : Prop where
  aligned : p4Table.toNat % 4096 = 0
  below : p4Table.toNat + 6 * 4096 ≤ 2 ^ 32

/-- Zero-filled memory for the tables. -/
def Blank (mem : Mem) : Prop :=
  ∀ k < 6 * 4096, mem (p4Table.setWidth 64 + BitVec.ofNat 64 k) = 0

/-- Entry j of the row after the link, a turns of the first loop and b turns of the second. -/
def expected (a b j : Nat) : BitVec 64 :=
  if j = 0 then pack (p4Table.toNat / 4096 + 1) 3
  else if 512 ≤ j ∧ j < 512 + a then pack (p4Table.toNat / 4096 + 2 + (j - 512)) 3
  else if 1024 ≤ j ∧ j < 1024 + b then pack (512 * (j - 1024)) 0x83
  else 0

def Filled (a b : Nat) (mem : Mem) : Prop :=
  ∀ j < 3072, entry mem (p4Table.setWidth 64) j = expected p4Table a b j

end

section
variable {p4Table : BitVec 32}

/-- A frame address with flags, computed in 32 bits. -/
theorem setWidth_or_flags {x flags : BitVec 32} {frame : Nat} (hx : x.toNat = 4096 * frame)
    (hflags : flags.toNat < 2 ^ 12) : (x ||| flags).setWidth 64 = pack frame flags.toNat := by
  apply BitVec.eq_of_toNat_eq
  have hlt := (x ||| flags).isLt
  have hsum : (x ||| flags).toNat = 2 ^ 12 * frame + flags.toNat := by
    rw [BitVec.toNat_or, hx, Nat.two_pow_add_eq_or_of_lt hflags]
  rw [hsum] at hlt
  rw [BitVec.toNat_setWidth, hsum, pack, BitVec.toNat_ofNat]

theorem Placed.toNat_tables (h : Placed p4Table) :
    (p3Table p4Table).toNat = p4Table.toNat + 4096 ∧
      (p2Table p4Table).toNat = p4Table.toNat + 2 * 4096 := by
  have hbelow := h.below
  have hpage : (4096 : BitVec 32).toNat = 4096 := rfl
  constructor
  · rw [p3Table, BitVec.toNat_add, hpage]
    omega
  · rw [p2Table, p3Table, BitVec.toNat_add, BitVec.toNat_add, hpage]
    omega

/-- A store to entry i of the row. -/
theorem Placed.entry_store (h : Placed p4Table) {s : Cpu} {a : BitVec 32} {i j : Nat}
    (ha : a.toNat = p4Table.toNat + 8 * i) (hi : i < 3072) (hj : j < 3072)
    (hzero : entry s.mem (p4Table.setWidth 64) i = 0) :
    entry (s.store a).mem (p4Table.setWidth 64) j =
      if j = i then s.eax.setWidth 64 else entry s.mem (p4Table.setWidth 64) j := by
  have hbelow := h.below
  have haddr : a.setWidth 64 = p4Table.setWidth 64 + BitVec.ofNat 64 (8 * i) := by
    apply BitVec.eq_of_toNat_eq
    rw [BitVec.toNat_add, BitVec.toNat_setWidth, BitVec.toNat_setWidth, BitVec.toNat_ofNat, ha]
    omega
  rw [Cpu.store, haddr]
  exact entry_write32 (n := 3072) (by decide) hi hj _ hzero

theorem Blank.entry_eq {mem : Mem} (h : Blank p4Table mem) {j : Nat} (hj : j < 3072) :
    entry mem (p4Table.setWidth 64) j = 0 := by
  rw [entry, read64, ofBytes_eq_zero_iff _ (by decide)]
  intro k hk
  rw [BitVec.add_assoc, ← BitVec.ofNat_add]
  exact h _ (by omega)

theorem filled_linkP3 (h : Placed p4Table) {s : Cpu} (hblank : Blank p4Table s.mem) :
    Filled p4Table 0 0 (linkP3 p4Table s).mem := by
  intro j hj
  have haligned := h.aligned
  have hzero := hblank.entry_eq (j := 0) (by decide)
  have hlink : (p3Table p4Table ||| 3).setWidth 64 = pack (p4Table.toNat / 4096 + 1) 3 :=
    setWidth_or_flags (by rw [h.toNat_tables.1]; omega) (by decide)
  have hstore := h.entry_store (s := { s with eax := p3Table p4Table ||| 3 }) (i := 0) rfl
    (by decide) hj hzero
  unfold expected
  rw [if_neg (c := 512 ≤ j ∧ j < 512 + 0) (by omega),
    if_neg (c := 1024 ≤ j ∧ j < 1024 + 0) (by omega), ← hlink, ← hblank.entry_eq hj]
  exact hstore

theorem expected_fill {a : Nat} (ha : a < 4) (j : Nat) : expected p4Table (a + 1) 0 j =
    if j = 512 + a then pack (p4Table.toNat / 4096 + 2 + a) 3 else expected p4Table a 0 j := by
  unfold expected
  by_cases hj : j = 512 + a
  · subst hj
    rw [if_neg (by omega), if_pos (by omega), if_pos rfl, Nat.add_sub_cancel_left]
  · have hrow : (512 ≤ j ∧ j < 512 + (a + 1)) ↔ 512 ≤ j ∧ j < 512 + a := by omega
    simp only [hrow, if_neg hj]

theorem expected_map {b : Nat} (hb : b < 2048) (j : Nat) : expected p4Table 4 (b + 1) j =
    if j = 1024 + b then pack (512 * b) 0x83 else expected p4Table 4 b j := by
  unfold expected
  by_cases hj : j = 1024 + b
  · subst hj
    rw [if_neg (by omega), if_neg (by omega), if_pos (by omega), if_pos rfl,
      Nat.add_sub_cancel_left]
  · have hrow : (1024 ≤ j ∧ j < 1024 + (b + 1)) ↔ 1024 ≤ j ∧ j < 1024 + b := by omega
    simp only [hrow, if_neg hj]

theorem filled_fillP3 (h : Placed p4Table) {s : Cpu} {a : Nat} (ha : a < 4)
    (hecx : s.ecx.toNat = a) (hfilled : Filled p4Table a 0 s.mem) :
    (fillP3 p4Table s).ecx.toNat = a + 1 ∧ Filled p4Table (a + 1) 0 (fillP3 p4Table s).mem := by
  have hone : (1 : BitVec 32).toNat = 1 := rfl
  have height : (8 : BitVec 32).toNat = 8 := rfl
  have hbelow := h.below
  have haligned := h.aligned
  obtain ⟨hp3, hp2⟩ := h.toNat_tables
  constructor
  · change (s.ecx + 1).toNat = a + 1
    rw [BitVec.toNat_add, hecx, hone]
    omega
  · intro j hj
    have hzero : entry s.mem (p4Table.setWidth 64) (512 + a) = 0 := by
      rw [hfilled _ (by omega)]
      unfold expected
      rw [if_neg (by omega), if_neg (by omega), if_neg (by omega)]
    have haddr : (p3Table p4Table + s.ecx * 8).toNat = p4Table.toNat + 8 * (512 + a) := by
      rw [BitVec.toNat_add, BitVec.toNat_mul, hp3, hecx, height]
      omega
    have hlink : (p2Table p4Table + s.ecx <<< 12 ||| 3).setWidth 64 =
        pack (p4Table.toNat / 4096 + 2 + a) 3 := by
      refine setWidth_or_flags ?_ (by decide)
      rw [BitVec.toNat_add, BitVec.toNat_shiftLeft, Nat.shiftLeft_eq, hp2, hecx]
      omega
    rw [expected_fill ha, ← hfilled j hj, ← hlink]
    exact h.entry_store haddr (by omega) hj hzero

theorem filled_mapP2 (h : Placed p4Table) {s : Cpu} {b : Nat} (hb : b < 2048)
    (hecx : s.ecx.toNat = b) (hfilled : Filled p4Table 4 b s.mem) :
    (mapP2 p4Table s).ecx.toNat = b + 1 ∧ Filled p4Table 4 (b + 1) (mapP2 p4Table s).mem := by
  have hone : (1 : BitVec 32).toNat = 1 := rfl
  have height : (8 : BitVec 32).toNat = 8 := rfl
  have hmega : (0x200000 : BitVec 32).toNat = 0x200000 := rfl
  have hbelow := h.below
  constructor
  · change (s.ecx + 1).toNat = b + 1
    rw [BitVec.toNat_add, hecx, hone]
    omega
  · intro j hj
    have hzero : entry s.mem (p4Table.setWidth 64) (1024 + b) = 0 := by
      rw [hfilled _ (by omega)]
      unfold expected
      rw [if_neg (by omega), if_neg (by omega), if_neg (by omega)]
    have haddr : (p2Table p4Table + s.ecx * 8).toNat = p4Table.toNat + 8 * (1024 + b) := by
      rw [BitVec.toNat_add, BitVec.toNat_mul, h.toNat_tables.2, hecx, height]
      omega
    have hpage : (0x200000 * s.ecx ||| 0x83).setWidth 64 = pack (512 * b) 0x83 := by
      refine setWidth_or_flags ?_ (by decide)
      rw [BitVec.toNat_mul, hecx, hmega]
      omega
    rw [expected_map hb, ← hfilled j hj, ← hpage]
    exact h.entry_store haddr (by omega) hj hzero

/-- Both loops end, and leave the tables as expected. -/
theorem filled_setupPaging (h : Placed p4Table) {s : Cpu} (hblank : Blank p4Table s.mem)
    {fuel : Nat} (hfuel : 2048 ≤ fuel) :
    ∃ s', setupPaging p4Table fuel s = some s' ∧ Filled p4Table 4 2048 s'.mem := by
  have hcount (k n : Nat) (x : BitVec 32) (hx : x.toNat = k) (hk : k ≤ n) (hn : n < 2 ^ 32) :
      (x != BitVec.ofNat 32 n) = true ↔ k < n := by
    rw [bne_iff_ne, ne_eq, ← BitVec.toNat_inj, hx, BitVec.toNat_ofNat, Nat.mod_eq_of_lt hn]
    omega
  have hstart : ({ linkP3 p4Table s with ecx := 0 } : Cpu).ecx.toNat = 0 ∧
      Filled p4Table 0 0 (linkP3 p4Table s).mem := ⟨rfl, filled_linkP3 h hblank⟩
  have hfill : ∃ t, doWhile (fillP3 p4Table) (fun s => s.ecx != 4) fuel
      { linkP3 p4Table s with ecx := 0 } = some t ∧
        t.ecx.toNat = 4 ∧ Filled p4Table 4 0 t.mem := by
    refine doWhile_rule (fun (k : Nat) (s : Cpu) => s.ecx.toNat = k ∧ Filled p4Table k 0 s.mem)
      (k := 0) (n := 4) hstart (by decide) (by omega) ?_ ?_
    · exact fun s k hk hs => filled_fillP3 h hk hs.1 hs.2
    · exact fun s k hk hs => hcount k 4 s.ecx hs.1 hk (by decide)
  obtain ⟨t, ht, -, htfilled⟩ := hfill
  have hmid : ({ t with ecx := 0 } : Cpu).ecx.toNat = 0 ∧ Filled p4Table 4 0 t.mem :=
    ⟨rfl, htfilled⟩
  have hmap : ∃ s', doWhile (mapP2 p4Table) (fun s => s.ecx != 2048) fuel
      { t with ecx := 0 } = some s' ∧ s'.ecx.toNat = 2048 ∧ Filled p4Table 4 2048 s'.mem := by
    refine doWhile_rule (fun (k : Nat) (s : Cpu) => s.ecx.toNat = k ∧ Filled p4Table 4 k s.mem)
      (k := 0) (n := 2048) hmid (by decide) (by omega) ?_ ?_
    · exact fun s k hk hs => filled_mapP2 h hk hs.1 hs.2
    · exact fun s k hk hs => hcount k 2048 s.ecx hs.1 hk (by decide)
  obtain ⟨s', hs', -, hfilled⟩ := hmap
  refine ⟨s', ?_, hfilled⟩
  rw [setupPaging, ht, Option.bind_some]
  exact hs'

/-- The table k pages behind the first one is a part of the row. -/
theorem entry_row (h : Placed p4Table) (mem : Mem) (k i : Nat) :
    entry mem (pack (p4Table.toNat / 4096 + k) 0) i =
      entry mem (p4Table.setWidth 64) (512 * k + i) := by
  have haligned := h.aligned
  unfold entry
  congr 1
  apply BitVec.eq_of_toNat_eq
  rw [pack, BitVec.toNat_add, BitVec.toNat_add, BitVec.toNat_setWidth, BitVec.toNat_ofNat,
    BitVec.toNat_ofNat, BitVec.toNat_ofNat]
  omega

/-- The walk through the three levels finds the 2 MiB page of the address. -/
theorem walk_of_filled (h : Placed p4Table) {mem : Mem} (hfilled : Filled p4Table 4 2048 mem)
    {v : BitVec 64} (hv : v.toNat < 2 ^ 32) :
    walk mem (p4Table.setWidth 64) v = some ⟨v, true⟩ := by
  have hbelow := h.below
  have h4 : entry mem (p4Table.setWidth 64) (v.toNat / 2 ^ (12 + 9 * 3) % 512) =
      pack (p4Table.toNat / 4096 + 1) 3 := by
    rw [show v.toNat / 2 ^ (12 + 9 * 3) % 512 = 0 by omega, hfilled 0 (by decide)]
    exact if_pos rfl
  have h3 : entry mem (pack (p4Table.toNat / 4096 + 1) 0) (v.toNat / 2 ^ (12 + 9 * 2) % 512) =
      pack (p4Table.toNat / 4096 + 2 + v.toNat / 2 ^ 30) 3 := by
    rw [entry_row h, hfilled _ (by omega)]
    unfold expected
    rw [if_neg (by omega), if_pos (by omega)]
    exact congrArg (pack · 3) (by omega)
  have h2 : entry mem (pack (p4Table.toNat / 4096 + 2 + v.toNat / 2 ^ 30) 0)
      (v.toNat / 2 ^ 21 % 512) = pack (512 * (v.toNat / 2 ^ 21)) 0x83 := by
    rw [Nat.add_assoc, entry_row h, hfilled _ (by omega)]
    unfold expected
    rw [if_neg (by omega), if_neg (by omega), if_pos (by omega)]
    exact congrArg (pack · 0x83) (by omega)
  rw [walk, walkFrom_next h4 (by decide) (by omega) (by decide) (by decide) (by decide),
    walkFrom_next h3 (by decide) (by omega) (by decide) (by decide) (by decide),
    walkFrom_large h2 (by omega) (by decide) (by decide) (by decide), Nat.div_add_mod,
    BitVec.ofNat_toNat, BitVec.setWidth_eq]
  rfl

theorem walk_beyond (h : Placed p4Table) {mem : Mem} (hfilled : Filled p4Table 4 2048 mem)
    {v : BitVec 64} (hlow : 2 ^ 32 ≤ v.toNat) (hhigh : v.toNat < 2 ^ 47) :
    walk mem (p4Table.setWidth 64) v = none := by
  have hbelow := h.below
  by_cases hfirst : v.toNat < 2 ^ 39
  · have h4 : entry mem (p4Table.setWidth 64) (v.toNat / 2 ^ (12 + 9 * 3) % 512) =
        pack (p4Table.toNat / 4096 + 1) 3 := by
      rw [show v.toNat / 2 ^ (12 + 9 * 3) % 512 = 0 by omega, hfilled 0 (by decide)]
      exact if_pos rfl
    rw [walk, walkFrom_next h4 (by decide) (by omega) (by decide) (by decide) (by decide)]
    apply walkFrom_absent
    rw [entry_row h, hfilled _ (by omega)]
    unfold expected
    rw [if_neg (by omega), if_neg (by omega), if_neg (by omega)]
  · apply walkFrom_absent
    rw [hfilled _ (by omega)]
    unfold expected
    rw [if_neg (by omega), if_neg (by omega), if_neg (by omega)]

end

/-- The setup ends, and then the first 4 GiB are mapped to themselves, present and writable at
every level, and nothing else of the lower half is mapped. -/
theorem setupPaging_identity (p4Table : BitVec 32) (h : Placed p4Table) (s : Cpu)
    (hblank : Blank p4Table s.mem) (fuel : Nat) (hfuel : 2048 ≤ fuel) :
    ∃ s', setupPaging p4Table fuel s = some s' ∧
      (∀ v : BitVec 64, v.toNat < 2 ^ 32 →
        walk s'.mem (p4Table.setWidth 64) v = some ⟨v, true⟩) ∧
      ∀ v : BitVec 64, 2 ^ 32 ≤ v.toNat → v.toNat < 2 ^ 47 →
        walk s'.mem (p4Table.setWidth 64) v = none := by
  obtain ⟨s', hs', hfilled⟩ := filled_setupPaging h hblank hfuel
  exact ⟨s', hs', fun v hv => walk_of_filled h hfilled hv,
    fun v hlow hhigh => walk_beyond h hfilled hlow hhigh⟩

/-- Tables from 1 MiB and six pages on, in memory of zeros. -/
theorem setupPaging_identity_zeros :
    ∃ s', setupPaging 0x106000 2048 ⟨0, 0, 0, fun _ => 0⟩ = some s' ∧
    walk s'.mem 0x106000 0xFEE00020 = some ⟨0xFEE00020, true⟩ ∧
      walk s'.mem 0x106000 0x100000000 = none := by
  obtain ⟨s', hs', hlow, hhigh⟩ := setupPaging_identity 0x106000 ⟨by decide, by decide⟩
    ⟨0, 0, 0, fun _ => 0⟩ (fun _ _ => rfl) 2048 (by decide)
  exact ⟨s', hs', hlow 0xFEE00020 (by decide), hhigh 0x100000000 (by decide) (by decide)⟩

end EmergenceOS.Boot.Paging
