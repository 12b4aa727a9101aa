/- Module: EmergenceOS/Lib/PageTable
   digest: Rows of 64-bit table entries in memory, and the walk of four-level paging. -/

import EmergenceOS.Lib.WordMemory

/-!
An entry is a frame address, a multiple of 4096, with flags in the bits below. Where
the large flag is set above the last level, the frame is as large as what the entry
covers.
-/

set_option autoImplicit false
set_option relaxedAutoImplicit false

namespace EmergenceOS.Lib.PageTable

open EmergenceOS.Lib.Bytes EmergenceOS.Lib.WordMemory

def write32 (m : Mem) (a : Addr) (w : BitVec 32) : Mem :=
  fun x => if (x - a).toNat < 4 then byteAt w (x - a).toNat else m x

/-- Entry i of the row at an address. -/
def entry (m : Mem) (base : Addr) (i : Nat) : BitVec 64 := read64 m (base + BitVec.ofNat 64 (8 * i))

def present (e : BitVec 64) : Bool := e.getLsbD 0
def writable (e : BitVec 64) : Bool := e.getLsbD 1
def large (e : BitVec 64) : Bool := e.getLsbD 7

/-- The frame address: bits 12 to 51. -/
def target (e : BitVec 64) : Addr := e &&& 0x000FFFFFFFFFF000

structure Translation where
  phys : Addr
  /-- The writable flag was set at every level. -/
  writable : Bool
  deriving DecidableEq

/-- The walk through the tables of the given level and below. There is no large page at level 4. -/
def walkFrom (m : Mem) (v : BitVec 64) : Nat → Addr → Bool → Option Translation
  | 0, _, _ => none
  | level + 1, table, w =>
    let covered := 12 + 9 * level
    let e := entry m table (v.toNat / 2 ^ covered % 512)
    let w := w && writable e
    if !present e then none
    else if level = 0 then some ⟨target e + BitVec.ofNat 64 (v.toNat % 2 ^ covered), w⟩
    else if large e then
      if level = 3 then none
      else some ⟨(target e >>> covered <<< covered) + BitVec.ofNat 64 (v.toNat % 2 ^ covered), w⟩
    else walkFrom m v level (target e) w

/-- The four-level walk from the table that CR3 points to. -/
def walk (m : Mem) (p4 : Addr) (v : BitVec 64) : Option Translation := walkFrom m v 4 p4 true

/-- An entry with the given frame and flags. -/
def pack (frame flags : Nat) : BitVec 64 := BitVec.ofNat 64 (2 ^ 12 * frame + flags)

section
variable {frame flags : Nat}

theorem getLsbD_pack (hflags : flags < 2 ^ 12) {k : Nat} (hk : k < 64) :
    (pack frame flags).getLsbD k =
      if k < 12 then flags.testBit k else frame.testBit (k - 12) := by
  rw [pack, BitVec.getLsbD_ofNat, Nat.two_pow_add_eq_or_of_lt hflags, Nat.testBit_or,
    Nat.testBit_two_pow_mul, decide_eq_true hk, Bool.true_and]
  split
  · rename_i hlow
    simp [show ¬12 ≤ k by omega]
  · rename_i hhigh
    have hzero : flags.testBit k = false :=
      Nat.testBit_lt_two_pow (Nat.lt_of_lt_of_le hflags
        (Nat.pow_le_pow_right (by decide) (by omega)))
    simp [hzero, show 12 ≤ k by omega]

theorem present_pack (hflags : flags < 2 ^ 12) :
    present (pack frame flags) = flags.testBit 0 := getLsbD_pack hflags (by decide)

theorem writable_pack (hflags : flags < 2 ^ 12) :
    writable (pack frame flags) = flags.testBit 1 := getLsbD_pack hflags (by decide)

theorem large_pack (hflags : flags < 2 ^ 12) :
    large (pack frame flags) = flags.testBit 7 := getLsbD_pack hflags (by decide)

theorem target_pack (hframe : frame < 2 ^ 40) (hflags : flags < 2 ^ 12) :
    target (pack frame flags) = pack frame 0 := by
  have hmask : (0x000FFFFFFFFFF000 : BitVec 64) = pack (2 ^ 40 - 1) 0 := by decide
  apply BitVec.eq_of_getLsbD_eq
  intro k hk
  rw [target, hmask, BitVec.getLsbD_and, getLsbD_pack hflags hk, getLsbD_pack (by decide) hk,
    getLsbD_pack (by decide) hk, Nat.testBit_two_pow_sub_one]
  split
  · simp
  · by_cases hbit : k - 12 < 40
    · simp [hbit]
    · have hzero : frame.testBit (k - 12) = false :=
        Nat.testBit_lt_two_pow (Nat.lt_of_lt_of_le hframe
          (Nat.pow_le_pow_right (by decide) (by omega)))
      simp [hbit, hzero]

end

/-- What a walk does at an entry that is known. -/
theorem walkFrom_next {m : Mem} {v : BitVec 64} {level frame flags : Nat} {table : Addr} {w : Bool}
    (he : entry m table (v.toNat / 2 ^ (12 + 9 * level) % 512) = pack frame flags)
    (hlevel : level ≠ 0) (hframe : frame < 2 ^ 40) (hflags : flags < 2 ^ 12)
    (hpresent : flags.testBit 0 = true) (hsmall : flags.testBit 7 = false) :
    walkFrom m v (level + 1) table w =
      walkFrom m v level (pack frame 0) (w && flags.testBit 1) := by
  rw [walkFrom]
  simp only [he, present_pack hflags, hpresent, large_pack hflags, hsmall, writable_pack hflags,
    target_pack hframe hflags, if_neg hlevel]
  rfl

theorem walkFrom_absent {m : Mem} {v : BitVec 64} {level : Nat} {table : Addr} {w : Bool}
    (he : entry m table (v.toNat / 2 ^ (12 + 9 * level) % 512) = 0) :
    walkFrom m v (level + 1) table w = none := by
  rw [walkFrom]
  simp only [he]
  rfl

/-- A page of 2 MiB. -/
theorem walkFrom_large {m : Mem} {v : BitVec 64} {n flags : Nat} {table : Addr} {w : Bool}
    (he : entry m table (v.toNat / 2 ^ 21 % 512) = pack (512 * n) flags)
    (hn : n < 2 ^ 31) (hflags : flags < 2 ^ 12)
    (hpresent : flags.testBit 0 = true) (hlarge : flags.testBit 7 = true) :
    walkFrom m v 2 table w = some
      ⟨BitVec.ofNat 64 (2 ^ 21 * n + v.toNat % 2 ^ 21), w && flags.testBit 1⟩ := by
  have hbase : pack (512 * n) 0 >>> 21 <<< 21 = BitVec.ofNat 64 (2 ^ 21 * n) := by
    apply BitVec.eq_of_toNat_eq
    rw [BitVec.toNat_shiftLeft, BitVec.toNat_ushiftRight, pack, BitVec.toNat_ofNat,
      BitVec.toNat_ofNat, Nat.shiftLeft_eq, Nat.shiftRight_eq_div_pow]
    omega
  rw [walkFrom]
  simp only [he, present_pack hflags, hpresent, large_pack hflags, hlarge, writable_pack hflags,
    target_pack (show 512 * n < 2 ^ 40 by omega) hflags, hbase, ← BitVec.ofNat_add]
  rfl

section
variable {m : Mem} {base : Addr}

/-- A store to the lower half of an entry that was zero. -/
theorem read64_write32_self {a : Addr} (w : BitVec 32) (hzero : read64 m a = 0) :
    read64 (write32 m a w) a = w.setWidth 64 := by
  have hbytes := (ofBytes_eq_zero_iff (n := 64) (m := 8) _ (by decide)).mp hzero
  rw [← ofBytes_byteAt (m := 8) (w.setWidth 64) rfl, read64]
  apply ofBytes_congr
  intro i hi
  rw [write32, toNat_add_sub_self a (by omega)]
  apply BitVec.eq_of_getLsbD_eq
  intro k hk
  split
  · rename_i hlow
    rw [byteAt_getLsbD, byteAt_getLsbD, BitVec.getLsbD_setWidth]
    simp [show 8 * i + k < 64 by omega]
  · rename_i hhigh
    rw [hbytes i hi, byteAt_getLsbD, BitVec.getLsbD_setWidth, BitVec.getLsbD_of_ge w _ (by omega)]
    simp

theorem read64_write32_of_disjoint {a b : Addr} (w : BitVec 32) (hlo : 4 ≤ (b - a).toNat)
    (hhi : (b - a).toNat + 8 ≤ 2 ^ 64) : read64 (write32 m a w) b = read64 m b := by
  apply read64_congr
  intro i hi
  refine if_neg ?_
  rw [toNat_add_sub]
  omega

theorem entry_write32 {n i j : Nat} (hn : 8 * n ≤ 2 ^ 64) (hi : i < n) (hj : j < n)
    (w : BitVec 32) (hzero : entry m base i = 0) :
    entry (write32 m (base + BitVec.ofNat 64 (8 * i)) w) base j =
      if j = i then w.setWidth 64 else entry m base j := by
  split
  · rename_i hij
    subst hij
    exact read64_write32_self w hzero
  · rename_i hij
    have hsub := toNat_add_sub_add base (8 * j) (8 * i)
    exact read64_write32_of_disjoint w (by rw [hsub]; omega) (by rw [hsub]; omega)

end

end EmergenceOS.Lib.PageTable
