/- Module: EmergenceOS/Lib/WordMemory
   digest: 64-bit words in byte memory with wrapping addresses, and stacks of such words. -/

import EmergenceOS.Lib.Bytes

set_option autoImplicit false
set_option relaxedAutoImplicit false

namespace EmergenceOS.Lib.WordMemory

open EmergenceOS.Lib.Bytes

abbrev Addr := BitVec 64

/-- Memory that answers at every address. -/
abbrev Mem := Addr → Byte

def read64 (m : Mem) (a : Addr) : BitVec 64 :=
  ofBytes 64 (fun i => m (a + BitVec.ofNat 64 i)) 8

def write64 (m : Mem) (a : Addr) (w : BitVec 64) : Mem :=
  fun x => if (x - a).toNat < 8 then byteAt w (x - a).toNat else m x

theorem toNat_add_sub (a b : Addr) (i : Nat) :
    (a + BitVec.ofNat 64 i - b).toNat = ((a - b).toNat + i) % 2 ^ 64 := by
  simp only [BitVec.toNat_sub, BitVec.toNat_add, BitVec.toNat_ofNat]
  omega

theorem toNat_add_sub_self (a : Addr) {i : Nat} (hi : i < 2 ^ 64) :
    (a + BitVec.ofNat 64 i - a).toNat = i := by
  rw [toNat_add_sub, BitVec.sub_self]
  simp only [BitVec.toNat_zero]
  omega

theorem toNat_add_sub_add (a : Addr) (i j : Nat) :
    (a + BitVec.ofNat 64 i - (a + BitVec.ofNat 64 j)).toNat =
      (i + (2 ^ 64 - j % 2 ^ 64)) % 2 ^ 64 := by
  simp only [BitVec.toNat_sub, BitVec.toNat_add, BitVec.toNat_ofNat]
  omega

theorem write64_outside (m : Mem) {a x : Addr} (w : BitVec 64) (h : 8 ≤ (x - a).toNat) :
    write64 m a w x = m x :=
  if_neg (by omega)

theorem read64_congr {m m' : Mem} {a a' : Addr}
    (h : ∀ i < 8, m (a + BitVec.ofNat 64 i) = m' (a' + BitVec.ofNat 64 i)) :
    read64 m a = read64 m' a' :=
  ofBytes_congr 64 8 h

theorem read64_write64_self (m : Mem) (a : Addr) (w : BitVec 64) :
    read64 (write64 m a w) a = w := by
  rw [← ofBytes_byteAt (m := 8) w rfl, read64]
  apply ofBytes_congr
  intro i hi
  rw [write64, toNat_add_sub_self a (by omega), if_pos hi, ofBytes_byteAt (m := 8) w rfl]

theorem read64_write64_of_disjoint (m : Mem) {a b : Addr} (w : BitVec 64)
    (hlo : 8 ≤ (b - a).toNat) (hhi : (b - a).toNat + 8 ≤ 2 ^ 64) :
    read64 (write64 m a w) b = read64 m b := by
  apply read64_congr
  intro i hi
  apply write64_outside
  rw [toNat_add_sub]
  omega

/-- The words that lie one above the other from an address on. -/
def Words (m : Mem) (base : Addr) (ws : List (BitVec 64)) : Prop :=
  ∀ i w, ws[i]? = some w → read64 m (base + BitVec.ofNat 64 (8 * i)) = w

section Words
variable {m m' : Mem} {base : Addr} {w : BitVec 64} {ws : List (BitVec 64)}

theorem words_nil (m : Mem) (base : Addr) : Words m base [] :=
  fun _ _ h => by simp at h

theorem Words.read (h : Words m base ws) {i : Nat} (hi : ws[i]? = some w) :
    read64 m (base + BitVec.ofNat 64 (8 * i)) = w :=
  h i w hi

theorem Words.head (h : Words m base (w :: ws)) : read64 m base = w := by
  simpa using h.read (i := 0) rfl

theorem Words.tail (h : Words m base (w :: ws)) : Words m (base + 8) ws := by
  intro i w' hi
  have hread := h.read (i := i + 1) (by simpa using hi)
  rw [Nat.mul_succ, Nat.add_comm (8 * i), BitVec.ofNat_add, ← BitVec.add_assoc] at hread
  exact hread

theorem Words.push (h : Words m base ws) (hlen : 8 * (ws.length + 1) ≤ 2 ^ 64) (w : BitVec 64) :
    Words (write64 m (base - 8) w) (base - 8) (w :: ws) := by
  intro i w' hi
  cases i with
  | zero =>
    obtain rfl : w = w' := by simpa using hi
    simpa using read64_write64_self m (base - 8) w
  | succ i =>
    rw [List.getElem?_cons_succ] at hi
    have hlt := (List.getElem?_eq_some_iff.mp hi).1
    rw [read64_write64_of_disjoint _ _ (by rw [toNat_add_sub_self _ (by omega)]; omega)
      (by rw [toNat_add_sub_self _ (by omega)]; omega)]
    rw [Nat.mul_succ, Nat.add_comm (8 * i), BitVec.ofNat_add, ← BitVec.add_assoc,
      show base - 8 + BitVec.ofNat 64 8 = base from BitVec.sub_add_cancel base 8]
    exact h.read hi

theorem Words.set (h : Words m base ws) (hlen : 8 * ws.length ≤ 2 ^ 64) {i : Nat}
    (hi : i < ws.length) (w : BitVec 64) :
    Words (write64 m (base + BitVec.ofNat 64 (8 * i)) w) base (ws.set i w) := by
  intro j w' hj
  rw [List.getElem?_set] at hj
  by_cases hij : i = j
  · subst j
    rw [if_pos rfl, if_pos hi] at hj
    obtain rfl : w = w' := by simpa using hj
    exact read64_write64_self m _ w
  · rw [if_neg hij] at hj
    have hlt := (List.getElem?_eq_some_iff.mp hj).1
    have hsub := toNat_add_sub_add base (8 * j) (8 * i)
    rw [← h.read hj]
    exact read64_write64_of_disjoint _ _ (by rw [hsub]; omega) (by rw [hsub]; omega)

/-- Only the bytes of the words matter. -/
theorem Words.congr (h : Words m base ws)
    (hm : ∀ k < 8 * ws.length, m' (base + BitVec.ofNat 64 k) = m (base + BitVec.ofNat 64 k)) :
    Words m' base ws := by
  intro i w hi
  have hlt := (List.getElem?_eq_some_iff.mp hi).1
  rw [← h.read hi]
  apply read64_congr
  intro k hk
  rw [BitVec.add_assoc, ← BitVec.ofNat_add]
  exact hm _ (by omega)

end Words

end EmergenceOS.Lib.WordMemory
