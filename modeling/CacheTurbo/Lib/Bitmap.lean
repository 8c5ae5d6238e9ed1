/-
# Packed bit maps

A list of bytes as a map from indices to bits: index `i` is bit `i % 8` of byte
`i / 8`, as in `bits[i >> 3] |= 1 << (i & 7)`.  A map is known by what `get`
reads of it, and `get_set` says what one `set` changes.
-/

import Mathlib.Data.List.GetD
import Mathlib.Data.Nat.Bitwise
import Mathlib.Tactic.Common

namespace CacheTurbo
namespace Bitmap

/-- A map with room for `n` bits, all of them clear. -/
def empty (n : ℕ) : List UInt8 := List.replicate ((n + 7) / 8) 0

/-- Sets the bit of index `i`. -/
def set (bits : List UInt8) (i : ℕ) : List UInt8 :=
  bits.modify (i / 8) fun b => b ||| 1 <<< (i % 8).toUInt8

/-- The bit of index `i`. -/
def get (bits : List UInt8) (i : ℕ) : Bool :=
  (bits.getD (i / 8) 0 >>> (i % 8).toUInt8) &&& 1 == 1

/-- A bit number of a byte, as the shift count. -/
theorem toNat_shiftCount {k : ℕ} (hk : k < 8) : (k.toUInt8).toNat % 8 = k := by
  rw [Nat.toUInt8_eq, UInt8.toNat_ofNat']
  omega

/-- A shift and a mask read one bit of a byte. -/
theorem byte_testBit (b : UInt8) {k : ℕ} (hk : k < 8) :
    ((b >>> k.toUInt8) &&& 1 == 1) = b.toNat.testBit k := by
  have hword : ((b >>> k.toUInt8) &&& 1).toNat = (b.toNat >>> k) % 2 := by
    rw [UInt8.toNat_and, UInt8.toNat_shiftRight, toNat_shiftCount hk]
    exact Nat.and_one_is_mod _
  have hone : ((b >>> k.toUInt8) &&& 1 = 1) ↔ (b.toNat >>> k) % 2 = 1 := by
    rw [← UInt8.toNat_inj, hword]
    exact Iff.rfl
  rw [Nat.testBit, Nat.one_and_eq_mod_two]
  rcases Nat.mod_two_eq_zero_or_one (b.toNat >>> k) with hbit | hbit
  · have hne : ¬ ((b >>> k.toUInt8) &&& 1 = 1) := fun h => by
      rw [hone, hbit] at h
      cases h
    rw [hbit]
    exact beq_eq_false_iff_ne.2 hne
  · rw [hbit]
    exact beq_iff_eq.2 (hone.2 hbit)

theorem get_eq_testBit (bits : List UInt8) (i : ℕ) :
    get bits i = (bits.getD (i / 8) 0).toNat.testBit (i % 8) :=
  byte_testBit _ (Nat.mod_lt _ (by decide))

/-- Or-ing one bit into a byte adds that bit. -/
theorem testBit_or_bit (b : UInt8) {k : ℕ} (hk : k < 8) (j : ℕ) :
    (b ||| 1 <<< k.toUInt8).toNat.testBit j = (b.toNat.testBit j || decide (k = j)) := by
  have hpow : 2 ^ k < 2 ^ 8 := Nat.pow_lt_pow_right (by decide) hk
  have hbit : (1 <<< k.toUInt8 : UInt8).toNat = 2 ^ k := by
    rw [UInt8.toNat_shiftLeft, toNat_shiftCount hk, UInt8.toNat_one, Nat.one_shiftLeft,
      Nat.mod_eq_of_lt hpow]
  rw [UInt8.toNat_or, Nat.testBit_or, hbit, Nat.testBit_two_pow]

theorem length_set (bits : List UInt8) (i : ℕ) : (set bits i).length = bits.length :=
  List.length_modify ..

theorem get_empty (n i : ℕ) : get (empty n) i = false := by
  have hzero : (empty n).getD (i / 8) 0 = 0 := by
    rw [empty]
    by_cases hi : i / 8 < (n + 7) / 8
    · rw [List.getD_replicate _ hi]
    · exact List.getD_eq_default _ _ (by rw [List.length_replicate]; omega)
  rw [get_eq_testBit, hzero]
  exact Nat.zero_testBit _

/-- **Setting a bit changes that bit and no other.** -/
theorem get_set {bits : List UInt8} {i : ℕ} (hi : i / 8 < bits.length) (j : ℕ) :
    get (set bits i) j = (get bits j || decide (i = j)) := by
  rw [get_eq_testBit, get_eq_testBit, set]
  by_cases hbyte : i / 8 = j / 8
  · have hread : (bits.modify (i / 8) fun b => b ||| 1 <<< (i % 8).toUInt8).getD (j / 8) 0 =
        bits.getD (j / 8) 0 ||| 1 <<< (i % 8).toUInt8 := by
      rw [← hbyte, List.getD_eq_getElem _ _ (by rw [List.length_modify]; exact hi),
        List.getElem_modify_eq, List.getD_eq_getElem _ _ hi]
    have hsame : decide (i % 8 = j % 8) = decide (i = j) := by
      refine decide_eq_decide.2 ?_
      omega
    rw [hread, testBit_or_bit _ (Nat.mod_lt _ (by decide)), hsame]
  · have hread : (bits.modify (i / 8) fun b => b ||| 1 <<< (i % 8).toUInt8).getD (j / 8) 0 =
        bits.getD (j / 8) 0 := by
      rw [List.getD_eq_getElem?_getD, List.getElem?_modify_ne _ _ hbyte, ← List.getD_eq_getElem?_getD]
    have hne : ¬ i = j := fun h => hbyte (by rw [h])
    rw [hread, decide_eq_false hne, Bool.or_false]

/-- The map has room for every index below its size. -/
theorem lt_length_empty {n i : ℕ} (h : i < n) : i / 8 < (empty n).length := by
  rw [empty, List.length_replicate]
  omega

end Bitmap
end CacheTurbo
