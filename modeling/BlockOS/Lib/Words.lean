import Mathlib.Tactic

/-! Machine words. -/

namespace BlockOS.Words
open BitVec Nat

abbrev Word := BitVec 64
abbrev Byte := BitVec 8

theorem toNat_lt (x : Word) : x.toNat < 18446744073709551616 := x.isLt

theorem toNat_add_of_lt {x y : Word} (h : x.toNat + y.toNat < 18446744073709551616) :
    (x + y).toNat = x.toNat + y.toNat := by
  rw [toNat_add]
  exact mod_eq_of_lt h

theorem toNat_sub_of_le {x y : Word} (h : y.toNat ≤ x.toNat) : (x - y).toNat = x.toNat - y.toNat := by
  have := toNat_lt x
  rw [toNat_sub]
  omega

theorem eq_of_toNat {x y : Word} (h : x.toNat = y.toNat) : x = y := eq_of_toNat_eq h

theorem toNat_ofNat_of_lt (h : n < 18446744073709551616) : (BitVec.ofNat 64 n).toNat = n := by
  rw [toNat_ofNat]
  exact mod_eq_of_lt h

theorem and_sub_one_eq_zero_iff (x : Word) (hx : x ≠ 0) : x &&& (x - 1) = 0 ↔ ∃ k, k < 64 ∧
    x.toNat = 2 ^ k := by
  have hpos : x.toNat ≠ 0 := fun h => hx (eq_of_toNat h)
  have hs : (x - 1).toNat = x.toNat - 1 := toNat_sub_of_le (by simp; omega)
  have hn : x &&& (x - 1) = 0 ↔ x.toNat &&& (x.toNat - 1) = 0 := by
    rw [← hs, ← BitVec.toNat_and]
    exact ⟨fun h => by rw [h]; rfl, fun h => eq_of_toNat h⟩
  rw [hn, Nat.and_sub_one_eq_zero_iff_isPowerOfTwo hpos]
  constructor
  · rintro ⟨k, hk⟩
    refine ⟨k, ?_, hk⟩
    have := toNat_lt x
    exact (Nat.pow_lt_pow_iff_right (by decide : 1 < 2)).mp (by omega)
  · rintro ⟨k, _, hk⟩
    exact ⟨k, hk⟩

theorem toNat_and_not_mask (x a : Word) (k : Nat) (hk : k < 64) (ha : a.toNat = 2 ^ k) :
    (x &&& ~~~(a - 1)).toNat = x.toNat / 2 ^ k * 2 ^ k := by
  have hs : (a - 1).toNat = 2 ^ k - 1 := by
    rw [toNat_sub_of_le (by simp [ha, Nat.one_le_two_pow]), ha]; rfl
  apply Nat.eq_of_testBit_eq
  intro i
  have hm : (~~~(a - 1)).toNat.testBit i = (decide (i < 64) && !decide (i < k)) := by
    rw [BitVec.testBit_toNat, BitVec.getLsbD_not, ← BitVec.testBit_toNat, hs,
      Nat.testBit_two_pow_sub_one]
  rw [BitVec.toNat_and, Nat.testBit_and, hm, ← Nat.shiftLeft_eq, ← Nat.shiftRight_eq_div_pow,
    Nat.testBit_shiftLeft, Nat.testBit_shiftRight]
  by_cases hi : i < 64
  · by_cases hik : i < k
    · simp [hi, hik]
    · simp [hi, show k + (i - k) = i by omega, Nat.le_of_not_lt hik]
  · have hx : x.toNat.testBit i = false := BitVec.testBit_toNat x ▸ BitVec.getLsbD_of_ge x i (by omega)
    simp [hi, show k + (i - k) = i by omega, hx]

def ceilTo (a n : Nat) : Nat := (n + (a - 1)) / a * a

theorem dvd_ceilTo (a n : Nat) : a ∣ ceilTo a n := Dvd.intro_left _ rfl

theorem le_ceilTo (ha : 0 < a) (n : Nat) : n ≤ ceilTo a n := by
  unfold ceilTo
  have := div_add_mod (n + (a - 1)) a
  have := mod_lt (n + (a - 1)) ha
  rw [mul_comm]
  omega

theorem ceilTo_lt (ha : 0 < a) (n : Nat) : ceilTo a n < n + a := by
  have := div_mul_le_self (n + (a - 1)) a
  unfold ceilTo
  omega

theorem ceilTo_of_dvd (ha : 0 < a) (h : a ∣ n) : ceilTo a n = n := by
  obtain ⟨q, rfl⟩ := h
  unfold ceilTo
  rw [mul_add_div ha, div_eq_of_lt (by omega), add_zero, mul_comm]

theorem ceilTo_le_of_dvd (ha : 0 < a) (hm : a ∣ m) (h : n ≤ m) : ceilTo a n ≤ m := by
  calc ceilTo a n ≤ ceilTo a m := Nat.mul_le_mul_right a (Nat.div_le_div_right (by omega))
    _ = m := ceilTo_of_dvd ha hm

end BlockOS.Words
