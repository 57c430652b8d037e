import Mathlib.Tactic

/-! Sums with end-around carry. -/

namespace BlockOS.OnesComplement

def foldFor : Nat → Nat → Nat
  | 0, s => s
  | fuel + 1, s => if s >>> 16 = 0 then s else foldFor fuel ((s &&& 0xffff) + (s >>> 16))

def fold16 (s : Nat) : Nat := foldFor s s

theorem round_eq (s : Nat) : (s &&& 0xffff) + (s >>> 16) = s % 65536 + s / 65536 := by
  rw [show 0xffff = 2 ^ 16 - 1 from rfl, Nat.and_two_pow_sub_one_eq_mod, Nat.shiftRight_eq_div_pow]

theorem foldFor_spec (fuel s : Nat) (h : s ≤ fuel) :
    foldFor fuel s < 65536 ∧ foldFor fuel s % 65535 = s % 65535 ∧ (foldFor fuel s = 0 ↔ s = 0) := by
  induction fuel generalizing s with
  | zero =>
    obtain rfl : s = 0 := by omega
    exact ⟨by decide, rfl, Iff.rfl⟩
  | succ fuel ih =>
    unfold foldFor
    rw [round_eq, Nat.shiftRight_eq_div_pow]
    split
    · exact ⟨by omega, rfl, Iff.rfl⟩
    · obtain ⟨h1, h2, h3⟩ := ih (s % 65536 + s / 65536) (by omega)
      exact ⟨h1, by omega, by rw [h3]; omega⟩

theorem fold16_lt (s : Nat) : fold16 s < 65536 := (foldFor_spec s s (Nat.le_refl s)).1

theorem fold16_mod (s : Nat) : fold16 s % 65535 = s % 65535 :=
    (foldFor_spec s s (Nat.le_refl s)).2.1

theorem fold16_eq_zero (s : Nat) : fold16 s = 0 ↔ s = 0 := (foldFor_spec s s (Nat.le_refl s)).2.2

structure Folds (r t : Nat) : Prop where
  lt : r < 65536
  mod : r % 65535 = t % 65535
  zero : r = 0 ↔ t = 0

theorem folds_zero : Folds 0 0 := ⟨by decide, rfl, Iff.rfl⟩

theorem folds_fold16 (t : Nat) : Folds (fold16 t) t := ⟨fold16_lt t, fold16_mod t, fold16_eq_zero t⟩

theorem Folds.add (h : Folds r t) (v : Nat) : Folds (fold16 (r + v)) (t + v) := by
  have hmod := h.mod
  have hzero := h.zero
  refine ⟨fold16_lt _, ?_, ?_⟩
  · rw [fold16_mod]
    omega
  · rw [fold16_eq_zero]
    omega

theorem Folds.ones (h : Folds r t) (ht : 0 < t) : r = 65535 ↔ t % 65535 = 0 := by
  have hlt := h.lt
  have hmod := h.mod
  have hzero := h.zero
  omega

theorem Folds.complement (h : Folds r t) : (t + (65535 - r)) % 65535 = 0 := by
  have hlt := h.lt
  have hmod := h.mod
  omega

def swap16 (s : Nat) : Nat := s % 256 * 256 + s / 256

theorem add_swap_complement (h0 : 0 < s) (h : s < 65536) : (s + swap16 (65535 - s)) % 65535 = 0 ↔
    swap16 s = s := by
  have hs : swap16 (65535 - s) = 65535 - swap16 s := by
    unfold swap16
    omega
  have hb : 0 < swap16 s ∧ swap16 s < 65536 := by
    unfold swap16
    omega
  rw [hs]
  omega

end BlockOS.OnesComplement
