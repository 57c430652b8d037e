import Mathlib.Tactic

/-! Buffers as functions from indices: what a copy into a buffer does to the bytes that are read
from it. -/

namespace BlockOS.Buffer
open List

variable {α : Type*}

def slice (b : Nat → α) (i n : Nat) : List α := (List.range n).map fun k => b (i + k)

def blit (b : Nat → α) (i : Nat) (data : List α) : Nat → α := fun j =>
  if i ≤ j then data[j - i]?.getD (b j) else b j

@[simp] theorem length_slice (b : Nat → α) (i n : Nat) : (slice b i n).length = n := by simp [slice]

@[simp] theorem slice_zero (b : Nat → α) (i : Nat) : slice b i 0 = [] := rfl

theorem slice_add (b : Nat → α) (i m n : Nat) :
    slice b i (m + n) = slice b i m ++ slice b (i + m) n := by
  simp [slice, range_add, Nat.add_assoc]

theorem slice_congr {b b' : Nat → α} (h : ∀ j, i ≤ j → j < i + n → b j = b' j) :
    slice b i n = slice b' i n := by
  apply map_congr_left
  intro k hk
  have := mem_range.mp hk
  exact h (i + k) (by omega) (by omega)

theorem slice_blit (b : Nat → α) (i : Nat) (data : List α) : slice (blit b i data) i data.length =
    data := by
  apply ext_getElem (by simp)
  intro k h1 h2
  simp [slice, blit, h2]

theorem slice_blit_of_le (b : Nat → α) (data : List α) (h : i + n ≤ j) :
    slice (blit b j data) i n = slice b i n :=
  slice_congr fun k _ h2 => if_neg (by omega)

theorem slice_blit_of_ge (b : Nat → α) (data : List α) (h : j + data.length ≤ i) :
    slice (blit b j data) i n = slice b i n := by
  apply slice_congr
  intro k h1 _
  unfold blit
  rw [if_pos (by omega), getElem?_eq_none (by omega)]
  rfl

theorem slice_blit_append (b : Nat → α) (i n : Nat) (data : List α) :
    slice (blit b (i + n) data) i (n + data.length) = slice b i n ++ data := by
  rw [slice_add, slice_blit, slice_blit_of_le b data (Nat.le_refl _)]

end BlockOS.Buffer
