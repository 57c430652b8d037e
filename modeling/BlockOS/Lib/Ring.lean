import Mathlib.Tactic

/-! A circular buffer of `n` cells with a head and a size. -/

namespace BlockOS
open List Function

structure Ring (α : Type*) where
  cells : Nat → α
  head : Nat := 0
  size : Nat := 0

namespace Ring

variable {α : Type*} {n : Nat}

def store (n : Nat) : (Nat → α) → Nat → List α → Nat → α
  | cells, _, [] => cells
  | cells, p, x :: data => store n (update cells (p % n) x) (p + 1) data

def push (n : Nat) (r : Ring α) (data : List α) : Ring α :=
  { r with cells := store n r.cells (r.head + r.size) data, size := r.size + data.length }

def front (n : Nat) (r : Ring α) (k : Nat) : List α :=
  (List.range k).map fun i => r.cells ((r.head + i) % n)

def drop (n : Nat) (r : Ring α) (k : Nat) : Ring α :=
  { r with head := (r.head + k) % n, size := r.size - k }

def contents (n : Nat) (r : Ring α) : List α := r.front n r.size

@[simp] theorem length_front (r : Ring α) (k : Nat) : (r.front n k).length = k := by simp [front]

@[simp] theorem length_contents (r : Ring α) : (r.contents n).length = r.size := length_front r _

theorem mod_ne_of_lt (h : p < q) (hq : q < p + n) : p % n ≠ q % n := by
  intro heq
  have hdvd : n ∣ q - p := (Nat.modEq_iff_dvd' h.le).mp heq
  have := Nat.le_of_dvd (by omega) hdvd
  omega

theorem store_before (cells : Nat → α) (data : List α) (h : q < p)
    (hn : p + data.length ≤ q + n) : store n cells p data (q % n) = cells (q % n) := by
  induction data generalizing cells p with
  | nil => rfl
  | cons x data ih =>
    rw [length_cons] at hn
    rw [store, ih _ (by omega) (by omega)]
    exact update_of_ne (mod_ne_of_lt h (by omega)) ..

theorem store_at (cells : Nat → α) (p : Nat) (data : List α) (hn : data.length ≤ n) :
    (List.range data.length).map (fun i => store n cells p data ((p + i) % n)) = data := by
  induction data generalizing cells p with
  | nil => rfl
  | cons x data ih =>
    rw [length_cons] at hn
    rw [length_cons, range_succ_eq_map, map_cons, map_map]
    congr 1
    · have h0 := store_before (update cells (p % n) x) data (Nat.lt_succ_self p)
        (show p + 1 + data.length ≤ p + n by omega)
      exact h0.trans (update_self ..)
    have hrest := ih (update cells (p % n) x) (p + 1) (by omega)
    refine Eq.trans (map_congr_left fun i _ => ?_) hrest
    rw [Function.comp_apply, Nat.add_succ, ← Nat.succ_add]
    rfl

theorem contents_push (r : Ring α) (data : List α) (h : r.size + data.length ≤ n) :
    (r.push n data).contents n = r.contents n ++ data := by
  have hold : ∀ i ∈ List.range r.size,
      store n r.cells (r.head + r.size) data ((r.head + i) % n) = r.cells ((r.head + i) % n) := by
    intro i hi
    have := mem_range.mp hi
    exact store_before _ data (by omega) (by omega)
  have hnew := store_at (n := n) r.cells (r.head + r.size) data (by omega)
  simp only [contents, front, push, range_add, map_append, map_map]
  rw [map_congr_left hold]
  congr 1
  refine Eq.trans (map_congr_left fun i _ => ?_) hnew
  rw [Function.comp_apply, Nat.add_assoc]

theorem contents_drop (r : Ring α) (h : k ≤ r.size) : r.front n k ++ (r.drop n k).contents n =
    r.contents n := by
  obtain ⟨m, hm⟩ := Nat.exists_eq_add_of_le h
  simp only [contents, front, drop, hm, Nat.add_sub_cancel_left, range_add, map_append, map_map]
  congr 1
  refine map_congr_left fun i _ => ?_
  rw [Function.comp_apply, Nat.mod_add_mod, Nat.add_assoc]

end Ring

end BlockOS
