import Mathlib.Data.BitVec
import Mathlib.Tactic

/-! A ring that is indexed by two free-running counters of `w` bits, the place of a counter being
its value modulo the depth. -/

namespace BlockOS.Counters
open List Function BitVec Nat

variable {w depth n : Nat} {α : Type*} {cells : Nat → α} {head tail : BitVec w}

def place (depth : Nat) (p : BitVec w) : Nat := p.toNat % depth

def waiting (depth : Nat) (cells : Nat → α) (head tail : BitVec w) : List α :=
  (List.range (tail - head).toNat).map fun i => cells (place depth (head + BitVec.ofNat w i))

def Straight (depth : Nat) (head : BitVec w) (n : Nat) : Prop := depth ∣ 2 ^ w ∨
    head.toNat + n ≤ 2 ^ w

instance : Decidable (Straight depth head n) := inferInstanceAs (Decidable (_ ∨ _))

@[simp] theorem length_waiting : (waiting depth cells head tail).length = (tail - head).toNat := by
  simp [waiting]

@[simp] theorem waiting_self : waiting depth cells head head = [] := by simp [waiting]

theorem Straight.mono (h : Straight depth head n) (hm : m ≤ n) : Straight depth head m :=
  h.imp_right fun h => by omega

theorem Straight.place_ne (h : Straight depth head n) (hd : n ≤ depth) (hw : depth < 2 ^ w)
    (hij : i < j) (hj : j < n) :
    place depth (head + BitVec.ofNat w i) ≠ place depth (head + BitVec.ofNat w j) := by
  -- both places are those of the sums, which do not wrap or may be taken modulo the depth at once
  have hplace : ∀ k < n, place depth (head + BitVec.ofNat w k) = (head.toNat + k) % depth := by
    intro k hk
    have hk2 : k % 2 ^ w = k := mod_eq_of_lt (by omega)
    rw [place, toNat_add, toNat_ofNat, hk2]
    rcases h with h | h
    · exact mod_mod_of_dvd _ h
    · rw [mod_eq_of_lt (show head.toNat + k < 2 ^ w by omega)]
  rw [hplace i (by omega), hplace j hj]
  intro heq
  have hdvd : depth ∣ (head.toNat + j) - (head.toNat + i) := (modEq_iff_dvd' (by omega)).mp heq
  have := le_of_dvd (by omega) hdvd
  omega

theorem toNat_succ_sub (h : (tail - head).toNat + 1 < 2 ^ w) :
    (tail + 1#w - head).toNat = (tail - head).toNat + 1 := by
  have hone : (1#w).toNat = 1 := by
    rw [toNat_ofNat]
    exact mod_eq_of_lt (by omega)
  rw [show tail + 1#w - head = (tail - head) + 1#w by ring, toNat_add, hone, mod_eq_of_lt h]

theorem waiting_push (hn : (tail - head).toNat < depth) (hw : depth < 2 ^ w)
    (hs : Straight depth head ((tail - head).toNat + 1)) (v : α) :
    waiting depth (update cells (place depth tail) v) head (tail + 1#w) = waiting depth cells head
      tail ++ [v] := by
  have htail : head + BitVec.ofNat w (tail - head).toNat = tail := by
    rw [ofNat_toNat, setWidth_eq]
    ring
  rw [waiting, toNat_succ_sub (by omega), range_succ, map_append, map_singleton, htail, update_self]
  congr 1
  apply map_congr_left
  intro i hi
  have hne := hs.place_ne (by omega) hw (mem_range.mp hi) (lt_succ_self _)
  rw [htail] at hne
  exact update_of_ne hne ..

theorem waiting_pop (h : head ≠ tail) :
    waiting depth cells head tail = cells (place depth head) :: waiting depth cells (head + 1#w)
      tail := by
  have hpos : (tail - head).toNat ≠ 0 := by
    intro h0
    have hz : tail - head = 0#w := eq_of_toNat_eq (by simpa using h0)
    exact h (sub_eq_zero.mp hz).symm
  have hw : 1 < 2 ^ w := by
    have := (tail - head).isLt
    omega
  have hone : (1#w).toNat = 1 := by
    rw [toNat_ofNat]
    exact mod_eq_of_lt hw
  obtain ⟨n, hn⟩ := exists_eq_succ_of_ne_zero hpos
  have hsub : (tail - (head + 1#w)).toNat = n := by
    have hlt := (tail - head).isLt
    rw [show tail - (head + 1#w) = (tail - head) - 1#w by ring, toNat_sub, hone, hn]
    rw [hn] at hlt
    rw [show 2 ^ w - 1 + (n + 1) = 2 ^ w + n by omega, add_mod_left, mod_eq_of_lt (by omega)]
  rw [waiting, waiting, hn, hsub, range_succ_eq_map, map_cons, map_map]
  congr 1
  · simp
  apply map_congr_left
  intro i _
  rw [Function.comp_apply, succ_eq_add_one, ofNat_add]
  congr 2
  ring

end BlockOS.Counters
