import Mathlib.Tactic

/-! Rotation over `n` places. -/

namespace BlockOS.Rotation
open List Option Nat

def order (n c : Nat) : List Nat := (List.range n).map fun i => (c + 1 + i) % n

def pick (n c : Nat) (asks : Nat → Bool) : Option Nat := (order n c).find? asks

def ahead (n c j : Nat) : Nat := (j + (n - (c + 1) % n)) % n

theorem ahead_lt (hn : 0 < n) : ahead n c j < n := mod_lt _ hn

theorem order_ahead (hj : j < n) : (c + 1 + ahead n c j) % n = j := by
  have hc : (c + 1) % n < n := mod_lt _ (by omega)
  have hsum : (c + 1) % n + (j + (n - (c + 1) % n)) = j + n := by omega
  rw [ahead, add_mod, mod_mod, ← add_mod, ← mod_add_mod, hsum, add_mod_right, mod_eq_of_lt hj]

theorem ahead_order (hi : i < n) : ahead n c ((c + 1 + i) % n) = i := by
  have hc : (c + 1) % n < n := mod_lt _ (by omega)
  have hdiv := div_add_mod (c + 1) n
  have hsum : c + 1 + i + (n - (c + 1) % n) = n * ((c + 1) / n) + (i + n) := by omega
  rw [ahead, mod_add_mod, hsum, mul_add_mod, add_mod_right, mod_eq_of_lt hi]

theorem ahead_self (hc : c < n) : ahead n c c = n - 1 := by
  have h : (c + 1 + (n - 1)) % n = c := by
    rw [show c + 1 + (n - 1) = c + n by omega, add_mod_right, mod_eq_of_lt hc]
  rw [← ahead_order (c := c) (show n - 1 < n by omega), h]

theorem ahead_inj (hi : i < n) (hj : j < n) (h : ahead n c i = ahead n c j) : i = j := by
  rw [← order_ahead (c := c) hi, h, order_ahead hj]

theorem ahead_move (hj : j < n) (hp : p < n) (h : ahead n c j < ahead n c p) :
    ahead n j p + (ahead n c j + 1) = ahead n c p := by
  have hlt : ahead n c p < n := ahead_lt (by omega)
  obtain ⟨d, hd⟩ : ∃ d, ahead n c p = ahead n c j + 1 + d := ⟨_, (Nat.add_sub_cancel' h).symm⟩
  have hpos : (j + 1 + d) % n = p := by
    have h0 : ((c + 1 + ahead n c j) % n + (1 + d)) % n = p := by
      rw [Nat.mod_add_mod, show c + 1 + ahead n c j + (1 + d) = c + 1 + ahead n c p by omega]
      exact order_ahead hp
    rwa [order_ahead hj, ← Nat.add_assoc] at h0
  have h1 := ahead_order (c := j) (show d < n by omega)
  rw [hpos] at h1
  omega

theorem pick_spec (h : pick n c asks = some j) :
    j < n ∧ asks j = true ∧ ∀ p, p < n → asks p = true → ahead n c j ≤ ahead n c p := by
  unfold pick order at h
  rw [find?_map, map_eq_some_iff] at h
  obtain ⟨i, hi, rfl⟩ := h
  have hin : i < n := mem_range.mp (mem_of_find?_eq_some hi)
  have hasksi : (asks ∘ fun i => (c + 1 + i) % n) i = true := find?_some hi
  refine ⟨mod_lt _ (by omega), hasksi, fun p hp hasks => ?_⟩
  rw [ahead_order hin]
  by_contra hlt
  rw [find?_range_eq_some] at hi
  have h0 := hi.2.2 (ahead n c p) (by omega)
  simp only [Function.comp_apply, order_ahead hp, hasks] at h0
  cases h0

theorem pick_isSome (hp : p < n) (h : asks p = true) : (pick n c asks).isSome := by
  unfold pick order
  rw [find?_isSome]
  refine ⟨p, mem_map.mpr ⟨ahead n c p, mem_range.mpr (ahead_lt (by omega)), ?_⟩, h⟩
  exact order_ahead hp

def picks (n : Nat) : Nat → List (Nat → Bool) → List Nat
  | _, [] => []
  | c, asks :: rest =>
    match pick n c asks with
    | none => picks n c rest
    | some j => j :: picks n j rest

def Asks (n p : Nat) : Nat → List (Nat → Bool) → Prop
  | _, [] => True
  | c, asks :: rest =>
    asks p = true ∧ (pick n c asks = some p ∨ ∀ j, pick n c asks = some j → Asks n p j rest)

theorem picked_before (hp : p < n) (hq : q < n) (hc : ahead n c p < ahead n c q)
    (h : Asks n p c rest)
    (hl : picks n c rest = l ++ q :: l') : p ∈ l := by
  induction rest generalizing c l with
  | nil => simp [picks] at hl
  | cons asks rest ih =>
    obtain ⟨j, hj⟩ := isSome_iff_exists.mp (pick_isSome (c := c) hp h.1)
    obtain ⟨hjn, _, hmin⟩ := pick_spec hj
    have hle := hmin p hp h.1
    have hjq : j ≠ q := by
      rintro rfl
      omega
    simp only [picks, hj] at hl
    cases l with
    | nil => exact absurd (List.cons.inj hl).1 hjq
    | cons a l =>
      obtain ⟨rfl, hl'⟩ := List.cons.inj hl
      rcases h.2 with h0 | h0
      · cases hj.symm.trans h0
        exact mem_cons_self
      by_cases hjp : j = p
      · exact hjp ▸ mem_cons_self
      have hne : ahead n c j ≠ ahead n c p := fun h1 => hjp (ahead_inj hjn hp h1)
      have h1 := ahead_move hjn hp (show ahead n c j < ahead n c p by omega)
      have h2 := ahead_move hjn hq (show ahead n c j < ahead n c q by omega)
      exact mem_cons_of_mem _ (ih (by omega) (h0 j hj) hl')

theorem picked_soon (hp : p < n) (h : Asks n p c rest)
    (hlen : ahead n c p < (picks n c rest).length) : p ∈ (picks n c rest).take (ahead n c p + 1) := by
  induction rest generalizing c with
  | nil => simp [picks] at hlen
  | cons asks rest ih =>
    obtain ⟨j, hj⟩ := isSome_iff_exists.mp (pick_isSome (c := c) hp h.1)
    obtain ⟨hjn, _, hmin⟩ := pick_spec hj
    have hle := hmin p hp h.1
    simp only [picks, hj, length_cons, take_succ_cons] at hlen ⊢
    by_cases hjp : j = p
    · exact hjp ▸ mem_cons_self
    have h0 := h.2.resolve_left fun h0 => hjp (Option.some.inj (hj.symm.trans h0))
    have hne : ahead n c j ≠ ahead n c p := fun h1 => hjp (ahead_inj hjn hp h1)
    have h1 := ahead_move hjn hp (show ahead n c j < ahead n c p by omega)
    have h2 := ih (h0 j hj) (by omega)
    exact mem_cons_of_mem _ (take_subset_take_left _ (by omega) h2)

end BlockOS.Rotation
