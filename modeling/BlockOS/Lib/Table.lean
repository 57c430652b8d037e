import Mathlib.Tactic

/-! Tables of a fixed number of slots. -/

namespace BlockOS.Table
open List

variable {κ ν : Type*} [DecidableEq κ]

def lookup (k : κ) : List (Option (κ × ν)) → Option ν
  | [] => none
  | none :: t => lookup k t
  | some (a, v) :: t => if a = k then some v else lookup k t

def keys : List (Option (κ × ν)) → List κ
  | [] => []
  | none :: t => keys t
  | some (a, _) :: t => a :: keys t

def overwrite (k : κ) (v : ν) : List (Option (κ × ν)) → List (Option (κ × ν))
  | [] => []
  | none :: t => none :: overwrite k v t
  | some (a, w) :: t => if a = k then some (a, v) :: t else some (a, w) :: overwrite k v t

def fill (k : κ) (v : ν) : List (Option (κ × ν)) → List (Option (κ × ν))
  | [] => []
  | none :: t => some (k, v) :: t
  | some p :: t => some p :: fill k v t

def put (k : κ) (v : ν) (t : List (Option (κ × ν))) : List (Option (κ × ν)) :=
  if k ∈ keys t then overwrite k v t else fill k v t

variable {k x : κ} {v : ν} {t : List (Option (κ × ν))}

theorem lookup_overwrite (h : k ∈ keys t) : lookup x (overwrite k v t) = if x = k then
    some v else lookup x t := by
  induction t with
  | nil => simp [keys] at h
  | cons s t ih =>
    rcases s with _ | ⟨a, w⟩
    · simpa [lookup, overwrite] using ih (by simpa [keys] using h)
    by_cases ha : a = k
    · subst ha
      by_cases hx : x = a
      · simp [overwrite, lookup, hx]
      · simp [overwrite, lookup, hx, Ne.symm hx]
    · have hk : k ∈ keys t := by simpa [keys, Ne.symm ha] using h
      by_cases hx : a = x
      · subst hx
        simp [overwrite, lookup, ha]
      · simp [overwrite, lookup, ha, hx, ih hk]

theorem lookup_fill_self (h : k ∉ keys t) : lookup k (fill k v t) = some v ↔ none ∈ t := by
  induction t with
  | nil => simp [fill, lookup]
  | cons s t ih =>
    rcases s with _ | ⟨a, w⟩
    · simp [fill, lookup]
    · obtain ⟨hne, hk⟩ := not_or.mp (by simpa [keys] using h)
      simp [fill, lookup, Ne.symm hne, ih hk]

theorem lookup_fill_ne (hx : x ≠ k) : lookup x (fill k v t) = lookup x t := by
  induction t with
  | nil => rfl
  | cons s t ih =>
    rcases s with _ | ⟨a, w⟩
    · simp [fill, lookup, Ne.symm hx]
    · simp [fill, lookup, ih]

omit [DecidableEq κ] in
theorem fill_full (h : none ∉ t) : fill k v t = t := by
  induction t with
  | nil => rfl
  | cons s t ih =>
    cases s with
    | none => simp at h
    | some p => simp [fill, ih fun hm => h (mem_cons_of_mem _ hm)]

def HasRoom (k : κ) (t : List (Option (κ × ν))) : Prop := k ∈ keys t ∨ none ∈ t

theorem lookup_put_self : lookup k (put k v t) = some v ↔ HasRoom k t := by
  unfold put HasRoom
  by_cases h : k ∈ keys t
  · simp [h, lookup_overwrite h]
  · rw [if_neg h, lookup_fill_self h]
    simp [h]

theorem lookup_put_ne (hx : x ≠ k) : lookup x (put k v t) = lookup x t := by
  unfold put
  by_cases h : k ∈ keys t
  · rw [if_pos h, lookup_overwrite h, if_neg hx]
  · rw [if_neg h, lookup_fill_ne hx]

theorem keys_overwrite : keys (overwrite k v t) = keys t := by
  induction t with
  | nil => rfl
  | cons s t ih =>
    rcases s with _ | ⟨a, w⟩
    · simpa [overwrite, keys] using ih
    by_cases ha : a = k
    · simp [overwrite, keys, ha]
    · simp [overwrite, keys, ha, ih]

omit [DecidableEq κ] in
theorem mem_keys_fill (h : x ∈ keys (fill k v t)) : x = k ∨ x ∈ keys t := by
  induction t with
  | nil => simp [fill, keys] at h
  | cons s t ih =>
    rcases s with _ | ⟨a, w⟩
    · simpa [fill, keys] using h
    · simp only [fill, keys, mem_cons] at h ⊢
      exact h.elim (fun h => .inr (.inl h)) fun h => (ih h).imp_right .inr

theorem nodup_keys_put (h : (keys t).Nodup) : (keys (put k v t)).Nodup := by
  unfold put
  by_cases hk : k ∈ keys t
  · rw [if_pos hk, keys_overwrite]
    exact h
  rw [if_neg hk]
  induction t with
  | nil => exact h
  | cons s t ih =>
    rcases s with _ | ⟨a, w⟩
    · exact nodup_cons.mpr ⟨hk, h⟩
    obtain ⟨hne, hk⟩ := not_or.mp (by simpa [keys] using hk)
    obtain ⟨ha, ht⟩ := nodup_cons.mp h
    refine nodup_cons.mpr ⟨fun hm => ?_, ih ht hk⟩
    exact (mem_keys_fill hm).elim (fun h => hne h.symm) ha

end BlockOS.Table
