import Mathlib.Tactic

/-! The ledger of a resource: what was taken and what was given back, the last entry first. -/

namespace BlockOS.Ledger

inductive Entry (α δ : Type*) where
  | took (a : α)
  | gave (d : δ)

variable {α δ : Type*} [DecidableEq α] (key : δ → α) (P : δ → Prop)

def out : List (Entry α δ) → α → Bool
  | [], _ => false
  | .took b :: l, a => decide (a = b) || out l a
  | .gave d :: l, a => decide (a ≠ key d) && out l a

def Balanced : List (Entry α δ) → Prop
  | [] => True
  | .took _ :: l => Balanced l
  | .gave d :: l => out key l (key d) = true ∧ P d ∧ Balanced l

def returns : List (Entry α δ) → List δ
  | [] => []
  | .took _ :: l => returns l
  | .gave d :: l => d :: returns l

theorem Balanced.of_append (h : Balanced key P (l ++ l')) : Balanced key P l' := by
  induction l with
  | nil => exact h
  | cons e l ih =>
    cases e with
    | took a => exact ih h
    | gave d => exact ih h.2.2

theorem Balanced.gave {l l' : List (Entry α δ)} (h : Balanced key P (l ++ .gave d :: l')) :
    out key l' (key d) = true ∧ P d :=
  have h' := h.of_append
  ⟨h'.1, h'.2.1⟩

end BlockOS.Ledger
