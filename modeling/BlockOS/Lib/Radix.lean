import Mathlib.Tactic

/-! Radix trees stored in tables. -/

namespace BlockOS.Radix

variable {T I E R β : Type*}

structure Scheme (T E β : Type*) where
  next : Nat → E → Option T
  leaf : Nat → E → β
  through : E → β → β
  bottom : β

def eval (S : Scheme T E β) (get : T → I → E) (path : Nat → I) : Nat → T → β
  | 0, _ => S.bottom
  | n + 1, t =>
    match S.next (n + 1) (get t (path (n + 1))) with
    | some u => S.through (get t (path (n + 1))) (eval S get path n u)
    | none => S.leaf (n + 1) (get t (path (n + 1)))

def slot (S : Scheme T E β) (get : T → I → E) (path : Nat → I) (n : Nat) (e : E) : β :=
  match S.next (n + 1) e with
  | some u => S.through e (eval S get path n u)
  | none => S.leaf (n + 1) e

theorem eval_zero (S : Scheme T E β) (get : T → I → E) (path : Nat → I) (t : T) :
    eval S get path 0 t = S.bottom := rfl

theorem eval_succ (S : Scheme T E β) (get : T → I → E) (path : Nat → I) (n : Nat) (t : T) :
    eval S get path (n + 1) t = slot S get path n (get t (path (n + 1))) := rfl

variable {S : Scheme T E β} {get : T → I → E}

theorem slot_some (h : S.next (n + 1) e = some u) :
    slot S get path n e = S.through e (eval S get path n u) := by
  simp only [slot, h]

theorem slot_none (h : S.next (n + 1) e = none) : slot S get path n e = S.leaf (n + 1) e := by
  simp only [slot, h]

def prefixOf (path : Nat → I) (d : Nat) : Nat → List I
  | 0 => []
  | k + 1 => prefixOf path d k ++ [path (d - k)]

@[simp] theorem length_prefixOf (path : Nat → I) (d k : Nat) : (prefixOf path d k).length = k := by
  induction k with
  | zero => rfl
  | succ k ih => simp [prefixOf, ih]

def Owned (next : Nat → E → Option T) (get : T → I → E) (d : Nat)
    (owner : T → Option (R × List I)) : Prop :=
  ∀ t r p i u, owner t = some (r, p) → next (d - p.length) (get t i) = some u →
    owner u = some (r, p ++ [i])

theorem eval_congr (hO : Owned S.next get d owner)
    (hagree : ∀ u j, owner u ≠ none → ¬ (u = t ∧ j = i) → get' u j = get u j)
    (path : Nat → I) (r : R) (k₀ : Nat)
    (hslot : ∀ p n, owner t = some (r, p) → k₀ ≤ p.length → n + 1 + p.length = d →
      p = prefixOf path d p.length → path (n + 1) = i →
      slot S get' path n (get' t i) = slot S get path n (get t i)) :
    ∀ n k u, k₀ ≤ k → n + k = d → owner u = some (r, prefixOf path d k) →
      eval S get' path n u = eval S get path n u := by
  intro n
  induction n with
  | zero => intros; rfl
  | succ n ih =>
    intro k u hk hd hu
    by_cases hti : u = t ∧ path (n + 1) = i
    · obtain ⟨rfl, rfl⟩ := hti
      rw [eval_succ, eval_succ]
      exact hslot _ n hu (by simpa using hk) (by simpa using hd) (by simp) rfl
    have he := hagree u (path (n + 1)) (by simp [hu]) hti
    simp only [eval, he]
    cases hn : S.next (n + 1) (get u (path (n + 1))) with
    | none => rfl
    | some c =>
      have hc := hO u r _ (path (n + 1)) c hu (by
        rw [length_prefixOf, show d - k = n + 1 by omega]
        exact hn)
      have hp : prefixOf path d (k + 1) = prefixOf path d k ++ [path (n + 1)] := by
        rw [prefixOf, show d - k = n + 1 by omega]
      simp only [ih (k + 1) c (by omega) (by omega) (hp ▸ hc)]

end BlockOS.Radix
