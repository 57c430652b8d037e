import Mathlib.Tactic

/-! A loop over a list of indices that changes a state and stops at the first iteration that fails,
with its invariant rule. -/

namespace BlockOS.Loops

variable {ι σ : Type*}

def tryEach (body : ι → σ → Bool × σ) : List ι → σ → Bool × σ
  | [], s => (true, s)
  | i :: is, s => if (body i s).1 then tryEach body is (body i s).2 else (false, (body i s).2)

theorem tryEach_spec {body : ι → σ → Bool × σ} {P : List ι → σ → Prop} {Q : σ → Prop}
    {l : List ι} {s : σ} (h0 : P [] s)
    (hok : ∀ pre i post s, l = pre ++ i :: post → P pre s → (body i s).1 = true →
      P (pre ++ [i]) (body i s).2)
    (hfail : ∀ pre i post s, l = pre ++ i :: post → P pre s → (body i s).1 = false → Q (body i s).2) :
    ((tryEach body l s).1 = true ∧ P l (tryEach body l s).2) ∨
      ((tryEach body l s).1 = false ∧ Q (tryEach body l s).2) := by
  suffices h : ∀ pre rest s, l = pre ++ rest → P pre s →
      ((tryEach body rest s).1 = true ∧ P l (tryEach body rest s).2) ∨
        ((tryEach body rest s).1 = false ∧ Q (tryEach body rest s).2) from h [] l s rfl h0
  intro pre rest
  induction rest generalizing pre with
  | nil =>
    intro s hl hp
    rw [List.append_nil] at hl
    exact .inl ⟨rfl, hl ▸ hp⟩
  | cons i rest ih =>
    intro s hl hp
    cases hb : (body i s).1 with
    | true =>
      simp only [tryEach, hb, if_true]
      exact ih (pre ++ [i]) _ (by simp [hl]) (hok pre i rest s hl hp hb)
    | false =>
      simp only [tryEach, hb, Bool.false_eq_true, if_false]
      exact .inr ⟨trivial, hfail pre i rest s hl hp hb⟩

end BlockOS.Loops
