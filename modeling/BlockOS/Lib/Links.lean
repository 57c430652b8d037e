import Mathlib.Tactic

/-! Chains in a table of links. -/

namespace BlockOS.Links
open List

variable {α : Type*} {next next' : α → Option α} {a b x : α} {l m : List α}

inductive Chain (next : α → Option α) : α → List α → Prop
  | last {a : α} : next a = none → Chain next a [a]
  | cons {a b : α} {l : List α} : next a = some b → Chain next b l → Chain next a (a :: l)

theorem Chain.eq_cons (h : Chain next a l) : ∃ t, l = a :: t := by
  cases h with
  | last _ => exact ⟨[], rfl⟩
  | cons _ _ => exact ⟨_, rfl⟩

theorem Chain.start_mem (h : Chain next a l) : a ∈ l := by
  obtain ⟨t, rfl⟩ := h.eq_cons
  exact mem_cons_self

theorem Chain.unique (h : Chain next a l) : ∀ {m}, Chain next a m → l = m := by
  induction h with
  | last ha =>
    intro m hm
    cases hm with
    | last _ => rfl
    | cons hb _ => rw [ha] at hb; cases hb
  | cons hb _ ih =>
    intro m hm
    cases hm with
    | last ha => rw [ha] at hb; cases hb
    | cons hb' ht =>
      rw [hb] at hb'
      cases hb'
      rw [ih ht]

theorem Chain.uncons (h : Chain next a (x :: l)) (hl : l ≠ []) : ∃ b, next x = some b ∧
    Chain next b l := by
  cases h with
  | last _ => exact absurd rfl hl
  | cons hb ht => exact ⟨_, hb, ht⟩

theorem Chain.congr (h : Chain next a l) (hsame : ∀ x ∈ l, next' x = next x) : Chain next' a l := by
  induction h with
  | last ha => exact .last ((hsame _ mem_cons_self).trans ha)
  | cons hb _ ih =>
    exact .cons ((hsame _ mem_cons_self).trans hb) (ih fun x hx => hsame x (mem_cons_of_mem _ hx))

theorem Chain.drop (h : Chain next a (l ++ x :: m)) : Chain next x (x :: m) := by
  induction l generalizing a with
  | nil =>
    obtain ⟨t, ht⟩ := h.eq_cons
    cases ht
    exact h
  | cons y l ih =>
    obtain ⟨b, _, ht⟩ := h.uncons (by simp)
    exact ih ht

theorem Chain.behind (h : Chain next a (l ++ x :: m)) (hx : next x = some b) : Chain next b m := by
  cases h.drop with
  | last hn => rw [hx] at hn; cases hn
  | cons hb ht =>
    rw [hx] at hb
    cases hb
    exact ht

theorem Chain.next_last (h : Chain next a (l ++ [x])) : next x = none := by
  cases h.drop with
  | last hx => exact hx
  | cons _ ht =>
    obtain ⟨t, ht'⟩ := ht.eq_cons
    cases ht'

theorem Chain.concat (h : Chain next a (l ++ [x])) (hsame : ∀ y ∈ l, next' y = next y)
    (hx : next' x = some b)
    (hb : Chain next' b m) : Chain next' a (l ++ x :: m) := by
  induction l generalizing a with
  | nil =>
    obtain ⟨t, ht⟩ := h.eq_cons
    cases ht
    exact .cons hx hb
  | cons y l ih =>
    have hay : a = y := by
      obtain ⟨t, ht⟩ := h.eq_cons
      exact (List.cons.inj ht).1.symm
    subst hay
    obtain ⟨b, hy, ht⟩ := h.uncons (by simp)
    exact .cons ((hsame a mem_cons_self).trans hy) (ih ht fun z hz => hsame z (mem_cons_of_mem _ hz))

theorem Chain.nodup (h : Chain next a l) : l.Nodup := by
  induction h with
  | last _ => exact nodup_singleton _
  | @cons a b l hb ht ih =>
    refine nodup_cons.mpr ⟨fun ha => ?_, ih⟩
    obtain ⟨pre, post, rfl⟩ := append_of_mem ha
    have := congrArg List.length (ht.drop.unique (.cons hb ht))
    simp at this
    omega

end BlockOS.Links
