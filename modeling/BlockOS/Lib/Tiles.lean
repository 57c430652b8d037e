import Mathlib.Tactic

/-! Lists of pieces that lie back to back: each piece `x` starts at `lo x`, where the one before it
ends, and takes `len x` units. -/

namespace BlockOS.Lib
open List

variable {α : Type*} {lo len : α → Nat} {a m e : Nat} {x y : α} {xs ys : List α}

def Tiles (lo len : α → Nat) : Nat → List α → Nat → Prop
  | a, [], e => a = e
  | a, x :: xs, e => lo x = a ∧ Tiles lo len (a + len x) xs e

theorem tiles_append : Tiles lo len a (xs ++ ys) e ↔ ∃ m, Tiles lo len a xs m ∧
    Tiles lo len m ys e := by
  induction xs generalizing a with
  | nil => exact ⟨fun h => ⟨a, rfl, h⟩, fun ⟨_, h1, h2⟩ => h1 ▸ h2⟩
  | cons x xs ih =>
    refine ⟨fun h => ?_, fun ⟨m, h1, h2⟩ => ⟨h1.1, ih.mpr ⟨m, h1.2, h2⟩⟩⟩
    obtain ⟨m, h1, h2⟩ := ih.mp h.2
    exact ⟨m, ⟨h.1, h1⟩, h2⟩

theorem Tiles.le (h : Tiles lo len a xs e) : a ≤ e := by
  induction xs generalizing a with
  | nil => exact h.le
  | cons x xs ih => exact le_trans (Nat.le_add_right _ _) (ih h.2)

theorem Tiles.inside (h : Tiles lo len a xs e) (hx : x ∈ xs) : a ≤ lo x ∧ lo x + len x ≤ e := by
  induction xs generalizing a with
  | nil => cases hx
  | cons y xs ih =>
    rcases mem_cons.mp hx with rfl | hx
    · exact ⟨h.1.ge, by rw [h.1]; exact h.2.le⟩
    · obtain ⟨h1, h2⟩ := ih h.2 hx
      exact ⟨le_trans (Nat.le_add_right _ _) h1, h2⟩

theorem Tiles.apart (h : Tiles lo len a xs e) (hx : x ∈ xs) (hy : y ∈ xs) :
    x = y ∨ lo x + len x ≤ lo y ∨ lo y + len y ≤ lo x := by
  induction xs generalizing a with
  | nil => cases hx
  | cons z xs ih =>
    rcases mem_cons.mp hx with hxz | hx'
    · rcases mem_cons.mp hy with hyz | hy'
      · exact .inl (hxz.trans hyz.symm)
      · exact .inr (.inl (by rw [hxz, h.1]; exact (h.2.inside hy').1))
    rcases mem_cons.mp hy with hyz | hy'
    · exact .inr (.inr (by rw [hyz, h.1]; exact (h.2.inside hx').1))
    · exact ih h.2 hx' hy'

theorem Tiles.dvd (h : Tiles lo len a xs e) (ha : d ∣ a) (hlen : ∀ x ∈ xs, d ∣ len x) :
    d ∣ e ∧ ∀ x ∈ xs, d ∣ lo x := by
  induction xs generalizing a with
  | nil => exact ⟨h ▸ ha, fun _ hx => absurd hx not_mem_nil⟩
  | cons x xs ih =>
    obtain ⟨he, hxs⟩ := ih h.2 (Nat.dvd_add ha (hlen x mem_cons_self)) fun y hy =>
      hlen y (mem_cons_of_mem _ hy)
    refine ⟨he, fun y hy => ?_⟩
    rcases mem_cons.mp hy with rfl | hy
    · exact h.1 ▸ ha
    · exact hxs y hy

theorem Tiles.replace (h : Tiles lo len a (xs ++ (mid ++ post)) e)
    (hmid : ∀ m m', Tiles lo len m mid m' → Tiles lo len m mid' m') : Tiles lo len a
      (xs ++ (mid' ++ post)) e := by
  obtain ⟨m, h1, h2⟩ := tiles_append.mp h
  obtain ⟨m', h3, h4⟩ := tiles_append.mp h2
  exact tiles_append.mpr ⟨m, h1, tiles_append.mpr ⟨m', hmid m m' h3, h4⟩⟩

end BlockOS.Lib
