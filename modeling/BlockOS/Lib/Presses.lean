import Mathlib.Data.Finset.Dedup
import BlockOS.Lib.Runs

/-! Streams of presses and releases of keys. -/

namespace BlockOS.Presses
open Runs List

inductive Press (κ : Type*) where
  | down (k : κ)
  | up (k : κ)
  deriving DecidableEq, Repr

variable {κ : Type*} [DecidableEq κ]

def play (held : Finset κ) : Press κ → Finset κ
  | .down k => insert k held
  | .up k => held.erase k

def Fresh (held : Finset κ) : Press κ → Prop
  | .down k => k ∉ held
  | .up k => k ∈ held

instance (held : Finset κ) : (p : Press κ) → Decidable (Fresh held p)
  | .down k => inferInstanceAs (Decidable (k ∉ held))
  | .up k => inferInstanceAs (Decidable (k ∈ held))

theorem play_ups {keys : List κ} (hn : keys.Nodup) (hk : ∀ k ∈ keys, k ∈ held) :
    Along play Fresh held (keys.map .up) ∧ ∀ x, x ∈ runFrom play held (keys.map .up) ↔ x ∈ held ∧
      x ∉ keys := by
  induction keys generalizing held with
  | nil => simp [Along, runFrom]
  | cons k keys ih =>
    obtain ⟨hnot, hn⟩ := nodup_cons.mp hn
    have hrest : ∀ x ∈ keys, x ∈ play held (.up k) := by
      intro x hx
      have hne : x ≠ k := fun h => hnot (h ▸ hx)
      simp [play, hne, hk x (by simp [hx])]
    obtain ⟨h1, h2⟩ := ih hn hrest
    refine ⟨⟨hk k (by simp), h1⟩, fun x => (h2 x).trans ?_⟩
    simp only [play, Finset.mem_erase, mem_cons]
    tauto

theorem play_downs {keys : List κ} (hn : keys.Nodup) (hk : ∀ k ∈ keys, k ∉ held) :
    Along play Fresh held (keys.map .down) ∧ ∀ x, x ∈ runFrom play held (keys.map .down) ↔
      x ∈ held ∨ x ∈ keys := by
  induction keys generalizing held with
  | nil => simp [Along, runFrom]
  | cons k keys ih =>
    obtain ⟨hnot, hn⟩ := nodup_cons.mp hn
    have hrest : ∀ x ∈ keys, x ∉ play held (.down k) := by
      intro x hx
      have hne : x ≠ k := fun h => hnot (h ▸ hx)
      simp [play, hne, hk x (by simp [hx])]
    obtain ⟨h1, h2⟩ := ih hn hrest
    refine ⟨⟨hk k (by simp), h1⟩, fun x => (h2 x).trans ?_⟩
    simp only [play, Finset.mem_insert, mem_cons]
    tauto

theorem play_change {ups downs : List κ} (hu : ups.Nodup) (hd : downs.Nodup)
    (hup : ∀ k ∈ ups, k ∈ held) (hdown : ∀ k ∈ downs, k ∉ held) :
    Along play Fresh held (ups.map .up ++ downs.map .down) ∧
      ∀ x, x ∈ runFrom play held (ups.map .up ++ downs.map .down) ↔ (x ∈ held ∧ x ∉ ups) ∨
        x ∈ downs := by
  obtain ⟨h1, h2⟩ := play_ups hu hup
  obtain ⟨h3, h4⟩ := play_downs hd fun k hk h => hdown k hk ((h2 k).mp h).1
  have hrun : runFrom play held (ups.map .up ++ downs.map .down)
      = runFrom play (runFrom play held (ups.map .up)) (downs.map .down) := foldl_append
  refine ⟨Along.append_iff.mpr ⟨h1, h3⟩, fun x => ?_⟩
  rw [hrun, h4, h2]

end BlockOS.Presses
