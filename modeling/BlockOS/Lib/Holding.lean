import Mathlib.Data.Set.Insert
import Mathlib.Data.List.Nodup
import Mathlib.Tactic

/-! Objects without reference counts. -/

namespace BlockOS.Holding

@[ext] structure Books (ι : Type*) where
  named : Set ι
  used : Set ι
  queue : ι → List ι

namespace Books

variable {ι : Type*} {b : Books ι} {i l : ι}

structure Sound (b : Books ι) : Prop where
  live : ∀ i, i ∈ b.used ↔ i ∈ b.named ∨ ∃ l, i ∈ b.queue l
  apart : ∀ l, ∀ i ∈ b.queue l, i ∉ b.named
  once : ∀ l l' i, i ∈ b.queue l → i ∈ b.queue l' → l = l'
  nodup : ∀ l, (b.queue l).Nodup
  idle : ∀ l, l ∉ b.used → b.queue l = []

theorem Sound.queued_used (h : b.Sound) (hi : i ∈ b.queue l) : i ∈ b.used :=
  (h.live i).mpr (.inr ⟨l, hi⟩)

theorem Sound.named_used (h : b.Sound) (hi : i ∈ b.named) : i ∈ b.used := (h.live i).mpr (.inl hi)

def create (b : Books ι) (i : ι) : Books ι :=
  { b with named := insert i b.named, used := insert i b.used }

def release (b : Books ι) (i : ι) : Books ι :=
  { b with named := b.named \ {i}, used := b.used \ {i} }

theorem Sound.create (h : b.Sound) (hi : i ∉ b.used) : (b.create i).Sound := by
  refine ⟨fun j => ?_, fun l j hj => ?_, h.once, h.nodup, fun l hl => ?_⟩
  · simp only [Books.create, Set.mem_insert_iff, h.live j, or_assoc]
  · rintro (rfl | hn)
    · exact hi (h.queued_used hj)
    · exact h.apart l j hj hn
  · exact h.idle l fun h0 => hl (.inr h0)

theorem Sound.release (h : b.Sound) (hi : i ∈ b.named) (hq : b.queue i = []) :
    (b.release i).Sound := by
  refine ⟨fun j => ?_, fun l j hj hn => h.apart l j hj hn.1, h.once, h.nodup, fun l hl => ?_⟩
  · have hw : (∃ l, j ∈ b.queue l) → j ≠ i := by
      rintro ⟨l, hl⟩ rfl
      exact h.apart l j hl hi
    simp only [Books.release, Set.mem_sdiff, Set.mem_singleton_iff, h.live j]
    tauto
  · by_cases hli : l = i
    · rw [hli]
      exact hq
    · exact h.idle l fun h0 => hl ⟨h0, hli⟩

variable [DecidableEq ι]

def enqueue (b : Books ι) (l i : ι) : Books ι :=
  { b with
    used := insert i b.used
    queue := fun m => if m = l then b.queue l ++ [i] else b.queue m }

def dequeue (b : Books ι) (l i : ι) : Books ι :=
  { b with
    named := insert i b.named
    queue := fun m => if m = l then (b.queue l).tail else b.queue m }

theorem mem_enqueue : j ∈ (b.enqueue l i).queue m ↔ j ∈ b.queue m ∨ (m = l ∧ j = i) := by
  unfold enqueue
  dsimp only
  split
  case isTrue h => simp [h]
  case isFalse h => simp [h]

theorem Sound.enqueue (h : b.Sound) (hi : i ∉ b.used) (hl : l ∈ b.used) : (b.enqueue l i).Sound := by
  have hnew : ∀ m, i ∉ b.queue m := fun m h0 => hi (h.queued_used h0)
  refine ⟨fun j => ?_, fun m j hj hn => ?_, fun m m' j hm hm' => ?_, fun m => ?_, fun m hm => ?_⟩
  · simp only [mem_enqueue, exists_or, exists_eq_left]
    simp only [Books.enqueue, Set.mem_insert_iff, h.live j]
    tauto
  · rcases mem_enqueue.mp hj with h0 | ⟨_, rfl⟩
    · exact h.apart m j h0 hn
    · exact hi (h.named_used hn)
  · rcases mem_enqueue.mp hm with h0 | ⟨rfl, rfl⟩
    · rcases mem_enqueue.mp hm' with h1 | ⟨_, rfl⟩
      · exact h.once m m' j h0 h1
      · exact absurd h0 (hnew m)
    · rcases mem_enqueue.mp hm' with h1 | ⟨h1, _⟩
      · exact absurd h1 (hnew m')
      · exact h1.symm
  · unfold Books.enqueue
    dsimp only
    split
    · exact (h.nodup l).append (List.nodup_singleton i) fun j hj hji =>
        hnew l (List.mem_singleton.mp hji ▸ hj)
    · exact h.nodup m
  · have hml : m ≠ l := fun h0 => hm (.inr (h0 ▸ hl))
    refine (if_neg hml).trans (h.idle m fun h0 => hm (.inr h0))

theorem mem_dequeue (hl : (b.queue l).head? = some i) :
    j ∈ b.queue m ↔ j ∈ (b.dequeue l i).queue m ∨ (m = l ∧ j = i) := by
  unfold dequeue
  dsimp only
  split
  case isTrue h =>
    cases hq : b.queue l with
    | nil =>
      rw [hq] at hl
      cases hl
    | cons a rest =>
      rw [hq] at hl
      cases hl
      simp [h, hq, or_comm]
  case isFalse h => simp [h]

theorem Sound.dequeue (h : b.Sound) (hl : (b.queue l).head? = some i) : (b.dequeue l i).Sound := by
  have hsub : ∀ {m j}, j ∈ (b.dequeue l i).queue m → j ∈ b.queue m :=
    fun h0 => (mem_dequeue hl).mpr (.inl h0)
  have hgone : ∀ m, i ∉ (b.dequeue l i).queue m := by
    intro m h0
    have hil : i ∈ b.queue l := (mem_dequeue hl).mpr (.inr ⟨rfl, rfl⟩)
    obtain rfl := h.once m l i (hsub h0) hil
    have hnd := h.nodup m
    rw [show (b.dequeue m i).queue m = (b.queue m).tail from if_pos rfl] at h0
    cases hq : b.queue m with
    | nil =>
      rw [hq] at hl
      cases hl
    | cons a rest =>
      rw [hq] at hl h0 hnd
      cases hl
      exact (List.nodup_cons.mp hnd).1 h0
  refine ⟨fun j => ?_, fun m j hj => ?_, fun m m' j hm hm' => ?_, fun m => ?_, fun m hm => ?_⟩
  · have hj : (∃ m, j ∈ b.queue m) ↔ (∃ m, j ∈ (b.dequeue l i).queue m) ∨ j = i := by
      simp only [mem_dequeue hl, exists_or, exists_eq_left]
    have hu := h.live j
    rw [hj] at hu
    exact hu.trans (by simp only [Books.dequeue, Set.mem_insert_iff]; tauto)
  · rintro (rfl | hn)
    · exact hgone m hj
    · exact h.apart m j (hsub hj) hn
  · exact h.once m m' j (hsub hm) (hsub hm')
  · unfold Books.dequeue
    dsimp only
    split
    · exact (h.nodup l).tail
    · exact h.nodup m
  · refine (if_neg ?_).trans (h.idle m hm)
    rintro rfl
    rw [h.idle m hm] at hl
    cases hl

end Books

end BlockOS.Holding
