import BlockOS.Lib.Words

/-! The contract of a heap as its users see it. -/

namespace BlockOS.Lib
open Words

structure BlockHeap (σ : Type) where
  alloc : σ → Word → Word → Word × σ
  free : σ → Word → σ
  owns : Word → Bool
  heapBegin : Word
  heapBytes : Word
  live : σ → List (Word × Word)
  live_null : ∀ s n a, (alloc s n a).1 = 0 → live (alloc s n a).2 = live s
  live_alloc : ∀ s n a, (alloc s n a).1 ≠ 0 → live (alloc s n a).2 = ((alloc s n a).1, n) :: live s
  aligned : ∀ s n a, max a.toNat 16 ∣ (alloc s n a).1.toNat
  below : ∀ s n a, (alloc s n a).1 ≠ 0 → (alloc s n a).1.toNat + n.toNat ≤ 2 ^ 52
  owned : ∀ s n a, (alloc s n a).1 ≠ 0 → ∀ x, (x - (alloc s n a).1).toNat < n.toNat → owns x = true
  apart : ∀ s n a, (alloc s n a).1 ≠ 0 → ∀ q ∈ live s,
    q.1.toNat + q.2.toNat ≤ (alloc s n a).1.toNat ∨ (alloc s n a).1.toNat + n.toNat ≤ q.1.toNat
  live_free : ∀ s p n, (p, n) ∈ live s → live (free s p) = (live s).filter (·.1 != p)
  free_null : ∀ s, free s 0 = s

end BlockOS.Lib
