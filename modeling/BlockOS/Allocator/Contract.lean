import BlockOS.Allocator.Safety
import BlockOS.Lib.BlockHeap

/-! The kernel heap as the other modules see it: the sessions over one arena meet the contract of a
heap of blocks. -/

namespace BlockOS.Allocator
open Words Bytes Lib List

structure Arena (base size : Word) where
  session : Session
  consistent : ∃ bs, Consistent session bs
  base_eq : session.heap.heapBase = base
  size_eq : session.heap.heapSize = size

variable {base size : Word}

theorem Arena.noWrap (hsize : size.toNat + 32 ≤ 2 ^ 63) (s : Arena base size) (n a : Word) :
    sumOverflows s.session.heap n a = false :=
  noWrap_of_small (by rw [s.size_eq]; exact hsize) (.alloc n a)

theorem Arena.fields (hsize : size.toNat + 32 ≤ 2 ^ 63) (s : Arena base size) (n a : Word) :
    (∃ bs, Consistent (s.session.step (.alloc n a)) bs) ∧
      (s.session.step (.alloc n a)).heap.heapBase = base ∧
      (s.session.step (.alloc n a)).heap.heapSize = size := by
  obtain ⟨bs, hc⟩ := s.consistent
  have hf := Allocator.alloc_spec hc.tiled n a (s.noWrap hsize n a)
  exact ⟨hc.alloc n a (s.noWrap hsize n a), hf.1.trans s.base_eq, hf.2.1.trans s.size_eq⟩

def Arena.alloc (hsize : size.toNat + 32 ≤ 2 ^ 63) (s : Arena base size) (n a : Word) :
    Word × Arena base size :=
  ((Allocator.alloc s.session.heap n a).1,
    { session := s.session.step (.alloc n a)
      consistent := (s.fields hsize n a).1
      base_eq := (s.fields hsize n a).2.1
      size_eq := (s.fields hsize n a).2.2 })

theorem Arena.freed (s : Arena base size) (h : p ∈ s.session.live.map Prod.fst) :
    ∃ bs, Consistent (s.session.step (.free p)) bs := by
  obtain ⟨bs, hc⟩ := s.consistent
  exact hc.free (.inr h)

def Arena.free (s : Arena base size) (p : Word) : Arena base size :=
  if h : p ∈ s.session.live.map Prod.fst then
    { session := s.session.step (.free p)
      consistent := s.freed h
      base_eq := (free_fields s.session.heap p).1.trans s.base_eq
      size_eq := (free_fields s.session.heap p).2.trans s.size_eq }
  else s

theorem Arena.alloc_spec (hsize : size.toNat + 32 ≤ 2 ^ 63) (s : Arena base size) (n a : Word)
    (h : (s.alloc hsize n a).1 ≠ 0) :
    (s.alloc hsize n a).2.session.live = ((s.alloc hsize n a).1, n) :: s.session.live ∧
      base.toNat ≤ (s.alloc hsize n a).1.toNat ∧
      (s.alloc hsize n a).1.toNat + n.toNat ≤ base.toNat + size.toNat ∧
      ∀ q ∈ s.session.live, q.1.toNat + q.2.toNat ≤ (s.alloc hsize n a).1.toNat ∨
        (s.alloc hsize n a).1.toNat + n.toNat ≤ q.1.toNat := by
  obtain ⟨bs, hc⟩ := (s.alloc hsize n a).2.consistent
  have hb := (s.alloc hsize n a).2.base_eq
  have hs := (s.alloc hsize n a).2.size_eq
  have hlive : (s.alloc hsize n a).2.session.live = ((s.alloc hsize n a).1, n) :: s.session.live :=
    if_neg h
  have hw := hc.wellFormed
  have hmem : ((s.alloc hsize n a).1, n) ∈ (s.alloc hsize n a).2.session.live := by
    rw [hlive]
    exact mem_cons_self
  obtain ⟨-, -, -, -, -, -, -, hcap⟩ := hw.payload _ hmem
  obtain ⟨h1, h2⟩ := hw.inside _ hmem
  rw [hb, hs] at h2
  rw [hb] at h1
  simp only at hcap h1 h2
  refine ⟨hlive, h1, by omega, fun q hq => ?_⟩
  have hq' : q ∈ (s.alloc hsize n a).2.session.live := by
    rw [hlive]
    exact mem_cons_of_mem _ hq
  obtain ⟨-, -, -, -, -, -, -, hcapq⟩ := hw.payload q hq'
  have hd := hw.disjoint
  rw [hlive, pairwise_cons] at hd
  have := hd.1 q hq
  simp only at this
  omega

theorem Arena.live_ne_zero (s : Arena base size) : (0 : Word) ∉ s.session.live.map Prod.fst := by
  intro h
  obtain ⟨q, hq, h0⟩ := mem_map.mp h
  obtain ⟨bs, hc⟩ := s.consistent
  obtain ⟨_, _, _, -, -, hp, -⟩ := hc.payload hq
  rw [h0] at hp
  simp at hp

def arenaHeap (base size : Word) (hsize : size.toNat + 32 ≤ 2 ^ 63)
    (harena : base.toNat + size.toNat ≤ 2 ^ 52) : BlockHeap (Arena base size) where
  alloc := Arena.alloc hsize
  free := Arena.free
  owns x := decide (base.toNat ≤ x.toNat) && decide (x.toNat < base.toNat + size.toNat)
  heapBegin := base
  heapBytes := size
  live s := s.session.live
  live_null s n a h := if_pos h
  live_alloc s n a h := (s.alloc_spec hsize n a h).1
  aligned s n a := by
    obtain ⟨bs, hc⟩ := s.consistent
    obtain ⟨-, -, he | ⟨-, hd, -⟩⟩ := Allocator.alloc_spec hc.tiled n a (s.noWrap hsize n a)
    · simp only [Arena.alloc, he]
      exact Nat.dvd_zero _
    · exact hd
  below s n a h := Nat.le_trans (s.alloc_spec hsize n a h).2.2.1 harena
  owned s n a h x hx := by
    obtain ⟨-, h1, h2, -⟩ := s.alloc_spec hsize n a h
    have := toNat_lt x
    rw [BitVec.toNat_sub] at hx
    simp only [Bool.and_eq_true, decide_eq_true_eq]
    omega
  apart s n a h := (s.alloc_spec hsize n a h).2.2.2
  live_free s p n h := by
    have hp : p ∈ s.session.live.map Prod.fst := mem_map.mpr ⟨(p, n), h, rfl⟩
    rw [Arena.free, dif_pos hp]
    rfl
  free_null s := dif_neg s.live_ne_zero

end BlockOS.Allocator
