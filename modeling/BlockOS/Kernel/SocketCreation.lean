import BlockOS.Kernel.Leaks

/-! The calls that make sockets leave those in use alone: their buffers, whether they are closed,
and their peers. -/

namespace BlockOS.Kernel
open Words Function

structure Tidy (socks : Nat → UnixSocket) : Prop where
  inTable : InTable socks
  symmetric : Symmetric socks

structure Grew (socks socks' : Nat → UnixSocket) : Prop where
  tidy : Tidy socks'
  kept : ∀ i, (socks i).used = true → (socks' i).used = true ∧ (socks' i).rx.size = (socks i).rx.size ∧
    (socks' i).closed = (socks i).closed ∧ (0 ≤ (socks i).peer → (socks' i).peer = (socks i).peer)

theorem Grew.refl (h : Tidy socks) : Grew socks socks :=
    ⟨h, fun _ hu => ⟨hu, rfl, rfl, fun _ => rfl⟩⟩

theorem setSock_part {α : Type} (g : UnixSocket → α) (hu : g u = g (sockAt socks j))
    (i : Nat) : g (setSock socks j u i) = g (socks i) := by
  unfold setSock
  rw [update_apply]
  split
  case isTrue h => exact h ▸ hu
  case isFalse => rfl

theorem Grew.edit (h : Grew socks socks') (j : Int)
    (hused : u.used = (sockAt socks' j).used) (hpeer : u.peer = (sockAt socks' j).peer)
    (hsize : u.rx.size = (sockAt socks' j).rx.size) (hclosed : u.closed = (sockAt socks' j).closed) :
    Grew socks (setSock socks' j u) := by
  refine ⟨⟨h.tidy.inTable.set j fun h0 => hused ▸ h0,
    (symmetric_edit_iff j hused hpeer).mpr h.tidy.symmetric⟩, fun i hu => ?_⟩
  unfold setSock
  by_cases hij : i = j.toNat
  · subst hij
    rw [update_self, hused, hpeer, hsize, hclosed]
    exact h.kept _ hu
  · rw [update_of_ne hij]
    exact h.kept i hu

theorem Grew.fill (h : Grew socks socks') (hn : (socks n).used = false)
    (ht : Tidy (update socks' n u)) : Grew socks (update socks' n u) := by
  refine ⟨ht, fun i hu => ?_⟩
  have hin : i ≠ n := by
    rintro rfl
    rw [hn] at hu
    cases hu
  rw [update_of_ne hin]
  exact h.kept i hu

theorem Grew.alloc (h : Grew socks socks') : Grew socks (socketObjAlloc socks').2 ∧
    (0 ≤ (socketObjAlloc socks').1 → (sockAt socks (socketObjAlloc socks').1).used = false) := by
  have ht : Tidy (socketObjAlloc socks').2 := ⟨h.tidy.inTable.alloc, h.tidy.symmetric.alloc⟩
  unfold socketObjAlloc at ht ⊢
  split
  case h_1 n hn =>
    rw [hn] at ht
    have hfree : (socks n).used = false := by
      cases hu : (socks n).used with
      | false => rfl
      | true =>
        have h0 := (h.kept n hu).1
        rw [(freeSocket_spec hn).2] at h0
        cases h0
    exact ⟨h.fill hfree ht, fun _ => hfree⟩
  case h_2 =>
    refine ⟨h, fun h0 => ?_⟩
    have : (0 : Int) ≤ -1 := h0
    omega

theorem free_other (socks : Nat → UnixSocket) (j : Int) (hn : n ≠ j.toNat) :
    (socketFree j socks n).used = (socks n).used ∧ (socketFree j socks n).rx = (socks n).rx ∧
      (socketFree j socks n).closed = (socks n).closed ∧
      ((socketFree j socks n).peer = (socks n).peer ∨ (socks n).peer = j) := by
  unfold socketFree
  split
  · exact ⟨rfl, rfl, rfl, .inl rfl⟩
  dsimp only
  unfold setSock
  rw [update_of_ne hn]
  split
  case isTrue hpe =>
    by_cases hnp : n = (sockAt socks j).peer.toNat
    · rw [hnp, update_self]
      exact ⟨rfl, rfl, rfl, .inr hpe.2.2.2⟩
    · rw [update_of_ne hnp]
      exact ⟨rfl, rfl, rfl, .inl rfl⟩
  case isFalse => exact ⟨rfl, rfl, rfl, .inl rfl⟩

theorem Grew.free (h : Grew socks socks') (ht : Tidy socks)
    (hfree : (sockAt socks j).used = false) :
    Grew socks (socketFree j socks') := by
  refine ⟨⟨h.tidy.inTable.free j, h.tidy.symmetric.free h.tidy.inTable j⟩, fun i hu => ?_⟩
  have hij : i ≠ j.toNat := by
    rintro rfl
    rw [show (socks j.toNat).used = false from hfree] at hu
    cases hu
  obtain ⟨h1, h2, h3, h4⟩ := free_other socks' j hij
  obtain ⟨hk1, hk2, hk3, hk4⟩ := h.kept i hu
  refine ⟨h1.trans hk1, (congrArg Ring.size h2).trans hk2, h3.trans hk3, fun hp => ?_⟩
  rcases h4 with h4 | h4
  · exact h4.trans (hk4 hp)
  -- the peer of a socket in use is in use
  have h0 := (ht.symmetric i hu hp).1
  rw [(hk4 hp).symm.trans h4, hfree] at h0
  cases h0

theorem Grew.link (h : Grew socks socks') (hl : Linked a b socks' socks'')
    (hsame : ∀ i, (socks'' i).rx.size = (socks' i).rx.size ∧ (socks'' i).closed = (socks' i).closed)
    (ht : Symmetric socks'') (ha : (socks a.toNat).used = true → (socks a.toNat).peer < 0)
    (hb : (socks b.toNat).used = true → (socks b.toNat).peer < 0) : Grew socks socks'' := by
  refine ⟨⟨hl.inTable h.tidy.inTable, ht⟩, fun i hu => ?_⟩
  obtain ⟨h1, h2, h3, h4⟩ := h.kept i hu
  refine ⟨(hl.used i).trans h1, (hsame i).1.trans h2, (hsame i).2.trans h3, fun hp => ?_⟩
  rw [hl.peer]
  split
  case isTrue hib =>
    subst hib
    exact absurd hp (by have := hb hu; omega)
  case isFalse =>
    split
    case isTrue hia =>
      subst hia
      exact absurd hp (by have := ha hu; omega)
    case isFalse => exact h4 hp

theorem allocPair_grew (ht : Tidy socks) : Grew socks (allocPair socks).2 ∧ ∀ a b,
    (allocPair socks).1 = some (a, b) →
      (sockAt socks a).used = false ∧ (sockAt socks b).used = false := by
  obtain ⟨hga, hfa⟩ := (Grew.refl ht).alloc
  obtain ⟨hgb, hfb⟩ := hga.alloc
  have hsym := (SockStep.pair (s := socks)).symmetric ht.inTable ht.symmetric
  unfold allocPair at hsym ⊢
  dsimp only at hsym ⊢
  generalize socketObjAlloc socks = a at hga hfa hgb hfb hsym ⊢
  generalize socketObjAlloc a.2 = b at hgb hfb hsym ⊢
  split
  · refine ⟨?_, nofun⟩
    have hfree : Grew socks (if a.1 ≥ 0 then socketFree a.1 b.2 else b.2) := by
      split
      case isTrue h => exact hgb.free ht (hfa h)
      case isFalse => exact hgb
    dsimp only
    split
    case isTrue h => exact hfree.free ht (hfb h)
    case isFalse => exact hfree
  case isFalse hok =>
    rw [if_neg hok] at hsym
    have hua := hfa (by omega)
    have hub := hfb (by omega)
    refine ⟨hgb.link (linked_set id (fun _ => rfl) a.1 b.1 b.2) ?_ hsym ?_ ?_, ?_⟩
    · intro i
      refine ⟨(setSock_part (fun u => u.rx.size) ?_ i).trans (setSock_part (fun u => u.rx.size) ?_ i),
        (setSock_part UnixSocket.closed ?_ i).trans (setSock_part UnixSocket.closed ?_ i)⟩
      all_goals rfl
    · intro h0
      rw [show (socks a.1.toNat).used = false from hua] at h0
      cases h0
    · intro h0
      rw [show (socks b.1.toNat).used = false from hub] at h0
      cases h0
    · rintro _ _ ⟨⟩
      exact ⟨hua, hub⟩

theorem connectTo_grew (ht : Tidy socks) (hi : 0 ≤ i)
    (hlone : (connectTo i j socks).1 = true → (sockAt socks i).used = true ∧ (sockAt socks i).peer < 0) :
    Grew socks (connectTo i j socks).2 := by
  obtain ⟨hg, hnew⟩ := (Grew.refl ht).alloc
  unfold connectTo at hlone ⊢
  dsimp only at hlone ⊢
  split
  · exact hg
  case isFalse hok =>
    rw [if_neg hok] at hlone
    obtain ⟨hu, hp⟩ := hlone rfl
    have hpos : 0 ≤ (socketObjAlloc socks).1 := by omega
    have hl := linked_set UnixSocket.connect (fun _ => rfl) i (socketObjAlloc socks).1
      (socketObjAlloc socks).2
    have hsym := (hl.symmetric_iff hg.tidy.symmetric hi hpos (by rw [alloc_spec hpos])
      (by rw [alloc_spec hpos]; decide)).mpr ⟨by rwa [alloc_other hu], .inl (by rwa [alloc_other hu])⟩
    refine Grew.edit (hg.link hl ?_ hsym ?_ ?_) j ?_ ?_ ?_ ?_
    · intro n
      refine ⟨(setSock_part (fun u => u.rx.size) ?_ n).trans (setSock_part (fun u => u.rx.size) ?_ n),
        (setSock_part UnixSocket.closed ?_ n).trans (setSock_part UnixSocket.closed ?_ n)⟩
      all_goals rfl
    · exact fun _ => hp
    · intro h0
      rw [show (socks (socketObjAlloc socks).1.toNat).used = false from hnew hpos] at h0
      cases h0
    all_goals rfl

end BlockOS.Kernel
