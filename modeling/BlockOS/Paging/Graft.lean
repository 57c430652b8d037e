import BlockOS.Paging.Fork

/-! A clone joins the forest: its tables are found by following table pointers from the new root,
each at one position, and they mirror the tables of the source. -/

namespace BlockOS.Paging
open Words Bytes Lib Radix List

variable {σ : Type} {H : BlockHeap σ} {s s' : Phys σ} {owner : Owner}

def At (m : Mem) : Nat → Word → List Index → Word → Prop
  | _, t, [], u => t = u
  | n, t, i :: p, u => ∃ c, nextTable n (entry m t i) = some c ∧ At m (n - 1) c p u

theorem At.unique : ∀ {n t u u'}, At m n t p u → At m n t p u' → u = u' := by
  induction p with
  | nil => exact fun h h' => h.symm.trans h'
  | cons i p ih =>
    rintro n t u u' ⟨c, hc, h⟩ ⟨c', hc', h'⟩
    rw [hc] at hc'
    obtain rfl := Option.some.inj hc'
    exact ih h h'

theorem At.snoc : ∀ {n t u}, At m n t p u →
    nextTable (n - p.length) (entry m u i) = some v → At m n t (p ++ [i]) v := by
  induction p with
  | nil =>
    rintro n t u rfl hv
    exact ⟨v, hv, rfl⟩
  | cons j p ih =>
    rintro n t u ⟨c, hc, h⟩ hv
    refine ⟨c, hc, ih h ?_⟩
    rw [length_cons, Nat.add_comm, ← Nat.sub_sub] at hv
    exact hv

theorem Forest.owner_at (hF : Forest m owner) :
    ∀ {p t u}, owner t = some (r, p) → At m (4 - p.length) t q u → owner u = some (r, p ++ q) := by
  induction q with
  | nil =>
    rintro p t u ht rfl
    rwa [append_nil]
  | cons i q ih =>
    rintro p t u ht ⟨c, hc, h⟩
    have ho := hF.owned t r p i c ht hc
    have := ih ho (by rw [length_append, length_singleton, ← Nat.sub_sub]; exact h)
    rwa [append_assoc] at this

theorem Forest.translate_same (hF : Forest m owner)
    (h : ∀ u x, owner u = some x → ∀ j, entry m' u j = entry m u j)
    (hr : owner r = some (r, [])) (va : Word) : translate m' r va = translate m r va := by
  -- no table stands at address 1, so the exception below is empty
  have h1 : owner 1 = none := by
    by_contra hne
    obtain ⟨x, hx⟩ := Option.ne_none_iff_exists'.mp hne
    have := (hF.frame hx).dvd
    revert this
    decide
  refine hF.translate_congr (t := 1) (i := 0) (fun u j hu _ => ?_) hr va fun p n hp => ?_
  · obtain ⟨x, hx⟩ := Option.ne_none_iff_exists'.mp hu
    exact h u x hx j
  · rw [h1] at hp
    cases hp

theorem Space.keptPage (hs : Space H s owner) (ht : owner t = some x) : KeptPage H s t :=
  keptPage_of_live (hs.forest.frame ht) (hs.live ht)

theorem Space.entry_keeps (hs : Space H s owner) (hk : Keeps H s s') (ht : owner t = some x)
    (i : Index) :
    entry s'.mem t i = entry s.mem t i := hk.entry (hs.forest.frame ht) (hs.keptPage ht) i

theorem Space.keeps (hs : Space H s owner) (hk : Keeps H s s') : Space H s' owner ∧
    ∀ r va, owner r = some (r, []) → translate s'.mem r va = translate s.mem r va :=
  ⟨⟨hs.forest.congr fun _ _ hu => hs.entry_keeps hk hu, fun ht => hk.live _ (hs.live ht)⟩,
    fun _ va hr => hs.forest.translate_same (fun _ _ hu => hs.entry_keeps hk hu) hr va⟩

theorem Space.keptTree (hs : Space H s owner) : ∀ {n p t r}, owner t = some (r, p) →
    n + p.length = 4 → KeptTree H s n t := by
  intro n
  induction n with
  | zero => exact fun _ _ => trivial
  | succ n ih =>
    intro p t r ht hn
    refine ⟨hs.forest.frame ht, hs.keptPage ht, fun i c hc => ?_⟩
    refine ih (hs.forest.owned t r p i c ht ?_) (by simp; omega)
    rwa [show 4 - p.length = n + 1 by omega]

section Graft

variable {copyLeaf : Nat → Word → Phys σ → LeafCopy × Phys σ} {leaf : LeafRel σ}

variable {n : Nat} {own : Own} {m : Mem} {q : List Index}

theorem SameFlags.nextTable_none (h : SameFlags e e') (hn : nextTable n e = none) :
    nextTable n e' = none := by
  have h1 := h ptePresent (by simp)
  have h2 := h ptePs (by simp)
  unfold nextTable isTable at hn ⊢
  rw [h1, h2]
  split at hn
  · cases hn
  · rename_i hc
    exact if_neg hc

theorem SameFlags.nextTable_some (hc' : IsFrame c') (hn : nextTable n e = some c) :
    nextTable n (c' &&& addrMask ||| e &&& 0xfff ||| e &&& pteNx) = some c' := by
  obtain ⟨hf, ha⟩ := clone_flags hc' e
  obtain ⟨h1, h2, -⟩ := Paging.nextTable_some hn
  have hP := hf ptePresent (by simp)
  have hPs := hf ptePs (by simp)
  unfold isTable at h2
  unfold nextTable isTable
  rw [hP, hPs, ha, h1, h2]
  rfl

theorem CopiedEntry.next (hL : LeafLaw H copyLeaf leaf) {sub : Word → Word → Prop}
    (h : CopiedEntry (leaf s own m q n) sub n e e') (hn : nextTable n e' = some c') :
    ∃ c, nextTable n e = some c ∧ sub c c' ∧ SameFlags e e' := by
  have hzero : nextTable n 0 = none := nextTable_not_present (has_frame (by rfl) (by rfl))
  cases hc : nextTable n e with
  | none =>
    cases hP : has e ptePresent with
    | false =>
      rw [h.absent hP, hzero] at hn
      cases hn
    | true =>
      rcases hL.flags (h.leaf hP hc) with rfl | hf
      · rw [hzero] at hn
        cases hn
      · rw [hf.nextTable_none hc] at hn
        cases hn
  | some c =>
    obtain ⟨d, hd, rfl, hsub⟩ := h.table c hc
    rw [SameFlags.nextTable_some hd hc] at hn
    obtain rfl := Option.some.inj hn
    exact ⟨c, rfl, hsub, (clone_flags hd e).1⟩

theorem CopiedEntry.flags (hL : LeafLaw H copyLeaf leaf) {sub : Word → Word → Prop}
    (h : CopiedEntry (leaf s own m q n) sub n e e') : e' = 0 ∨ SameFlags e e' := by
  cases hP : has e ptePresent with
  | false => exact .inl (h.absent hP)
  | true =>
    cases hc : nextTable n e with
    | none => exact hL.flags (h.leaf hP hc)
    | some c =>
      obtain ⟨d, hd, rfl, -⟩ := h.table c hc
      exact .inr (clone_flags hd e).1

theorem Mirrors.at (hL : LeafLaw H copyLeaf leaf) : ∀ {n p t u}, Mirrors leaf s own m n p t u →
    At m n u q v →
    ∃ w, At s.mem n t q w ∧ Mirrors leaf s own m (n - q.length) (p ++ q) w v := by
  induction q with
  | nil =>
    rintro n p t u hM rfl
    exact ⟨t, rfl, by simpa using hM⟩
  | cons i q ih =>
    rintro n p t u hM ⟨c, hc, hq⟩
    cases n with
    | zero =>
      rw [nextTable_zero] at hc
      cases hc
    | succ n =>
      obtain ⟨d, hd, hsub, -⟩ := (hM.2.2 i).next hL hc
      obtain ⟨w, hw, hMw⟩ := ih hsub hq
      refine ⟨w, ⟨d, hd, hw⟩, ?_⟩
      rw [length_cons, Nat.add_sub_add_right, show p ++ i :: q = p ++ [i] ++ q by simp]
      exact hMw

theorem length_next (hq : q.length ≤ 3)
    (hn : nextTable (4 - q.length) (entry m t i) = some u) : (q ++ [i]).length ≤ 3 := by
  rw [length_append, length_singleton]
  by_contra hlen
  rw [show 4 - q.length = 1 by omega, nextTable_one] at hn
  cases hn

open Classical in
noncomputable def graft (owner : Owner) (m : Mem) (np : Word) : Owner := fun t =>
  if h : ∃ q : List Index, q.length ≤ 3 ∧ At m 4 np q t then some (np, h.choose) else owner t

section Clone

variable {log : PageLog} {src np : Word} (hL : LeafLaw H copyLeaf leaf)
  (hM : Mirrors leaf s (fun q x => (q, x) ∈ log) s'.mem 4 [] src np)
include hL hM

variable {q : List Index} {t : Word} {x : Word × List Index}

theorem clone_at (hq : q.length ≤ 3) (ht : At s'.mem 4 np q t) :
    (q, t) ∈ log ∧ IsFrame t ∧ ∃ w, At s.mem 4 src q w ∧ ∀ i,
      CopiedEntry (leaf s (fun q x => (q, x) ∈ log) s'.mem (q ++ [i]) (4 - q.length))
        (Mirrors leaf s (fun q x => (q, x) ∈ log) s'.mem (3 - q.length) (q ++ [i])) (4 - q.length)
        (entry s.mem w i) (entry s'.mem t i) := by
  obtain ⟨w, hw, hMw⟩ := hM.at hL ht
  rw [show 4 - q.length = 3 - q.length + 1 by omega] at hMw ⊢
  exact ⟨hMw.1, hMw.2.1, w, hw, hMw.2.2⟩

variable (hT : Took H s s' log)
include hT

theorem graft_clone (hq : q.length ≤ 3) (ht : At s'.mem 4 np q t) :
    graft owner s'.mem np t = some (np, q) := by
  have h : ∃ q : List Index, q.length ≤ 3 ∧ At s'.mem 4 np q t := ⟨q, hq, ht⟩
  have hu := hT.unique (clone_at hL hM h.choose_spec.1 h.choose_spec.2).1 (clone_at hL hM hq ht).1
  rw [graft, dif_pos h, hu]

theorem graft_cases (h : graft owner s'.mem np t = some x) :
    (∃ q : List Index, x = (np, q) ∧ q.length ≤ 3 ∧ At s'.mem 4 np q t) ∨ owner t = some x := by
  by_cases hc : ∃ q : List Index, q.length ≤ 3 ∧ At s'.mem 4 np q t
  · obtain ⟨q, hq, ht⟩ := hc
    rw [graft_clone hL hM hT hq ht] at h
    exact .inl ⟨q, (Option.some.inj h).symm, hq, ht⟩
  · rw [graft, dif_neg hc] at h
    exact .inr h

variable (hs : Space H s owner)
include hs

theorem clone_fresh (hq : q.length ≤ 3) (ht : At s'.mem 4 np q t) : owner t = none := by
  by_contra hne
  obtain ⟨x, hx⟩ := Option.ne_none_iff_exists'.mp hne
  exact hT.fresh _ (clone_at hL hM hq ht).1 t (inPage_self t) (hs.keptPage hx t (inPage_self t))

theorem graft_old (h : owner t = some x) : graft owner s'.mem np t = some x := by
  rw [graft, dif_neg, h]
  rintro ⟨q, hq, ht⟩
  rw [clone_fresh hL hM hT hs hq ht] at h
  cases h

omit hT in
theorem clone_entryOk (hsrc : owner src = some (src, [])) (hq : q.length ≤ 3)
    (ht : At s'.mem 4 np q t) (i : Index) :
    EntryOk (4 - q.length) (entry s'.mem t i) := by
  obtain ⟨-, -, w, hw, hc⟩ := clone_at hL hM hq ht
  have ho := hs.forest.owner_at hsrc hw
  have hok := hs.forest.shape ho hq i
  have h0 : has 0 ptePresent = false := has_frame (by rfl) (by rfl)
  rcases (hc i).flags hL with h | h
  · rw [h]
    refine ⟨fun hP => ?_, fun hn => absurd (nextTable_not_present h0) hn, fun hP => ?_⟩ <;>
    · rw [h0] at hP
      cases hP
  · have f1 := h ptePresent (by simp)
    have f2 := h ptePs (by simp)
    have f3 := h pteUser (by simp)
    have f4 := h pteWritable (by simp)
    have f5 := h pteNx (by simp)
    refine ⟨fun hP => ?_, fun hn => ?_, fun hP => ?_⟩
    · rw [f2]
      exact hok.small (f1 ▸ hP)
    · rw [f4, f5]
      refine hok.open_ fun hnone => hn (h.nextTable_none hnone)
    · rw [f2, f3]
      exact hok.large (f1 ▸ hP)

omit hT in
theorem clone_user (hsrc : owner src = some (src, [])) (hq : q.length ≤ 3) (ht : At s'.mem 4 np q t)
    (hn : nextTable (4 - q.length) (entry s'.mem t i) = some u)
    (hP : has (entry s'.mem u j) ptePresent = true) (hU : has (entry s'.mem u j) pteUser = true) :
    has (entry s'.mem t i) pteUser = true := by
  obtain ⟨-, -, w, hw, hc⟩ := clone_at hL hM hq ht
  obtain ⟨c, hwc, -, hf⟩ := (hc i).next hL hn
  obtain ⟨-, -, w', hw', hc'⟩ := clone_at hL hM (length_next hq hn) (ht.snoc hn)
  obtain rfl : c = w' := (hw.snoc hwc).unique hw'
  have h0 : has 0 ptePresent = false := has_frame (by rfl) (by rfl)
  rw [hf pteUser (by simp)]
  rcases (hc' j).flags hL with h | h
  · rw [h, h0] at hP
    cases hP
  refine hs.forest.user (hs.forest.owner_at hsrc hw) hwc j ?_ ?_
  · rw [← h ptePresent (by simp), hP]
  · rw [← h pteUser (by simp), hU]

theorem graft_owned : Owned nextTable (entry s'.mem) 4 (graft owner s'.mem np) := by
  intro t r p i u ht hn
  rcases graft_cases hL hM hT ht with ⟨q, hx, hq, h⟩ | h
  · obtain ⟨rfl, rfl⟩ := Prod.mk.inj hx
    exact graft_clone hL hM hT (length_next hq hn) (h.snoc hn)
  · rw [hs.entry_keeps hT.keeps h] at hn
    exact graft_old hL hM hT hs (hs.forest.owned t r p i u h hn)

theorem graft_parent (h1 : graft owner s'.mem np t = some x)
    (h2 : graft owner s'.mem np t' = some x')
    (hn1 : nextTable (4 - x.2.length) (entry s'.mem t i) = some u)
    (hn2 : nextTable (4 - x'.2.length) (entry s'.mem t' i') = some u) : t = t' := by
  -- pointers of the clone lead into the clone, old pointers to old tables
  have hsep : ∀ {t t' x' i i'} {q : List Index}, q.length ≤ 3 → At s'.mem 4 np q t →
      owner t' = some x' → nextTable (4 - q.length) (entry s'.mem t i) = some u →
      nextTable (4 - x'.2.length) (entry s'.mem t' i') = some u → False := by
    rintro t t' ⟨r', p'⟩ i i' q hq ht ho hn hn'
    rw [hs.entry_keeps hT.keeps ho] at hn'
    have := hs.forest.owned t' r' p' i' u ho hn'
    rw [clone_fresh hL hM hT hs (length_next hq hn) (ht.snoc hn)] at this
    cases this
  rcases graft_cases hL hM hT h1 with ⟨q, rfl, hq, h⟩ | h
  · rcases graft_cases hL hM hT h2 with ⟨q', rfl, hq', h'⟩ | h'
    · have e1 : graft owner s'.mem np u = _ := graft_clone hL hM hT (length_next hq hn1) (h.snoc hn1)
      have e2 : graft owner s'.mem np u = _ := graft_clone hL hM hT (length_next hq' hn2) (h'.snoc hn2)
      rw [e1] at e2
      obtain rfl := (append_inj' (Prod.mk.inj (Option.some.inj e2)).2 rfl).1
      exact h.unique h'
    · exact (hsep hq h h' hn1 hn2).elim
  · rcases graft_cases hL hM hT h2 with ⟨q', rfl, hq', h'⟩ | h'
    · exact (hsep hq' h' h hn2 hn1).elim
    · rw [hs.entry_keeps hT.keeps h] at hn1
      rw [hs.entry_keeps hT.keeps h'] at hn2
      exact hs.forest.parent h h' hn1 hn2

theorem Space.graft (hsrc : owner src = some (src, [])) : Space H s' (graft owner s'.mem np) := by
  have hk := hT.keeps
  refine ⟨⟨?_, graft_owned hL hM hT hs, graft_parent hL hM hT hs, ?_, ?_⟩, ?_⟩
  · intro t x ht
    rcases graft_cases hL hM hT ht with ⟨q, -, hq, h⟩ | h
    · exact (clone_at hL hM hq h).2.1
    · exact hs.forest.frame h
  · intro t r p ht hp i
    rcases graft_cases hL hM hT ht with ⟨q, hx, hq, h⟩ | h
    · obtain ⟨rfl, rfl⟩ := Prod.mk.inj hx
      exact clone_entryOk hL hM hs hsrc hq h i
    · rw [hs.entry_keeps hk h]
      exact hs.forest.shape h hp i
  · intro t x i u ht hn j hP hU
    rcases graft_cases hL hM hT ht with ⟨q, rfl, hq, h⟩ | h
    · exact clone_user hL hM hs hsrc hq h hn hP hU
    obtain ⟨r, p⟩ := x
    rw [hs.entry_keeps hk h] at hn ⊢
    rw [hs.entry_keeps hk (hs.forest.owned t r p i u h hn)] at hP hU
    exact hs.forest.user h hn j hP hU
  · intro t x ht
    rcases graft_cases hL hM hT ht with ⟨q, -, hq, h⟩ | h
    · exact hT.taken _ (clone_at hL hM hq h).1
    · exact hk.live _ (hs.live h)

end Clone

end Graft

end BlockOS.Paging
