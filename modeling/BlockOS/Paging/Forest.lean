import BlockOS.Paging.Walk

/-! The page tables of all address spaces as one forest. -/

namespace BlockOS.Paging
open Words Bytes Lib Radix Function

abbrev Owner := Word → Option (Word × List Index)

structure EntryOk (level : Nat) (e : Word) : Prop where
  small : has e ptePresent = true → 3 ≤ level → has e ptePs = false
  open_ : nextTable level e ≠ none → has e pteWritable = true ∧ has e pteNx = false
  large : has e ptePresent = true → level = 2 → has e ptePs = true → has e pteUser = false

structure Forest (m : Mem) (owner : Owner) : Prop where
  frame : ∀ {t x}, owner t = some x → IsFrame t
  owned : Owned nextTable (entry m) 4 owner
  parent : ∀ {t x i t' x' i' u}, owner t = some x → owner t' = some x' →
    nextTable (4 - x.2.length) (entry m t i) = some u →
    nextTable (4 - x'.2.length) (entry m t' i') = some u → t = t'
  shape : ∀ {t r p}, owner t = some (r, p) → p.length ≤ 3 → ∀ i, EntryOk (4 - p.length) (entry m t i)
  user : ∀ {t x i u}, owner t = some x → nextTable (4 - x.2.length) (entry m t i) = some u →
    ∀ j, has (entry m u j) ptePresent = true → has (entry m u j) pteUser = true →
      has (entry m t i) pteUser = true

def ParentsUser (m : Mem) (owner : Owner) (t : Word) : Prop :=
  ∀ t' x i, owner t' = some x → nextTable (4 - x.2.length) (entry m t' i) = some t →
    has (entry m t' i) pteUser = true

theorem nextTable_some (h : nextTable level e = some u) :
    has e ptePresent = true ∧ isTable level e = true ∧ u = e &&& addrMask := by
  unfold nextTable at h
  split at h
  · rename_i hc
    obtain ⟨h1, h2⟩ := Bool.and_eq_true_iff.mp hc
    exact ⟨h1, h2, (Option.some.inj h).symm⟩
  · cases h

theorem nextTable_of (h1 : has e ptePresent = true)
    (h2 : isTable level e = true) : nextTable level e = some (e &&& addrMask) := by
  simp [nextTable, h1, h2]

theorem nextTable_not_present (h : has e ptePresent = false) : nextTable level e = none := by
  simp [nextTable, h]

theorem nextTable_one (e : Word) : nextTable 1 e = none := by
  simp [nextTable, isTable]

theorem nextTable_zero (e : Word) : nextTable 0 e = none := by
  simp [nextTable, isTable]

theorem nextTable_large (h : has e ptePs = true) : nextTable 2 e = none := by
  simp [nextTable, isTable, h]

theorem isTable_of_small (h : 1 < level) (hs : has e ptePs = false) : isTable level e = true := by
  simp [isTable, hs, h]

theorem nextTable_congr (h1 : has e' ptePresent = has e ptePresent)
    (h2 : has e' ptePs = has e ptePs) (h3 : e' &&& addrMask = e &&& addrMask) :
    nextTable level e' = nextTable level e := by
  unfold nextTable isTable
  rw [h1, h2, h3]

theorem Forest.write (hF : Forest m owner) (ht : owner t = some (r, p))
    (hok : EntryOk (4 - p.length) e)
    (hnext : ∀ u, nextTable (4 - p.length) e = some u → owner u = some (r, p ++ [i]) ∧
      (∀ t' x i', owner t' = some x → nextTable (4 - x.2.length) (entry m t' i') = some u → t' = t)
        ∧ ∀ j, has (entry m u j) ptePresent = true → has (entry m u j) pteUser = true →
        has e pteUser = true)
    (huser : has e ptePresent = true → has e pteUser = true → ParentsUser m owner t) :
    Forest (setEntry m t i e) owner := by
  have hft := hF.frame ht
  have hsame : ∀ {u x}, owner u = some x → ∀ j, ¬ (u = t ∧ j = i) →
      entry (setEntry m t i e) u j = entry m u j := fun hu j hne =>
    entry_setEntry_other m hft (hF.frame hu) e hne
  refine ⟨hF.frame, ?_, ?_, ?_, ?_⟩
  · intro t' r' p' i' u hx hn
    by_cases hti : t' = t ∧ i' = i
    · obtain ⟨rfl, rfl⟩ := hti
      rw [ht] at hx
      obtain ⟨rfl, rfl⟩ := Prod.mk.inj (Option.some.inj hx)
      rw [entry_setEntry_same] at hn
      exact (hnext u hn).1
    · rw [hsame hx i' hti] at hn
      exact hF.owned t' r' p' i' u hx hn
  · intro t' x i' t'' x' i'' u h1 h2 hn1 hn2
    by_cases hti : t' = t ∧ i' = i
    · obtain ⟨rfl, rfl⟩ := hti
      rw [ht] at h1
      obtain rfl := Option.some.inj h1
      rw [entry_setEntry_same] at hn1
      by_cases hti' : t'' = t' ∧ i'' = i'
      · exact hti'.1.symm
      · rw [hsame h2 i'' hti'] at hn2
        exact ((hnext u hn1).2.1 t'' x' i'' h2 hn2).symm
    · rw [hsame h1 i' hti] at hn1
      by_cases hti' : t'' = t ∧ i'' = i
      · obtain ⟨rfl, rfl⟩ := hti'
        rw [ht] at h2
        obtain rfl := Option.some.inj h2
        rw [entry_setEntry_same] at hn2
        exact (hnext u hn2).2.1 t' x i' h1 hn1
      · rw [hsame h2 i'' hti'] at hn2
        exact hF.parent h1 h2 hn1 hn2
  · intro t' r' p' hx hlen j
    by_cases hti : t' = t ∧ j = i
    · obtain ⟨rfl, rfl⟩ := hti
      rw [ht] at hx
      obtain ⟨rfl, rfl⟩ := Prod.mk.inj (Option.some.inj hx)
      rw [entry_setEntry_same]
      exact hok
    · rw [hsame hx j hti]
      exact hF.shape hx hlen j
  · intro t' x i' u hx hn j hp hu
    by_cases hti : t' = t ∧ i' = i
    · obtain ⟨rfl, rfl⟩ := hti
      rw [ht] at hx
      obtain rfl := Option.some.inj hx
      rw [entry_setEntry_same] at hn ⊢
      obtain ⟨ho, -, hc⟩ := hnext u hn
      have hne : ¬ (u = t' ∧ j = i') := by
        rintro ⟨rfl, -⟩
        rw [ht] at ho
        simp at ho
      rw [hsame ho j hne] at hp hu
      exact hc j hp hu
    · rw [hsame hx i' hti] at hn ⊢
      obtain ⟨rx, px⟩ := x
      have ho := hF.owned t' rx px i' u hx hn
      by_cases hui : u = t ∧ j = i
      · obtain ⟨rfl, rfl⟩ := hui
        rw [entry_setEntry_same] at hp hu
        exact huser hp hu t' _ i' hx hn
      · rw [hsame ho j hui] at hp hu
        exact hF.user hx hn j hp hu

theorem Forest.congr (hF : Forest m owner)
    (h : ∀ u x, owner u = some x → ∀ j, entry m' u j = entry m u j) : Forest m' owner := by
  refine ⟨hF.frame, ?_, ?_, ?_, ?_⟩
  · intro t r p i u ht hn
    rw [h t _ ht] at hn
    exact hF.owned t r p i u ht hn
  · intro t x i t' x' i' u h1 h2 hn1 hn2
    rw [h t _ h1] at hn1
    rw [h t' _ h2] at hn2
    exact hF.parent h1 h2 hn1 hn2
  · intro t r p ht hlen i
    rw [h t _ ht]
    exact hF.shape ht hlen i
  · intro t x i u ht hn j
    obtain ⟨r, p⟩ := x
    rw [h t _ ht] at hn ⊢
    rw [h u _ (hF.owned t r p i u ht hn)]
    exact hF.user ht hn j

theorem Forest.add (hF : Forest m owner) (hnp : IsFrame np) (hfresh : owner np = none)
    (hnone : ∀ j, nextTable (4 - p.length) (entry m np j) = none)
    (hok : p.length ≤ 3 → ∀ j, EntryOk (4 - p.length) (entry m np j)) :
    Forest m (update owner np (some (r, p))) := by
  have hcase : ∀ {t x}, update owner np (some (r, p)) t = some x →
      (t = np ∧ x = (r, p)) ∨ (t ≠ np ∧ owner t = some x) := by
    intro t x h
    by_cases ht : t = np
    · subst ht
      rw [update_self] at h
      exact .inl ⟨rfl, (Option.some.inj h).symm⟩
    · rw [update_of_ne ht] at h
      exact .inr ⟨ht, h⟩
  have hold : ∀ {u x}, owner u = some x → update owner np (some (r, p)) u = some x := by
    intro u x h
    rw [update_of_ne (by rintro rfl; simp [hfresh] at h), h]
  have hno : ∀ i u, nextTable (4 - p.length) (entry m np i) ≠ some u := fun i u => by
    rw [hnone i]
    exact (Option.some_ne_none u).symm
  refine ⟨?_, ?_, ?_, ?_, ?_⟩
  · intro t x h
    rcases hcase h with ⟨rfl, -⟩ | ⟨-, h⟩
    · exact hnp
    · exact hF.frame h
  · intro t r' p' i u h hn
    rcases hcase h with ⟨rfl, hx⟩ | ⟨-, h⟩
    · obtain ⟨rfl, rfl⟩ := Prod.mk.inj hx
      exact absurd hn (hno i u)
    · exact hold (hF.owned t r' p' i u h hn)
  · intro t x i t' x' i' u h1 h2 hn1 hn2
    rcases hcase h1 with ⟨rfl, rfl⟩ | ⟨-, h1⟩
    · exact absurd hn1 (hno i u)
    rcases hcase h2 with ⟨rfl, rfl⟩ | ⟨-, h2⟩
    · exact absurd hn2 (hno i' u)
    · exact hF.parent h1 h2 hn1 hn2
  · intro t r' p' h hlen i
    rcases hcase h with ⟨rfl, hx⟩ | ⟨-, h⟩
    · obtain ⟨rfl, rfl⟩ := Prod.mk.inj hx
      exact hok hlen i
    · exact hF.shape h hlen i
  · intro t x i u h hn j
    rcases hcase h with ⟨rfl, rfl⟩ | ⟨-, h⟩
    · exact absurd hn (hno i u)
    · exact hF.user h hn j

theorem Forest.translate_congr (hF : Forest m owner)
    (hagree : ∀ u j, owner u ≠ none → ¬ (u = t ∧ j = i) → entry m' u j = entry m u j)
      (hr : owner r = some (r, [])) (va : Word)
    (hslot : ∀ p n, owner t = some (r, p) → n + 1 + p.length = 4 →
      p = prefixOf (idx va) 4 p.length → idx va (n + 1) = i →
      slot (scheme va) (entry m') (idx va) n (entry m' t i) = slot (scheme va) (entry m) (idx va) n
        (entry m t i)) :
    translate m' r va = translate m r va := by
  unfold translate
  rw [hF.frame hr]
  exact eval_congr (S := scheme va) hF.owned hagree (idx va) r 0
    (fun p n h1 _ h2 => hslot p n h1 h2) 4 0 r (Nat.zero_le _) rfl hr

theorem Forest.eval_below (hF : Forest m owner)
    (hagree : ∀ u j, owner u ≠ none → ¬ (u = t ∧ j = i) → entry m' u j = entry m u j)
      (ht : owner t = some (r, p)) (va : Word)
    (hn : n + 1 + p.length = 4) (hp : p = prefixOf (idx va) 4 p.length) (hi : idx va (n + 1) = i)
      (hu : nextTable (n + 1) (entry m t i) = some u) :
    eval (scheme va) (entry m') (idx va) n u = eval (scheme va) (entry m) (idx va) n u := by
  have hlevel : 4 - p.length = n + 1 := by omega
  have ho := hF.owned t r p i u ht (hlevel.symm ▸ hu)
  have hpre : prefixOf (idx va) 4 (p.length + 1) = p ++ [i] := by
    rw [prefixOf, ← hp, hlevel, hi]
  refine eval_congr (S := scheme va) hF.owned hagree (idx va) r (p.length + 1) ?_ n (p.length + 1) u
    (Nat.le_refl _) (by omega) (hpre ▸ ho)
  intro p' n' h1 h2
  rw [ht] at h1
  obtain ⟨-, rfl⟩ := Prod.mk.inj (Option.some.inj h1)
  omega

theorem eval_user (h : eval (scheme va) (entry m) (idx va) (n + 1) u = some tr)
    (hu : tr.user = true) :
    has (entry m u (idx va (n + 1))) ptePresent = true ∧ has (entry m u (idx va (n + 1))) pteUser =
      true := by
  rw [eval_succ] at h
  cases hn : nextTable (n + 1) (entry m u (idx va (n + 1))) with
  | none =>
    rw [slot_leaf va hn] at h
    split at h
    · rename_i hp
      obtain rfl := Option.some.inj h
      exact ⟨hp, hu⟩
    · cases h
  | some c =>
    rw [slot_table va hn] at h
    obtain ⟨tr', -, rfl⟩ := Option.map_eq_some_iff.mp h
    exact ⟨(nextTable_some hn).1, (Bool.and_eq_true_iff.mp hu).2⟩

theorem eval_empty (h : ∀ j, entry m u j = 0) : eval (scheme va) (entry m) (idx va) n u = none := by
  cases n with
  | zero => rfl
  | succ n =>
    have h0 : has 0 ptePresent = false := has_frame (by rfl) (by rfl)
    have hn : nextTable (n + 1) 0 = none := nextTable_not_present h0
    rw [eval_succ, h, slot_leaf va hn, h0]
    rfl

end BlockOS.Paging
