import BlockOS.Paging.MapPage

/-! Operations on leaf entries that exist: `unmap_4k` and `protect_user_range`. -/

namespace BlockOS.Paging
open Words Bytes Lib Radix Bool

variable {σ : Type} {H : BlockHeap σ} {s : Phys σ} {owner : Owner} {r va : Word}

def SmallWalk (m : Mem) (r va : Word) : Prop :=
  ∀ t₃ t₂, nextTable 4 (entry m r (idx va 4)) = some t₃ → nextTable 3 (entry m t₃ (idx va 3)) = some t₂ →
    has (entry m t₂ (idx va 2)) ptePresent = true → has (entry m t₂ (idx va 2)) ptePs = false

theorem Forest.next_of_present (hF : Forest s.mem owner) (ht : owner t = some (r, p))
    (hp : p.length ≤ 1)
    (h : has (entry s.mem t i) ptePresent = true) :
    nextTable (4 - p.length) (entry s.mem t i) = some (entry s.mem t i &&& addrMask) :=
  nextTable_of h (isTable_of_small (by omega) ((hF.shape ht (by omega) i).small h (by omega)))

theorem Forest.next_of_user (hF : Forest s.mem owner) (ht : owner t = some (r, p))
    (hp : p.length = 2)
    (h : has (entry s.mem t i) ptePresent = true) (hu : has (entry s.mem t i) pteUser = true) :
    nextTable 2 (entry s.mem t i) = some (entry s.mem t i &&& addrMask) := by
  refine nextTable_of h (isTable_of_small (by decide) ?_)
  by_contra hps
  have := (hF.shape ht (by omega) i).large h (by omega) (eq_true_of_not_eq_false hps)
  rw [hu] at this
  cases this

theorem unmap4k_cases (hF : Forest s.mem owner) (hr : owner r = some (r, []))
    (hsmall : SmallWalk s.mem r va) :
    unmap4k s r va = (false, s) ∨ ∃ t₃ t₂ t₁, Chain s.mem r va t₃ t₂ t₁ ∧
      unmap4k s r va = (true, s.write t₁ (idx va 1) 0) := by
  unfold unmap4k
  split
  · exact .inl rfl
  simp only [not_eq_true']
  split
  · exact .inl rfl
  rename_i h4
  have n4 := hF.next_of_present hr (Nat.zero_le _) (eq_true_of_not_eq_false h4)
  split
  · exact .inl rfl
  rename_i h3
  have n3 := hF.next_of_present (hF.owned _ _ _ _ _ hr n4) (by simp) (eq_true_of_not_eq_false h3)
  split
  · exact .inl rfl
  rename_i h2
  have h2 := eq_true_of_not_eq_false h2
  exact .inr ⟨_, _, _,
    ⟨n4, n3, nextTable_of h2 (isTable_of_small (by decide) (hsmall _ _ n4 n3 h2))⟩, rfl⟩

theorem unmap4k_spec (hs : Space H s owner) (hr : owner r = some (r, []))
    (hsmall : SmallWalk s.mem r va) :
    Space H (unmap4k s r va).2 owner ∧ (unmap4k s r va).2.cr3 = s.cr3 ∧
      ∀ r' va', owner r' = some (r', []) → ¬ (r' = r ∧ page va' = page va) →
        translate (unmap4k s r va).2.mem r' va' = translate s.mem r' va' := by
  obtain h | ⟨t₃, t₂, t₁, hc, h⟩ := unmap4k_cases hs.forest hr hsmall
  · rw [h]
    exact ⟨hs, rfl, fun _ _ _ _ => rfl⟩
  rw [h]
  have h0 : has 0 ptePresent = false := has_frame (by rfl) (by rfl)
  obtain ⟨h1, -, h3⟩ := hs.setLeaf hr hc (e := 0) fun h => by
    rw [h0] at h
    cases h
  exact ⟨h1, rfl, h3⟩

theorem walkLeaf_some (hF : Forest s.mem owner) (hr : owner r = some (r, []))
    (h : walkLeaf s.mem r va = some (t, i)) :
    i = idx va 1 ∧ (∃ t₃ t₂, Chain s.mem r va t₃ t₂ t) ∧ UserPath s.mem owner t (prefixOf (idx va) 4 3) ∧
      has (entry s.mem t i) ptePresent = true ∧ has (entry s.mem t i) pteUser = true := by
  unfold walkLeaf at h
  have hrf : r &&& addrMask = r := hF.frame hr
  simp only [hrf, not_eq_true', and_eq_false_iff] at h
  split at h
  · cases h
  split at h
  · cases h
  rename_i h4
  obtain ⟨p4, -⟩ := not_or.mp h4
  have n4 := hF.next_of_present hr (Nat.zero_le _) (eq_true_of_not_eq_false p4)
  have o3 := hF.owned _ _ _ _ _ hr n4
  split at h
  · cases h
  rename_i h3
  obtain ⟨p3, -⟩ := not_or.mp h3
  have n3 := hF.next_of_present o3 (by simp) (eq_true_of_not_eq_false p3)
  have o2 := hF.owned _ _ _ _ _ o3 n3
  split at h
  · cases h
  rename_i h2
  obtain ⟨p2, u2⟩ := not_or.mp h2
  have p2 := eq_true_of_not_eq_false p2
  have u2 := eq_true_of_not_eq_false u2
  have n2 := hF.next_of_user o2 rfl p2 u2
  split at h
  · cases h
  rename_i h1
  obtain ⟨p1, u1⟩ := not_or.mp h1
  cases h
  exact ⟨rfl, ⟨_, _, n4, n3, n2⟩, .inr ⟨_, _, _, o2, n2, u2⟩, eq_true_of_not_eq_false p1,
    eq_true_of_not_eq_false u1⟩

def SameUserPage (a b : Option Translation) : Prop :=
  a = b ∨ ∃ x y, a = some x ∧ b = some y ∧ x.user = true ∧ y.user = true ∧ x.frame = y.frame

theorem SameUserPage.trans (h1 : SameUserPage a b) (h2 : SameUserPage b c) : SameUserPage a c := by
  rcases h1 with rfl | ⟨x, y, hx, hy, u1, u2, f⟩
  · exact h2
  rcases h2 with rfl | ⟨y', z, hy', hz, -, u3, f'⟩
  · exact .inr ⟨x, y, hx, hy, u1, u2, f⟩
  rw [hy] at hy'
  obtain rfl := Option.some.inj hy'
  exact .inr ⟨x, z, hx, hz, u1, u3, f.trans f'⟩

structure Reprotects (H : BlockHeap σ) (r : Word) (owner : Owner) (s s' : Phys σ) : Prop where
  space : Space H s' owner
  heap : s'.heap = s.heap
  cr3 : s'.cr3 = s.cr3
  same : ∀ va, SameUserPage (translate s.mem r va) (translate s'.mem r va)
  other : ∀ r' va, owner r' = some (r', []) → r' ≠ r → translate s'.mem r' va = translate s.mem r' va

theorem Reprotects.refl (hs : Space H s owner) : Reprotects H r owner s s :=
  ⟨hs, rfl, rfl, fun _ => .inl rfl, fun _ _ _ _ => rfl⟩

theorem Reprotects.trans (h1 : Reprotects H r owner s s')
    (h2 : Reprotects H r owner s' s'') : Reprotects H r owner s s'' :=
  ⟨h2.space, h2.heap.trans h1.heap, h2.cr3.trans h1.cr3, fun va => (h1.same va).trans (h2.same va),
    fun r' va hr' hne => (h2.other r' va hr' hne).trans (h1.other r' va hr' hne)⟩

theorem Chain.of_page (h : page va' = page va) (hc : Chain m r va t₃ t₂ t₁) :
    Chain m r va' t₃ t₂ t₁ := by
  have e4 : idx va' 4 = idx va 4 := idx_of_page h (by decide) (by decide)
  have e3 : idx va' 3 = idx va 3 := idx_of_page h (by decide) (by decide)
  have e2 : idx va' 2 = idx va 2 := idx_of_page h (by decide) (by decide)
  exact ⟨e4 ▸ hc.h4, e3 ▸ hc.h3, e2 ▸ hc.h2⟩

theorem protectPage_spec (hs : Space H s owner) (hr : owner r = some (r, [])) (flags a : Word) :
    Reprotects H r owner s (protectPage r flags a s).2 := by
  unfold protectPage
  split
  · exact Reprotects.refl hs
  rename_i t i hw
  obtain ⟨rfl, ⟨t₃, t₂, hc⟩, hu, hP, hU⟩ := walkLeaf_some hs.forest hr hw
  obtain ⟨f1, f2, -, f4⟩ := protect_flags (entry s.mem t (idx a 1)) flags
  simp only
  generalize entry s.mem t (idx a 1) &&& addrMask ||| ptePresent ||| flags &&& leafFlags |||
    pteUser = e at f1 f2 f4 ⊢
  obtain ⟨h1, -, h3⟩ := hs.setLeaf hr hc (e := e) fun _ _ => hu
  refine ⟨h1, rfl, rfl, fun va => ?_, fun r' va hr' hne => h3 r' va hr' fun h => hne h.1⟩
  by_cases hpage : page va = page a
  · have hi : idx va 1 = idx a 1 := idx_of_page hpage (by decide) (by decide)
    have hc' := hc.of_page hpage
    rw [hc'.translate_leaf hs.forest hr, (hc'.write hs.forest hr _ _).translate_leaf h1.forest hr,
      hi, Phys.write, entry_setEntry_same, if_pos hP, if_pos f1]
    exact .inr ⟨_, _, rfl, rfl, hU, f2, f4.symm⟩
  · exact .inl (h3 r va hr fun h => hpage h.2).symm

theorem eachPage_reprotects (hbody : ∀ a s, Space H s owner → Reprotects H r owner s (body a s).2) :
    ∀ fuel a s, Space H s owner → Reprotects H r owner s (eachPage body last fuel a s).2 := by
  intro fuel
  induction fuel with
  | zero => exact fun _ _ hs => Reprotects.refl hs
  | succ fuel ih =>
    intro a s hs
    have h := hbody a s hs
    simp only [eachPage]
    split
    · exact h
    split
    · exact h
    split
    · exact h
    · exact h.trans (ih _ _ h.space)

theorem protectUserRange_spec (hs : Space H s owner) (hr : owner r = some (r, []))
    (base len flags : Word) : Reprotects H r owner s (protectUserRange s r base len flags).2 := by
  simp only [protectUserRange]
  split
  · exact Reprotects.refl hs
  have h : ∀ fuel a, Reprotects H r owner s
      (eachPage (checkPage r) (base + len - 1 &&& pageMask) fuel a s).2 := fun fuel a =>
    eachPage_reprotects (fun _ _ hs => Reprotects.refl hs) fuel a s hs
  split
  · exact h _ _
  · refine (h _ _).trans (eachPage_reprotects ?_ _ _ _ (h _ _).space)
    exact fun a s hs => protectPage_spec hs hr flags a

end BlockOS.Paging
