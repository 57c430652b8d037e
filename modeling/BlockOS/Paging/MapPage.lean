import BlockOS.Paging.Map

/-! `map_4k`: the chain of tables down to the page and the store of its leaf entry. -/

namespace BlockOS.Paging
open Words Bytes Lib Radix

variable {σ : Type} {H : BlockHeap σ}

variable {s : Phys σ} {owner : Owner} {r flags pa : Word} {R : Bool × Phys σ}

theorem Space.writeLeaf (hs : Space H s owner) (ht : owner t = some (r, p)) (hp : p.length = 3)
    (huser : has e ptePresent = true → has e pteUser = true → UserPath s.mem owner t p) :
    Space H (s.write t i e) owner ∧ ∀ r' va, owner r' = some (r', []) →
      ¬ (r' = r ∧ p = prefixOf (idx va) 4 3 ∧ idx va 1 = i) →
      translate (s.write t i e).mem r' va = translate s.mem r' va := by
  have hF := hs.forest
  have hlevel : 4 - p.length = 1 := by omega
  refine ⟨⟨hF.write ht ⟨fun _ h => by omega, fun h => ?_, fun _ h => by omega⟩ (fun u hu => ?_)
    fun h1 h2 => (huser h1 h2).parents hF ht, hs.live⟩, ?_⟩
  · rw [hlevel] at h
    exact absurd (nextTable_one e) h
  · rw [hlevel, nextTable_one] at hu
    cases hu
  intro r' va hr hne
  refine hF.translate_congr (t := t) (i := i) (fun u j hu hui => ?_) hr va fun p' n h1 h2 h3 h4 => ?_
  · obtain ⟨x, hx⟩ := Option.ne_none_iff_exists'.mp hu
    exact entry_setEntry_other _ (hF.frame ht) (hF.frame hx) _ hui
  rw [ht] at h1
  obtain ⟨rfl, rfl⟩ := Prod.mk.inj (Option.some.inj h1)
  obtain rfl : n = 0 := by omega
  exact absurd ⟨rfl, hp ▸ h3, h4⟩ hne

structure Chain (m : Mem) (r va t₃ t₂ t₁ : Word) : Prop where
  h4 : nextTable 4 (entry m r (idx va 4)) = some t₃
  h3 : nextTable 3 (entry m t₃ (idx va 3)) = some t₂
  h2 : nextTable 2 (entry m t₂ (idx va 2)) = some t₁

theorem Chain.translate_eq (hc : Chain m r va t₃ t₂ t₁) (hr : IsFrame r) :
    translate m r va = ((((if has (entry m t₁ (idx va 1)) ptePresent then
        some (leafTranslation va 1 (entry m t₁ (idx va 1))) else none).map
      (Translation.through (entry m t₂ (idx va 2)))).map
      (Translation.through (entry m t₃ (idx va 3)))).map
      (Translation.through (entry m r (idx va 4)))) := by
  unfold translate
  rw [hr, eval_succ, slot_table va hc.h4, eval_succ, slot_table va hc.h3, eval_succ,
    slot_table va hc.h2, eval_succ, slot_leaf va (nextTable_one _)]

theorem Translation.through_eq (tr : Translation) (hW : has e pteWritable = true)
    (hNx : has e pteNx = false) (hU : tr.user = true → has e pteUser = true) :
    tr.through e = tr := by
  have hu : (tr.user && has e pteUser) = tr.user := by
    cases htu : tr.user with
    | false => rw [Bool.false_and]
    | true => rw [hU htu, Bool.true_and]
  simp only [Translation.through, hW, hNx, hu, Bool.and_true, Bool.or_false]

section Path

theorem Chain.owners (hF : Forest s.mem owner) (hr : owner r = some (r, []))
    (hc : Chain s.mem r va t₃ t₂ t₁) :
    owner t₃ = some (r, prefixOf (idx va) 4 1) ∧ owner t₂ = some (r, prefixOf (idx va) 4 2) ∧
      owner t₁ = some (r, prefixOf (idx va) 4 3) := by
  have h1 := hF.owned r r [] (idx va 4) t₃ hr hc.h4
  have h2 := hF.owned t₃ r _ (idx va 3) t₂ h1 hc.h3
  exact ⟨h1, h2, hF.owned t₂ r _ (idx va 2) t₁ h2 hc.h2⟩

theorem Chain.translate_leaf (hF : Forest s.mem owner) (hr : owner r = some (r, []))
    (hc : Chain s.mem r va t₃ t₂ t₁) :
    translate s.mem r va = if has (entry s.mem t₁ (idx va 1)) ptePresent then
      some (leafTranslation va 1 (entry s.mem t₁ (idx va 1))) else none := by
  obtain ⟨o3, o2, o1⟩ := hc.owners hF hr
  rw [hc.translate_eq (hF.frame hr)]
  split
  · rename_i hP
    have e2 := (hF.shape o2 (by simp) (idx va 2)).open_ (by simp [hc.h2])
    have e3 := (hF.shape o3 (by simp) (idx va 3)).open_ (by simp [hc.h3])
    have e4 := (hF.shape hr (by simp) (idx va 4)).open_ (by simp [hc.h4])
    have u2 : has (entry s.mem t₁ (idx va 1)) pteUser = true →
        has (entry s.mem t₂ (idx va 2)) pteUser = true := hF.user o2 hc.h2 _ hP
    have u3 : has (entry s.mem t₁ (idx va 1)) pteUser = true →
        has (entry s.mem t₃ (idx va 3)) pteUser = true := fun h =>
      hF.user o3 hc.h3 _ (nextTable_some hc.h2).1 (u2 h)
    have u4 : has (entry s.mem t₁ (idx va 1)) pteUser = true →
        has (entry s.mem r (idx va 4)) pteUser = true := fun h =>
      hF.user hr hc.h4 _ (nextTable_some hc.h3).1 (u3 h)
    simp only [Option.map_some]
    rw [Translation.through_eq (leafTranslation va 1 _) e2.1 e2.2 u2,
      Translation.through_eq (leafTranslation va 1 _) e3.1 e3.2 u3,
      Translation.through_eq (leafTranslation va 1 _) e4.1 e4.2 u4]
  · simp only [Option.map_none]

theorem Chain.write (hF : Forest s.mem owner) (hr : owner r = some (r, []))
    (hc : Chain s.mem r va t₃ t₂ t₁) (i : Index) (e : Word) :
    Chain (s.write t₁ i e).mem r va t₃ t₂ t₁ := by
  obtain ⟨o3, o2, o1⟩ := hc.owners hF hr
  have hne : ∀ {u k}, owner u = some (r, prefixOf (idx va) 4 k) → k ≠ 3 → ∀ j,
      entry (s.write t₁ i e).mem u j = entry s.mem u j := by
    intro u k hu hk j
    refine entry_setEntry_other _ (hF.frame o1) (hF.frame hu) _ ?_
    rintro ⟨rfl, -⟩
    rw [o1] at hu
    have := congrArg List.length (Prod.mk.inj (Option.some.inj hu)).2
    simp only [length_prefixOf] at this
    exact hk this.symm
  refine ⟨?_, ?_, ?_⟩
  · rw [hne (k := 0) hr (by decide)]
    exact hc.h4
  · rw [hne o3 (by decide)]
    exact hc.h3
  · rw [hne o2 (by decide)]
    exact hc.h2

theorem Space.setLeaf (hs : Space H s owner) (hr : owner r = some (r, []))
    (hc : Chain s.mem r va t₃ t₂ t₁)
    (huser : has e ptePresent = true → has e pteUser = true →
      UserPath s.mem owner t₁ (prefixOf (idx va) 4 3)) :
    Space H (s.write t₁ (idx va 1) e) owner ∧ translate (s.write t₁ (idx va 1) e).mem r va =
        (if has e ptePresent then some (leafTranslation va 1 e) else none) ∧
      ∀ r' va', owner r' = some (r', []) → ¬ (r' = r ∧ page va' = page va) →
        translate (s.write t₁ (idx va 1) e).mem r' va' = translate s.mem r' va' := by
  have h1 := (hc.owners hs.forest hr).2.2
  obtain ⟨hw, ho⟩ := hs.writeLeaf h1 (length_prefixOf _ _ _) huser
  refine ⟨hw, ?_, ?_⟩
  · rw [(hc.write hs.forest hr _ _).translate_leaf hw.forest hr]
    rw [Phys.write, entry_setEntry_same]
  intro r' va' hr' hne
  refine ho r' va' hr' fun h => hne ⟨h.1, ?_⟩
  exact (page_of_prefixOf h.2.1 h.2.2.symm).symm

end Path

def requested (paddr flags : Word) : Translation :=
  { frame := paddr
    writable := has flags pteWritable
    user := has flags pteUser
    pwt := has flags ptePwt
    pcd := has flags ptePcd
    nx := has flags pteNx }

theorem leafTranslation_leafEntry (hp : IsFrame paddr) (va flags : Word) :
    leafTranslation va 1 (leafEntry paddr flags) = requested paddr flags := by
  obtain ⟨-, hf⟩ := leafEntry_flags paddr flags
  simp only [List.mem_cons, List.not_mem_nil, or_false, forall_eq_or_imp, forall_eq] at hf
  simp only [leafTranslation, leafFrame, if_true, leafEntry_addr hp, hf, requested]

theorem onTable_cases (h : onTable a k = R) :
    (∃ s, a = (none, s) ∧ R = (false, s)) ∨ ∃ t s, a = (some t, s) ∧ k t s = R := by
  obtain ⟨_ | t, s⟩ := a
  · exact .inl ⟨s, rfl, h.symm⟩
  · exact .inr ⟨t, s, rfl, h⟩

theorem onTable_table (hs : Space H s owner) (ht : owner t = some (r, p)) (hp : p.length ≤ 2)
    (huser : has flags pteUser = true → UserPath s.mem owner t p)
    (hR : onTable (table H s t i flags) k = R) :
    ∃ o, (R.1 = false ∧ Grows H r s owner R.2 o) ∨ ∃ u s', Grows H r s owner s' o ∧
      Linked s' o t r p i u flags ∧ k u s' = R := by
  obtain ⟨o, g, h⟩ := table_spec hs ht hp i flags huser
  rcases onTable_cases hR with ⟨s', ha, rfl⟩ | ⟨u, s', ha, hR⟩
  · rw [ha] at g
    exact ⟨o, .inl ⟨rfl, g⟩⟩
  rw [ha] at g h
  rcases h with h | ⟨u', h, hl⟩
  · cases h
  · cases h
    exact ⟨o, .inr ⟨u, s', g, hl, hR⟩⟩

theorem map4k_cases (hs : Space H s owner) (hr : owner r = some (r, []))
    (hR : map4k H s r va pa flags = R) :
    ∃ o, (R.1 = false ∧ Grows H r s owner R.2 o) ∨ ∃ s₁ t₃ t₂ t₁,
      R = (true, s₁.write t₁ (idx va 1) (leafEntry pa flags)) ∧ Grows H r s owner s₁ o ∧
      Chain s₁.mem r va t₃ t₂ t₁ ∧
      (has flags pteUser = true → UserPath s₁.mem o t₁ (prefixOf (idx va) 4 3)) := by
  rw [map4k_eq] at hR
  split at hR
  · subst hR
    exact ⟨owner, .inl ⟨rfl, Grows.refl hs⟩⟩
  obtain ⟨o₁, h | ⟨t₃, s₃, g₁, ⟨q₁, n₁, u₁⟩, hR⟩⟩ :=
    onTable_table hs hr (by simp) (fun _ => .inl rfl) hR
  · exact ⟨o₁, .inl h⟩
  obtain ⟨o₂, ⟨h, g₂⟩ | ⟨t₂, s₂, g₂, ⟨q₂, n₂, u₂⟩, hR⟩⟩ := onTable_table g₁.space q₁ (by simp)
    (fun hf => .inr ⟨r, _, idx va 4, g₁.ext hr, n₁, u₁ hf⟩) hR
  · exact ⟨o₂, .inl ⟨h, g₁.trans g₂⟩⟩
  obtain ⟨o₃, ⟨h, g₃⟩ | ⟨t₁, s₁, g₃, ⟨q₃, n₃, u₃⟩, hR⟩⟩ := onTable_table g₂.space q₂ (by simp)
    (fun hf => .inr ⟨t₃, _, idx va 3, g₂.ext q₁, n₂, u₂ hf⟩) hR
  · exact ⟨o₃, .inl ⟨h, (g₁.trans g₂).trans g₃⟩⟩
  have n₄ := (g₃.links (g₂.ext (g₁.ext hr)) (g₂.links (g₁.ext hr) n₁).1).1
  have n₅ := (g₃.links (g₂.ext q₁) n₂).1
  exact ⟨o₃, .inr ⟨s₁, t₃, t₂, t₁, hR.symm, (g₁.trans g₂).trans g₃, ⟨n₄, n₅, n₃⟩, fun hf =>
    .inr ⟨t₂, _, idx va 2, g₃.ext q₂, n₃, u₃ hf⟩⟩⟩

theorem isFrame_of_aligned (h : pa &&& 0xfff = 0) (hlt : pa.toNat < 2 ^ 52) : IsFrame pa := by
  rw [isFrame_iff]
  refine ⟨?_, hlt⟩
  have h' := congrArg BitVec.toNat h
  rw [BitVec.toNat_and, show (0xfff : Word).toNat = 2 ^ 12 - 1 from rfl,
    Nat.and_two_pow_sub_one_eq_mod] at h'
  exact Nat.dvd_of_mod_eq_zero h'

theorem map4k_aligned (h : (map4k H s r va pa flags).1 = true) : pa &&& 0xfff = 0 := by
  rw [map4k_eq] at h
  split at h
  · cases h
  rename_i hc
  simp only [Bool.or_eq_true, decide_eq_true_eq, not_or, not_not] at hc
  exact hc.2

theorem map4k_spec (hs : Space H s owner) (hr : owner r = some (r, [])) (va pa flags : Word)
    (hR : map4k H s r va pa flags = R) :
    ∃ o, Space H R.2 o ∧ (∀ {t x}, owner t = some x → o t = some x) ∧
      R.2.cr3 = s.cr3 ∧
        (R.1 = true → pa.toNat < 2 ^ 52 → translate R.2.mem r va = some (requested pa flags)) ∧
      ∀ r' va', owner r' = some (r', []) → (R.1 = true → ¬ (r' = r ∧ page va' = page va)) →
        translate R.2.mem r' va' = translate s.mem r' va' := by
  obtain ⟨o, ⟨hf, g⟩ | ⟨s₁, t₃, t₂, t₁, rfl, g, hc, hu⟩⟩ := map4k_cases hs hr hR
  · refine ⟨o, g.space, fun h => g.ext h, g.cr3, fun h => ?_, fun _ _ hr' _ => g.view hr'⟩
    rw [hf] at h
    cases h
  have hpa := map4k_aligned (congrArg Prod.fst hR)
  have hP := leafEntry_flags pa flags
  obtain ⟨h1, h2, h3⟩ := g.space.setLeaf (g.ext hr) hc (e := leafEntry pa flags)
    fun _ h => hu (hP.2 pteUser (by simp) ▸ h)
  refine ⟨o, h1, fun h => g.ext h, g.cr3, fun _ hlt => ?_, fun r' va' hr' hne => ?_⟩
  · rw [h2, if_pos hP.1, leafTranslation_leafEntry (isFrame_of_aligned hpa hlt)]
  · rw [h3 r' va' (g.ext hr') (hne rfl), g.view hr']

end BlockOS.Paging
