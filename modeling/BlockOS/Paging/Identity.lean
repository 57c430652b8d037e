import BlockOS.Paging.Map

/-! `install_kernel_identity_map` builds the first tree of the forest. -/

namespace BlockOS.Paging
open Words Bytes Lib Loops Function

variable {σ : Type}

theorem identity_low (g : Nat) (i : Index) :
    (BitVec.ofNat 64 (g * 0x40000000) + i.setWidth 64 * 0x200000 : Word) &&& 0x1fffff = 0 := by
  apply eq_of_toNat
  rw [BitVec.toNat_and, show (0x1fffff : Word).toNat = 2 ^ 21 - 1 from rfl,
    Nat.and_two_pow_sub_one_eq_mod]
  rw [BitVec.toNat_add, BitVec.toNat_mul, BitVec.toNat_ofNat,
    show (0x200000 : Word).toNat = 0x200000 from rfl, show (0 : Word).toNat = 0 from rfl]
  omega

theorem has_identity (g : Nat) (i : Index) (hf : 0x1fffff &&& f = f) :
    has (BitVec.ofNat 64 (g * 0x40000000) + i.setWidth 64 * 0x200000) f = false := by
  rw [has, ← hf, ← BitVec.and_assoc, identity_low]
  simp

theorem identityEntry_flags (g : Nat) (i : Index) :
    has (identityEntry g i) ptePs = true ∧ has (identityEntry g i) pteUser = false := by
  have h := has_identity g i (f := pteUser) (by decide)
  unfold identityEntry largeEntry
  constructor
  · split <;> simp +decide [has_or, flag_defs]
  · rw [has_or, h]
    split <;> decide

theorem identityEntry_ok (g : Nat) (i : Index) :
    nextTable 2 (identityEntry g i) = none ∧ EntryOk 2 (identityEntry g i) := by
  obtain ⟨h1, h2⟩ := identityEntry_flags g i
  have hn := nextTable_large h1
  exact ⟨hn, fun _ h => by omega, fun h => absurd hn h, fun _ _ _ => h2⟩

theorem kernelPtr (hnp : IsFrame np) : TablePtr (np &&& addrMask ||| ptePresent ||| pteWritable) np
    ∧
      has (np &&& addrMask ||| ptePresent ||| pteWritable) pteUser = false := by
  have h0 : ptePresent ||| pteWritable ||| 0 &&& pteUser = ptePresent ||| pteWritable := by decide
  have he : np &&& addrMask ||| (ptePresent ||| pteWritable ||| 0 &&& pteUser) =
      np &&& addrMask ||| ptePresent ||| pteWritable := by
    rw [h0, BitVec.or_assoc]
  have h1 := tablePtr_new hnp 0
  have h2 := (newTable_flags hnp 0).2.2.1
  rw [he] at h1 h2
  exact ⟨h1, h2⟩

variable {p : List Index} {pdpt : Word}

theorem Space.hangFilled (hs : Space H s owner)
    (ht : owner t = some (r, p)) (hp : p.length = 1) (i : Index) (hnew : NewPage H s pd s')
    {f : Index → Word} (hf : ∀ j, nextTable 2 (f j) = none ∧ EntryOk 2 (f j))
    (hfu : ∀ j, has (f j) pteUser = false) {e : Word} (he : TablePtr e pd)
    (heu : has e pteUser = false) {m₁ m₂ : Mem} (h₁ : ∀ j, entry m₁ pd j = f j)
    (h₂ : ∀ j, entry m₂ pd j = f j) (o₁ : ∀ a, ¬ InPage pd a → m₁ a = s'.mem a)
    (o₂ : ∀ a, ¬ InPage pd a → m₂ a = setEntry s'.mem t i e a) :
    ∃ owner', Space H { s' with mem := m₂ } owner' ∧ ∀ u x, owner u = some x → owner' u = some x := by
  have hF := hs.forest
  have hft := hF.frame ht
  have hun : Unlinked H s { s' with mem := m₁ } pd 2 :=
    ⟨hnew.frame, hnew.not_live, fun a ha => (o₁ a ha).trans (hnew.mem_outside ha), hnew.live,
      hnew.cr3, hnew.pageRefs, fun j => h₁ j ▸ (hf j).1, fun j => h₁ j ▸ (hf j).2⟩
  have hh := hs.hang hun ht (by omega) (by omega) i he (fun h => by rw [heu] at h; cases h)
    (fun j _ h => by rw [h₁, hfu] at h; cases h)
  refine ⟨_, ⟨hh.forest.congr fun u x hu j => ?_, hh.live⟩, fun u x => hun.ext hs⟩
  -- the fill and the store of the pointer touch different pages
  have hne : pd ≠ t := hun.ne hs ht
  rcases update_cases hu with ⟨rfl, -⟩ | hu
  · rw [h₂, Phys.write, entry_setEntry_other _ hft hnew.frame _ (by simp [hne]), h₁]
  have hfu := hF.frame hu
  have hap : ∀ a, InPage u a → ¬ InPage pd a := fun a ha => not_inPage hnew.frame hfu (hun.ne hs hu) ha
  rw [entry_congr hfu (fun a ha => o₂ a (hap a ha)) j]
  by_cases hti : u = t ∧ j = i
  · obtain ⟨rfl, rfl⟩ := hti
    rw [Phys.write, entry_setEntry_same, entry_setEntry_same]
  · rw [Phys.write, entry_setEntry_other _ hft hfu _ hti,
      entry_setEntry_other _ hft hfu _ hti, entry_congr hfu (fun a ha => o₁ a (hap a ha)) j]

theorem identityGig_space (hs : Space H s owner)
    (ht : owner pdpt = some (r, p)) (hp : p.length = 1) (g : Nat) (hz : (allocPage H s).1 ≠ 0) :
    ∃ owner', Space H (identityGig H pdpt g s).2 owner' ∧ ∀ u x, owner u = some x →
      owner' u = some x := by
  have hnew := allocPage_new hz
  obtain ⟨he, heu⟩ := kernelPtr hnew.frame
  have hspec := hs.hangFilled ht hp (BitVec.ofNat 9 g) hnew (identityEntry_ok g)
    (fun j => (identityEntry_flags g j).2) he heu
    (entry_fillTable_same _ hnew.frame _) (entry_fillTable_same _ hnew.frame _)
    (fun a ha => fillTable_outside (allocPage H s).2.mem hnew.frame _ ha)
    (fun a ha => fillTable_outside (setEntry (allocPage H s).2.mem pdpt (BitVec.ofNat 9 g) _)
      hnew.frame _ ha)
  unfold identityGig
  simp only [if_neg hz]
  exact hspec

theorem identityGig_null (pdpt : Word) (g : Nat) (h : (identityGig H pdpt g s).1 = true) :
    (allocPage H s).1 ≠ 0 := by
  intro hz
  unfold identityGig at h
  simp only [if_pos hz] at h
  cases h

theorem identityLoop_space (hs : Space H s owner) (ht : owner pdpt = some (r, p))
    (hp : p.length = 1) (l : List Nat)
    (h : (tryEach (identityGig H pdpt) l s).1 = true) :
    ∃ owner', Space H (tryEach (identityGig H pdpt) l s).2 owner' ∧ ∀ u x, owner u = some x →
      owner' u = some x := by
  have hloop := tryEach_spec (s := s) (l := l)
    (P := fun _ s' => ∃ o, Space H s' o ∧ ∀ u x, owner u = some x → o u = some x)
    (Q := fun _ => True) ⟨owner, hs, fun _ _ h => h⟩
    (fun pre g post s' _ hP (hb : (identityGig H pdpt g s').1 = true) => by
      obtain ⟨o, ho, hext⟩ := hP
      obtain ⟨o', ho', hext'⟩ := identityGig_space ho (hext _ _ ht) hp g (identityGig_null pdpt g hb)
      exact ⟨o', ho', fun u x hu => hext' u x (hext u x hu)⟩)
    (fun _ _ _ _ _ _ _ => trivial)
  rcases hloop with ⟨-, hP⟩ | ⟨hf, -⟩
  · exact hP
  · rw [hf] at h
    cases h

theorem Space.empty : Space H s fun _ => none := by
  have h : ∀ {x : Word × List Index} {P : Prop}, none = some x → P := fun h => by cases h
  exact ⟨⟨h, fun _ _ _ _ _ => h, h, h, h⟩, h⟩

theorem identityRoot_space (h₁ : NewPage H s pml4 s₁) (h₂ : NewPage H s₁ pdpt s₂) :
    ∃ owner, Space H (s₂.write pml4 0 (pdpt &&& addrMask ||| ptePresent ||| pteWritable)) owner ∧
      owner pml4 = some (pml4, []) ∧ owner pdpt = some (pml4, [0]) := by
  obtain ⟨he, heu⟩ := kernelPtr h₂.frame
  have hroot := (Space.empty.addTable (h₁.unlinked 4) (r := pml4) (p := []) rfl).1
  have ht : update (fun _ : Word => none) pml4 (some (pml4, ([] : List Index))) pml4 =
      some (pml4, []) := update_self _ _ _
  have hun := h₂.unlinked 3
  have hh := hroot.hang hun ht rfl (by simp) 0 he (fun h => by rw [heu] at h; cases h) (fun j h => by
      rw [h₂.entry_self, has_zero_word] at h
      cases h)
  exact ⟨_, hh, hun.ext hroot ht, update_self _ _ _⟩

theorem identityMap_space (h₁ : NewPage H s pml4 s₁) (h₂ : NewPage H s₁ pdpt s₂)
    (hR : tryEach (identityGig H pdpt) l
      (s₂.write pml4 0 (pdpt &&& addrMask ||| ptePresent ||| pteWritable)) = R) (h : R.1 = true) :
    ∃ owner, Space H (switchPml4 R.2 pml4) owner ∧ owner pml4 = some (pml4, []) ∧
      (switchPml4 R.2 pml4).cr3 = pml4 := by
  obtain ⟨o, ho, hr, ht⟩ := identityRoot_space h₁ h₂
  subst hR
  obtain ⟨o', ho', hext⟩ := identityLoop_space ho ht rfl l h
  exact ⟨o', ho'.of_eq rfl rfl, hext _ _ hr, h₁.frame⟩

theorem installKernelIdentityMap_space (hR : installKernelIdentityMap H maxPhys s = R)
    (h : R.1 = true) :
    ∃ owner, Space H R.2 owner ∧ owner R.2.cr3 = some (R.2.cr3, []) := by
  simp only [installKernelIdentityMap, Bool.or_eq_true, decide_eq_true_eq] at hR
  generalize (if (maxPhys + 0x40000000 - 1) / 0x40000000 = 0 then 1
    else (maxPhys + 0x40000000 - 1) / 0x40000000) = gigs at hR
  split at hR
  · subst hR
    cases h
  split at hR
  · subst hR
    cases h
  rename_i hz
  obtain ⟨h₁, h₂⟩ := not_or.mp hz
  split at hR
  · rename_i hok
    subst hR
    obtain ⟨o, ho, hr, hc⟩ := identityMap_space (allocPage_new h₁) (allocPage_new h₂) rfl hok
    exact ⟨o, ho, by rw [hc]; exact hr⟩
  · subst hR
    cases h

end BlockOS.Paging
