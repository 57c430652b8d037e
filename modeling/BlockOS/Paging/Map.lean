import BlockOS.Paging.Forest

/-! `table` and `map_4k` on the forest of page tables. -/

namespace BlockOS.Paging
open Words Bytes Lib Radix List Function

variable {σ : Type} {H : BlockHeap σ}

variable {s s' : Phys σ} {np r t : Word} {owner : Owner}

theorem allocPage_null (h : (allocPage H s).1 = 0) :
    (allocPage H s).2.mem = s.mem ∧ H.live (allocPage H s).2.heap = H.live s.heap ∧
      (allocPage H s).2.cr3 = s.cr3 ∧ (allocPage H s).2.pageRefs = s.pageRefs := by
  have hz : (H.alloc s.heap 4096 4096).1 = 0 := by
    by_contra hne
    rw [allocPage, if_neg hne] at h
    exact hne h
  rw [allocPage, if_pos hz]
  exact ⟨rfl, H.live_null _ _ _ hz, rfl, rfl⟩

structure NewPage (H : BlockHeap σ) (s : Phys σ) (np : Word) (s' : Phys σ) : Prop where
  ne_zero : np ≠ 0
  frame : IsFrame np
  mem : s'.mem = memset s.mem np 0 4096
  live : H.live s'.heap = (np, 4096) :: H.live s.heap
  apart : ∀ q ∈ H.live s.heap, q.1.toNat + q.2.toNat ≤ np.toNat ∨ np.toNat + 4096 ≤ q.1.toNat
  owns : ∀ a, InPage np a → H.owns a = true
  cr3 : s'.cr3 = s.cr3
  pageRefs : s'.pageRefs = s.pageRefs

theorem allocPage_new (h : (allocPage H s).1 ≠ 0) :
    NewPage H s (allocPage H s).1 (allocPage H s).2 := by
  have hne : (H.alloc s.heap 4096 4096).1 ≠ 0 := by
    intro hz
    rw [allocPage, if_pos hz] at h
    exact h rfl
  have hb := H.below s.heap 4096 4096 hne
  have ha : 4096 ∣ (H.alloc s.heap 4096 4096).1.toNat := H.aligned s.heap 4096 4096
  rw [allocPage, if_neg hne]
  refine ⟨hne, (isFrame_iff _).mpr ⟨ha, ?_⟩, rfl, H.live_alloc _ _ _ hne, H.apart _ _ _ hne,
    H.owned _ _ _ hne, rfl, rfl⟩
  rw [show (4096 : Word).toNat = 4096 from rfl] at hb
  simp only
  omega

theorem NewPage.not_live (h : NewPage H s np s') : (np, 4096) ∉ H.live s.heap := by
  intro hm
  have := h.apart _ hm
  simp only [show (4096 : Word).toNat = 4096 from rfl] at this
  omega

theorem NewPage.entry_self (h : NewPage H s np s') (i : Index) : entry s'.mem np i = 0 := by
  rw [h.mem]
  exact entry_memset_same _ h.frame i

theorem has_zero_word (f : Word) : has 0 f = false := by simp [has]

theorem NewPage.mem_outside (h : NewPage H s np s') (ha : ¬ InPage np a) : s'.mem a = s.mem a := by
  rw [h.mem]
  exact memset_page_outside _ ha

structure Space (H : BlockHeap σ) (s : Phys σ) (owner : Owner) : Prop where
  forest : Forest s.mem owner
  live : ∀ {t x}, owner t = some x → (t, 4096) ∈ H.live s.heap

structure Grows (H : BlockHeap σ) (r : Word) (s : Phys σ) (owner : Owner) (s' : Phys σ)
    (owner' : Owner) : Prop where
  space : Space H s' owner'
  ext : ∀ {t x}, owner t = some x → owner' t = some x
  fresh : ∀ {t x}, owner' t = some x → owner t = none → x.1 = r ∧ x.2 ≠ [] ∧ (t, 4096) ∉ H.live s.heap
  live : ∀ q ∈ H.live s.heap, q ∈ H.live s'.heap
  view : ∀ {r' va}, owner r' = some (r', []) → translate s'.mem r' va = translate s.mem r' va
  links : ∀ {t x i u}, owner t = some x → nextTable (4 - x.2.length) (entry s.mem t i) = some u →
    nextTable (4 - x.2.length) (entry s'.mem t i) = some u ∧
      (has (entry s.mem t i) pteUser = true → has (entry s'.mem t i) pteUser = true)
  frame : ∀ a, (∀ t x, owner' t = some x → x.1 = r → ¬ InPage t a) → s'.mem a = s.mem a
  cr3 : s'.cr3 = s.cr3
  pageRefs : s'.pageRefs = s.pageRefs

theorem Grows.refl (hs : Space H s owner) : Grows H r s owner s owner :=
  ⟨hs, fun h => h, fun h hn => by simp [h] at hn, fun _ h => h, fun _ => rfl,
    fun _ h => ⟨h, fun hu => hu⟩, fun _ _ => rfl, rfl, rfl⟩

theorem Grows.trans (h1 : Grows H r s owner s' owner') (h2 : Grows H r s' owner' s'' owner'') :
    Grows H r s owner s'' owner'' := by
  refine ⟨h2.space, fun h => h2.ext (h1.ext h), ?_, fun q hq => h2.live q (h1.live q hq), ?_, ?_,
    ?_, h2.cr3.trans h1.cr3, h2.pageRefs.trans h1.pageRefs⟩
  · intro t x h hn
    cases ho : owner' t with
    | none =>
      obtain ⟨h3, h4, h5⟩ := h2.fresh h ho
      exact ⟨h3, h4, fun hl => h5 (h1.live _ hl)⟩
    | some y =>
      have := h2.ext ho
      rw [h] at this
      obtain rfl := Option.some.inj this
      exact h1.fresh ho hn
  · intro r' va hr
    rw [h2.view (h1.ext hr), h1.view hr]
  · intro t x i u ht hn
    obtain ⟨h3, h4⟩ := h1.links ht hn
    obtain ⟨h5, h6⟩ := h2.links (h1.ext ht) h3
    exact ⟨h5, fun hu => h6 (h4 hu)⟩
  · intro a ha
    rw [h2.frame a ha, h1.frame a fun t x ht hx => ha t x (h2.ext ht) hx]

theorem Space.of_eq (hs : Space H s owner) (hm : s'.mem = s.mem)
    (hl : H.live s'.heap = H.live s.heap) : Space H s' owner :=
  ⟨hm ▸ hs.forest, fun h => hl ▸ hs.live h⟩

theorem Grows.of_null (hs : Space H s owner)
    (h : (allocPage H s).1 = 0) : Grows H r s owner (allocPage H s).2 owner := by
  obtain ⟨h1, h2, h3, h4⟩ := allocPage_null h
  refine ⟨hs.of_eq h1 h2, fun h => h, fun h hn => by simp [h] at hn, fun q hq => h2 ▸ hq, ?_, ?_,
    fun a _ => by rw [h1], h3, h4⟩
  · intro r' va _
    rw [h1]
  intro t x i u _ hn
  rw [h1]
  exact ⟨hn, fun hu => hu⟩

structure Unlinked (H : BlockHeap σ) (s s₁ : Phys σ) (np : Word) (level : Nat) : Prop where
  frame : IsFrame np
  fresh : (np, 4096) ∉ H.live s.heap
  mem : ∀ a, ¬ InPage np a → s₁.mem a = s.mem a
  live : H.live s₁.heap = (np, 4096) :: H.live s.heap
  cr3 : s₁.cr3 = s.cr3
  pageRefs : s₁.pageRefs = s.pageRefs
  leaves : ∀ j, nextTable level (entry s₁.mem np j) = none
  ok : ∀ j, EntryOk level (entry s₁.mem np j)

structure TablePtr (e np : Word) : Prop where
  present : has e ptePresent = true
  writable : has e pteWritable = true
  small : has e ptePs = false
  exec : has e pteNx = false
  addr : e &&& addrMask = np

theorem TablePtr.next (h : TablePtr e np) (hl : 1 < level) : nextTable level e = some np := by
  rw [nextTable_of h.present (isTable_of_small hl h.small), h.addr]

theorem TablePtr.ok (h : TablePtr e np) (level : Nat) : EntryOk level e := by
  refine ⟨fun _ _ => h.small, fun _ => ⟨h.writable, h.exec⟩, fun _ _ hs => ?_⟩
  rw [h.small] at hs
  cases hs

theorem tablePtr_new (hnp : IsFrame np) (flags : Word) :
    TablePtr (np &&& addrMask ||| (ptePresent ||| pteWritable ||| flags &&& pteUser)) np := by
  obtain ⟨f1, f2, -, f4, f5, f6⟩ := newTable_flags hnp flags
  exact ⟨f1, f2, f4, f5, f6⟩

theorem NewPage.unlinked (h : NewPage H s np s') (level : Nat) : Unlinked H s s' np level := by
  have h0 := has_zero_word ptePresent
  refine ⟨h.frame, h.not_live, fun a => h.mem_outside, h.live, h.cr3, h.pageRefs, ?_, ?_⟩
  · intro j
    rw [h.entry_self]
    exact nextTable_not_present h0
  intro j
  rw [h.entry_self]
  refine ⟨fun hp => ?_, fun hn => absurd (nextTable_not_present h0) hn, fun hp => ?_⟩ <;>
  · rw [h0] at hp
    cases hp

section Link

variable {s s₁ : Phys σ} {owner : Owner} {np : Word} {level : Nat} (hs : Space H s owner)
  (hn : Unlinked H s s₁ np level)
include hs hn

theorem Unlinked.not_owned : owner np = none := by
  cases ho : owner np with
  | none => rfl
  | some x => exact absurd (hs.live ho) hn.fresh

theorem Unlinked.ne (hu : owner u = some x) : np ≠ u := by
  rintro rfl
  rw [hn.not_owned hs] at hu
  cases hu

theorem Unlinked.entry_same (hu : owner u = some x) (j : Index) :
    entry s₁.mem u j = entry s.mem u j := by
  have hf := hs.forest.frame hu
  exact entry_congr hf (fun a ha => hn.mem a (not_inPage hn.frame hf (hn.ne hs hu) ha)) j

theorem Unlinked.ext (hu : owner u = some x) : update owner np (some y) u = some x := by
  rw [update_of_ne (hn.ne hs hu).symm, hu]

omit hs hn in
theorem update_cases (hu : update owner np (some y) u = some x) : (u = np ∧ x = y) ∨
    owner u = some x := by
  by_cases h : u = np
  · subst h
    rw [update_self] at hu
    exact .inl ⟨rfl, (Option.some.inj hu).symm⟩
  · rw [update_of_ne h] at hu
    exact .inr hu

theorem Space.addTable (hp : level = 4 - p.length) : Space H s₁ (update owner np (some (r, p))) ∧
      ∀ t x i, update owner np (some (r, p)) t = some x →
        nextTable (4 - x.2.length) (entry s₁.mem t i) ≠ some np := by
  subst hp
  have hF : Forest s₁.mem owner := hs.forest.congr fun u x hu => hn.entry_same hs hu
  refine ⟨⟨hF.add hn.frame (hn.not_owned hs) hn.leaves fun _ => hn.ok, ?_⟩, ?_⟩
  · intro u x hu
    rw [hn.live]
    rcases update_cases hu with ⟨rfl, -⟩ | hu
    · exact mem_cons_self
    · exact mem_cons_of_mem _ (hs.live hu)
  · intro t x i hx hn'
    rcases update_cases hx with ⟨rfl, rfl⟩ | hx
    · rw [hn.leaves] at hn'
      cases hn'
    obtain ⟨rx, px⟩ := x
    have := hF.owned t rx px i np hx hn'
    rw [hn.not_owned hs] at this
    cases this

variable (ht : owner t = some (r, p)) (hl : level = 3 - p.length)
include ht hl

theorem Space.hang (hp : p.length ≤ 2) (i : Index) (he : TablePtr e np)
    (huser : has e pteUser = true → ParentsUser s.mem owner t)
    (hchild : ∀ j, has (entry s₁.mem np j) ptePresent = true →
      has (entry s₁.mem np j) pteUser = true → has e pteUser = true) :
    Space H (s₁.write t i e) (update owner np (some (r, p ++ [i]))) := by
  obtain ⟨h₁, hnoptr⟩ := hs.addTable hn (r := r) (p := p ++ [i]) (by simpa using hl)
  refine ⟨h₁.forest.write (hn.ext hs ht) (he.ok _) ?_ ?_, h₁.live⟩
  · intro u hu
    rw [he.next (by omega)] at hu
    obtain rfl := Option.some.inj hu
    exact ⟨update_self _ _ _, fun t' x i' hx hn' => absurd hn' (hnoptr t' x i' hx), hchild⟩
  · intro _ hU t' x i' hx hn'
    rcases update_cases hx with ⟨rfl, rfl⟩ | hx
    · have := h₁.forest.owned t' r (p ++ [i]) i' t (update_self _ _ _) hn'
      rw [hn.ext hs ht] at this
      simp at this
    · rw [hn.entry_same hs hx] at hn' ⊢
      exact huser hU t' x i' hx hn'

omit hl in
theorem Unlinked.entry_write (i : Index) (hu : owner u = some x) (hne : ¬ (u = t ∧ j = i)) :
    entry (s₁.write t i e).mem u j = entry s.mem u j := by
  rw [Phys.write, entry_setEntry_other _ (hs.forest.frame ht) (hs.forest.frame hu) e hne,
    hn.entry_same hs hu]

theorem Space.link (hp : p.length ≤ 2) (i : Index) (he : TablePtr e np)
    (hempty : nextTable (4 - p.length) (entry s.mem t i) = none)
    (huser : has e pteUser = true → ParentsUser s.mem owner t)
    (hchild : ∀ j, has (entry s₁.mem np j) ptePresent = true →
      has (entry s₁.mem np j) pteUser = true → has e pteUser = true)
    (hslot : ∀ va n, n + 1 + p.length = 4 → idx va (n + 1) = i →
      slot (scheme va) (entry (s₁.write t i e).mem) (idx va) n e =
        slot (scheme va) (entry s.mem) (idx va) n (entry s.mem t i)) :
    Grows H r s owner (s₁.write t i e) (update owner np (some (r, p ++ [i]))) := by
  have hF := hs.forest
  refine ⟨hs.hang hn ht hl hp i he huser hchild, hn.ext hs, ?_, ?_, ?_, ?_, ?_, hn.cr3, hn.pageRefs⟩
  · intro u x hu hnone
    rcases update_cases hu with ⟨rfl, rfl⟩ | hu
    · exact ⟨rfl, by simp, hn.fresh⟩
    · simp [hu] at hnone
  · intro q hq
    change q ∈ H.live s₁.heap
    rw [hn.live]
    exact mem_cons_of_mem _ hq
  · intro r' va hr
    refine hF.translate_congr (t := t) (i := i) (fun u j hu hne => ?_) hr va fun p' n h1 h2 _ h4 => ?_
    · obtain ⟨x, hx⟩ := Option.ne_none_iff_exists'.mp hu
      exact hn.entry_write hs ht i hx hne
    rw [ht] at h1
    obtain ⟨rfl, rfl⟩ := Prod.mk.inj (Option.some.inj h1)
    have hsame : entry (s₁.write t i e).mem t i = e := entry_setEntry_same _ _ _ _
    rw [hsame]
    exact hslot va n h2 h4
  · intro t' x i' u hx hn'
    by_cases hti : t' = t ∧ i' = i
    · obtain ⟨rfl, rfl⟩ := hti
      rw [ht] at hx
      obtain rfl := Option.some.inj hx
      rw [hempty] at hn'
      cases hn'
    · rw [hn.entry_write hs ht i hx hti]
      exact ⟨hn', fun hu => hu⟩
  · intro a ha
    have h1 := ha t _ (hn.ext hs ht) rfl
    have h2 := ha np _ (update_self _ _ _) rfl
    exact (setEntry_outside _ (hF.frame ht) i e h1).trans (hn.mem a h2)

end Link

theorem Space.raise (hs : Space H s owner) (ht : owner t = some (r, p)) (hp : p.length ≤ 2)
    (hu : nextTable (4 - p.length) (entry s.mem t i) = some u) (flags f : Word)
    (hf : f ∈ [pteUser, pteWritable]) (huser : has flags pteUser = true → ParentsUser s.mem owner t) :
    Grows H r s owner (raise s t i flags f) owner ∧
      nextTable (4 - p.length) (entry (raise s t i flags f).mem t i) = some u ∧
      (has flags f = true → has (entry (raise s t i flags f).mem t i) f = true) := by
  unfold Paging.raise
  split
  case isFalse h => exact ⟨Grows.refl hs, hu, fun h' => absurd h' h⟩
  rename_i hflag
  have hF := hs.forest
  have hft := hF.frame ht
  set e := entry s.mem t i with he
  obtain ⟨r1, r2, r3, r4⟩ := raise_flags e f hf
  simp only [mem_cons, not_mem_nil, or_false, forall_eq_or_imp, forall_eq] at r2 r3
  obtain ⟨rP, -, -, rPs, rNx⟩ := r2
  have hnext : nextTable (4 - p.length) (e ||| f) = nextTable (4 - p.length) e :=
    nextTable_congr rP rPs r1
  have hopen := (hF.shape ht (by omega) i).open_ (by rw [← he, hu]; simp)
  have hmono : has e pteUser = true → has (e ||| f) pteUser = true := fun h => by
    rw [has_or, h, Bool.true_or]
  have hwrite : Forest (setEntry s.mem t i (e ||| f)) owner := by
    refine hF.write ht ⟨fun h1 h2 => ?_, fun _ => ⟨?_, rNx.trans hopen.2⟩, fun h1 h2 h3 => ?_⟩ ?_ ?_
    · rw [rPs]
      exact (hF.shape ht (by omega) i).small (rP ▸ h1) h2
    · rw [has_or, hopen.1, Bool.true_or]
    · rw [h2, nextTable_large (rPs ▸ h3)] at hu
      cases hu
    · intro u' hu'
      rw [hnext] at hu'
      refine ⟨hF.owned t r p i u' ht hu', fun t' x i' hx hn => hF.parent hx ht hn hu', ?_⟩
      exact fun j hj hj' => hmono (hF.user ht hu' j hj hj')
    · intro h1 h2 t' x i' hx hn
      rcases mem_cons.mp hf with rfl | hf
      · exact huser hflag t' x i' hx hn
      · obtain rfl := mem_singleton.mp hf
        exact hF.user hx hn i (rP ▸ h1) ((r3.1 (by decide)) ▸ h2)
  have hagree : ∀ u' j, owner u' ≠ none → ¬ (u' = t ∧ j = i) →
      entry (setEntry s.mem t i (e ||| f)) u' j = entry s.mem u' j := by
    intro u' j hu' hne
    obtain ⟨x, hx⟩ := Option.ne_none_iff_exists'.mp hu'
    exact entry_setEntry_other _ hft (hF.frame hx) _ hne
  refine ⟨⟨⟨hwrite, hs.live⟩, fun h => h, fun h hn => by simp [h] at hn, fun _ h => h, ?_, ?_, ?_,
    rfl, rfl⟩, ?_, ?_⟩
  · intro r' va hr
    refine hF.translate_congr hagree hr va fun p' n h1 h2 h3 h4 => ?_
    rw [ht] at h1
    obtain ⟨rfl, rfl⟩ := Prod.mk.inj (Option.some.inj h1)
    have hlevel : 4 - p.length = n + 1 := by omega
    rw [hlevel] at hu hnext
    have hbelow := hF.eval_below hagree ht va h2 h3 h4 hu
    change slot (scheme va) (entry (setEntry s.mem t i (e ||| f))) (idx va) n
      (entry (setEntry s.mem t i (e ||| f)) t i) = _
    rw [entry_setEntry_same, slot_table va (hnext.trans hu), ← he, slot_table va hu, hbelow]
    -- a user page below needs the entry to be a user entry already
    cases hev : eval (scheme va) (entry s.mem) (idx va) n u with
    | none => rw [Option.map_none, Option.map_none]
    | some tr =>
      have hw : has (e ||| f) pteWritable = has e pteWritable := by
        rw [has_or, hopen.1, Bool.true_or]
      have huu : (tr.user && has (e ||| f) pteUser) = (tr.user && has e pteUser) := by
        cases htu : tr.user with
        | false => rw [Bool.false_and, Bool.false_and]
        | true =>
          cases n with
          | zero => cases hev
          | succ n =>
            obtain ⟨h5, h6⟩ := eval_user hev htu
            have heu : has e pteUser = true := hF.user ht (hlevel ▸ hu) _ h5 h6
            rw [hmono heu, heu]
      simp only [Option.map_some, Translation.through, hw, huu, rNx]
  · intro t' x i' u' hx hn
    by_cases hti : t' = t ∧ i' = i
    · obtain ⟨rfl, rfl⟩ := hti
      rw [ht] at hx
      obtain rfl := Option.some.inj hx
      change nextTable _ (entry (setEntry s.mem t' i' (e ||| f)) t' i') = _ ∧
        (_ → has (entry (setEntry s.mem t' i' (e ||| f)) t' i') pteUser = true)
      rw [entry_setEntry_same]
      exact ⟨hnext.trans hn, hmono⟩
    · change nextTable _ (entry (setEntry s.mem t i (e ||| f)) t' i') = _ ∧
        (_ → has (entry (setEntry s.mem t i (e ||| f)) t' i') pteUser = true)
      rw [hagree t' i' (by simp [hx]) hti]
      exact ⟨hn, fun h => h⟩
  · intro a ha
    exact setEntry_outside _ hft i _ (ha t _ ht rfl)
  · change nextTable _ (entry (setEntry s.mem t i (e ||| f)) t i) = _
    rw [entry_setEntry_same, hnext, hu]
  · intro _
    change has (entry (setEntry s.mem t i (e ||| f)) t i) f = true
    rw [entry_setEntry_same, r4]

def Linked (s : Phys σ) (owner : Owner) (t r : Word) (p : List Index) (i : Index) (u flags : Word) :
    Prop :=
  owner u = some (r, p ++ [i]) ∧ nextTable (4 - p.length) (entry s.mem t i) = some u ∧
    (has flags pteUser = true → has (entry s.mem t i) pteUser = true)

def UserPath (m : Mem) (owner : Owner) (t : Word) (p : List Index) : Prop :=
  p = [] ∨ ∃ t₀ x₀ i₀, owner t₀ = some x₀ ∧ nextTable (4 - x₀.2.length) (entry m t₀ i₀) = some t ∧
    has (entry m t₀ i₀) pteUser = true

theorem UserPath.parents (hF : Forest m owner) (ht : owner t = some (r, p))
    (h : UserPath m owner t p) :
    ParentsUser m owner t := by
  rintro t' ⟨r', p'⟩ i' hx hn
  have ho := hF.owned t' r' p' i' t hx hn
  rw [ht] at ho
  obtain ⟨rfl, rfl⟩ := Prod.mk.inj (Option.some.inj ho)
  rcases h with h | ⟨t₀, ⟨r₀, p₀⟩, i₀, h0, hn0, hu0⟩
  · simp at h
  obtain rfl := hF.parent h0 hx hn0 hn
  have ho0 := hF.owned t₀ r₀ p₀ i₀ t h0 hn0
  rw [ht] at ho0
  have hi := (append_inj' (Prod.mk.inj (Option.some.inj ho0)).2 rfl).2
  obtain rfl := (List.cons.inj hi).1
  exact hu0

theorem UserPath.grows (hg : Grows H r s owner s' owner')
    (h : UserPath s.mem owner t p) : UserPath s'.mem owner' t p := by
  rcases h with h | ⟨t₀, x₀, i₀, h0, hn0, hu0⟩
  · exact .inl h
  · obtain ⟨h1, h2⟩ := hg.links h0 hn0
    exact .inr ⟨t₀, x₀, i₀, hg.ext h0, h1, h2 hu0⟩

theorem raise_both (hs : Space H s owner) (ht : owner t = some (r, p)) (hp : p.length ≤ 2)
    (hu : nextTable (4 - p.length) (entry s.mem t i) = some u)
    (huser : has flags pteUser = true → UserPath s.mem owner t p) :
    Grows H r s owner (raise (raise s t i flags pteUser) t i flags pteWritable) owner ∧
      Linked (raise (raise s t i flags pteUser) t i flags pteWritable) owner t r p i u flags := by
  obtain ⟨g1, n1, u1⟩ := hs.raise ht hp hu flags pteUser (by simp)
    fun hf => (huser hf).parents hs.forest ht
  obtain ⟨g2, n2, -⟩ := g1.space.raise ht hp n1 flags pteWritable (by simp)
    fun hf => ((huser hf).grows g1).parents g1.space.forest ht
  refine ⟨g1.trans g2, hs.forest.owned _ _ _ _ _ ht hu, n2, fun hf => ?_⟩
  exact (g2.links ht n1).2 (u1 hf)

theorem splitLarge_spec (hs : Space H s owner) (ht : owner t = some (r, p)) (hp : p.length ≤ 2)
    (i : Index) :
    ∃ owner', Grows H r s owner (splitLarge H s t i).2 owner' ∧ ((splitLarge H s t i).1 = true →
      has (entry (splitLarge H s t i).2.mem t i) ptePresent = true →
      ∃ u, nextTable (4 - p.length) (entry (splitLarge H s t i).2.mem t i) = some u) := by
  have hF := hs.forest
  have hshape := hF.shape ht (by omega) i
  by_cases hc : (has (entry s.mem t i) ptePresent && has (entry s.mem t i) ptePs) = true
  · obtain ⟨hP, hPs⟩ := Bool.and_eq_true_iff.mp hc
    -- only page directories hold large leaves
    have h2 : p.length = 2 := by
      by_contra hne
      have := hshape.small hP (by omega)
      rw [hPs] at this
      cases this
    by_cases hz : (allocPage H s).1 = 0
    · have he : splitLarge H s t i = (false, (allocPage H s).2) := by
        simp only [splitLarge, hc, hz, if_true]
      rw [he]
      exact ⟨owner, Grows.of_null hs hz, fun h => Bool.noConfusion h⟩
    · have hnew := allocPage_new hz
      set np := (allocPage H s).1 with hnp
      set e := entry s.mem t i with hedef
      have he : splitLarge H s t i = (true,
          ({ (allocPage H s).2 with mem := fillTable (allocPage H s).2.mem np (splitEntry e) }).write
            t i (np &&& addrMask ||| (ptePresent ||| pteWritable ||| e &&& pteUser))) := by
        simp only [splitLarge, ← hedef, hc, if_true, ← hnp, if_neg hz, BitVec.or_assoc]
      rw [he]
      have hptr := tablePtr_new hnew.frame e
      have hU : has e pteUser = false := hshape.large hP (by omega) hPs
      have hpU := (newTable_flags hnew.frame e).2.2.1
      have hent : ∀ j, entry (fillTable (allocPage H s).2.mem np (splitEntry e)) np j =
          splitEntry e j := entry_fillTable_same _ hnew.frame _
      have hout : ∀ a, ¬ InPage np a → fillTable (allocPage H s).2.mem np (splitEntry e) a =
          s.mem a := by
        intro a ha
        rw [fillTable_outside _ hnew.frame _ ha, hnew.mem_outside ha]
      generalize fillTable (allocPage H s).2.mem np (splitEntry e) = m₁ at hent hout ⊢
      have hun : Unlinked H s { (allocPage H s).2 with mem := m₁ } np 1 :=
        ⟨hnew.frame, hnew.not_live, hout, hnew.live, hnew.cr3, hnew.pageRefs,
          fun j => nextTable_one _, fun j => ⟨fun _ h => by omega,
            fun h => absurd (nextTable_one _) h, fun _ h => by omega⟩⟩
      have key := hs.link hun ht (by omega) hp i hptr (by rw [h2]; exact nextTable_large hPs)
        (fun h => by rw [hpU, hU] at h; cases h)
        (fun j _ h => by
          have hs3 := (splitEntry_flags e j).2.1 pteUser (by simp)
          rw [← hent j] at hs3
          exact hpU.trans (hs3.symm.trans h))
        ?_
      · exact ⟨_, key, fun _ _ => ⟨np, by
          change nextTable _ (entry (setEntry _ t i _) t i) = _
          rw [entry_setEntry_same]
          exact hptr.next (by omega)⟩⟩
      · intro va n hn hi
        obtain rfl : n = 1 := by omega
        have hne : np ≠ t := fun h => hnew.not_live (h ▸ hs.live ht)
        have hnpj : ∀ e' j, entry (setEntry m₁ t i e') np j = splitEntry e j := fun e' j => by
          rw [entry_setEntry_other _ (hF.frame ht) hnew.frame _ (by simp [hne]), hent]
        have hL : leafTranslation va 1 (splitEntry e (idx va 1)) = leafTranslation va 2 e :=
          leafTranslation_split va e
        rw [slot_table va (hptr.next (by decide)), slot_leaf va (nextTable_large hPs), if_pos hP,
          eval_succ]
        change (slot (scheme va) (entry (setEntry _ t i _)) (idx va) 0
          (entry (setEntry _ t i _) np _)).map
          _ = _
        rw [hnpj, slot_leaf va (nextTable_one _), if_pos (splitEntry_flags e _).1, hL, Option.map_some]
        simp only [Translation.through, leafTranslation, hptr.writable, hpU, hptr.exec, hU,
          Bool.and_true, Bool.or_false, Bool.and_self]
  · have he : splitLarge H s t i = (true, s) := by
      simp only [splitLarge, hc]
      rfl
    rw [he]
    refine ⟨owner, Grows.refl hs, fun _ hP => ?_⟩
    simp only [hP, Bool.true_and, Bool.not_eq_true] at hc
    exact ⟨_, nextTable_of hP (isTable_of_small (by omega) hc)⟩

theorem Space.linkNew (hs : Space H s owner) (ht : owner t = some (r, p)) (hp : p.length ≤ 2)
    (hnew : NewPage H s np s') (hP : has (entry s.mem t i) ptePresent = false)
    (huser : has flags pteUser = true → UserPath s.mem owner t p) :
    ∃ owner', Grows H r s owner (s'.write t i
        (np &&& addrMask ||| (ptePresent ||| pteWritable ||| flags &&& pteUser))) owner' ∧
      Linked (s'.write t i (np &&& addrMask ||| (ptePresent ||| pteWritable ||| flags &&& pteUser)))
        owner' t r p i np
        flags := by
  have hptr := tablePtr_new hnew.frame flags
  have hpU := (newTable_flags hnew.frame flags).2.2.1
  have hF := hs.forest
  have hne : np ≠ t := fun h => hnew.not_live (h ▸ hs.live ht)
  generalize np &&& addrMask ||| (ptePresent ||| pteWritable ||| flags &&& pteUser) = e at *
  have hzero : ∀ j, entry (s'.write t i e).mem np j = 0 := fun j => by
    rw [Phys.write, entry_setEntry_other _ (hF.frame ht) hnew.frame _ (by simp [hne]), hnew.entry_self]
  have key := hs.link (hnew.unlinked _) ht rfl hp i hptr (nextTable_not_present hP)
    (fun h => (huser (hpU ▸ h)).parents hF ht)
    (fun j h => by
      rw [hnew.entry_self, has_zero_word] at h
      cases h)
    (fun va n hn _ => by
      rw [slot_table va (hptr.next (by omega)), slot_leaf va (nextTable_not_present hP), hP,
        eval_empty hzero]
      rfl)
  have hsame : entry (s'.write t i e).mem t i = e := entry_setEntry_same _ _ _ _
  refine ⟨_, key, update_self _ _ _, ?_, ?_⟩
  · rw [hsame]
    exact hptr.next (by omega)
  · intro hf
    rw [hsame, hpU, hf]

theorem table_eq (s : Phys σ) (t : Word) (i : Index) (flags : Word) : table H s t i flags =
      if (splitLarge H s t i).1 = false then (none, (splitLarge H s t i).2)
      else if has (entry (splitLarge H s t i).2.mem t i) ptePresent = false then
        (if (allocPage H (splitLarge H s t i).2).1 = 0 then
          (none, (allocPage H (splitLarge H s t i).2).2)
        else (some (allocPage H (splitLarge H s t i).2).1,
          (allocPage H (splitLarge H s t i).2).2.write t i
          ((allocPage H (splitLarge H s t i).2).1 &&& addrMask |||
            (ptePresent ||| pteWritable ||| flags &&& pteUser))))
      else (some (entry (splitLarge H s t i).2.mem t i &&& addrMask),
        raise (raise (splitLarge H s t i).2 t i flags pteUser) t i flags pteWritable) := by
  simp only [table, Bool.not_eq_true']

theorem table_spec (hs : Space H s owner) (ht : owner t = some (r, p)) (hp : p.length ≤ 2)
    (i : Index) (flags : Word)
    (huser : has flags pteUser = true → UserPath s.mem owner t p) :
    ∃ owner', Grows H r s owner (table H s t i flags).2 owner' ∧
      ((table H s t i flags).1 = none ∨ ∃ u, (table H s t i flags).1 = some u ∧
        Linked (table H s t i flags).2 owner' t r p i u flags) := by
  obtain ⟨o₁, g₁, h₁⟩ := splitLarge_spec hs ht hp i
  rw [table_eq]
  generalize splitLarge H s t i = r₁ at g₁ h₁ ⊢
  obtain ⟨ok, s₁⟩ := r₁
  simp only at g₁ h₁ ⊢
  have ht₁ := g₁.ext ht
  have huser₁ := fun hf => (huser hf).grows g₁
  split
  · exact ⟨o₁, g₁, .inl rfl⟩
  rename_i hok
  split
  · rename_i hP
    split
    · rename_i hz
      exact ⟨o₁, g₁.trans (Grows.of_null g₁.space hz), .inl rfl⟩
    rename_i hz
    obtain ⟨o₂, g₂, hl⟩ := g₁.space.linkNew ht₁ hp (i := i) (allocPage_new hz) hP huser₁
    exact ⟨o₂, g₁.trans g₂, .inr ⟨_, rfl, hl⟩⟩
  · rename_i hP
    obtain ⟨u, hu⟩ := h₁ (Bool.eq_true_of_not_eq_false hok) (Bool.eq_true_of_not_eq_false hP)
    obtain ⟨g₂, hl⟩ := raise_both g₁.space ht₁ hp hu huser₁
    rw [← (nextTable_some hu).2.2]
    exact ⟨o₁, g₁.trans g₂, .inr ⟨u, rfl, hl⟩⟩

end BlockOS.Paging
