import BlockOS.Paging.Map

/-! Cloning a tree of page tables. -/

namespace BlockOS.Paging
open Words Bytes Lib Loops List

variable {σ : Type} {H : BlockHeap σ} {s s' s'' : Phys σ}

def Kept (H : BlockHeap σ) (s : Phys σ) (a : Word) : Prop :=
  H.owns a = false ∨ ∃ q ∈ H.live s.heap, q.1.toNat ≤ a.toNat ∧ a.toNat < q.1.toNat + q.2.toNat

def KeptPage (H : BlockHeap σ) (s : Phys σ) (t : Word) : Prop := ∀ a, InPage t a → Kept H s a

variable {a : Word} {log : PageLog}

theorem Kept.mono (h : ∀ q ∈ H.live s.heap, q ∈ H.live s'.heap) (ha : Kept H s a) : Kept H s' a := by
  rcases ha with ha | ⟨q, hq, hb⟩
  · exact .inl ha
  · exact .inr ⟨q, h q hq, hb⟩

theorem inPage_toNat (ht : IsFrame t) (h : InPage t a) : t.toNat ≤ a.toNat ∧
    a.toNat < t.toNat + 4096 := by
  have h1 := ht.lt
  have h2 := ht.dvd
  have h3 := toNat_lt a
  unfold InPage at h
  rw [BitVec.toNat_sub] at h
  omega

theorem keptPage_of_live (ht : IsFrame t) (h : (t, 4096) ∈ H.live s.heap) :
    KeptPage H s t := fun _ ha => .inr ⟨_, h, inPage_toNat ht ha⟩

theorem NewPage.not_kept (h : NewPage H s np s') (ha : InPage np a) : ¬ Kept H s a := by
  have hb := inPage_toNat h.frame ha
  rintro (ho | ⟨q, hq, hqa⟩)
  · rw [h.owns a ha] at ho
    cases ho
  · have := h.apart q hq
    omega

def KeptTree (H : BlockHeap σ) (s : Phys σ) : Nat → Word → Prop
  | 0, _ => True
  | n + 1, t =>
    IsFrame t ∧ KeptPage H s t ∧ ∀ i c, nextTable (n + 1) (entry s.mem t i) = some c →
      KeptTree H s n c

structure Keeps (H : BlockHeap σ) (s s' : Phys σ) : Prop where
  live : ∀ q ∈ H.live s.heap, q ∈ H.live s'.heap
  mem : ∀ a, Kept H s a → s'.mem a = s.mem a

theorem Keeps.kept (h : Keeps H s s') (ha : Kept H s a) : Kept H s' a := ha.mono h.live

theorem Keeps.entry (h : Keeps H s s') (ht : IsFrame t) (hk : KeptPage H s t) (i : Index) :
    entry s'.mem t i = entry s.mem t i :=
  entry_congr ht (fun a ha => h.mem a (hk a ha)) i

theorem KeptTree.keeps (h : Keeps H s s') : ∀ {n t}, KeptTree H s n t → KeptTree H s' n t := by
  intro n
  induction n with
  | zero => exact fun _ => trivial
  | succ n ih =>
    rintro t ⟨hf, hk, hc⟩
    refine ⟨hf, fun a ha => h.kept (hk a ha), fun i c hn => ih (hc i c ?_)⟩
    rwa [h.entry hf hk] at hn

abbrev PageLog := List (List Index × Word)

structure Took (H : BlockHeap σ) (s s' : Phys σ) (log : PageLog) : Prop where
  nodup : (log.map Prod.snd).Nodup
  page : ∀ x ∈ log, IsFrame x.2 ∧ x.2 ≠ 0
  fresh : ∀ x ∈ log, ∀ a, InPage x.2 a → ¬ Kept H s a
  taken : ∀ x ∈ log, (x.2, 4096) ∈ H.live s'.heap
  live : ∀ q ∈ H.live s.heap, q ∈ H.live s'.heap
  mem : ∀ a, (∀ x ∈ log, ¬ InPage x.2 a) → s'.mem a = s.mem a
  cr3 : s'.cr3 = s.cr3

theorem Took.keeps (h : Took H s s' log) : Keeps H s s' :=
  ⟨h.live, fun a ha => h.mem a fun x hx hin => h.fresh x hx a hin ha⟩

theorem Took.of_eq (hm : s'.mem = s.mem) (hl : ∀ q ∈ H.live s.heap, q ∈ H.live s'.heap)
    (hc : s'.cr3 = s.cr3) : Took H s s' [] :=
  ⟨nodup_nil, by simp, by simp, by simp, hl, fun a _ => by rw [hm], hc⟩

theorem Took.refl : Took H s s [] := Took.of_eq rfl (fun _ h => h) rfl

theorem Took.kept_page (h : Took H s s' log) (hx : x ∈ log) :
    KeptPage H s' x.2 := keptPage_of_live (h.page x hx).1 (h.taken x hx)

theorem inPage_self (t : Word) : InPage t t := by simp [InPage]

theorem Took.trans (h : Took H s s' l) (h' : Took H s' s'' l') : Took H s s'' (l ++ l') := by
  refine ⟨?_, ?_, ?_, ?_, fun q hq => h'.live q (h.live q hq), ?_, h'.cr3.trans h.cr3⟩
  · rw [map_append, nodup_append]
    refine ⟨h.nodup, h'.nodup, ?_⟩
    intro a ha b hb hab
    obtain ⟨x, hx, rfl⟩ := mem_map.mp ha
    obtain ⟨y, hy, rfl⟩ := mem_map.mp hb
    exact h'.fresh y hy _ (inPage_self _) (hab ▸ h.kept_page hx _ (inPage_self _))
  · intro x hx
    rcases mem_append.mp hx with hx | hx
    · exact h.page x hx
    · exact h'.page x hx
  · intro x hx a ha hk
    rcases mem_append.mp hx with hx | hx
    · exact h.fresh x hx a ha hk
    · exact h'.fresh x hx a ha (hk.mono h.live)
  · intro x hx
    rcases mem_append.mp hx with hx | hx
    · exact h'.live _ (h.taken x hx)
    · exact h'.taken x hx
  · intro a ha
    rw [h'.mem a fun x hx => ha x (mem_append_right _ hx), h.mem a fun x hx =>
      ha x (mem_append_left _ hx)]

theorem Took.of_null (h : (allocPage H s).1 = 0) : Took H s (allocPage H s).2 [] := by
  obtain ⟨h1, h2, h3, -⟩ := allocPage_null h
  exact Took.of_eq h1 (fun q hq => h2 ▸ hq) h3

theorem Took.of_new (h : NewPage H s np s') (p : List Index) : Took H s s' [(p, np)] := by
  refine ⟨by simp, ?_, ?_, ?_, ?_, ?_, h.cr3⟩
  · simpa using ⟨h.frame, h.ne_zero⟩
  · simpa using fun a ha => h.not_kept ha
  · simp [h.live]
  · intro q hq
    rw [h.live]
    exact mem_cons_of_mem _ hq
  · intro a ha
    exact h.mem_outside (by simpa using ha)

theorem Took.store (h : Took H s s' log) (hx : x ∈ log)
    (hm : ∀ a, ¬ InPage x.2 a → m a = s'.mem a) : Took H s { s' with mem := m } log :=
  ⟨h.nodup, h.page, h.fresh, h.taken, h.live, fun a ha => (hm a (ha x hx)).trans (h.mem a ha), h.cr3⟩

theorem Took.unique (h : Took H s s' log) (hp : (p, u) ∈ log) (hq : (q, u) ∈ log) : p = q := by
  have := inj_on_of_nodup_map h.nodup hp hq rfl
  exact (Prod.mk.inj this).1

abbrev Own := List Index → Word → Prop

abbrev LeafRel (σ : Type) := Phys σ → Own → Mem → List Index → Nat → Word → Word → Prop

structure CopiedEntry (leaf : Word → Word → Prop) (sub : Word → Word → Prop) (n : Nat)
    (e e' : Word) : Prop where
  absent : has e ptePresent = false → e' = 0
  table : ∀ c, nextTable n e = some c → ∃ c', IsFrame c' ∧
    e' = (c' &&& addrMask ||| e &&& 0xfff ||| e &&& pteNx) ∧ sub c c'
  leaf : has e ptePresent = true → nextTable n e = none → leaf e e'

def Mirrors (leaf : LeafRel σ) (s : Phys σ) (own : Own) (m : Mem) : Nat → List Index → Word → Word →
    Prop
  | 0, _, _, _ => True
  | n + 1, p, t, u => own p u ∧ IsFrame u ∧ ∀ i,
    CopiedEntry (leaf s own m (p ++ [i]) (n + 1)) (Mirrors leaf s own m n (p ++ [i])) (n + 1)
      (entry s.mem t i) (entry m u i)

theorem CopiedEntry.imp {leaf leaf' sub sub' : Word → Word → Prop}
    (h : CopiedEntry leaf sub n e e') (hl : leaf e e' → leaf' e e')
    (hs : ∀ c c', nextTable n e = some c → sub c c' → sub' c c') : CopiedEntry leaf' sub' n e e' := by
  refine ⟨h.absent, fun c hc => ?_, fun h1 h2 => hl (h.leaf h1 h2)⟩
  obtain ⟨c', h1, h2, h3⟩ := h.table c hc
  exact ⟨c', h1, h2, hs c c' hc h3⟩

def SameFlags (e e' : Word) : Prop :=
  ∀ f ∈ [ptePresent, pteWritable, pteUser, ptePwt, ptePcd, ptePs, pteNx], has e' f = has e f

structure LeafLaw (H : BlockHeap σ) (copyLeaf : Nat → Word → Phys σ → LeafCopy × Phys σ)
    (leaf : LeafRel σ) : Prop where
  spec : ∀ q n e s, ∃ log, Took H s (copyLeaf n e s).2 log ∧ ∀ e',
    (copyLeaf n e s).1 = .fill e' ∨ ((copyLeaf n e s).1 = .skip ∧ e' = 0) →
    leaf s (fun q x => (q, x) ∈ log) (copyLeaf n e s).2.mem q n e e'
  source : ∀ {s s' own m q n e e'}, Keeps H s s' → leaf s' own m q n e e' → leaf s own m q n e e'
  target : ∀ {s} {own own' : Own} {m m' q n e e'}, (∀ q x, own q x → own' q x) →
    (∀ q x, own q x → ∀ a, InPage x a → m' a = m a) → leaf s own m q n e e' →
    leaf s own' m' q n e e'
  flags : ∀ {s own m q n e e'}, leaf s own m q n e e' → e' = 0 ∨ SameFlags e e'

section Mirror

variable {copyLeaf : Nat → Word → Phys σ → LeafCopy × Phys σ} {leaf : LeafRel σ}

variable {p : List Index} {np : Word} {n : Nat}

theorem Mirrors.source (hL : LeafLaw H copyLeaf leaf) (hk : Keeps H s s') :
    ∀ {n p t u}, KeptTree H s n t → Mirrors leaf s' own m n p t u → Mirrors leaf s own m n p t u := by
  intro n
  induction n with
  | zero => exact fun _ _ => trivial
  | succ n ih =>
    rintro p t u ⟨hf, hkp, hc⟩ ⟨ho, hu, h⟩
    refine ⟨ho, hu, fun i => ?_⟩
    have hi := h i
    rw [hk.entry hf hkp] at hi
    exact hi.imp (hL.source hk) fun c c' hn => ih (hc i c hn)

theorem Mirrors.target (hL : LeafLaw H copyLeaf leaf)
    (ho : ∀ q x, own q x → own' q x) (hm : ∀ q x, own q x → ∀ a, InPage x a → m' a = m a) :
    ∀ {n p t u}, Mirrors leaf s own m n p t u → Mirrors leaf s own' m' n p t u := by
  intro n
  induction n with
  | zero => exact fun _ => trivial
  | succ n ih =>
    rintro p t u ⟨hp, hu, h⟩
    refine ⟨ho p u hp, hu, fun i => ?_⟩
    rw [entry_congr hu (hm p u hp)]
    exact (h i).imp (hL.target ho hm) fun c c' _ => ih

def CloneSpec (leaf : LeafRel σ) (H : BlockHeap σ) (n : Nat) (p : List Index) (t : Word)
    (s : Phys σ)
    (R : Word × Phys σ) : Prop :=
  ∃ log, Took H s R.2 log ∧ (R.1 ≠ 0 → Mirrors leaf s (fun q x => (q, x) ∈ log) R.2.mem n p t R.1)

def Filling (leaf : LeafRel σ) (H : BlockHeap σ) (n : Nat) (p : List Index) (t np : Word)
    (s : Phys σ)
    (pre : List Index) (s' : Phys σ) : Prop :=
  ∃ log : PageLog, Took H s s' ((p, np) :: log) ∧ (∀ i ∉ pre, entry s'.mem np i = 0) ∧
    ∀ i ∈ pre, CopiedEntry (leaf s (fun q x => (q, x) ∈ log) s'.mem (p ++ [i]) (n + 1))
      (Mirrors leaf s (fun q x => (q, x) ∈ log) s'.mem n (p ++ [i])) (n + 1)
      (entry s.mem t i) (entry s'.mem np i)

theorem Took.head_apart (h : Took H s s' ((p, np) :: log)) (hx : x ∈ log) (ha : InPage x.2 a) :
    ¬ InPage np a := by
  refine not_inPage (h.page _ mem_cons_self).1 (h.page x (mem_cons_of_mem _ hx)).1 ?_ ha
  intro he
  have := h.nodup
  rw [map_cons, nodup_cons] at this
  exact this.1 (mem_map.mpr ⟨x, hx, he.symm⟩)

theorem Filling.step (hL : LeafLaw H copyLeaf leaf)
    (ht : KeptTree H s (n + 1) t) (hF : Filling leaf H n p t np s pre s') (hT : Took H s' s'' log)
    (hc : CopiedEntry (leaf s' (fun q x => (q, x) ∈ log) s''.mem (p ++ [i]) (n + 1))
      (Mirrors leaf s' (fun q x => (q, x) ∈ log) s''.mem n (p ++ [i])) (n + 1)
      (entry s.mem t i) e') (hheap : s₃.heap = s''.heap) (hcr3 : s₃.cr3 = s''.cr3)
    (hmem : ∀ a, ¬ InPage np a → s₃.mem a = s''.mem a) (hi : entry s₃.mem np i = e')
    (hj : ∀ j, j ≠ i → entry s₃.mem np j = entry s''.mem np j) :
    Filling leaf H n p t np s (pre ++ [i]) s₃ := by
  obtain ⟨l, hl, hempty, hdone⟩ := hF
  have hnp := (hl.page _ mem_cons_self).1
  have hall : Took H s s'' ((p, np) :: (l ++ log)) := hl.trans hT
  have hT₃ : Took H s s₃ ((p, np) :: (l ++ log)) := by
    have := hall.store mem_cons_self hmem
    exact ⟨this.nodup, this.page, this.fresh, fun x hx => hheap ▸ this.taken x hx,
      fun q hq => hheap ▸ this.live q hq, this.mem, hcr3.trans this.cr3⟩
  -- the new table is not touched by the copying of one entry
  have hnpj : ∀ j, entry s''.mem np j = entry s'.mem np j := fun j =>
    hT.keeps.entry hnp (hl.kept_page mem_cons_self) j
  refine ⟨l ++ log, hT₃, ?_, ?_⟩
  · intro j hjp
    simp only [mem_append, mem_singleton, not_or] at hjp
    rw [hj j hjp.2, hnpj, hempty j hjp.1]
  intro j hjp
  by_cases hji : j = i
  · subst hji
    have hown : ∀ q x, (q, x) ∈ log → (q, x) ∈ l ++ log := fun q x h => mem_append_right _ h
    have hsame : ∀ q x, (q, x) ∈ log → ∀ a, InPage x a → s₃.mem a = s''.mem a := fun q x hx a ha =>
      hmem a (hall.head_apart (mem_append_right _ hx) ha)
    rw [hi]
    exact hc.imp (fun h => hL.target hown hsame (hL.source hl.keeps h)) fun c c' hn h =>
      ((h.target hL hown hsame).source hL hl.keeps (ht.2.2 j c hn))
  · have hjpre : j ∈ pre := by simpa [hji] using hjp
    have hown : ∀ q x, (q, x) ∈ l → (q, x) ∈ l ++ log := fun q x h => mem_append_left _ h
    have hsame : ∀ q x, (q, x) ∈ l → ∀ a, InPage x a → s₃.mem a = s'.mem a := by
      intro q x hx a ha
      rw [hmem a (hl.head_apart hx ha)]
      exact hT.keeps.mem a (hl.kept_page (mem_cons_of_mem _ hx) a ha)
    rw [hj j hji, hnpj]
    exact (hdone j hjpre).imp (hL.target hown hsame) fun c c' _ h => h.target hL hown hsame

theorem Mirrors.isFrame (h : Mirrors leaf s own m n p t u) (hn : nextTable (n + 1) e = some t) :
    IsFrame u := by
  cases n with
  | zero =>
    rw [nextTable_one] at hn
    cases hn
  | succ n => exact h.2.1

theorem cloneEntry_spec (hL : LeafLaw H copyLeaf leaf)
    (hchild : ∀ c s, KeptTree H s n c → CloneSpec leaf H n (p ++ [i]) c s (child c s))
    (ht : KeptTree H s (n + 1) t) (hF : Filling leaf H n p t np s pre s') (hi : i ∉ pre)
    (hR : cloneEntry child copyLeaf (n + 1) t np i s' = R) :
    (R.1 = true → Filling leaf H n p t np s (pre ++ [i]) R.2) ∧
      (R.1 = false → ∃ log, Took H s R.2 log) := by
  obtain ⟨l, hl, hempty, -⟩ := id hF
  have hnp := (hl.page _ mem_cons_self).1
  have he : entry s'.mem t i = entry s.mem t i := hl.keeps.entry ht.1 ht.2.1 i
  have hother : ∀ (s'' : Phys σ) e' j, j ≠ i →
      entry (s''.write np i e').mem np j = entry s''.mem np j := fun s'' e' j hji =>
    entry_setEntry_other _ hnp hnp _ (by simp [hji])
  have hout : ∀ (s'' : Phys σ) e' a, ¬ InPage np a → (s''.write np i e').mem a = s''.mem a :=
    fun s'' e' a ha => setEntry_outside _ hnp i e' ha
  unfold cloneEntry at hR
  simp only [he, Bool.not_eq_true'] at hR
  split at hR
  · rename_i hP
    subst hR
    refine ⟨fun _ => ?_, fun h => Bool.noConfusion h⟩
    refine hF.step hL ht Took.refl ⟨fun _ => rfl, fun c hc => ?_, fun h => ?_⟩ rfl rfl
      (fun _ _ => rfl) (hempty i hi) fun _ _ => rfl
    · rw [nextTable_not_present hP] at hc
      cases hc
    · rw [hP] at h
      cases h
  rename_i hP
  have hP := Bool.eq_true_of_not_eq_false hP
  split at hR
  · rename_i htab
    have hn := nextTable_of hP htab
    obtain ⟨log, hT, hM⟩ := hchild _ s' ((ht.2.2 i _ hn).keeps hl.keeps)
    generalize child (entry s.mem t i &&& addrMask) s' = c at hT hM hR
    obtain ⟨c', s''⟩ := c
    simp only at hT hM hR
    split at hR
    · subst hR
      exact ⟨fun h => Bool.noConfusion h, fun _ => ⟨_, hl.trans hT⟩⟩
    rename_i hne
    subst hR
    have hM := hM hne
    refine ⟨fun _ => ?_, fun h => Bool.noConfusion h⟩
    refine hF.step hL ht hT ⟨fun h => ?_, fun c hc => ?_, fun _ h => ?_⟩ rfl rfl
      (hout _ _) (entry_setEntry_same _ _ _ _) (hother _ _)
    · rw [hP] at h
      cases h
    · rw [hn] at hc
      obtain rfl := Option.some.inj hc
      exact ⟨c', hM.isFrame hn, rfl, hM⟩
    · rw [hn] at h
      cases h
  · rename_i htab
    have hn : nextTable (n + 1) (entry s.mem t i) = none := by simp [nextTable, htab]
    obtain ⟨log, hT, hleaf⟩ := hL.spec (p ++ [i]) (n + 1) (entry s.mem t i) s'
    generalize copyLeaf (n + 1) (entry s.mem t i) s' = c at hT hleaf hR
    obtain ⟨c, s''⟩ := c
    have hcopied : ∀ e', c = .fill e' ∨ (c = .skip ∧ e' = 0) →
        CopiedEntry (leaf s' (fun q x => (q, x) ∈ log) s''.mem (p ++ [i]) (n + 1))
          (Mirrors leaf s' (fun q x => (q, x) ∈ log) s''.mem n (p ++ [i])) (n + 1)
          (entry s.mem t i) e' := by
      refine fun e' hc => ⟨fun h => ?_, fun c hc => ?_, fun _ _ => hleaf e' hc⟩
      · rw [hP] at h
        cases h
      · rw [hn] at hc
        cases hc
    cases c with
    | fail =>
      subst hR
      exact ⟨fun h => Bool.noConfusion h, fun _ => ⟨_, hl.trans hT⟩⟩
    | skip =>
      subst hR
      refine ⟨fun _ => ?_, fun h => Bool.noConfusion h⟩
      refine hF.step hL ht hT (hcopied 0 (.inr ⟨rfl, rfl⟩)) rfl rfl (fun _ _ => rfl) ?_ fun _ _ => rfl
      rw [hT.keeps.entry hnp (hl.kept_page mem_cons_self), hempty i hi]
    | fill e' =>
      subst hR
      refine ⟨fun _ => ?_, fun h => Bool.noConfusion h⟩
      exact hF.step hL ht hT (hcopied e' (.inl rfl)) rfl rfl (hout _ _)
        (entry_setEntry_same _ _ _ _) (hother _ _)

theorem indices_nodup : indices.Nodup := by
  refine List.Nodup.map_on ?_ nodup_range
  intro a ha b hb hab
  have := congrArg BitVec.toNat hab
  simp only [mem_range] at ha hb
  simp only [BitVec.toNat_ofNat] at this
  omega

theorem cloneLoop_spec (hL : LeafLaw H copyLeaf leaf)
    (hchild : ∀ q c s, KeptTree H s n c → CloneSpec leaf H n q c s (child c s))
    (ht : KeptTree H s (n + 1) t) (hl : l.Nodup) (h0 : Filling leaf H n p t np s [] s')
    (hR : tryEach (cloneEntry child copyLeaf (n + 1) t np) l s' = R) :
    (R.1 = true ∧ Filling leaf H n p t np s l R.2) ∨ (R.1 = false ∧ ∃ log, Took H s R.2 log) := by
  subst hR
  have hnot : ∀ {pre i post}, l = pre ++ i :: post → i ∉ pre := by
    rintro pre i post rfl hi
    exact (nodup_append.mp hl).2.2 i hi i mem_cons_self rfl
  refine tryEach_spec (Q := fun s' => ∃ log, Took H s s' log) h0 ?_ ?_
  · intro pre i post s₁ hpre hF hb
    exact (cloneEntry_spec hL (hchild (p ++ [i])) ht hF (hnot hpre) rfl).1 hb
  · intro pre i post s₁ hpre hF hb
    exact (cloneEntry_spec hL (hchild (p ++ [i])) ht hF (hnot hpre) rfl).2 hb

theorem cloneLoop_clone (hL : LeafLaw H copyLeaf leaf)
    (hchild : ∀ q c s, KeptTree H s n c → CloneSpec leaf H n q c s (child c s))
    (ht : KeptTree H s (n + 1) t) (hnew : NewPage H s np s') (hl : l.Nodup) (hmem : ∀ i, i ∈ l) :
    CloneSpec leaf H (n + 1) p t s (if (tryEach (cloneEntry child copyLeaf (n + 1) t np) l s').1
      then np else 0,
        (tryEach (cloneEntry child copyLeaf (n + 1) t np) l s').2) := by
  have h0 : Filling leaf H n p t np s [] s' :=
    ⟨[], Took.of_new hnew p, fun i _ => hnew.entry_self i, by simp⟩
  generalize hR : tryEach (cloneEntry child copyLeaf (n + 1) t np) l s' = R
  rcases cloneLoop_spec hL hchild ht hl h0 hR with ⟨hok, log, hT, -, hM⟩ | ⟨hok, log, hT⟩
  · refine ⟨_, hT, fun _ => ?_⟩
    simp only [hok, if_true]
    refine ⟨mem_cons_self, hnew.frame, fun i => (hM i (hmem i)).imp ?_ fun c c' _ h => ?_⟩
    · exact hL.target (fun q x h => mem_cons_of_mem _ h) fun _ _ _ _ _ => rfl
    · exact h.target hL (fun q x h => mem_cons_of_mem _ h) fun _ _ _ _ _ => rfl
  · refine ⟨log, hT, fun h => absurd ?_ h⟩
    simp [hok]

theorem cloneTable_spec (hL : LeafLaw H copyLeaf leaf) :
    ∀ n p t s, KeptTree H s n t → CloneSpec leaf H n p t s (cloneTable H copyLeaf n t s) := by
  intro n
  induction n with
  | zero => exact fun p t s _ => ⟨[], Took.refl, fun _ => trivial⟩
  | succ n ih =>
    intro p t s ht
    rw [cloneTable]
    split
    · rename_i hz
      exact ⟨[], Took.of_null hz, fun h => absurd rfl h⟩
    · rename_i hz
      exact cloneLoop_clone hL ih ht (allocPage_new hz) indices_nodup mem_indices

end Mirror

end BlockOS.Paging
