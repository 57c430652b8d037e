import BlockOS.Allocator.Contract
import BlockOS.Paging.Graft

/-! What `clone_for_fork` returns. -/

namespace BlockOS.Paging
open Words Bytes Lib Radix

variable {σ : Type} {H : BlockHeap σ} {s s' : Phys σ}

def TreeAll (P : Nat → Word → Prop) (m : Mem) : Nat → Word → Prop
  | 0, _ => True
  | n + 1, t =>
    ∀ i, P (n + 1) (entry m t i) ∧ ∀ c, nextTable (n + 1) (entry m t i) = some c → TreeAll P m n c

theorem Mirrors.eval_rel {own : Own} {m : Mem} {β : Type} {S : Scheme Word Word β}
    (hnext : S.next = nextTable) {P : Nat → Word → Prop} {Q : β → β → Prop} {p : Nat → Index}
    (hbot : Q S.bottom S.bottom) (habsent : ∀ n e, has e ptePresent = false →
      Q (S.leaf n e) (S.leaf n 0))
    (hleaf : ∀ n e e', P n e → has e ptePresent = true → nextTable n e = none →
      leaf s own m (prefixOf p 4 (5 - n)) n e e' → nextTable n e' = none ∧ Q (S.leaf n e) (S.leaf n e'))
    (hthrough : ∀ e e' x y, SameFlags e e' → Q x y → Q (S.through e x) (S.through e' y)) :
    ∀ {n t u}, n ≤ 4 → TreeAll P s.mem n t → Mirrors leaf s own m n (prefixOf p 4 (4 - n)) t u →
      Q (eval S (entry s.mem) p n t) (eval S (entry m) p n u) := by
  intro n
  induction n with
  | zero => exact fun _ _ _ => hbot
  | succ n ih =>
    intro t u hn hall hM
    have hc := hM.2.2 (p (n + 1))
    obtain ⟨hP, hsub⟩ := hall (p (n + 1))
    have hpre : prefixOf p 4 (4 - (n + 1)) ++ [p (n + 1)] = prefixOf p 4 (4 - n) := by
      rw [show 4 - n = 4 - (n + 1) + 1 by omega, prefixOf, show 4 - (4 - (n + 1)) = n + 1 by omega]
    rw [hpre] at hc
    have hzero : nextTable (n + 1) 0 = none := nextTable_not_present (has_zero_word _)
    rw [eval_succ, eval_succ]
    generalize entry s.mem t (p (n + 1)) = e at hc hP hsub ⊢
    generalize entry m u (p (n + 1)) = e' at hc ⊢
    cases hn1 : nextTable (n + 1) e with
    | some c =>
      obtain ⟨c', hf, rfl, hsubM⟩ := hc.table c hn1
      rw [slot_some (hnext ▸ hn1), slot_some (hnext ▸ SameFlags.nextTable_some hf hn1)]
      exact hthrough _ _ _ _ (clone_flags hf e).1 (ih (by omega) (hsub c hn1) hsubM)
    | none =>
      rw [slot_none (hnext ▸ hn1)]
      cases hp : has e ptePresent with
      | false =>
        rw [hc.absent hp, slot_none (hnext ▸ hzero)]
        exact habsent _ _ hp
      | true =>
        have hl := hc.leaf hp hn1
        rw [show 4 - n = 5 - (n + 1) by omega] at hl
        obtain ⟨h1, h2⟩ := hleaf _ _ _ hP hp hn1 hl
        rw [slot_none (hnext ▸ h1)]
        exact h2

def leafScheme : Scheme Word Word (Option (Nat × Word)) where
  next := nextTable
  leaf n e := if has e ptePresent then some (n, e) else none
  through _ x := x
  bottom := none

def leafAt (m : Mem) (root va : Word) : Option (Nat × Word) :=
  eval leafScheme (entry m) (idx va) 4 (root &&& addrMask)

theorem translate_frame (m : Mem) (root va : Word) : (translate m root va).map Translation.frame =
      (leafAt m root va).map fun x => leafFrame va x.1 x.2 := by
  unfold translate leafAt
  generalize 4 = n, root &&& addrMask = t
  induction n generalizing t with
  | zero => rfl
  | succ n ih =>
    rw [eval_succ, eval_succ]
    generalize entry m t (idx va (n + 1)) = e
    cases hn : nextTable (n + 1) e with
    | some c =>
      rw [slot_table va hn, slot_some (S := leafScheme) hn, Option.map_map]
      exact ih c
    | none =>
      rw [slot_leaf va hn, slot_none (S := leafScheme) hn]
      simp only [leafScheme]
      split <;> rfl

def SourceLeaf (H : BlockHeap σ) (s : Phys σ) (n : Nat) (e : Word) : Prop :=
  has e ptePresent = true → nextTable n e = none → has e pteUser = true →
    n = 1 ∧ (H.owns (e &&& addrMask) = true → KeptPage H s (e &&& addrMask))

/-- A tree that can be forked: its tables lie in allocated memory. -/
structure ForkSource (H : BlockHeap σ) (s : Phys σ) (src : Word) : Prop where
  tables : KeptTree H s 4 (src &&& addrMask)
  leaves : TreeAll (SourceLeaf H s) s.mem 4 (src &&& addrMask)

def ForkedPage (m : Mem) (a b : Option Translation) : Prop :=
  (a = none ∧ b = none) ∨ ∃ x f, a = some x ∧ b = some { x with frame := f } ∧ SameBytes m m f x.frame

theorem ForkedPage.through (h : SameFlags e e') (hab : ForkedPage m a b) :
    ForkedPage m (a.map (Translation.through e)) (b.map (Translation.through e')) := by
  rcases hab with ⟨rfl, rfl⟩ | ⟨x, f, rfl, rfl, hb⟩
  · exact .inl ⟨rfl, rfl⟩
  refine .inr ⟨x.through e, f, rfl, ?_, hb⟩
  simp only [Option.map_some, Translation.through, h pteWritable (by simp), h pteUser (by simp),
    h pteNx (by simp)]

theorem leafTranslation_flags (h : SameFlags e e') :
    leafTranslation va n e' = { leafTranslation va n e with frame := leafFrame va n e' } := by
  simp only [leafTranslation, h pteWritable (by simp), h pteUser (by simp), h ptePwt (by simp),
    h ptePcd (by simp), h pteNx (by simp)]

section Fork

variable (hT : Took H s s' log)
include hT

theorem forked_leaf (hP : SourceLeaf H s n e) (hp : has e ptePresent = true)
    (hn : nextTable n e = none)
    (h : forkLeaf H s (fun q x => (q, x) ∈ log) s'.mem q n e e') (va : Word) :
    SameFlags e e' ∧ nextTable n e' = none ∧
      SameBytes s'.mem s'.mem (leafFrame va n e') (leafFrame va n e) := by
  by_cases hpr : IsPrivate H n e
  · obtain ⟨pg, -, hf, rfl, hb⟩ := h.1 hpr
    obtain ⟨rfl, hu, -, ho⟩ := hpr
    obtain ⟨hfl, ha⟩ := clone_flags hf e
    have hk := (hP hp hn hu).2 ho
    refine ⟨hfl, nextTable_one _, fun d hd => ?_⟩
    simp only [leafFrame, if_true, ha]
    rw [hb hk d hd, hT.keeps.mem _ (hk _ (inPage_add hd))]
  · obtain rfl := h.2 hpr
    exact ⟨fun _ _ => rfl, hn, fun _ _ => rfl⟩

variable (hM : Mirrors (forkLeaf H) s (fun q x => (q, x) ∈ log) s'.mem 4 [] (src &&& addrMask) np)
  (hsrc : ForkSource H s src)
include hM hsrc

theorem forked_page (hnp : IsFrame np) (va : Word) :
    ForkedPage s'.mem (translate s.mem src va) (translate s'.mem np va) := by
  unfold translate
  rw [hnp]
  refine hM.eval_rel (S := scheme va) rfl (p := idx va) (Q := ForkedPage s'.mem) (.inl ⟨rfl, rfl⟩)
    (fun n e he => ?_) (fun n e e' hP hp hn hl => ?_) (fun e e' x y => ForkedPage.through)
    (Nat.le_refl 4) hsrc.leaves
  · simp only [scheme, he, has_zero_word]
    exact .inl ⟨rfl, rfl⟩
  obtain ⟨hf, hn', hb⟩ := forked_leaf hT hP hp hn hl va
  refine ⟨hn', ?_⟩
  have hp' : has e' ptePresent = true := (hf ptePresent (by simp)).trans hp
  simp only [scheme, hp, hp', if_true, leafTranslation_flags hf]
  exact .inr ⟨_, _, rfl, rfl, hb⟩

theorem forked_leafAt (hnp : IsFrame np) (va : Word) :
    (leafAt s.mem src va = none ∧ leafAt s'.mem np va = none) ∨ ∃ n e e',
      leafAt s.mem src va = some (n, e) ∧ leafAt s'.mem np va = some (n, e') ∧ SourceLeaf H s n e ∧
      has e ptePresent = true ∧ nextTable n e = none ∧
      forkLeaf H s (fun q x => (q, x) ∈ log) s'.mem (prefixOf (idx va) 4 (5 - n)) n e e' := by
  unfold leafAt
  rw [hnp]
  refine hM.eval_rel (S := leafScheme) rfl (p := idx va)
    (Q := fun a b => (a = none ∧ b = none) ∨ ∃ n e e', a = some (n, e) ∧ b = some (n, e') ∧
      SourceLeaf H s n e ∧ has e ptePresent = true ∧ nextTable n e = none ∧
      forkLeaf H s (fun q x => (q, x) ∈ log) s'.mem (prefixOf (idx va) 4 (5 - n)) n e e')
    (.inl ⟨rfl, rfl⟩) (fun n e he => ?_) (fun n e e' hP hp hn hl => ?_) (fun _ _ _ _ _ h => h)
    (Nat.le_refl 4) hsrc.leaves
  · simp only [leafScheme, he, has_zero_word]
    exact .inl ⟨rfl, rfl⟩
  obtain ⟨hf, hn', -⟩ := forked_leaf hT hP hp hn hl va
  have hp' : has e' ptePresent = true := (hf ptePresent (by simp)).trans hp
  refine ⟨hn', .inr ⟨n, e, e', ?_, ?_, hP, hp, hn, hl⟩⟩
  · simp only [leafScheme, hp, if_true]
  · simp only [leafScheme, hp', if_true]

end Fork

structure FreshPage (H : BlockHeap σ) (s s' : Phys σ) (u : Word) : Prop where
  frame : IsFrame u
  free : ∀ a, InPage u a → ¬ Kept H s a
  live : (u, 4096) ∈ H.live s'.heap

def WritableUser (H : BlockHeap σ) (va : Word) (n : Nat) (e : Word) : Prop :=
  has e pteUser = true ∧ has e pteWritable = true ∧ H.owns (leafFrame va n e) = true

/-- What a successful fork of the space at `src` is: a tree of fresh tables in which every page is
as in the source. -/
structure Forked (H : BlockHeap σ) (s : Phys σ) (src : Word) (s' : Phys σ) (np : Word) : Prop where
  tables : ∀ q u, q.length ≤ 3 → At s'.mem 4 np q u → FreshPage H s s' u
  separate : ∀ q q' u, q.length ≤ 3 → q'.length ≤ 3 → At s'.mem 4 np q u → At s'.mem 4 np q' u → q = q'
  pages : ∀ va, ForkedPage s'.mem (translate s.mem src va) (translate s'.mem np va)
  copied : ∀ va n e, leafAt s.mem src va = some (n, e) → WritableUser H va n e →
    ∃ tr, translate s'.mem np va = some tr ∧ FreshPage H s s' tr.frame ∧
      (∀ q, q.length ≤ 3 → ¬ At s'.mem 4 np q tr.frame) ∧
      ∀ va' n' e' tr', leafAt s.mem src va' = some (n', e') → WritableUser H va' n' e' →
        translate s'.mem np va' = some tr' → tr'.frame = tr.frame → page va' = page va
  shared : ∀ va n e, leafAt s.mem src va = some (n, e) → ¬ WritableUser H va n e →
    leafAt s'.mem np va = some (n, e)
  source : ∀ va, translate s'.mem src va = translate s.mem src va
  bytes : ∀ a, Kept H s a → s'.mem a = s.mem a

theorem KeptTree.eval_keeps {β : Type} {S : Scheme Word Word β} (hnext : S.next = nextTable)
    (hk : Keeps H s s') : ∀ {n t}, KeptTree H s n t →
      eval S (entry s'.mem) path n t = eval S (entry s.mem) path n t := by
  intro n
  induction n with
  | zero =>
    intro t _
    rw [eval_zero, eval_zero]
  | succ n ih =>
    rintro t ⟨hf, hkp, hc⟩
    rw [eval_succ, eval_succ, hk.entry hf hkp]
    cases hn : S.next (n + 1) (entry s.mem t (path (n + 1))) with
    | some c =>
      have hn' : nextTable (n + 1) (entry s.mem t (path (n + 1))) = some c := by rw [← hnext, hn]
      rw [slot_some hn, slot_some hn, ih (hc _ c hn')]
    | none => rw [slot_none hn, slot_none hn]

section Fork

variable (hT : Took H s s' log)
  (hM : Mirrors (forkLeaf H) s (fun q x => (q, x) ∈ log) s'.mem 4 [] (src &&& addrMask) np)
  (hsrc : ForkSource H s src)
include hT

theorem Took.freshPage (hx : x ∈ log) : FreshPage H s s' x.2 :=
  ⟨(hT.page x hx).1, hT.fresh x hx, hT.taken x hx⟩

include hM hsrc

theorem forked_private (hnp : IsFrame np) (hl : leafAt s.mem src va = some (n, e))
    (hw : WritableUser H va n e) :
    ∃ tr, translate s'.mem np va = some tr ∧ (prefixOf (idx va) 4 4, tr.frame) ∈ log := by
  rcases forked_leafAt hT hM hsrc hnp va with ⟨h, -⟩ | ⟨n', e', e'', h1, h2, hS, hp, hn, hf⟩
  · rw [hl] at h
    cases h
  rw [hl] at h1
  obtain ⟨rfl, rfl⟩ := Prod.mk.inj (Option.some.inj h1)
  obtain ⟨hu, hwr, ho⟩ := hw
  obtain ⟨rfl, -⟩ := hS hp hn hu
  obtain ⟨pg, hpg, hfr, rfl, -⟩ := hf.1 ⟨rfl, hu, hwr, ho⟩
  have htr := translate_frame s'.mem np va
  rw [h2] at htr
  obtain ⟨tr, htr, hfr'⟩ := Option.map_eq_some_iff.mp htr
  simp only [leafFrame, if_true, (clone_flags hfr e).2] at hfr'
  exact ⟨tr, htr, hfr' ▸ hpg⟩

theorem forked (hnp : IsFrame np) : Forked H s src s' np where
  tables q u hq hu := hT.freshPage (clone_at forkLeaf_law hM hq hu).1
  separate q q' u hq hq' hu hu' :=
    hT.unique (clone_at forkLeaf_law hM hq hu).1 (clone_at forkLeaf_law hM hq' hu').1
  pages := forked_page hT hM hsrc hnp
  copied va n e hl hw := by
    obtain ⟨tr, htr, hpos⟩ := forked_private hT hM hsrc hnp hl hw
    refine ⟨tr, htr, hT.freshPage hpos, fun q hq hat => ?_, fun va' n' e' tr' hl' hw' htr' hf => ?_⟩
    · have := congrArg List.length (hT.unique (clone_at forkLeaf_law hM hq hat).1 hpos)
      rw [length_prefixOf] at this
      omega
    obtain ⟨tr'', htr'', hpos'⟩ := forked_private hT hM hsrc hnp hl' hw'
    rw [htr'] at htr''
    obtain rfl := Option.some.inj htr''
    have h4 := hT.unique hpos' (hf ▸ hpos)
    obtain ⟨h3, h1⟩ := List.append_inj' (show prefixOf (idx va') 4 3 ++ [idx va' 1] =
      prefixOf (idx va) 4 3 ++ [idx va 1] from h4) rfl
    exact page_of_prefixOf h3 (List.cons.inj h1).1
  shared va n e hl hw := by
    rcases forked_leafAt hT hM hsrc hnp va with ⟨h, -⟩ | ⟨n', e', e'', h1, h2, hS, hp, hn, hf⟩
    · rw [hl] at h
      cases h
    rw [hl] at h1
    obtain ⟨rfl, rfl⟩ := Prod.mk.inj (Option.some.inj h1)
    rw [h2, hf.2 fun hpr => hw ?_]
    obtain ⟨rfl, hu, hwr, ho⟩ := hpr
    exact ⟨hu, hwr, ho⟩
  source va := hsrc.tables.eval_keeps (S := scheme va) rfl hT.keeps
  bytes := hT.keeps.mem

end Fork

theorem cloneForFork_spec (h : KeptTree H s 4 (src &&& addrMask)) :
    CloneSpec (forkLeaf H) H 4 [] (src &&& addrMask) s (cloneForFork H src s) := by
  rw [cloneForFork]
  split
  · exact ⟨[], Took.refl, fun h => absurd rfl h⟩
  · rw [cloneTableFork]
    exact cloneTable_spec forkLeaf_law 4 [] _ s h

theorem CloneSpec.forked (hR : CloneSpec (forkLeaf H) H 4 [] (src &&& addrMask) s R)
    (hsrc : ForkSource H s src)
    (hok : R.1 ≠ 0) : Forked H s src R.2 R.1 := by
  obtain ⟨log, hT, hM⟩ := hR
  exact Paging.forked hT (hM hok) hsrc (hM hok).2.1

theorem cloneForFork_copies (H : BlockHeap σ) (s : Phys σ) (src : Word) (hsrc : ForkSource H s src)
    (hok : (cloneForFork H src s).1 ≠ 0) :
    Forked H s src (cloneForFork H src s).2 (cloneForFork H src s).1 :=
  (cloneForFork_spec hsrc.tables).forked hsrc hok

def sampleArena : Allocator.Arena 4096 0x10000 where
  session := Allocator.Session.start 4096 0x10000 Allocator.blank
  consistent := ⟨[], Allocator.init_consistent _ (by decide) (by decide)⟩
  base_eq := by decide
  size_eq := by decide

def sampleHeap : BlockHeap (Allocator.Arena 4096 0x10000) :=
  Allocator.arenaHeap 4096 0x10000 (by decide) (by decide)

def sampleBytes : List (Word × Byte) :=
  [(0x10007f8, 7), (0x10007f9, 0x10), (0x10007fb, 1), (0x1001ff8, 7), (0x1001ff9, 0x20), (0x1001ffb, 1),
    (0x1002ff8, 7), (0x1002ff9, 0x30), (0x1002ffb, 1), (0x1003ff0, 3), (0x1003ff3, 5),
      (0x1003ff8, 7), (0x1003ff9, 0x20), (0x2ff4, 9)]

def sampleUsed : Phys (Allocator.Arena 4096 0x10000) where
  mem a := if a.toNat % 2048 < 2032 then 0 else (sampleBytes.lookup a).getD 0
  heap := (sampleHeap.alloc sampleArena 4096 4096).2
  cr3 := 0
  pageRefs := none

theorem sampleUsed_entry : ∀ i : Index, entry sampleUsed.mem 0x1000000 i =
    (if i = 255 then 0x1001007 else 0) ∧
    entry sampleUsed.mem 0x1001000 i = (if i = 511 then 0x1002007 else 0) ∧
    entry sampleUsed.mem 0x1002000 i = (if i = 511 then 0x1003007 else 0) ∧
    entry sampleUsed.mem 0x1003000 i =
      (if i = 511 then 0x2007 else if i = 510 then 0x5000003 else 0) := by
  decide +kernel

theorem sampleUsed_outside {t : Word} (hf : IsFrame t) (hlow : 0x1000000 ≤ t.toNat) :
    KeptPage sampleHeap sampleUsed t := by
  intro a ha
  have hb := (inPage_toNat hf ha).1
  refine .inl ?_
  simp only [sampleHeap, Allocator.arenaHeap, Bool.and_eq_false_iff, decide_eq_false_iff_not]
  exact .inr (by rw [show (4096 : Word).toNat + (0x10000 : Word).toNat = 69632 from rfl]; omega)

theorem sampleUsed_page : KeptPage sampleHeap sampleUsed 0x2000 := by
  intro a ha
  have hb := inPage_toNat (show IsFrame 0x2000 by rfl) ha
  refine .inr ⟨(0x2000, 4096), ?_, hb.1, hb.2⟩
  rw [sampleUsed, sampleHeap.live_alloc _ _ _ (by decide +kernel)]
  exact List.mem_cons_self

theorem sampleUsed_tree {n : Nat} {t c : Word} {j : Index} (hf : IsFrame t)
    (hlow : 0x1000000 ≤ t.toNat)
    (he : ∀ i, entry sampleUsed.mem t i = if i = j then c ||| 7 else 0)
    (hn : nextTable (n + 1) (c ||| 7) = some c)
    (h : KeptTree sampleHeap sampleUsed n c ∧
      TreeAll (SourceLeaf sampleHeap sampleUsed) sampleUsed.mem n c) :
    KeptTree sampleHeap sampleUsed (n + 1) t ∧
      TreeAll (SourceLeaf sampleHeap sampleUsed) sampleUsed.mem (n + 1) t := by
  have hnext : ∀ i d, nextTable (n + 1) (entry sampleUsed.mem t i) = some d → d = c := by
    intro i d hd
    rw [he] at hd
    split at hd
    · exact (Option.some.inj (hn.symm.trans hd)).symm
    · rw [nextTable_not_present (has_zero_word _)] at hd
      cases hd
  refine ⟨⟨hf, sampleUsed_outside hf hlow, fun i d hd => hnext i d hd ▸ h.1⟩,
    fun i => ⟨fun hp hl => ?_, fun d hd => hnext i d hd ▸ h.2⟩⟩
  rw [he] at hp hl
  split at hp
  case isTrue hi =>
    rw [if_pos hi, hn] at hl
    cases hl
  case isFalse =>
    rw [has_zero_word] at hp
    cases hp

theorem sampleUsed_leaves : KeptTree sampleHeap sampleUsed 1 0x1003000 ∧
    TreeAll (SourceLeaf sampleHeap sampleUsed) sampleUsed.mem 1 0x1003000 := by
  refine ⟨⟨rfl, sampleUsed_outside rfl (by decide), fun _ _ _ => trivial⟩,
    fun i => ⟨fun _ _ hu => ?_, fun _ _ => trivial⟩⟩
  rw [(sampleUsed_entry i).2.2.2] at hu ⊢
  split at hu
  case isTrue h =>
    rw [if_pos h]
    exact ⟨rfl, fun _ => sampleUsed_page⟩
  case isFalse =>
    split at hu
    · exact absurd hu (by decide)
    · exact absurd hu (by decide)

theorem sampleUsed_source : ForkSource sampleHeap sampleUsed 0x1000000 := by
  have h2 := sampleUsed_tree (n := 1) (t := 0x1002000) rfl (by decide)
    (fun i => (sampleUsed_entry i).2.2.1) (by decide) sampleUsed_leaves
  have h3 := sampleUsed_tree (n := 2) (t := 0x1001000) rfl (by decide)
    (fun i => (sampleUsed_entry i).2.1) (by decide) h2
  have h4 := sampleUsed_tree (n := 3) (t := 0x1000000) rfl (by decide)
    (fun i => (sampleUsed_entry i).1) (by decide) h3
  exact ⟨h4.1, h4.2⟩

theorem cloneForFork_copies_sample : leafAt sampleUsed.mem 0x1000000 0x7ffffffff000 =
    some (1, 0x2007) ∧ leafAt sampleUsed.mem 0x1000000 0x7fffffffe000 = some (1, 0x5000003) ∧
    WritableUser sampleHeap 0x7ffffffff000 1 0x2007 ∧
    Forked sampleHeap sampleUsed 0x1000000 (cloneForFork sampleHeap 0x1000000 sampleUsed).2
      (cloneForFork sampleHeap 0x1000000 sampleUsed).1 :=
  ⟨by decide +kernel, by decide +kernel, ⟨by decide, by decide, by decide⟩,
    cloneForFork_copies sampleHeap sampleUsed 0x1000000 sampleUsed_source (by decide +kernel)⟩
end BlockOS.Paging
