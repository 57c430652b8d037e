import BlockOS.Paging.Clone

/-! The two ways the kernel clones a space. -/

namespace BlockOS.Paging
open Words Bytes Lib Loops

variable {σ : Type} {H : BlockHeap σ} {s s' : Phys σ}

def levelLeaf : LeafRel σ := fun _ _ _ _ _ e e' => e' = if has e pteUser then 0 else e

theorem levelLeaf_law : LeafLaw H copyLevelLeaf (levelLeaf : LeafRel σ) where
  spec q n e s := by
    unfold copyLevelLeaf levelLeaf
    cases has e pteUser with
    | true => exact ⟨[], Took.refl, by simp⟩
    | false => exact ⟨[], Took.refl, by simp⟩
  source _ h := h
  target _ _ h := h
  flags := by
    intro s own m q n e e' h
    unfold levelLeaf at h
    split at h
    · exact .inl h
    · exact .inr fun f _ => by rw [h]

theorem refsReady_took : Took H s (refsReady H s).2 [] := by
  unfold refsReady
  split
  · exact Took.refl
  split
  · exact Took.refl
  simp only
  split
  · rename_i hz
    exact Took.of_eq rfl (fun q hq => by rw [H.live_null _ _ _ hz]; exact hq) rfl
  · rename_i hz
    exact Took.of_eq rfl (fun q hq => by rw [H.live_alloc _ _ _ hz]; exact List.mem_cons_of_mem _ hq) rfl

theorem refIndex_took : Took H s (refIndex H pa s).2 [] := by
  unfold refIndex
  simp only
  split
  · exact refsReady_took
  split
  · exact refsReady_took
  · exact refsReady_took

theorem setRef_took (h : Took H s s' []) : Took H s (setRef s' i v) [] :=
  ⟨h.nodup, h.page, h.fresh, h.taken, h.live, h.mem, h.cr3⟩

theorem refShare_took : Took H s (refShare H pa s) [] := by
  unfold refShare
  split
  · exact refIndex_took
  simp only
  split
  · exact setRef_took refIndex_took
  · exact refIndex_took

def IsPrivate (H : BlockHeap σ) (n : Nat) (e : Word) : Prop :=
  n = 1 ∧ has e pteUser = true ∧ has e pteWritable = true ∧ H.owns (e &&& addrMask) = true

def SameBytes (m m' : Mem) (pg f : Word) : Prop := ∀ d : Word, d.toNat < 4096 →
    m (pg + d) = m' (f + d)

theorem inPage_add (h : d.toNat < 4096) : InPage p (p + d) := by
  unfold InPage
  rwa [BitVec.add_comm, BitVec.add_sub_cancel]

def forkLeaf (H : BlockHeap σ) : LeafRel σ := fun s own m q n e e' =>
  (IsPrivate H n e → ∃ pg, own q pg ∧ IsFrame pg ∧
    e' = (pg &&& addrMask ||| e &&& 0xfff ||| e &&& pteNx) ∧
    (KeptPage H s (e &&& addrMask) → SameBytes m s.mem pg (e &&& addrMask))) ∧
  (¬ IsPrivate H n e → e' = e)

theorem copyPage_took (hnew : NewPage H s pg s') (q : List Index) (f : Word) :
    Took H s { s' with mem := memcpy s'.mem pg f 4096 } [(q, pg)] ∧
      (KeptPage H s f → SameBytes (memcpy s'.mem pg f 4096) s.mem pg f) := by
  refine ⟨(Took.of_new hnew q).store List.mem_cons_self fun a ha => ?_, fun hk d hd => ?_⟩
  · exact memcpy_outside _ (Nat.le_of_not_lt ha)
  have hd' : pg + d - pg = d := by rw [BitVec.add_comm, BitVec.add_sub_cancel]
  have hout : ¬ InPage pg (f + d) := fun h => hnew.not_kept h (hk _ (inPage_add hd))
  rw [memcpy, hd', if_pos hd, hnew.mem_outside hout]

theorem forkLeaf_law : LeafLaw H (copyForkLeaf H) (forkLeaf H) where
  spec q n e s := by
    unfold copyForkLeaf
    split
    · rename_i h
      refine ⟨[], refShare_took, ?_⟩
      simp only [LeafCopy.fill.injEq, reduceCtorEq, false_and, or_false]
      rintro e' rfl
      refine ⟨fun hp => ?_, fun _ => rfl⟩
      simp [hp.2.2.1] at h
    split
    · simp only
      split
      · rename_i hz
        exact ⟨[], Took.of_null hz, by simp⟩
      rename_i h1 h2 hz
      have hnew := allocPage_new hz
      obtain ⟨hT, hb⟩ := copyPage_took hnew q (e &&& addrMask)
      refine ⟨_, hT, ?_⟩
      simp only [LeafCopy.fill.injEq, reduceCtorEq, false_and, or_false]
      rintro e' rfl
      refine ⟨fun _ => ⟨_, List.mem_cons_self, hnew.frame, rfl, hb⟩, fun hn => ?_⟩
      simp only [Bool.and_eq_true, beq_iff_eq] at h2
      exact absurd ⟨h2.1.1.1, h2.1.1.2, h2.1.2, h2.2⟩ hn
    · rename_i h1 h2
      refine ⟨[], Took.refl, ?_⟩
      simp only [LeafCopy.fill.injEq, reduceCtorEq, false_and, or_false]
      rintro e' rfl
      refine ⟨fun hp => ?_, fun _ => rfl⟩
      simp [hp.1, hp.2.1, hp.2.2.1, hp.2.2.2] at h2
  source := by
    rintro s s' own m q n e e' hk ⟨h1, h2⟩
    refine ⟨fun hp => ?_, h2⟩
    obtain ⟨pg, ho, hf, he, hb⟩ := h1 hp
    refine ⟨pg, ho, hf, he, fun hkp d hd => ?_⟩
    rw [hb (fun a ha => hk.kept (hkp a ha)) d hd, hk.mem _ (hkp _ (inPage_add hd))]
  target := by
    rintro s own own' m m' q n e e' ho hm ⟨h1, h2⟩
    refine ⟨fun hp => ?_, h2⟩
    obtain ⟨pg, hq, hf, he, hb⟩ := h1 hp
    refine ⟨pg, ho _ _ hq, hf, he, fun hkp d hd => ?_⟩
    rw [hm _ _ hq _ (inPage_add hd), hb hkp d hd]
  flags := by
    rintro s own m q n e e' ⟨h1, h2⟩
    by_cases hp : IsPrivate H n e
    · obtain ⟨pg, -, hf, rfl, -⟩ := h1 hp
      exact .inr (clone_flags hf e).1
    · exact .inr fun f _ => by rw [h2 hp]

end BlockOS.Paging
