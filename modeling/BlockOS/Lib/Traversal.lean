import Mathlib.Tactic
import Mathlib.Order.WellFounded
import Mathlib.Data.Fintype.EquivFin

/-! Depth-first traversals that mark a node only after everything below it. -/

namespace BlockOS.Traversal

open Relation List

variable {ν : Type*} {next : ν → List ν} {good : ν → Bool} {i j : ν} {done done' : List ν}

def Leads (next : ν → List ν) (i j : ν) : Prop := j ∈ next i

def Ordered (next : ν → List ν) (done : List ν) : Prop :=
  ∀ pre i post, done = pre ++ i :: post → ∀ j ∈ next i, j ∈ pre

def Acyclic (next : ν → List ν) (i : ν) : Prop :=
  ∀ j, ReflTransGen (Leads next) i j → ¬ TransGen (Leads next) j j

structure Sound (next : ν → List ν) (good : ν → Bool) (done : List ν) : Prop where
  nodup : done.Nodup
  good : ∀ j ∈ done, good j = true
  ordered : Ordered next done
  acc : ∀ j ∈ done, Acc (flip (Leads next)) j

theorem Ordered.closed (h : Ordered next done) (hi : i ∈ done) (hj : j ∈ next i) : j ∈ done := by
  obtain ⟨pre, post, rfl⟩ := append_of_mem hi
  exact mem_append_left _ (h pre i post rfl j hj)

theorem Ordered.reach (h : Ordered next done) (hi : i ∈ done) (hj : ReflTransGen (Leads next) i j) :
    j ∈ done := by
  induction hj with
  | refl => exact hi
  | tail _ hstep ih => exact h.closed ih hstep

theorem Ordered.snoc (h : Ordered next done) (hi : ∀ j ∈ next i, j ∈ done) :
    Ordered next (done ++ [i]) := by
  intro pre k post heq j hj
  rcases eq_nil_or_concat post with rfl | ⟨post', last, rfl⟩
  · obtain ⟨rfl, hk⟩ := append_inj' heq rfl
    cases hk
    exact hi j hj
  · rw [concat_eq_append, ← cons_append, ← append_assoc] at heq
    exact h pre k post' (append_inj' heq rfl).1 j hj

theorem not_transGen_of_acc {r : ν → ν → Prop} (h : Acc r i) : ¬ TransGen r i i := by
  have htrans := h.transGen
  clear h
  induction htrans with
  | intro k _ ih => exact fun hk => ih k hk hk

theorem not_transGen_leads (h : Acc (flip (Leads next)) i) : ¬ TransGen (Leads next) i i :=
  fun hi => not_transGen_of_acc h (transGen_swap.mpr hi)

theorem Acyclic.acc (h : Acyclic next i) (hfin : {j | ReflTransGen (Leads next) i j}.Finite) :
    Acc (flip (Leads next)) i := by
  have : Finite {j | ReflTransGen (Leads next) i j} := hfin
  let below : {j | ReflTransGen (Leads next) i j} → {j | ReflTransGen (Leads next) i j} → Prop :=
    fun k j => TransGen (Leads next) j k
  have : IsTrans _ below := ⟨fun _ _ _ h1 h2 => h2.trans h1⟩
  have : Std.Irrefl below := ⟨fun k => h k k.2⟩
  have hwf : WellFounded below := Finite.wellFounded_of_trans_of_irrefl below
  have hall : ∀ k : {j | ReflTransGen (Leads next) i j}, Acc (flip (Leads next)) (k : ν) := by
    intro k
    induction k using hwf.induction with
    | _ k ih => exact ⟨_, fun j hj => ih ⟨j, k.2.tail hj⟩ (.single hj)⟩
  exact hall ⟨i, .refl⟩

theorem acyclic_of_acc (h : Acc (flip (Leads next)) i) : Acyclic next i := by
  intro j hj
  refine not_transGen_leads ?_
  induction hj with
  | refl => exact h
  | tail _ hstep ih => exact ih.inv hstep

theorem sound_nil : Sound next good [] :=
  ⟨nodup_nil, fun _ h => absurd h not_mem_nil, fun _ _ _ h => absurd h (by simp),
    fun _ h => absurd h not_mem_nil⟩

theorem Sound.snoc (h : Sound next good done) (hi : i ∉ done) (hg : good i = true)
    (hnext : ∀ j ∈ next i, j ∈ done) :
    Sound next good (done ++ [i]) where
  nodup := nodup_append.mpr ⟨h.nodup, nodup_singleton i, fun a ha b hb hab => by
    rw [mem_singleton.mp hb] at hab
    exact hi (hab ▸ ha)⟩
  good j hj := by
    rcases mem_append.mp hj with hj | hj
    · exact h.good j hj
    · rw [mem_singleton.mp hj, hg]
  ordered := h.ordered.snoc hnext
  acc j hj := by
    rcases mem_append.mp hj with hj | hj
    · exact h.acc j hj
    · rw [mem_singleton.mp hj]
      exact ⟨i, fun k hk => h.acc k (hnext k hk)⟩

variable [DecidableEq ν]

def visit (next : ν → List ν) (good : ν → Bool) : Nat → ν → List ν → Option (List ν)
  | 0, _, _ => none
  | fuel + 1, i, done =>
    if i ∈ done then some done
    else ((next i).foldlM (fun d j => visit next good fuel j d) done).bind fun d =>
      if good i then some (d ++ [i]) else none

structure Visited (next : ν → List ν) (i : ν) (done done' : List ν) : Prop where
  marked : i ∈ done'
  kept : ∀ j ∈ done, j ∈ done'
  reached : ∀ j ∈ done', j ∈ done ∨ ReflTransGen (Leads next) i j

variable {fuel : Nat} {l : List ν}

theorem fold_sound
    (hvisit : ∀ {j : ν} {done done' : List ν}, visit next good fuel j done = some done' →
      Sound next good done → Sound next good done' ∧ Visited next j done done')
    (h : l.foldlM (fun d j => visit next good fuel j d) done = some done') (hs : Sound next good done) :
    Sound next good done' ∧ (∀ j ∈ l, j ∈ done') ∧ (∀ j ∈ done, j ∈ done') ∧
      ∀ k ∈ done', k ∈ done ∨ ∃ j ∈ l, ReflTransGen (Leads next) j k := by
  induction l generalizing done with
  | nil =>
    cases h
    exact ⟨hs, fun _ h0 => absurd h0 not_mem_nil, fun _ h0 => h0, fun _ h0 => .inl h0⟩
  | cons a l ih =>
    rw [foldlM_cons] at h
    obtain ⟨d, hd, hrest⟩ := Option.bind_eq_some_iff.mp h
    obtain ⟨hs1, hv⟩ := hvisit hd hs
    obtain ⟨hs2, hall, hkept, hreached⟩ := ih hrest hs1
    refine ⟨hs2, ?_, fun j hj => hkept j (hv.kept j hj), ?_⟩
    · rintro j (_ | ⟨_, hj⟩)
      · exact hkept _ hv.marked
      · exact hall j hj
    intro k hk
    rcases hreached k hk with hk | ⟨j, hj, hjk⟩
    · rcases hv.reached k hk with hk | hk
      · exact .inl hk
      · exact .inr ⟨a, mem_cons_self, hk⟩
    · exact .inr ⟨j, mem_cons_of_mem _ hj, hjk⟩

theorem visit_sound (h : visit next good fuel i done = some done') (hs : Sound next good done) :
    Sound next good done' ∧ Visited next i done done' := by
  induction fuel generalizing i done done' with
  | zero => cases h
  | succ fuel ih =>
    unfold visit at h
    by_cases hi : i ∈ done
    · rw [if_pos hi] at h
      cases h
      exact ⟨hs, hi, fun _ h0 => h0, fun _ h0 => .inl h0⟩
    rw [if_neg hi] at h
    obtain ⟨d, hd, hlast⟩ := Option.bind_eq_some_iff.mp h
    obtain ⟨hs1, hnext, hkept, hreached⟩ := fold_sound ih hd hs
    by_cases hg : good i = true
    · rw [if_pos hg] at hlast
      cases hlast
      -- below `i` there is no cycle, so `i` was not marked on the way
      have hfresh : i ∉ d := by
        intro hid
        rcases hreached i hid with h0 | ⟨j, hj, hji⟩
        · exact hi h0
        · exact not_transGen_leads ⟨i, fun k hk => hs1.acc k (hnext k hk)⟩ (TransGen.head' hj hji)
      refine ⟨hs1.snoc hfresh hg hnext, mem_append_right _ (mem_singleton_self i),
        fun j hj => mem_append_left _ (hkept j hj), ?_⟩
      intro k hk
      rcases mem_append.mp hk with hk | hk
      · rcases hreached k hk with hk | ⟨j, hj, hjk⟩
        · exact .inl hk
        · exact .inr (.head hj hjk)
      · rw [mem_singleton.mp hk]
        exact .inr .refl
    · rw [if_neg hg] at hlast
      cases hlast

theorem fold_ends (h : ∀ j ∈ l, ∀ done, ∃ done', visit next good fuel j done = some done')
    (done : List ν) : ∃ done', l.foldlM (fun d j => visit next good fuel j d) done = some done' := by
  induction l generalizing done with
  | nil => exact ⟨done, rfl⟩
  | cons a l ih =>
    obtain ⟨d, hd⟩ := h a mem_cons_self done
    obtain ⟨d', hd'⟩ := ih (fun j hj => h j (mem_cons_of_mem _ hj)) d
    exact ⟨d', by rw [foldlM_cons, hd]; exact hd'⟩

theorem visit_ends (h : Acc (flip (Leads next)) i)
    (hg : ∀ j, ReflTransGen (Leads next) i j → good j = true) :
    ∃ bound, ∀ fuel, bound ≤ fuel → ∀ done, ∃ done', visit next good fuel i done = some done' := by
  induction h with
  | intro i _ ih =>
    have hnext : ∃ bound, ∀ fuel, bound ≤ fuel → ∀ j ∈ next i, ∀ done, ∃ done',
        visit next good fuel j done = some done' := by
      have hbound : ∀ j ∈ next i, ∃ bound, ∀ fuel, bound ≤ fuel → ∀ done, ∃ done',
          visit next good fuel j done = some done' := fun j hj => ih j hj fun k hk => hg k (.head hj hk)
      choose! b hb using hbound
      refine ⟨((next i).map b).sum, fun fuel hfuel j hj => hb j hj fuel (le_trans ?_ hfuel)⟩
      exact le_sum_of_mem (mem_map_of_mem hj)
    obtain ⟨bound, hbound⟩ := hnext
    refine ⟨bound + 1, fun fuel hfuel done => ?_⟩
    obtain ⟨fuel, rfl⟩ : ∃ n, fuel = n + 1 := ⟨fuel - 1, by omega⟩
    unfold visit
    by_cases hi : i ∈ done
    · exact ⟨done, if_pos hi⟩
    obtain ⟨d, hd⟩ := fold_ends (hbound fuel (by omega)) done
    refine ⟨d ++ [i], ?_⟩
    rw [if_neg hi, hd]
    exact if_pos (hg i .refl)

theorem visit_iff (hfin : {j | ReflTransGen (Leads next) i j}.Finite) :
    (∃ fuel order, visit next good fuel i [] = some order) ↔
      Acyclic next i ∧ ∀ j, ReflTransGen (Leads next) i j → good j = true := by
  refine ⟨?_, ?_⟩
  · rintro ⟨fuel, order, h⟩
    obtain ⟨hs, hv⟩ := visit_sound h sound_nil
    exact ⟨acyclic_of_acc (hs.acc i hv.marked), fun j hj => hs.good j (hs.ordered.reach hv.marked hj)⟩
  rintro ⟨hac, hg⟩
  obtain ⟨bound, hbound⟩ := visit_ends (hac.acc hfin) hg
  obtain ⟨order, horder⟩ := hbound bound le_rfl []
  exact ⟨bound, order, horder⟩

theorem visit_lists (h : visit next good fuel i [] = some order) :
    order.Nodup ∧ (∀ j, j ∈ order ↔ ReflTransGen (Leads next) i j) ∧ Ordered next order := by
  obtain ⟨hs, hv⟩ := visit_sound h sound_nil
  exact ⟨hs.nodup, fun j => ⟨fun hj => (hv.reached j hj).resolve_left not_mem_nil,
    fun hj => hs.ordered.reach hv.marked hj⟩, hs.ordered⟩

def explore (next : ν → List ν) : Nat → ν → List ν → Option (List ν)
  | 0, _, _ => none
  | fuel + 1, i, done =>
    if i ∈ done then some done else (next i).foldlM (fun d j => explore next fuel j d) (done ++ [i])

structure Grown (next : ν → List ν) (roots done new : List ν) : Prop where
  nodup : new.Nodup
  fresh : ∀ k ∈ new, k ∉ done
  marked : ∀ r ∈ roots, r ∈ done ++ new
  reached : ∀ k ∈ new, ∃ r ∈ roots, ReflTransGen (Leads next) r k
  closed : ∀ k ∈ new, ∀ j ∈ next k, j ∈ done ++ new

omit [DecidableEq ν] in
theorem Grown.cons (h : Grown next [i] done new) (h' : Grown next roots (done ++ new) new') :
    Grown next (i :: roots) done (new ++ new') where
  nodup := nodup_append.mpr ⟨h.nodup, h'.nodup, fun a ha b hb hab =>
    h'.fresh b hb (mem_append_right _ (hab ▸ ha))⟩
  fresh k hk := by
    rcases mem_append.mp hk with hk | hk
    · exact h.fresh k hk
    · exact fun hd => h'.fresh k hk (mem_append_left _ hd)
  marked r hr := by
    rw [← append_assoc]
    rcases mem_cons.mp hr with rfl | hr
    · exact mem_append_left _ (h.marked r mem_cons_self)
    · exact h'.marked r hr
  reached k hk := by
    rcases mem_append.mp hk with hk | hk
    · obtain ⟨r, hr, hrk⟩ := h.reached k hk
      exact ⟨i, mem_cons_self, mem_singleton.mp hr ▸ hrk⟩
    · obtain ⟨r, hr, hrk⟩ := h'.reached k hk
      exact ⟨r, mem_cons_of_mem _ hr, hrk⟩
  closed k hk j hj := by
    rw [← append_assoc]
    rcases mem_append.mp hk with hk | hk
    · exact mem_append_left _ (h.closed k hk j hj)
    · exact h'.closed k hk j hj

omit [DecidableEq ν] in
theorem Grown.root (hi : i ∉ done) (h : Grown next (next i) (done ++ [i]) new) :
    Grown next [i] done (i :: new) where
  nodup := nodup_cons.mpr ⟨fun hn => h.fresh i hn (mem_append_right _ mem_cons_self), h.nodup⟩
  fresh k hk := by
    rcases mem_cons.mp hk with rfl | hk
    · exact hi
    · exact fun hd => h.fresh k hk (mem_append_left _ hd)
  marked r hr := by
    rw [mem_singleton.mp hr]
    exact mem_append_right _ mem_cons_self
  reached k hk := by
    refine ⟨i, mem_cons_self, ?_⟩
    rcases mem_cons.mp hk with rfl | hk
    · exact .refl
    · obtain ⟨r, hr, hrk⟩ := h.reached k hk
      exact .head hr hrk
  closed k hk j hj := by
    rw [← singleton_append, ← append_assoc]
    rcases mem_cons.mp hk with rfl | hk
    · exact h.marked j hj
    · exact h.closed k hk j hj

theorem explore_fold_grown (hvisit : ∀ {j : ν} {done done' : List ν}, explore next fuel j done =
    some done' → ∃ new, done' = done ++ new ∧ Grown next [j] done new)
    (h : l.foldlM (fun d j => explore next fuel j d) done = some done') :
    ∃ new, done' = done ++ new ∧ Grown next l done new := by
  induction l generalizing done with
  | nil =>
    cases h
    exact ⟨[], (append_nil _).symm, nodup_nil, fun _ h => absurd h not_mem_nil,
      fun _ h => absurd h not_mem_nil, fun _ h => absurd h not_mem_nil, fun _ h => absurd h not_mem_nil⟩
  | cons a l ih =>
    rw [foldlM_cons] at h
    obtain ⟨d, hd, hrest⟩ := Option.bind_eq_some_iff.mp h
    obtain ⟨new, rfl, hg⟩ := hvisit hd
    obtain ⟨new', rfl, hg'⟩ := ih hrest
    exact ⟨new ++ new', append_assoc .., hg.cons hg'⟩

theorem explore_grown (h : explore next fuel i done = some done') :
    ∃ new, done' = done ++ new ∧ Grown next [i] done new := by
  induction fuel generalizing i done done' with
  | zero => cases h
  | succ fuel ih =>
    unfold explore at h
    by_cases hi : i ∈ done
    · rw [if_pos hi] at h
      cases h
      refine ⟨[], (append_nil _).symm, nodup_nil, fun _ h => absurd h not_mem_nil, ?_,
        fun _ h => absurd h not_mem_nil, fun _ h => absurd h not_mem_nil⟩
      rintro r hr
      rw [mem_singleton.mp hr, append_nil]
      exact hi
    · rw [if_neg hi] at h
      obtain ⟨new, rfl, hg⟩ := explore_fold_grown ih h
      exact ⟨i :: new, by rw [append_assoc]; rfl, hg.root hi⟩

theorem explore_fold_ends (hl : ∀ j ∈ l, j ∈ R)
    (hvisit : ∀ j ∈ R, ∀ done : List ν, (R \ done.toFinset).card < fuel → ∃ done',
      explore next fuel j done = some done')
    (hfuel : (R \ done.toFinset).card < fuel) :
    ∃ done', l.foldlM (fun d j => explore next fuel j d) done = some done' := by
  induction l generalizing done with
  | nil => exact ⟨done, rfl⟩
  | cons a l ih =>
    obtain ⟨d, hd⟩ := hvisit a (hl a mem_cons_self) done hfuel
    obtain ⟨new, rfl, -⟩ := explore_grown hd
    have hle : (R \ (done ++ new).toFinset).card ≤ (R \ done.toFinset).card := by
      refine Finset.card_le_card (Finset.sdiff_subset_sdiff le_rfl ?_)
      rw [toFinset_append]
      exact Finset.subset_union_left
    obtain ⟨d', hd'⟩ := ih (fun j hj => hl j (mem_cons_of_mem _ hj)) (lt_of_le_of_lt hle hfuel)
    exact ⟨d', by rw [foldlM_cons, hd]; exact hd'⟩

theorem explore_ends (hR : ∀ k ∈ R, ∀ j ∈ next k, j ∈ R) (hi : i ∈ R)
    (hfuel : (R \ done.toFinset).card < fuel) : ∃ done', explore next fuel i done = some done' := by
  induction fuel generalizing i done with
  | zero => omega
  | succ fuel ih =>
    unfold explore
    by_cases hd : i ∈ done
    · exact ⟨done, if_pos hd⟩
    rw [if_neg hd]
    refine explore_fold_ends (hR i hi) (fun j hj done hfuel => ih hj hfuel) ?_
    have hlt : (R \ (done ++ [i]).toFinset).card < (R \ done.toFinset).card := by
      refine Finset.card_lt_card ⟨Finset.sdiff_subset_sdiff le_rfl ?_, fun hsub => ?_⟩
      · rw [toFinset_append]
        exact Finset.subset_union_left
      · have := hsub (Finset.mem_sdiff.mpr ⟨hi, fun h => hd (mem_toFinset.mp h)⟩)
        exact (Finset.mem_sdiff.mp this).2 (mem_toFinset.mpr (mem_append_right _ mem_cons_self))
    omega

end BlockOS.Traversal
