import Mathlib.Tactic

/-! Sequences cut into pieces at a separator. -/

namespace BlockOS.Paths
open List

variable {α : Type*} {sep : α} {cs ds : List (List α)} {c : List α}

def spell (sep : α) (cs : List (List α)) : List α := cs.flatMap (sep :: ·)

@[simp] theorem spell_nil : spell sep [] = [] := rfl

@[simp] theorem spell_append (cs ds : List (List α)) :
    spell sep (cs ++ ds) = spell sep cs ++ spell sep ds :=
  flatMap_append

theorem spell_concat (cs : List (List α)) (c : List α) :
    spell sep (cs ++ [c]) = spell sep cs ++ sep :: c := by
  rw [spell_append]
  simp [spell]

theorem spell_eq_nil : spell sep cs = [] ↔ cs = [] := by
  constructor
  · intro h
    cases cs with
    | nil => rfl
    | cons c cs => cases h
  · rintro rfl
    rfl

def pathOf (sep : α) (cs : List (List α)) : List α := if cs = [] then [sep] else spell sep cs

theorem pathOf_concat (cs : List (List α)) (c : List α) :
    pathOf sep (cs ++ [c]) = spell sep cs ++ sep :: c := by
  unfold pathOf
  rw [if_neg (by simp), spell_concat]

variable [DecidableEq α]

def IsPiece (sep : α) (c : List α) : Prop := c ≠ [] ∧ sep ∉ c

def piecesFrom (sep : α) : List α → List α → List (List α)
  | cur, [] => if cur = [] then [] else [cur]
  | cur, a :: l =>
    if a = sep then
      if cur = [] then piecesFrom sep [] l else cur :: piecesFrom sep [] l
    else piecesFrom sep (cur ++ [a]) l

def pieces (sep : α) (l : List α) : List (List α) := piecesFrom sep [] l

theorem piecesFrom_isPiece (hcur : sep ∉ cur) (h : c ∈ piecesFrom sep cur l) : IsPiece sep c := by
  induction l generalizing cur with
  | nil =>
    unfold piecesFrom at h
    split at h
    · exact absurd h not_mem_nil
    case isFalse hne => exact mem_singleton.mp h ▸ ⟨hne, hcur⟩
  | cons a l ih =>
    unfold piecesFrom at h
    split at h
    · split at h
      · exact ih not_mem_nil h
      case isFalse hne =>
        rcases mem_cons.mp h with rfl | h
        · exact ⟨hne, hcur⟩
        · exact ih not_mem_nil h
    case isFalse ha =>
      refine ih (fun h0 => ?_) h
      rcases mem_append.mp h0 with h0 | h0
      · exact hcur h0
      · exact ha (mem_singleton.mp h0).symm

theorem isPiece_of_mem_pieces (h : c ∈ pieces sep l) : IsPiece sep c :=
  piecesFrom_isPiece not_mem_nil h

theorem piecesFrom_append (hc : sep ∉ c) (l : List α) :
    piecesFrom sep cur (c ++ l) = piecesFrom sep (cur ++ c) l := by
  induction c generalizing cur with
  | nil => rw [nil_append, append_nil]
  | cons a c ih =>
    rw [mem_cons, not_or] at hc
    obtain ⟨ha, hc⟩ := hc
    rw [cons_append, piecesFrom, if_neg (Ne.symm ha), ih hc, append_assoc]
    rfl

theorem piecesFrom_spell (hcs : ∀ c ∈ cs, IsPiece sep c) :
    piecesFrom sep cur (spell sep cs) = if cur = [] then cs else cur :: cs := by
  induction cs generalizing cur with
  | nil => rfl
  | cons c cs ih =>
    obtain ⟨hne, hsep⟩ := hcs c mem_cons_self
    have hrest := @ih c fun d hd => hcs d (mem_cons_of_mem c hd)
    rw [if_neg hne] at hrest
    have hshape : spell sep (c :: cs) = sep :: (c ++ spell sep cs) := rfl
    rw [hshape, piecesFrom, if_pos rfl, piecesFrom_append hsep, nil_append, hrest]

theorem pieces_spell (hcs : ∀ c ∈ cs, IsPiece sep c) : pieces sep (spell sep cs) = cs := by
  unfold pieces
  rw [piecesFrom_spell hcs, if_pos rfl]

theorem pieces_pathOf (hcs : ∀ c ∈ cs, IsPiece sep c) : pieces sep (pathOf sep cs) = cs := by
  unfold pathOf
  split
  case isTrue h =>
    subst h
    simp [pieces, piecesFrom]
  case isFalse => exact pieces_spell hcs

theorem pathOf_injective (hcs : ∀ c ∈ cs, IsPiece sep c) (hds : ∀ c ∈ ds, IsPiece sep c)
    (h : pathOf sep cs = pathOf sep ds) : cs = ds := by
  rw [← pieces_pathOf hcs, ← pieces_pathOf hds, h]

theorem pathOf_eq_single (hcs : ∀ c ∈ cs, IsPiece sep c) : pathOf sep cs = [sep] ↔ cs = [] := by
  refine ⟨fun h => ?_, fun h => h ▸ rfl⟩
  exact pathOf_injective hcs (by simp) h

def IsPath (sep : α) (l : List α) : Prop := ∃ cs, (∀ c ∈ cs, IsPiece sep c) ∧ l = pathOf sep cs

theorem IsPath.eq_pathOf_pieces (h : IsPath sep l) : l = pathOf sep (pieces sep l) := by
  obtain ⟨cs, hcs, rfl⟩ := h
  rw [pieces_pathOf hcs]

theorem isPath_pathOf_pieces (l : List α) : IsPath sep (pathOf sep (pieces sep l)) :=
  ⟨_, fun _ => isPiece_of_mem_pieces, rfl⟩

instance (sep : α) (l : List α) : Decidable (IsPath sep l) :=
  decidable_of_iff (l = pathOf sep (pieces sep l)) ⟨fun h => h ▸ isPath_pathOf_pieces l,
    IsPath.eq_pathOf_pieces⟩

omit [DecidableEq α] in
theorem take_spell (hcs : ∀ c ∈ cs, sep ∉ c)
    (h : (spell sep cs)[i]? = some sep ∨ i = (spell sep cs).length) :
    ∃ k, (spell sep cs).take i = spell sep (cs.take k) := by
  induction cs generalizing i with
  | nil => exact ⟨0, by simp⟩
  | cons c cs ih =>
    have hshape : spell sep (c :: cs) = (sep :: c) ++ spell sep cs := rfl
    cases i with
    | zero => exact ⟨0, rfl⟩
    | succ i =>
      rw [hshape] at h ⊢
      by_cases hi : i < c.length
      · -- inside of a piece there is no separator
        exfalso
        rcases h with h | h
        · rw [getElem?_append_left (by simpa using hi), getElem?_cons_succ] at h
          exact hcs c mem_cons_self (mem_of_getElem? h)
        · rw [length_append, length_cons] at h
          omega
      · obtain ⟨j, rfl⟩ : ∃ j, i = c.length + j := ⟨i - c.length, by omega⟩
        have hlen : c.length + j + 1 = (sep :: c).length + j := by
          rw [length_cons]
          omega
        rw [hlen] at h ⊢
        rw [getElem?_append_right (Nat.le_add_right _ _), Nat.add_sub_cancel_left, length_append] at h
        obtain ⟨k, hk⟩ := ih (fun d hd => hcs d (mem_cons_of_mem c hd)) (h.imp_right (by omega))
        refine ⟨k + 1, ?_⟩
        rw [take_length_add_append, hk]
        rfl

end BlockOS.Paths
