import BlockOS.Lib.Paths
import BlockOS.Lib.Words

/-! Names of files (`normalize_path` and `parent_exists` in `vfs.cpp`). -/

namespace BlockOS.Fs
open Words Paths List

def ascii (s : String) : List Byte := s.toList.map fun c => BitVec.ofNat 8 c.toNat

def slash : Byte := 0x2f

def maxPath : Nat := 256

def normalizeLoop : List Byte → Bool → List Byte → Option (List Byte)
  | [], _, out => some out
  | c :: input, previousSlash, out =>
    if c = slash then
      if previousSlash then normalizeLoop input previousSlash out
      else if out.length + 1 ≥ maxPath then none
      else normalizeLoop input true (out ++ [slash])
    else if out.length + 1 ≥ maxPath then none
    else normalizeLoop input false (out ++ [c])

def dropSlashes : List Byte → List Byte
  | [] => []
  | [c] => [c]
  | c :: d :: out => if c = slash then dropSlashes (d :: out) else c :: d :: out

def normalizePath (input : List Byte) : Option (List Byte) :=
  let relative := input.head? ≠ some slash
  match normalizeLoop input (decide relative) (if relative then [slash] else []) with
  | none => none
  | some out => some (dropSlashes (if out = [] then [slash] else out).reverse).reverse

def lastSlash (path : List Byte) : Nat → Nat
  | 0 => 0
  | n + 1 => if path[n]? = some slash then n else lastSlash path n

def parentOf (path : List Byte) : List Byte :=
  let i := lastSlash path path.length
  if i = 0 then [slash] else path.take i

variable {cs : List (List Byte)}

theorem dropSlashes_of_ne (hc : c ≠ slash) (l : List Byte) : dropSlashes (c :: l) = c :: l := by
  cases l with
  | nil => rfl
  | cons d l => exact if_neg hc

theorem length_dropSlashes_le (l : List Byte) : (dropSlashes l).length ≤ l.length := by
  induction l with
  | nil => exact le_rfl
  | cons c l ih =>
    cases l with
    | nil => exact le_rfl
    | cons d l =>
      unfold dropSlashes
      split
      · exact ih.trans (Nat.le_succ _)
      · exact le_rfl

theorem normalizeLoop_spec {input : List Byte} {cur out r : List Byte}
    (hcs : ∀ c ∈ cs, IsPiece slash c)
    (hcur : slash ∉ cur) (hout : out = spell slash cs ++ slash :: cur) (hlen : out.length < maxPath)
    (h : normalizeLoop input (decide (cur = [])) out = some r) :
    (dropSlashes r.reverse).reverse = pathOf slash (cs ++ piecesFrom slash cur input) ∧
      r.length < maxPath ∧ r ≠ [] := by
  induction input generalizing cs cur out with
  | nil =>
    obtain rfl : out = r := Option.some.inj h
    refine ⟨?_, hlen, by simp [hout]⟩
    unfold piecesFrom
    subst hout
    split
    case isTrue hempty =>
      subst hempty
      rw [append_nil]
      rcases eq_nil_or_concat cs with rfl | ⟨ds, d, rfl⟩
      · rfl
      -- the slash after the last piece is dropped
      have hd := hcs d (by simp)
      obtain ⟨e, b, rfl⟩ : ∃ e b, d = e ++ [b] := by
        rcases eq_nil_or_concat d with h0 | ⟨e, b, h0⟩
        · exact absurd h0 hd.1
        · exact ⟨e, b, by simpa using h0⟩
      have hb : b ≠ slash := fun h0 => hd.2 (by simp [h0])
      rw [concat_eq_append, pathOf_concat, spell_concat]
      simp only [reverse_append, reverse_cons, reverse_nil, nil_append, cons_append, append_assoc]
      rw [dropSlashes, if_pos rfl, dropSlashes_of_ne hb]
      simp
    case isFalse hne =>
      obtain ⟨e, b, rfl⟩ : ∃ e b, cur = e ++ [b] := by
        rcases eq_nil_or_concat cur with h0 | ⟨e, b, h0⟩
        · exact absurd h0 hne
        · exact ⟨e, b, by simpa using h0⟩
      have hb : b ≠ slash := fun h0 => hcur (by simp [h0])
      rw [pathOf_concat]
      simp only [reverse_append, reverse_cons, reverse_nil, nil_append, cons_append]
      rw [dropSlashes_of_ne hb]
      simp
  | cons a input ih =>
    unfold normalizeLoop at h
    unfold piecesFrom
    split at h
    case isTrue ha =>
      rw [if_pos ha]
      split at h
      case isTrue hempty =>
        have hempty : cur = [] := of_decide_eq_true hempty
        rw [if_pos hempty]
        subst hempty
        exact ih hcs hcur hout hlen h
      case isFalse hne =>
        have hne : cur ≠ [] := fun h0 => hne (decide_eq_true h0)
        split at h
        · cases h
        case isFalse hshort =>
          have hcs' : ∀ c ∈ cs ++ [cur], IsPiece slash c := by
            intro c hc
            rcases mem_append.mp hc with hc | hc
            · exact hcs c hc
            · exact mem_singleton.mp hc ▸ ⟨hne, hcur⟩
          have hnext := @ih (cs ++ [cur]) [] _ hcs' not_mem_nil
            (by rw [hout, spell_concat]) (by rw [length_append, length_singleton]; omega) h
          rw [if_neg hne]
          rwa [append_assoc] at hnext
    case isFalse ha =>
      rw [if_neg ha]
      split at h
      · cases h
      case isFalse hshort =>
        have hcur' : slash ∉ cur ++ [a] := by
          rw [mem_append, not_or, mem_singleton]
          exact ⟨hcur, Ne.symm ha⟩
        have hout' : out ++ [a] = spell slash cs ++ slash :: (cur ++ [a]) := by
          rw [hout, append_assoc]
          rfl
        refine ih hcs hcur' hout' (by rw [length_append, length_singleton]; omega) ?_
        rwa [decide_eq_false (by simp)]

theorem normalizePath_eq (p : List Byte) : ∃ input, pieces slash input = pieces slash p ∧
    normalizePath p =
      match normalizeLoop input true [slash] with
      | none => none
      | some out => some (dropSlashes (if out = [] then [slash] else out).reverse).reverse := by
  cases p with
  | nil => exact ⟨[], rfl, rfl⟩
  | cons a p =>
    by_cases ha : a = slash
    · subst ha
      exact ⟨p, rfl, rfl⟩
    refine ⟨a :: p, rfl, ?_⟩
    have hrel : (a :: p).head? ≠ some slash := fun h0 => ha (Option.some.inj h0)
    unfold normalizePath
    simp only [hrel, ne_eq, not_false_eq_true, decide_true, if_true]

theorem normalizePath_spec (h : normalizePath p = some n) : n = pathOf slash (pieces slash p) ∧
    n.length < maxPath := by
  obtain ⟨input, hp, heq⟩ := normalizePath_eq p
  rw [heq] at h
  cases hl : normalizeLoop input true [slash] with
  | none =>
    rw [hl] at h
    cases h
  | some out =>
    obtain ⟨h1, h2, h3⟩ := @normalizeLoop_spec [] _ [] _ _ (by simp) not_mem_nil rfl
      (by decide : [slash].length < maxPath) hl
    rw [hl] at h
    dsimp only at h
    rw [if_neg h3] at h
    cases h
    have hle := length_dropSlashes_le out.reverse
    rw [length_reverse] at hle
    rw [length_reverse]
    refine ⟨h1.trans ?_, by omega⟩
    rw [nil_append, ← hp]
    rfl

theorem normalizeLoop_isSome {prev : Bool} {out : List Byte}
    (h : out.length + input.length < maxPath) : (normalizeLoop input prev out).isSome := by
  induction input generalizing prev out with
  | nil => rfl
  | cons a input ih =>
    rw [length_cons] at h
    have hshort : ¬ out.length + 1 ≥ maxPath := by omega
    have hnext : ∀ b : Byte, (out ++ [b]).length + input.length < maxPath := by
      intro b
      rw [length_append, length_singleton]
      omega
    unfold normalizeLoop
    rw [if_neg hshort, if_neg hshort]
    split
    · split
      · exact ih (by omega)
      · exact ih (hnext _)
    · exact ih (hnext _)

theorem normalizePath_absolute (h : (slash :: l).length < maxPath) :
    normalizePath (slash :: l) = some (pathOf slash (pieces slash (slash :: l))) := by
  have hloop : (normalizeLoop l true [slash]).isSome := normalizeLoop_isSome (by
    rw [length_cons] at h
    rw [length_singleton]
    omega)
  obtain ⟨out, hout⟩ := Option.isSome_iff_exists.mp hloop
  have hn : normalizePath (slash :: l) =
      some (dropSlashes (if out = [] then [slash] else out).reverse).reverse := by
    have heq : normalizePath (slash :: l) = match normalizeLoop l true [slash] with
      | none => none
      | some out => some (dropSlashes (if out = [] then [slash] else out).reverse).reverse := rfl
    rw [heq, hout]
  rw [hn, (normalizePath_spec hn).1]

def Normalised (n : List Byte) : Prop := IsPath slash n ∧ n.length < maxPath

instance (n : List Byte) : Decidable (Normalised n) := inferInstanceAs (Decidable (_ ∧ _))

theorem normalised_of_normalizePath (h : normalizePath p = some n) : Normalised n := by
  obtain ⟨rfl, hlen⟩ := normalizePath_spec h
  exact ⟨isPath_pathOf_pieces p, hlen⟩

theorem Normalised.normalizePath (h : Normalised n) : Fs.normalizePath n = some n := by
  obtain ⟨⟨cs, hcs, rfl⟩, hlen⟩ := h
  obtain ⟨l, hl⟩ : ∃ l, pathOf slash cs = slash :: l := by
    cases cs with
    | nil => exact ⟨[], rfl⟩
    | cons c cs => exact ⟨_, rfl⟩
  rw [hl] at hlen
  have h0 := normalizePath_absolute hlen
  rw [← hl, pieces_pathOf hcs] at h0
  exact h0

theorem lastSlash_append (hc : slash ∉ c) : lastSlash (l ++ slash :: c) (l ++ slash :: c).length =
    l.length := by
  have hscan : ∀ k ≤ c.length, lastSlash (l ++ slash :: c) (l.length + 1 + k) = l.length := by
    intro k
    induction k with
    | zero =>
      intro _
      have hat : (l ++ slash :: c)[l.length]? = some slash := by simp
      exact if_pos hat
    | succ k ih =>
      intro hk
      have hat : (l ++ slash :: c)[l.length + 1 + k]? ≠ some slash := by
        rw [getElem?_append_right (by omega), show l.length + 1 + k - l.length =
          k + 1 by omega, getElem?_cons_succ]
        exact fun h0 => hc (mem_of_getElem? h0)
      rw [show l.length + 1 + (k + 1) = l.length + 1 + k + 1 by omega, lastSlash, if_neg hat]
      exact ih (by omega)
  have hall := hscan c.length le_rfl
  rwa [show l.length + 1 + c.length = (l ++ slash :: c).length by simp; omega] at hall

theorem parentOf_pathOf (cs : List (List Byte)) (hc : slash ∉ c) :
    parentOf (pathOf slash (cs ++ [c])) = pathOf slash cs := by
  unfold parentOf
  rw [pathOf_concat, lastSlash_append hc]
  unfold pathOf
  by_cases hcs : cs = []
  · subst hcs
    rfl
  have hne : (spell slash cs).length ≠ 0 := fun h0 => hcs (spell_eq_nil.mp (length_eq_zero_iff.mp h0))
  dsimp only
  rw [if_neg hne, if_neg hcs, take_left]

theorem Normalised.parent (h : Normalised n) : Normalised (parentOf n) := by
  obtain ⟨⟨cs, hcs, rfl⟩, hlen⟩ := h
  rcases eq_nil_or_concat cs with rfl | ⟨ds, d, rfl⟩
  · exact ⟨⟨[], by simp, rfl⟩, by decide⟩
  rw [concat_eq_append] at hcs hlen ⊢
  rw [parentOf_pathOf ds (hcs d (by simp)).2]
  refine ⟨⟨ds, fun c hc => hcs c (by simp [hc]), rfl⟩, ?_⟩
  rw [pathOf_concat, length_append] at hlen
  unfold pathOf
  split
  · decide
  · omega

end BlockOS.Fs
