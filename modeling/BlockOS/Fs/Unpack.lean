import BlockOS.Fs.Initramfs

/-! Unpacking is safe on any bytes. -/

namespace BlockOS.Fs
open Words Paths Loops List

def SafePiece (c : List Byte) : Prop := IsPiece slash c ∧ c ≠ [dot] ∧ c ≠ [dot, dot]

def SafePath (p : List Byte) : Prop := ∃ cs, (∀ c ∈ cs, SafePiece c) ∧ p = pathOf slash cs

variable {cs : List (List Byte)} {p : List Byte}

theorem pathOf_length_gt (hcs : ∀ c ∈ cs, IsPiece slash c) : 1 < (pathOf slash cs).length ↔
    cs ≠ [] := by
  refine ⟨?_, fun h => ?_⟩
  · rintro h rfl
    exact absurd h (by decide)
  obtain ⟨c, ds, rfl⟩ := exists_cons_of_ne_nil h
  have hne := length_pos_iff.mpr (hcs c mem_cons_self).1
  have hshape : pathOf slash (c :: ds) = slash :: (c ++ spell slash ds) := rfl
  rw [hshape, length_cons, length_append]
  omega

theorem pathOf_extend (hcs : ∀ c ∈ cs, IsPiece slash c) (c : List Byte) :
    (if (pathOf slash cs).length > 1 then pathOf slash cs ++ [slash] else pathOf slash cs) ++ c =
      pathOf slash (cs ++ [c]) := by
  rw [pathOf_concat]
  by_cases h : cs = []
  · subst h
    rfl
  rw [if_pos ((pathOf_length_gt hcs).mpr h)]
  unfold pathOf
  rw [if_neg h, append_assoc]
  rfl

theorem takeWhile_isPiece (hne : name ≠ []) (hhead : name.head? ≠ some slash) :
    IsPiece slash (name.takeWhile fun c => decide (c ≠ slash)) := by
  obtain ⟨c, rest, rfl⟩ := exists_cons_of_ne_nil hne
  have hc : c ≠ slash := fun h => hhead (h ▸ rfl)
  refine ⟨?_, fun h => ?_⟩
  · rw [takeWhile_cons_of_pos (by simpa using hc)]
    exact cons_ne_nil _ _
  · have h0 := all_eq_true.mp all_takeWhile slash h
    simp at h0

theorem head?_dropWhile_slash (name : List Byte) :
    (name.dropWhile fun c => decide (c = slash)).head? ≠ some slash := by
  intro h
  have h0 := head?_dropWhile_not (fun c => decide (c = slash)) name
  rw [h] at h0
  simp at h0

theorem makePathLoop_enough {fuel fuel' : Nat} {name out : List Byte} (h : name.length < fuel)
    (h' : name.length < fuel') : makePathLoop fuel name out = makePathLoop fuel' name out := by
  induction fuel generalizing name out fuel' with
  | zero => omega
  | succ fuel ih =>
    obtain ⟨fuel', rfl⟩ : ∃ n, fuel' = n + 1 := ⟨fuel' - 1, by omega⟩
    unfold makePathLoop
    have hle := (dropWhile_sublist fun c => decide (c = slash) : List.Sublist _ name).length_le
    have hhead := head?_dropWhile_slash name
    generalize name.dropWhile (fun c => decide (c = slash)) = rest at hle hhead ⊢
    cases rest with
    | nil => rfl
    | cons c cs =>
      have hc : c ≠ slash := fun h0 => hhead (congrArg some h0)
      have htail := (dropWhile_sublist fun c => decide (c ≠ slash) : List.Sublist _ cs).length_le
      have hsame : ∀ out, makePathLoop fuel ((c :: cs).dropWhile fun c => decide (c ≠ slash)) out =
          makePathLoop fuel' ((c :: cs).dropWhile fun c => decide (c ≠ slash)) out := by
        rw [length_cons] at hle
        rw [dropWhile_cons_of_pos (by simpa using hc)]
        exact fun out => ih (by omega) (by omega)
      simp only [hsame]

theorem makePathLoop_safe {fuel : Nat} {name out : List Byte} (hcs : ∀ c ∈ cs, SafePiece c)
    (hout : out = pathOf slash cs) (hlen : out.length < maxPath) (h : makePathLoop fuel name out =
      some p) :
    SafePath p ∧ p.length < maxPath := by
  induction fuel generalizing name out cs with
  | zero => cases h
  | succ fuel ih =>
    unfold makePathLoop at h
    dsimp only at h
    have hhead := head?_dropWhile_slash name
    generalize name.dropWhile (fun c => decide (c = slash)) = rest at h hhead
    split at h
    · cases h
      exact ⟨⟨cs, hcs, hout⟩, hlen⟩
    case isFalse hne =>
      have hpiece := takeWhile_isPiece hne hhead
      generalize rest.takeWhile (fun c => decide (c ≠ slash)) = c at h hpiece
      split at h
      · cases h
      split at h
      · exact ih hcs hout hlen h
      case isFalse hdot =>
        split at h
        · cases h
        case isFalse hdots =>
          split at h
          · cases h
          case isFalse hroom =>
            have hext := pathOf_extend (fun c hc => (hcs c hc).1) c
            rw [← hout] at hext
            generalize (if out.length > 1 then out ++ [slash] else out) = out' at h hext
            split at h
            · cases h
            case isFalse hfits =>
              refine @ih (cs ++ [c]) _ _ (fun d hd => ?_) hext ?_ h
              · rcases mem_append.mp hd with hd | hd
                · exact hcs d hd
                · exact mem_singleton.mp hd ▸ ⟨hpiece, hdot, hdots⟩
              · rw [length_append]
                omega

theorem makePath_safe (h : makePath name = some p) : SafePath p ∧ p.length < maxPath := by
  unfold makePath at h
  split at h
  · cases h
  dsimp only at h
  split at h
  · cases h
    exact ⟨⟨[], by simp, rfl⟩, by decide⟩
  split at h
  · cases h
  · exact @makePathLoop_safe [] _ _ _ _ (by simp) rfl (by decide) h

section

variable {μ : Type} {grants : Nat → Nat → Bool} {setMode : List Byte → BitVec 32 → μ → μ}
  {m : Mount μ}

def Mount.Safe (m : Mount μ) : Prop := ∀ p ∈ m.passed, SafePath p

theorem Mount.Safe.pass (h : m.Safe) (hp : SafePath p) : (m.pass p).Safe := by
  intro q hq
  rcases mem_append.mp hq with hq | hq
  · exact h q hq
  · exact mem_singleton.mp hq ▸ hp

theorem Mount.Safe.createDirectory (h : m.Safe) (hp : SafePath p) :
    (m.createDirectory grants p).2.Safe := h.pass hp

theorem Mount.Safe.createFile (h : m.Safe) (hp : SafePath p) (data : List Byte) :
    (m.createFile grants p data).2.Safe := h.pass hp

theorem Mount.Safe.changeMode (h : m.Safe) (hp : SafePath p) (mode : BitVec 32) :
    (m.changeMode setMode p mode).Safe := h.pass hp

theorem SafePath.take (h : SafePath p) (hi : 0 < i) (hcut : p[i]? = some slash ∨ i = p.length) :
    SafePath (p.take i) := by
  obtain ⟨cs, hcs, rfl⟩ := h
  by_cases hne : cs = []
  · subst hne
    refine ⟨[], by simp, ?_⟩
    have hlen : (pathOf slash ([] : List (List Byte))).length ≤ i := hi
    rw [take_of_length_le hlen]
  · have hshape : pathOf slash cs = spell slash cs := if_neg hne
    rw [hshape] at hcut ⊢
    obtain ⟨k, hk⟩ := take_spell (fun c hc => (hcs c hc).1.2) hcut
    refine ⟨cs.take k, fun c hc => hcs c (mem_of_mem_take hc), ?_⟩
    rw [hk]
    have htake : cs.take k ≠ [] := by
      intro h0
      rw [h0, spell_nil, take_eq_nil_iff, spell_eq_nil] at hk
      exact hk.elim (by omega) hne
    exact (if_neg htake).symm

theorem ensureFront_safe (h : m.Safe) (hp : SafePath p) (hi : 0 < i) :
    (ensureFront grants p i m).2.Safe := by
  unfold ensureFront
  split
  · exact h
  case isFalse hcut =>
    have hfront : SafePath (p.take i) := by
      refine hp.take hi ?_
      rw [not_and_or, not_not, not_not] at hcut
      exact hcut
    dsimp only
    split
    · exact (h.pass hfront).createDirectory hfront
    · exact (h.pass hfront).pass hfront

theorem ensureDirectory_safe (h : m.Safe) (hp : SafePath p) : (ensureDirectory grants p m).2.Safe := by
  unfold ensureDirectory
  split
  · exact h
  split
  · exact h
  split
  · exact h
  have hloop := @tryEach_spec _ _ (ensureFront grants p)
    (fun _ m => m.Safe) (fun m => m.Safe) (List.range' 1 p.length) m h
    (fun pre i post s hl hs _ => ?_) (fun pre i post s hl hs _ => ?_)
  · exact hloop.elim And.right And.right
  all_goals
    refine ensureFront_safe hs hp ?_
    have hmem : i ∈ List.range' 1 p.length := by
      rw [hl]
      exact mem_append_right _ mem_cons_self
    exact left_le_of_mem_range' hmem

theorem installNode_safe (h : m.Safe) (hp : SafePath p) (mode : BitVec 32) (data : List Byte) :
    (installNode grants setMode p mode data m).2.Safe := by
  unfold installNode
  split
  · split
    · exact (h.pass hp).pass hp
    · exact (h.pass hp).createDirectory hp
  split
  · exact h
  split
  · exact h.pass hp
  have hfile := @Mount.Safe.createFile _ _ grants _ (h.pass hp) hp data
  generalize (m.pass p).createFile grants p data = r at hfile
  obtain ⟨ok, m1⟩ := r
  cases ok with
  | false => exact hfile
  | true => exact hfile.changeMode hp _

theorem lastSlash_spec (h : lastSlash path n ≠ 0) : path[lastSlash path n]? = some slash := by
  induction n with
  | zero => exact absurd rfl h
  | succ n ih =>
    unfold lastSlash at h ⊢
    split
    case isTrue hs => exact hs
    case isFalse hs =>
      rw [if_neg hs] at h
      exact ih h

theorem installEntry_safe (h : m.Safe) (hp : SafePath p) (mode : BitVec 32) (data : List Byte) :
    (installEntry grants setMode p mode data m).2.Safe := by
  unfold installEntry
  split
  · exact h
  split
  · exact h
  dsimp only
  have hparent : (if lastSlash p p.length = 0 then (true, m)
      else ensureDirectory grants (p.take (lastSlash p p.length)) m).2.Safe := by
    split
    · exact h
    case isFalse hi =>
      exact ensureDirectory_safe h (hp.take (Nat.pos_of_ne_zero hi) (.inl (lastSlash_spec hi)))
  generalize (if lastSlash p p.length = 0 then (true, m)
      else ensureDirectory grants (p.take (lastSlash p p.length)) m) = r at hparent
  obtain ⟨ok, m1⟩ := r
  cases ok with
  | false => exact hparent
  | true => exact installNode_safe hparent hp mode data

end

section

variable {μ : Type} {grants : Nat → Nat → Bool} {setMode : List Byte → BitVec 32 → μ → μ}
  {a : Archive}

def Outcome.Proceeds (size offset : Nat) : Outcome μ → Prop
  | .fault => False
  | .failed m | .ended m | .trailer m => m.Safe
  | .more next m => m.Safe ∧ offset < next ∧ next ≤ size

theorem read_isSome (h : offset + n ≤ a.bytes.length) :
    a.read offset n = some ((a.bytes.drop offset).take n) := if_pos h

theorem walkNamed_proceeds (h : m.Safe) (mode : BitVec 32) (fileSize nameSize : Nat)
    (hoff : offset + cpioHeaderSize ≤ a.bytes.length) :
    (walkNamed grants setMode a offset mode fileSize nameSize m).Proceeds a.bytes.length offset := by
  have hfits := a.fits
  have hname : wrap (offset + cpioHeaderSize) = offset + cpioHeaderSize := Nat.mod_eq_of_lt (by omega)
  have hpos : 0 < cpioHeaderSize := by decide
  unfold walkNamed
  dsimp only
  rw [hname]
  split
  · exact h
  case isFalse hsize =>
    rw [read_isSome (by omega)]
    dsimp only
    split
    · exact h
    split
    · exact h
    split
    · exact h
    case isFalse hdata =>
      split
      · exact h
      case isFalse hnext =>
        split
        · exact h
        split
        · exact h
        case h_2 path hpath =>
          rw [read_isSome (by omega)]
          dsimp only
          have hinst := @installEntry_safe _ _ grants setMode _ h (makePath_safe hpath).1 mode
            ((a.bytes.drop (align4 (wrap (offset + cpioHeaderSize + nameSize)))).take fileSize)
          generalize installEntry grants setMode path mode _ m = r at hinst
          obtain ⟨ok, m1⟩ := r
          cases ok with
          | false => exact hinst
          | true => exact ⟨hinst, by omega, by omega⟩

theorem walkEntry_proceeds {offset : Nat} {m : Mount μ} (h : m.Safe)
    (hoff : offset < a.bytes.length) :
    (walkEntry grants setMode a offset m).Proceeds a.bytes.length offset := by
  unfold walkEntry
  dsimp only
  split
  · exact h
  case isFalse hroom =>
    have hin : offset + cpioHeaderSize ≤ a.bytes.length := by omega
    rw [read_isSome hin]
    dsimp only
    split
    · exact h
    split
    · exact walkNamed_proceeds h _ _ _ hin
    · exact h

def Outcome.Safe : Outcome μ → Prop
  | .failed m | .ended m | .trailer m => m.Safe
  | .fault | .more _ _ => False

theorem walk_safe (h : m.Safe) (hfuel : a.bytes.length < offset + fuel) :
    (walk grants setMode a fuel offset m).Safe ∨ a.bytes.length < offset := by
  induction fuel generalizing offset m with
  | zero => exact .inr hfuel
  | succ fuel ih =>
    unfold walk
    split
    case isTrue hin =>
      have hstep := @walkEntry_proceeds _ grants setMode _ _ _ h hin
      generalize walkEntry grants setMode a offset m = o at hstep
      cases o with
      | fault => exact hstep.elim
      | failed m1 | ended m1 | trailer m1 => exact .inl hstep
      | more next m1 =>
        obtain ⟨hsafe, hlt, hle⟩ := hstep
        exact (ih hsafe (by omega)).imp_right (by omega)
    case isFalse => exact .inl h

variable (grants setMode a) in
theorem mountWalk_safe (v : Vfs) (modes : μ) : (mountWalk grants setMode a v modes).Safe := by
  have hstart : ({ vfs := initializeDevices grants v, modes := modes } : Mount μ).Safe := nofun
  refine (walk_safe hstart ?_).resolve_right (Nat.not_lt_zero _)
  omega

end

end BlockOS.Fs
