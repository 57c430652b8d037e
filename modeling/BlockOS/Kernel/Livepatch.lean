import BlockOS.Lib.Runs
import BlockOS.Lib.Words

/-! Live patches of function slots (`kernel/livepatch/livepatch.cpp`). -/

namespace BlockOS.Kernel
open Words Runs List Function

def maxPatches : Nat := 64

structure Patch where
  name : List Byte := []
  target : Word := 0
  replacement : Word := 0
  original : Word := 0
  registered : Bool := false
  applied : Bool := false
  deriving DecidableEq

inductive PatchError where
  | none
  | invalidArgument
  | alreadyRegistered
  | notFound
  | alreadyApplied
  | notApplied
  | noFreeSlot
  | invalidState
  deriving DecidableEq

structure Patches where
  patches : List Patch
  memory : Word → Word
  error : PatchError := .none
  initialized : Bool := true

def patchesInit (memory : Word → Word) : Patches := ⟨.replicate maxPatches {}, memory, .none, true⟩

def Patches.findMutable (s : Patches) (name : List Byte) : Option Nat :=
  s.patches.findIdx? fun p => p.registered && decide (p.name = name)

def Patches.freeSlot (s : Patches) : Option Nat := s.patches.findIdx? fun p => !p.registered

def Patches.fails (s : Patches) (e : PatchError) : Bool × Patches := (false, { s with error := e })

def Patches.registerPatch (s : Patches) (name : Option (List Byte)) (target replacement : Word) :
    Bool × Patches :=
  if !s.initialized then s.fails .invalidState
  else
    match name with
    | none => s.fails .invalidArgument
    | some name =>
      if target = 0 ∨ replacement = 0 then s.fails .invalidArgument
      else if (s.findMutable name).isSome then s.fails .alreadyRegistered
      else
        match s.freeSlot with
        | none => s.fails .noFreeSlot
        | some i =>
          (true, { s with
            patches := s.patches.set i ⟨name, target, replacement, s.memory target, true, false⟩
            error := .none })

def Patches.unregisterPatch (s : Patches) (name : List Byte) : Bool × Patches :=
  match s.findMutable name with
  | none => s.fails .notFound
  | some i =>
    match s.patches[i]? with
    | none => s.fails .notFound
    | some p =>
      if p.applied then s.fails .alreadyApplied
      else (true, { s with patches := s.patches.set i {}, error := .none })

def Patches.apply (s : Patches) (name : List Byte) : Bool × Patches :=
  match s.findMutable name with
  | none => s.fails .notFound
  | some i =>
    match s.patches[i]? with
    | none => s.fails .notFound
    | some p =>
      if p.applied then s.fails .alreadyApplied
      else if p.target = 0 ∨ p.replacement = 0 then s.fails .invalidArgument
      else
        (true, { s with
          patches := s.patches.set i { p with applied := true }
          memory := update s.memory p.target p.replacement
          error := .none })

def Patches.rollback (s : Patches) (name : List Byte) : Bool × Patches :=
  match s.findMutable name with
  | none => s.fails .notFound
  | some i =>
    match s.patches[i]? with
    | none => s.fails .notFound
    | some p =>
      if !p.applied then s.fails .notApplied
      else if p.target = 0 then s.fails .invalidArgument
      else
        (true, { s with
          patches := s.patches.set i { p with applied := false }
          memory := update s.memory p.target p.original
          error := .none })

def Patches.rollbackFrom : Nat → Patches → Bool × Patches
  | 0, s => (true, { s with error := .none })
  | n + 1, s =>
    match s.patches[n]? with
    | none => rollbackFrom n s
    | some p =>
      if !p.registered || !p.applied then rollbackFrom n s
      else
        let r := s.rollback p.name
        if r.1 then rollbackFrom n r.2 else (false, r.2)

def Patches.rollbackAll (s : Patches) : Bool × Patches := s.rollbackFrom maxPatches

inductive PatchOp where
  | register (name : Option (List Byte)) (target replacement : Word)
  | unregister (name : List Byte)
  | apply (name : List Byte)
  | rollback (name : List Byte)
  | rollbackAll

def patchStep (s : Patches) : PatchOp → Patches
  | .register name target replacement => (s.registerPatch name target replacement).2
  | .unregister name => (s.unregisterPatch name).2
  | .apply name => (s.apply name).2
  | .rollback name => (s.rollback name).2
  | .rollbackAll => s.rollbackAll.2

def Patches.Undone (first : Word → Word) (s : Patches) : Prop :=
  ∀ t, (∀ p ∈ s.patches, p.registered = true → p.target = t → p.applied = false) → s.memory t = first t

/-- A patch that gets a slot is registered while its target holds the value of `first`. -/
def CleanTarget (first : Word → Word) (s : Patches) : PatchOp → Prop
  | .register name target replacement =>
    (s.registerPatch name target replacement).1 = true → s.memory target = first target
  | _ => True

instance (first : Word → Word) : ∀ (s : Patches) (op : PatchOp), Decidable (CleanTarget first s op)
  | _, .register .. => inferInstanceAs (Decidable (_ → _))
  | _, .unregister _ => .isTrue trivial
  | _, .apply _ => .isTrue trivial
  | _, .rollback _ => .isTrue trivial
  | _, .rollbackAll => .isTrue trivial

variable {first : Word → Word} {s : Patches} {name : List Byte}

structure Patches.Sound (first : Word → Word) (s : Patches) : Prop where
  originals : ∀ p ∈ s.patches, p.registered = true → p.original = first p.target
  undone : s.Undone first

theorem Patches.Sound.fails (h : s.Sound first) (e : PatchError) : (s.fails e).2.Sound first :=
  ⟨h.originals, h.undone⟩

theorem findMutable_spec (h : s.findMutable name = some i) : ∃ p, s.patches[i]? = some p ∧
    p.registered = true := by
  obtain ⟨hi, hp, -⟩ := findIdx?_eq_some_iff_getElem.mp h
  refine ⟨s.patches[i], getElem?_eq_getElem hi, ?_⟩
  exact (Bool.and_eq_true _ _ ▸ hp).1

theorem freeSlot_registered (h : s.freeSlot = some i) : ∃ p, s.patches[i]? = some p ∧
    p.registered = false := by
  obtain ⟨hi, hp, -⟩ := findIdx?_eq_some_iff_getElem.mp h
  exact ⟨s.patches[i], getElem?_eq_getElem hi, by simpa using hp⟩

theorem Patches.Sound.replace (h : s.Sound first) (hi : s.patches[i]? = some p)
    (hp : p.registered = true → p.applied = false) (hq : q.applied = false)
    (ho : q.registered = true → q.original = first q.target) (e : PatchError) :
    ({ s with patches := s.patches.set i q, error := e } : Patches).Sound first := by
  refine ⟨fun r hr hreg => ?_, fun t ht => h.undone t fun r hr hreg htar => ?_⟩
  · rcases mem_or_eq_of_mem_set hr with hr | rfl
    · exact h.originals r hr hreg
    · exact ho hreg
  obtain ⟨j, hj⟩ := mem_iff_getElem?.mp hr
  by_cases hij : i = j
  · subst hij
    rw [hi] at hj
    cases hj
    exact hp hreg
  · refine ht r (mem_iff_getElem?.mpr ⟨j, ?_⟩) hreg htar
    rw [getElem?_set_ne hij]
    exact hj

theorem register_sound (h : s.Sound first) (name : Option (List Byte)) (replacement : Word)
    (hclean : (s.registerPatch name target replacement).1 = true → s.memory target = first target) :
    (s.registerPatch name target replacement).2.Sound first := by
  revert hclean
  unfold Patches.registerPatch
  split
  · exact fun _ => h.fails _
  split
  · exact fun _ => h.fails _
  split
  · exact fun _ => h.fails _
  split
  · exact fun _ => h.fails _
  split
  · exact fun _ => h.fails _
  case h_2 i hfree =>
    obtain ⟨p, hp, hreg⟩ := freeSlot_registered hfree
    exact fun hclean =>
      h.replace hp (fun h0 => absurd h0 (by rw [hreg]; decide)) rfl (fun _ => hclean rfl) .none

theorem unregister_sound (h : s.Sound first) (name : List Byte) :
    (s.unregisterPatch name).2.Sound first := by
  unfold Patches.unregisterPatch
  split
  · exact h.fails _
  split
  · exact h.fails _
  case h_2 p hp =>
    split
    · exact h.fails _
    case isFalse happ =>
      exact h.replace hp (fun _ => Bool.eq_false_of_not_eq_true happ) rfl
        (fun h0 => absurd h0 Bool.false_ne_true) .none

theorem apply_sound (h : s.Sound first) (name : List Byte) : (s.apply name).2.Sound first := by
  unfold Patches.apply
  split
  · exact h.fails _
  case h_2 i hfind =>
    obtain ⟨p, hp, hreg⟩ := findMutable_spec hfind
    rw [hp]
    dsimp only
    split
    · exact h.fails _
    split
    · exact h.fails _
    have hi : i < s.patches.length := (List.getElem?_eq_some_iff.mp hp).1
    refine ⟨fun r hr hr' => ?_, fun t ht => ?_⟩
    · rcases List.mem_or_eq_of_mem_set hr with hr | rfl
      · exact h.originals r hr hr'
      · exact h.originals p (List.mem_of_getElem? hp) hreg
    have hmem := List.mem_set hi { p with applied := true }
    have hne : t ≠ p.target := fun h0 => Bool.false_ne_true (ht _ hmem hreg h0.symm).symm
    refine (Function.update_of_ne hne ..).trans (h.undone t fun r hr hr' htar => ?_)
    obtain ⟨j, hj⟩ := List.mem_iff_getElem?.mp hr
    have hij : i ≠ j := by
      rintro rfl
      rw [hp] at hj
      cases hj
      exact hne htar.symm
    exact ht r (List.mem_iff_getElem?.mpr ⟨j, by rw [List.getElem?_set_ne hij]; exact hj⟩) hr' htar

theorem rollback_sound (h : s.Sound first) (name : List Byte) : (s.rollback name).2.Sound first := by
  unfold Patches.rollback
  split
  · exact h.fails _
  case h_2 i hfind =>
    obtain ⟨p, hp, hreg⟩ := findMutable_spec hfind
    have horig := h.originals p (mem_of_getElem? hp) hreg
    rw [hp]
    dsimp only
    split
    · exact h.fails _
    split
    · exact h.fails _
    refine ⟨fun r hr hr' => ?_, fun t ht => ?_⟩
    · rcases mem_or_eq_of_mem_set hr with hr | rfl
      · exact h.originals r hr hr'
      · exact horig
    by_cases hne : t = p.target
    · rw [hne]
      exact (update_self ..).trans horig
    refine (update_of_ne hne ..).trans (h.undone t fun r hr hr' htar => ?_)
    obtain ⟨j, hj⟩ := mem_iff_getElem?.mp hr
    have hij : i ≠ j := by
      rintro rfl
      rw [hp] at hj
      cases hj
      exact hne htar.symm
    exact ht r (mem_iff_getElem?.mpr ⟨j, by rw [getElem?_set_ne hij]; exact hj⟩) hr' htar

theorem rollbackFrom_sound (h : s.Sound first) : (s.rollbackFrom n).2.Sound first := by
  induction n generalizing s with
  | zero => exact ⟨h.originals, h.undone⟩
  | succ n ih =>
    unfold Patches.rollbackFrom
    split
    · exact ih h
    case h_2 p _ =>
      split
      · exact ih h
      dsimp only
      split
      · exact ih (rollback_sound h p.name)
      · exact rollback_sound h p.name

theorem patchStep_sound (h : s.Sound first) (hop : CleanTarget first s op) :
    (patchStep s op).Sound first := by
  cases op with
  | register name target replacement => exact register_sound h name replacement hop
  | unregister name => exact unregister_sound h name
  | apply name => exact apply_sound h name
  | rollback name => exact rollback_sound h name
  | rollbackAll => exact rollbackFrom_sound h

theorem patchesInit_sound (memory : Word → Word) : (patchesInit memory).Sound memory := by
  refine ⟨fun p hp hreg => ?_, fun _ _ => rfl⟩
  rw [eq_of_mem_replicate hp] at hreg
  cases hreg

theorem patches_undone (memory : Word → Word) {ops : List PatchOp}
    (h : Along patchStep (CleanTarget memory) (patchesInit memory) ops) :
    Along patchStep (fun s op => (patchStep s op).Undone memory) (patchesInit memory) ops :=
  Along.imp (I := Patches.Sound memory) (fun _ _ hs hop => patchStep_sound hs hop)
    (fun _ _ hs hop => (patchStep_sound hs hop).undone) (patchesInit_sound memory) h

def samplePatches : List PatchOp :=
  [.register (some [1]) 8 16, .register (some [2]) 8 24, .apply [1], .apply [2], .rollback [1],
    .rollback [2]]

theorem patches_undone_sample : Along patchStep (CleanTarget fun _ => 0)
    (patchesInit fun _ => 0) samplePatches ∧
      Along patchStep (fun s op => (patchStep s op).Undone fun _ => 0) (patchesInit fun _ => 0)
        samplePatches := by
  have h : Along patchStep (CleanTarget fun _ => 0) (patchesInit fun _ => 0) samplePatches :=
    by decide +kernel
  exact ⟨h, patches_undone (fun _ => 0) h⟩

def stackedPatches : List PatchOp :=
  [.register (some [1]) 8 16, .apply [1], .register (some [2]) 8 24, .apply [2], .rollback [1],
    .rollback [2]]

theorem patches_not_undone : ¬ (runFrom patchStep (patchesInit fun _ => 0) stackedPatches).Undone
    fun _ => 0 := by
  intro h
  have hval : (runFrom patchStep (patchesInit fun _ => 0) stackedPatches).memory 8 = 16 :=
    by decide +kernel
  have hnone : ∀ p ∈ (runFrom patchStep (patchesInit fun _ => 0) stackedPatches).patches,
      p.registered = true → p.target = 8 → p.applied = false := by decide +kernel
  exact absurd ((h 8 hnone).symm.trans hval) (by decide)

end BlockOS.Kernel
