import BlockOS.Lib.Runs
import BlockOS.Lib.Words

/-! Read-copy-update (`kernel/rcu.cpp`). -/

namespace BlockOS.Kernel
open Words Runs List

structure RcuHead where
  callback : Nat
  readers : List Nat
  deriving DecidableEq

inductive SyncState where
  | idle
  | waiting (oldGen : Word)
  | passed
  | calling (toDelete : List RcuHead)
  deriving DecidableEq

structure Rcu where
  globalGeneration : Word := 0
  cpuGeneration : Word := 0
  pendingDeletions : List RcuHead := []
  loaded : Option Word := none
  sections : List Nat := []
  nextSection : Nat := 0
  sync : SyncState := .idle

inductive RcuOp where
  | readLoad
  | readStore
  | readUnlock
  | callRcu (callback : Nat)
  | syncAdvance
  | syncLoad
  | syncDetach
  | syncCall

def rcuStep (r : Rcu) : RcuOp → Rcu
  | .readLoad => { r with loaded := some r.globalGeneration }
  | .readStore =>
    match r.loaded with
    | none => r
    | some gen =>
      { r with
        cpuGeneration := gen
        loaded := none
        sections := r.nextSection :: r.sections
        nextSection := r.nextSection + 1 }
  | .readUnlock => { r with cpuGeneration := 0, sections := r.sections.tail }
  | .callRcu callback => { r with pendingDeletions := ⟨callback, r.sections⟩ :: r.pendingDeletions }
  | .syncAdvance =>
    match r.sync with
    | .idle => { r with globalGeneration := r.globalGeneration + 1, sync := .waiting r.globalGeneration }
    | _ => r
  | .syncLoad =>
    match r.sync with
    | .waiting oldGen =>
      if r.cpuGeneration = 0 ∨ r.cpuGeneration > oldGen then { r with sync := .passed } else r
    | _ => r
  | .syncDetach =>
    match r.sync with
    | .passed => { r with pendingDeletions := [], sync := .calling r.pendingDeletions }
    | _ => r
  | .syncCall =>
    match r.sync with
    | .calling [] => { r with sync := .idle }
    | .calling (_ :: rest) => { r with sync := .calling rest }
    | _ => r

def SyncState.due : SyncState → Option RcuHead
  | .calling (head :: _) => some head
  | _ => none

/-- No callback runs while a section that was open when it was queued is open. -/
def GracePeriod (r : Rcu) : RcuOp → Prop
  | .syncCall => ∀ head ∈ r.sync.due.toList, ∀ x ∈ head.readers, x ∉ r.sections
  | _ => True

instance : ∀ (r : Rcu) (op : RcuOp), Decidable (GracePeriod r op)
  | r, .syncCall => inferInstanceAs (Decidable (∀ head ∈ r.sync.due.toList, _))
  | _, .readLoad => .isTrue trivial
  | _, .readStore => .isTrue trivial
  | _, .readUnlock => .isTrue trivial
  | _, .callRcu _ => .isTrue trivial
  | _, .syncAdvance => .isTrue trivial
  | _, .syncLoad => .isTrue trivial
  | _, .syncDetach => .isTrue trivial

def Orderly (r : Rcu) : RcuOp → Prop
  | .readStore => ∀ gen, r.loaded = some gen → r.sections = [] ∧ gen ≠ 0 ∧ gen ≤ r.globalGeneration
  | .callRcu _ =>
    match r.sync with
    | .waiting oldGen => r.sections = [] ∨ r.cpuGeneration ≤ oldGen
    | .passed => r.sections = []
    | _ => True
  | _ => True

variable {r : Rcu}

def Rcu.Seen (r : Rcu) : Prop :=
  match r.sync with
  | .waiting oldGen => r.cpuGeneration ≤ oldGen ∨ r.cpuGeneration ≤ r.globalGeneration
  | _ => r.cpuGeneration ≤ r.globalGeneration

def Rcu.Blocks (r : Rcu) : Prop :=
  match r.sync with
  | .waiting oldGen => r.cpuGeneration ≤ oldGen
  | .passed => False
  | _ => True

structure Rcu.Sound (r : Rcu) : Prop where
  flat : r.sections.length ≤ 1
  published : r.sections ≠ [] → r.cpuGeneration ≠ 0 ∧ r.Seen
  pending : ∀ head ∈ r.pendingDeletions, (∃ x ∈ head.readers, x ∈ r.sections) → r.Blocks
  detached : ∀ l, r.sync = .calling l → ∀ head ∈ l, ∀ x ∈ head.readers, x ∉ r.sections
  opened : ∀ x ∈ r.sections, x < r.nextSection
  queued : ∀ head ∈ r.pendingDeletions, ∀ x ∈ head.readers, x < r.nextSection
  taken : ∀ l, r.sync = .calling l → ∀ head ∈ l, ∀ x ∈ head.readers, x < r.nextSection

theorem readStore_sound (h : r.Sound) (hop : Orderly r .readStore) : (rcuStep r .readStore).Sound := by
  dsimp only [rcuStep]
  cases hl : r.loaded with
  | none => exact h
  | some gen =>
    obtain ⟨hnil, hne, hle⟩ := hop gen hl
    -- the new section has a number that no callback knows
    have hnew : ∀ x ∈ r.nextSection :: r.sections, x = r.nextSection := by
      intro x hx
      rw [hnil] at hx
      exact mem_singleton.mp hx
    refine ⟨by simp [hnil], fun _ => ⟨hne, ?_⟩, ?_, ?_, ?_, ?_, ?_⟩
    · unfold Rcu.Seen
      dsimp only
      split
      · exact .inr hle
      · exact hle
    · rintro head hhead ⟨x, hx, hopen⟩
      exact absurd (hnew x hopen) (h.queued head hhead x hx).ne
    · intro l hsync head hhead x hx hopen
      exact absurd (hnew x hopen) (h.taken l hsync head hhead x hx).ne
    · intro x hx
      rw [hnew x hx]
      exact Nat.lt_succ_self _
    · exact fun head hhead x hx => (h.queued head hhead x hx).trans (Nat.lt_succ_self _)
    · exact fun l hsync head hhead x hx => (h.taken l hsync head hhead x hx).trans (Nat.lt_succ_self _)

theorem readUnlock_sound (h : r.Sound) : (rcuStep r .readUnlock).Sound := by
  have hnil : r.sections.tail = [] := by
    have hflat := h.flat
    match r.sections, hflat with
    | [], _ => rfl
    | [_], _ => rfl
  have hnone : ∀ x, x ∉ (rcuStep r .readUnlock).sections := by
    intro x
    show x ∉ r.sections.tail
    rw [hnil]
    exact not_mem_nil
  refine ⟨by simp [rcuStep, hnil], fun h0 => absurd hnil h0, ?_, ?_, ?_, h.queued, h.taken⟩
  · rintro head - ⟨x, -, hopen⟩
    exact absurd hopen (hnone x)
  · exact fun l _ head _ x _ => hnone x
  · exact fun x hx => absurd hx (hnone x)

theorem callRcu_sound (h : r.Sound) (callback : Nat) (hop : Orderly r (.callRcu callback)) :
    (rcuStep r (.callRcu callback)).Sound := by
  have hcases : ∀ head ∈ (rcuStep r (.callRcu callback)).pendingDeletions,
      head = ⟨callback, r.sections⟩ ∨ head ∈ r.pendingDeletions := fun head hhead => mem_cons.mp hhead
  refine ⟨h.flat, h.published, ?_, h.detached, h.opened, ?_, h.taken⟩
  · rintro head hhead ⟨x, hx, hopen⟩
    rcases hcases head hhead with rfl | hhead
    · have hne : r.sections ≠ [] := ne_nil_of_mem hx
      show r.Blocks
      unfold Orderly at hop
      unfold Rcu.Blocks
      cases hs : r.sync with
      | idle => trivial
      | waiting oldGen =>
        rw [hs] at hop
        exact hop.resolve_left hne
      | passed =>
        rw [hs] at hop
        exact hne hop
      | calling l => trivial
    · exact h.pending head hhead ⟨x, hx, hopen⟩
  · intro head hhead x hx
    rcases hcases head hhead with rfl | hhead
    · exact h.opened x hx
    · exact h.queued head hhead x hx

theorem syncAdvance_sound (h : r.Sound) : (rcuStep r .syncAdvance).Sound := by
  dsimp only [rcuStep]
  cases hs : r.sync with
  | idle =>
    have hseen : r.sections ≠ [] → r.cpuGeneration ≤ r.globalGeneration := by
      intro hne
      have := (h.published hne).2
      rwa [Rcu.Seen, hs] at this
    refine ⟨h.flat, fun hne => ⟨(h.published hne).1, .inl (hseen hne)⟩, ?_, fun l => nofun,
      h.opened, h.queued, fun l => nofun⟩
    rintro head - ⟨x, -, hopen⟩
    exact hseen (ne_nil_of_mem hopen)
  | waiting oldGen => exact h
  | passed => exact h
  | calling l => exact h

theorem syncLoad_sound (h : r.Sound) : (rcuStep r .syncLoad).Sound := by
  dsimp only [rcuStep]
  cases hs : r.sync with
  | idle => exact h
  | waiting oldGen =>
    dsimp only
    split
    case isFalse => exact h
    case isTrue hpass =>
      -- an open section would have published a generation other than 0
      have hlater : r.sections ≠ [] → oldGen < r.cpuGeneration :=
        fun hne => hpass.resolve_left (h.published hne).1
      refine ⟨h.flat, fun hne => ⟨(h.published hne).1, ?_⟩, ?_, fun l => nofun, h.opened, h.queued,
        fun l => nofun⟩
      · have hseen := (h.published hne).2
        rw [Rcu.Seen, hs] at hseen
        exact hseen.resolve_left (BitVec.not_le.mpr (hlater hne))
      rintro head hhead ⟨x, hx, hopen⟩
      have hblocks := h.pending head hhead ⟨x, hx, hopen⟩
      rw [Rcu.Blocks, hs] at hblocks
      exact absurd hblocks (BitVec.not_le.mpr (hlater (ne_nil_of_mem hopen)))
  | passed => exact h
  | calling l => exact h

theorem syncDetach_sound (h : r.Sound) : (rcuStep r .syncDetach).Sound := by
  dsimp only [rcuStep]
  cases hs : r.sync with
  | idle => exact h
  | waiting oldGen => exact h
  | passed =>
    refine ⟨h.flat, fun hne => ⟨(h.published hne).1, ?_⟩, fun _ => nofun, ?_, h.opened,
      fun _ => nofun, ?_⟩
    · have hseen := (h.published hne).2
      rwa [Rcu.Seen, hs] at hseen
    · rintro l ⟨⟩ head hhead x hx hopen
      have hblocks := h.pending head hhead ⟨x, hx, hopen⟩
      rwa [Rcu.Blocks, hs] at hblocks
    · rintro l ⟨⟩
      exact h.queued
  | calling l => exact h

theorem syncCall_sound (h : r.Sound) : (rcuStep r .syncCall).Sound := by
  dsimp only [rcuStep]
  cases hs : r.sync with
  | idle => exact h
  | waiting oldGen => exact h
  | passed => exact h
  | calling l =>
    have hseen : r.sections ≠ [] → r.cpuGeneration ≠ 0 ∧ r.cpuGeneration ≤ r.globalGeneration := by
      intro hne
      have := h.published hne
      rwa [Rcu.Seen, hs] at this
    cases l with
    | nil =>
      exact ⟨h.flat, hseen, fun _ _ _ => trivial, fun l => nofun, h.opened, h.queued, fun l => nofun⟩
    | cons head rest =>
      refine ⟨h.flat, hseen, fun _ _ _ => trivial, ?_, h.opened, h.queued, ?_⟩
      · rintro l ⟨⟩ x hx
        exact h.detached _ hs x (mem_cons_of_mem _ hx)
      · rintro l ⟨⟩ x hx
        exact h.taken _ hs x (mem_cons_of_mem _ hx)

theorem rcuStep_sound (h : r.Sound) (hop : Orderly r op) : (rcuStep r op).Sound := by
  cases op with
  | readLoad => exact ⟨h.flat, h.published, h.pending, h.detached, h.opened, h.queued, h.taken⟩
  | readStore => exact readStore_sound h hop
  | readUnlock => exact readUnlock_sound h
  | callRcu callback => exact callRcu_sound h callback hop
  | syncAdvance => exact syncAdvance_sound h
  | syncLoad => exact syncLoad_sound h
  | syncDetach => exact syncDetach_sound h
  | syncCall => exact syncCall_sound h

theorem Rcu.Sound.gracePeriod (h : r.Sound) (op : RcuOp) : GracePeriod r op := by
  cases op with
  | syncCall =>
    intro head hhead
    cases hs : r.sync with
    | calling l =>
      cases l with
      | nil => rw [hs] at hhead; cases hhead
      | cons first rest =>
        rw [hs] at hhead
        obtain rfl := mem_singleton.mp hhead
        exact h.detached _ hs head mem_cons_self
    | _ => rw [hs] at hhead; cases hhead
  | _ => trivial

theorem rcu_sound : Rcu.Sound {} :=
  ⟨by decide, fun h => absurd rfl h, fun _ => nofun, fun _ => nofun, fun _ => nofun, fun _ => nofun, fun _ => nofun⟩

theorem grace_period {ops : List RcuOp} (h : Along rcuStep Orderly {} ops) :
    Along rcuStep GracePeriod {} ops :=
  Along.imp (I := Rcu.Sound) (fun _ _ hs hop => rcuStep_sound hs hop)
    (fun _ op hs _ => hs.gracePeriod op) rcu_sound h

def orderlySteps : List RcuOp :=
  [.syncAdvance, .syncLoad, .syncDetach, .syncCall, .readLoad, .readStore, .callRcu 7, .syncAdvance,
    .syncLoad, .readUnlock, .syncLoad, .syncDetach, .syncCall, .syncCall]

theorem grace_period_orderly : Along rcuStep Orderly {} orderlySteps ∧
    Along rcuStep GracePeriod {} orderlySteps := by
  have h : Along rcuStep Orderly {} orderlySteps := by
    refine ⟨trivial, trivial, trivial, trivial, trivial, ?_, trivial, trivial, trivial, trivial,
      trivial, trivial, trivial, trivial, trivial⟩
    rintro gen ⟨⟩
    decide
  exact ⟨h, grace_period h⟩

theorem no_grace_period : ¬ Along rcuStep GracePeriod {}
      [.readLoad, .readStore, .callRcu 7, .syncAdvance, .syncLoad, .syncDetach, .syncCall] := by
  decide

end BlockOS.Kernel
