import BlockOS.Kernel.Effects

/-! The calls of the scheduler, and the system calls that end in one, keep every identity and the
rule that exactly the current process runs, in its own address space. -/

namespace BlockOS.Kernel
open Words Function

def RunsCurrent (t : Tasks) : Prop := ∀ i, (t.procs i).state = .running ↔ t.current = some i

def Alive (t : Tasks) : Prop :=
  ∀ i, t.current = some i → (t.procs i).state ≠ .empty ∧ (t.procs i).state ≠ .terminated

def Loaded (t : Tasks) : Prop := ∀ i, t.current = some i → t.cr3 = (t.procs i).pml4 &&& addrMask

structure Steady (t t' : Tasks) : Prop where
  core : ∀ i, (t'.procs i).core = (t.procs i).core
  empty : ∀ i, (t'.procs i).state = .empty ↔ (t.procs i).state = .empty
  nextPid : t'.nextPid = t.nextPid

structure Held (t t' : Tasks) : Prop extends Steady t t' where
  loaded : Loaded t → Loaded t'
  alive : Alive t'

structure Settled (t t' : Tasks) : Prop extends Held t t' where
  runs : RunsCurrent t → RunsCurrent t'

structure Quiet (t t' : Tasks) : Prop extends Settled t t' where
  stays : t.current.isSome → t'.current.isSome

variable {marks : BitVec 32 → Prop}

theorem pml4_of_core {p p' : Process} (h : p'.core = p.core) : p'.pml4 = p.pml4 :=
  congrArg Core.pml4 h

theorem Steady.refl (t : Tasks) : Steady t t := ⟨fun _ => rfl, fun _ => Iff.rfl, rfl⟩

theorem Steady.trans (h : Steady t t') (h' : Steady t' t'') : Steady t t'' :=
  ⟨fun i => (h'.core i).trans (h.core i), fun i => (h'.empty i).trans (h.empty i),
    h'.nextPid.trans h.nextPid⟩

theorem Held.refl (h : Alive t) : Held t t := ⟨.refl t, id, h⟩

theorem Held.trans (h : Held t t') (h' : Held t' t'') : Held t t'' :=
  ⟨h.toSteady.trans h'.toSteady, fun h0 => h'.loaded (h.loaded h0), h'.alive⟩

theorem Settled.trans (h : Settled t t') (h' : Settled t' t'') : Settled t t'' :=
  ⟨h.toHeld.trans h'.toHeld, fun h0 => h'.runs (h.runs h0)⟩

theorem Quiet.refl (h : Alive t) : Quiet t t := ⟨⟨.refl h, id⟩, id⟩

theorem Quiet.trans (h : Quiet t t') (h' : Quiet t' t'') : Quiet t t'' :=
  ⟨h.toSettled.trans h'.toSettled, fun h0 => h'.stays (h.stays h0)⟩

theorem Steady.modify (t : Tasks) (i : Nat) (hc : (g (t.procs i)).core = (t.procs i).core)
    (he : (g (t.procs i)).state = .empty ↔ (t.procs i).state = .empty) : Steady t (t.modify i g) := by
  constructor
  · intro j
    by_cases hj : j = i
    · subst hj
      rwa [Tasks.modify_same]
    · rw [Tasks.modify_other t g hj]
  · intro j
    by_cases hj : j = i
    · subst hj
      rwa [Tasks.modify_same]
    · rw [Tasks.modify_other t g hj]
  · rfl

theorem Steady.enter (t : Tasks) (hi : (t.procs i).state ≠ .empty) : Steady t (t.enter i) := by
  have h := Steady.modify t i (g := Process.run) rfl ⟨nofun, fun h0 => absurd h0 hi⟩
  exact ⟨h.core, h.empty, h.nextPid⟩

theorem RunsCurrent.alive (h : RunsCurrent t) : Alive t := by
  intro i hi
  rw [(h i).mpr hi]
  exact ⟨nofun, nofun⟩

theorem Alive.enter (t : Tasks) (i : Nat) : Alive (t.enter i) := by
  intro j hj
  cases hj
  rw [t.enter_same]
  exact ⟨nofun, nofun⟩

theorem Alive.none (h : t.current = none) : Alive t := by
  intro i hi
  rw [h] at hi
  cases hi

theorem Alive.modify_other (h : Alive t) (hi : t.current ≠ some i) : Alive (t.modify i g) := by
  intro j hj
  have hji : j ≠ i := fun h0 => hi (h0 ▸ hj)
  rw [Tasks.modify_other t g hji]
  exact h j hj

theorem Loaded.of_core (hc : ∀ i, (t'.procs i).core = (t.procs i).core)
    (hcur : t'.current = t.current) (hcr3 : t'.cr3 = t.cr3) (h : Loaded t) : Loaded t' := by
  intro i hi
  rw [hcr3, pml4_of_core (hc i)]
  exact h i (hcur ▸ hi)

theorem Loaded.enter (t : Tasks) (i : Nat) : Loaded (t.enter i) := by
  intro j hj
  cases hj
  rw [t.enter_same]
  rfl

theorem Loaded.none (h : t.current = none) : Loaded t := by
  intro i hi
  rw [h] at hi
  cases hi

structure Calm (t t' : Tasks) : Prop where
  core : ∀ i, (t'.procs i).core = (t.procs i).core
  state : ∀ i, (t'.procs i).state = (t.procs i).state ∨
    ((t.procs i).state = .blocked ∧ (t'.procs i).state = .ready)
  current : t'.current = t.current
  cr3 : t'.cr3 = t.cr3
  nextPid : t'.nextPid = t.nextPid

theorem Tamed.calm (h : Tamed marks t t') : Calm t t' :=
  ⟨fun i => (h.procs i).core, fun i => (h.procs i).state.imp And.left And.right, h.current, h.cr3,
    h.nextPid⟩

theorem Calm.refl (t : Tasks) : Calm t t := (Tamed.refl t : Tamed (fun _ => True) t t).calm

theorem Calm.trans (h : Calm t t') (h' : Calm t' t'') : Calm t t'' := by
  refine ⟨fun i => (h'.core i).trans (h.core i), fun i => ?_, h'.current.trans h.current,
    h'.cr3.trans h.cr3, h'.nextPid.trans h.nextPid⟩
  rcases h.state i with h1 | ⟨h1, h2⟩
  · rcases h'.state i with h3 | ⟨h3, h4⟩
    · exact .inl (h3.trans h1)
    · exact .inr ⟨h1 ▸ h3, h4⟩
  rcases h'.state i with h3 | ⟨h3, _⟩
  · exact .inr ⟨h1, h3.trans h2⟩
  · rw [h2] at h3
    cases h3

theorem Calm.modify (t : Tasks) (i : Nat) (hc : (g (t.procs i)).core = (t.procs i).core)
    (hs : (g (t.procs i)).state = (t.procs i).state ∨
      ((t.procs i).state = .blocked ∧ (g (t.procs i)).state = .ready)) : Calm t (t.modify i g) := by
  refine ⟨fun j => ?_, fun j => ?_, rfl, rfl, rfl⟩
  · by_cases hj : j = i
    · subst hj
      rwa [Tasks.modify_same]
    · rw [Tasks.modify_other t g hj]
  · by_cases hj : j = i
    · subst hj
      rwa [Tasks.modify_same]
    · rw [Tasks.modify_other t g hj]
      exact .inl rfl

theorem Calm.state_iff (h : Calm t t') (hb : s ≠ .blocked) (hr : s ≠ .ready) (i : Nat) :
    (t'.procs i).state = s ↔ (t.procs i).state = s := by
  rcases h.state i with h1 | ⟨h1, h2⟩
  · rw [h1]
  · rw [h1, h2]
    exact ⟨fun h0 => absurd h0.symm hr, fun h0 => absurd h0.symm hb⟩

theorem Calm.runs (h : Calm t t') (hr : RunsCurrent t) : RunsCurrent t' := by
  intro i
  rw [h.state_iff (s := .running) nofun nofun, h.current]
  exact hr i

theorem Calm.alive (h : Calm t t') (ha : Alive t) : Alive t' := by
  intro i hi
  obtain ⟨he, ht⟩ := ha i (h.current ▸ hi)
  exact ⟨fun h0 => he ((h.state_iff (s := .empty) nofun nofun i).mp h0),
    fun h0 => ht ((h.state_iff (s := .terminated) nofun nofun i).mp h0)⟩

theorem Calm.quiet (h : Calm t t') (ha : Alive t) : Quiet t t' :=
  ⟨⟨⟨⟨h.core, h.state_iff nofun nofun, h.nextPid⟩, Loaded.of_core h.core h.current h.cr3,
    h.alive ha⟩, h.runs⟩, fun h0 => h.current ▸ h0⟩

section

variable {σ : Type}

theorem Calm.closeRule : CloseRule fun k k' : System σ => Calm k.tasks k'.tasks where
  refl _ := .refl _
  trans h h' := h.trans h'
  mem _ _ := .refl _
  setFd k o fd d := (Tamed.closeRule.setFd k o fd d).calm
  socks _ := .refl _
  wake k mark := (Tamed.closeRule.wake k mark).calm

theorem Quiet.closeRule : CloseRule fun k k' : System σ => Alive k.tasks →
    Quiet k.tasks k'.tasks where
  refl _ := .refl
  trans h h' ha := (h ha).trans (h' (h ha).alive)
  mem _ _ := .refl
  setFd k o fd d := (Calm.closeRule.setFd k o fd d).quiet
  socks _ := .refl
  wake k mark := (Calm.closeRule.wake k mark).quiet

theorem Quiet.minorRule : MinorRule fun k k' : System σ => Alive k.tasks → Quiet k.tasks k'.tasks :=
  { Quiet.closeRule.toRule with
    minor := fun k i _ hg => (Tamed.minorRule.minor k i hg : Tamed (fun _ => True) _ _).calm.quiet
    files := fun k i e => (Tamed.minorRule.files k i e : Tamed (fun _ => True) _ _).calm.quiet
    fsBase := fun k x => (Tamed.minorRule.fsBase k x : Tamed (fun _ => True) _ _).calm.quiet }

end

theorem RunsCurrent.scheduled (h : RunsCurrent t) : Scheduled (fun i => (t.procs i).savedFrame) t :=
  ⟨h, fun _ _ => rfl⟩

structure Left (p p' : Process) : Prop where
  core : p'.core = p.core
  fds : p'.fds = p.fds
  waits : p'.waits

structure Arrived (p p' : Process) : Prop where
  core : p'.core = p.core
  fds : p'.fds = p.fds
  state : p'.state = p.state
  frame : p'.savedFrame = p.savedFrame

structure SchedRule (cur : Option Nat) (R : Tasks → Tasks → Prop) : Prop where
  refl (t : Tasks) : R t t
  trans {t t' t'' : Tasks} : R t t' → R t' t'' → R t t''
  cursor (t : Tasks) (c : Nat) : R t { t with rrCursor := c }
  refuse {t : Tasks} {j : Nat} : t.current ≠ some j → (t.procs j).state = .ready →
    R t (t.modify j Process.terminate)
  leave {t : Tasks} {i : Nat} {g : Process → Process} : cur = some i → t.current = some i →
    Left (t.procs i) (g (t.procs i)) → R t (t.modify i g)
  arrive {t : Tasks} {j : Nat} {g : Process → Process} : (t.procs j).state = .ready →
    Arrived (t.procs j) (g (t.procs j)) → R t (t.modify j g)
  enter {t : Tasks} {j : Nat} : (t.procs j).state = .ready → R t (t.enter j)

section

variable {R : Tasks → Tasks → Prop} {arrive leave : Process → Process}

theorem SchedRule.arrives (h : SchedRule cur R) (hj : (t.procs j).state = .ready)
    (ha : ∀ p, Arrived p (arrive p)) : R t ((t.modify j arrive).enter j) := by
  refine h.trans (h.arrive hj (ha _)) (h.enter ?_)
  rw [Tasks.modify_same, (ha _).state]
  exact hj

theorem switchAway_rel (h : SchedRule t.current R) (f : TrapFrame) : R t (switchAway f t).2 := by
  unfold switchAway
  split
  · exact h.refl t
  case h_2 next hn =>
    obtain ⟨hcur, hready⟩ := pickNext_spec hn
    have h0 := h.cursor t next
    dsimp only
    split
    · exact h.trans h0 (h.refuse hcur hready)
    case isFalse hok =>
      rw [switchTo, if_neg hok]
      dsimp only
      have hproc := saveOutgoing_of_ne (t := { t with rrCursor := next }) (f := f) hcur
      have hsave : R { t with rrCursor := next }
          (saveOutgoing t.current f { t with rrCursor := next }) := by
        unfold saveOutgoing
        split
        · exact h.refl _
        case h_2 i hi =>
          split
          · exact h.leave hi hi ⟨rfl, rfl, .inl rfl⟩
          · exact h.refl _
      rw [Tasks.enter_same, if_neg (fun h1 => h1 rfl)]
      exact h.trans h0 (h.trans hsave (h.arrives (hproc ▸ hready) fun _ => ⟨rfl, rfl, rfl, rfl⟩))

theorem yield_rel (h : SchedRule t.current R) (f : SyscallFrame) : R t (yieldFromSyscall f t).2.2 := by
  have h0 := switchAway_rel h f.toTrap
  unfold yieldFromSyscall
  dsimp only
  split <;> exact h0

theorem onTimer_rel (h : SchedRule t.current R) (now : Word) (f : InterruptFrame) :
    R (wakeTimedTasks now t) (onTimer now f t).2.2 := by
  have h0 := switchAway_rel (t := wakeTimedTasks now t) h f.toTrap
  unfold onTimer
  dsimp only
  split
  · exact h.refl _
  · split <;> exact h0

theorem blockWith_rel (h : SchedRule t.current R)
    (hl : ∀ p, (leave p).core = p.core ∧ (leave p).fds = p.fds)
    (ha : ∀ p, Arrived p (arrive p)) (f : SyscallFrame) : R t (blockWith leave arrive f t).2.2 := by
  unfold blockWith
  split
  · exact h.refl t
  case h_2 cur hcur =>
    split
    · exact h.refl t
    case h_2 next hn =>
      obtain ⟨hne, hready⟩ := pickNext_spec hn
      have h0 := h.cursor t next
      dsimp only
      split
      · exact h.trans h0 (h.refuse hne hready)
      have hleave : R { t with rrCursor := next } ({ t with rrCursor := next }.modify cur
          fun p => (leave (p.save f.toTrap)).block) := h.leave hcur hcur ⟨(hl _).1, (hl _).2, .inr rfl⟩
      refine h.trans h0 (h.trans hleave (h.arrives ?_ ha))
      rw [Tasks.modify_other _ _ fun h1 => hne (hcur.trans (congrArg some h1.symm))]
      exact hready

theorem block_rel (h : SchedRule t.current R) (f : SyscallFrame) : R t (blockFromSyscall f t).2.2 :=
  blockWith_rel h (fun _ => ⟨rfl, rfl⟩) (fun _ => ⟨rfl, rfl, rfl, rfl⟩) f

theorem blockUntil_rel (h : SchedRule t.current R) (f : SyscallFrame) (deadline : Word) :
    R t (blockUntilFromSyscall f deadline t).2.2 := by
  refine blockWith_rel h ?_ ?_ f
  · exact fun _ => ⟨rfl, rfl⟩
  · exact fun _ => ⟨rfl, rfl, rfl, rfl⟩

end

def Going (t t' : Tasks) : Prop := Alive t → Held t t' ∧ (t.current.isSome → t'.current.isSome)

theorem Steady.going (hs : Steady t t') (ha : Alive t → Alive t') (hcur : t'.current = t.current)
    (hcr3 : t'.cr3 = t.cr3) : Going t t' :=
  fun h => ⟨⟨hs, Loaded.of_core hs.core hcur hcr3, ha h⟩, fun h0 => hcur ▸ h0⟩

theorem Going.rule (cur : Option Nat) : SchedRule cur Going where
  refl _ h := ⟨.refl h, id⟩
  trans h h' ha := ⟨(h ha).1.trans (h' (h ha).1.alive).1, fun h0 => (h' (h ha).1.alive).2 ((h ha).2 h0)⟩
  cursor _ _ := Steady.going ⟨fun _ => rfl, fun _ => Iff.rfl, rfl⟩ id rfl rfl
  refuse hj hr := Steady.going (.modify _ _ rfl ⟨nofun, fun h0 => absurd (hr.symm.trans h0) nofun⟩)
    (fun ha => ha.modify_other hj) rfl rfl
  leave {t i g} _ hc hg ha := by
    have hne : (g (t.procs i)).state ≠ .empty ∧ (g (t.procs i)).state ≠ .terminated := by
      rcases hg.waits with h0 | h0 <;> rw [h0] <;> exact ⟨nofun, nofun⟩
    refine Steady.going (.modify _ _ hg.core ⟨fun h0 => absurd h0 hne.1,
      fun h0 => absurd h0 (ha i hc).1⟩) ?_ rfl rfl ha
    intro _ j hj
    cases hc.symm.trans hj
    rwa [Tasks.modify_same]
  arrive {t j g} _ hg := by
    refine Steady.going (.modify _ _ hg.core (by rw [hg.state])) (fun ha i hi => ?_) rfl rfl
    rw [Tasks.modify_procs]
    split
    case isTrue h0 =>
      rw [hg.state]
      exact h0 ▸ ha i hi
    case isFalse => exact ha i hi
  enter {t j} hr _ := by
    refine ⟨⟨.enter t fun h0 => absurd (hr.symm.trans h0) nofun, fun _ => .enter t j, .enter t j⟩,
      fun _ => rfl⟩

theorem Going.quiet (h : Going t t') (ha : Alive t) (hr : RunsCurrent t → RunsCurrent t') :
    Quiet t t' :=
  ⟨⟨(h ha).1, hr⟩, (h ha).2⟩

theorem yield_quiet (h : Alive t) (f : SyscallFrame) : Quiet t (yieldFromSyscall f t).2.2 :=
  (yield_rel (Going.rule _) f).quiet h fun hr => (yield_outcome hr.scheduled f).scheduled.running

theorem block_quiet (h : Alive t) (f : SyscallFrame) : Quiet t (blockFromSyscall f t).2.2 :=
  (block_rel (Going.rule _) f).quiet h fun hr =>
    (blockWith_outcome hr.scheduled f (fun _ => rfl) fun _ => ⟨rfl, rfl, rfl, rfl⟩).scheduled.running

theorem blockUntil_quiet (h : Alive t) (f : SyscallFrame) (deadline : Word) :
    Quiet t (blockUntilFromSyscall f deadline t).2.2 :=
  (blockUntil_rel (Going.rule _) f deadline).quiet h fun hr => by
    refine (blockWith_outcome hr.scheduled f ?_ ?_).scheduled.running
    · exact fun _ => rfl
    · exact fun _ => ⟨rfl, rfl, rfl, rfl⟩

theorem wakeTimedTasks_calm (now : Word) (t : Tasks) : Calm t (wakeTimedTasks now t) := by
  refine ⟨fun i => ?_, fun i => ?_, rfl, rfl, rfl⟩
  · unfold wakeTimedTasks
    dsimp only
    split <;> rfl
  unfold wakeTimedTasks
  dsimp only
  split
  case isTrue h => exact .inr ⟨h.2.1, rfl⟩
  case isFalse => exact .inl rfl

theorem onTimer_quiet (h : Alive t) (now : Word) (f : InterruptFrame) :
    Quiet t (onTimer now f t).2.2 := by
  have hq := (wakeTimedTasks_calm now t).quiet h
  refine ⟨⟨hq.toHeld.trans (onTimer_rel (Going.rule _) now f hq.alive).1, fun hr => ?_⟩, fun h0 => ?_⟩
  · exact (onTimer_outcome hr.scheduled now f).scheduled.running
  · exact (onTimer_rel (Going.rule _) now f hq.alive).2 h0

theorem endCurrent_steady (h : Alive t) : Steady t (endCurrent t) := by
  unfold endCurrent
  split
  case h_1 i hi => exact .modify _ _ rfl ⟨nofun, fun h0 => absurd h0 (h i hi).1⟩
  case h_2 => exact .refl _

theorem nextAfterExit_steady (cur : Option Nat) (t : Tasks) :
    Steady t (nextAfterExit cur t).2 ∧ ∀ j, (nextAfterExit cur t).1 = some j →
      ((nextAfterExit cur t).2.procs j).state ≠ .empty := by
  unfold nextAfterExit
  split
  case h_1 next hn =>
    refine ⟨⟨fun _ => rfl, fun _ => Iff.rfl, rfl⟩, fun j hj => ?_⟩
    cases hj
    exact fun h0 => absurd ((pickNext_spec hn).2.symm.trans h0) nofun
  case h_2 =>
    split
    case h_1 i hi =>
      have hb := (earliestSleeper_spec hi).2.1
      refine ⟨.modify _ _ rfl ⟨nofun, fun h0 => absurd (hb.symm.trans h0) nofun⟩, fun j hj => ?_⟩
      cases hj
      rw [Tasks.modify_same]
      nofun
    case h_2 => exact ⟨.refl _, nofun⟩

theorem onExit_settled (h : Alive t) (f : SyscallFrame) : Settled t (onExit f t).2.2 := by
  have hruns : RunsCurrent t → RunsCurrent (onExit f t).2.2 :=
    fun hr => (onExit_outcome hr.scheduled f).scheduled.running
  have hend := endCurrent_steady h
  obtain ⟨hnext, hne⟩ := nextAfterExit_steady t.current (endCurrent t)
  have hs := hend.trans hnext
  have hrest : Steady t (onExit f t).2.2 ∧ Loaded (onExit f t).2.2 ∧ Alive (onExit f t).2.2 := by
    unfold onExit
    dsimp only
    split
    case h_1 => exact ⟨⟨hs.core, hs.empty, hs.nextPid⟩, Loaded.none rfl, Alive.none rfl⟩
    case h_2 next hn =>
      split
      case isTrue =>
        have hm := hs.trans
          (.modify _ next (g := Process.terminate) rfl ⟨nofun, fun h0 => absurd h0 (hne next hn)⟩)
        exact ⟨⟨hm.core, hm.empty, hm.nextPid⟩, Loaded.none rfl, Alive.none rfl⟩
      case isFalse =>
        have he := hs.trans (.enter _ (hne next hn))
        exact ⟨⟨he.core, he.empty, he.nextPid⟩, Loaded.enter _ _, Alive.enter _ _⟩
  exact ⟨⟨hrest.1, fun _ => hrest.2.1, hrest.2.2⟩, hruns⟩

theorem onExit_terminate (hc : t.current = some i) (f : SyscallFrame) :
    onExit f (t.modify i Process.terminate) = onExit f t := by
  have hend : endCurrent (t.modify i Process.terminate) = endCurrent t := by
    unfold endCurrent
    rw [Tasks.modify_current, hc]
    simp only [Tasks.modify, update_self, update_idem]
    rfl
  unfold onExit
  rw [hend, Tasks.modify_current]

end BlockOS.Kernel
