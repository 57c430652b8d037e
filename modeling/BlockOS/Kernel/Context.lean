import BlockOS.Lib.Runs
import BlockOS.Kernel.Preempt

/-! What a process finds when it runs again. -/

namespace BlockOS.Kernel
open Words Runs Function
open Tasks (modify_same)

variable {last : Nat → TrapFrame} {t : Tasks} {i j : Nat} {f : TrapFrame}

def Process.waits (p : Process) : Prop := p.state = .ready ∨ p.state = .blocked

structure Scheduled (last : Nat → TrapFrame) (t : Tasks) : Prop where
  running : ∀ i, (t.procs i).state = .running ↔ t.current = some i
  saved : ∀ i, (t.procs i).waits → (t.procs i).savedFrame = last i

structure Idle (last : Nat → TrapFrame) (t : Tasks) : Prop where
  running : ∀ i, (t.procs i).state ≠ .running
  saved : ∀ i, (t.procs i).waits → (t.procs i).savedFrame = last i

def lastAfter (last : Nat → TrapFrame) (cur : Option Nat) (f : TrapFrame) : Nat → TrapFrame :=
  match cur with
  | some i => update last i f
  | none => last

structure Harmless (p p' : Process) : Prop where
  frame : p'.savedFrame = p.savedFrame
  waits : p'.waits → p.waits
  running : p'.state = .running → p.state = .running

theorem Idle.modify (h : Idle last t) (hg : Harmless (t.procs i) (g (t.procs i))) :
    Idle last (t.modify i g) := by
  constructor
  · intro k hk
    by_cases hki : k = i
    · subst hki
      rw [modify_same] at hk
      exact h.running k (hg.running hk)
    · rw [t.modify_other g hki] at hk
      exact h.running k hk
  · intro k hk
    by_cases hki : k = i
    · subst hki
      rw [modify_same] at hk ⊢
      exact hg.frame.trans (h.saved k (hg.waits hk))
    · rw [t.modify_other g hki] at hk ⊢
      exact h.saved k hk

theorem Scheduled.modify (h : Scheduled last t) (hi : t.current ≠ some i)
    (hg : Harmless (t.procs i) (g (t.procs i))) : Scheduled last (t.modify i g) := by
  have hr : (t.procs i).state ≠ .running := fun h0 => hi ((h.running i).mp h0)
  constructor
  · intro k
    by_cases hki : k = i
    · subst hki
      rw [modify_same]
      exact ⟨fun h0 => absurd (hg.running h0) hr, fun h0 => absurd h0 hi⟩
    · rw [t.modify_other g hki]
      exact h.running k
  · intro k hk
    by_cases hki : k = i
    · subst hki
      rw [modify_same] at hk ⊢
      exact hg.frame.trans (h.saved k (hg.waits hk))
    · rw [t.modify_other g hki] at hk ⊢
      exact h.saved k hk

theorem Scheduled.leave (h : Scheduled last t) (hc : t.current = some i)
    (hr : (g (t.procs i)).state ≠ .running)
    (hf : (g (t.procs i)).waits → (g (t.procs i)).savedFrame = f) :
    Idle (update last i f) (t.modify i g) := by
  constructor
  · intro k
    by_cases hki : k = i
    · subst hki
      rwa [modify_same]
    rw [t.modify_other g hki]
    intro h0
    have := (h.running k).mp h0
    rw [hc] at this
    exact hki (Option.some.inj this).symm
  · intro k hk
    by_cases hki : k = i
    · subst hki
      rw [modify_same] at hk ⊢
      rw [update_self]
      exact hf hk
    · rw [t.modify_other g hki] at hk ⊢
      rw [update_of_ne hki]
      exact h.saved k hk

theorem Scheduled.idle (h : Scheduled last t) (hc : t.current = none) : Idle last t :=
  ⟨fun i h0 => (absurd (((h.running i).mp h0).symm.trans hc) nofun), h.saved⟩

theorem Idle.enter (h : Idle last t) (j : Nat) : Scheduled last (t.enter j) := by
  constructor
  · intro k
    by_cases hk : k = j
    · subst hk
      rw [t.enter_same]
      exact ⟨fun _ => rfl, fun _ => rfl⟩
    · rw [t.enter_other hk]
      exact ⟨fun h0 => absurd h0 (h.running k), fun h0 => absurd (Option.some.inj h0).symm hk⟩
  · intro k hk
    by_cases hkj : k = j
    · subst hkj
      rw [t.enter_same] at hk
      cases hk <;> contradiction
    · rw [t.enter_other hkj] at hk ⊢
      exact h.saved k hk

structure Outcome (last : Nat → TrapFrame) (f : TrapFrame) (t : Tasks) (switched : Bool)
    (out : TrapFrame) (t' : Tasks) : Prop where
  resumed : switched = true → ∃ j, t.current ≠ some j ∧ t'.current = some j ∧ out = last j ∧
    t'.cr3 = (t.procs j).pml4 &&& addrMask ∧ t'.fsBase = (t.procs j).fsBase
  kept : switched = false → out = f ∧ (t'.current = t.current ∨ t'.current = none)
  scheduled : Scheduled (if t'.current = t.current then last else lastAfter last t.current f) t'

theorem pickNext_spec (h : pickNext skip t = some j) : skip ≠ some j ∧ (t.procs j).state = .ready := by
  have := List.find?_some (p := fun i => decide (some i ≠ skip) && decide ((t.procs i).state = .ready)) h
  simp only [Bool.and_eq_true, decide_eq_true_eq] at this
  exact ⟨fun h0 => this.1 h0.symm, this.2⟩

theorem Outcome.fail (h : Scheduled last t) : Outcome last f t false f t :=
  ⟨nofun, fun _ => ⟨rfl, .inl rfl⟩, by rw [if_pos rfl]; exact h⟩

theorem Outcome.refuse (h : Scheduled last t) (hj : t.current ≠ some j) :
    Outcome last f t false f ({ t with rrCursor := j }.modify j Process.terminate) := by
  refine ⟨nofun, fun _ => ⟨rfl, .inl rfl⟩, ?_⟩
  rw [if_pos (Tasks.modify_current ..)]
  have h' : Scheduled last { t with rrCursor := j } := ⟨h.running, h.saved⟩
  exact h'.modify hj ⟨rfl, fun h0 => by cases h0 <;> contradiction, nofun⟩

theorem Outcome.enter (hj : t.current ≠ some j) (hw : (t'.procs j).waits)
    (hout : out = (t'.procs j).savedFrame)
    (hlast : lastAfter last t.current f j = last j) (hidle : Idle (lastAfter last t.current f) t')
    (hp : (t'.procs j).pml4 = (t.procs j).pml4) (hfs : (t'.procs j).fsBase = (t.procs j).fsBase) :
    Outcome last f t true out (t'.enter j) := by
  refine ⟨fun _ => ⟨j, hj, rfl, ?_, congrArg (· &&& addrMask) hp, hfs⟩, nofun, ?_⟩
  · rw [hout, hidle.saved j hw, hlast]
  · rw [if_neg fun h0 => hj h0.symm]
    exact hidle.enter j

theorem lastAfter_of_ne (h : cur ≠ some j) : lastAfter last cur f j = last j := by
  cases cur with
  | none => rfl
  | some i => exact update_of_ne (fun h0 => h (congrArg some h0.symm)) ..

theorem Scheduled.saveOutgoing (h : Scheduled last t) (f : TrapFrame) :
    Idle (lastAfter last t.current f) (saveOutgoing t.current f t) := by
  cases hc : t.current with
  | none => exact h.idle hc
  | some i =>
    rw [Kernel.saveOutgoing, if_pos ((h.running i).mpr hc)]
    exact h.leave hc nofun fun _ => rfl

theorem saveOutgoing_of_ne (hj : t.current ≠ some j) : (saveOutgoing t.current f t).procs j =
    t.procs j := by
  cases hc : t.current with
  | none => rfl
  | some i =>
    rw [saveOutgoing]
    split
    · exact t.modify_other _ fun h0 => hj (by rw [hc, h0])
    · rfl

theorem switchAway_outcome (h : Scheduled last t) (f : TrapFrame) :
    Outcome last f t (switchAway f t).1.isSome ((switchAway f t).1.getD f) (switchAway f t).2 := by
  unfold switchAway
  split
  case h_1 => exact .fail h
  case h_2 next hn =>
    obtain ⟨hcur, hready⟩ := pickNext_spec hn
    dsimp only
    split
    case isTrue => exact .refuse h hcur
    case isFalse hok =>
      have h' : Scheduled last { t with rrCursor := next } := ⟨h.running, h.saved⟩
      rw [switchTo, if_neg hok]
      dsimp only
      have hproc := saveOutgoing_of_ne (t := { t with rrCursor := next }) (f := f) hcur
      have hidle := h'.saveOutgoing f
      generalize saveOutgoing t.current f { t with rrCursor := next } = u at hproc hidle ⊢
      have hidle' : Idle (lastAfter last t.current f) (u.modify next fun p =>
          { p with wakeDeadlineMs := 0 }) :=
        hidle.modify ⟨rfl, id, id⟩
      rw [if_neg (by rw [Tasks.enter_same]; exact fun h0 => h0 rfl)]
      refine Outcome.enter hcur ?_ rfl (lastAfter_of_ne hcur) hidle' ?_ ?_
      · rw [modify_same, hproc]
        exact .inl hready
      · rw [modify_same, hproc]
      · rw [modify_same, hproc]

theorem blockWith_outcome (h : Scheduled last t) (f : SyscallFrame)
    (hl : ∀ p, (leave p).savedFrame = p.savedFrame)
    (ha : ∀ p, (arrive p).savedFrame = p.savedFrame ∧ (arrive p).state = p.state ∧
      (arrive p).pml4 = p.pml4 ∧ (arrive p).fsBase = p.fsBase) :
    Outcome last f.toTrap t (blockWith leave arrive f t).1 (blockWith leave arrive f t).2.1.toTrap
      (blockWith leave arrive f t).2.2 := by
  unfold blockWith
  split
  case h_1 => exact .fail h
  case h_2 cur hc =>
    split
    case h_1 => exact .fail h
    case h_2 next hn =>
      obtain ⟨hcur, hready⟩ := pickNext_spec hn
      dsimp only
      split
      case isTrue => exact .refuse h hcur
      case isFalse hok =>
        have hne : next ≠ cur := fun h0 => hcur (by rw [hc, h0])
        have h' : Scheduled last { t with rrCursor := next } := ⟨h.running, h.saved⟩
        have hidle : Idle (lastAfter last t.current f.toTrap) ({ t with rrCursor := next }.modify cur
            fun p => (leave (p.save f.toTrap)).block) := by
          have hla : lastAfter last t.current f.toTrap = update last cur f.toTrap := by
            rw [hc]
            rfl
          rw [hla]
          exact h'.leave hc nofun fun _ => hl _
        have hproc : ({ t with rrCursor := next }.modify cur
            fun p => (leave (p.save f.toTrap)).block).procs next = t.procs next :=
          Tasks.modify_other _ _ hne
        generalize ({ t with rrCursor := next }.modify cur
            fun p => (leave (p.save f.toTrap)).block) = u at hidle hproc ⊢
        obtain ⟨ha1, ha2, ha3, ha4⟩ := ha (u.procs next)
        have hidle' : Idle (lastAfter last t.current f.toTrap) (u.modify next arrive) :=
          hidle.modify ⟨ha1, fun h0 => by rwa [Process.waits, ha2] at h0, fun h0 => by rwa [ha2] at h0⟩
        refine Outcome.enter hcur ?_ rfl (lastAfter_of_ne hcur) hidle' ?_ ?_
        · rw [modify_same, Process.waits, ha2, hproc]
          exact .inl hready
        · rw [modify_same, ha3, hproc]
        · rw [modify_same, ha4, hproc]

theorem earliestSleeper_spec (h : earliestSleeper cur t = some j) :
    cur ≠ some j ∧ (t.procs j).state = .blocked ∧ (t.procs j).wakeDeadlineMs ≠ 0 := by
  have hfold : ∀ (l : List Nat) (best : Option Nat),
      (∀ b, best = some b → cur ≠ some b ∧ (t.procs b).state = .blocked ∧
        (t.procs b).wakeDeadlineMs ≠ 0) → ∀ b, l.foldl (earlierSleeper cur t) best = some b →
        cur ≠ some b ∧ (t.procs b).state = .blocked ∧ (t.procs b).wakeDeadlineMs ≠ 0 := by
    intro l
    induction l with
    | nil => exact fun best hb => hb
    | cons i l ih =>
      intro best hb
      refine ih _ fun b hi => ?_
      unfold earlierSleeper at hi
      dsimp only at hi
      split at hi
      case isTrue => exact hb b hi
      case isFalse h0 =>
        have hi' : cur ≠ some i ∧ (t.procs i).state = .blocked ∧ (t.procs i).wakeDeadlineMs ≠ 0 :=
          ⟨fun h1 => h0 (.inl h1.symm), not_not.mp fun h1 => h0 (.inr (.inl h1)),
            fun h1 => h0 (.inr (.inr h1))⟩
        split at hi
        · cases hi
          exact hi'
        split at hi
        · cases hi
          exact hi'
        · exact hb b hi
  exact hfold _ none nofun j h

theorem nextAfterExit_spec {cur : Option Nat} (h : Idle last t) :
    Idle last (nextAfterExit cur t).2 ∧ ∀ j, (nextAfterExit cur t).1 = some j →
      cur ≠ some j ∧ ((nextAfterExit cur t).2.procs j).waits ∧
        ((nextAfterExit cur t).2.procs j).pml4 = (t.procs j).pml4 ∧
        ((nextAfterExit cur t).2.procs j).fsBase = (t.procs j).fsBase := by
  unfold nextAfterExit
  split
  case h_1 next hn =>
    obtain ⟨h1, h2⟩ := pickNext_spec hn
    refine ⟨⟨h.running, h.saved⟩, fun j hj => ?_⟩
    cases hj
    exact ⟨h1, .inl h2, rfl, rfl⟩
  case h_2 =>
    split
    case h_1 i hi =>
      obtain ⟨h1, h2, _⟩ := earliestSleeper_spec hi
      refine ⟨h.modify ⟨rfl, fun _ => .inr h2, nofun⟩, fun j hj => ?_⟩
      cases hj
      rw [modify_same]
      exact ⟨h1, .inl rfl, rfl, rfl⟩
    case h_2 => exact ⟨h, nofun⟩

theorem Scheduled.endCurrent (h : Scheduled last t) (f : TrapFrame) :
    Idle (lastAfter last t.current f) (endCurrent t) ∧
      ∀ j, t.current ≠ some j → (endCurrent t).procs j = t.procs j := by
  unfold Kernel.endCurrent
  cases hc : t.current with
  | none => exact ⟨h.idle hc, fun _ _ => rfl⟩
  | some i =>
    refine ⟨h.leave hc nofun fun h0 => by cases h0 <;> contradiction, fun j hj => ?_⟩
    exact t.modify_other _ fun h0 => hj (congrArg some h0.symm)

theorem onExit_outcome (h : Scheduled last t) (f : SyscallFrame) :
    Outcome last f.toTrap t (onExit f t).1 (onExit f t).2.1.toTrap (onExit f t).2.2 := by
  obtain ⟨hidle, hproc⟩ := h.endCurrent f.toTrap
  obtain ⟨hidle', hnext⟩ := @nextAfterExit_spec _ _ t.current hidle
  -- the current process is over, so its frame does not matter
  have hnone : ∀ u : Tasks, Idle (lastAfter last t.current f.toTrap) u →
      Outcome last f.toTrap t false f.toTrap { u with current := none } := by
    intro u hu
    refine ⟨nofun, fun _ => ⟨rfl, .inr rfl⟩, ?_⟩
    have hs : Scheduled (lastAfter last t.current f.toTrap) { u with current := none } :=
      ⟨fun i => ⟨fun h0 => absurd h0 (hu.running i), nofun⟩, hu.saved⟩
    split
    case isTrue h0 =>
      have hc : lastAfter last t.current f.toTrap = last := by
        rw [← show none = t.current from h0]
        rfl
      rwa [hc] at hs
    case isFalse => exact hs
  unfold onExit
  dsimp only
  split
  case h_1 => exact hnone _ hidle'
  case h_2 next hn =>
    obtain ⟨h1, h2, h3, h4⟩ := hnext next hn
    split
    case isTrue =>
      refine hnone _ (hidle'.modify ⟨rfl, fun h0 => by cases h0 <;> contradiction, nofun⟩)
    case isFalse =>
      refine Outcome.enter h1 h2 rfl (lastAfter_of_ne h1) hidle' ?_ ?_
      · rw [h3, hproc next h1]
      · rw [h4, hproc next h1]

inductive SchedCall where
  | timer (now : Word) (f : InterruptFrame)
  | yield (f : SyscallFrame)
  | block (f : SyscallFrame)
  | blockUntil (f : SyscallFrame) (deadline : Word)
  | exit (f : SyscallFrame)
  | wake (i : Nat)

def SchedCall.frame : SchedCall → TrapFrame
  | .timer _ f => f.toTrap
  | .yield f | .block f | .blockUntil f _ | .exit f => f.toTrap
  | .wake _ => {}

def SchedCall.result (t : Tasks) : SchedCall → Bool × TrapFrame × Tasks
  | .timer now f => ((onTimer now f t).1, (onTimer now f t).2.1.toTrap, (onTimer now f t).2.2)
  | .yield f => ((yieldFromSyscall f t).1, (yieldFromSyscall f t).2.1.toTrap, (yieldFromSyscall f t).2.2)
  | .block f => ((blockFromSyscall f t).1, (blockFromSyscall f t).2.1.toTrap, (blockFromSyscall f t).2.2)
  | .blockUntil f d => ((blockUntilFromSyscall f d t).1, (blockUntilFromSyscall f d t).2.1.toTrap,
      (blockUntilFromSyscall f d t).2.2)
  | .exit f => ((onExit f t).1, (onExit f t).2.1.toTrap, (onExit f t).2.2)
  | .wake i => (false, {}, if (t.procs i).state = .blocked then
      t.modify i fun p => { p with state := .ready } else t)

def schedStep (x : Tasks × (Nat → TrapFrame)) (a : SchedCall) : Tasks × (Nat → TrapFrame) :=
  let t' := (a.result x.1).2.2
  (t', if t'.current = x.1.current then x.2 else lastAfter x.2 x.1.current a.frame)

theorem wakeTimedTasks_scheduled (h : Scheduled last t) (now : Word) :
    Scheduled last (wakeTimedTasks now t) := by
  have hp : ∀ i, Harmless (t.procs i) ((wakeTimedTasks now t).procs i) := by
    intro i
    unfold wakeTimedTasks
    dsimp only
    split
    case isTrue h0 => exact ⟨rfl, fun _ => .inr h0.2.1, nofun⟩
    case isFalse => exact ⟨rfl, id, id⟩
  have hr : ∀ i, (t.procs i).state = .running → (wakeTimedTasks now t).procs i = t.procs i := by
    intro i h0
    refine if_neg fun h1 => ?_
    rw [h0] at h1
    cases h1.2.1
  constructor
  · intro i
    refine ⟨fun h0 => (h.running i).mp ((hp i).running h0), fun h0 => ?_⟩
    have h1 := (h.running i).mpr h0
    rw [hr i h1]
    exact h1
  · exact fun i hi => (hp i).frame.trans (h.saved i ((hp i).waits hi))

theorem wakeTimedTasks_field (now : Word) (t : Tasks) (i : Nat) :
    ((wakeTimedTasks now t).procs i).pml4 = (t.procs i).pml4 ∧
      ((wakeTimedTasks now t).procs i).fsBase = (t.procs i).fsBase := by
  unfold wakeTimedTasks
  dsimp only
  split <;> exact ⟨rfl, rfl⟩

theorem onTimer_outcome (h : Scheduled last t) (now : Word) (f : InterruptFrame) :
    Outcome last f.toTrap t (onTimer now f t).1 (onTimer now f t).2.1.toTrap (onTimer now f t).2.2 := by
  have h1 := wakeTimedTasks_scheduled h now
  -- the wake-ups change neither the current process nor an address space
  have hback : ∀ {b out t'}, Outcome last f.toTrap (wakeTimedTasks now t) b out t' →
      Outcome last f.toTrap t b out t' := by
    intro b out t' ho
    refine ⟨fun hb => ?_, ho.kept, ho.scheduled⟩
    obtain ⟨j, h2, h3, h4, h5, h6⟩ := ho.resumed hb
    obtain ⟨h7, h8⟩ := wakeTimedTasks_field now t j
    exact ⟨j, h2, h3, h4, by rw [h5, h7], by rw [h6, h8]⟩
  unfold onTimer
  dsimp only
  split
  case isTrue => exact hback (.fail h1)
  case isFalse =>
    have ho := switchAway_outcome h1 f.toTrap
    apply hback
    split
    case h_1 h0 =>
      rw [h0] at ho
      exact ho
    case h_2 out h0 =>
      rw [h0] at ho
      exact ho

theorem yield_outcome (h : Scheduled last t) (f : SyscallFrame) :
    Outcome last f.toTrap t (yieldFromSyscall f t).1 (yieldFromSyscall f t).2.1.toTrap
      (yieldFromSyscall f t).2.2 := by
  have ho := switchAway_outcome h f.toTrap
  unfold yieldFromSyscall
  dsimp only
  split
  case h_1 h0 =>
    rw [h0] at ho
    exact ho
  case h_2 out h0 =>
    rw [h0] at ho
    exact ho

theorem SchedCall.outcome (h : Scheduled last t) (a : SchedCall) :
    Outcome last a.frame t (a.result t).1 (a.result t).2.1 (a.result t).2.2 := by
  cases a with
  | timer now f => exact onTimer_outcome h now f
  | yield f => exact yield_outcome h f
  | block f => exact blockWith_outcome h f (fun _ => rfl) fun _ => ⟨rfl, rfl, rfl, rfl⟩
  | blockUntil f d => exact blockWith_outcome h f (fun _ => rfl) fun _ => ⟨rfl, rfl, rfl, rfl⟩
  | exit f => exact onExit_outcome h f
  | wake i =>
    unfold SchedCall.result
    dsimp only
    split
    case isTrue h0 =>
      refine ⟨nofun, fun _ => ⟨rfl, .inl rfl⟩, ?_⟩
      rw [if_pos (Tasks.modify_current ..)]
      refine h.modify (fun h1 => ?_) ⟨rfl, fun _ => .inr h0, nofun⟩
      rw [(h.running i).mpr h1] at h0
      cases h0
    case isFalse => exact .fail h

def ResumesLast (x : Tasks × (Nat → TrapFrame)) (a : SchedCall) : Prop :=
  ((a.result x.1).1 = true → ∃ j, x.1.current ≠ some j ∧ (a.result x.1).2.2.current = some j ∧
    (a.result x.1).2.1 = x.2 j ∧ (a.result x.1).2.2.cr3 = (x.1.procs j).pml4 &&& addrMask ∧
    (a.result x.1).2.2.fsBase = (x.1.procs j).fsBase) ∧
  ((a.result x.1).1 = false → (a.result x.1).2.1 = a.frame ∧
    ((a.result x.1).2.2.current = x.1.current ∨ (a.result x.1).2.2.current = none))

theorem resumed_with_last_frame (t : Tasks)
    (h : ∀ i, (t.procs i).state = .running ↔ t.current = some i) (calls : List SchedCall) :
    Along schedStep ResumesLast (t, fun i => (t.procs i).savedFrame) calls := by
  refine Along.of_invariant (I := fun x => Scheduled x.2 x.1) ?_ ?_ calls ⟨h, fun _ _ => rfl⟩
  · exact fun x a hx => (a.outcome hx).scheduled
  · exact fun x a hx => ⟨(a.outcome hx).resumed, (a.outcome hx).kept⟩

def twoTasks : Tasks :=
  { procs := fun i =>
      if i = 0 then { pid := 1, pml4 := 0x100000, state := .running }
      else if i = 1 then
        { pid := 2, pml4 := 0x200000, state := .ready, fsBase := 0x7000, frameValid := true
          savedFrame := { rip := 0x400000, rsp := 0x7fff0000, cs := 0x1b, ss := 0x23 } }
      else {}
    current := some 0
    nextPid := 3
    rrCursor := 0
    cr3 := 0x100000
    fsBase := 0 }

theorem resumed_with_last_frame_sample :
    Along schedStep ResumesLast (twoTasks, fun i => (twoTasks.procs i).savedFrame)
      [.yield { rax := 24, rip := 0x400100, rsp := 0x7ffe0000, cs := 0x1b, ss := 0x23 },
        .exit { rax := 60, rip := 0x400002, rsp := 0x7fff0000, cs := 0x1b, ss := 0x23 }] :=
  resumed_with_last_frame twoTasks (fun i => by
      by_cases h0 : i = 0
      · simp [twoTasks, h0]
      by_cases h1 : i = 1
      · simp [twoTasks, h1]
      · simp [twoTasks, h0, h1, Ne.symm h0]) _

end BlockOS.Kernel
