import BlockOS.Kernel.Calls

/-! The states of the processes when a system call returns to user mode. -/

namespace BlockOS.Kernel
open Words List
open Process (disown closeOnExec exec freed takeOffsets vacate block awaitChild)

def Consistent (t : Tasks) : Prop :=
  ∃ i, t.current = some i ∧ ∀ j, (t.procs j).state = .running ↔ j = i

def SyscallFrame.toUser (f : SyscallFrame) : Prop := f.cs &&& 3 = 3

instance (f : SyscallFrame) : Decidable f.toUser := inferInstanceAs (Decidable (_ = _))

variable {t : Tasks} {i : Nat}

theorem RunsCurrent.consistent (h : RunsCurrent t) (hc : t.current.isSome) : Consistent t := by
  obtain ⟨i, hi⟩ := Option.isSome_iff_exists.mp hc
  refine ⟨i, hi, fun j => ?_⟩
  rw [h j, hi, Option.some_inj]
  exact eq_comm

theorem RunsCurrent.modify (h : RunsCurrent t)
    (hg : (g (t.procs i)).state = .running ↔ (t.procs i).state = .running) :
    RunsCurrent (t.modify i g) := by
  intro j
  by_cases hj : j = i
  · subst hj
    rw [Tasks.modify_same, hg]
    exact h j
  · rw [Tasks.modify_other t g hj]
    exact h j

theorem freeSlot_spec (h : t.freeSlot = some i) : i < slotCount ∧ (t.procs i).state = .empty := by
  have hm := mem_of_find?_eq_some h
  have hs := find?_some (p := fun i => decide ((t.procs i).state = .empty)) h
  exact ⟨mem_range.mp hm, of_decide_eq_true hs⟩

theorem RunsCurrent.fill (h : RunsCurrent t) (hi : (t.procs i).state = .empty)
    (hp : p.state ≠ .running) : RunsCurrent (t.modify i fun _ => p) := by
  refine h.modify ⟨fun h0 => absurd h0 hp, fun h0 => ?_⟩
  rw [hi] at h0
  cases h0

section

variable {σ : Type} (env : Env σ) {self : Nat} {f : SyscallFrame} {k : System σ}

def Bounded (f : SyscallFrame) (r : Ret × System σ) : Prop :=
  (r.1.apply f).toUser → Consistent r.2.tasks

theorem Bounded.of_runs (h : RunsCurrent r.2.tasks) (hc : r.2.tasks.current.isSome) : Bounded f r :=
    fun _ => h.consistent hc

theorem destroyUnused_tasks (root : Word) (self : Nat) (k : System σ) :
    (destroyUnused env root self k).tasks = k.tasks := by
  unfold destroyUnused
  split <;> rfl

theorem freePending_tasks (self : Nat) (k : System σ) : (freePending env self k).tasks = k.tasks ∨
      (freePending env self k).tasks = k.tasks.modify self Process.clearPending := by
  unfold freePending
  dsimp only
  split
  · exact .inl rfl
  · right
    rw [System.modify, destroyUnused_tasks]

theorem freePending_runs (h : RunsCurrent k.tasks) : RunsCurrent (freePending env self k).tasks ∧
    (freePending env self k).tasks.current = k.tasks.current := by
  rcases freePending_tasks env self k with h0 | h0
  · rw [h0]
    exact ⟨h, rfl⟩
  · rw [h0]
    exact ⟨h.modify Iff.rfl, rfl⟩

theorem SetsIds.runs (hs : SetsIds self t t') (h : RunsCurrent t) : RunsCurrent t' ∧
    t'.current = t.current := by
  rcases hs with rfl | ⟨uid, euid, gid, egid, rfl, _⟩
  · exact ⟨h, rfl⟩
  · exact ⟨h.modify Iff.rfl, rfl⟩

theorem cloneInto_runs (h : RunsCurrent t) (hslot : (t.procs slot).state = .empty) :
    RunsCurrent (cloneInto self slot f t) := by
  have h1 := h.fill hslot (p := {}) nofun
  have h2 : RunsCurrent ((t.modify slot fun _ => {}).modify self disown) := h1.modify Iff.rfl
  refine h2.fill ?_ nofun
  rw [Tasks.modify_procs]
  split
  case isTrue h0 =>
    subst h0
    rw [Tasks.modify_same]
    rfl
  case isFalse => rw [Tasks.modify_same]

theorem doClone_runs (h : RunsCurrent k.tasks) : RunsCurrent (doClone env self f k).2.tasks ∧
    (doClone env self f k).2.tasks.current = k.tasks.current := by
  unfold doClone
  split
  · exact ⟨h, rfl⟩
  split
  · exact ⟨h, rfl⟩
  case h_2 slot hslot => exact ⟨cloneInto_runs h (freeSlot_spec hslot).2, rfl⟩

theorem forkLike_runs (h : RunsCurrent k.tasks) (frame : TrapFrame) (vfork : Bool) :
    RunsCurrent (forkLike env self frame vfork k).2.tasks ∧
      (forkLike env self frame vfork k).2.tasks.current = k.tasks.current := by
  unfold forkLike
  split
  · exact ⟨h, rfl⟩
  case h_2 slot hslot =>
    have hempty := (freeSlot_spec hslot).2
    have h' : RunsCurrent { k.tasks with nextPid := k.tasks.nextPid + 1 } := h
    dsimp only
    split
    · exact ⟨h'.fill hempty nofun, rfl⟩
    split
    · exact ⟨h'.fill hempty nofun, rfl⟩
    · exact ⟨h'.fill hempty nofun, rfl⟩

theorem doFork_runs (h : RunsCurrent k.tasks) : RunsCurrent (doFork env self f k).2.tasks ∧
    (doFork env self f k).2.tasks.current = k.tasks.current := by
  have hf : RunsCurrent (forkLike env self f.toTrap false k).2.tasks ∧
      (forkLike env self f.toTrap false k).2.tasks.current = k.tasks.current :=
    forkLike_runs env h f.toTrap false
  unfold doFork
  split
  case h_1 h0 => rwa [h0] at hf
  case h_2 h0 => rwa [h0] at hf

theorem doExecve_runs (h : RunsCurrent k.tasks) : RunsCurrent (doExecve env self f k).2.tasks ∧
    (doExecve env self f k).2.tasks.current = k.tasks.current := by
  unfold doExecve
  split
  · exact ⟨h, rfl⟩
  case h_2 image m _ =>
    have h1 : RunsCurrent (k.tasks.modify (k.tasks.fdOwner self) closeOnExec) := h.modify Iff.rfl
    have h2 : RunsCurrent ((k.tasks.modify (k.tasks.fdOwner self) closeOnExec).modify self
        (exec image)) := h1.modify Iff.rfl
    have hcalm := releaseVforkParent_calm self ((k.tasks.modify (k.tasks.fdOwner self)
        closeOnExec).modify self (exec image))
    exact ⟨hcalm.runs h2, hcalm.current⟩

theorem findTerminated_spec (h : findTerminated t self wanted = some x) :
    x < slotCount ∧ (t.procs x).state = .terminated ∧ (t.procs x).parentPid = (t.procs self).tid ∧
      (wanted = 0 ∨ (t.procs x).pid = wanted) := by
  have hm := mem_of_find?_eq_some h
  have hs := find?_some h
  simp only [isChild, Bool.and_eq_true, Bool.or_eq_true, decide_eq_true_eq] at hs
  exact ⟨mem_range.mp hm, hs.1.2, hs.1.1.2, hs.2⟩

theorem reap_tasks (self x : Nat) (f : SyscallFrame) (k : System σ) :
    ∃ g : Process → Process, (g = id ∨ g = freed) ∧
      (reap env self x f k).tasks = ((k.tasks.modify (k.tasks.fdOwner self)
        (takeOffsets (k.tasks.procs (k.tasks.fdOwner x)).fds)).modify x g).modify x
          vacate := by
  have hid : ∀ u : Tasks, u.modify x id = u := by
    intro u
    simp only [Tasks.modify, id_eq, Function.update_eq_self]
  unfold reap
  dsimp only
  split
  · refine ⟨freed, .inr rfl, ?_⟩
    split <;> simp only [System.modify, System.store, destroyUnused_tasks]
  refine ⟨id, .inl rfl, ?_⟩
  rw [hid]
  split <;> rfl

theorem reap_runs (h : RunsCurrent k.tasks) (hx : (k.tasks.procs x).state = .terminated) :
    RunsCurrent (reap env self x f k).tasks ∧ (reap env self x f k).tasks.current = k.tasks.current := by
  obtain ⟨g, hg, ht⟩ := reap_tasks env self x f k
  have hgs : ∀ p : Process, (g p).state = p.state := by
    rcases hg with rfl | rfl <;> exact fun _ => rfl
  rw [ht]
  generalize (k.tasks.procs (k.tasks.fdOwner x)).fds = fds
  have h1 : RunsCurrent (k.tasks.modify (k.tasks.fdOwner self) (takeOffsets fds)) :=
    h.modify Iff.rfl
  have hx1 : ((k.tasks.modify (k.tasks.fdOwner self) (takeOffsets fds)).procs x).state =
      .terminated := by
    rw [Tasks.modify_procs]
    split
    case isTrue h0 => exact h0 ▸ hx
    case isFalse => exact hx
  have h2 : RunsCurrent ((k.tasks.modify (k.tasks.fdOwner self) (takeOffsets fds)).modify x g) :=
    h1.modify (by rw [hgs])
  refine ⟨h2.modify ⟨nofun, fun h0 => ?_⟩, rfl⟩
  rw [Tasks.modify_same, hgs, hx1] at h0
  cases h0

theorem scanChildren_runs (h : RunsCurrent k.tasks) :
    RunsCurrent (scanChildren env self f k).2.tasks ∧
      (scanChildren env self f k).2.tasks.current = k.tasks.current := by
  unfold scanChildren
  split
  case h_1 x hx => exact reap_runs env h (findTerminated_spec hx).2.1
  case h_2 => exact ⟨h, rfl⟩

def canSwitch (t : Tasks) : Bool :=
  match pickNext t.current t with
  | none => false
  | some j => isolationOk (t.procs j)

theorem block_switches (hc : t.current = some i) (f : SyscallFrame) :
    (blockFromSyscall f t).1 = canSwitch t := by
  unfold canSwitch
  split
  case h_1 hn => rw [block_of_none hc hn]
  case h_2 j hn =>
    cases hok : isolationOk (t.procs j) with
    | false => rw [block_of_refused hc hn hok]
    | true => rw [block_of_ready hc hn hok]

theorem blocked_end_bounded_iff (h : RunsCurrent t) (hc : t.current = some self) (g : SyscallFrame)
    (hg : g.cs = f.cs) :
    Bounded f (k.switching (blockFromSyscall g (t.modify self block)) fun k => (.frame g, k)) ↔
      (f.toUser → canSwitch t = true) := by
  have hq := block_quiet h.alive g
  have hsome : (blockFromSyscall g t).2.2.current.isSome := hq.stays (by rw [hc]; rfl)
  rw [block_blocked hc, ← block_switches hc g]
  cases hb : (blockFromSyscall g t).1 with
  | true =>
    simp only [if_true, System.switching, hb, implies_true, iff_true]
    exact .of_runs (hq.runs h) hsome
  | false =>
    have hkept : (blockFromSyscall g t).2.2.current = some self := by
      have hk : (blockFromSyscall g t).2.2.current = t.current ∨
          (blockFromSyscall g t).2.2.current = none :=
        ((blockWith_outcome h.scheduled g (fun _ => rfl) fun _ => ⟨rfl, rfl, rfl, rfl⟩).kept hb).2
      rcases hk with h0 | h0
      · exact h0.trans hc
      · rw [h0] at hsome
        cases hsome
    simp only [Bool.false_eq_true, if_false, System.switching, Bounded, Ret.apply,
      SyscallFrame.toUser, hg, imp_false]
    refine ⟨fun h0 hu => ?_, fun h0 hu => absurd hu h0⟩
    obtain ⟨i, hi, hrun⟩ := h0 hu
    rw [Tasks.modify_current, hkept, Option.some_inj] at hi
    have hself := (hrun self).mpr hi
    rw [Tasks.modify_same] at hself
    cases hself

def staysBlocked (self : Nat) (f : SyscallFrame) (k : System σ) : Bool :=
  let k := freePending env self k
  match decode f.rax with
  | .vfork =>
    let r := forkLike env self f.toTrap true k
    r.1.isSome && !canSwitch r.2.tasks
  | .wait4 =>
    let r := scanChildren env self f k
    decide (r.1 = echild) && (List.range slotCount).any (isChild k.tasks self) &&
      decide (f.r10 &&& wnohang = 0) &&
      !canSwitch (r.2.tasks.modify self (awaitChild f))
  | _ => false

theorem doVfork_bounded_iff (h : RunsCurrent k.tasks) (hc : k.tasks.current = some self) :
    Bounded f (doVfork env self f k) ↔ (f.toUser → ((forkLike env self f.toTrap true k).1.isSome &&
        !canSwitch (forkLike env self f.toTrap true k).2.tasks) = false) := by
  obtain ⟨hr, hcur⟩ : RunsCurrent (forkLike env self f.toTrap true k).2.tasks ∧
      (forkLike env self f.toTrap true k).2.tasks.current = k.tasks.current :=
    forkLike_runs env h f.toTrap true
  unfold doVfork
  split
  case h_1 k' hf =>
    rw [hf] at hr hcur
    simp only [hf, Option.isSome_none, Bool.false_and, implies_true, iff_true]
    exact .of_runs hr (by rw [hcur, hc]; rfl)
  case h_2 child k' hf =>
    rw [hf] at hr hcur
    simp only [hf, Option.isSome_some, Bool.true_and, Bool.not_eq_false']
    exact blocked_end_bounded_iff hr (hcur.trans hc) _ rfl

theorem doWait4_bounded_iff (h : RunsCurrent k.tasks) (hc : k.tasks.current = some self) :
    Bounded f (doWait4 env self f k) ↔ (f.toUser → (decide ((scanChildren env self f k).1 = echild) &&
        (List.range slotCount).any (isChild k.tasks self) && decide (f.r10 &&& wnohang = 0) &&
        !canSwitch ((scanChildren env self f k).2.tasks.modify self (awaitChild f))) = false) := by
  obtain ⟨hr, hcur⟩ : RunsCurrent (scanChildren env self f k).2.tasks ∧
      (scanChildren env self f k).2.tasks.current = k.tasks.current := scanChildren_runs env h
  unfold doWait4
  generalize scanChildren env self f k = r at hr hcur ⊢
  generalize (List.range slotCount).any (isChild k.tasks self) = haveChild
  have hgood : ∀ v, Bounded f (Ret.value v, r.2) := fun v => .of_runs hr (by rw [hcur, hc]; rfl)
  have hend := blocked_end_bounded_iff (f := f)
    (k := (r.2.modify self (awaitChild f)).modify self block)
    (hr.modify (i := self) (g := awaitChild f) Iff.rfl) (hcur.trans hc) { f with rax := 0 } rfl
  by_cases hr1 : r.1 = echild
  · cases haveChild with
    | false => simpa [hr1] using hgood echild
    | true =>
      by_cases hn : f.r10 &&& wnohang = 0#64
      · simpa [hr1, hn, waitForChild] using hend
      · simpa [hr1, hn] using hgood 0
  · simpa [hr1] using hgood r.1

theorem doExit_bounded (h : RunsCurrent k.tasks) (hc : k.tasks.current = some self) :
    Bounded f (doExit env self f k) := by
  have hs := doExit_settled env (f := f) h.alive hc
  intro hu
  refine (hs.runs h).consistent ?_
  unfold doExit System.switching at hu ⊢
  dsimp only at hu ⊢
  split
  case isTrue hb =>
    obtain ⟨u, hu', hleave⟩ := leave_calm env self f k
    rw [hleave, onExit_terminate (hu'.current.trans hc)] at hb ⊢
    obtain ⟨j, _, hj, _⟩ := (onExit_outcome (hu'.runs h).scheduled f).resumed hb
    rw [hj]
    rfl
  case isFalse hb =>
    rw [if_neg hb] at hu
    have hcs : (0x08 : Word) &&& 3 = 3 := hu
    exact absurd hcs (by decide)

theorem handle_bounded_iff (h : RunsCurrent k.tasks) (hc : k.tasks.current = some self) :
    Bounded f (handle env self f (freePending env self k)) ↔
      (f.toUser → staysBlocked env self f k = false) := by
  obtain ⟨hr, hcur⟩ : RunsCurrent (freePending env self k).tasks ∧
      (freePending env self k).tasks.current = k.tasks.current := freePending_runs env h
  unfold staysBlocked
  generalize freePending env self k = k at hr hcur ⊢
  have hc' := hcur.trans hc
  have hkeep : ∀ {r : Ret × System σ}, RunsCurrent r.2.tasks ∧ r.2.tasks.current = k.tasks.current →
      (Bounded f r ↔ (f.toUser → false = false)) := by
    intro r hr'
    exact iff_of_true (.of_runs hr'.1 (by rw [hr'.2, hc']; rfl)) fun _ => rfl
  by_cases hp : (decode f.rax).plain = true
  · have hq : Quiet k.tasks (handle env self f k).2.tasks := handle_quiet env hr.alive hp
    refine iff_of_true (.of_runs (hq.runs hr) (hq.stays (by rw [hc']; rfl))) fun _ => ?_
    cases hd : decode f.rax <;> first | rfl | (rw [hd] at hp; cases hp)
  unfold handle
  cases hd : decode f.rax with
  | setuid => exact hkeep (doSetuid_ids.runs hr)
  | setgid => exact hkeep (doSetgid_ids.runs hr)
  | seteuid => exact hkeep (doSeteuid_ids.runs hr)
  | setegid => exact hkeep (doSetegid_ids.runs hr)
  | clone => exact hkeep (doClone_runs env hr)
  | execve => exact hkeep (doExecve_runs env hr)
  | fork => exact hkeep (doFork_runs env hr)
  | vfork => exact doVfork_bounded_iff env hr hc'
  | wait4 => exact doWait4_bounded_iff env hr hc'
  | exit | exitGroup => exact iff_of_true (doExit_bounded env hr hc') fun _ => rfl
  | _ =>
    rw [hd] at hp
    exact absurd rfl hp

def flatEnv : Env Unit :=
  { uptimeMs := fun _ => 0
    isUserRange := fun _ _ _ _ _ => true
    load := fun _ _ _ => 0
    store := fun m _ _ _ => m
    cloneForFork := fun m _ => (0x300000, m)
    destroyUserSpace := fun m _ => m
    execImage := fun k _ => (none, k.mem)
    execFile := fun _ _ => false
    rest := fun k _ =>
      { mem := k.mem, fds := [], brkCurrent := 0, brkMapped := 0, mmapNext := 0, cwd := [], rax := 0 }
    userReturn := 0xffff000
    savedRsp := fun _ => 0xffff800 }

theorem dispatch_consistent_iff (f : SyscallFrame) (k : System σ) (self : Nat)
    (h : RunsCurrent k.tasks) (hc : k.tasks.current = some self) :
    ((dispatch env f k).1.toUser → Consistent (dispatch env f k).2.tasks) ↔
      (f.toUser → staysBlocked env self f k = false) := by
  have hd : dispatch env f k = ((handle env self f (freePending env self k)).1.apply f,
      (handle env self f (freePending env self k)).2) := by
    unfold dispatch
    rw [hc]
  rw [hd]
  exact handle_bounded_iff env h hc

def parentAndSleeper : System Unit :=
  { tasks :=
      { procs := fun i =>
          if i = 0 then { pid := 1, tid := 1, pml4 := 0x100000, state := .running }
          else if i = 1 then
            { pid := 2, tid := 2, parentPid := 1, pml4 := 0x200000, state := .blocked
              wakeDeadlineMs := 5000 }
          else {}
        current := some 0
        nextPid := 3
        rrCursor := 0
        cr3 := 0x100000
        fsBase := 0 }
    socks := fun _ => {}
    futexes := fun _ => {}
    mem := () }

theorem parentAndSleeper_runs : RunsCurrent parentAndSleeper.tasks := by
  intro i
  by_cases h0 : i = 0
  · simp [parentAndSleeper, h0]
  by_cases h1 : i = 1
  · simp [parentAndSleeper, h1]
  · simp [parentAndSleeper, h0, h1, Ne.symm h0]

def waitAny : SyscallFrame := { rax := 43, rdi := -1, cs := 0x1b, ss := 0x23 }

theorem wait4_returns_blocked :
    RunsCurrent parentAndSleeper.tasks ∧ (dispatch flatEnv waitAny parentAndSleeper).1.toUser ∧
      ¬ Consistent (dispatch flatEnv waitAny parentAndSleeper).2.tasks := by
  have hstate : (dispatch flatEnv waitAny parentAndSleeper).2.tasks.current = some 0 ∧
      ((dispatch flatEnv waitAny parentAndSleeper).2.tasks.procs 0).state = .blocked := by
    decide +kernel
  refine ⟨parentAndSleeper_runs, by decide +kernel, ?_⟩
  rintro ⟨i, hi, hrun⟩
  have h0 : 0 = i := Option.some.inj (hstate.1.symm.trans hi)
  have := (hrun 0).mpr h0
  rw [hstate.2] at this
  cases this

theorem dispatch_consistent_iff_sample : ((dispatch flatEnv waitAny parentAndSleeper).1.toUser →
      Consistent (dispatch flatEnv waitAny parentAndSleeper).2.tasks) ↔
      (waitAny.toUser → staysBlocked flatEnv 0 waitAny parentAndSleeper = false) :=
  dispatch_consistent_iff flatEnv waitAny parentAndSleeper 0 parentAndSleeper_runs rfl

end

end BlockOS.Kernel
