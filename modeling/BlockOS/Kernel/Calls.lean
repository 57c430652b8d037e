import BlockOS.Kernel.SchedulerCalls

/-! All system calls but those that create or remove a process, replace its address space or change
its credentials are quiet (`handle_quiet`). -/

namespace BlockOS.Kernel
open Words Function
open Process (awake terminate exitWith block)

section

variable {σ : Type} (env : Env σ) {self : Nat} {f : SyscallFrame} {k : System σ}

theorem switching_quiet (hr : Quiet t r.2.2)
    (hf : ∀ k : System σ, k.tasks = r.2.2 → Quiet t (fail k).2.tasks) :
    Quiet t (k.switching r fail).2.tasks := by
  unfold System.switching
  dsimp only
  split
  · exact hr
  · exact hf _ rfl

theorem waitOnSocket_quiet (h : Alive k.tasks) (mark : BitVec 32) (number : Word) :
    Quiet k.tasks (waitOnSocket self mark number f k).2.tasks := by
  have hmark : ∀ (m : BitVec 32) (t : Tasks), Calm t (t.modify self (Process.markSock m)) :=
    fun m t => .modify t self rfl (.inl rfl)
  have h1 := (hmark mark k.tasks).quiet h
  unfold waitOnSocket
  refine switching_quiet (h1.trans (block_quiet h1.alive _)) fun k' hk' => ?_
  have h2 : Quiet k.tasks k'.tasks := hk' ▸ h1.trans (block_quiet h1.alive _)
  have h3 := h2.trans ((hmark 0 k'.tasks).quiet h2.alive)
  exact switching_quiet (h3.trans (yield_quiet h3.alive _)) fun k'' hk'' =>
    hk'' ▸ h3.trans (yield_quiet h3.alive _)

theorem doWrite_quiet (h : Alive k.tasks) : Quiet k.tasks (doWrite env self f k).2.tasks := by
  fun_cases doWrite env self f k
  all_goals first
    | exact .refl h
    | exact runRest_rel env Quiet.minorRule _ _ _ h
    | exact waitOnSocket_quiet h _ _
    | exact writeSome_rel Quiet.closeRule.byte _ _ _ h

theorem doRead_quiet (h : Alive k.tasks) : Quiet k.tasks (doRead env self f k).2.tasks := by
  fun_cases doRead env self f k
  all_goals first
    | exact .refl h
    | exact runRest_rel env Quiet.minorRule _ _ _ h
    | exact waitOnSocket_quiet h _ _
    | exact readInto_rel env Quiet.closeRule.byte _ _ _ _ h

theorem doNanosleep_quiet (h : Alive k.tasks) : Quiet k.tasks (doNanosleep env f k).2.tasks := by
  fun_cases doNanosleep env f k
  all_goals first
    | exact .refl h
    | exact switching_quiet (blockUntil_quiet h _ _) fun k' hk' => hk' ▸ blockUntil_quiet h _ _

theorem doSchedYield_quiet (h : Alive k.tasks) : Quiet k.tasks (doSchedYield f k).2.tasks :=
  switching_quiet (yield_quiet h _) fun _ hk' => hk' ▸ yield_quiet h _

theorem awake_calm (t : Tasks) (i : Nat) : Calm t (t.modify i awake) := by
  have hcore : (t.procs i).awake.core = (t.procs i).core := by
    unfold awake
    split <;> rfl
  refine .modify t i hcore ?_
  unfold awake
  split
  case isTrue h => exact .inr ⟨h, rfl⟩
  case isFalse => exact .inl rfl

theorem wakePid_calm (t : Tasks) (pid : Word) : Calm t (t.wakePid pid) := by
  unfold Tasks.wakePid
  split
  · exact awake_calm ..
  · exact .refl _

theorem wakeFutexFrom_calm (addr : Word) (count fuel j woken : Nat) (k : System σ) :
    Calm k.tasks (wakeFutexFrom addr count fuel j woken k).tasks := by
  fun_induction wakeFutexFrom addr count fuel j woken k with
  | case1 => exact .refl _
  | case2 _ _ _ _ _ _ ih | case3 _ _ _ _ _ _ _ _ ih | case6 _ _ _ _ _ _ _ _ _ _ ih => exact ih
  | case4 => exact awake_calm ..
  | case5 _ _ _ _ _ _ _ _ _ _ _ _ ih => exact (awake_calm ..).trans ih

theorem doFutex_quiet (h : Alive k.tasks) : Quiet k.tasks (doFutex env self f k).2.tasks := by
  fun_cases doFutex env self f k
  all_goals first
    | exact .refl h
    | exact (wakeFutexFrom_calm ..).quiet h
    | exact switching_quiet (block_quiet h _) fun k' hk' => hk' ▸ block_quiet h _

theorem releaseVforkParent_calm (self : Nat) (t : Tasks) : Calm t (releaseVforkParent self t) := by
  unfold releaseVforkParent
  split
  · exact (wakePid_calm t _).trans (.modify _ _ rfl (.inl rfl))
  · exact .refl _

theorem notifyParent_calm (self : Nat) (k : System σ) :
    Calm k.tasks (notifyParent env self k).tasks := by
  unfold notifyParent
  dsimp only
  split
  · exact .refl _
  split
  case isTrue h => exact .modify k.tasks _ (g := Process.handOver _) rfl (.inr ⟨h.1, rfl⟩)
  case isFalse => exact .refl _

theorem clearTidWord_calm (self : Nat) (k : System σ) :
    Calm k.tasks (clearTidWord env self k).tasks := by
  unfold clearTidWord
  dsimp only
  split
  · exact wakeFutexFrom_calm _ _ _ _ _ (k.store env _ _)
  · exact .refl _

theorem leave_calm (self : Nat) (f : SyscallFrame) (k : System σ) :
    ∃ u : Tasks, Calm k.tasks u ∧ (leave env self f k).tasks = u.modify self terminate := by
  unfold leave
  refine ⟨_, ?_, rfl⟩
  have h1 := releaseProcessFds_rel Calm.closeRule self k
  generalize releaseProcessFds self k = k1 at h1
  have h2 := h1.trans (releaseVforkParent_calm self k1.tasks)
  have h3 := h2.trans (.modify _ self (g := exitWith f.rdi) rfl (.inl rfl))
  have h4 := h3.trans (notifyParent_calm env self
    (System.modify { k1 with tasks := releaseVforkParent self k1.tasks } self (exitWith f.rdi)))
  exact h4.trans (clearTidWord_calm env self _)

theorem doExit_settled (h : Alive k.tasks) (hc : k.tasks.current = some self) :
    Settled k.tasks (doExit env self f k).2.tasks := by
  obtain ⟨u, hu, hleave⟩ := leave_calm env self f k
  have hq := hu.quiet h
  have hexit : (onExit f (leave env self f k).tasks).2.2 = (onExit f u).2.2 := by
    rw [hleave, onExit_terminate (hu.current.trans hc)]
  have hr : Settled k.tasks (onExit f (leave env self f k).tasks).2.2 := by
    rw [hexit]
    exact hq.toSettled.trans (onExit_settled hq.alive f)
  unfold doExit System.switching
  dsimp only
  split <;> exact hr

def SetsIds (self : Nat) (t t' : Tasks) : Prop :=
  t' = t ∨ ∃ uid euid gid egid, t' = t.modify self (Process.withIds uid euid gid egid) ∧
    ((t.procs self).uid ≠ 0 → (t.procs self).euid ≠ 0 → uid ≠ 0 ∧ euid ≠ 0)

theorem doSetuid_ids : SetsIds self k.tasks (doSetuid self f k).2.tasks := by
  unfold doSetuid
  dsimp only
  split
  case isTrue h0 => exact .inr ⟨_, _, _, _, rfl, fun _ he => absurd h0 he⟩
  case isFalse =>
    split
    case isTrue h1 => exact .inr ⟨_, _, _, _, rfl, fun hu _ => ⟨hu, h1 ▸ hu⟩⟩
    case isFalse => exact .inl rfl

theorem doSeteuid_ids : SetsIds self k.tasks (doSeteuid self f k).2.tasks := by
  unfold doSeteuid
  dsimp only
  split
  case isTrue h0 =>
    refine .inr ⟨_, _, _, _, rfl, fun hu he => ⟨hu, ?_⟩⟩
    rcases h0 with h0 | h0 | h0
    · exact absurd h0 he
    · exact h0 ▸ hu
    · exact h0 ▸ he
  case isFalse => exact .inl rfl

theorem doSetgid_ids : SetsIds self k.tasks (doSetgid self f k).2.tasks := by
  unfold doSetgid
  dsimp only
  split
  · exact .inr ⟨_, _, _, _, rfl, fun hu he => ⟨hu, he⟩⟩
  split
  · exact .inr ⟨_, _, _, _, rfl, fun hu he => ⟨hu, he⟩⟩
  · exact .inl rfl

theorem doSetegid_ids : SetsIds self k.tasks (doSetegid self f k).2.tasks := by
  unfold doSetegid
  dsimp only
  split
  · exact .inr ⟨_, _, _, _, rfl, fun hu he => ⟨hu, he⟩⟩
  · exact .inl rfl

def Sys.plain : Sys → Bool
  | .setuid | .setgid | .seteuid | .setegid | .clone | .wait4 | .exit | .exitGroup | .execve
  | .fork | .vfork => false
  | _ => true

theorem handle_quiet (h : Alive k.tasks) (hp : (decode f.rax).plain = true) :
    Quiet k.tasks (handle env self f k).2.tasks := by
  by_cases hl : (decode f.rax).isLocal = true
  · exact handle_local_rel env Quiet.closeRule Quiet.minorRule hl h
  unfold handle
  cases hd : decode f.rax with
  | read => exact doRead_quiet env h
  | write => exact doWrite_quiet env h
  | connect =>
    dsimp only
    rw [doConnect_tasks]
    exact .refl h
  | futex => exact doFutex_quiet env h
  | schedYield => exact doSchedYield_quiet h
  | nanosleep => exact doNanosleep_quiet env h
  | _ => simp [hd, Sys.isLocal, Sys.plain] at hl hp

end

theorem pickNext_block (hc : t.current = some i) :
    pickNext t.current (t.modify i block) = pickNext t.current t := by
  unfold pickNext
  congr 1
  funext j
  by_cases hj : j = i
  · subst hj
    simp [hc]
  · rw [Tasks.modify_other t _ hj]

section

variable {f : SyscallFrame} {next : Nat}

theorem block_of_none (hc : t.current = some i) (hn : pickNext t.current t = none) :
    blockFromSyscall f t = (false, f, t) := by
  simp only [blockFromSyscall, blockWith, hc]
  rw [← hc, hn]

theorem block_of_refused (hc : t.current = some i) (hn : pickNext t.current t = some next)
    (hok : isolationOk (t.procs next) = false) :
    blockFromSyscall f t = (false, f, { t with rrCursor := next }.modify next terminate) := by
  simp only [blockFromSyscall, blockWith, hc]
  rw [← hc, hn]
  simp only [hok, Bool.not_false, if_true, hc]

theorem block_of_ready (hc : t.current = some i) (hn : pickNext t.current t = some next)
    (hok : isolationOk (t.procs next) = true) :
    blockFromSyscall f t = (true, .fromTrap (t.procs next).savedFrame,
      ({ t with rrCursor := next }.modify i fun p => (p.save f.toTrap).block).enter next) := by
  have hne : next ≠ i := fun h0 => (pickNext_spec hn).1 (h0 ▸ hc)
  have hid : ∀ u : Tasks, u.modify next id = u := by
    intro u
    simp only [Tasks.modify, id_eq, update_eq_self]
  simp only [blockFromSyscall, blockWith, hc]
  rw [← hc, hn]
  simp only [hok, Bool.not_true, Bool.false_eq_true, if_false, hid, id_eq]
  rw [Tasks.modify_other _ _ hne]

theorem block_blocked (hc : t.current = some i) (f : SyscallFrame) :
    blockFromSyscall f (t.modify i block) = if (blockFromSyscall f t).1 then blockFromSyscall f t
      else (false, f, (blockFromSyscall f t).2.2.modify i block) := by
  have hpick := pickNext_block hc
  cases hn : pickNext t.current t with
  | none =>
    rw [block_of_none hc hn, block_of_none (t := t.modify i block) hc (hpick.trans hn)]
    rfl
  | some next =>
    have hne : next ≠ i := fun h0 => (pickNext_spec hn).1 (h0 ▸ hc)
    have hproc : (t.modify i block).procs next = t.procs next := t.modify_other _ hne
    cases hok : isolationOk (t.procs next) with
    | false =>
      rw [block_of_refused hc hn hok,
        block_of_refused (t := t.modify i block) hc (hpick.trans hn) (hproc ▸ hok)]
      simp only [Tasks.modify, update_of_ne hne, update_of_ne hne.symm, Bool.false_eq_true, if_false]
      rw [update_comm hne]
    | true =>
      rw [block_of_ready hc hn hok,
        block_of_ready (t := t.modify i block) hc (hpick.trans hn) (hproc ▸ hok), hproc]
      simp only [Tasks.modify, update_self, update_idem, if_true]
      rfl

end

end BlockOS.Kernel
