import BlockOS.Kernel.CallParts
import BlockOS.Kernel.Step

/-! The steps that leave the references to sockets alone. -/

namespace BlockOS.Kernel
open Words Function

def Process.refs (p : Process) (fd : Nat) : Int → Bool := (p.fds fd).refers

def SameRefs (t t' : Tasks) : Prop := ∀ i, (t'.procs i).refs = (t.procs i).refs

theorem SameRefs.refl (t : Tasks) : SameRefs t t := fun _ => rfl

theorem SameRefs.trans (h : SameRefs t t') (h' : SameRefs t' t'') : SameRefs t t'' :=
  fun i => (h' i).trans (h i)

theorem SameRefs.modify_at (hg : (g (t.procs i)).refs = (t.procs i).refs) :
    SameRefs t (t.modify i g) := by
  intro j
  rw [Tasks.modify_procs]
  split
  case isTrue h => rw [hg, h]
  case isFalse => rfl

theorem SameRefs.modify (t : Tasks) (i : Nat) (hg : ∀ p, (g p).refs = p.refs) :
    SameRefs t (t.modify i g) := .modify_at (hg _)

theorem enter_refs (t : Tasks) (i : Nat) : SameRefs t (t.enter i) :=
  SameRefs.modify t i (g := Process.run) fun _ => rfl

theorem SameRefs.rule (cur : Option Nat) : SchedRule cur SameRefs where
  refl := .refl
  trans h h' := h.trans h'
  cursor t _ := .refl t
  refuse {t j} _ _ := SameRefs.modify t j (g := Process.terminate) fun _ => rfl
  leave _ _ hg := .modify_at (by unfold Process.refs; rw [hg.fds])
  arrive _ hg := .modify_at (by unfold Process.refs; rw [hg.fds])
  enter {t j} _ := enter_refs t j

open SameRefs (rule)

theorem onTimer_refs (now : Word) (f : InterruptFrame) (t : Tasks) :
    SameRefs t (onTimer now f t).2.2 := by
  refine .trans (fun i => ?_) (onTimer_rel (rule _) now f)
  unfold wakeTimedTasks
  dsimp only
  split <;> rfl

theorem onExit_refs (f : SyscallFrame) (t : Tasks) : SameRefs t (onExit f t).2.2 := by
  have hend : SameRefs t (endCurrent t) := by
    unfold endCurrent
    split
    · refine .modify _ _ ?_
      exact fun _ => rfl
    · exact .refl t
  have hnext : SameRefs (endCurrent t) (nextAfterExit t.current (endCurrent t)).2 := by
    unfold nextAfterExit
    split
    · exact .refl _
    split
    · refine .modify _ _ ?_
      exact fun _ => rfl
    · exact .refl _
  have h := hend.trans hnext
  unfold onExit
  dsimp only
  split
  · exact h
  split
  · exact h.trans (SameRefs.modify _ _ (g := Process.terminate) fun _ => rfl)
  · exact h.trans (enter_refs _ _)

theorem start_refs (i : Nat) (t : Tasks) : SameRefs t (start i t) := by
  unfold start
  split
  · exact enter_refs t i
  · exact .refl t

theorem wakeSocket_refs (mark : BitVec 32) (t : Tasks) : SameRefs t (wakeSocket mark t) := by
  intro i
  unfold wakeSocket Process.awakeFor
  dsimp only
  split
  · split <;> rfl
  · rfl

theorem wakeSocketReaders_refs (idx : Int) (t : Tasks) : SameRefs t (wakeSocketReaders idx t) := by
  unfold wakeSocketReaders
  split
  · exact .refl t
  · exact wakeSocket_refs _ t

theorem awake_refs (t : Tasks) (i : Nat) : SameRefs t (t.modify i Process.awake) := by
  refine .modify _ _ fun p => ?_
  unfold Process.awake
  split <;> rfl

theorem releaseVforkParent_refs (self : Nat) (t : Tasks) : SameRefs t (releaseVforkParent self t) := by
  have hw : SameRefs t (t.wakePid (t.procs self).vforkParentPid) := by
    unfold Tasks.wakePid
    split
    · exact awake_refs t _
    · exact .refl t
  unfold releaseVforkParent
  split
  · refine hw.trans (.modify _ _ ?_)
    exact fun _ => rfl
  · exact .refl t

structure SockKey where
  used : Bool := false
  listener : Bool := false
  pending : List Int := []

def UnixSocket.key (u : UnixSocket) : SockKey :=
  { used := u.used, listener := u.listener, pending := u.pending }

def keysOf (socks : Nat → UnixSocket) (i : Nat) : SockKey := (socks i).key

theorem keysOf_set (socks : Nat → UnixSocket) (j : Int) (u : UnixSocket) :
    keysOf (setSock socks j u) = update (keysOf socks) j.toNat u.key := by
  funext i
  unfold keysOf setSock
  rw [update_apply, update_apply]
  split <;> rfl

theorem keysOf_edit (socks : Nat → UnixSocket) (j : Int)
    (hu : u.key = (sockAt socks j).key) : keysOf (setSock socks j u) = keysOf socks := by
  rw [keysOf_set, hu]
  exact update_eq_self ..

section

variable {σ : Type}

structure Still (k k' : System σ) : Prop where
  refs : SameRefs k.tasks k'.tasks
  keys : keysOf k'.socks = keysOf k.socks

variable (env : Env σ)

theorem Still.refl (k : System σ) : Still k k := ⟨.refl _, rfl⟩

theorem Still.trans (h : Still k k') (h' : Still k' k'') : Still k k'' :=
  ⟨h.refs.trans h'.refs, h'.keys.trans h.keys⟩

theorem Still.of_refs (h : SameRefs k.tasks k'.tasks) (hs : k'.socks = k.socks) : Still k k' :=
  ⟨h, congrArg keysOf hs⟩

theorem Still.of_eq (ht : k'.tasks = k.tasks) (hs : k'.socks = k.socks) : Still k k' :=
  .of_refs (ht ▸ .refl _) hs

theorem modify_still (k : System σ) (i : Nat) (hg : ∀ p, (g p).refs = p.refs) :
    Still k (k.modify i g) := .of_refs (.modify _ _ hg) rfl

theorem switching_still (hr : SameRefs k.tasks r.2.2) (hf : ∀ k' : System σ, Still k' (fail k').2) :
    Still k (k.switching r fail).2 := by
  have h : Still k { k with tasks := r.2.2 } := .of_refs hr rfl
  unfold System.switching
  dsimp only
  split
  · exact h
  · exact h.trans (hf _)

theorem waitOnSocket_still (self : Nat) (mark : BitVec 32) (number : Word) (f : SyscallFrame)
    (k : System σ) : Still k (waitOnSocket self mark number f k).2 := by
  unfold waitOnSocket
  refine (modify_still k self (g := Process.markSock mark) fun _ => rfl).trans
    (switching_still (block_rel (rule _) _) fun k' => ?_)
  exact (modify_still k' self (g := Process.markSock 0) fun _ => rfl).trans
    (switching_still (yield_rel (rule _) _) fun k'' => .refl k'')

theorem Still.byteRule : ByteRule (@Still σ) where
  refl := .refl
  trans h h' := h.trans h'
  mem _ _ := .of_eq rfl rfl
  bytes _ _ _ := ⟨.refl _, keysOf_edit _ _ rfl⟩
  wake _ mark := .of_refs (wakeSocket_refs mark _) rfl

theorem FdEdit.refs (e : FdEdit) (fds : Nat → RuntimeFd) (fd : Nat) :
    (e.apply fds fd).refers = (fds fd).refers := by
  cases e with
  | opened n kind flags object data size off path =>
    simp only [apply]
    split
    case isTrue h =>
      rw [update_apply]
      split
      case isTrue h0 =>
        subst h0
        have hk : kind.toKind ≠ .unixSocket := by cases kind <;> nofun
        funext si
        simp [RuntimeFd.refers, h.2, hk]
      case isFalse => rfl
    case isFalse => rfl
  | moved n data size off =>
    simp only [apply]
    split
    · rw [update_apply]
      split
      case isTrue h0 => exact h0 ▸ rfl
      case isFalse => rfl
    · rfl

theorem Process.editFds_refs (edits : List FdEdit) (p : Process) :
    (p.editFds edits).refs = p.refs := by
  funext fd
  unfold Process.refs Process.editFds
  dsimp only
  induction edits generalizing p with
  | nil => rfl
  | cons e edits ih => exact (ih { p with fds := e.apply p.fds }).trans (e.refs p.fds fd)

theorem Still.minorRule : MinorRule (@Still σ) :=
  { Still.byteRule.toRule with
    minor := fun k i _ hg => modify_still k i fun p => by unfold Process.refs; rw [(hg p).fds]
    files := fun k i edits => modify_still k i (Process.editFds_refs edits)
    fsBase := fun _ _ => .of_refs (.refl _) rfl }

open Still (byteRule minorRule)

theorem doWrite_still : Still k (doWrite env self f k).2 := by
  fun_cases doWrite env self f k
  all_goals first
    | exact .refl k
    | exact runRest_rel env minorRule ..
    | exact waitOnSocket_still ..
    | exact writeSome_rel byteRule ..

theorem doRead_still : Still k (doRead env self f k).2 := by
  fun_cases doRead env self f k
  all_goals first
    | exact .refl k
    | exact runRest_rel env minorRule ..
    | exact waitOnSocket_still ..
    | exact readInto_rel env byteRule ..

theorem doBind_still : Still k (doBind env self f k).2 := by
  fun_cases doBind env self f k
  all_goals first | exact .refl k | exact ⟨.refl _, keysOf_edit _ _ rfl⟩

theorem wakeFutexFrom_still (addr : Word) (count fuel j woken : Nat) (k : System σ) :
    Still k (wakeFutexFrom addr count fuel j woken k) := by
  have hset : ∀ (k : System σ) j w, Still k (k.setWaiter j w) := fun _ _ _ => .of_eq rfl rfl
  have hwake : ∀ (k : System σ) i, Still k (k.modify i Process.awake) :=
    fun k i => .of_refs (awake_refs k.tasks i) rfl
  fun_induction wakeFutexFrom addr count fuel j woken k with
  | case1 => exact .refl _
  | case2 _ _ _ _ _ _ ih => exact ih
  | case3 _ _ _ _ _ _ _ _ ih | case6 _ _ _ _ _ _ _ _ _ _ ih => exact (hset ..).trans ih
  | case4 => exact (hset ..).trans (hwake ..)
  | case5 _ _ _ _ _ _ _ _ _ _ _ _ ih => exact (hset ..).trans ((hwake ..).trans ih)

theorem doFutex_still : Still k (doFutex env self f k).2 := by
  have hset : ∀ (k : System σ) j w, Still k (k.setWaiter j w) := fun _ _ _ => .of_eq rfl rfl
  fun_cases doFutex env self f k
  all_goals first
    | exact .refl k
    | exact wakeFutexFrom_still ..
    | exact (hset ..).trans (switching_still (block_rel (rule _) _) fun _ => hset ..)

theorem doNanosleep_still : Still k (doNanosleep env f k).2 := by
  fun_cases doNanosleep env f k
  all_goals first | exact .refl k | exact switching_still (blockUntil_rel (rule _) _ _) fun k' => .refl k'

theorem withIds_still (uid euid gid egid : BitVec 32) :
    Still k (k.modify self (Process.withIds uid euid gid egid)) :=
  modify_still k self (g := Process.withIds uid euid gid egid) fun _ => rfl

def Sys.still : Sys → Bool
  | .close | .socket | .listen | .accept | .accept4 | .connect | .clone | .wait4 | .exit | .exitGroup
  | .execve | .fcntl | .dup | .dup2 | .pipe2 | .socketpair | .fork | .vfork | .dup3 => false
  | _ => true

theorem handle_still (h : (decode f.rax).still = true) : Still k (handle env self f k).2 := by
  unfold handle
  cases hd : decode f.rax with
  | read => exact doRead_still env
  | write => exact doWrite_still env
  | setuid => exact doSetuid_rel (.refl k) withIds_still
  | setgid => exact doSetgid_rel (.refl k) withIds_still
  | seteuid => exact doSeteuid_rel (.refl k) withIds_still
  | setegid => exact doSetegid_rel (.refl k) withIds_still
  | bind => exact doBind_still env
  | sendto => exact doSendto_rel env byteRule
  | recvfrom => exact doRecvfrom_rel env byteRule
  | futex => exact doFutex_still env
  | schedYield => exact switching_still (yield_rel (rule _) _) fun k' => .refl k'
  | nanosleep => exact doNanosleep_still env
  | setTidAddress => exact doSetTidAddress_rel env minorRule
  | archPrctl => exact doArchPrctl_rel env minorRule
  | sendmsg => exact doSendmsg_rel env byteRule
  | recvmsg => exact doRecvmsg_rel env byteRule
  | setpgid => exact doSetpgid_rel minorRule
  | setsid => exact doSetsid_rel minorRule
  | rest => exact runRest_rel env minorRule ..
  | _ =>
    rw [hd] at h
    cases h

end

end BlockOS.Kernel
