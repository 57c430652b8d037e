import BlockOS.Kernel.Syscall

/-! The steps that the system calls are made of. -/

namespace BlockOS.Kernel
open Words

structure Core where
  pid : Word
  tid : Word
  parentPid : Word
  pml4 : Word
  pml4Owned : Bool
  pml4PendingFree : Word
  uid : BitVec 32
  euid : BitVec 32
  gid : BitVec 32
  egid : BitVec 32
  fdOwner : Option Nat

def Process.core (p : Process) : Core :=
  { pid := p.pid, tid := p.tid, parentPid := p.parentPid, pml4 := p.pml4, pml4Owned := p.pml4Owned
    pml4PendingFree := p.pml4PendingFree, uid := p.uid, euid := p.euid, gid := p.gid
    egid := p.egid, fdOwner := p.fdOwner }

structure Waiting where
  frame : TrapFrame
  frameValid : Bool
  deadline : Word
  targetPid : Word
  statusPtr : Word
  vforkChild : Bool
  vforkParentPid : Word

def Process.waiting (p : Process) : Waiting :=
  { frame := p.savedFrame, frameValid := p.frameValid, deadline := p.wakeDeadlineMs
    targetPid := p.waitTargetPid, statusPtr := p.waitStatusPtr, vforkChild := p.vforkChild
    vforkParentPid := p.vforkParentPid }

structure Minor (p p' : Process) : Prop where
  core : p'.core = p.core
  waiting : p'.waiting = p.waiting
  state : p'.state = p.state
  mark : p'.waitSockPlus1 = p.waitSockPlus1
  fds : p'.fds = p.fds

inductive SockStep (s : Nat → UnixSocket) : (Nat → UnixSocket) → Prop where
  | edit (i : Int) (u : UnixSocket) (hused : u.used = (sockAt s i).used)
      (hpeer : u.peer = (sockAt s i).peer) : SockStep s (setSock s i u)
  | alloc : SockStep s (socketObjAlloc s).2
  | free (i : Int) : SockStep s (socketFree i s)
  | pair : SockStep s (allocPair s).2

section

variable {σ : Type}

structure Rule (R : System σ → System σ → Prop) : Prop where
  refl (k : System σ) : R k k
  trans {k k' k'' : System σ} : R k k' → R k' k'' → R k k''
  mem (k : System σ) (m : σ) : R k { k with mem := m }

structure FdRule (R : System σ → System σ → Prop) : Prop extends Rule R where
  setFd (k : System σ) (owner fd : Nat) (d : RuntimeFd) : R k (k.setFd owner fd d)

structure SockRule (R : System σ → System σ → Prop) : Prop extends FdRule R where
  socks {k : System σ} {s : Nat → UnixSocket} : SockStep k.socks s → R k { k with socks := s }

structure ByteRule (R : System σ → System σ → Prop) : Prop extends Rule R where
  bytes (k : System σ) (j : Int) (rx : Ring Byte) :
    R k { k with socks := setSock k.socks j { sockAt k.socks j with rx := rx } }
  wake (k : System σ) (mark : BitVec 32) : R k { k with tasks := wakeSocket mark k.tasks }

structure CloseRule (R : System σ → System σ → Prop) : Prop extends SockRule R where
  wake (k : System σ) (mark : BitVec 32) : R k { k with tasks := wakeSocket mark k.tasks }

structure MinorRule (R : System σ → System σ → Prop) : Prop extends Rule R where
  minor (k : System σ) (i : Nat) {g : Process → Process} (hg : ∀ p, Minor p (g p)) : R k (k.modify i g)
  files (k : System σ) (i : Nat) (edits : List FdEdit) : R k (k.modify i (Process.editFds edits))
  fsBase (k : System σ) (x : Word) : R k { k with tasks := { k.tasks with fsBase := x } }

structure TaskRule (R : System σ → System σ → Prop) : Prop extends SockRule R where
  tasks (k : System σ) (t : Tasks) : R k { k with tasks := t }

structure FullRule (R : System σ → System σ → Prop) : Prop extends TaskRule R where
  waiter (k : System σ) (j : Nat) (w : FutexWaiter) : R k (k.setWaiter j w)

variable {R : System σ → System σ → Prop} (env : Env σ) {self : Nat} {f : SyscallFrame}
  {k k' : System σ}

theorem CloseRule.byte (h : CloseRule R) : ByteRule R :=
  { h.toRule with bytes := fun _ _ _ => h.socks (.edit _ _ rfl rfl), wake := h.wake }

theorem TaskRule.close (h : TaskRule R) : CloseRule R :=
  { h.toSockRule with wake := fun k _ => h.tasks k _ }

theorem TaskRule.minor (h : TaskRule R) : MinorRule R :=
  { h.toRule with
    minor := fun k _ _ _ => h.tasks k _, files := fun k _ _ => h.tasks k _, fsBase :=
      fun k _ => h.tasks k _ }

theorem allocFd_rel (h : FdRule R) (self start : Nat) (k : System σ) :
    R k (allocFd self start k).2 := by
  fun_cases allocFd self start k
  · exact h.setFd ..
  · exact h.refl k

theorem allocFd_eq_rel (h : FdRule R) (e : allocFd self start k = (r, k')) : R k k' := by
  have h0 := allocFd_rel h self start k
  rwa [e] at h0

theorem dupFrom_rel (h : FdRule R) (start : Nat) (d : RuntimeFd) : R k (dupFrom self start d k).2 := by
  fun_cases dupFrom self start d k with
  | case1 k' e => exact allocFd_eq_rel h e
  | case2 n k' e => exact h.trans (allocFd_eq_rel h e) (h.setFd ..)

theorem doDup_rel (h : FdRule R) : R k (doDup self f k).2 := by
  fun_cases doDup self f k with
  | case1 => exact h.refl k
  | case2 d _ k' e => exact allocFd_eq_rel h e
  | case3 d _ n k' e => exact h.trans (allocFd_eq_rel h e) (h.setFd ..)

theorem doFcntl_rel (h : FdRule R) : R k (doFcntl self f k).2 := by
  fun_cases doFcntl self f k
  all_goals first | exact h.refl k | exact h.setFd .. | exact dupFrom_rel h ..

theorem doSocket_rel (h : SockRule R) : R k (doSocket self f k).2 := by
  fun_cases doSocket self f k with
  | case1 | case2 => exact h.refl k
  | case3 _ r _ k' e =>
    exact h.trans (h.trans (h.socks .alloc) (allocFd_eq_rel h.toFdRule e)) (h.socks (.free _))
  | case4 _ r _ n k' e =>
    exact h.trans (h.trans (h.socks .alloc) (allocFd_eq_rel h.toFdRule e)) (h.setFd ..)

theorem doBind_rel (h : SockRule R) : R k (doBind env self f k).2 := by
  fun_cases doBind env self f k
  all_goals first | exact h.refl k | exact h.socks (.edit _ _ rfl rfl)

theorem doListen_rel (h : SockRule R) : R k (doListen self f k).2 := by
  fun_cases doListen self f k
  all_goals first | exact h.refl k | exact h.socks (.edit _ _ rfl rfl)

theorem doAccept_rel (h : SockRule R) : R k (doAccept self f k).2 := by
  have htake : ∀ li rest,
      R k { k with socks := setSock k.socks li { sockAt k.socks li with pending := rest } } :=
    fun _ _ => h.socks (.edit _ _ rfl rfl)
  fun_cases doAccept self f k with
  | case1 | case2 | case3 => exact h.refl k
  | case4 li _ _ si rest _ k1 k' e => exact h.trans (htake li rest) (allocFd_eq_rel h.toFdRule e)
  | case5 li _ _ si rest _ k1 n k' e =>
    exact h.trans (h.trans (htake li rest) (allocFd_eq_rel h.toFdRule e)) (h.setFd ..)

theorem placePair_rel (h : FdRule R) (a b : Int) (fda fdb : Nat) (flags : BitVec 32) (dst : Word)
    (k : System σ) : R k (placePair env self a b fda fdb flags dst k) :=
  h.trans (h.setFd ..) (h.trans (h.setFd ..) (h.mem ..))

theorem allocFd_twice_rel (h : FdRule R) (self : Nat) (k : System σ) :
    R k (allocFd self 0 (allocFd self 0 k).2).2 :=
  h.trans (allocFd_rel h ..) (allocFd_rel h ..)

theorem allocPair_rel (h : SockRule R) (e : allocPair k.socks = (r, s)) :
    R k { k with socks := s } := by
  have h0 : R k { k with socks := (allocPair k.socks).2 } := h.socks .pair
  rwa [e] at h0

theorem doSocketpair_rel (h : SockRule R) : R k (doSocketpair env self f k).2 := by
  have hedit : ∀ {k : System σ} (i : Int),
      R k { k with socks := setSock k.socks i { sockAt k.socks i with connected := true } } :=
    fun _ => h.socks (.edit _ _ rfl rfl)
  unfold doSocketpair
  split
  · exact h.refl k
  split
  case h_1 socks e => exact allocPair_rel h e
  case h_2 a b socks e =>
    have h1 := h.trans (h.trans (allocPair_rel h e) (hedit a)) (hedit b)
    dsimp only
    split
    · exact h.trans h1 (h.trans (allocFd_twice_rel h.toFdRule ..) (placePair_rel env h.toFdRule ..))
    · exact h.trans h1 (allocFd_twice_rel h.toFdRule ..)

theorem doPipe2_rel (h : SockRule R) : R k (doPipe2 env self f k).2 := by
  unfold doPipe2
  split
  · exact h.refl k
  split
  case h_1 socks e => exact allocPair_rel h e
  case h_2 sa sb socks e =>
    have h1 := h.trans (allocPair_rel h e) (allocFd_twice_rel h.toFdRule self _)
    have hfree : ∀ k : System σ, R k { k with socks := socketFree sb (socketFree sa k.socks) } :=
      fun k => h.trans (h.socks (.free sa)) (h.socks (.free sb))
    dsimp only
    split
    · exact h.trans h1 (placePair_rel env h.toFdRule ..)
    · exact h.trans h1 (h.trans (h.setFd ..) (hfree _))
    · exact h.trans h1 (hfree _)

theorem wakeSocketReaders_rel (h : ByteRule R) (idx : Int) (k : System σ) :
    R k { k with tasks := wakeSocketReaders idx k.tasks } := by
  unfold wakeSocketReaders
  split
  · exact h.refl k
  · exact h.wake ..

theorem wakeSocketWriters_rel (h : ByteRule R) (idx : Int) (k : System σ) :
    R k { k with tasks := wakeSocketWriters idx k.tasks } := by
  unfold wakeSocketWriters
  split
  · exact h.refl k
  · exact h.wake ..

theorem writeAll_rel (h : ByteRule R) (k : System σ) (idx : Int) (src : List Byte) :
    R k (k.writeAll idx src).2 := by
  unfold System.writeAll socketWriteIdx
  split
  · exact h.refl k
  dsimp only
  split
  · exact h.refl k
  · exact h.trans (h.bytes ..) (wakeSocketReaders_rel h ..)

theorem writeSome_rel (h : ByteRule R) (k : System σ) (idx : Int) (src : List Byte) :
    R k (k.writeSome idx src).2 := by
  unfold System.writeSome socketWritePartial
  split
  · exact h.refl k
  dsimp only
  split
  · exact h.refl k
  · exact h.trans (h.bytes ..) (wakeSocketReaders_rel h ..)

theorem readInto_rel (h : ByteRule R) (k : System σ) (idx : Int) (dst : Word) (n : Nat) :
    R k (k.readInto env idx dst n).2 := by
  unfold System.readInto socketReadIdx
  split
  · exact h.mem ..
  dsimp only
  split
  · exact h.trans (h.bytes ..) (h.trans (h.mem ..) (wakeSocketWriters_rel h ..))
  · exact h.trans (h.bytes ..) (h.mem ..)

theorem doSendto_rel (h : ByteRule R) : R k (doSendto env self f k).2 := by
  fun_cases doSendto env self f k
  all_goals first | exact h.refl k | exact writeAll_rel h ..

theorem doRecvfrom_rel (h : ByteRule R) : R k (doRecvfrom env self f k).2 := by
  fun_cases doRecvfrom env self f k
  all_goals first | exact h.refl k | exact readInto_rel env h ..

theorem sendBuffers_rel (h : ByteRule R) (si : Int) (msg : Word) (fuel i total : Nat)
    (k : System σ) :
    R k (sendBuffers env si msg fuel i total k).2 := by
  fun_induction sendBuffers env si msg fuel i total k with
  | case1 | case2 | case3 => exact h.refl _
  | case4 fuel i total k _ b _ r _ ih => exact h.trans (writeAll_rel h ..) ih
  | case5 => exact writeAll_rel h ..

theorem recvBuffers_rel (h : ByteRule R) (si : Int) (msg : Word) (fuel i total : Nat)
    (k : System σ) :
    R k (recvBuffers env si msg fuel i total k).2 := by
  fun_induction recvBuffers env si msg fuel i total k with
  | case1 | case2 | case3 => exact h.refl _
  | case4 => exact readInto_rel env h ..
  | case5 fuel i total k _ b _ r _ ih => exact h.trans (readInto_rel env h ..) ih

theorem doSendmsg_rel (h : ByteRule R) : R k (doSendmsg env self f k).2 := by
  unfold doSendmsg
  split
  · exact h.refl k
  split
  · exact h.refl k
  · exact sendBuffers_rel env h ..

theorem doRecvmsg_rel (h : ByteRule R) : R k (doRecvmsg env self f k).2 := by
  have hclear : R k ((k.store env (f.rsi + 40) (bytesOf 8 0)).store env (f.rsi + 48) (bytesOf 4 0)) :=
    h.trans (h.mem ..) (h.mem ..)
  unfold doRecvmsg
  split
  · exact h.refl k
  split
  · exact h.refl k
  dsimp only
  split
  · exact hclear
  · exact h.trans hclear (recvBuffers_rel env h ..)

theorem socketReleaseFd_rel (h : CloseRule R) (si : Int) (except : Option (Nat × Nat))
    (k : System σ) :
    R k (socketReleaseFd si except k) := by
  unfold socketReleaseFd
  split
  · exact h.refl k
  split
  · exact h.refl k
  dsimp only
  split
  · have h1 := h.socks (k := k) (.edit (sockAt k.socks si).peer
      { sockAt k.socks (sockAt k.socks si).peer with closed := true } rfl rfl)
    exact h.trans (h.trans h1 (wakeSocketReaders_rel h.byte ..)) (h.socks (.free si))
  · exact h.socks (.free si)

theorem dropFd_rel (h : CloseRule R) (self fd : Nat) (d : RuntimeFd) (k : System σ) :
    R k (dropFd self fd d k) := by
  unfold dropFd
  dsimp only
  split
  · exact h.trans (h.setFd ..) (socketReleaseFd_rel h ..)
  · exact h.setFd ..

theorem replaceFd_rel (h : CloseRule R) (d : RuntimeFd) (target : Nat)
    (flags : BitVec 32 → BitVec 32) :
    R k (replaceFd self d target flags k) := by
  unfold replaceFd
  dsimp only
  split
  · exact h.trans (dropFd_rel h ..) (h.setFd ..)
  · exact h.setFd ..

theorem doClose_rel (h : CloseRule R) : R k (doClose self f k).2 := by
  fun_cases doClose self f k
  all_goals first | exact h.refl k | exact dropFd_rel h ..

theorem doDup2_rel (h : CloseRule R) : R k (doDup2 self f k).2 := by
  fun_cases doDup2 self f k
  all_goals first | exact h.refl k | exact replaceFd_rel h ..

theorem doDup3_rel (h : CloseRule R) : R k (doDup3 self f k).2 := by
  fun_cases doDup3 self f k
  all_goals dsimp only
  all_goals first | exact h.refl k | exact replaceFd_rel h ..

theorem releaseFd_rel (h : CloseRule R) (i : Nat) (k : System σ) (fd : Nat) :
    R k (releaseFd i k fd) := by
  unfold releaseFd
  dsimp only
  split
  · exact h.trans (h.setFd ..) (socketReleaseFd_rel h ..)
  · exact h.refl k

theorem releaseProcessFds_rel (h : CloseRule R) (i : Nat) (k : System σ) :
    R k (releaseProcessFds i k) := by
  unfold releaseProcessFds
  induction List.range maxRuntimeFds generalizing k with
  | nil => exact h.refl k
  | cons fd l ih => exact h.trans (releaseFd_rel h i k fd) (ih _)

theorem doSetTidAddress_rel (h : MinorRule R) : R k (doSetTidAddress env self f k).2 := by
  fun_cases doSetTidAddress env self f k
  · exact h.refl k
  · exact h.minor k _ fun _ => ⟨rfl, rfl, rfl, rfl, rfl⟩

theorem doArchPrctl_rel (h : MinorRule R) : R k (doArchPrctl env self f k).2 := by
  have hset := h.trans (h.minor k self (g := fun p => { p with fsBase := f.rsi }) fun _ =>
    ⟨rfl, rfl, rfl, rfl, rfl⟩)
    (h.fsBase _ f.rsi)
  fun_cases doArchPrctl env self f k
  all_goals first | exact h.refl k | exact hset | exact h.mem ..

theorem doSetpgid_rel (h : MinorRule R) : R k (doSetpgid self f k).2 := by
  fun_cases doSetpgid self f k
  · exact h.refl k
  · exact h.minor k _ fun _ => ⟨rfl, rfl, rfl, rfl, rfl⟩

theorem doSetsid_rel (h : MinorRule R) : R k (doSetsid self k).2 :=
    h.minor k _ fun _ => ⟨rfl, rfl, rfl, rfl, rfl⟩

theorem runRest_rel (h : MinorRule R) (self : Nat) (f : SyscallFrame) (k : System σ) :
    R k (runRest env self f k).2 :=
  h.trans (h.minor k self (g := Process.keepBooks (env.rest k f)) fun _ => ⟨rfl, rfl, rfl, rfl, rfl⟩)
    (h.trans (h.files ..) (h.mem ..))

section

variable (hr : R k k) (hi : ∀ uid euid gid egid,
  R k (k.modify self (Process.withIds uid euid gid egid)))

include hr hi

theorem doSetuid_rel : R k (doSetuid self f k).2 := by
  fun_cases doSetuid self f k
  all_goals first | exact hr | exact hi ..

theorem doSetgid_rel : R k (doSetgid self f k).2 := by
  fun_cases doSetgid self f k
  all_goals first | exact hr | exact hi ..

theorem doSeteuid_rel : R k (doSeteuid self f k).2 := by
  fun_cases doSeteuid self f k
  all_goals first | exact hr | exact hi ..

theorem doSetegid_rel : R k (doSetegid self f k).2 := by
  fun_cases doSetegid self f k
  all_goals first | exact hr | exact hi ..

end

theorem switching_rel (h : TaskRule R) (hf : ∀ k : System σ, R k (fail k).2) :
    R k (k.switching r fail).2 := by
  unfold System.switching
  dsimp only
  split
  · exact h.tasks ..
  · exact h.trans (h.tasks k r.2.2) (hf _)

theorem waitOnSocket_rel (h : TaskRule R) (self : Nat) (mark : BitVec 32) (number : Word)
    (f : SyscallFrame)
    (k : System σ) : R k (waitOnSocket self mark number f k).2 :=
  h.trans (h.tasks ..) (switching_rel h fun _ =>
    h.trans (h.tasks ..) (switching_rel h fun k' => h.refl k'))

theorem doWrite_rel (h : TaskRule R) : R k (doWrite env self f k).2 := by
  fun_cases doWrite env self f k
  all_goals first
    | exact h.refl k
    | exact runRest_rel env h.minor ..
    | exact waitOnSocket_rel h ..
    | exact writeSome_rel h.close.byte ..

theorem doRead_rel (h : TaskRule R) : R k (doRead env self f k).2 := by
  fun_cases doRead env self f k
  all_goals first
    | exact h.refl k
    | exact runRest_rel env h.minor ..
    | exact waitOnSocket_rel h ..
    | exact readInto_rel env h.close.byte ..

theorem doNanosleep_rel (h : TaskRule R) : R k (doNanosleep env f k).2 := by
  fun_cases doNanosleep env f k
  all_goals first | exact h.refl k | exact switching_rel h fun k' => h.refl k'

theorem doClone_rel (h : TaskRule R) : R k (doClone env self f k).2 := by
  fun_cases doClone env self f k
  all_goals first | exact h.refl k | exact h.tasks ..

theorem forkLike_rel (h : TaskRule R) (frame : TrapFrame) (vfork : Bool) :
    R k (forkLike env self frame vfork k).2 := by
  have hpid := h.tasks k { k.tasks with nextPid := k.tasks.nextPid + 1 }
  fun_cases forkLike env self frame vfork k
  all_goals first
    | exact h.refl k
    | exact h.trans hpid (h.tasks ..)
    | exact h.trans hpid (h.trans (h.mem ..) (h.tasks ..))

theorem doFork_rel (h : TaskRule R) : R k (doFork env self f k).2 := by
  have hfork : R k (forkLike env self f.toTrap false k).2 := forkLike_rel env h ..
  fun_cases doFork env self f k with
  | case1 k' e => rwa [e] at hfork
  | case2 n k' e => rwa [e] at hfork

theorem doVfork_rel (h : TaskRule R) : R k (doVfork env self f k).2 := by
  have hfork : R k (forkLike env self f.toTrap true k).2 := forkLike_rel env h ..
  unfold doVfork
  split
  case h_1 e => rwa [e] at hfork
  case h_2 e =>
    rw [e] at hfork
    exact h.trans hfork (h.trans (h.tasks ..) (switching_rel h fun k' => h.refl k'))

theorem doExecve_rel (h : TaskRule R) : R k (doExecve env self f k).2 := by
  fun_cases doExecve env self f k
  · exact h.mem ..
  · exact h.trans (h.tasks k _) (h.mem ..)

theorem notifyParent_rel (h : TaskRule R) (self : Nat) (k : System σ) :
    R k (notifyParent env self k) := by
  unfold notifyParent
  dsimp only
  split
  · exact h.refl k
  split
  · exact h.trans (h.tasks k _) (h.mem ..)
  · exact h.refl k

theorem wakeFutexFrom_rel (h : FullRule R) (addr : Word) (count fuel j woken : Nat) (k : System σ) :
    R k (wakeFutexFrom addr count fuel j woken k) := by
  fun_induction wakeFutexFrom addr count fuel j woken k with
  | case1 => exact h.refl _
  | case2 _ _ _ _ _ _ ih => exact ih
  | case3 _ _ _ _ _ _ _ _ ih => exact h.trans (h.waiter ..) ih
  | case4 => exact h.trans (h.waiter ..) (h.tasks ..)
  | case5 _ _ _ _ _ _ _ _ _ _ _ _ ih => exact h.trans (h.waiter ..) (h.trans (h.tasks ..) ih)
  | case6 _ _ _ _ _ _ _ _ _ _ ih => exact h.trans (h.waiter ..) ih

theorem doFutex_rel (h : FullRule R) : R k (doFutex env self f k).2 := by
  fun_cases doFutex env self f k
  all_goals first
    | exact h.refl k
    | exact wakeFutexFrom_rel h ..
    | exact h.trans (h.waiter ..) (switching_rel h.toTaskRule fun _ => h.waiter ..)

theorem clearTidWord_rel (h : FullRule R) (self : Nat) (k : System σ) :
    R k (clearTidWord env self k) := by
  unfold clearTidWord
  dsimp only
  split
  · exact h.trans (h.mem k _) (wakeFutexFrom_rel h ..)
  · exact h.refl k

theorem doExit_rel (h : FullRule R) : R k (doExit env self f k).2 := by
  have hgone := h.trans (releaseProcessFds_rel h.close self k)
    (h.tasks _ (releaseVforkParent self (releaseProcessFds self k).tasks))
  have hleave : R k (leave env self f k) :=
    h.trans hgone (h.trans (h.tasks ..) (h.trans (notifyParent_rel env h.toTaskRule self _)
      (h.trans (clearTidWord_rel env h self _) (h.tasks ..))))
  exact h.trans hleave (switching_rel h.toTaskRule fun k' => h.refl k')

def Sys.isLocal : Sys → Bool
  | .close | .socket | .bind | .listen | .accept | .accept4 | .sendto | .recvfrom | .setTidAddress
  | .fcntl | .dup | .dup2 | .pipe2 | .archPrctl | .socketpair | .sendmsg | .recvmsg | .setpgid
  | .setsid | .dup3 | .rest => true
  | _ => false

theorem handle_local_rel (h : CloseRule R) (hm : MinorRule R) (hl : (decode f.rax).isLocal = true) :
    R k (handle env self f k).2 := by
  unfold handle
  cases hd : decode f.rax with
  | close => exact doClose_rel h
  | socket => exact doSocket_rel h.toSockRule
  | bind => exact doBind_rel env h.toSockRule
  | listen => exact doListen_rel h.toSockRule
  | accept | accept4 => exact doAccept_rel h.toSockRule
  | sendto => exact doSendto_rel env h.byte
  | recvfrom => exact doRecvfrom_rel env h.byte
  | setTidAddress => exact doSetTidAddress_rel env hm
  | fcntl => exact doFcntl_rel h.toFdRule
  | dup => exact doDup_rel h.toFdRule
  | dup2 => exact doDup2_rel h
  | pipe2 => exact doPipe2_rel env h.toSockRule
  | archPrctl => exact doArchPrctl_rel env hm
  | socketpair => exact doSocketpair_rel env h.toSockRule
  | sendmsg => exact doSendmsg_rel env h.byte
  | recvmsg => exact doRecvmsg_rel env h.byte
  | setpgid => exact doSetpgid_rel hm
  | setsid => exact doSetsid_rel hm
  | dup3 => exact doDup3_rel h
  | rest => exact runRest_rel env hm ..
  | _ => simp [hd, Sys.isLocal] at hl

theorem handle_rel (h : TaskRule R)
    (hfull : decode f.rax ∈ [.futex, .exit, .exitGroup] → FullRule R)
    (hc : decode f.rax ≠ .connect) (hw : decode f.rax ≠ .wait4) : R k (handle env self f k).2 := by
  by_cases hl : (decode f.rax).isLocal = true
  · exact handle_local_rel env h.close h.minor hl
  unfold handle
  cases hd : decode f.rax with
  | read => exact doRead_rel env h
  | write => exact doWrite_rel env h
  | connect => exact absurd hd hc
  | futex => exact doFutex_rel env (hfull (by simp [hd]))
  | clone => exact doClone_rel env h
  | wait4 => exact absurd hd hw
  | exit | exitGroup => exact doExit_rel env (hfull (by simp [hd]))
  | schedYield => exact switching_rel h fun k' => h.refl k'
  | nanosleep => exact doNanosleep_rel env h
  | execve => exact doExecve_rel env h
  | fork => exact doFork_rel env h
  | vfork => exact doVfork_rel env h
  | setuid => exact doSetuid_rel (h.refl k) fun _ _ _ _ => h.tasks ..
  | setgid => exact doSetgid_rel (h.refl k) fun _ _ _ _ => h.tasks ..
  | seteuid => exact doSeteuid_rel (h.refl k) fun _ _ _ _ => h.tasks ..
  | setegid => exact doSetegid_rel (h.refl k) fun _ _ _ _ => h.tasks ..
  | _ => simp [hd, Sys.isLocal] at hl

end

end BlockOS.Kernel
