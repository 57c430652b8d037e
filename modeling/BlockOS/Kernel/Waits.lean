import BlockOS.Kernel.CallActs

/-! What each blocked process waits for. -/

namespace BlockOS.Kernel
open Words Runs

inductive Wait where
  | read (si : Int)
  | write (si pe : Int) (len : Nat)
  | futex (addr : Word)
  | sleep (deadline : Word)
  | vfork (child : Word)
  | child
  deriving DecidableEq

section

variable {σ : Type} (env : Env σ)

def readWaits (self : Nat) (f : SyscallFrame) (k : System σ) : Option Wait :=
  match k.fd? self f.rdi with
  | none => none
  | some d =>
    if f.rdx ≠ 0 ∧ k.userRange env f.rsi f.rdx.toNat true = true ∧ d.kind = .unixSocket ∧
      0 ≤ d.socket ∧ socketDry (sockAt k.socks d.socket) = true ∧ d.flags &&& fdNonblock = 0 then
          some (.read d.socket)
    else none

def writeWaits (self : Nat) (f : SyscallFrame) (k : System σ) : Option Wait :=
  match k.fd? self f.rdi with
  | none => none
  | some d =>
    if f.rdx ≠ 0 ∧ k.userRange env f.rsi f.rdx.toNat false = true ∧ d.kind = .unixSocket ∧
      0 ≤ d.socket ∧ writeMustWait d f.rdx.toNat k.socks = true then
      some (.write d.socket (sockAt k.socks d.socket).peer f.rdx.toNat)
    else none

def futexWaits (f : SyscallFrame) (k : System σ) : Option Wait :=
  if k.userRange env f.rdi 4 true = true ∧ f.rsi.setWidth 32 &&& 0x7f = futexWait ∧
      BitVec.ofNat 32 (fromBytes (k.load env f.rdi 4)) = f.rdx.setWidth 32 ∧ (freeWaiter k).isSome ∧
        f.r10 = 0 then
    some (.futex f.rdi)
  else none

def sleepWaits (f : SyscallFrame) (k : System σ) : Option Wait :=
  let sec := BitVec.ofNat 64 (fromBytes (k.load env f.rdi 8))
  let nsec := BitVec.ofNat 64 (fromBytes (k.load env (f.rdi + 8) 8))
  if k.userRange env f.rdi 16 false = true ∧
    ¬ (sec.toInt < 0 ∨ nsec.toInt < 0 ∨ nsec.toInt ≥ 1000000000) then
    some (.sleep (env.uptimeMs k.mem + sec * 1000 + nsec / 1000000))
  else none

def vforkWaits (self : Nat) (f : SyscallFrame) (k : System σ) : Option Wait :=
  let r := forkLike env self f.toTrap true k
  if canSwitch r.2.tasks then r.1.map fun child => .vfork (r.2.tasks.procs child).pid else none

def childWaits (self : Nat) (f : SyscallFrame) (k : System σ) : Option Wait :=
  let r := scanChildren env self f k
  if r.1 = echild ∧ (List.range slotCount).any (isChild k.tasks self) = true ∧
    f.r10 &&& wnohang = 0 ∧ canSwitch r.2.tasks = true then some .child
  else none

def sleeper (self : Nat) (f : SyscallFrame) (k : System σ) : Option Wait :=
  match decode f.rax with
  | .read => if canSwitch k.tasks then readWaits env self f k else none
  | .write => if canSwitch k.tasks then writeWaits env self f k else none
  | .futex => if canSwitch k.tasks then futexWaits env f k else none
  | .nanosleep => if canSwitch k.tasks then sleepWaits env f k else none
  | .vfork => vforkWaits env self f k
  | .wait4 => childWaits env self f k
  | _ => none

structure Watched (σ : Type) where
  system : System σ
  waits : Nat → Option Wait

def fallsAsleep (k : System σ) : KernelOp σ → Option (Nat × Wait)
  | .call f =>
    k.tasks.current.bind fun self => (sleeper env self f (freePending env self k)).map (self, ·)
  | _ => none

def watchedStep (s : Watched σ) (op : KernelOp σ) : Watched σ :=
  let k := kernelStep env s.system op
  { system := k
    waits := fun i =>
      if (k.tasks.procs i).state ≠ .blocked then none
      else
        match fallsAsleep env s.system op with
        | some (j, w) => if i = j then some w else s.waits i
        | none => s.waits i }

def bootWatched (m : σ) : Watched σ := { system := bootSystem m, waits := fun _ => none }

variable {env} {self : Nat} {f : SyscallFrame} {k : System σ} {s : Watched σ} {op : KernelOp σ}
  {i : Nat} {w : Wait}

theorem watchedStep_waits (h : (watchedStep env s op).waits i = some w) :
    ((kernelStep env s.system op).tasks.procs i).state = .blocked ∧
      (fallsAsleep env s.system op = some (i, w) ∨
        (s.waits i = some w ∧ ∀ w', fallsAsleep env s.system op ≠ some (i, w'))) := by
  unfold watchedStep at h
  dsimp only at h
  split at h
  · cases h
  case isFalse hb =>
    refine ⟨not_not.mp hb, ?_⟩
    split at h
    case h_1 j w0 hf =>
      split at h
      case isTrue hij =>
        cases h
        exact .inl (hij ▸ hf)
      case isFalse hij =>
        refine .inr ⟨h, fun w' h0 => hij ?_⟩
        rw [hf] at h0
        cases h0
        rfl
    case h_2 hf => exact .inr ⟨h, fun w' h0 => by rw [hf] at h0; cases h0⟩

theorem fallsAsleep_call (hc : k.tasks.current = some self) :
    fallsAsleep env k (.call f) = (sleeper env self f (freePending env self k)).map (self, ·) := by
  unfold fallsAsleep
  rw [hc]
  rfl

theorem canSwitch_modify (hc : t.current = some i) (g : Process → Process) :
    canSwitch (t.modify i g) = canSwitch t := by
  have hpick : pickNext t.current (t.modify i g) = pickNext t.current t := by
    unfold pickNext
    congr 1
    funext j
    by_cases hj : j = i
    · subst hj
      simp [hc]
    · rw [Tasks.modify_other t _ hj]
  unfold canSwitch
  rw [Tasks.modify_current, hpick]
  cases hn : pickNext t.current t with
  | none => rfl
  | some j =>
    have hne : j ≠ i := fun h0 => (pickNext_spec hn).1 (h0 ▸ hc)
    dsimp only
    rw [Tasks.modify_other t _ hne]

theorem blockWith_canSwitch (hc : t.current = some i) (hs : canSwitch t = true)
    (leave arrive : Process → Process) (f : SyscallFrame) :
    (blockWith leave arrive f t).1 = true ∧
      (blockWith leave arrive f t).2.2.procs i = (leave ((t.procs i).save f.toTrap)).block ∧
      (blockWith leave arrive f t).2.2.current ≠ some i := by
  unfold canSwitch at hs
  split at hs
  · cases hs
  case h_2 j hn =>
    have hne : j ≠ i := fun h0 => (pickNext_spec hn).1 (h0 ▸ hc)
    unfold blockWith
    rw [hc] at hn ⊢
    simp only [hn, hs, Bool.not_true, Bool.false_eq_true, if_false]
    refine ⟨trivial, ?_, fun h0 => hne (Option.some.inj h0)⟩
    rw [Tasks.enter_other _ hne.symm, Tasks.modify_other _ _ hne.symm, Tasks.modify_same]

theorem block_canSwitch (hc : t.current = some i) (hs : canSwitch t = true) (f : SyscallFrame) :
    (blockFromSyscall f t).1 = true ∧ (blockFromSyscall f t).2.2.procs i =
      ((t.procs i).save f.toTrap).block ∧
      (blockFromSyscall f t).2.2.current ≠ some i := blockWith_canSwitch hc hs id id f

theorem blockUntil_canSwitch (hc : t.current = some i) (hs : canSwitch t = true) (f : SyscallFrame)
    (d : Word) :
    (blockUntilFromSyscall f d t).1 = true ∧ (blockUntilFromSyscall f d t).2.2.procs i =
        Process.block { (t.procs i).save f.toTrap with wakeDeadlineMs := d } ∧
      (blockUntilFromSyscall f d t).2.2.current ≠ some i := blockWith_canSwitch hc hs _ _ f

theorem switching_true (hr : r.1 = true) (fail : System σ → Ret × System σ) :
    (k.switching r fail).2 = { k with tasks := r.2.2 } := by
  unfold System.switching
  rw [if_pos hr]

theorem waitOnSocket_blocks (hc : k.tasks.current = some self) (hs : canSwitch k.tasks = true)
    (mark : BitVec 32)
    (number : Word) :
    (waitOnSocket self mark number f k).2.socks = k.socks ∧
      ((waitOnSocket self mark number f k).2.tasks.procs self).waitSockPlus1 = mark ∧
      ((waitOnSocket self mark number f k).2.tasks.procs self).wakeDeadlineMs =
        (k.tasks.procs self).wakeDeadlineMs ∧
      (waitOnSocket self mark number f k).2.tasks.current ≠ some self := by
  have hcur : (k.modify self (Process.markSock mark)).tasks.current = some self := hc
  have hsw : canSwitch (k.modify self (Process.markSock mark)).tasks = true :=
    (canSwitch_modify hc _).trans hs
  obtain ⟨htrue, hproc, hne⟩ := block_canSwitch hcur hsw { f with rax := number, rip := f.rip - 2 }
  unfold waitOnSocket
  dsimp only
  rw [switching_true htrue]
  dsimp only
  rw [hproc, System.modify_tasks, Tasks.modify_same]
  exact ⟨rfl, rfl, rfl, hne⟩

inductive PutsToSleep (env : Env σ) (self : Nat) (f : SyscallFrame) (k : System σ) :
    Wait → Prop where
  | read (d : RuntimeFd) (hs : canSwitch k.tasks = true) (hpos : 0 ≤ d.socket)
      (hdry : socketDry (sockAt k.socks d.socket) = true)
      (heq : handle env self f k = waitOnSocket self (readMark d.socket) sysRead f k) :
      PutsToSleep env self f k (.read d.socket)
  | write (d : RuntimeFd) (hs : canSwitch k.tasks = true) (hpos : 0 ≤ d.socket)
      (hwait : writeMustWait d f.rdx.toNat k.socks = true)
      (heq : handle env self f k = waitOnSocket self (writeMark (sockAt k.socks d.socket).peer)
        sysWrite f k) :
      PutsToSleep env self f k (.write d.socket (sockAt k.socks d.socket).peer f.rdx.toNat)
  | futex (j : Nat) (hd : decode f.rax = .futex) (hs : canSwitch k.tasks = true) (hj : freeWaiter k = some j)
      (heq : handle env self f k =
        (k.setWaiter j { used := true, addr := f.rdi, pid := (k.tasks.procs self).tid }).switching
          (blockFromSyscall f k.tasks) fun k =>
            (.value eagain, k.setWaiter j { k.futexes j with used := false })) :
      PutsToSleep env self f k (.futex f.rdi)
  | sleep (d : Word) (hd : decode f.rax = .nanosleep) (hs : canSwitch k.tasks = true)
      (heq : handle env self f k = k.switching (blockUntilFromSyscall f d k.tasks) fun k =>
        (.value 0, k)) :
      PutsToSleep env self f k (.sleep d)
  | vfork (child : Nat) (hs : canSwitch (forkLike env self f.toTrap true k).2.tasks = true)
      (hchild : (forkLike env self f.toTrap true k).1 = some child)
      (heq : handle env self f k = doVfork env self f k) :
      PutsToSleep env self f k (.vfork ((forkLike env self f.toTrap true k).2.tasks.procs child).pid)
  | child : PutsToSleep env self f k .child

theorem readWaits_puts (hd : decode f.rax = .read) (hs : canSwitch k.tasks = true)
    (h : readWaits env self f k = some w) : PutsToSleep env self f k w := by
  unfold readWaits at h
  split at h
  · cases h
  case h_2 d hfd =>
    split at h
    case isTrue hw =>
      obtain ⟨hlen, hrange, hkind, hpos, hdry, hflags⟩ := hw
      cases h
      refine .read d hs hpos hdry ?_
      unfold handle doRead
      rw [hd, hfd]
      simp only [hlen, hrange, hkind, hdry, hflags, Int.not_lt.mpr hpos, if_true, if_false,
        Bool.not_true, Bool.false_eq_true, not_true, ne_eq]
    case isFalse => cases h

theorem writeWaits_puts (hd : decode f.rax = .write) (hs : canSwitch k.tasks = true)
    (h : writeWaits env self f k = some w) : PutsToSleep env self f k w := by
  unfold writeWaits at h
  split at h
  · cases h
  case h_2 d hfd =>
    split at h
    case isTrue hw =>
      obtain ⟨hlen, hrange, hkind, hpos, hwait⟩ := hw
      cases h
      refine .write d hs hpos hwait ?_
      unfold handle doWrite
      rw [hd, hfd]
      simp only [hlen, hrange, hkind, hwait, Int.not_lt.mpr hpos, if_true, if_false, Bool.not_true,
        Bool.false_eq_true, not_true, ne_eq]
    case isFalse => cases h

theorem futexWaits_puts (hd : decode f.rax = .futex) (hs : canSwitch k.tasks = true)
    (h : futexWaits env f k = some w) : PutsToSleep env self f k w := by
  unfold futexWaits at h
  split at h
  case isTrue hw =>
    obtain ⟨hrange, hop, hval, hfree, hr10⟩ := hw
    obtain ⟨j, hj⟩ := Option.isSome_iff_exists.mp hfree
    cases h
    refine .futex j hd hs hj ?_
    unfold handle doFutex
    rw [hd]
    dsimp only
    rw [hop, decide_eq_true rfl, hrange, hj, hval, hr10]
    have hne : futexWait ≠ futexWake := by decide
    simp only [hne, Bool.not_true, Bool.false_eq_true, ne_eq, not_true, if_true, if_false]
    rfl
  case isFalse => cases h

theorem sleepWaits_puts (hd : decode f.rax = .nanosleep) (hs : canSwitch k.tasks = true)
    (h : sleepWaits env f k = some w) : PutsToSleep env self f k w := by
  unfold sleepWaits at h
  dsimp only at h
  split at h
  case isTrue hw =>
    cases h
    refine .sleep _ hd hs ?_
    unfold handle doNanosleep
    rw [hd]
    dsimp only
    rw [hw.1, if_neg hw.2]
    rfl
  case isFalse => cases h

theorem vforkWaits_puts (hd : decode f.rax = .vfork) (h : vforkWaits env self f k = some w) :
    PutsToSleep env self f k w := by
  unfold vforkWaits at h
  dsimp only at h
  split at h
  case isTrue hs =>
    obtain ⟨child, hc, rfl⟩ := Option.map_eq_some_iff.mp h
    refine .vfork child hs hc ?_
    unfold handle
    rw [hd]
  case isFalse => cases h

theorem sleeper_puts (h : sleeper env self f k = some w) : PutsToSleep env self f k w := by
  revert h
  fun_cases sleeper env self f k with
  | case1 hd hs => exact readWaits_puts hd hs
  | case3 hd hs => exact writeWaits_puts hd hs
  | case5 hd hs => exact futexWaits_puts hd hs
  | case7 hd hs => exact sleepWaits_puts hd hs
  | case9 hd => exact vforkWaits_puts hd
  | case10 hd =>
    unfold childWaits
    dsimp only
    split
    · exact fun h => Option.some.inj h ▸ .child
    · nofun
  | case2 | case4 | case6 | case8 | case11 => nofun

end

end BlockOS.Kernel
