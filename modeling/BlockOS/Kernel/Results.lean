import BlockOS.Kernel.Alarms

/-! The register `rax` of a process that slept in `nanosleep` or `FUTEX_WAIT`. -/

namespace BlockOS.Kernel
open Words Runs

section

variable {σ : Type} (env : Env σ)

def loadedFrame (k : System σ) : KernelOp σ → Option TrapFrame
  | .call f => some (dispatch env f k).1.toTrap
  | .timer f => some (onTimer (env.uptimeMs k.mem) f k.tasks).2.1.toTrap
  | .start i => some (k.tasks.procs i).savedFrame
  | .spawn _ | .machine _ => none

def takenForParent (k : System σ) (i : Nat) : KernelOp σ → Bool
  | .call f => k.tasks.current.any fun self =>
      decide (handsOver self f (freePending env self k) i) && decide ((k.tasks.procs i).state = .blocked)
  | _ => false

def resumption (i : Nat) : System σ → List (KernelOp σ) → Option TrapFrame
  | _, [] => none
  | k, op :: ops =>
    let k' := kernelStep env k op
    if takenForParent env k i op = true ∨ (k'.tasks.procs i).state = .terminated then none
    else if k'.tasks.current = some i then loadedFrame env k op
    else resumption i k' ops

def Loads (self : Nat) (r : Ret × System σ) : Prop :=
  ∀ i, i ≠ self → r.2.tasks.current = some i → ∃ g, r.1 = .frame g ∧
    g.toTrap = (r.2.tasks.procs i).savedFrame

def SchedLoads (cur : Option Nat) (r : Bool × TrapFrame × Tasks) : Prop :=
  ∀ i, cur ≠ some i → r.2.2.current = some i → r.1 = true ∧ r.2.1 = (r.2.2.procs i).savedFrame

variable {env} {self i : Nat} {f : SyscallFrame} {k : System σ} {t : Tasks} {fr : TrapFrame}

theorem SchedLoads.of_current (h : r.2.2.current = cur) :
    SchedLoads cur r := fun _ hi h0 => absurd (h.symm.trans h0) hi

theorem SchedLoads.enter (cur : Option Nat) (t : Tasks) (j : Nat) :
    SchedLoads cur (true, (t.procs j).savedFrame, t.enter j) := by
  intro i _ hi
  cases hi
  rw [t.enter_same]
  exact ⟨rfl, rfl⟩

theorem blockWith_loads (leave arrive : Process → Process) (f : SyscallFrame) (t : Tasks) :
    SchedLoads t.current ((blockWith leave arrive f t).1, (blockWith leave arrive f t).2.1.toTrap,
      (blockWith leave arrive f t).2.2) := by
  fun_cases blockWith leave arrive f t
  all_goals first | exact .of_current rfl | exact .enter _ _ _

theorem switchAway_loads (f : TrapFrame) (t : Tasks) :
    SchedLoads t.current ((switchAway f t).1.isSome, (switchAway f t).1.getD {},
      (switchAway f t).2) := by
  unfold switchAway
  split
  · exact .of_current rfl
  case h_2 next hn =>
    dsimp only
    split
    · exact .of_current rfl
    case isFalse hok =>
      rw [switchTo, if_neg hok]
      dsimp only
      rw [Tasks.enter_same, if_neg (by simp [Process.run])]
      exact .enter _ _ _

theorem yield_loads (f : SyscallFrame) (t : Tasks) :
    SchedLoads t.current ((yieldFromSyscall f t).1, (yieldFromSyscall f t).2.1.toTrap,
      (yieldFromSyscall f t).2.2) := by
  have h := switchAway_loads f.toTrap t
  unfold yieldFromSyscall
  dsimp only
  cases hr : (switchAway f.toTrap t).1 with
  | none =>
    rw [hr] at h
    exact fun i hi h0 => absurd (h i hi h0).1 nofun
  | some out =>
    rw [hr] at h
    exact h

theorem onTimer_loads (now : Word) (f : InterruptFrame) (t : Tasks) :
    SchedLoads t.current ((onTimer now f t).1, (onTimer now f t).2.1.toTrap, (onTimer now f t).2.2) := by
  have h : SchedLoads t.current _ := switchAway_loads f.toTrap (wakeTimedTasks now t)
  unfold onTimer
  dsimp only
  split
  · exact .of_current rfl
  cases hr : (switchAway f.toTrap (wakeTimedTasks now t)).1 with
  | none =>
    rw [hr] at h
    exact fun i hi h0 => absurd (h i hi h0).1 nofun
  | some out =>
    rw [hr] at h
    exact h

theorem onExit_loads (cur : Option Nat) (f : SyscallFrame) (t : Tasks) :
    SchedLoads cur ((onExit f t).1, (onExit f t).2.1.toTrap, (onExit f t).2.2) := by
  unfold onExit
  dsimp only
  split
  · exact fun _ _ h0 => absurd h0 nofun
  split
  · exact fun _ _ h0 => absurd h0 nofun
  · exact .enter _ _ _

def Own (self : Nat) (t : Tasks) : Prop := ∀ i, i ≠ self → t.current ≠ some i

theorem Own.of_current (h : t.current = some self) : Own self t :=
  fun _ hi h0 => hi (Option.some.inj (h0.symm.trans h))

theorem Own.loads (h : Own self r.2.tasks) : Loads self r :=
  fun i hi h0 => absurd h0 (h i hi)

theorem switching_loads (hr : SchedLoads t.current (r.1, r.2.1.toTrap, r.2.2)) (ho : Own self t)
    (hf : ∀ k : System σ, Own self k.tasks → Loads self (fail k)) : Loads self (k.switching r fail) := by
  unfold System.switching
  dsimp only
  split
  · exact fun i hi h0 => ⟨_, rfl, (hr i (ho i hi) h0).2⟩
  case isFalse h => exact hf _ fun i hi h0 => h (hr i (ho i hi) h0).1

theorem waitOnSocket_loads (ho : Own self k.tasks) (mark : BitVec 32) (number : Word) :
    Loads self (waitOnSocket self mark number f k) :=
  switching_loads (blockWith_loads _ _ _ _) ho fun _ ho' => switching_loads (yield_loads _ _) ho'
    fun _ h => h.loads

def SameCurrent (k k' : System σ) : Prop := k'.tasks.current = k.tasks.current

theorem sameCurrent_close : CloseRule (@SameCurrent σ) where
  refl _ := rfl
  trans h h' := h'.trans h
  mem _ _ := rfl
  setFd _ _ _ _ := rfl
  socks _ := rfl
  wake _ _ := rfl

theorem sameCurrent_minor : MinorRule (@SameCurrent σ) :=
  { sameCurrent_close.toRule with minor := fun _ _ _ _ => rfl, files := fun _ _ _ => rfl, fsBase :=
    fun _ _ => rfl }

theorem SameCurrent.loads (h : SameCurrent k r.2) (ho : Own self k.tasks) : Loads self r :=
  Own.loads fun i hi h0 => ho i hi (h.symm.trans h0)

theorem doWait4_loads (ho : Own self k.tasks) : Loads self (doWait4 env self f k) := by
  have hscan : SameCurrent k (scanChildren env self f k).2 := scanChildren_current env
  unfold doWait4
  dsimp only
  split
  · exact hscan.loads ho
  split
  · exact hscan.loads ho
  split
  · exact hscan.loads ho
  · exact switching_loads (blockWith_loads _ _ _ _) (fun i hi h0 => ho i hi (hscan.symm.trans h0))
      fun _ h => h.loads

theorem doVfork_loads (ho : Own self k.tasks) : Loads self (doVfork env self f k) := by
  have hfork : SameCurrent k (forkLike env self f.toTrap true k).2 := forkLike_current ..
  unfold doVfork
  split
  case h_1 e =>
    rw [e] at hfork
    exact hfork.loads ho
  case h_2 e =>
    rw [e] at hfork
    exact switching_loads (blockWith_loads _ _ _ _) (fun i hi h0 => ho i hi (hfork.symm.trans h0))
      fun _ h => h.loads

theorem handle_loads (ho : Own self k.tasks) : Loads self (handle env self f k) := by
  by_cases hl : (decode f.rax).isLocal = true
  · exact SameCurrent.loads (handle_local_rel env sameCurrent_close sameCurrent_minor hl) ho
  have hsame : ∀ {r : Ret × System σ}, SameCurrent k r.2 → Loads self r := fun h => h.loads ho
  unfold handle
  cases hd : decode f.rax with
  | read =>
    show Loads self (doRead env self f k)
    fun_cases doRead env self f k
    all_goals first
      | exact hsame rfl
      | exact waitOnSocket_loads ho _ _
      | exact hsame (readInto_rel env sameCurrent_close.byte ..)
  | write =>
    show Loads self (doWrite env self f k)
    fun_cases doWrite env self f k
    all_goals first
      | exact hsame rfl
      | exact waitOnSocket_loads ho _ _
      | exact hsame (writeSome_rel sameCurrent_close.byte ..)
  | futex =>
    show Loads self (doFutex env self f k)
    fun_cases doFutex env self f k
    all_goals first
      | exact hsame rfl
      | exact hsame (wakeFutexFrom_calm ..).current
      | exact switching_loads (blockWith_loads _ _ _ _) ho fun _ h => Own.loads h
  | nanosleep =>
    show Loads self (doNanosleep env f k)
    fun_cases doNanosleep env f k
    all_goals first
      | exact hsame rfl
      | exact switching_loads (blockWith_loads _ _ _ _) ho fun _ h => h.loads
  | schedYield => exact switching_loads (yield_loads _ _) ho fun _ h => h.loads
  | wait4 => exact doWait4_loads ho
  | vfork => exact doVfork_loads ho
  | exit | exitGroup => exact switching_loads (onExit_loads _ _ _) ho fun _ h => h.loads
  | connect =>
    show Loads self (doConnect env self f k)
    fun_cases doConnect env self f k <;> exact hsame rfl
  | clone =>
    show Loads self (doClone env self f k)
    fun_cases doClone env self f k <;> exact hsame rfl
  | fork =>
    have hfork : SameCurrent k (forkLike env self f.toTrap false k).2 := forkLike_current ..
    show Loads self (doFork env self f k)
    fun_cases doFork env self f k with
    | case1 k' e | case2 n k' e =>
      rw [e] at hfork
      exact hsame hfork
  | execve =>
    show Loads self (doExecve env self f k)
    fun_cases doExecve env self f k
    · exact hsame rfl
    · exact hsame (releaseVforkParent_calm ..).current
  | setuid => exact hsame (doSetuid_rel rfl fun _ _ _ _ => rfl)
  | setgid => exact hsame (doSetgid_rel rfl fun _ _ _ _ => rfl)
  | seteuid => exact hsame (doSeteuid_rel rfl fun _ _ _ _ => rfl)
  | setegid => exact hsame (doSetegid_rel rfl fun _ _ _ _ => rfl)
  | _ => simp [hd, Sys.isLocal] at hl

theorem loadedFrame_eq (hc : k.tasks.current ≠ some i)
    (h : (kernelStep env k op).tasks.current = some i) :
    loadedFrame env k op = some ((kernelStep env k op).tasks.procs i).savedFrame := by
  cases op with
  | machine m => exact absurd h hc
  | spawn r =>
    have hs : (spawn r k.tasks).current = k.tasks.current := by
      fun_cases spawn r k.tasks <;> rfl
    exact absurd (hs.symm.trans h) hc
  | start j =>
    have h' : (start j k.tasks).current = some i := h
    show _ = some ((start j k.tasks).procs i).savedFrame
    unfold start at h' ⊢
    split at h'
    case isTrue hs =>
      cases h'
      rw [if_pos hs, Tasks.enter_same]
      rfl
    case isFalse => exact absurd h' hc
  | timer g => exact congrArg some (onTimer_loads _ g k.tasks i hc h).2
  | call f =>
    cases hcur : k.tasks.current with
    | none =>
      rw [kernelStep_call_none env hcur] at h
      exact absurd h hc
    | some self =>
      have hi : i ≠ self := fun h0 => hc (h0 ▸ hcur)
      have ho : Own self (freePending env self k).tasks :=
        .of_current ((freePending_entered env hcur).current.trans hcur)
      rw [kernelStep_call env hcur] at h ⊢
      obtain ⟨g, hg, hframe⟩ := handle_loads ho i hi h
      unfold loadedFrame dispatch
      rw [hcur]
      dsimp only
      rw [hg, ← hframe]
      rfl

theorem handle_keeps (hc : k.tasks.current = some self) (hi : i ≠ self)
    (he : (k.tasks.procs i).state ≠ .empty)
    (ht : (k.tasks.procs i).state ≠ .terminated)
    (hand : handsOver self f k i → (k.tasks.procs i).state ≠ .blocked) :
    ((handle env self f k).2.tasks.procs i).state ≠ .empty ∧
      ((handle env self f k).2.tasks.procs i).savedFrame = (k.tasks.procs i).savedFrame := by
  have h := (handle_does env (f := f) hc).keeps (P := fun k1 => ((k1.tasks.procs i).state ≠ .empty ∧
    (k1.tasks.procs i).savedFrame = (k.tasks.procs i).savedFrame) ∧
      ((k.tasks.procs i).state ≠ .blocked → (k1.tasks.procs i).state ≠ .blocked)) ?_ ⟨⟨he, rfl⟩, id⟩
  · exact h.1
  rintro k1 k2 a ha hd ⟨⟨h1, h2⟩, h3⟩
  have hhand : a ≠ .hand i := by
    rintro rfl
    cases hd with
    | hand _ _ hb _ _ => exact h3 (hand (acts_allowed env ha)) hb
  have hreap : a ≠ .reap i := by
    rintro rfl
    exact ht (acts_allowed env ha).2
  obtain ⟨h4, h5⟩ := hd.frame hi hhand hreap h1
  exact ⟨⟨h4, h5.trans h2⟩, fun h0 => hd.awake hi (h3 h0)⟩

structure Parked (i : Nat) (fr : TrapFrame) (k : System σ) : Prop where
  current : k.tasks.current ≠ some i
  exists_ : (k.tasks.procs i).state ≠ .empty
  alive : (k.tasks.procs i).state ≠ .terminated
  frame : (k.tasks.procs i).savedFrame = fr

theorem Parked.step (h : Parked i fr k) (hp : takenForParent env k i op = false) :
    ((kernelStep env k op).tasks.procs i).state ≠ .empty ∧
      ((kernelStep env k op).tasks.procs i).savedFrame = fr := by
  have hminds : ∀ {self : Nat} {t : Tasks}, i ≠ self → Minds self k.tasks t →
      (t.procs i).state ≠ .empty ∧ (t.procs i).savedFrame = fr := by
    intro self t hi hm
    obtain ⟨h1, h2⟩ := (hm.others i hi).frame h.exists_
    exact ⟨h1, h2.trans h.frame⟩
  have hne : i ≠ i + 1 := by omega
  cases op with
  | machine m => exact ⟨h.exists_, h.frame⟩
  | spawn r => exact hminds hne (spawn_minds ..)
  | start j => exact hminds hne (start_minds ..)
  | timer g =>
    obtain ⟨self, hi, hself⟩ := exists_interrupted h.current
    have hwake : ((wakeTimedTasks (env.uptimeMs k.mem) k.tasks).procs i).state ≠ .empty ∧
        ((wakeTimedTasks (env.uptimeMs k.mem) k.tasks).procs i).savedFrame = fr := by
      unfold wakeTimedTasks
      dsimp only
      split
      · exact ⟨nofun, h.frame⟩
      · exact ⟨h.exists_, h.frame⟩
    obtain ⟨h1, h2⟩ := ((onTimer_rel (Minds.rule hself) _ g).others i hi).frame hwake.1
    exact ⟨h1, h2.trans hwake.2⟩
  | call f =>
    cases hcur : k.tasks.current with
    | none =>
      rw [kernelStep_call_none env hcur]
      exact ⟨h.exists_, h.frame⟩
    | some self =>
      have hi : i ≠ self := fun h0 => h.current (h0 ▸ hcur)
      have hproc : (freePending env self k).tasks.procs i = k.tasks.procs i := by
        rcases freePending_tasks env self k with h0 | h0
        · rw [h0]
        · rw [h0, Tasks.modify_other _ _ hi]
      have hcur' := (freePending_entered env hcur).current.trans hcur
      simp only [takenForParent, hcur, Option.any_some, Bool.and_eq_false_imp, decide_eq_true_eq,
        decide_eq_false_iff_not] at hp
      rw [← hproc] at hp
      rw [kernelStep_call env hcur, ← h.frame, ← hproc]
      refine handle_keeps hcur' hi ?_ ?_ hp
      · exact hproc ▸ h.exists_
      · exact hproc ▸ h.alive

theorem Parked.resumption (h : Parked i fr k) (ops : List (KernelOp σ))
    (hr : resumption env i k ops = some out) : out = fr := by
  induction ops generalizing k with
  | nil => cases hr
  | cons op ops ih =>
    unfold Kernel.resumption at hr
    dsimp only at hr
    split at hr
    · cases hr
    case isFalse hn =>
      obtain ⟨hp, halive⟩ := not_or.mp hn
      obtain ⟨hexists, hframe⟩ := h.step (Bool.not_eq_true _ ▸ hp)
      split at hr
      case isTrue hcur =>
        exact (Option.some.inj (hr.symm.trans (loadedFrame_eq h.current hcur))).trans hframe
      case isFalse hcur => exact ih ⟨hcur, hexists, halive, hframe⟩ hr

theorem Parked.blocked {p : Process} (hc : k.tasks.current ≠ some i)
    (hp : k.tasks.procs i = p.block)
    (hf : p.savedFrame = fr) : Parked i fr k := by
  refine ⟨hc, ?_, ?_, ?_⟩
  all_goals rw [hp]
  · nofun
  · nofun
  · exact hf

def Wait.returnsZero : Wait → Bool
  | .futex _ | .sleep _ => true
  | _ => false

theorem fallsAsleep_parks (h : fallsAsleep env k (.call f) = some (i, w))
    (hw : w.returnsZero = true) :
    Parked i f.toTrap (kernelStep env k (.call f)) ∧ f.rax ≠ 0 := by
  cases hcur : k.tasks.current with
  | none =>
    unfold fallsAsleep at h
    rw [hcur] at h
    cases h
  | some self =>
    have hcur' := (freePending_entered env hcur).current.trans hcur
    rw [fallsAsleep_call hcur] at h
    rw [kernelStep_call env hcur]
    generalize freePending env self k = k0 at *
    obtain ⟨w', hs, h'⟩ := Option.map_eq_some_iff.mp h
    cases h'
    cases sleeper_puts hs with
    | futex j hd hsw _ heq =>
      obtain ⟨h1, h2, h3⟩ := block_canSwitch hcur' hsw f
      rw [heq, switching_true h1]
      exact ⟨.blocked h3 h2 rfl, fun h0 => absurd (h0 ▸ hd) nofun⟩
    | sleep d hd hsw heq =>
      obtain ⟨h1, h2, h3⟩ := blockUntil_canSwitch hcur' hsw f d
      rw [heq, switching_true h1]
      exact ⟨.blocked h3 h2 rfl, fun h0 => absurd (h0 ▸ hd) nofun⟩
    | read | write | vfork | child => cases hw

theorem resumed_with_zero_iff {w : Wait} (h : fallsAsleep env k (.call f) = some (i, w))
    (hw : w.returnsZero = true)
    (later : List (KernelOp σ)) :
    (∀ out, resumption env i (kernelStep env k (.call f)) later = some out → out.rax = 0) ↔
      resumption env i (kernelStep env k (.call f)) later = none := by
  obtain ⟨hp, hrax⟩ := fallsAsleep_parks h hw
  refine ⟨fun hzero => Option.eq_none_iff_forall_ne_some.mpr fun out hr => hrax ?_, fun hn out hr => ?_⟩
  · have hout := hp.resumption later hr
    have h0 := hzero out hr
    rw [hout] at h0
    exact h0
  · rw [hn] at hr
    cases hr

end

def withChild : List (KernelOp Unit) :=
    [.spawn (.loaded firstImage), .start 0, .call (plainCall 91)]

def childWakes : List (KernelOp Unit) :=
  [.call { plainCall 41 with rsi := 1, rdx := 1 }, .call (plainCall 46)]

theorem resumed_with_zero_iff_sample :
    ¬ ∀ out, resumption flatEnv 0 (kernelStep flatEnv
      (runFrom (kernelStep flatEnv) (bootSystem ()) withChild) (.call (plainCall 41))) childWakes =
        some out → out.rax = 0 := by
  rw [resumed_with_zero_iff (w := .futex 0) (by decide +kernel) rfl childWakes, ← Option.isNone_iff_eq_none]
  decide +kernel

theorem futex_waiter_gets_number :
    (resumption flatEnv 0 (kernelStep flatEnv (runFrom (kernelStep flatEnv) (bootSystem ()) withChild)
      (.call (plainCall 41))) [.call { plainCall 41 with rsi := 1, rdx := 1 },
        .call (plainCall 46)]).map TrapFrame.rax =
      some 41 := by
  decide +kernel

end BlockOS.Kernel
