import BlockOS.Kernel.Boundary
import BlockOS.Kernel.Step

/-! The life of a process: what one step of the kernel does to the identities in the table. -/

namespace BlockOS.Kernel
open Words
open Tasks (modify_same modify_other modify_procs)
open Process (disown freed vacate closeOnExec takeOffsets)

inductive Birth where
  | fork (parent slot : Nat) (frame : TrapFrame) (root : Option Word)
  | clone (parent slot : Nat) (f : SyscallFrame)
  | spawn (slot : Nat) (image : ExecImage)

def Birth.slot : Birth → Nat
  | .fork _ slot _ _ | .clone _ slot _ | .spawn slot _ => slot

def Birth.parent : Birth → Option Nat
  | .fork parent _ _ _ | .clone parent _ _ => some parent
  | .spawn _ _ => none

def spawned (slot : Nat) (pid : Word) (image : ExecImage) : Process :=
  { spawnProcess slot pid image.pml4 with
    savedFrame := spawnFrame image, frameValid := true, state := .ready }

def Birth.apply (t : Tasks) : Birth → Tasks
  | .fork parent slot frame root =>
    { t with nextPid := t.nextPid + 1 }.modify slot fun _ =>
      forkChild (t.procs parent) frame root.isNone t.nextPid (root.getD (t.procs parent).pml4) slot
  | .clone parent slot f => cloneInto parent slot f t
  | .spawn slot image =>
    { t.modify slot fun _ => spawned slot t.nextPid image with nextPid := t.nextPid + 1 }

def Birth.child (t : Tasks) : Birth → Process
  | .fork parent slot frame root =>
    forkChild (t.procs parent) frame root.isNone t.nextPid (root.getD (t.procs parent).pml4) slot
  | .clone parent slot f =>
    cloneChild parent (((t.modify slot fun _ => {}).procs parent).disown) f
      (unusedPid (t.modify slot fun _ => {}) (slotCount + 1) (cloneTid (t.modify slot fun _ => {})))
      (cloneTid (t.modify slot fun _ => {})) (cloneStack f)
  | .spawn slot image => spawned slot t.nextPid image

theorem Birth.apply_slot (t : Tasks) (b : Birth) : (b.apply t).procs b.slot = b.child t := by
  cases b with
  | fork parent slot frame root =>
    exact modify_same { t with nextPid := t.nextPid + 1 } slot fun _ =>
      forkChild (t.procs parent) frame root.isNone t.nextPid (root.getD (t.procs parent).pml4) slot
  | clone parent slot f =>
    unfold apply cloneInto child
    dsimp only
    rw [modify_same (t.modify slot fun _ => {}) parent]
    exact modify_same ..
  | spawn slot image => exact modify_same t slot fun _ => spawned slot t.nextPid image

theorem Birth.apply_other (t : Tasks) (b : Birth) (hi : i ≠ b.slot) :
    (b.apply t).procs i = t.procs i ∨ (b.apply t).procs i = (t.procs i).disown := by
  cases b with
  | fork parent slot frame root =>
    exact .inl (modify_other { t with nextPid := t.nextPid + 1 } (fun _ =>
      forkChild (t.procs parent) frame root.isNone t.nextPid (root.getD (t.procs parent).pml4) slot) hi)
  | clone parent slot f =>
    have hclear : (t.modify slot fun _ => {}).procs i = t.procs i := modify_other _ _ hi
    have hlast : (apply t (.clone parent slot f)).procs i =
        ((t.modify slot fun _ => {}).modify parent disown).procs i := by
      unfold apply cloneInto
      exact modify_other _ _ hi
    rw [hlast]
    by_cases hp : i = parent
    · subst hp
      rw [modify_same, hclear]
      exact .inr rfl
    · rw [modify_other _ _ hp]
      exact .inl hclear
  | spawn slot image => exact .inl (modify_other t (fun _ => spawned slot t.nextPid image) hi)

section

variable {σ : Type} (env : Env σ)

inductive Change where
  | none
  | exec (image : ExecImage)
  | born (b : Birth)
  | reaped (x : Nat)

def changeOf (self : Nat) (f : SyscallFrame) (k : System σ) : Change :=
  match decode f.rax with
  | .fork =>
    let pml4 := (env.cloneForFork k.mem (k.tasks.procs self).pml4).1
    k.tasks.freeSlot.elim .none fun slot =>
      if pml4 = 0 then .none else .born (.fork self slot f.toTrap (some pml4))
  | .vfork => k.tasks.freeSlot.elim .none fun slot =>
      .born (.fork self slot f.toTrap none)
  | .clone => k.tasks.freeSlot.elim .none fun slot =>
      if cloneStack f = 0 ∨ k.userRange env (cloneStack f - 8) 8 true = false then .none
      else .born (.clone self slot f)
  | .execve => (env.execImage k f).1.elim .none .exec
  | .wait4 => (findTerminated k.tasks self (wantedPid f)).elim .none .reaped
  | _ => .none

inductive Handled (self : Nat) (t : Tasks) : Change → Tasks → Prop where
  | held {t' : Tasks} (h : Held t t') : Handled self t .none t'
  | ids (uid euid gid egid : BitVec 32)
      (hroot : (t.procs self).uid ≠ 0 → (t.procs self).euid ≠ 0 → uid ≠ 0 ∧ euid ≠ 0) :
      Handled self t .none (t.modify self (Process.withIds uid euid gid egid))
  | exec (image : ExecImage) {t' : Tasks}
      (h : Held { t.modify self (Process.exec image) with cr3 := image.pml4 &&& addrMask } t') :
      Handled self t (.exec image) t'
  | spent (slot : Nat) (hslot : t.freeSlot = some slot) (p : Process) (hp : p.state = .empty) :
      Handled self t .none ({ t with nextPid := t.nextPid + 1 }.modify slot fun _ => p)
  | born (b : Birth) (hslot : t.freeSlot = some b.slot) {t' : Tasks} (h : Held (b.apply t) t') :
      Handled self t (.born b) t'
  | reaped (x : Nat) (g : Process → Process) (hg : g = id ∨ g = freed)
      (hx : (t.procs x).state = .terminated) {t' : Tasks}
      (h : Held ((t.modify x g).modify x vacate) t') : Handled self t (.reaped x) t'

theorem Alive.block (h : Alive t) (hc : t.current = some self) :
    Held t (t.modify self Process.block) := by
  have hs : Steady t (t.modify self Process.block) :=
    .modify _ _ rfl ⟨nofun, fun h0 => absurd h0 (h self hc).1⟩
  refine ⟨hs, Loaded.of_core hs.core rfl rfl, fun i hi => ?_⟩
  cases hc.symm.trans hi
  rw [modify_same]
  exact ⟨nofun, nofun⟩

theorem blocked_end_held (h : Alive t) (hc : t.current = some self) (g : SyscallFrame)
    (k : System σ) : Held t (k.switching (blockFromSyscall g (t.modify self Process.block))
      fun k => (.frame g, k)).2.tasks := by
  have h1 := h.block hc
  have h2 := h1.trans (block_quiet h1.alive g).toHeld
  unfold System.switching
  dsimp only
  split <;> exact h2

theorem SetsIds.handled (h : SetsIds self t t') (ha : Alive t) : Handled self t .none t' := by
  rcases h with rfl | ⟨uid, euid, gid, egid, rfl, hroot⟩
  · exact .held (.refl ha)
  · exact .ids uid euid gid egid hroot

theorem Alive.freeSlot_ne (h : Alive t) (hc : t.current = some self)
    (hslot : t.freeSlot = some slot) : slot ≠ self := by
  rintro rfl
  exact (h slot hc).1 (freeSlot_spec hslot).2

theorem Birth.alive (h : Alive t) (b : Birth) (hslot : t.freeSlot = some b.slot) :
    Alive (b.apply t) := by
  have hne : t.current ≠ some b.slot := fun h0 => h.freeSlot_ne h0 hslot rfl
  cases b with
  | fork parent slot frame root =>
    exact Alive.modify_other (t := { t with nextPid := t.nextPid + 1 }) h hne
  | clone parent slot f =>
    have h1 : Alive (t.modify slot fun _ => {}) := h.modify_other hne
    have h2 : Alive ((t.modify slot fun _ => {}).modify parent disown) := by
      intro i hi
      have h3 := h1 i hi
      by_cases hip : i = parent
      · subst hip
        rw [modify_same]
        exact h3
      · rw [modify_other _ _ hip]
        exact h3
    exact h2.modify_other hne
  | spawn slot image =>
    have h1 : Alive (t.modify slot fun _ => spawned slot t.nextPid image) := h.modify_other hne
    exact h1

theorem doClone_handled (h : Alive k.tasks) (hd : decode f.rax = .clone) :
    Handled self k.tasks (changeOf env self f k) (doClone env self f k).2.tasks := by
  unfold doClone changeOf
  rw [hd]
  dsimp only
  cases hslot : k.tasks.freeSlot with
  | none =>
    split
    · exact .held (.refl h)
    · exact .held (.refl h)
  | some slot =>
    rw [Option.elim_some]
    by_cases hargs : cloneStack f = 0 ∨ k.userRange env (cloneStack f - 8) 8 true = false
    · rw [if_pos hargs, if_pos hargs]
      exact .held (.refl h)
    rw [if_neg hargs, if_neg hargs]
    have ha := Birth.alive h (.clone self slot f) hslot
    exact .born (.clone self slot f) hslot (.refl ha)

theorem doFork_handled (h : Alive k.tasks) (hd : decode f.rax = .fork) :
    Handled self k.tasks (changeOf env self f k) (doFork env self f k).2.tasks := by
  unfold doFork changeOf forkLike
  rw [hd]
  dsimp only
  cases hslot : k.tasks.freeSlot with
  | none => exact .held (.refl h)
  | some slot =>
    simp only [Bool.false_eq_true, if_false, Option.elim_some]
    by_cases hroot : (env.cloneForFork k.mem (k.tasks.procs self).pml4).1 = 0
    · rw [if_pos hroot, if_pos hroot]
      exact .spent slot hslot _ rfl
    rw [if_neg hroot, if_neg hroot]
    generalize (env.cloneForFork k.mem (k.tasks.procs self).pml4).1 = pml4
    have ha := Birth.alive h (.fork self slot f.toTrap (some pml4)) hslot
    exact .born (.fork self slot f.toTrap (some pml4)) hslot (.refl ha)

theorem doVfork_handled (h : Alive k.tasks) (hc : k.tasks.current = some self)
    (hd : decode f.rax = .vfork) :
    Handled self k.tasks (changeOf env self f k) (doVfork env self f k).2.tasks := by
  unfold doVfork changeOf forkLike
  rw [hd]
  dsimp only
  cases hslot : k.tasks.freeSlot with
  | none => exact .held (.refl h)
  | some slot =>
    have ha := Birth.alive h (.fork self slot f.toTrap none) hslot
    exact .born (.fork self slot f.toTrap none) hslot (blocked_end_held ha hc _ _)

theorem Held.of_same (hcore : ∀ i, (t'.procs i).core = (t.procs i).core)
    (hstate : ∀ i, (t'.procs i).state = (t.procs i).state) (hcur : t'.current = t.current)
    (hcr3 : t'.cr3 = t.cr3) (hpid : t'.nextPid = t.nextPid) (h : Alive t) : Held t t' := by
  have hcalm : Calm t t' := ⟨hcore, fun i => .inl (hstate i), hcur, hcr3, hpid⟩
  exact (hcalm.quiet h).toHeld

theorem exec_held (h : Alive t) (image : ExecImage) (owner : Nat) :
    Held { t.modify s (Process.exec image) with cr3 := image.pml4 &&& addrMask }
      { (t.modify owner closeOnExec).modify s (Process.exec image) with
        cr3 := image.pml4 &&& addrMask } := by
  refine .of_same (fun i => ?_) (fun i => ?_) rfl rfl rfl ?_
  · simp only [modify_procs]
    split <;> split <;> first | rfl | (subst_vars; rfl)
  · simp only [modify_procs]
    split <;> split <;> first | rfl | (subst_vars; rfl)
  intro i hi
  have h0 := h i hi
  simp only [modify_procs]
  split
  case isTrue hs => exact hs ▸ h0
  case isFalse => exact h0

theorem doExecve_handled (h : Alive k.tasks) (hd : decode f.rax = .execve) :
    Handled self k.tasks (changeOf env self f k) (doExecve env self f k).2.tasks := by
  unfold doExecve changeOf
  rw [hd]
  dsimp only
  split
  case h_1 m he =>
    rw [he]
    exact .held (.refl h)
  case h_2 image m he =>
    rw [he]
    have h1 := exec_held (s := self) h image (k.tasks.fdOwner self)
    refine .exec image (h1.trans ?_)
    dsimp only
    generalize (k.tasks.modify (k.tasks.fdOwner self) closeOnExec).modify self
      (Process.exec image) = u at h1 ⊢
    have hc := releaseVforkParent_calm self u
    have hc' : Calm { u with cr3 := image.pml4 &&& addrMask }
        { releaseVforkParent self u with cr3 := image.pml4 &&& addrMask } :=
      ⟨hc.core, hc.state, hc.current, rfl, hc.nextPid⟩
    exact (hc'.quiet h1.alive).toHeld

theorem reaped_held (h : Alive t) (hx : t.current ≠ some x) (owner : Nat)
    (fds : Nat → RuntimeFd) (hg : g = id ∨ g = freed) :
    Held ((t.modify x g).modify x vacate)
      (((t.modify owner (takeOffsets fds)).modify x g).modify x vacate) := by
  have hcore : ∀ p, (g (takeOffsets fds p)).core = (g p).core := by
    rcases hg with rfl | rfl <;> exact fun _ => rfl
  have hvac : ∀ p q : Process, p.core = q.core → p.vacate.core = q.vacate.core := fun _ _ h => h
  refine .of_same (fun i => ?_) (fun i => ?_) rfl rfl rfl ?_
  · by_cases hi : i = x
    · subst hi
      simp only [modify_same]
      rw [modify_procs]
      split
      case isTrue h0 => exact hvac _ _ (h0 ▸ hcore _)
      case isFalse => rfl
    · simp only [modify_other _ _ hi, modify_procs]
      split
      case isTrue h0 => exact h0 ▸ rfl
      case isFalse => rfl
  · by_cases hi : i = x
    · subst hi
      simp only [modify_same]
      rfl
    · simp only [modify_other _ _ hi, modify_procs]
      split
      case isTrue h0 => exact h0 ▸ rfl
      case isFalse => rfl
  · have h1 : Alive (t.modify x g) := h.modify_other hx
    exact h1.modify_other hx

theorem doWait4_handled (h : Alive k.tasks) (hc : k.tasks.current = some self)
    (hd : decode f.rax = .wait4) :
    Handled self k.tasks (changeOf env self f k) (doWait4 env self f k).2.tasks := by
  have hend : ∀ k' : System σ, k'.tasks.current = some self → Alive k'.tasks →
      Held k'.tasks (waitForChild self f k').2.tasks := by
    intro k' hc' ha
    have hq := ((Calm.modify k'.tasks self (g := Process.awaitChild f) rfl (.inl rfl)).quiet ha).toHeld
    exact hq.trans (blocked_end_held hq.alive hc' _ _)
  unfold doWait4 scanChildren changeOf
  rw [hd]
  dsimp only
  cases hx : findTerminated k.tasks self (wantedPid f) with
  | none =>
    refine .held ?_
    simp only [ne_eq, not_true_eq_false, if_false]
    split
    · exact .refl h
    split
    · exact .refl h
    · exact hend k hc h
  | some x =>
    have hterm := (findTerminated_spec hx).2.1
    have hcur : k.tasks.current ≠ some x := fun h0 => (h x h0).2 hterm
    obtain ⟨g, hg, ht⟩ := reap_tasks env self x f k
    have hr : Held ((k.tasks.modify x g).modify x vacate) (reap env self x f k).tasks := by
      rw [ht]
      exact reaped_held h hcur _ _ hg
    have hrc : (reap env self x f k).tasks.current = some self := by
      rw [ht]
      exact hc
    refine .reaped x g hg hterm ?_
    dsimp only
    split
    · exact hr
    split
    · exact hr
    split
    · exact hr
    · exact hr.trans (hend _ hrc hr.alive)

theorem handle_handled (h : Alive k.tasks) (hc : k.tasks.current = some self) :
    Handled self k.tasks (changeOf env self f k) (handle env self f k).2.tasks := by
  by_cases hp : (decode f.rax).plain = true
  · have hq : Quiet k.tasks (handle env self f k).2.tasks := handle_quiet env h hp
    have hn : changeOf env self f k = .none := by
      unfold changeOf
      cases hd : decode f.rax <;> first | rfl | (rw [hd] at hp; cases hp)
    rw [hn]
    exact .held hq.toHeld
  · unfold handle
    cases hd : decode f.rax with
    | setuid => simpa only [changeOf, hd] using doSetuid_ids.handled h
    | setgid => simpa only [changeOf, hd] using doSetgid_ids.handled h
    | seteuid => simpa only [changeOf, hd] using doSeteuid_ids.handled h
    | setegid => simpa only [changeOf, hd] using doSetegid_ids.handled h
    | clone => exact doClone_handled env h hd
    | execve => exact doExecve_handled env h hd
    | fork => exact doFork_handled env h hd
    | vfork => exact doVfork_handled env h hc hd
    | wait4 => exact doWait4_handled env h hc hd
    | exit | exitGroup => simpa only [changeOf, hd] using .held (doExit_settled env h hc).toHeld
    | _ =>
      rw [hd] at hp
      exact absurd rfl hp

def stepChange (k : System σ) : KernelOp σ → Change
  | .call f => k.tasks.current.elim .none fun self => changeOf env self f (freePending env self k)
  | .spawn (.loaded image) => k.tasks.freeSlot.elim .none fun slot => .born (.spawn slot image)
  | _ => .none

theorem elim_born {α : Type} {o : Option α} {g : α → Change}
    (h : o.elim .none g = .born b) : ∃ a, o = some a ∧ g a = .born b := by
  cases o with
  | none => cases h
  | some a => exact ⟨a, rfl, h⟩

theorem changeOf_parent (h : changeOf env self f k = .born b) (hp : b.parent = some p) : p = self := by
  unfold changeOf at h
  split at h
  · obtain ⟨slot, _, hb⟩ := elim_born h
    split at hb
    · cases hb
    · cases hb
      exact (Option.some.inj hp).symm
  · obtain ⟨slot, _, hb⟩ := elim_born h
    cases hb
    exact (Option.some.inj hp).symm
  · obtain ⟨slot, _, hb⟩ := elim_born h
    split at hb
    · cases hb
    · cases hb
      exact (Option.some.inj hp).symm
  · obtain ⟨image, _, hb⟩ := elim_born h
    cases hb
  · obtain ⟨x, _, hb⟩ := elim_born h
    cases hb
  · cases h

theorem stepChange_parent (h : stepChange env k op = .born b)
    (hp : b.parent = some p) : k.tasks.current = some p := by
  unfold stepChange at h
  split at h
  · obtain ⟨self, hc, hb⟩ := elim_born h
    rw [hc, changeOf_parent env hb hp]
  · obtain ⟨slot, _, hb⟩ := elim_born h
    cases hb
    cases hp
  · cases h

inductive Entered (t : Tasks) : Nat → Tasks → Prop where
  | same (self : Nat) : Entered t self t
  | dropped (self : Nat) (hc : t.current = some self) : Entered t self (t.modify self Process.clearPending)

theorem Entered.alive (he : Entered t self u) (h : Alive t) : Alive u := by
  cases he with
  | same => exact h
  | dropped =>
    intro i hi
    rw [modify_procs]
    split
    case isTrue h0 => exact h0 ▸ h i hi
    case isFalse => exact h i hi

theorem Entered.current (he : Entered t self u) : u.current = t.current := by
  cases he <;> rfl

theorem freePending_entered (hc : k.tasks.current = some self) :
    Entered k.tasks self (freePending env self k).tasks := by
  rcases freePending_tasks env self k with h0 | h0
  · rw [h0]
    exact .same self
  · rw [h0]
    exact .dropped self hc

theorem spawn_handled (h : Alive t) (r : SpawnResult) (k : System σ) (hk : k.tasks = t) :
    Handled self t (stepChange env k (.spawn r)) (spawn r t) := by
  subst hk
  unfold spawn stepChange
  cases hslot : k.tasks.freeSlot with
  | none => cases r <;> exact .held (.refl h)
  | some slot =>
    cases r with
    | early => exact .held (.refl h)
    | late pml4 => exact .spent slot hslot _ rfl
    | loaded image =>
      exact .born (.spawn slot image) hslot (.refl (Birth.alive h (.spawn slot image) hslot))

theorem start_held (h : Alive t) (i : Nat) : Held t (start i t) := by
  unfold start
  split
  case isTrue h0 =>
    have hne : (t.procs i).state ≠ .empty := fun h1 => absurd (h0.2.2.symm.trans h1) nofun
    exact ⟨.enter t hne, fun _ => Loaded.enter _ _, Alive.enter _ _⟩
  case isFalse => exact .refl h

theorem kernelStep_handled (h : Alive k.tasks) (op : KernelOp σ) : ∃ self u,
    Entered k.tasks self u ∧
      Handled self u (stepChange env k op) (kernelStep env k op).tasks := by
  cases op with
  | call f =>
    unfold stepChange kernelStep dispatch
    cases hc : k.tasks.current with
    | none => exact ⟨0, _, .same 0, .held (.refl h)⟩
    | some self =>
      have he := freePending_entered env hc
      exact ⟨self, _, he, handle_handled env (he.alive h) (he.current.trans hc)⟩
  | timer f => exact ⟨0, _, .same 0, .held (onTimer_quiet h _ f).toHeld⟩
  | spawn r => exact ⟨0, _, .same 0, spawn_handled env h r k rfl⟩
  | start i => exact ⟨0, _, .same 0, .held (start_held h i)⟩
  | machine m => exact ⟨0, _, .same 0, .held (.refl h)⟩

theorem Handled.alive (h : Handled self t c t') (ha : Alive t) : Alive t' := by
  cases h with
  | held h | exec _ h | born _ _ h | reaped _ _ _ _ h => exact h.alive
  | ids uid euid gid egid hroot =>
    intro i hi
    rw [modify_procs]
    split
    case isTrue h0 => exact h0 ▸ ha i hi
    case isFalse => exact ha i hi
  | spent slot hslot p hp =>
    exact Alive.modify_other (t := { t with nextPid := t.nextPid + 1 }) ha
      fun h0 => ha.freeSlot_ne h0 hslot rfl

theorem kernelStep_alive (h : Alive k.tasks) (op : KernelOp σ) :
    Alive (kernelStep env k op).tasks := by
  obtain ⟨self, u, he, hh⟩ := kernelStep_handled env h op
  exact hh.alive (he.alive h)

theorem boot_alive : Alive bootTasks := Alive.none rfl

structure Kept (p p' : Process) : Prop where
  empty : p'.state = .empty ↔ p.state = .empty
  pid : p'.pid = p.pid
  tid : p'.tid = p.tid
  parentPid : p'.parentPid = p.parentPid
  fdOwner : p'.fdOwner = p.fdOwner
  unprivileged : p.uid ≠ 0 → p.euid ≠ 0 → p'.uid ≠ 0 ∧ p'.euid ≠ 0

theorem Kept.refl (p : Process) : Kept p p := ⟨Iff.rfl, rfl, rfl, rfl, rfl, fun hu he => ⟨hu, he⟩⟩

theorem Kept.trans (h : Kept p p') (h' : Kept p' p'') : Kept p p'' :=
  ⟨h'.empty.trans h.empty, h'.pid.trans h.pid, h'.tid.trans h.tid, h'.parentPid.trans h.parentPid,
    h'.fdOwner.trans h.fdOwner, fun hu he =>
      have h0 := h.unprivileged hu he
      h'.unprivileged h0.1 h0.2⟩

theorem Steady.kept (h : Steady t t') (i : Nat) : Kept (t.procs i) (t'.procs i) := by
  have hc := h.core i
  have hu : (t'.procs i).uid = (t.procs i).uid := congrArg Core.uid hc
  have he : (t'.procs i).euid = (t.procs i).euid := congrArg Core.euid hc
  exact ⟨h.empty i, congrArg Core.pid hc, congrArg Core.tid hc, congrArg Core.parentPid hc,
    congrArg Core.fdOwner hc, fun h1 h2 => ⟨hu ▸ h1, he ▸ h2⟩⟩

theorem Kept.modify (t : Tasks) (j : Nat)
    (hg : i = j → Kept (t.procs j) (g (t.procs j))) : Kept (t.procs i) ((t.modify j g).procs i) := by
  by_cases hij : i = j
  · have h := hg hij
    subst hij
    rw [modify_same]
    exact h
  · rw [modify_other t g hij]
    exact .refl _

theorem Entered.kept (h : Entered t self t') (i : Nat) : Kept (t.procs i) (t'.procs i) := by
  cases h with
  | same => exact .refl _
  | dropped =>
    exact .modify t self fun _ => ⟨Iff.rfl, rfl, rfl, rfl, rfl, fun hu he => ⟨hu, he⟩⟩

theorem Handled.kept (h : Handled self t c t') (hi : (t.procs i).state ≠ .empty)
    (hr : c ≠ .reaped i) : Kept (t.procs i) (t'.procs i) := by
  cases h with
  | held h => exact h.toSteady.kept i
  | ids uid euid gid egid hroot =>
    exact .modify t self fun _ => ⟨Iff.rfl, rfl, rfl, rfl, rfl, hroot⟩
  | exec image h =>
    have h1 : Kept (t.procs i) ((t.modify self (Process.exec image)).procs i) :=
      .modify t self fun _ => ⟨Iff.rfl, rfl, rfl, rfl, rfl, fun hu he => ⟨hu, he⟩⟩
    exact h1.trans (h.toSteady.kept i)
  | spent slot hslot p hp =>
    have hne : i ≠ slot := fun h1 => hi (h1 ▸ (freeSlot_spec hslot).2)
    exact .modify { t with nextPid := t.nextPid + 1 } slot fun h0 => absurd h0 hne
  | born b hslot h =>
    have hne : i ≠ b.slot := fun h1 => hi (h1 ▸ (freeSlot_spec hslot).2)
    have h1 : Kept (t.procs i) ((b.apply t).procs i) := by
      rcases b.apply_other t hne with h1 | h1
      · rw [h1]
        exact .refl _
      · rw [h1]
        exact ⟨Iff.rfl, rfl, rfl, rfl, rfl, fun hu he => ⟨hu, he⟩⟩
    exact h1.trans (h.toSteady.kept i)
  | reaped x g hg hx h =>
    have hix : i ≠ x := fun h0 => hr (h0 ▸ rfl)
    have h1 : Kept (t.procs i) (((t.modify x g).modify x vacate).procs i) :=
      (Kept.modify t x fun h0 => absurd h0 hix).trans (.modify _ x fun h0 => absurd h0 hix)
    exact h1.trans (h.toSteady.kept i)

theorem Handled.empty (h : Handled self t c t') (hi : (t.procs i).state = .empty)
    (hb : ∀ b, c = .born b → i ≠ b.slot) : (t'.procs i).state = .empty := by
  cases h with
  | held h => exact (h.empty i).mpr hi
  | ids uid euid gid egid hroot =>
    rw [modify_procs]
    split
    case isTrue h0 => exact h0 ▸ hi
    case isFalse => exact hi
  | exec image h =>
    refine (h.empty i).mpr ?_
    simp only [modify_procs]
    split
    case isTrue h0 => exact h0 ▸ hi
    case isFalse => exact hi
  | spent slot hslot p hp =>
    rw [modify_procs]
    split
    · exact hp
    · exact hi
  | born b hslot h =>
    refine (h.empty i).mpr ?_
    rcases b.apply_other t (hb b rfl) with h1 | h1
    · rw [h1]
      exact hi
    · rw [h1]
      exact hi
  | reaped x g hg hx h =>
    refine (h.empty i).mpr ?_
    have hix : i ≠ x := fun h0 => absurd ((h0 ▸ hi).symm.trans hx) nofun
    rw [modify_other _ _ hix, modify_other _ _ hix]
    exact hi

theorem Handled.reaped_spec (h : Handled self t (.reaped x) t') :
    (t.procs x).state = .terminated ∧ (t'.procs x).state = .empty := by
  cases h with
  | reaped _ g hg hx h =>
    refine ⟨hx, (h.empty x).mpr ?_⟩
    rw [modify_same]
    rfl

theorem Handled.born_spec (h : Handled self t (.born b) t') :
    t.freeSlot = some b.slot ∧ (t'.procs b.slot).state ≠ .empty ∧ (t'.procs b.slot).core =
      (b.child t).core := by
  cases h with
  | born _ hslot h =>
    have hchild := b.apply_slot t
    have hready : (b.child t).state = .ready := by cases b <;> rfl
    refine ⟨hslot, fun h0 => ?_, hchild ▸ h.core b.slot⟩
    have h1 := (h.empty b.slot).mp h0
    rw [hchild, hready] at h1
    cases h1

theorem kernelStep_kept (h : Alive k.tasks) (hi : (k.tasks.procs i).state ≠ .empty)
    (hr : stepChange env k op ≠ .reaped i) :
    Kept (k.tasks.procs i) ((kernelStep env k op).tasks.procs i) := by
  obtain ⟨self, u, he, hh⟩ := kernelStep_handled env h op
  have hk := he.kept i
  exact hk.trans (hh.kept (fun h0 => hi (hk.empty.mp h0)) hr)

theorem kernelStep_empty (h : Alive k.tasks) (hi : (k.tasks.procs i).state = .empty)
    (hb : ∀ b, stepChange env k op = .born b → i ≠ b.slot) :
    ((kernelStep env k op).tasks.procs i).state = .empty := by
  obtain ⟨self, u, he, hh⟩ := kernelStep_handled env h op
  exact hh.empty ((he.kept i).empty.mpr hi) hb

theorem kernelStep_reaped (h : Alive k.tasks) (hx : stepChange env k op = .reaped i) :
    (k.tasks.procs i).state ≠ .empty ∧ ((kernelStep env k op).tasks.procs i).state = .empty := by
  obtain ⟨self, u, he, hh⟩ := kernelStep_handled env h op
  rw [hx] at hh
  obtain ⟨ht, hempty⟩ := hh.reaped_spec
  refine ⟨fun h0 => ?_, hempty⟩
  exact absurd (ht.symm.trans ((he.kept i).empty.mpr h0)) nofun

theorem kernelStep_born (h : Alive k.tasks) (hb : stepChange env k op = .born b) :
    (k.tasks.procs b.slot).state = .empty ∧ ((kernelStep env k op).tasks.procs b.slot).state ≠
      .empty ∧ ∃ self u, Entered k.tasks self u ∧ ((kernelStep env k op).tasks.procs b.slot).core =
        (b.child u).core := by
  obtain ⟨self, u, he, hh⟩ := kernelStep_handled env h op
  rw [hb] at hh
  obtain ⟨hslot, hne, hcore⟩ := hh.born_spec
  exact ⟨(he.kept b.slot).empty.mp (freeSlot_spec hslot).2, hne, self, u, he, hcore⟩

end

end BlockOS.Kernel
