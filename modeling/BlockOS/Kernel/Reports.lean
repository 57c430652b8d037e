import BlockOS.Kernel.Ids

/-! How the end of a process is reported to its parent. -/

namespace BlockOS.Kernel
open Words Runs Function

section

variable {σ : Type} (env : Env σ)

def leaving (self : Nat) (f : SyscallFrame) (k : System σ) : System σ :=
  let k := releaseProcessFds self k
  let k := { k with tasks := releaseVforkParent self k.tasks }
  k.modify self (Process.exitWith f.rdi)

def handsOverTo (self : Nat) (k : System σ) : Option Nat :=
  (k.tasks.get (k.tasks.procs self).parentPid).filter fun i =>
    decide (waitsFor (k.tasks.procs i) (k.tasks.procs self).pid)

def blocksInWait (self : Nat) (f : SyscallFrame) (k : System σ) : Bool :=
  decide (decode f.rax = .wait4) && decide ((scanChildren env self f k).1 = echild) &&
    (List.range slotCount).any (isChild k.tasks self) && decide (f.r10 &&& wnohang = 0)

structure Reported (σ : Type) where
  system : System σ
  inWait : Nat → Bool
  told : Nat → Nat

def Reported.teller (s : Reported σ) : KernelOp σ → Option Nat
  | .call f => s.system.tasks.current.filter fun self =>
      (decide (decode f.rax = .exit) || decide (decode f.rax = .exitGroup)) &&
        (handsOverTo self (leaving self f (freePending env self s.system))).any s.inWait
  | _ => none

def Reported.waits (s : Reported σ) : KernelOp σ → Nat → Bool
  | .call f => fun i =>
    if s.system.tasks.current = some i then blocksInWait env i f (freePending env i s.system)
    else s.inWait i
  | _ => s.inWait

def reportedStep (s : Reported σ) (op : KernelOp σ) : Reported σ :=
  let told := fun i => if s.teller env op = some i then s.told i + 1 else s.told i
  { system := kernelStep env s.system op
    inWait := match stepChange env s.system op with
      | .born b => update (s.waits env op) b.slot false
      | _ => s.waits env op
    told := match stepChange env s.system op with
      | .born b => update told b.slot 0
      | .reaped x => update told x (told x + 1)
      | _ => told }

def bootReported (m : σ) : Reported σ :=
  { system := bootSystem m, inWait := fun _ => false, told := fun _ => 0 }

def Reported.Once (s : Reported σ) : Prop :=
  ∀ i, s.told i = 0 ∨ (s.told i = 1 ∧ (s.system.tasks.procs i).state = .empty)

variable {s : Reported σ} {op : KernelOp σ} {i : Nat}

theorem Reported.teller_spec (h : s.teller env op = some i) :
    s.system.tasks.current = some i ∧ stepChange env s.system op = .none := by
  cases op with
  | call f =>
    obtain ⟨hc, hp⟩ := Option.filter_eq_some_iff.mp h
    refine ⟨hc, ?_⟩
    simp only [Bool.and_eq_true, Bool.or_eq_true, decide_eq_true_eq] at hp
    simp only [stepChange, hc, Option.elim_some, changeOf]
    rcases hp.1 with hd | hd
    · rw [hd]
    · rw [hd]
  | timer | spawn | start | machine => cases h

theorem reportedStep_once_of_none (ha : Alive s.system.tasks) (ho : s.Once)
    (ht : s.teller env op = none) : (reportedStep env s op).Once := by
  have hstay : ∀ i, (s.system.tasks.procs i).state = .empty →
      (∀ b, stepChange env s.system op = .born b → i ≠ b.slot) →
      ((kernelStep env s.system op).tasks.procs i).state = .empty :=
    fun i hi hb => kernelStep_empty env ha hi hb
  intro i
  simp only [reportedStep, ht, reduceCtorEq, if_false]
  cases hc : stepChange env s.system op with
  | none | exec =>
    refine (ho i).imp id fun h => ⟨h.1, hstay i h.2 fun b hb => ?_⟩
    rw [hc] at hb
    cases hb
  | born b =>
    by_cases hib : i = b.slot
    · subst hib
      exact .inl (update_self ..)
    simp only [update_of_ne hib]
    refine (ho i).imp id fun h => ⟨h.1, hstay i h.2 fun c hb => ?_⟩
    cases hc.symm.trans hb
    exact hib
  | reaped x =>
    obtain ⟨hne, hempty⟩ := kernelStep_reaped env ha hc
    by_cases hix : i = x
    · subst hix
      -- it was there, so it had not been reported
      have h0 : s.told i = 0 := (ho i).resolve_right fun h => hne h.2
      simp only [update_self, h0]
      exact .inr ⟨trivial, hempty⟩
    · simp only [update_of_ne hix]
      refine (ho i).imp id fun h => ⟨h.1, hstay i h.2 fun b hb => ?_⟩
      rw [hc] at hb
      cases hb

theorem reportedStep_once_iff (ha : Alive s.system.tasks) (ho : s.Once) :
    s.teller env op = none ↔ (reportedStep env s op).Once := by
  refine ⟨reportedStep_once_of_none env ha ho, fun h => ?_⟩
  cases ht : s.teller env op with
  | none => rfl
  | some i =>
    obtain ⟨hcur, hch⟩ := Reported.teller_spec env ht
    have hne := (ha i hcur).1
    have h0 : s.told i = 0 := (ho i).resolve_right fun h => hne h.2
    have hk := kernelStep_kept env ha hne
      (show stepChange env s.system op ≠ .reaped i by rw [hch]; nofun)
    have hone : (reportedStep env s op).told i = 1 := by
      simp only [reportedStep, hch, ht, if_true, h0]
    rcases h i with h1 | h1
    · rw [hone] at h1
      cases h1
    · exact absurd (hk.empty.mp h1.2) hne

theorem once_along_iff (m : σ) (ops : List (KernelOp σ)) :
    Along (reportedStep env) (fun s op => (reportedStep env s op).Once) (bootReported m) ops ↔
      Along (reportedStep env) (fun s op => s.teller env op = none) (bootReported m) ops := by
  refine (Along.congr (I := fun s => Alive s.system.tasks ∧ s.Once) ?_ ?_ ops ⟨boot_alive,
    fun _ => .inl rfl⟩).symm
  · exact fun s op h => reportedStep_once_iff env h.1 h.2
  · exact fun s op h ht => ⟨kernelStep_alive env h.1 op, reportedStep_once_of_none env h.1 h.2 ht⟩

end

def waitTwice : List (KernelOp Unit) :=
  [.spawn (.loaded firstImage), .start 0, .call (plainCall 91),
    .call { plainCall 43 with rdi := -1 }, .call (plainCall 44),
    .call { plainCall 43 with rdi := -1 }]

theorem child_reported_twice : (runFrom (reportedStep flatEnv) (bootReported ()) waitTwice).told 1 =
    2 ∧
      ¬ (runFrom (reportedStep flatEnv) (bootReported ()) waitTwice).Once := by
  have h : (runFrom (reportedStep flatEnv) (bootReported ()) waitTwice).told 1 = 2 := by decide +kernel
  refine ⟨h, fun ho => ?_⟩
  rcases ho 1 with h0 | h0
  · rw [h] at h0
    cases h0
  · rw [h] at h0
    cases h0.1

end BlockOS.Kernel
