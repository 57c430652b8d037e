import BlockOS.Kernel.Ids

/-! Credentials over the tree of processes. -/

namespace BlockOS.Kernel
open Words Runs

def Process.unprivileged (p : Process) : Prop := p.uid ≠ 0 ∧ p.euid ≠ 0

theorem Birth.child_root (t : Tasks) (b : Birth) : ¬ (b.child t).uid ≠ 0 := by
  cases b <;> exact fun h => h rfl

section

variable {σ : Type} (env : Env σ)

structure Family (σ : Type) where
  system : System σ
  member : Nat → Bool

def Family.next (s : Family σ) (op : KernelOp σ) (i : Nat) : Bool :=
  match stepChange env s.system op with
  | .born b => if i = b.slot then (b.parent.map s.member).getD false else s.member i
  | .reaped x => if i = x then false else s.member i
  | _ => s.member i

def familyStep (s : Family σ) (op : KernelOp σ) : Family σ :=
  { system := kernelStep env s.system op, member := s.next env op }

def Family.Unprivileged (s : Family σ) : Prop :=
  ∀ i, s.member i = true → (s.system.tasks.procs i).unprivileged

def Family.Childless (s : Family σ) (op : KernelOp σ) : Prop :=
  ∀ b p, stepChange env s.system op = .born b → b.parent = some p → s.member p = false

structure Family.Sound (s : Family σ) : Prop where
  alive : Alive s.system.tasks
  members : ∀ i, s.member i = true → (s.system.tasks.procs i).state ≠ .empty
  unprivileged : s.Unprivileged

variable {i : Nat}

theorem Family.member_of_next (s : Family σ) (hi : s.next env op i = true)
    (hc : s.Childless env op) : s.member i = true ∧ stepChange env s.system op ≠ .reaped i := by
  unfold Family.next at hi
  split at hi
  case h_1 b hb =>
    rw [hb]
    split at hi
    case isTrue =>
      cases hp : b.parent with
      | none =>
        rw [hp] at hi
        cases hi
      | some p =>
        have hm : s.member p = true := by simpa [hp] using hi
        rw [hc b p hb hp] at hm
        cases hm
    case isFalse => exact ⟨hi, nofun⟩
  case h_2 x hx =>
    split at hi
    · cases hi
    case isFalse hne =>
      rw [hx]
      exact ⟨hi, fun h0 => hne (Change.reaped.inj h0).symm⟩
  case h_3 hx => exact ⟨hi, fun h0 => hx i h0⟩

theorem familyStep_sound (h : s.Sound) (op : KernelOp σ) (hc : s.Childless env op) :
    (familyStep env s op).Sound := by
  have hkeep : ∀ i, (familyStep env s op).member i = true →
      ((familyStep env s op).system.tasks.procs i).state ≠ .empty ∧
        ((familyStep env s op).system.tasks.procs i).unprivileged := by
    intro i hi
    obtain ⟨hm, hr⟩ := s.member_of_next env hi hc
    have hk := kernelStep_kept env h.alive (h.members i hm) hr
    obtain ⟨hu, he⟩ := h.unprivileged i hm
    exact ⟨fun h0 => h.members i hm (hk.empty.mp h0), hk.unprivileged hu he⟩
  exact ⟨kernelStep_alive env h.alive op, fun i hi => (hkeep i hi).1, fun i hi => (hkeep i hi).2⟩

theorem familyStep_unprivileged_iff (h : s.Sound) (op : KernelOp σ) :
    s.Childless env op ↔ (familyStep env s op).Unprivileged := by
  refine ⟨fun hc => (familyStep_sound env h op hc).unprivileged, fun hu b p hb hp => ?_⟩
  obtain ⟨_, _, self, u, _, hcore⟩ := kernelStep_born env h.alive hb
  by_contra hm
  have hchild := hu b.slot (by simp [familyStep, Family.next, hb, hp, hm])
  have huid : ((kernelStep env s.system op).tasks.procs b.slot).uid = (b.child u).uid :=
    congrArg Core.uid hcore
  exact b.child_root u (huid ▸ hchild.1)

theorem unprivileged_along_iff (k : System σ) (a : Nat) (h : Alive k.tasks)
    (hl : (k.tasks.procs a).state ≠ .empty) (hu : (k.tasks.procs a).unprivileged)
    (ops : List (KernelOp σ)) :
    Along (familyStep env) (fun s op => (familyStep env s op).Unprivileged)
        { system := k, member := fun i => decide (i = a) } ops ↔
      Along (familyStep env) (Family.Childless env)
        { system := k, member := fun i => decide (i = a) } ops := by
  have hs : Family.Sound { system := k, member := fun i => decide (i = a) } := by
    refine ⟨h, fun i hi => ?_, fun i hi => ?_⟩
    · exact of_decide_eq_true hi ▸ hl
    · exact of_decide_eq_true hi ▸ hu
  exact (Along.congr (I := Family.Sound) (fun s op h => familyStep_unprivileged_iff env h op)
    (fun s op h hc => familyStep_sound env h op hc) ops hs).symm

end

instance (p : Process) : Decidable p.unprivileged := inferInstanceAs (Decidable (_ ∧ _))

def demoted : System Unit :=
  runFrom (kernelStep flatEnv) (bootSystem ())
    [.spawn (.loaded firstImage), .start 0, .call { plainCall 9 with rdi := 1000 }]

theorem demoted_alive : Alive demoted.tasks := by
  have hcur : demoted.tasks.current = some 0 := by decide +kernel
  have hstate : (demoted.tasks.procs 0).state = .running := by decide +kernel
  intro i hi
  cases hcur.symm.trans hi
  exact ⟨nofun, nofun⟩

theorem fork_gains_root : Alive demoted.tasks ∧ (demoted.tasks.procs 0).state ≠ .empty ∧
    (demoted.tasks.procs 0).unprivileged ∧
    ¬ (familyStep flatEnv { system := demoted, member := fun i => decide (i = 0) }
      (.call (plainCall 91))).Unprivileged := by
  refine ⟨demoted_alive, by decide +kernel, by decide +kernel, fun h => ?_⟩
  have hchild : (familyStep flatEnv { system := demoted, member := fun i => decide (i = 0) }
      (.call (plainCall 91))).member 1 = true := by decide +kernel
  have hroot : ((familyStep flatEnv { system := demoted, member := fun i => decide (i = 0) }
      (.call (plainCall 91))).system.tasks.procs 1).uid = 0 := by decide +kernel
  exact (h 1 hchild).1 hroot

theorem unprivileged_along_iff_demoted :
    Along (familyStep flatEnv) (fun s op => (familyStep flatEnv s op).Unprivileged)
        { system := demoted, member := fun i => decide (i = 0) } [.call (plainCall 91)] ↔
      Along (familyStep flatEnv) (Family.Childless flatEnv)
        { system := demoted, member := fun i => decide (i = 0) } [.call (plainCall 91)] :=
  unprivileged_along_iff flatEnv demoted 0 demoted_alive (by decide +kernel) (by decide +kernel) _

end BlockOS.Kernel
