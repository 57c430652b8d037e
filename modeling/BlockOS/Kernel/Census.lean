import BlockOS.Kernel.Ids

/-! The process table over whole runs of the kernel: who is in it and how many. -/

namespace BlockOS.Kernel
open Runs

section

variable (env : Env σ)

theorem process_kept_until_reaped (m : σ) (before ops : List (KernelOp σ)) (k : System σ) (i : Nat)
    (hk : k = runFrom (kernelStep env) (bootSystem m) before) (hi : (k.tasks.procs i).state ≠ .empty)
    (hr : Along (kernelStep env) (fun k op => stepChange env k op ≠ .reaped i) k ops) :
    Kept (k.tasks.procs i) ((runFrom (kernelStep env) k ops).tasks.procs i) := by
  have ha : Alive k.tasks := by
    rw [hk]
    exact Along.invariant (P := fun _ _ => True) (I := fun k : System σ => Alive k.tasks)
      (fun _ op h _ => kernelStep_alive env h op) boot_alive (.of_forall (fun _ _ => trivial) _ _)
  refine (Along.invariant (I := fun k' => Alive k'.tasks ∧ Kept (k.tasks.procs i) (k'.tasks.procs i))
    (fun k' op h hop => ⟨kernelStep_alive env h.1 op, ?_⟩) ⟨ha, .refl _⟩ hr).2
  exact h.2.trans (kernelStep_kept env h.1 (fun h0 => hi (h.2.empty.mp h0)) hop)

theorem process_kept_forking : ∃ k, (k.tasks.procs 0).state ≠ .empty ∧
    Kept (k.tasks.procs 0) ((runFrom (kernelStep flatEnv) k [.call (plainCall 91)]).tasks.procs 0) :=
  have hi : ((runFrom (kernelStep flatEnv) (bootSystem ())
      [.spawn (.loaded firstImage), .start 0]).tasks.procs 0).state ≠ .empty := by decide
  ⟨_, hi, process_kept_until_reaped flatEnv () _ _ _ 0 rfl hi ⟨(fun h => by cases h), trivial⟩⟩

def occupied (t : Tasks) (i : Nat) : Nat := if (t.procs i).state = .empty then 0 else 1

def Change.births (i : Nat) : Change → Nat
  | .born b => if i = b.slot then 1 else 0
  | _ => 0

def Change.reaps (i : Nat) : Change → Nat
  | .reaped x => if i = x then 1 else 0
  | _ => 0

def total (w : Change → Nat) (k : System σ) : List (KernelOp σ) → Nat
  | [] => 0
  | op :: ops => w (stepChange env k op) + total w (kernelStep env k op) ops

theorem kernelStep_occupied (ha : Alive k.tasks) (op : KernelOp σ) (i : Nat) :
    occupied (kernelStep env k op).tasks i + (stepChange env k op).reaps i =
      occupied k.tasks i + (stepChange env k op).births i := by
  have hsame (hb : ∀ b, stepChange env k op = .born b → i ≠ b.slot)
    (hr : stepChange env k op ≠ .reaped i) :
      ((kernelStep env k op).tasks.procs i).state = .empty ↔ (k.tasks.procs i).state = .empty := by
    by_cases hi : (k.tasks.procs i).state = .empty
    · exact iff_of_true (kernelStep_empty env ha hi hb) hi
    · exact (kernelStep_kept env ha hi hr).empty
  unfold occupied
  cases hc : stepChange env k op with
  | none | exec => simp [Change.births, Change.reaps, hsame, hc]
  | born b =>
    by_cases hi : i = b.slot
    · obtain ⟨h0, h1, _⟩ := kernelStep_born env ha hc
      simp [Change.births, Change.reaps, hi, h0, h1]
    · simp [Change.births, Change.reaps, hi, hsame, hc]
  | reaped x =>
    by_cases hi : i = x
    · obtain ⟨h0, h1⟩ := kernelStep_reaped env ha hc
      simp [Change.births, Change.reaps, hi, h0, h1]
    · simp [Change.births, Change.reaps, hi, hsame, hc, Ne.symm hi]

theorem run_occupied (ha : Alive k.tasks) (ops : List (KernelOp σ)) (i : Nat) :
    occupied (runFrom (kernelStep env) k ops).tasks i + total env (Change.reaps i) k ops =
      occupied k.tasks i + total env (Change.births i) k ops := by
  induction ops generalizing k with
  | nil => rfl
  | cons op ops ih =>
    have h0 := kernelStep_occupied env ha op i
    have h1 := ih (kernelStep_alive env ha op)
    simp only [runFrom, List.foldl_cons, total] at h1 ⊢
    omega

theorem processes_conserved (m : σ) (ops : List (KernelOp σ)) (i : Nat) :
    total env (Change.births i) (bootSystem m) ops = total env (Change.reaps i) (bootSystem m) ops +
      occupied (runFrom (kernelStep env) (bootSystem m) ops).tasks i := by
  have h0 := run_occupied env (k := bootSystem m) boot_alive ops i
  have h1 : occupied (bootSystem m).tasks i = 0 := rfl
  omega

end

end BlockOS.Kernel
