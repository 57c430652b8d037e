import BlockOS.Kernel.Ids

/-! The owners of descriptor tables. -/

namespace BlockOS.Kernel
open Words Runs Function

section

variable {σ : Type} (env : Env σ)

structure Aged (σ : Type) where
  system : System σ
  age : Nat → Nat
  since : Nat → Nat

def bootAged (m : σ) : Aged σ := { system := bootSystem m, age := fun _ => 0, since := fun _ => 0 }

def agedStep (s : Aged σ) (op : KernelOp σ) : Aged σ :=
  let k := kernelStep env s.system op
  match stepChange env s.system op with
  | .born b =>
    let age := update s.age b.slot (s.age b.slot + 1)
    { system := k, age := age, since := update s.since b.slot (age (k.tasks.fdOwner b.slot)) }
  | _ => { s with system := k }

def Aged.Owned (s : Aged σ) (q : Nat) : Prop :=
  s.system.tasks.fdOwner q = q ∨ ((s.system.tasks.procs (s.system.tasks.fdOwner q)).state ≠ .empty ∧
      s.age (s.system.tasks.fdOwner q) = s.since q)

def Aged.Owners (s : Aged σ) : Prop :=
  ∀ q, (s.system.tasks.procs q).state ≠ .empty → s.Owned q

/-- The step does not reap a process whose descriptors another one uses. -/
def Unowned (k : System σ) (op : KernelOp σ) : Prop :=
  ∀ x q, stepChange env k op = .reaped x → q ≠ x → (k.tasks.procs q).state ≠ .empty →
    k.tasks.fdOwner q ≠ x

theorem fdOwner_of_kept {t t' : Tasks} (h : Kept (t.procs i) (t'.procs i)) :
    t'.fdOwner i = t.fdOwner i := congrArg (fun o : Option Nat => o.getD i) h.fdOwner

theorem Birth.child_fdOwner (t : Tasks) (b : Birth) : (b.child t).fdOwner = some b.slot ∨
    ∃ p, b.parent = some p ∧ (p ≠ b.slot → (b.child t).fdOwner = some (t.fdOwner p)) := by
  cases b with
  | fork | spawn => exact .inl rfl
  | clone parent slot f =>
    refine .inr ⟨parent, rfl, fun h => ?_⟩
    have hp : (t.modify slot fun _ => {}).procs parent = t.procs parent := Tasks.modify_other _ _ h
    unfold child
    dsimp only
    rw [hp]
    rfl

theorem agedStep_of_none (h : ∀ b, stepChange env s.system op ≠ .born b) :
    agedStep env s op = { s with system := kernelStep env s.system op } := by
  unfold agedStep
  split
  case h_1 b hb => exact absurd hb (h b)
  case h_2 => rfl

theorem agedStep_system (s : Aged σ) (op : KernelOp σ) :
    (agedStep env s op).system = kernelStep env s.system op := by
  unfold agedStep
  split <;> rfl

theorem agedStep_owners_of_none (ha : Alive s.system.tasks) (ho : s.Owners)
    (hb : ∀ b, stepChange env s.system op ≠ .born b) :
    Unowned env s.system op ↔ (agedStep env s op).Owners := by
  rw [agedStep_of_none env hb]
  constructor
  · intro hu q hq
    have hne : (s.system.tasks.procs q).state ≠ .empty := by
      intro h0
      exact hq (kernelStep_empty env ha h0 fun b hb' => absurd hb' (hb b))
    have hr : stepChange env s.system op ≠ .reaped q := fun h0 => hq (kernelStep_reaped env ha h0).2
    have hown := fdOwner_of_kept (kernelStep_kept env ha hne hr)
    unfold Aged.Owned
    rw [hown]
    refine (ho q hne).imp id fun ⟨hlive, hage⟩ => ⟨fun h0 => ?_, hage⟩
    have hr' : stepChange env s.system op ≠ .reaped (s.system.tasks.fdOwner q) := by
      intro h1
      have hqx : q ≠ s.system.tasks.fdOwner q := fun h2 => hr (h2 ▸ h1)
      exact hu _ q h1 hqx hne rfl
    exact hlive ((kernelStep_kept env ha hlive hr').empty.mp h0)
  · intro hs x q hx hqx hne hown
    have hr : stepChange env s.system op ≠ .reaped q :=
      fun h0 => hqx (Change.reaped.inj (h0.symm.trans hx))
    have hk := kernelStep_kept env ha hne hr
    have hown' := (fdOwner_of_kept hk).trans hown
    rcases hs q fun h0 => hne (hk.empty.mp h0) with h0 | ⟨h0, _⟩
    · exact hqx (h0.symm.trans hown')
    · rw [hown'] at h0
      exact h0 (kernelStep_reaped env ha hx).2

theorem agedStep_owners_of_born (ha : Alive s.system.tasks) (ho : s.Owners)
    (hb : stepChange env s.system op = .born b) : (agedStep env s op).Owners := by
  obtain ⟨hslot, _, self, u, hent, hcore⟩ := kernelStep_born env ha hb
  have hstay : ∀ i, (s.system.tasks.procs i).state ≠ .empty → i ≠ b.slot ∧
      ((kernelStep env s.system op).tasks.procs i).state ≠ .empty ∧
      (kernelStep env s.system op).tasks.fdOwner i = s.system.tasks.fdOwner i := by
    intro i hi
    have hk := kernelStep_kept env ha hi (show stepChange env s.system op ≠ .reaped i by rw [hb]; nofun)
    exact ⟨fun h0 => hi (h0 ▸ hslot), fun h0 => hi (hk.empty.mp h0), fdOwner_of_kept hk⟩
  have hstep : agedStep env s op =
      { system := kernelStep env s.system op
        age := update s.age b.slot (s.age b.slot + 1)
        since := update s.since b.slot (update s.age b.slot (s.age b.slot + 1)
          ((kernelStep env s.system op).tasks.fdOwner b.slot)) } := by
    unfold agedStep
    rw [hb]
  rw [hstep]
  intro q hq
  unfold Aged.Owned
  dsimp only at hq ⊢
  by_cases hqs : q = b.slot
  · subst hqs
    rw [update_self]
    have hown : (kernelStep env s.system op).tasks.fdOwner b.slot = (b.child u).fdOwner.getD b.slot :=
      congrArg (fun c : Core => c.fdOwner.getD b.slot) hcore
    rcases b.child_fdOwner u with h0 | ⟨p, hp, h0⟩
    · exact .inl (by rw [hown, h0]; rfl)
    -- the parent runs, so it and its owner are there
    have hpl := (ha p (stepChange_parent env hb hp)).1
    rw [h0 (hstay p hpl).1, fdOwner_of_kept (hent.kept p), Option.getD_some] at hown
    refine .inr ⟨?_, rfl⟩
    rw [hown]
    rcases ho p hpl with h1 | h1
    · rw [h1]
      exact (hstay p hpl).2.1
    · exact (hstay _ h1.1).2.1
  · have hne : (s.system.tasks.procs q).state ≠ .empty := by
      intro h0
      refine hq (kernelStep_empty env ha h0 fun c hc => ?_)
      cases hb.symm.trans hc
      exact hqs
    rw [update_of_ne hqs, (hstay q hne).2.2]
    refine (ho q hne).imp id fun ⟨hlive, hage⟩ => ⟨(hstay _ hlive).2.1, ?_⟩
    rw [update_of_ne (hstay _ hlive).1]
    exact hage

theorem agedStep_owners_iff (ha : Alive s.system.tasks) (ho : s.Owners) :
    Unowned env s.system op ↔ (agedStep env s op).Owners := by
  by_cases hb : ∃ b, stepChange env s.system op = .born b
  · obtain ⟨b, hb⟩ := hb
    refine iff_of_true (fun x q hx => ?_) (agedStep_owners_of_born env ha ho hb)
    cases hb.symm.trans hx
  · exact agedStep_owners_of_none env ha ho fun b h0 => hb ⟨b, h0⟩

theorem owners_along_iff (m : σ) (ops : List (KernelOp σ)) :
    Along (agedStep env) (fun s op => (agedStep env s op).Owners) (bootAged m) ops ↔
      Along (agedStep env) (fun s op => Unowned env s.system op) (bootAged m) ops := by
  refine (Along.congr (I := fun s => Alive s.system.tasks ∧ s.Owners) ?_ ?_ ops
    ⟨boot_alive, fun _ h => absurd rfl h⟩).symm
  · exact fun s op h => agedStep_owners_iff env h.1 h.2
  intro s op h hu
  rw [agedStep_system]
  exact ⟨kernelStep_alive env h.1 op, (agedStep_owners_iff env h.1 h.2).mp hu⟩

end

def ownerReused : List (KernelOp Unit) :=
  [.spawn (.loaded firstImage), .start 0, .call (plainCall 91), .call (plainCall 46),
    .call { plainCall 42 with rsi := 0x8000 }, .call (plainCall 44), .call (plainCall 46),
    .call { plainCall 43 with rdi := -1 }, .call (plainCall 91)]

theorem thread_uses_stranger : ¬ (runFrom (agedStep flatEnv) (bootAged ()) ownerReused).Owners := by
  have hlive : ((runFrom (agedStep flatEnv) (bootAged ()) ownerReused).system.tasks.procs 2).state ≠
      .empty := by decide +kernel
  have hown : (runFrom (agedStep flatEnv) (bootAged ()) ownerReused).system.tasks.fdOwner 2 = 1 := by
    decide +kernel
  have hage : (runFrom (agedStep flatEnv) (bootAged ()) ownerReused).age 1 = 2 ∧
      (runFrom (agedStep flatEnv) (bootAged ()) ownerReused).since 2 = 1 := by decide +kernel
  intro h
  rcases h 2 hlive with h0 | ⟨_, h0⟩
  · rw [hown] at h0
    cases h0
  · rw [hown, hage.1, hage.2] at h0
    cases h0

end BlockOS.Kernel
