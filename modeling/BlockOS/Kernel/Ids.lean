import BlockOS.Kernel.Lifecycle

/-! The numbers of processes. -/

namespace BlockOS.Kernel
open Words Runs List

def Live (t : Tasks) (i : Nat) : Prop := i < slotCount ∧ (t.procs i).state ≠ .empty

/-- Pids and tids are distinct, and the tid of a process finds it. -/
structure UniqueIds (t : Tasks) : Prop where
  pids : ∀ i j, Live t i → Live t j → (t.procs i).pid = (t.procs j).pid → i = j
  tids : ∀ i j, Live t i → Live t j → (t.procs i).tid = (t.procs j).tid → i = j
  finds : ∀ i, Live t i → t.get (t.procs i).tid = some i

structure Numbered (t : Tasks) : Prop where
  own : ∀ i, Live t i → (t.procs i).pid = (t.procs i).tid ∧ (t.procs i).pid ≠ 0
  distinct : ∀ i j, Live t i → Live t j → (t.procs i).pid = (t.procs j).pid → i = j

variable {t t' : Tasks}

theorem get_spec (h : t.get n = some i) : Live t i ∧ (t.procs i).pid = n ∧ n ≠ 0 := by
  unfold Tasks.get at h
  split at h
  · cases h
  case isFalse h0 =>
    have hm := mem_of_find?_eq_some h
    have hs := find?_some h
    simp only [Bool.and_eq_true, decide_eq_true_eq] at hs
    exact ⟨⟨mem_range.mp hm, hs.1⟩, hs.2, h0⟩

theorem get_isSome (hi : Live t i) (hp : (t.procs i).pid ≠ 0) : (t.get (t.procs i).pid).isSome := by
  unfold Tasks.get
  rw [if_neg hp, find?_isSome]
  refine ⟨i, mem_range.mpr hi.1, ?_⟩
  simpa using hi.2

theorem get_eq_none_iff : t.get n = none ↔ n = 0 ∨ ∀ i, Live t i → (t.procs i).pid ≠ n := by
  constructor
  · intro h
    by_cases hp : n = 0
    · exact .inl hp
    refine .inr fun i hi h0 => ?_
    have hs := get_isSome hi (h0 ▸ hp)
    rw [h0, h] at hs
    cases hs
  · intro h
    cases hg : t.get n with
    | none => rfl
    | some i =>
      obtain ⟨hi, hpid, hp⟩ := get_spec hg
      rcases h with h | h
      · exact absurd h hp
      · exact absurd hpid (h i hi)

theorem uniqueIds_iff : UniqueIds t ↔ Numbered t := by
  constructor
  · intro h
    refine ⟨fun i hi => ?_, h.pids⟩
    obtain ⟨_, hpid, hp⟩ := get_spec (h.finds i hi)
    exact ⟨hpid, hpid ▸ hp⟩
  · intro h
    refine ⟨h.distinct, fun i j hi hj hij => ?_, fun i hi => ?_⟩
    · rw [← (h.own i hi).1, ← (h.own j hj).1] at hij
      exact h.distinct i j hi hj hij
    rw [← (h.own i hi).1]
    obtain ⟨j, hj⟩ := Option.isSome_iff_exists.mp (get_isSome hi (h.own i hi).2)
    obtain ⟨hlive, hpid, _⟩ := get_spec hj
    rw [hj, h.distinct j i hlive hi hpid]

def KeepsIds (t t' : Tasks) : Prop :=
  ∀ i, (t'.procs i).state ≠ .empty → (t.procs i).state ≠ .empty ∧
    (t'.procs i).pid = (t.procs i).pid ∧ (t'.procs i).tid = (t.procs i).tid

theorem KeepsIds.numbered (h : KeepsIds t t') (hn : Numbered t) : Numbered t' := by
  have hlive : ∀ i, Live t' i → Live t i := fun i hi => ⟨hi.1, (h i hi.2).1⟩
  refine ⟨fun i hi => ?_, fun i j hi hj hij => ?_⟩
  · rw [(h i hi.2).2.1, (h i hi.2).2.2]
    exact hn.own i (hlive i hi)
  · rw [(h i hi.2).2.1, (h j hj.2).2.1] at hij
    exact hn.distinct i j (hlive i hi) (hlive j hj) hij

theorem Steady.keepsIds (h : Steady t t') : KeepsIds t t' := fun i hi =>
  ⟨fun h0 => hi ((h.empty i).mpr h0), (h.kept i).pid, (h.kept i).tid⟩

theorem Handled.keepsIds (h : Handled self t c t') (hc : ∀ b, c ≠ .born b) : KeepsIds t t' := by
  intro i hi
  have hne : (t.procs i).state ≠ .empty := fun h0 => hi (h.empty h0 fun b hb => absurd hb (hc b))
  have hr : c ≠ .reaped i := fun h0 => hi (h0 ▸ h).reaped_spec.2
  exact ⟨hne, (h.kept hne hr).pid, (h.kept hne hr).tid⟩

def Birth.tid (t : Tasks) : Birth → Word
  | .fork _ _ _ _ | .spawn _ _ => t.nextPid
  | .clone _ _ _ => cloneTid t

def Birth.pid (t : Tasks) : Birth → Word
  | .fork _ _ _ _ | .spawn _ _ => t.nextPid
  | .clone _ slot _ => unusedPid (t.modify slot fun _ => {}) (slotCount + 1) (cloneTid t)

theorem clear_get (hslot : (t.procs slot).state = .empty) :
    (t.modify slot fun _ => {}).get = t.get ∧ (t.modify slot fun _ => {}).count = t.count := by
  have hstate : ∀ i, (((t.modify slot fun _ => {}).procs i).state ≠ .empty) =
      ((t.procs i).state ≠ .empty) := by
    intro i
    by_cases hi : i = slot
    · subst hi
      rw [Tasks.modify_same, hslot]
    · rw [Tasks.modify_other t _ hi]
  constructor
  · funext pid
    unfold Tasks.get
    congr 2
    funext i
    by_cases hi : i = slot
    · subst hi
      simp [hslot]
    · rw [Tasks.modify_other t _ hi]
  · unfold Tasks.count
    simp only [hstate]

theorem Birth.child_ids (b : Birth) (hslot : (t.procs b.slot).state = .empty) :
    (b.child t).state = .ready ∧ (b.child t).pid = b.pid t ∧ (b.child t).tid = b.tid t := by
  cases b with
  | fork | spawn => exact ⟨rfl, rfl, rfl⟩
  | clone parent slot f =>
    have htid : cloneTid (t.modify slot fun _ => {}) = cloneTid t :=
      congrArg (fun n => BitVec.ofNat 64 (n + 1000)) (clear_get hslot).2
    simp only [child, htid, cloneChild, pid, tid, and_self]

theorem Birth.apply_ids (b : Birth) (hi : i ≠ b.slot) :
    ((b.apply t).procs i).state = (t.procs i).state ∧ ((b.apply t).procs i).pid = (t.procs i).pid ∧
      ((b.apply t).procs i).tid = (t.procs i).tid := by
  rcases b.apply_other t hi with h | h
  · rw [h]
    exact ⟨rfl, rfl, rfl⟩
  · rw [h]
    exact ⟨rfl, rfl, rfl⟩

theorem Birth.pid_of_unused (b : Birth) (hslot : (t.procs b.slot).state = .empty)
    (h : t.get (b.tid t) = none) : b.pid t = b.tid t := by
  cases b with
  | fork | spawn => rfl
  | clone parent slot f =>
    have hs : (t.procs slot).state = .empty := hslot
    have hget : (t.modify slot fun _ => {}).get (cloneTid t) = none := by
      rw [(clear_get hs).1]
      exact h
    simp only [Birth.pid, Birth.tid, unusedPid, hget, Option.isSome_none, Bool.false_eq_true, if_false]

theorem born_numbered_iff (hn : Numbered t) (b : Birth) (hslot : t.freeSlot = some b.slot) :
    Numbered (b.apply t) ↔ b.tid t ≠ 0 ∧ t.get (b.tid t) = none := by
  obtain ⟨hlt, hempty⟩ := freeSlot_spec hslot
  obtain ⟨hstate, hpid, htid⟩ := b.child_ids hempty
  have hlive : Live (b.apply t) b.slot := by
    refine ⟨hlt, ?_⟩
    rw [b.apply_slot, hstate]
    nofun
  have hother : ∀ i, Live t i → i ≠ b.slot ∧ Live (b.apply t) i := by
    intro i hi
    have hne : i ≠ b.slot := fun h0 => hi.2 (h0 ▸ hempty)
    exact ⟨hne, hi.1, by rw [(b.apply_ids hne).1]; exact hi.2⟩
  constructor
  · intro h
    obtain ⟨hown, hzero⟩ := h.own b.slot hlive
    rw [b.apply_slot, hpid, htid] at hown
    rw [b.apply_slot, hpid, hown] at hzero
    refine ⟨hzero, get_eq_none_iff.mpr (.inr fun i hi h0 => ?_)⟩
    obtain ⟨hne, hi'⟩ := hother i hi
    refine hne (h.distinct i b.slot hi' hlive ?_)
    rw [(b.apply_ids hne).2.1, b.apply_slot, hpid, hown, h0]
  · rintro ⟨hzero, hget⟩
    have hown := b.pid_of_unused hempty hget
    have hfree := (get_eq_none_iff.mp hget).resolve_left hzero
    have hback : ∀ i, Live (b.apply t) i → i ≠ b.slot → Live t i :=
      fun i hi hne => ⟨hi.1, (b.apply_ids hne).1 ▸ hi.2⟩
    refine ⟨fun i hi => ?_, fun i j hi hj hij => ?_⟩
    · by_cases hib : i = b.slot
      · subst hib
        rw [b.apply_slot, hpid, htid, hown]
        exact ⟨rfl, hzero⟩
      · rw [(b.apply_ids hib).2.1, (b.apply_ids hib).2.2]
        exact hn.own i (hback i hi hib)
    · by_cases hib : i = b.slot
      · by_cases hjb : j = b.slot
        · exact hib.trans hjb.symm
        · rw [hib, b.apply_slot, hpid, hown, (b.apply_ids hjb).2.1] at hij
          exact absurd hij.symm (hfree j (hback j hj hjb))
      · by_cases hjb : j = b.slot
        · rw [hjb, b.apply_slot, hpid, hown, (b.apply_ids hib).2.1] at hij
          exact absurd hij (hfree i (hback i hi hib))
        · rw [(b.apply_ids hib).2.1, (b.apply_ids hjb).2.1] at hij
          exact hn.distinct i j (hback i hi hib) (hback j hj hjb) hij

section

variable {σ : Type} (env : Env σ)

def FreshIds (k : System σ) (op : KernelOp σ) : Prop :=
  ∀ b, stepChange env k op = .born b → b.tid k.tasks ≠ 0 ∧ k.tasks.get (b.tid k.tasks) = none

theorem Entered.ids (h : Entered t self u) :
    KeepsIds t u ∧ u.get = t.get ∧ u.count = t.count ∧ u.nextPid = t.nextPid := by
  have hk := h.kept
  have hempty : ∀ i, ((u.procs i).state ≠ .empty) = ((t.procs i).state ≠ .empty) :=
    fun i => propext (not_congr (hk i).empty)
  refine ⟨fun i hi => ⟨hempty i ▸ hi, (hk i).pid, (hk i).tid⟩, ?_, ?_, ?_⟩
  · funext n
    unfold Tasks.get
    simp only [hempty, (hk _).pid]
  · unfold Tasks.count
    simp only [hempty]
  · cases h <;> rfl

theorem kernelStep_unique_iff (ha : Alive k.tasks) (h : UniqueIds k.tasks)
    (op : KernelOp σ) : FreshIds env k op ↔ UniqueIds (kernelStep env k op).tasks := by
  obtain ⟨self, u, he, hh⟩ := kernelStep_handled env ha op
  obtain ⟨hkeep, hget, hcount, hnext⟩ := he.ids
  have hu : Numbered u := hkeep.numbered (uniqueIds_iff.mp h)
  have htid : ∀ b : Birth, b.tid u = b.tid k.tasks := by
    intro b
    cases b with
    | fork | spawn => exact hnext
    | clone => exact congrArg (fun n => BitVec.ofNat 64 (n + 1000)) hcount
  rw [uniqueIds_iff]
  unfold FreshIds
  generalize kernelStep env k op = k' at hh ⊢
  by_cases hb : ∃ b, stepChange env k op = .born b
  · obtain ⟨b, hb⟩ := hb
    rw [hb] at hh
    cases hh with
    | born _ hslot hheld =>
      have hback : Numbered k'.tasks ↔ Numbered (b.apply u) := by
        have hs := hheld.toSteady
        have hs' : Steady k'.tasks (b.apply u) :=
          ⟨fun i => (hs.core i).symm, fun i => (hs.empty i).symm, hs.nextPid.symm⟩
        exact ⟨hs'.keepsIds.numbered, hs.keepsIds.numbered⟩
      rw [hback, born_numbered_iff hu b hslot, htid, hget]
      refine ⟨fun h0 => h0 b hb, fun h0 c hc => ?_⟩
      cases hb.symm.trans hc
      exact h0
  · have hno : ∀ b, stepChange env k op ≠ .born b := fun b h0 => hb ⟨b, h0⟩
    exact iff_of_true (fun b h0 => absurd h0 (hno b)) ((hh.keepsIds hno).numbered hu)

theorem boot_unique : UniqueIds bootTasks :=
  have hnone : ∀ i, ¬ Live bootTasks i := fun _ h => h.2 rfl
  ⟨fun i _ h => absurd h (hnone i), fun i _ h => absurd h (hnone i), fun i h => absurd h (hnone i)⟩

theorem unique_along_iff (m : σ) (ops : List (KernelOp σ)) :
    Along (kernelStep env) (fun k op => UniqueIds (kernelStep env k op).tasks) (bootSystem m) ops ↔
      Along (kernelStep env) (FreshIds env) (bootSystem m) ops := by
  refine (Along.congr (I := fun k => Alive k.tasks ∧ UniqueIds k.tasks) ?_ ?_ ops ⟨boot_alive,
    boot_unique⟩).symm
  · exact fun k op h => kernelStep_unique_iff env h.1 h.2 op
  · exact fun k op h hf => ⟨kernelStep_alive env h.1 op, (kernelStep_unique_iff env h.1 h.2 op).mp hf⟩

end

def plainCall (rax : Word) : SyscallFrame :=
  { rax := rax, rip := 0x400000, rsp := 0x7fff0000, cs := 0x1b, ss := 0x23 }

def firstImage : ExecImage := { pml4 := 0x100000, entry := 0x400000, rsp := 0x7fff0000 }

def threadsReused : List (KernelOp Unit) :=
  [.spawn (.loaded firstImage), .start 0,
    .call { plainCall 42 with rsi := 0x8000 }, .call { plainCall 42 with rsi := 0x9000 },
    .call (plainCall 46), .call (plainCall 44), .call (plainCall 46),
    .call { plainCall 43 with rdi := -1 }, .call { plainCall 42 with rsi := 0xa000 }]

theorem threads_share_tid :
    ¬ UniqueIds (runFrom (kernelStep flatEnv) (bootSystem ()) threadsReused).tasks := by
  have hlive : Live (runFrom (kernelStep flatEnv) (bootSystem ()) threadsReused).tasks 1 ∧
      Live (runFrom (kernelStep flatEnv) (bootSystem ()) threadsReused).tasks 2 ∧
      ((runFrom (kernelStep flatEnv) (bootSystem ()) threadsReused).tasks.procs 1).tid =
        ((runFrom (kernelStep flatEnv) (bootSystem ()) threadsReused).tasks.procs 2).tid := by
    unfold Live
    decide +kernel
  intro h
  exact absurd (h.tids 1 2 hlive.1 hlive.2.1 hlive.2.2) (by decide)

end BlockOS.Kernel
