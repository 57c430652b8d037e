import BlockOS.Kernel.Ids

/-! Processes that sleep. -/

namespace BlockOS.Kernel
open Words

structure Undisturbed (p p' : Process) : Prop where
  asleep : p.state = .blocked ∨ p'.state = .blocked →
    p'.state = p.state ∧ p'.waitSockPlus1 = p.waitSockPlus1 ∧ p'.waiting = p.waiting ∧ p'.core = p.core
  frame : p.state ≠ .empty → p'.state ≠ .empty ∧ p'.savedFrame = p.savedFrame

theorem Undisturbed.refl (p : Process) : Undisturbed p p :=
    ⟨fun _ => ⟨rfl, rfl, rfl, rfl⟩, fun h => ⟨h, rfl⟩⟩

theorem Undisturbed.trans (h : Undisturbed p p') (h' : Undisturbed p' p'') : Undisturbed p p'' := by
  refine ⟨fun hb => ?_, fun he => ?_⟩
  · have hmid : p'.state = .blocked := by
      rcases hb with hb | hb
      · exact (h.asleep (.inl hb)).1.trans hb
      · exact (h'.asleep (.inr hb)).1.symm.trans hb
    obtain ⟨h1, h2, h3, h4⟩ := h.asleep (.inr hmid)
    obtain ⟨h1', h2', h3', h4'⟩ := h'.asleep (.inl hmid)
    exact ⟨h1'.trans h1, h2'.trans h2, h3'.trans h3, h4'.trans h4⟩
  · obtain ⟨h1, h2⟩ := h.frame he
    obtain ⟨h1', h2'⟩ := h'.frame h1
    exact ⟨h1', h2'.trans h2⟩

theorem Undisturbed.of_awake (h : p.state ≠ .blocked) (h' : p'.state ≠ .blocked)
    (hf : p.state ≠ .empty → p'.state ≠ .empty ∧ p'.savedFrame = p.savedFrame) : Undisturbed p p' :=
  ⟨fun h0 => (h0.elim h h').elim, hf⟩

theorem Undisturbed.of_parts (hs : p'.state = p.state) (hm : p'.waitSockPlus1 = p.waitSockPlus1)
    (hw : p'.waiting = p.waiting) (hc : p'.core = p.core) : Undisturbed p p' :=
  ⟨fun _ => ⟨hs, hm, hw, hc⟩, fun h => ⟨hs ▸ h, congrArg Waiting.frame hw⟩⟩

theorem Tame.undisturbed (h : Tame (fun _ => False) p p') : Undisturbed p p' := by
  rcases h.state with ⟨hs, hw⟩ | ⟨h0, _⟩
  · exact .of_parts hs hw h.waiting h.core
  · exact h0.elim

structure Minds (caller : Nat) (t t' : Tasks) : Prop where
  others : ∀ i, i ≠ caller → Undisturbed (t.procs i) (t'.procs i)
  current : ∀ i, t'.current = some i → t.current = some i ∨ i = caller ∨ (t'.procs i).state ≠ .blocked

variable {self i j : Nat} {t t' t'' : Tasks}

theorem Minds.refl (self : Nat) (t : Tasks) : Minds self t t :=
    ⟨fun _ _ => .refl _, fun _ h => .inl h⟩

theorem Minds.trans (h : Minds self t t') (h' : Minds self t' t'') : Minds self t t'' := by
  refine ⟨fun i hi => (h.others i hi).trans (h'.others i hi), fun i hi => ?_⟩
  rcases h'.current i hi with h0 | h0 | h0
  · rcases h.current i h0 with h1 | h1 | h1
    · exact .inl h1
    · exact .inr (.inl h1)
    · by_cases hs : i = self
      · exact .inr (.inl hs)
      · refine .inr (.inr fun hb => h1 ?_)
        exact ((h'.others i hs).asleep (.inr hb)).1.symm.trans hb
  · exact .inr (.inl h0)
  · exact .inr (.inr h0)

theorem Minds.of_tamed (h : Tamed (fun _ => False) t t') : Minds self t t' :=
  ⟨fun i _ => (h.procs i).undisturbed, fun _ hi => .inl (h.current ▸ hi)⟩

theorem Minds.same (h : Minds self t t') (hu : u.procs = t.procs ∧ u.current = t.current)
    (hu' : u'.procs = t'.procs ∧ u'.current = t'.current) : Minds self u u' := by
  refine ⟨fun i hi => ?_, fun i hi => ?_⟩
  · rw [hu.1, hu'.1]
    exact h.others i hi
  · rw [hu.2, hu'.1]
    exact h.current i (hu'.2 ▸ hi)

theorem Minds.modify (h : i ≠ self → Undisturbed (t.procs i) (g (t.procs i))) :
    Minds self t (t.modify i g) := by
  refine ⟨fun j hj => ?_, fun j hj => .inl hj⟩
  by_cases hji : j = i
  · subst hji
    rw [Tasks.modify_same]
    exact h hj
  · rw [Tasks.modify_other t g hji]
    exact .refl _

theorem Minds.modify_self (t : Tasks) (g : Process → Process) : Minds self t (t.modify self g) :=
  .modify fun h => absurd rfl h

theorem Minds.enter (h : i ≠ self → (t.procs i).state ≠ .blocked) : Minds self t (t.enter i) := by
  have hm : Minds self t (t.modify i Process.run) :=
    .modify fun hi => .of_awake (h hi) nofun fun _ => ⟨nofun, rfl⟩
  refine ⟨hm.others, fun j hj => .inr (.inr ?_)⟩
  cases hj
  rw [t.enter_same]
  nofun

theorem Minds.terminate (h : (t.procs i).state = .ready) :
    Minds self t (t.modify i Process.terminate) := by
  refine .modify fun _ => .of_awake ?_ nofun fun _ => ⟨nofun, rfl⟩
  rw [h]
  nofun

theorem Minds.rule (hc : ∀ i, cur = some i → i = self) : SchedRule cur (Minds self) where
  refl t := .refl self t
  trans h h' := h.trans h'
  cursor t _ := (Minds.refl self t).same ⟨rfl, rfl⟩ ⟨rfl, rfl⟩
  refuse _ hr := .terminate hr
  leave {t i g} hi _ _ := hc i hi ▸ .modify_self t g
  arrive {t j g} hr hg := by
    have hne : (t.procs j).state ≠ .blocked := fun h0 => absurd (hr.symm.trans h0) nofun
    exact .modify fun _ => .of_awake hne (by rwa [hg.state]) fun h0 => ⟨by rwa [hg.state], hg.frame⟩
  enter hr := .enter fun _ h0 => absurd (hr.symm.trans h0) nofun

theorem Minds.running (hc : t.current = some self) : SchedRule t.current (Minds self) :=
  Minds.rule fun _ hi => Option.some.inj (hi.symm.trans hc)

theorem block_current_of_false (h : (blockFromSyscall f t).1 = false) :
    (blockFromSyscall f t).2.2.current = t.current := by
  unfold blockFromSyscall blockWith at h ⊢
  cases hcur : t.current with
  | none => simp only [hcur]
  | some cur =>
    cases hn : pickNext (some cur) t with
    | none => simp only [hcur]
    | some next =>
      simp only [hcur, hn] at h ⊢
      split
      · rfl
      case isFalse hok =>
        rw [if_neg hok] at h
        cases h

theorem exists_interrupted (hi : t.current ≠ some i) : ∃ self, i ≠ self ∧ ∀ j, t.current = some j →
    j = self := by
  cases hc : t.current with
  | none => exact ⟨i + 1, by omega, nofun⟩
  | some j => exact ⟨j, fun h => hi (hc.trans (h ▸ rfl)), fun _ h => (Option.some.inj h).symm⟩

theorem start_minds (self i : Nat) (t : Tasks) : Minds self t (start i t) := by
  unfold start
  split
  case isTrue h =>
    refine .enter fun _ h0 => ?_
    rw [h.2.2] at h0
    cases h0
  case isFalse => exact .refl _ _

theorem Minds.fill (hi : (t.procs i).state = .empty) (hp : p.state ≠ .blocked) :
    Minds self t (t.modify i fun _ => p) := by
  refine .modify fun _ => .of_awake ?_ hp fun h0 => absurd hi h0
  rw [hi]
  nofun

theorem spawn_minds (self : Nat) (r : SpawnResult) (t : Tasks) : Minds self t (spawn r t) := by
  unfold spawn
  split
  · exact .refl _ _
  case h_2 slot hs =>
    have hempty := (freeSlot_spec hs).2
    dsimp only
    split
    · exact .refl _ _
    case h_2 pml4 =>
      exact (Minds.fill (p := spawnProcess slot t.nextPid pml4) hempty nofun).same ⟨rfl, rfl⟩ ⟨rfl, rfl⟩
    case h_3 image =>
      exact (Minds.fill (p := spawned slot t.nextPid image) hempty nofun).same ⟨rfl, rfl⟩ ⟨rfl, rfl⟩

theorem cloneInto_minds (hs : (t.procs slot).state = .empty) (f : SyscallFrame) :
    Minds self t (cloneInto self slot f t) := by
  unfold cloneInto
  dsimp only
  refine (Minds.fill (p := {}) hs nofun).trans ((Minds.modify_self _ Process.disown).trans ?_)
  refine .modify fun hne => ?_
  rw [Tasks.modify_other _ _ hne, Tasks.modify_same]
  exact .of_awake nofun nofun fun h0 => absurd rfl h0

section

variable {σ : Type} (env : Env σ) {f : SyscallFrame} {k : System σ}

theorem forkLike_minds (frame : TrapFrame) (vfork : Bool) :
    Minds self k.tasks (forkLike env self frame vfork k).2.tasks := by
  unfold forkLike
  split
  · exact .refl _ _
  case h_2 slot hs =>
    have hempty := (freeSlot_spec hs).2
    have hfill : ∀ p : Process, p.state ≠ .blocked → Minds self k.tasks
        ({ k.tasks with nextPid := k.tasks.nextPid + 1 }.modify slot fun _ => p) :=
      fun p hp => (Minds.fill hempty hp).same ⟨rfl, rfl⟩ ⟨rfl, rfl⟩
    dsimp only
    split
    · exact hfill _ nofun
    split
    · exact hfill _ nofun
    · exact hfill _ nofun

theorem freePending_minds (self : Nat) (k : System σ) :
    Minds self k.tasks (freePending env self k).tasks := by
  rcases freePending_tasks env self k with h | h
  · rw [h]
    exact .refl _ _
  · rw [h]
    exact .modify_self _ _

theorem takeOffsets_minds (fds : Nat → RuntimeFd) :
    Minds self t (t.modify i (Process.takeOffsets fds)) :=
  .modify fun _ => .of_parts rfl rfl rfl rfl

theorem reap_minds {x : Nat} (hx : (k.tasks.procs x).state = .terminated) (f : SyscallFrame) :
    ∃ t, Minds self k.tasks t ∧ (t.procs x).state = .terminated ∧ t.current = k.tasks.current ∧
      (reap env self x f k).tasks = t.modify x Process.vacate := by
  obtain ⟨g, hg, ht⟩ := reap_tasks env self x f k
  have hgs : ∀ p : Process, (g p).state = p.state ∧ (g p).savedFrame = p.savedFrame := by
    rcases hg with rfl | rfl <;> exact fun _ => ⟨rfl, rfl⟩
  generalize (k.tasks.procs (k.tasks.fdOwner x)).fds = fds at ht
  have h1 : Minds self k.tasks (k.tasks.modify (k.tasks.fdOwner self) (Process.takeOffsets fds)) :=
    takeOffsets_minds fds
  have hx1 : ((k.tasks.modify (k.tasks.fdOwner self) (Process.takeOffsets fds)).procs x).state =
      .terminated := by
    rw [Tasks.modify_procs]
    split
    case isTrue h0 =>
      rw [h0] at hx
      exact hx
    case isFalse => exact hx
  have hcur : (k.tasks.modify (k.tasks.fdOwner self) (Process.takeOffsets fds)).current =
    k.tasks.current := rfl
  generalize k.tasks.modify (k.tasks.fdOwner self) (Process.takeOffsets fds) = u at h1 hx1 hcur ht
  have hne : (u.procs x).state ≠ .blocked := fun h0 => absurd (hx1.symm.trans h0) nofun
  refine ⟨u.modify x g, h1.trans (.modify fun _ => .of_awake hne (by rwa [(hgs _).1]) fun h0 =>
    ⟨?_, (hgs _).2⟩), ?_, hcur, ht⟩
  · rwa [(hgs _).1]
  · rwa [Tasks.modify_same, (hgs _).1]

end

end BlockOS.Kernel
