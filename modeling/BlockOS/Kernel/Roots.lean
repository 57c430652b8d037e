import BlockOS.Kernel.Ids
import BlockOS.Kernel.CallParts
import BlockOS.Lib.Ledger

/-! The life of address spaces. -/

namespace BlockOS.Kernel
open Words Runs Ledger List

def Process.holds (p : Process) (r : Word) : Prop :=
  (p.pml4Owned = true ∧ p.pml4 = r) ∨ (p.pml4PendingFree ≠ 0 ∧ p.pml4PendingFree = r)

structure Rooted (S : Word → Prop) (t : Tasks) : Prop where
  bound : ∀ i, (t.procs i).state ≠ .empty → i < slotCount
  frame : ∀ r, S r → r &&& addrMask = r
  uses : ∀ i, (t.procs i).state ≠ .empty → S (t.procs i).pml4
  pending : ∀ i, (t.procs i).state ≠ .empty → (t.procs i).pml4PendingFree ≠ 0 →
    S (t.procs i).pml4PendingFree ∧ (t.procs i).pml4PendingFree ≠ (t.procs i).pml4
  once : ∀ i j r, (t.procs i).state ≠ .empty → (t.procs j).state ≠ .empty → (t.procs i).holds r →
    (t.procs j).holds r → i = j

def Fewer (p p' : Process) : Prop :=
  p'.state ≠ .empty → p.state ≠ .empty ∧ p'.pml4 = p.pml4 ∧ (p'.pml4Owned = true → p.pml4Owned = true) ∧
    (p'.pml4PendingFree = p.pml4PendingFree ∨ p'.pml4PendingFree = 0)

variable {S : Word → Prop}

theorem Fewer.refl (p : Process) : Fewer p p := fun h => ⟨h, rfl, id, .inl rfl⟩

theorem Fewer.trans (h : Fewer p p') (h' : Fewer p' p'') : Fewer p p'' := by
  intro h0
  obtain ⟨h1, hr, ho, hp⟩ := h' h0
  obtain ⟨h2, hr', ho', hp'⟩ := h h1
  refine ⟨h2, hr.trans hr', fun h3 => ho' (ho h3), ?_⟩
  rcases hp with hp | hp
  · rw [hp]
    exact hp'
  · exact .inr hp

theorem Fewer.holds (h : Fewer p p') (hn : p'.state ≠ .empty) (hr : p'.holds r) : p.holds r := by
  obtain ⟨_, hpml4, ho, hp⟩ := h hn
  rcases hr with ⟨h1, h2⟩ | ⟨h1, h2⟩
  · exact .inl ⟨ho h1, hpml4 ▸ h2⟩
  rcases hp with hp | hp
  · exact .inr ⟨hp ▸ h1, hp ▸ h2⟩
  · exact absurd hp h1

theorem Fewer.modify (t : Tasks) (j : Nat) (hg : Fewer (t.procs j) (g (t.procs j)))
    (i : Nat) : Fewer (t.procs i) ((t.modify j g).procs i) := by
  by_cases hij : i = j
  · subst hij
    rw [Tasks.modify_same]
    exact hg
  · rw [Tasks.modify_other t g hij]
    exact .refl _

theorem Steady.fewer (h : Steady t t') (i : Nat) : Fewer (t.procs i) (t'.procs i) := by
  have hc := h.core i
  intro h0
  refine ⟨fun h1 => h0 ((h.empty i).mpr h1), congrArg Core.pml4 hc, ?_,
    .inl (congrArg Core.pml4PendingFree hc)⟩
  have ho : (t'.procs i).pml4Owned = (t.procs i).pml4Owned := congrArg Core.pml4Owned hc
  exact fun h1 => ho ▸ h1

theorem Rooted.shrink (h : Rooted S t) (hf : ∀ i, Fewer (t.procs i) (t'.procs i)) : Rooted S t' := by
  refine ⟨fun i hi => h.bound i (hf i hi).1, h.frame, fun i hi => ?_, fun i hi hp => ?_,
    fun i j r hi hj hr hr' => ?_⟩
  · rw [(hf i hi).2.1]
    exact h.uses i (hf i hi).1
  · obtain ⟨hn, hpml4, _, hpend⟩ := hf i hi
    rcases hpend with h0 | h0
    · rw [h0] at hp ⊢
      rw [hpml4]
      exact h.pending i hn hp
    · exact absurd h0 hp
  · exact h.once i j r (hf i hi).1 (hf j hj).1 ((hf i).holds hi hr) ((hf j).holds hj hr')

theorem Rooted.congr {S' : Word → Prop} (h : Rooted S t) (hS : ∀ a, S' a ↔ S a) : Rooted S' t := by
  have heq : S' = S := funext fun a => propext (hS a)
  rwa [heq]

theorem Rooted.drop (h : Rooted S t) (hr : ∀ i, (t.procs i).state ≠ .empty → (t.procs i).pml4 ≠ r ∧
      ((t.procs i).pml4PendingFree ≠ 0 → (t.procs i).pml4PendingFree ≠ r)) :
    Rooted (fun a => a ≠ r ∧ S a) t :=
  ⟨h.bound, fun a ha => h.frame a ha.2, fun i hi => ⟨(hr i hi).1, h.uses i hi⟩,
    fun i hi hp => ⟨⟨(hr i hi).2 hp, (h.pending i hi hp).1⟩, (h.pending i hi hp).2⟩, h.once⟩

theorem Rooted.grow (h : Rooted S t) (hr : r &&& addrMask = r) : Rooted (fun a => a = r ∨ S a) t := by
  refine ⟨h.bound, fun a ha => ?_, fun i hi => .inr (h.uses i hi),
    fun i hi hp => ⟨.inr (h.pending i hi hp).1, (h.pending i hi hp).2⟩, h.once⟩
  rcases ha with rfl | ha
  · exact hr
  · exact h.frame a ha

theorem Rooted.fill (h : Rooted S t) (hs : slot < slotCount)
    (hp : (t'.procs slot) = p) (hu : S p.pml4) (ho : p.pml4Owned = false) (hd : p.pml4PendingFree = 0)
    (hf : ∀ i, i ≠ slot → Fewer (t.procs i) (t'.procs i)) : Rooted S t' := by
  have hnone : ∀ r, ¬ p.holds r := by
    rintro r (⟨h1, _⟩ | ⟨h1, _⟩)
    · rw [ho] at h1
      cases h1
    · exact h1 hd
  subst hp
  refine ⟨fun i hi => ?_, h.frame, fun i hi => ?_, fun i hi hpend => ?_, fun i j r hi hj hr hr' => ?_⟩
  · by_cases hi' : i = slot
    · rw [hi']
      exact hs
    · exact h.bound i (hf i hi' hi).1
  · by_cases hi' : i = slot
    · rw [hi']
      exact hu
    · rw [(hf i hi' hi).2.1]
      exact h.uses i (hf i hi' hi).1
  · by_cases hi' : i = slot
    · rw [hi'] at hpend
      exact absurd hd hpend
    · obtain ⟨hn, hpml4, _, hp⟩ := hf i hi' hi
      rcases hp with h0 | h0
      · rw [h0] at hpend ⊢
        rw [hpml4]
        exact h.pending i hn hpend
      · exact absurd h0 hpend
  · by_cases hi' : i = slot
    · exact absurd (hi' ▸ hr) (hnone r)
    · by_cases hj' : j = slot
      · exact absurd (hj' ▸ hr') (hnone r)
      · exact h.once i j r (hf i hi' hi).1 (hf j hj' hj).1 ((hf i hi').holds hi hr)
          ((hf j hj').holds hj hr')

theorem Rooted.exec (h : Rooted S t) (hself : (t.procs self).state ≠ .empty)
    (hpend : (t.procs self).pml4PendingFree = 0) (hframe : image.pml4 &&& addrMask = image.pml4)
    (hnew : ¬ S image.pml4) : Rooted (fun a => a = image.pml4 ∨ S a)
      (t.modify self (Process.exec image)) := by
  have hold := h.uses self hself
  have hne : (t.procs self).pml4 ≠ image.pml4 := fun h0 => hnew (h0 ▸ hold)
  have hpend' : (Process.exec image (t.procs self)).pml4PendingFree ≠ 0 → (t.procs self).pml4Owned =
    true ∧
        (Process.exec image (t.procs self)).pml4PendingFree = (t.procs self).pml4 := by
    simp only [Process.exec]
    split
    case isTrue h0 => exact fun _ => ⟨h0.1, rfl⟩
    case isFalse => exact fun h0 => absurd hpend h0
  have hlive : ∀ i, ((t.modify self (Process.exec image)).procs i).state ≠ .empty →
      (t.procs i).state ≠ .empty := by
    intro i hi
    by_cases his : i = self
    · exact his ▸ hself
    · rwa [Tasks.modify_other _ _ his] at hi
  -- what the process drops is what it owned
  have hback : ∀ i r, ((t.modify self (Process.exec image)).procs i).holds r →
      (i = self ∧ r = image.pml4) ∨ (t.procs i).holds r := by
    intro i r hr
    by_cases his : i = self
    · subst his
      rw [Tasks.modify_same] at hr
      rcases hr with ⟨_, h2⟩ | ⟨h1, h2⟩
      · exact .inl ⟨rfl, h2.symm⟩
      · exact .inr (.inl ⟨(hpend' h1).1, (hpend' h1).2.symm.trans h2⟩)
    · rw [Tasks.modify_other _ _ his] at hr
      exact .inr hr
  have hother : ∀ i r, (t.procs i).state ≠ .empty → (t.procs i).holds r → r ≠ image.pml4 := by
    rintro i r hi (⟨_, h2⟩ | ⟨h1, h2⟩) h0
    · exact hnew (h0 ▸ h2 ▸ h.uses i hi)
    · exact hnew (h0 ▸ h2 ▸ (h.pending i hi h1).1)
  refine ⟨fun i hi => h.bound i (hlive i hi), (h.grow hframe).frame, fun i hi => ?_, fun i hi hp =>
    ?_, fun i j r hi hj hr hr' => ?_⟩
  · by_cases his : i = self
    · subst his
      rw [Tasks.modify_same]
      exact .inl rfl
    · rw [Tasks.modify_other _ _ his] at hi ⊢
      exact .inr (h.uses i hi)
  · by_cases his : i = self
    · subst his
      rw [Tasks.modify_same] at hp ⊢
      rw [(hpend' hp).2]
      exact ⟨.inr hold, hne⟩
    · rw [Tasks.modify_other _ _ his] at hi hp ⊢
      exact ⟨.inr (h.pending i hi hp).1, (h.pending i hi hp).2⟩
  · rcases hback i r hr with ⟨hi', h0⟩ | h0
    · rcases hback j r hr' with ⟨hj', _⟩ | h1
      · exact hi'.trans hj'.symm
      · exact absurd h0 (hother j r (hlive j hj) h1)
    · rcases hback j r hr' with ⟨_, h1⟩ | h1
      · exact absurd h1 (hother i r (hlive i hi) h0)
      · exact h.once i j r (hlive i hi) (hlive j hj) h0 h1

def Birth.root : Birth → Option Word
  | .fork _ _ _ root => root
  | .clone _ _ _ => none
  | .spawn _ image => some image.pml4

def Change.root : Change → Option Word
  | .exec image => some image.pml4
  | .born b => b.root
  | _ => .none

theorem Birth.child_root_spec (t : Tasks) (b : Birth) : (b.child t).pml4Owned = false ∧
    (b.child t).pml4PendingFree = 0 ∧ (b.root = some (b.child t).pml4 ∨
      ∃ p, b.parent = some p ∧ (p ≠ b.slot → (b.child t).pml4 = (t.procs p).pml4)) := by
  cases b with
  | fork parent slot frame root =>
    cases root with
    | none => exact ⟨rfl, rfl, .inr ⟨parent, rfl, fun _ => rfl⟩⟩
    | some r => exact ⟨rfl, rfl, .inl rfl⟩
  | clone parent slot f =>
    simp only [child, cloneChild]
    refine ⟨trivial, trivial, .inr ⟨parent, rfl, fun h => ?_⟩⟩
    have hne : parent ≠ slot := h
    rw [Tasks.modify_other t (fun _ => {}) hne]
    rfl
  | spawn slot image => exact ⟨rfl, rfl, .inl rfl⟩

theorem Handled.fewer_of_reaped (h : Handled self t (.reaped x) t') (i : Nat) : Fewer (t.procs i)
    (t'.procs i) := by
  cases h with
  | reaped _ g hg hx h =>
    refine Fewer.trans ?_ (h.toSteady.fewer i)
    by_cases hix : i = x
    · subst hix
      rw [Tasks.modify_same]
      exact fun h0 => absurd rfl h0
    · rw [Tasks.modify_other _ _ hix, Tasks.modify_other _ _ hix]
      exact .refl _

theorem Handled.rooted (h : Handled self t c t') (hr : Rooted S t)
    (hself : ∀ image, c = .exec image → (t.procs self).state ≠ .empty ∧
      (t.procs self).pml4PendingFree = 0)
    (hpar : ∀ b p, c = .born b → b.parent = some p → (t.procs p).state ≠ .empty)
    (hnew : ∀ r, c.root = some r → r &&& addrMask = r ∧ ¬ S r) :
    Rooted (fun a => c.root = some a ∨ S a) t' := by
  have hsame : ∀ {u : Tasks}, c.root = none → Rooted S u →
      Rooted (fun a => c.root = some a ∨ S a) u := by
    intro u hc hu
    rw [hc]
    simpa using hu
  cases h with
  | held h => exact hsame rfl (hr.shrink h.toSteady.fewer)
  | ids uid euid gid egid hroot =>
    exact hsame rfl (hr.shrink (Fewer.modify t self (g := Process.withIds uid euid gid egid)
      fun h0 => ⟨h0, rfl, id, .inl rfl⟩))
  | exec image h =>
    obtain ⟨hs, hp⟩ := hself image rfl
    have h1 := hr.exec hs hp (hnew _ rfl).1 (hnew _ rfl).2
    have h2 : Rooted (fun a => a = image.pml4 ∨ S a) t' :=
      Rooted.shrink (t := { t.modify self (Process.exec image) with cr3 := _ })
        ⟨h1.bound, h1.frame, h1.uses, h1.pending, h1.once⟩ h.toSteady.fewer
    have heq : (fun a => (Change.exec image).root = some a ∨ S a) = fun a => a = image.pml4 ∨ S a := by
      funext a
      simp only [Change.root, Option.some_inj, eq_comm]
    rw [heq]
    exact h2
  | spent slot hslot p hp =>
    exact hsame rfl (hr.shrink (Fewer.modify { t with nextPid := t.nextPid + 1 } slot (g := fun _ => p)
      fun h0 => absurd hp h0))
  | born b hslot h =>
    obtain ⟨ho, hd, hroot⟩ := b.child_root_spec t
    obtain ⟨hlt, hempty⟩ := freeSlot_spec hslot
    have hgrown : Rooted (fun a => (Change.born b).root = some a ∨ S a) t := by
      cases hb : (Change.born b).root with
      | none => simpa using hr
      | some r =>
        have heq : (fun a => some r = some a ∨ S a) = fun a => a = r ∨ S a := by
          funext a
          simp only [Option.some_inj, eq_comm]
        rw [heq]
        exact hr.grow (hnew r hb).1
    refine Rooted.shrink (hgrown.fill hlt (b.apply_slot t) ?_ ho hd fun i hi => ?_) h.toSteady.fewer
    · rcases hroot with h0 | ⟨p, hp, h0⟩
      · exact .inl h0
      · have hlive := hpar b p rfl hp
        rw [h0 fun h1 => hlive (h1 ▸ hempty)]
        exact .inr (hr.uses p hlive)
    · rcases b.apply_other t hi with h0 | h0
      · rw [h0]
        exact .refl _
      · rw [h0]
        exact fun h1 => ⟨h1, rfl, nofun, .inl rfl⟩
  | reaped x g hg hx h =>
    have hh : Handled self t (.reaped x) _ := .reaped x g hg hx h
    exact hsame rfl (hr.shrink hh.fewer_of_reaped)

theorem Loaded.modify_other (h : Loaded t) (hi : t.current ≠ some i) : Loaded (t.modify i g) := by
  intro j hj
  have hji : j ≠ i := fun h0 => hi (h0 ▸ hj)
  rw [Tasks.modify_other t g hji]
  exact h j hj

theorem Loaded.modify_pml4 (h : Loaded t) (hg : (g (t.procs i)).pml4 = (t.procs i).pml4) :
    Loaded (t.modify i g) := by
  intro j hj
  by_cases hji : j = i
  · subst hji
    rw [Tasks.modify_same, hg]
    exact h j hj
  · rw [Tasks.modify_other t g hji]
    exact h j hj

theorem Birth.loaded (h : Loaded t) (ha : Alive t) (b : Birth) (hslot : t.freeSlot = some b.slot) :
    Loaded (b.apply t) := by
  have hcur : (b.apply t).current = t.current ∧ (b.apply t).cr3 = t.cr3 := by
    cases b <;> exact ⟨rfl, rfl⟩
  intro i hi
  rw [hcur.1] at hi
  have hne : i ≠ b.slot := fun h0 => ha.freeSlot_ne hi hslot h0.symm
  rw [hcur.2]
  rcases b.apply_other t hne with h0 | h0
  · rw [h0]
    exact h i hi
  · rw [h0]
    exact h i hi

theorem Handled.loaded (h : Handled self t c t') (ha : Alive t) (hl : Loaded t)
    (hc : ∀ image, c = .exec image → t.current = some self) : Loaded t' := by
  cases h with
  | held h => exact h.loaded hl
  | ids uid euid gid egid hroot => exact hl.modify_pml4 rfl
  | exec image h =>
    refine h.loaded fun i hi => ?_
    cases (hc image rfl).symm.trans hi
    simp only [Tasks.modify_same]
    rfl
  | spent slot hslot p hp =>
    exact Loaded.modify_other (t := { t with nextPid := t.nextPid + 1 }) hl
      fun h0 => ha.freeSlot_ne h0 hslot rfl
  | born b hslot h => exact h.loaded (b.loaded hl ha hslot)
  | reaped x g hg hx h =>
    have hcur : t.current ≠ some x := fun h0 => (ha x h0).2 hx
    have h1 : Loaded (t.modify x g) := hl.modify_other hcur
    exact h.loaded (h1.modify_other hcur)

/-- The root is not loaded, and no process uses it but one that is being reaped. -/
def Destroy.Safe (d : Destroy) : Prop :=
  d.root &&& addrMask ≠ d.tasks.cr3 ∧
    ∀ i, (d.tasks.procs i).state ≠ .empty → (d.tasks.procs i).pml4 &&& addrMask =
      d.root &&& addrMask → i = d.self ∧ (d.tasks.procs i).state = .terminated

section

variable {σ : Type} (env : Env σ)

structure Tracked (σ : Type) where
  system : System σ
  log : List (Entry Word Destroy)

def logged (k k' : System σ) (log : List (Entry Word Destroy)) : List (Entry Word Destroy) :=
  (k'.destroys.take (k'.destroys.length - k.destroys.length)).map .gave ++ log

def entered (k : System σ) : KernelOp σ → System σ
  | .call _ => k.tasks.current.elim k fun self => freePending env self k
  | _ => k

def trackedStep (s : Tracked σ) (op : KernelOp σ) : Tracked σ :=
  let k := kernelStep env s.system op
  let made := (stepChange env s.system op).root.toList.map .took
  { system := k
    log := logged (entered env s.system op) k (made ++ logged s.system (entered env s.system op) s.log) }

def FreshRoot (s : Tracked σ) (op : KernelOp σ) : Prop :=
  ∀ r ∈ (stepChange env s.system op).root, r &&& addrMask = r ∧
    out Destroy.root (logged s.system (entered env s.system op) s.log) r = false

structure Tracked.Sound (k : System σ) (log : List (Entry Word Destroy)) : Prop where
  alive : Alive k.tasks
  loaded : Loaded k.tasks
  rooted : Rooted (fun r => out Destroy.root log r = true) k.tasks
  balanced : Balanced Destroy.root Destroy.Safe log
  returns : returns log = k.destroys

open Tracked (Sound)

theorem logged_same (h : k'.destroys = k.destroys) : logged k k' log = log := by
  simp [logged, h]

theorem logged_cons (h : k'.destroys = d :: k.destroys) : logged k k' log = .gave d :: log := by
  simp [logged, h]

theorem not_usedElsewhere (h : pml4UsedElsewhere t root self = false)
    (hi : i < slotCount) (hs : (t.procs i).state ≠ .empty)
    (hr : (t.procs i).pml4 &&& addrMask = root &&& addrMask) : i = self := by
  by_contra hne
  unfold pml4UsedElsewhere at h
  rw [any_eq_false] at h
  exact h i (mem_range.mpr hi) (by simp [hne, hs, hr])

theorem freePending_spec (k : System σ) (self : Nat) :
    (freePending env self k = k ∧ (k.tasks.procs self).pml4PendingFree = 0) ∨
    ((freePending env self k).tasks = k.tasks.modify self Process.clearPending ∧
      (k.tasks.procs self).pml4PendingFree ≠ 0 ∧
      ((freePending env self k).destroys = k.destroys ∨
        (pml4UsedElsewhere k.tasks (k.tasks.procs self).pml4PendingFree self = false ∧
          (freePending env self k).destroys =
            { root := (k.tasks.procs self).pml4PendingFree, self := self, tasks := k.tasks } ::
              k.destroys))) := by
  unfold freePending
  dsimp only
  split
  case isTrue h => exact .inl ⟨rfl, h⟩
  case isFalse h =>
    refine .inr ⟨?_, h, ?_⟩
    · rw [System.modify_tasks, destroyUnused_tasks]
    unfold destroyUnused
    split
    case isTrue => exact .inl rfl
    case isFalse hu => exact .inr ⟨by simpa using hu, rfl⟩

theorem clearPending_rooted (h : Rooted S t) : Rooted S (t.modify self Process.clearPending) :=
  h.shrink (Fewer.modify t self (g := Process.clearPending) fun h0 => ⟨h0, rfl, id, .inr rfl⟩)

theorem freePending_sound (h : Sound k log) (hc : k.tasks.current = some self) :
    Sound (freePending env self k) (logged k (freePending env self k) log) ∧
      ((freePending env self k).tasks.procs self).pml4PendingFree = 0 := by
  have hself := (h.alive self hc).1
  have ha := (freePending_entered env hc).alive h.alive
  rcases freePending_spec env k self with ⟨h0, hp⟩ | ⟨ht, hp, hd⟩
  · rw [h0, logged_same rfl]
    exact ⟨h, hp⟩
  have hl : Loaded (freePending env self k).tasks := ht ▸ h.loaded.modify_pml4 rfl
  have hclear : ((freePending env self k).tasks.procs self).pml4PendingFree = 0 := by
    rw [ht, Tasks.modify_same]
    rfl
  refine ⟨?_, hclear⟩
  rcases hd with hd | ⟨hu, hd⟩
  · rw [logged_same hd]
    exact ⟨ha, hl, ht ▸ clearPending_rooted h.rooted, h.balanced, h.returns.trans hd.symm⟩
  rw [logged_cons hd]
  obtain ⟨hout, hne⟩ := h.rooted.pending self hself hp
  have huses : ∀ i, (k.tasks.procs i).state ≠ .empty →
      (k.tasks.procs i).pml4 &&& addrMask ≠ (k.tasks.procs self).pml4PendingFree &&& addrMask := by
    intro i hi h0
    cases not_usedElsewhere hu (h.rooted.bound i hi) hi h0
    rw [h.rooted.frame _ (h.rooted.uses self hself), h.rooted.frame _ hout] at h0
    exact hne h0.symm
  have hsafe : Destroy.Safe
      { root := (k.tasks.procs self).pml4PendingFree, self := self, tasks := k.tasks } := by
    refine ⟨fun h0 => huses self hself ?_, fun i hi h0 => absurd h0 (huses i hi)⟩
    rw [← h.loaded self hc]
    exact h0.symm
  refine ⟨ha, hl, ?_, ⟨hout, hsafe, h.balanced⟩, ?_⟩
  · refine Rooted.congr (Rooted.drop (ht ▸ clearPending_rooted h.rooted)
      (r := (k.tasks.procs self).pml4PendingFree) fun i hi => ?_) fun a => ?_
    · rw [ht] at hi ⊢
      by_cases his : i = self
      · subst his
        rw [Tasks.modify_same]
        exact ⟨hne.symm, fun h0 => absurd rfl h0⟩
      rw [Tasks.modify_other _ _ his] at hi ⊢
      refine ⟨fun h0 => huses i hi (by rw [h0]), fun h0 h1 => his ?_⟩
      exact h.rooted.once i self _ hi hself (.inr ⟨h0, h1⟩) (.inr ⟨hp, rfl⟩)
    · simp only [out, Bool.and_eq_true, decide_eq_true_eq]
  · rw [hd, ← h.returns]
    rfl

theorem handle_destroys (hd : decode f.rax ≠ .wait4) : (handle env self f k).2.destroys =
    k.destroys := by
  by_cases hc : decode f.rax = .connect
  · unfold handle doConnect
    rw [hc]
    dsimp only
    split
    · rfl
    split
    · rfl
    split
    · rfl
    · split <;> rfl
  · have hp : Parts k (handle env self f k).2 := handle_parts env hc hd
    refine hp.eq_of fun k k' h => ?_
    cases h <;> rfl

def reapTasks (self x : Nat) (t : Tasks) : Tasks :=
  t.modify (t.fdOwner self) (Process.takeOffsets (t.procs (t.fdOwner x)).fds)

theorem reapTasks_procs (self x : Nat) (t : Tasks) (i : Nat) :
    ((reapTasks self x t).procs i).state = (t.procs i).state ∧
      ((reapTasks self x t).procs i).pml4 = (t.procs i).pml4 ∧
      ((reapTasks self x t).procs i).pml4Owned = (t.procs i).pml4Owned := by
  unfold reapTasks
  rw [Tasks.modify_procs]
  split
  case isTrue h => exact h ▸ ⟨rfl, rfl, rfl⟩
  case isFalse => exact ⟨rfl, rfl, rfl⟩

theorem reap_destroys (self x : Nat) (f : SyscallFrame) (k : System σ) :
    (reap env self x f k).destroys = k.destroys ∨
    ((k.tasks.procs x).pml4Owned = true ∧ (k.tasks.procs x).pml4 ≠ k.tasks.cr3 &&& addrMask ∧
      pml4UsedElsewhere (reapTasks self x k.tasks) (k.tasks.procs x).pml4 x = false ∧
      (reap env self x f k).destroys =
        { root := (k.tasks.procs x).pml4, self := x, tasks := reapTasks self x k.tasks } ::
          k.destroys) := by
  obtain ⟨_, hpml4, hown⟩ := reapTasks_procs self x k.tasks x
  have hreap : (reap env self x f k).destroys =
    (if ((reapTasks self x k.tasks).procs x).pml4Owned = true ∧
          ((reapTasks self x k.tasks).procs x).pml4 ≠ 0 ∧
          ((reapTasks self x k.tasks).procs x).pml4 ≠ k.tasks.cr3 &&& addrMask then
        destroyUnused env ((reapTasks self x k.tasks).procs x).pml4 x
          { k with tasks := reapTasks self x k.tasks }
      else k).destroys := by
    unfold reap
    dsimp only
    split
    case isTrue h =>
      refine Eq.trans ?_ (congrArg System.destroys (if_pos h).symm)
      split <;> rfl
    case isFalse h =>
      refine Eq.trans ?_ (congrArg System.destroys (if_neg h).symm)
      split <;> rfl
  rw [hreap, hpml4, hown]
  split
  case isTrue h =>
    unfold destroyUnused
    split
    case isTrue => exact .inl rfl
    case isFalse hu => exact .inr ⟨h.1, h.2.2, by simpa using hu, rfl⟩
  case isFalse => exact .inl rfl

theorem doWait4_destroys (self : Nat) (f : SyscallFrame) (k : System σ) :
    (doWait4 env self f k).2.destroys =
      match findTerminated k.tasks self (wantedPid f) with
      | some x => (reap env self x f k).destroys
      | none => k.destroys := by
  have hwait : ∀ k : System σ, (waitForChild self f k).2.destroys = k.destroys := by
    intro k
    unfold waitForChild System.switching
    dsimp only
    split <;> rfl
  have hscan : (doWait4 env self f k).2.destroys = (scanChildren env self f k).2.destroys := by
    unfold doWait4
    dsimp only
    split
    · rfl
    split
    · rfl
    split
    · rfl
    · exact hwait _
  rw [hscan]
  unfold scanChildren
  cases findTerminated k.tasks self (wantedPid f) with
  | some x => rfl
  | none => rfl

theorem reap_sound (h : Sound k log) (hc : k.tasks.current = some self)
    (hx : (k.tasks.procs x).state = .terminated) (hh : Handled self k.tasks (.reaped x) k'.tasks)
    (hd : k'.destroys = (reap env self x f k).destroys) : Sound k' (logged k k' log) := by
  have hne : (k.tasks.procs x).state ≠ .empty := fun h0 => absurd (hx.symm.trans h0) nofun
  have ha := hh.alive h.alive
  have hl := hh.loaded h.alive h.loaded nofun
  have hr : Rooted (fun r => out Destroy.root log r = true) k'.tasks :=
    (hh.rooted h.rooted nofun nofun nofun).congr fun a => by simp [Change.root]
  rcases reap_destroys env self x f k with h0 | ⟨hown, hcr3, hu, h0⟩
  · rw [logged_same (hd.trans h0)]
    exact ⟨ha, hl, hr, h.balanced, h.returns.trans (hd.trans h0).symm⟩
  rw [logged_cons (hd.trans h0)]
  have hproc := reapTasks_procs self x k.tasks
  have hout := h.rooted.uses x hne
  have huses : ∀ i, (k.tasks.procs i).state ≠ .empty → (k.tasks.procs i).pml4 &&& addrMask =
      (k.tasks.procs x).pml4 &&& addrMask → i = x := by
    intro i hi hm
    refine not_usedElsewhere hu (h.rooted.bound i hi) ?_ ?_
    · rw [(hproc i).1]
      exact hi
    · rw [(hproc i).2.1]
      exact hm
  have hmask : k.tasks.cr3 &&& addrMask = k.tasks.cr3 := by
    rw [h.loaded self hc, BitVec.and_assoc, BitVec.and_self]
  have hsafe : Destroy.Safe
      { root := (k.tasks.procs x).pml4, self := x, tasks := reapTasks self x k.tasks } := by
    refine ⟨fun h1 => hcr3 ?_, fun i hi h1 => ?_⟩
    · rw [hmask, ← h.rooted.frame _ hout]
      exact h1
    rw [(hproc i).1] at hi ⊢
    rw [(hproc i).2.1] at h1
    cases huses i hi h1
    exact ⟨rfl, hx⟩
  refine ⟨ha, hl, (hr.drop (r := (k.tasks.procs x).pml4) fun i hi => ?_).congr fun a => ?_,
    ⟨hout, hsafe, h.balanced⟩, ?_⟩
  · have hix : i ≠ x := fun h1 => hi (h1 ▸ hh.reaped_spec.2)
    obtain ⟨hi', hpml4, _, hpend⟩ := hh.fewer_of_reaped i hi
    refine ⟨fun h1 => hix (huses i hi' (by rw [← hpml4, h1])), fun h1 h2 => hix ?_⟩
    rcases hpend with h3 | h3
    · rw [h3] at h1 h2
      exact h.rooted.once i x _ hi' hne (.inr ⟨h1, h2⟩) (.inl ⟨hown, rfl⟩)
    · exact absurd h3 h1
  · simp only [out, Bool.and_eq_true, decide_eq_true_eq]
  · rw [hd, h0, ← h.returns]
    rfl

theorem changed_sound (h : Sound k log) (hh : Handled self k.tasks c k'.tasks)
    (hd : k'.destroys = k.destroys) (hexec : ∀ image, c = .exec image →
      k.tasks.current = some self ∧ (k.tasks.procs self).pml4PendingFree = 0)
    (hpar : ∀ b p, c = .born b → b.parent = some p → k.tasks.current = some p)
    (hnew : ∀ r ∈ c.root, r &&& addrMask = r ∧ out Destroy.root log r = false) :
    Sound k' (logged k k' (c.root.toList.map .took ++ log)) := by
  rw [logged_same hd]
  have hr := hh.rooted h.rooted
    (fun image h0 => ⟨(h.alive self (hexec image h0).1).1, (hexec image h0).2⟩)
    (fun b p h0 h1 => (h.alive p (hpar b p h0 h1)).1)
    (fun r h0 => ⟨(hnew r h0).1, by rw [(hnew r h0).2]; nofun⟩)
  have hl := hh.loaded h.alive h.loaded fun image h0 => (hexec image h0).1
  cases hc : c.root with
  | none =>
    rw [hc] at hr
    refine ⟨hh.alive h.alive, hl, hr.congr fun a => ?_, h.balanced, h.returns.trans hd.symm⟩
    simp
  | some r =>
    rw [hc] at hr
    refine ⟨hh.alive h.alive, hl, hr.congr fun a => ?_, h.balanced, h.returns.trans hd.symm⟩
    simp only [Option.toList_some, map_cons, map_nil, cons_append, nil_append, out,
      Bool.or_eq_true, decide_eq_true_eq, Option.some_inj]
    rw [eq_comm]

theorem call_sound (h : Sound k log) (hc : k.tasks.current = some self)
    (hp : (k.tasks.procs self).pml4PendingFree = 0)
    (hnew : ∀ r ∈ (changeOf env self f k).root, r &&& addrMask = r ∧ out Destroy.root log r = false) :
    Sound (handle env self f k).2 (logged k (handle env self f k).2
      ((changeOf env self f k).root.toList.map .took ++ log)) := by
  have hh := handle_handled env (f := f) h.alive hc
  have hpar : ∀ b p, changeOf env self f k = .born b → b.parent = some p → k.tasks.current = some p := by
    intro b p hb hbp
    rw [changeOf_parent env hb hbp]
    exact hc
  by_cases hd : decode f.rax = .wait4
  · have hw : (handle env self f k).2.destroys = (doWait4 env self f k).2.destroys := by
      unfold handle
      rw [hd]
    rw [doWait4_destroys] at hw
    cases hx : findTerminated k.tasks self (wantedPid f) with
    | none =>
      rw [hx] at hw
      exact changed_sound h hh hw (fun _ _ => ⟨hc, hp⟩) hpar hnew
    | some x =>
      rw [hx] at hw
      have hch : changeOf env self f k = .reaped x := by
        unfold changeOf
        rw [hd]
        rw [hx]
        rfl
      rw [hch] at hh ⊢
      exact reap_sound env h hc (findTerminated_spec hx).2.1 hh hw
  · exact changed_sound h hh (handle_destroys env hd) (fun _ _ => ⟨hc, hp⟩) hpar hnew

theorem spawn_not_exec (r : SpawnResult) (image : ExecImage) :
    stepChange env k (.spawn r) ≠ .exec image := by
  cases r with
  | early | late => exact nofun
  | loaded image' =>
    unfold stepChange
    cases k.tasks.freeSlot <;> exact nofun

theorem trackedStep_sound (h : Sound s.system s.log) (op : KernelOp σ) (hf : FreshRoot env s op) :
    Sound (trackedStep env s op).system (trackedStep env s op).log := by
  have hkeep : ∀ {op : KernelOp σ}, entered env s.system op = s.system →
      Sound (entered env s.system op) (logged s.system (entered env s.system op) s.log) := by
    intro op h0
    rw [h0, logged_same rfl]
    exact h
  cases op with
  | call f =>
    cases hc : s.system.tasks.current with
    | none =>
      have hsame : kernelStep env s.system (.call f) = s.system := by
        simp only [kernelStep, dispatch, hc]
      have hch : stepChange env s.system (.call f) = .none := by
        simp only [stepChange, hc, Option.elim_none]
      have hent : entered env s.system (.call f) = s.system := by
        simp only [entered, hc, Option.elim_none]
      simp only [trackedStep, hsame, hch, hent, logged_same]
      exact h
    | some self =>
      obtain ⟨h1, hp⟩ := freePending_sound env h hc
      have hstep : kernelStep env s.system (.call f) =
          (handle env self f (freePending env self s.system)).2 := by
        simp only [kernelStep, dispatch, hc]
      have hch : stepChange env s.system (.call f) =
          changeOf env self f (freePending env self s.system) := by
        simp only [stepChange, hc, Option.elim_some]
      have hent : entered env s.system (.call f) = freePending env self s.system := by
        simp only [entered, hc, Option.elim_some]
      simp only [FreshRoot, trackedStep, hstep, hch, hent] at hf ⊢
      exact call_sound env h1 ((freePending_entered env hc).current.trans hc) hp hf
  | timer f =>
    exact changed_sound (c := .none) (hkeep rfl)
      (.held (onTimer_quiet h.alive _ f).toHeld : Handled 0 _ _ _)
      rfl (fun _ h0 => by cases h0) (fun _ _ h0 => by cases h0) (fun _ h0 => by cases h0)
  | spawn r =>
    exact changed_sound (hkeep rfl) (spawn_handled env h.alive r s.system rfl : Handled 0 _ _ _) rfl
      (fun image h0 => absurd h0 (spawn_not_exec env r image))
      (fun b p hb hp => stepChange_parent env hb hp) hf
  | start i =>
    exact changed_sound (c := .none) (hkeep rfl) (.held (start_held h.alive i) : Handled 0 _ _ _) rfl
      (fun _ h0 => by cases h0) (fun _ _ h0 => by cases h0) (fun _ h0 => by cases h0)
  | machine m =>
    exact changed_sound (c := .none) (hkeep rfl) (.held (.refl h.alive) : Handled 0 _ _ _) rfl
      (fun _ h0 => by cases h0) (fun _ _ h0 => by cases h0) (fun _ h0 => by cases h0)

def bootTracked (m : σ) : Tracked σ := { system := bootSystem m, log := [] }

theorem boot_sound (m : σ) : Sound (bootTracked m).system (bootTracked m).log := by
  refine ⟨boot_alive, Loaded.none rfl, ?_, trivial, rfl⟩
  have hempty : ∀ i, (bootTasks.procs i).state = .empty := fun _ => rfl
  exact ⟨fun i hi => absurd (hempty i) hi, nofun, fun i hi => absurd (hempty i) hi,
    fun i hi => absurd (hempty i) hi, fun i _ _ hi => absurd (hempty i) hi⟩

theorem destroys_along (m : σ) (ops : List (KernelOp σ))
    (hf : Along (trackedStep env) (FreshRoot env) (bootTracked m) ops) :
    returns (runFrom (trackedStep env) (bootTracked m) ops).log =
        (runFrom (trackedStep env) (bootTracked m) ops).system.destroys ∧
      ∀ later d earlier, (runFrom (trackedStep env) (bootTracked m) ops).log =
          later ++ .gave d :: earlier → d.Safe ∧ out Destroy.root earlier d.root = true := by
  have h := Along.invariant (I := fun s : Tracked σ => Sound s.system s.log)
    (fun s op hs hf => trackedStep_sound env hs op hf) (boot_sound m) hf
  refine ⟨h.returns, fun later d earlier hlog => ?_⟩
  have hb := h.balanced
  rw [hlog] at hb
  exact ⟨hb.gave.2, hb.gave.1⟩

instance (s : Tracked σ) (op : KernelOp σ) : Decidable (FreshRoot env s op) :=
  decidable_of_iff ((stepChange env s.system op).root.all (fun r => decide (r &&& addrMask = r ∧
    out Destroy.root (logged s.system (entered env s.system op) s.log) r = false)) = true)
    (by simp only [FreshRoot, Option.all_eq_true, decide_eq_true_eq, Option.mem_def])

end

def countingEnv : Env Nat :=
  { uptimeMs := fun _ => 0
    isUserRange := fun _ _ _ _ _ => true
    load := fun _ _ _ => 0
    store := fun m _ _ _ => m
    cloneForFork := fun m _ => (BitVec.ofNat 64 (0x200000 + 0x1000 * m), m + 1)
    destroyUserSpace := fun m _ => m
    execImage := fun k _ =>
      (some { pml4 := BitVec.ofNat 64 (0x200000 + 0x1000 * k.mem), entry := 0x400000, rsp := 0x7fff0000 }, k.mem + 1)
    execFile := fun _ _ => true
    rest := fun k _ =>
      { mem := k.mem, fds := [], brkCurrent := 0, brkMapped := 0, mmapNext := 0, cwd := [], rax := 0 }
    userReturn := 0xffff000
    savedRsp := fun _ => 0xffff800 }

def execTwice : List (KernelOp Nat) :=
  [.spawn (.loaded firstImage), .start 0, .call (plainCall 48), .call (plainCall 48),
    .call (plainCall 91), .call (plainCall 46), .call (plainCall 48), .call (plainCall 44),
    .call { plainCall 43 with rdi := -1 }]

theorem destroys_along_execTwice :
    (runFrom (trackedStep countingEnv) (bootTracked 0) execTwice).system.destroys.map Destroy.root =
        [0x203000, 0x200000] ∧
      ∀ later d earlier, (runFrom (trackedStep countingEnv) (bootTracked 0) execTwice).log =
        later ++ .gave d :: earlier → d.Safe ∧ out Destroy.root earlier d.root = true :=
  ⟨by decide +kernel, (destroys_along countingEnv 0 execTwice (by decide +kernel)).2⟩

end BlockOS.Kernel
