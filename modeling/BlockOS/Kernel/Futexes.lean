import BlockOS.Kernel.Alarms

/-! The table of futex waiters. -/

namespace BlockOS.Kernel
open Words Runs List Function

section

variable {σ : Type} (env : Env σ) {k k' : System σ}

theorem futexesRule : TaskRule fun k k' : System σ => k'.futexes = k.futexes where
  refl _ := rfl
  trans h h' := h'.trans h
  mem _ _ := rfl
  setFd _ _ _ _ := rfl
  socks _ := rfl
  tasks _ _ := rfl

theorem reap_futexes (x : Nat) : (reap env self x f k).futexes = k.futexes := by
  unfold reap destroyUnused
  dsimp only
  split
  · split <;> split <;> rfl
  · split <;> rfl

theorem doWait4_futexes : (doWait4 env self f k).2.futexes = k.futexes := by
  have hs : (scanChildren env self f k).2.futexes = k.futexes := by
    unfold scanChildren
    split
    · exact reap_futexes ..
    · rfl
  unfold doWait4 waitForChild
  dsimp only
  split
  · exact hs
  split
  · exact hs
  split
  · exact hs
  · exact (switching_rel futexesRule fun _ => rfl).trans hs

theorem handle_futexes (hd : decode f.rax ≠ .futex) (hx : ¬ exits f) :
    (handle env self f k).2.futexes = k.futexes := by
  by_cases hw : decode f.rax = .wait4
  · unfold handle
    rw [hw]
    exact doWait4_futexes env
  by_cases hc : decode f.rax = .connect
  · unfold handle
    rw [hc]
    dsimp only
    fun_cases doConnect env self f k <;> rfl
  refine handle_rel env futexesRule (fun h => ?_) hc hw
  unfold exits at hx
  simp_all

end

section

variable {σ : Type} {k k' k'' : System σ} {addr : Word} {i j : Nat}

def isEntry (addr : Word) (k : System σ) (j : Nat) : Bool :=
  (k.futexes j).used && decide ((k.futexes j).addr = addr)

theorem isEntry_iff : isEntry addr k j = true ↔ (k.futexes j).used = true ∧
    (k.futexes j).addr = addr := by
  unfold isEntry
  rw [Bool.and_eq_true, decide_eq_true_eq]

def entriesAt (addr : Word) (k : System σ) : List Nat :=
    (List.range futexCount).filter (isEntry addr k)

def entryOwner (k : System σ) (j : Nat) : Nat := (k.tasks.get (k.futexes j).pid).getD 0

structure Woke (owner : Nat → Nat) (L : List Nat) (k k' : System σ) : Prop where
  procs : ∀ i, k'.tasks.procs i = if i ∈ L.map owner then (k.tasks.procs i).awake else k.tasks.procs i
  futexes : ∀ j, k'.futexes j = if j ∈ L then { k.futexes j with used := false } else k.futexes j
  current : k'.tasks.current = k.tasks.current

theorem Process.awake_awake (p : Process) : p.awake.awake = p.awake := by
  rw [Process.awake.eq_def p.awake, if_neg (awake_state p)]

theorem Woke.nil (owner : Nat → Nat) (k : System σ) : Woke owner [] k k :=
  ⟨fun _ => (if_neg not_mem_nil).symm, fun _ => (if_neg not_mem_nil).symm, rfl⟩

theorem Woke.cons
    (h : Woke owner L ((k.setWaiter j { k.futexes j with used := false }).modify (owner j)
      Process.awake) k') :
    Woke owner (j :: L) k k' := by
  refine ⟨fun i => ?_, fun n => ?_, h.current⟩
  · rw [h.procs, System.modify_tasks, Tasks.modify_procs, map_cons]
    by_cases hi : i = owner j
    · subst hi
      rw [if_pos rfl, if_pos mem_cons_self, Process.awake_awake]
      exact ite_self _
    · simp only [mem_cons, hi, false_or, if_false]
      rfl
  · rw [h.futexes]
    change (if n ∈ L then { update k.futexes j { k.futexes j with used := false } n with used := false }
      else update k.futexes j { k.futexes j with used := false } n) = _
    by_cases hn : n = j
    · subst hn
      rw [update_self, if_pos mem_cons_self]
      exact ite_self _
    · rw [update_of_ne hn]
      simp only [mem_cons, hn, false_or]

structure Owned (owner : Nat → Nat) (addr : Word) (j fuel : Nat) (k : System σ) : Prop where
  sleeps : ∀ n, j ≤ n → n < j + fuel → isEntry addr k n = true →
    k.tasks.get (k.futexes n).pid = some (owner n) ∧ (k.tasks.procs (owner n)).state = .blocked
  apart : ∀ n m, j ≤ n → n < j + fuel → j ≤ m → m < j + fuel → isEntry addr k n = true →
    isEntry addr k m = true → owner n = owner m → n = m

theorem isEntry_congr (h : k'.futexes j = k.futexes j) : isEntry addr k' j = isEntry addr k j := by
  unfold isEntry
  simp only [h]

theorem isEntry_clear (hn : n ≠ j) : isEntry addr ((k.setWaiter j w).modify i g) n =
    isEntry addr k n :=
  isEntry_congr (update_of_ne hn ..)

theorem Owned.next (h : Owned owner addr j (fuel + 1) k) : Owned owner addr (j + 1) fuel k :=
  ⟨fun n h1 h2 => h.sleeps n (by omega) (by omega),
    fun n m h1 h2 h3 h4 => h.apart n m (by omega) (by omega) (by omega) (by omega)⟩

theorem Owned.after (h : Owned owner addr j (fuel + 1) k) (hj : isEntry addr k j = true) :
    Owned owner addr (j + 1) fuel ((k.setWaiter j { k.futexes j with used := false }).modify
      (owner j) Process.awake) := by
  refine ⟨fun n h1 h2 hn => ?_, fun n m h1 h2 h3 h4 hn hm => ?_⟩
  · have hne : n ≠ j := by omega
    rw [isEntry_clear hne] at hn
    obtain ⟨hg, hb⟩ := h.next.sleeps n h1 h2 hn
    have hown : owner n ≠ owner j :=
      fun h0 => hne (h.apart n j (by omega) (by omega) le_rfl (by omega) hn hj h0)
    rw [System.modify_tasks, (awake_calm _ _).get, Tasks.modify_other _ _ hown]
    change k.tasks.get (update k.futexes j _ n).pid = _ ∧ _
    rw [update_of_ne hne]
    exact ⟨hg, hb⟩
  · rw [isEntry_clear (by omega)] at hn hm
    exact h.next.apart n m h1 h2 h3 h4 hn hm

theorem wakeFutexFrom_spec {count woken : Nat} (hw : woken < count)
    (h : Owned owner addr j fuel k) :
    Woke owner (((List.range' j fuel).filter (isEntry addr k)).take (count - woken)) k
      (wakeFutexFrom addr count fuel j woken k) := by
  induction fuel generalizing j woken k with
  | zero =>
    rw [List.range'_zero, filter_nil, take_nil]
    exact .nil owner k
  | succ fuel ih =>
    unfold wakeFutexFrom
    dsimp only
    rw [List.range'_succ]
    cases hj : isEntry addr k j with
    | false =>
      have hskip : (!(k.futexes j).used || (k.futexes j).addr != addr) = true := by
        unfold isEntry at hj
        simpa [imp_iff_not_or] using hj
      rw [filter_cons_of_neg (by rw [hj]; decide), if_pos hskip]
      exact ih hw h.next
    | true =>
      obtain ⟨hu, ha⟩ := isEntry_iff.mp hj
      obtain ⟨hg, hb⟩ := h.sleeps j le_rfl (by omega) hj
      have hskip : ¬ (!(k.futexes j).used || (k.futexes j).addr != addr) = true := by simp [hu, ha]
      have hget : (k.setWaiter j { k.futexes j with used := false }).tasks.get (k.futexes j).pid =
        some (owner j) := hg
      have hblock : ((k.setWaiter j { k.futexes j with used := false }).tasks.procs (owner j)).state
        = .blocked := hb
      obtain ⟨m, hm⟩ : ∃ m, count - woken = m + 1 := ⟨count - woken - 1, by omega⟩
      rw [filter_cons_of_pos hj, if_neg hskip, hget, hm, take_succ_cons]
      dsimp only
      rw [if_pos hblock]
      refine Woke.cons ?_
      split
      case isTrue hlast =>
        rw [show m = 0 by omega, take_zero]
        exact .nil owner _
      case isFalse hmore =>
        have hsame : (List.range' (j + 1) fuel).filter (isEntry addr k) =
            (List.range' (j + 1) fuel).filter (isEntry addr
              ((k.setWaiter j { k.futexes j with used := false }).modify (owner j) Process.awake)) := by
          refine filter_congr fun n hn => (isEntry_clear ?_).symm
          have := left_le_of_mem_range' hn
          omega
        rw [hsame, show m = count - (woken + 1) by omega]
        exact ih (by omega) (h.after hj)

theorem wakeFutex_spec {count : Nat} (hc : 0 < count) (h : Owned owner addr 0 futexCount k) :
    Woke owner ((entriesAt addr k).take count) k (wakeFutex addr count k) := by
  unfold entriesAt
  rw [range_eq_range']
  exact wakeFutexFrom_spec hc h

end

section

variable {σ : Type} {waits : Nat → Option Wait} {k k' : System σ} {addr : Word} {i self : Nat}
  {S : Act → Prop}

structure Queue (waits : Nat → Option Wait) (k : System σ) : Prop where
  listed : ∀ i addr, waits i = some (.futex addr) → (k.tasks.procs i).state = .blocked →
    ∃ j < futexCount, isEntry addr k j = true ∧ (k.futexes j).pid = (k.tasks.procs i).tid
  owned : ∀ j < futexCount, (k.futexes j).used = true → ∃ i, waits i = some (.futex (k.futexes j).addr) ∧
    (k.tasks.procs i).state = .blocked ∧ (k.tasks.procs i).tid = (k.futexes j).pid
  single : ∀ j < futexCount, ∀ n < futexCount, (k.futexes j).used = true →
    (k.futexes n).used = true → (k.futexes j).pid = (k.futexes n).pid → j = n

def Finds (t : Tasks) : Prop := ∀ i, (t.procs i).state = .blocked → t.get (t.procs i).tid = some i

theorem UniqueIds.finds_blocked (h : UniqueIds t) (hp : Placed t) : Finds t := by
  intro i hb
  have hne : (t.procs i).state ≠ .empty := by
    rw [hb]
    nofun
  exact h.finds i ⟨hp i hne, hne⟩

theorem Calm.finds (h : Calm t t') (hf : Finds t) : Finds t' := by
  intro i hb
  have hb0 : (t.procs i).state = .blocked := by
    rcases h.state i with h0 | ⟨h0, -⟩
    · exact h0 ▸ hb
    · exact h0
  rw [h.get, show (t'.procs i).tid = (t.procs i).tid from congrArg Core.tid (h.core i)]
  exact hf i hb0

theorem Queue.owner (h : Queue waits k) (hf : Finds k.tasks) (hj : j < futexCount)
    (hu : (k.futexes j).used = true) :
    waits (entryOwner k j) = some (.futex (k.futexes j).addr) ∧
      (k.tasks.procs (entryOwner k j)).state = .blocked ∧
      (k.tasks.procs (entryOwner k j)).tid = (k.futexes j).pid ∧
      k.tasks.get (k.futexes j).pid = some (entryOwner k j) := by
  obtain ⟨i, hw, hb, ht⟩ := h.owned j hj hu
  have hg : k.tasks.get (k.futexes j).pid = some i := ht ▸ hf i hb
  have ho : entryOwner k j = i := by
    unfold entryOwner
    rw [hg]
    rfl
  rw [ho]
  exact ⟨hw, hb, ht, hg⟩

theorem Queue.entryOwner_inj (h : Queue waits k) (hf : Finds k.tasks) (hj : j < futexCount)
    (hn : n < futexCount) (hu : (k.futexes j).used = true) (hu' : (k.futexes n).used = true)
    (he : entryOwner k j = entryOwner k n) : j = n := by
  refine h.single j hj n hn hu hu' ?_
  rw [← (h.owner hf hj hu).2.2.1, ← (h.owner hf hn hu').2.2.1, he]

theorem Queue.toOwned (h : Queue waits k) (hf : Finds k.tasks) (addr : Word) :
    Owned (entryOwner k) addr 0 futexCount k := by
  refine ⟨fun n _ hn he => ?_, fun n m _ hn _ hm he he' ho => ?_⟩
  · obtain ⟨-, hb, -, hg⟩ := h.owner hf (by omega) (isEntry_iff.mp he).1
    exact ⟨hg, hb⟩
  · exact h.entryOwner_inj hf (by omega) (by omega) (isEntry_iff.mp he).1 (isEntry_iff.mp he').1 ho

theorem mem_entriesAt : j ∈ entriesAt addr k ↔ j < futexCount ∧ isEntry addr k j = true := by
  unfold entriesAt
  rw [mem_filter, mem_range]

theorem Queue.woke (h : Queue waits k) (hf : Finds k.tasks) (hL : ∀ j ∈ L, j ∈ entriesAt addr k)
    (hw : Woke (entryOwner k) L k k') : Queue waits k' := by
  have hlt : ∀ j ∈ L, j < futexCount ∧ (k.futexes j).used = true := fun j hj =>
    ⟨(mem_entriesAt.mp (hL j hj)).1, (isEntry_iff.mp (mem_entriesAt.mp (hL j hj)).2).1⟩
  have hawake : ∀ i, (k'.tasks.procs i).state = .blocked → i ∉ L.map (entryOwner k) ∧
      k'.tasks.procs i = k.tasks.procs i := by
    intro i hb
    rw [hw.procs] at hb ⊢
    split at hb
    · exact absurd hb (awake_state _)
    case isFalse h0 => exact ⟨h0, if_neg h0⟩
  have hused : ∀ j, (k'.futexes j).used = true → j ∉ L ∧ k'.futexes j = k.futexes j := by
    intro j hu
    rw [hw.futexes] at hu ⊢
    split at hu
    · cases hu
    case isFalse h0 => exact ⟨h0, if_neg h0⟩
  refine ⟨fun i addr' hi hb => ?_, fun j hj hu => ?_, fun j hj n hn hu hu' hp => ?_⟩
  · obtain ⟨hnot, hp⟩ := hawake i hb
    rw [hp] at hb ⊢
    obtain ⟨j, hj, he, hpid⟩ := h.listed i addr' hi hb
    have hu := (isEntry_iff.mp he).1
    have howner : entryOwner k j = i := by
      have hg := (h.owner hf hj hu).2.2.2
      rw [hpid, hf i hb] at hg
      exact (Option.some.inj hg).symm
    have hjL : j ∉ L := fun h0 => hnot (mem_map.mpr ⟨j, h0, howner⟩)
    have hsame : k'.futexes j = k.futexes j := (hw.futexes j).trans (if_neg hjL)
    exact ⟨j, hj, (isEntry_congr hsame).trans he, hsame ▸ hpid⟩
  · obtain ⟨hjL, hsame⟩ := hused j hu
    rw [hsame] at hu ⊢
    obtain ⟨h1, h2, h3, -⟩ := h.owner hf hj hu
    have hnot : entryOwner k j ∉ L.map (entryOwner k) := by
      intro h0
      obtain ⟨n, hn, he⟩ := mem_map.mp h0
      exact hjL (h.entryOwner_inj hf (hlt n hn).1 hj (hlt n hn).2 hu he ▸ hn)
    have hp : k'.tasks.procs (entryOwner k j) = k.tasks.procs (entryOwner k j) :=
      (hw.procs _).trans (if_neg hnot)
    exact ⟨entryOwner k j, h1, hp ▸ h2, hp ▸ h3⟩
  · obtain ⟨-, hj'⟩ := hused j hu
    obtain ⟨-, hn'⟩ := hused n hu'
    rw [hj'] at hu hp
    rw [hn'] at hu' hp
    exact h.single j hj n hn hu hu' hp

theorem Queue.sleepsOn (h : Queue waits k) (hs : ∀ i addr, waits i = some (.futex addr) →
      ((k'.tasks.procs i).state = .blocked → (k.tasks.procs i).state = .blocked) ∧
      ((k.tasks.procs i).state = .blocked → SleepsOn i k.tasks k'.tasks))
    (hfx : k'.futexes = k.futexes) : Queue waits k' := by
  refine ⟨fun i addr hw hb => ?_, fun j hj hu => ?_, ?_⟩
  · obtain ⟨hback, hon⟩ := hs i addr hw
    obtain ⟨j, hj, he, hp⟩ := h.listed i addr hw (hback hb)
    refine ⟨j, hj, (isEntry_congr (congrFun hfx j)).trans he, ?_⟩
    rw [hfx, hp]
    exact (congrArg Core.tid (hon (hback hb)).core).symm
  · rw [hfx] at hu ⊢
    obtain ⟨i, hw, hb, ht⟩ := h.owned j hj hu
    have hon := (hs i _ hw).2 hb
    exact ⟨i, hw, hon.state, (congrArg Core.tid hon.core).trans ht⟩
  · rw [hfx]
    exact h.single

theorem Queue.push (h : Queue waits k) (hj : j < futexCount) (hfree : (k.futexes j).used = false)
    (hself : (k.tasks.procs self).state = .blocked) (hout : ∀ addr, waits self ≠ some (.futex addr))
    (htid : ∀ i addr, waits i = some (.futex addr) → (k.tasks.procs i).state = .blocked →
      (k.tasks.procs i).tid ≠ (k.tasks.procs self).tid) :
    Queue (update waits self (some (.futex addr)))
      (k.setWaiter j { used := true, addr := addr, pid := (k.tasks.procs self).tid }) := by
  have hother : ∀ n, n ≠ j →
    (k.setWaiter j { used := true, addr := addr, pid := (k.tasks.procs self).tid }).futexes n =
      k.futexes n := fun n hn => update_of_ne hn ..
  have hnew : (k.setWaiter j { used := true, addr := addr, pid := (k.tasks.procs self).tid }).futexes j =
      { used := true, addr := addr, pid := (k.tasks.procs self).tid } := update_self ..
  have hne : ∀ n, (k.futexes n).used = true → n ≠ j := by
    rintro n hu rfl
    rw [hfree] at hu
    cases hu
  -- the new number stands in no other entry
  have hfresh : ∀ n < futexCount, (k.futexes n).used = true →
      (k.futexes n).pid ≠ (k.tasks.procs self).tid := by
    intro n hn hu h0
    obtain ⟨i, hw, hb, ht⟩ := h.owned n hn hu
    exact htid i _ hw hb (ht.trans h0)
  refine ⟨fun i a hw hb => ?_, fun n hn hu => ?_, fun n hn m hm hu hu' hp => ?_⟩
  · by_cases hi : i = self
    · subst hi
      rw [update_self] at hw
      cases hw
      exact ⟨j, hj, isEntry_iff.mpr (by rw [hnew]; exact ⟨rfl, rfl⟩), by rw [hnew]; rfl⟩
    · rw [update_of_ne hi] at hw
      obtain ⟨n, hn, he, hp⟩ := h.listed i a hw hb
      have hnj := hne n (isEntry_iff.mp he).1
      exact ⟨n, hn, (isEntry_congr (hother n hnj)).trans he, by rw [hother n hnj]; exact hp⟩
  · by_cases hnj : n = j
    · subst hnj
      rw [hnew]
      exact ⟨self, update_self .., hself, rfl⟩
    · rw [hother n hnj] at hu ⊢
      obtain ⟨i, hw, hb, ht⟩ := h.owned n hn hu
      have hi : i ≠ self := by
        rintro rfl
        exact hout _ hw
      exact ⟨i, (update_of_ne hi ..).trans hw, hb, ht⟩
  · by_cases hnj : n = j
    · by_cases hmj : m = j
      · exact hnj.trans hmj.symm
      · rw [hother m hmj] at hu' hp
        rw [hnj, hnew] at hp
        exact absurd hp.symm (hfresh m hm hu')
    · rw [hother n hnj] at hu hp
      by_cases hmj : m = j
      · rw [hmj, hnew] at hp
        exact absurd hp (hfresh n hn hu)
      · rw [hother m hmj] at hu' hp
        exact h.single n hn m hm hu hu' hp

theorem Queue.drop (h : Queue waits k) (hfree : (k.futexes j).used = false)
    (hw : w.used = false) : Queue waits (k.setWaiter j w) := by
  have hother : ∀ n, n ≠ j → (k.setWaiter j w).futexes n = k.futexes n := fun n hn => update_of_ne hn ..
  have hne : ∀ n, (k.futexes n).used = true → n ≠ j := by
    rintro n hu rfl
    rw [hfree] at hu
    cases hu
  have hne' : ∀ n, ((k.setWaiter j w).futexes n).used = true → n ≠ j := by
    rintro n hu rfl
    rw [show (k.setWaiter n w).futexes n = w from update_self .., hw] at hu
    cases hu
  refine ⟨fun i a hi hb => ?_, fun n hn hu => ?_, fun n hn m hm hu hu' hp => ?_⟩
  · obtain ⟨n, hn, he, hp⟩ := h.listed i a hi hb
    have hnj := hne n (isEntry_iff.mp he).1
    exact ⟨n, hn, (isEntry_congr (hother n hnj)).trans he, by rw [hother n hnj]; exact hp⟩
  · have hnj := hne' n hu
    rw [hother n hnj] at hu ⊢
    exact h.owned n hn hu
  have hnj := hne' n hu
  have hmj := hne' m hu'
  rw [hother n hnj] at hu hp
  rw [hother m hmj] at hu' hp
  exact h.single n hn m hm hu hu' hp

theorem Queue.congr (h : Queue waits k) (hw : ∀ i addr, (k.tasks.procs i).state = .blocked →
    (waits' i = some (.futex addr) ↔ waits i = some (.futex addr))) : Queue waits' k := by
  refine ⟨fun i addr hi hb => h.listed i addr ((hw i addr hb).mp hi) hb, fun j hj hu => ?_, h.single⟩
  obtain ⟨i, hi, hb, ht⟩ := h.owned j hj hu
  exact ⟨i, (hw i _ hb).mpr hi, hb, ht⟩

def waitersAt (waits : Nat → Option Wait) (addr : Word) : Finset Nat :=
  (Finset.range slotCount).filter fun i => waits i = some (.futex addr)

def wokenIn (t t' : Tasks) : Finset Nat :=
  (Finset.range slotCount).filter fun i => (t.procs i).state = .blocked ∧ (t'.procs i).state = .ready

theorem Queue.waitersAt_eq (h : Queue waits k) (hf : Finds k.tasks)
    (hb : ∀ i addr, waits i = some (.futex addr) → i < slotCount ∧ (k.tasks.procs i).state = .blocked) :
    waitersAt waits addr = ((entriesAt addr k).map (entryOwner k)).toFinset := by
  ext i
  unfold waitersAt
  rw [Finset.mem_filter, Finset.mem_range, mem_toFinset, mem_map]
  constructor
  · rintro ⟨-, hi⟩
    obtain ⟨j, hj, he, hp⟩ := h.listed i addr hi (hb i addr hi).2
    refine ⟨j, mem_entriesAt.mpr ⟨hj, he⟩, ?_⟩
    unfold entryOwner
    rw [hp, hf i (hb i addr hi).2]
    rfl
  · rintro ⟨j, hj, rfl⟩
    obtain ⟨hj, he⟩ := mem_entriesAt.mp hj
    obtain ⟨hu, ha⟩ := isEntry_iff.mp he
    have hi := (h.owner hf hj hu).1
    rw [ha] at hi
    exact ⟨(hb _ _ hi).1, hi⟩

theorem Queue.nodup (h : Queue waits k) (hf : Finds k.tasks) :
    ((entriesAt addr k).map (entryOwner k)).Nodup := by
  refine List.Nodup.map_on (fun j hj n hn he => ?_) (nodup_range.filter _)
  obtain ⟨hj, hej⟩ := mem_entriesAt.mp hj
  obtain ⟨hn, hen⟩ := mem_entriesAt.mp hn
  exact h.entryOwner_inj hf hj hn (isEntry_iff.mp hej).1 (isEntry_iff.mp hen).1 he

theorem Queue.wakes (h : Queue waits k) (hf : Finds k.tasks)
    (hb : ∀ i addr, waits i = some (.futex addr) → i < slotCount ∧ (k.tasks.procs i).state =
      .blocked) {count : Nat}
    (hw : Woke (entryOwner k) ((entriesAt addr k).take count) k k') :
    wokenIn k.tasks k'.tasks ⊆ waitersAt waits addr ∧
      (wokenIn k.tasks k'.tasks).card = min count (waitersAt waits addr).card := by
  have hblock : ∀ j ∈ entriesAt addr k, entryOwner k j < slotCount ∧
      (k.tasks.procs (entryOwner k j)).state = .blocked := by
    intro j hj
    obtain ⟨hj, he⟩ := mem_entriesAt.mp hj
    have hi := (h.owner hf hj (isEntry_iff.mp he).1).1
    exact hb _ _ hi
  have hwoken : wokenIn k.tasks k'.tasks =
      (((entriesAt addr k).take count).map (entryOwner k)).toFinset := by
    ext i
    unfold wokenIn
    rw [Finset.mem_filter, Finset.mem_range, mem_toFinset, hw.procs]
    constructor
    · rintro ⟨-, hi, hr⟩
      by_contra h0
      rw [if_neg h0, hi] at hr
      cases hr
    · intro hi
      obtain ⟨j, hj, rfl⟩ := mem_map.mp hi
      obtain ⟨h1, h2⟩ := hblock j (mem_of_mem_take hj)
      refine ⟨h1, h2, ?_⟩
      rw [if_pos hi]
      unfold Process.awake
      rw [if_pos h2]
  rw [hwoken, h.waitersAt_eq hf hb]
  have hsub : ((entriesAt addr k).take count).map (entryOwner k) ⊆ (entriesAt addr k).map
      (entryOwner k) :=
    map_subset _ (take_subset _ _)
  have hnodup : (((entriesAt addr k).take count).map (entryOwner k)).Nodup := by
    rw [map_take]
    exact (h.nodup hf).sublist (take_sublist _ _)
  refine ⟨fun i hi => ?_, ?_⟩
  · rw [mem_toFinset] at hi ⊢
    exact hsub hi
  · rw [toFinset_card_of_nodup hnodup, toFinset_card_of_nodup (h.nodup hf), length_map, length_map,
      length_take]

end

end BlockOS.Kernel
