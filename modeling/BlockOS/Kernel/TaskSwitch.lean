import BlockOS.Lib.Runs
import BlockOS.Lib.Words

/-! The scheduler of kernel tasks in `kernel/scheduler_preempt.cpp`. -/

namespace BlockOS.Kernel
open Words Runs List Function

inductive TaskState where
  | ready
  | running
  | finished
  deriving DecidableEq

structure KernelTask where
  sp : Word := 0
  slot : Word := 0
  state : TaskState := .ready
  deriving DecidableEq

structure Scheduler where
  tasks : Nat → KernelTask := fun _ => {}
  queue : List Nat := []
  current : Option Nat := none
  nextTaskId : Nat := 1
  ticks : Word := 0

structure Switch where
  slot : Option Nat
  target : Nat
  loaded : Word
  deriving DecidableEq

def ringFrom (queue : List Nat) (t : Nat) : List Nat :=
  queue.dropWhile (fun x => decide (x ≠ t)) ++ queue.takeWhile (fun x => decide (x ≠ t))

def nextTask (queue : List Nat) (t : Nat) : Nat := (ringFrom queue t)[1]?.getD t

def Scheduler.setState (s : Scheduler) (t : Nat) (state : TaskState) : Scheduler :=
  { s with tasks := update s.tasks t { s.tasks t with state := state } }

def enqueueTask (queue : List Nat) (t : Nat) : List Nat :=
  match queue with
  | [] => [t]
  | head :: rest => head :: t :: rest

def Scheduler.createTask (s : Scheduler) : Option Word → Scheduler
  | none => { s with nextTaskId := s.nextTaskId + 1 }
  | some sp =>
    { s with
      tasks := update s.tasks s.nextTaskId ⟨sp, sp, .ready⟩
      queue := enqueueTask s.queue s.nextTaskId
      nextTaskId := s.nextTaskId + 1 }

def Scheduler.search (s : Scheduler) (start : Nat) : Nat :=
  ((ringFrom s.queue start).find? fun t => decide ((s.tasks t).state = .ready)).getD start

def Scheduler.store (s : Scheduler) (slot : Option Nat) (rsp : Word) : Scheduler :=
  match slot with
  | none => s
  | some t => { s with tasks := update s.tasks t { s.tasks t with slot := rsp } }

def Scheduler.scheduleNext (s : Scheduler) (rsp : Word) : Option Switch × Scheduler :=
  match s.queue with
  | [] => (none, s)
  | head :: _ =>
    let start := match s.current with
      | none => head
      | some c => nextTask s.queue c
    let t := s.search start
    if (s.tasks t).state ≠ .ready then (none, { s with current := some t })
    else
      let previous := s.current
      let s := { s.setState t .running with current := some t }
      (some ⟨previous, t, (s.tasks t).sp⟩, s.store previous rsp)

def Scheduler.giveUp (s : Scheduler) : Scheduler :=
  match s.current with
  | none => s
  | some c => if (s.tasks c).state = .running then s.setState c .ready else s

def Scheduler.preemptYield (s : Scheduler) (rsp : Word) : Option Switch × Scheduler :=
  match s.current with
  | none => (none, s)
  | some _ => s.giveUp.scheduleNext rsp

def Scheduler.preemptSchedulerTick (s : Scheduler) (rsp : Word) : Option Switch × Scheduler :=
  let s := { s with ticks := s.ticks + 1 }
  if s.ticks.toNat % 10 = 0 then s.giveUp.scheduleNext rsp else (none, s)

def Scheduler.taskExit (s : Scheduler) (rsp : Word) : Option Switch × Scheduler :=
  match s.current with
  | none => (none, s)
  | some c =>
    let s := s.setState c .finished
    if nextTask s.queue c = c then (none, { s with queue := [], current := none })
    else if c ∉ s.queue then (none, s)
    else
      let s := { s with queue := s.queue.erase c, current := some (nextTask s.queue c) }
      s.scheduleNext rsp

inductive TaskOp where
  | create (sp : Option Word)
  | yield (rsp : Word)
  | tick (rsp : Word)
  | exit (rsp : Word)

def TaskOp.run (s : Scheduler) : TaskOp → Option Switch × Scheduler
  | .create sp => (none, s.createTask sp)
  | .yield rsp => s.preemptYield rsp
  | .tick rsp => s.preemptSchedulerTick rsp
  | .exit rsp => s.taskExit rsp

def TaskOp.rsp : TaskOp → Word
  | .create _ => 0
  | .yield rsp => rsp
  | .tick rsp => rsp
  | .exit rsp => rsp

structure Watch where
  sched : Scheduler := {}
  running : Option Nat := none
  resume : Nat → Word := fun _ => 0

def Watch.stopped (w : Watch) (rsp : Word) : Nat → Word :=
  match w.running with
  | none => w.resume
  | some t => update w.resume t rsp

def watchStep (w : Watch) (op : TaskOp) : Watch :=
  let r := op.run w.sched
  match r.1 with
  | some e => ⟨r.2, some e.target, w.stopped op.rsp⟩
  | none =>
    match op with
    | .create (some sp) => { w with sched := r.2, resume := update w.resume w.sched.nextTaskId sp }
    | .exit _ => { w with sched := r.2, running := none }
    | _ => { w with sched := r.2 }

def RightSwitch (w : Watch) (op : TaskOp) : Prop :=
  ∀ e, (op.run w.sched).1 = some e → e.slot = w.running ∧ e.loaded = w.stopped op.rsp e.target

def FirstTime (w : Watch) (op : TaskOp) : Prop :=
  ∀ e, (op.run w.sched).1 = some e → (∀ rsp, op ≠ .exit rsp) ∧ w.stopped op.rsp e.target =
    (w.sched.tasks e.target).sp

variable {s : Scheduler} {t c : Nat} {rsp : Word}

theorem mem_ringFrom : x ∈ ringFrom queue t ↔ x ∈ queue := by
  conv_rhs => rw [← takeWhile_append_dropWhile (p := fun x => decide (x ≠ t)) (l := queue)]
  rw [ringFrom, mem_append, mem_append, or_comm]

theorem nextTask_mem (h : c ∈ queue) : nextTask queue c ∈ queue := by
  unfold nextTask
  cases hn : (ringFrom queue c)[1]? with
  | none => exact h
  | some x => exact mem_ringFrom.mp (mem_of_getElem? hn)

theorem mem_enqueueTask : x ∈ enqueueTask queue t ↔ x = t ∨ x ∈ queue := by
  cases queue with
  | nil => simp [enqueueTask]
  | cons head rest =>
    simp only [enqueueTask, mem_cons]
    exact or_left_comm

@[simp] theorem setState_sp (state : TaskState) (x : Nat) : ((s.setState t state).tasks x).sp =
    (s.tasks x).sp := by
  unfold Scheduler.setState update
  dsimp only
  split
  case isTrue h => subst h; rfl
  · rfl

@[simp] theorem setState_queue (state : TaskState) : (s.setState t state).queue = s.queue := rfl

theorem setState_same (state : TaskState) : ((s.setState t state).tasks t).state = state := by
  simp [Scheduler.setState]

theorem setState_other (h : x ≠ t) (state : TaskState) :
    ((s.setState t state).tasks x).state = (s.tasks x).state := by
  simp [Scheduler.setState, h]

@[simp] theorem store_sched (slot : Option Nat) :
    (s.store slot rsp).queue = s.queue ∧ (s.store slot rsp).current = s.current ∧
      (s.store slot rsp).nextTaskId = s.nextTaskId := by
  cases slot <;> exact ⟨rfl, rfl, rfl⟩

theorem store_task (slot : Option Nat) (x : Nat) :
    ((s.store slot rsp).tasks x).state = (s.tasks x).state ∧ ((s.store slot rsp).tasks x).sp =
      (s.tasks x).sp := by
  cases slot with
  | none => exact ⟨rfl, rfl⟩
  | some y =>
    unfold Scheduler.store update
    dsimp only
    split
    case isTrue h => subst h; exact ⟨rfl, rfl⟩
    · exact ⟨rfl, rfl⟩

structure Switched (s s' : Scheduler) (t : Nat) : Prop where
  current : s'.current = some t
  queue : s'.queue = s.queue
  nextTaskId : s'.nextTaskId = s.nextTaskId
  target : (s'.tasks t).state = .running
  others : ∀ x, x ≠ t → (s'.tasks x).state = (s.tasks x).state

theorem search_ready {start x : Nat} (hx : x ∈ s.queue) (hr : (s.tasks x).state = .ready) :
    s.search start ∈ s.queue ∧ (s.tasks (s.search start)).state = .ready := by
  unfold Scheduler.search
  cases hf : (ringFrom s.queue start).find? fun t => decide ((s.tasks t).state = .ready) with
  | none =>
    have h0 := find?_eq_none.mp hf x (mem_ringFrom.mpr hx)
    exact absurd (decide_eq_true hr) h0
  | some y => exact ⟨mem_ringFrom.mp (mem_of_find?_eq_some hf), by simpa using find?_some hf⟩

theorem scheduleNext_spec (hx : x ∈ s.queue) (hr : (s.tasks x).state = .ready) (rsp : Word) :
    ∃ t ∈ s.queue, (s.scheduleNext rsp).1 = some ⟨s.current, t, (s.tasks t).sp⟩ ∧
      Switched s (s.scheduleNext rsp).2 t := by
  unfold Scheduler.scheduleNext
  split
  case h_1 hnil => rw [hnil] at hx; cases hx
  case h_2 head rest hq =>
    dsimp only
    generalize (match s.current with | none => head | some c => nextTask s.queue c) = start
    obtain ⟨hmem, hready⟩ := @search_ready s start x hx hr
    rw [if_neg fun h0 => h0 hready]
    obtain ⟨h1, h2, h3⟩ := @store_sched { s.setState (s.search start) .running with
      current := some (s.search start) } rsp s.current
    refine ⟨s.search start, hmem, ?_, h2, h1, h3, ?_, fun x hne => ?_⟩
    · dsimp only
      rw [setState_sp]
    · rw [(store_task s.current _).1]
      exact setState_same .running
    · rw [(store_task s.current x).1]
      exact setState_other hne .running

variable {w : Watch}

structure Watch.Sound (w : Watch) : Prop where
  same : w.running = w.sched.current
  current : ∀ c, w.sched.current = some c → c ∈ w.sched.queue ∧ (w.sched.tasks c).state = .running
  ready : ∀ t ∈ w.sched.queue, w.sched.current ≠ some t → (w.sched.tasks t).state = .ready
  known : ∀ t ∈ w.sched.queue, t < w.sched.nextTaskId

structure GaveUp (s g : Scheduler) : Prop where
  current : g.current = s.current
  queue : g.queue = s.queue
  nextTaskId : g.nextTaskId = s.nextTaskId
  ready : ∀ t ∈ s.queue, (g.tasks t).state = .ready
  sp : ∀ t, (g.tasks t).sp = (s.tasks t).sp

theorem Watch.Sound.giveUp (h : w.Sound) (hs : s.tasks = w.sched.tasks)
    (hq : s.queue = w.sched.queue) (hc : s.current = w.sched.current)
    (hn : s.nextTaskId = w.sched.nextTaskId) : GaveUp w.sched s.giveUp := by
  unfold Scheduler.giveUp
  cases hcur : w.sched.current with
  | none =>
    rw [hc, hcur]
    exact ⟨hc, hq, hn,
      fun t ht => by rw [hs]; exact h.ready t ht (by rw [hcur]; nofun), fun t => by rw [hs]⟩
  | some c =>
    rw [hc, hcur]
    dsimp only
    rw [if_pos (by rw [hs]; exact (h.current c hcur).2)]
    refine ⟨hc, hq, hn, fun t ht => ?_, fun t => by rw [setState_sp, hs]⟩
    by_cases he : t = c
    · rw [he]
      exact setState_same .ready
    · rw [setState_other he, hs]
      exact h.ready t ht (by rw [hcur]; exact fun h0 => he (Option.some.inj h0).symm)

theorem GaveUp.switch (h : GaveUp s g) (hne : s.queue ≠ []) (rsp : Word) :
    ∃ t ∈ s.queue, (g.scheduleNext rsp).1 = some ⟨s.current, t, (s.tasks t).sp⟩ ∧
      Switched g (g.scheduleNext rsp).2 t := by
  obtain ⟨x, hx⟩ := exists_mem_of_ne_nil _ hne
  obtain ⟨t, ht, he, hsw⟩ := scheduleNext_spec (by rw [h.queue]; exact hx) (h.ready x hx) rsp
  rw [h.current, h.sp] at he
  exact ⟨t, h.queue ▸ ht, he, hsw⟩

theorem Watch.Sound.yields (h : w.Sound) (op : TaskOp)
    (hop : (∃ rsp, op = .yield rsp) ∨ ∃ rsp, op = .tick rsp) :
    ((op.run w.sched).1 = none ∧ (op.run w.sched).2.tasks = w.sched.tasks ∧
        (op.run w.sched).2.queue = w.sched.queue ∧ (op.run w.sched).2.current = w.sched.current ∧
        (op.run w.sched).2.nextTaskId = w.sched.nextTaskId) ∨
      ∃ t ∈ w.sched.queue, ∃ g, GaveUp w.sched g ∧
        (op.run w.sched).1 = some ⟨w.running, t, (w.sched.tasks t).sp⟩ ∧
          Switched g (op.run w.sched).2 t := by
  -- with an empty queue there is no current task and `schedule_next` returns at once
  have hempty : w.sched.queue = [] → w.sched.current = none := by
    intro hq
    cases hc : w.sched.current with
    | none => rfl
    | some c => exact absurd (h.current c hc).1 (by rw [hq]; exact not_mem_nil)
  rw [h.same]
  rcases hop with ⟨rsp, rfl⟩ | ⟨rsp, rfl⟩
  · dsimp only [TaskOp.run, Scheduler.preemptYield]
    cases hc : w.sched.current with
    | none => exact .inl ⟨rfl, rfl, rfl, hc, rfl⟩
    | some c =>
      have hg := h.giveUp rfl rfl rfl rfl
      obtain ⟨t, ht, he, hsw⟩ := hg.switch (fun h0 => by rw [hempty h0] at hc; cases hc) rsp
      rw [hc] at he
      exact .inr ⟨t, ht, _, hg, he, hsw⟩
  · dsimp only [TaskOp.run, Scheduler.preemptSchedulerTick]
    split
    · have hg : GaveUp w.sched ({ w.sched with ticks := w.sched.ticks + 1 } : Scheduler).giveUp :=
        h.giveUp rfl rfl rfl rfl
      by_cases hq : w.sched.queue = []
      · refine .inl ?_
        have hc := hempty hq
        have hgive : ({ w.sched with ticks := w.sched.ticks + 1 } : Scheduler).giveUp =
            { w.sched with ticks := w.sched.ticks + 1 } := by
          unfold Scheduler.giveUp
          dsimp only
          rw [hc]
        rw [hgive]
        unfold Scheduler.scheduleNext
        dsimp only
        rw [hq]
        exact ⟨rfl, rfl, rfl, rfl, rfl⟩
      · obtain ⟨t, ht, he, hsw⟩ := hg.switch hq rsp
        exact .inr ⟨t, ht, _, hg, he, hsw⟩
    · exact .inl ⟨rfl, rfl, rfl, rfl, rfl⟩

theorem Watch.Sound.exits (h : w.Sound) (rsp : Word) : ((TaskOp.exit rsp).run w.sched).1 = none ∧
        (((TaskOp.exit rsp).run w.sched).2 = w.sched ∧ w.sched.current = none ∨
          ((TaskOp.exit rsp).run w.sched).2.queue = [] ∧ ((TaskOp.exit rsp).run w.sched).2.current =
            none) ∨
      ∃ e, ((TaskOp.exit rsp).run w.sched).1 = some e ∧ e.slot ≠ w.running := by
  rw [h.same]
  dsimp only [TaskOp.run, Scheduler.taskExit]
  cases hc : w.sched.current with
  | none => exact .inl ⟨rfl, .inl ⟨rfl, rfl⟩⟩
  | some c =>
    obtain ⟨hmem, -⟩ := h.current c hc
    dsimp only
    rw [setState_queue]
    by_cases hne : nextTask w.sched.queue c = c
    · rw [if_pos hne]
      exact .inl ⟨rfl, .inr ⟨rfl, rfl⟩⟩
    rw [if_neg hne, if_neg (not_not.mpr hmem)]
    refine .inr ?_
    have hnext : nextTask w.sched.queue c ∈ w.sched.queue.erase c :=
      (mem_erase_of_ne hne).mpr (nextTask_mem hmem)
    have hready : (((w.sched.setState c .finished)).tasks (nextTask w.sched.queue c)).state =
        .ready := by
      rw [setState_other hne]
      exact h.ready _ (nextTask_mem hmem) (by rw [hc]; exact fun h0 => hne (Option.some.inj h0).symm)
    obtain ⟨t, -, he, -⟩ := scheduleNext_spec (s := { w.sched.setState c .finished with
      queue := w.sched.queue.erase c, current := some (nextTask w.sched.queue c) }) hnext hready rsp
    exact ⟨_, he, fun h0 => hne (Option.some.inj h0)⟩

theorem right_iff_firstTime (h : w.Sound) (op : TaskOp) : RightSwitch w op ↔ FirstTime w op := by
  have hyield : ∀ op, ((∃ rsp, op = .yield rsp) ∨ ∃ rsp, op = .tick rsp) →
      (RightSwitch w op ↔ FirstTime w op) := by
    intro op hop
    rcases h.yields op hop with ⟨he, -⟩ | ⟨t, -, g, -, he, -⟩
    · exact iff_of_true (fun e h0 => by rw [he] at h0; cases h0) fun e h0 => by rw [he] at h0; cases h0
    refine forall_congr' fun e => imp_congr_right fun h0 => ?_
    rw [he] at h0
    cases h0
    refine ⟨fun hr => ⟨?_, hr.2.symm⟩, fun hf => ⟨rfl, hf.2.symm⟩⟩
    rcases hop with ⟨_, rfl⟩ | ⟨_, rfl⟩ <;> exact fun _ => nofun
  cases op with
  | create sp => exact iff_of_true (fun _ => nofun) fun _ => nofun
  | yield rsp => exact hyield _ (.inl ⟨rsp, rfl⟩)
  | tick rsp => exact hyield _ (.inr ⟨rsp, rfl⟩)
  | exit rsp =>
    rcases h.exits rsp with ⟨he, -⟩ | ⟨e, he, hne⟩
    · exact iff_of_true (fun e h0 => by rw [he] at h0; cases h0) fun e h0 => by rw [he] at h0; cases h0
    · exact iff_of_false (fun hr => hne (hr e he).1) fun hf => (hf e he).1 rsp rfl

theorem watchStep_switch (he : (op.run w.sched).1 = some e) :
    watchStep w op = ⟨(op.run w.sched).2, some e.target, w.stopped op.rsp⟩ := by
  unfold watchStep
  dsimp only
  rw [he]

theorem create_sound (h : w.Sound) (sp : Option Word) : (watchStep w (.create sp)).Sound := by
  cases sp with
  | none =>
    exact ⟨h.same, h.current, h.ready, fun t ht => (h.known t ht).trans (Nat.lt_succ_self _)⟩
  | some sp =>
    have hold : ∀ x ∈ w.sched.queue, x ≠ w.sched.nextTaskId := fun x hx => (h.known x hx).ne
    refine ⟨h.same, fun c hc => ?_, fun t ht hc => ?_, fun t ht => ?_⟩
    · obtain ⟨hmem, hstate⟩ := h.current c hc
      refine ⟨mem_enqueueTask.mpr (.inr hmem), ?_⟩
      exact (congrArg KernelTask.state (update_of_ne (hold c hmem) ..)).trans hstate
    · rcases mem_enqueueTask.mp ht with rfl | ht
      · have hnew : (watchStep w (.create (some sp))).sched.tasks w.sched.nextTaskId =
            ⟨sp, sp, .ready⟩ :=
          update_self ..
        rw [hnew]
      · exact (congrArg KernelTask.state (update_of_ne (hold t ht) ..)).trans (h.ready t ht hc)
    · rcases mem_enqueueTask.mp ht with rfl | ht
      · exact Nat.lt_succ_self _
      · exact (h.known t ht).trans (Nat.lt_succ_self _)

theorem yields_sound (h : w.Sound) (op : TaskOp)
    (hop : (∃ rsp, op = .yield rsp) ∨ ∃ rsp, op = .tick rsp) :
    (watchStep w op).Sound := by
  rcases h.yields op hop with ⟨he, htasks, hqueue, hcur, hid⟩ | ⟨t, ht, g, hg, he, hsw⟩
  · have hstep : watchStep w op = { w with sched := (op.run w.sched).2 } := by
      unfold watchStep
      dsimp only
      rw [he]
      rcases hop with ⟨_, rfl⟩ | ⟨_, rfl⟩ <;> rfl
    rw [hstep]
    refine ⟨h.same.trans hcur.symm, ?_, ?_, ?_⟩ <;> dsimp only <;> rw [hqueue]
    · rw [hcur, htasks]
      exact h.current
    · rw [hcur, htasks]
      exact h.ready
    · rw [hid]
      exact h.known
  · rw [watchStep_switch he]
    refine ⟨hsw.current.symm, fun c hc => ?_, fun x hx hc => ?_, fun x hx => ?_⟩
    · obtain rfl := Option.some.inj (hsw.current.symm.trans hc)
      exact ⟨by rw [hsw.queue, hg.queue]; exact ht, hsw.target⟩
    · have hne : x ≠ t := fun h0 => hc (by rw [h0]; exact hsw.current)
      rw [hsw.queue, hg.queue] at hx
      rw [hsw.others x hne]
      exact hg.ready x hx
    · rw [hsw.queue, hg.queue] at hx
      rw [hsw.nextTaskId, hg.nextTaskId]
      exact h.known x hx

theorem watchStep_sound (h : w.Sound) (hop : FirstTime w op) : (watchStep w op).Sound := by
  cases op with
  | create sp => exact create_sound h sp
  | yield rsp => exact yields_sound h _ (.inl ⟨rsp, rfl⟩)
  | tick rsp => exact yields_sound h _ (.inr ⟨rsp, rfl⟩)
  | exit rsp =>
    rcases h.exits rsp with ⟨he, hleft⟩ | ⟨e, he, -⟩
    · have hstep : watchStep w (.exit rsp) =
          { w with sched := ((TaskOp.exit rsp).run w.sched).2, running := none } := by
        unfold watchStep
        dsimp only
        rw [he]
      rw [hstep]
      rcases hleft with ⟨hsame, hc⟩ | ⟨hq, hc⟩
      · rw [hsame]
        exact ⟨hc.symm, h.current, h.ready, h.known⟩
      refine ⟨hc.symm, ?_, ?_, ?_⟩ <;> dsimp only
      · rw [hc]
        exact fun _ => nofun
      · rw [hq]
        exact fun _ => nofun
      · rw [hq]
        exact fun _ => nofun
    · exact absurd rfl ((hop e he).1 rsp)

theorem watch_sound : Watch.Sound {} := ⟨rfl, fun _ => nofun, fun _ => nofun, fun _ => nofun⟩

theorem switches_right_iff (ops : List TaskOp) :
    Along watchStep RightSwitch {} ops ↔ Along watchStep FirstTime {} ops :=
  Along.congr (I := Watch.Sound) (fun _ op h => right_iff_firstTime h op)
    (fun _ op h hr => watchStep_sound h ((right_iff_firstTime h op).mp hr)) ops watch_sound

theorem switch_not_right :
    ¬ Along watchStep RightSwitch {} [.create (some 100), .create (some 200), .tick 5, .tick 5,
      .tick 5, .tick 5,
      .tick 5, .tick 5, .tick 5, .tick 5, .tick 5, .tick 5, .yield 90, .yield 190] := by
  intro h
  have hlast := h.2.2.2.2.2.2.2.2.2.2.2.2.2.1 ⟨some 2, 1, 100⟩ (by decide +kernel)
  exact absurd hlast.2 (by decide +kernel)

end BlockOS.Kernel
