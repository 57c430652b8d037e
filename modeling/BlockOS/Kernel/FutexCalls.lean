import BlockOS.Kernel.Futexes

/-! Futexes over whole runs. -/

namespace BlockOS.Kernel
open Words Runs List Function
open Process (terminate)

variable {σ : Type} {env : Env σ} {waits : Nat → Option Wait} {k k' : System σ} {self i : Nat}
  {f : SyscallFrame}
  {addr : Word} {S : Act → Prop}

def Dozing (waits : Nat → Option Wait) (caller : Nat) (k : System σ) : Prop :=
  ∀ i addr, waits i = some (.futex addr) → i ≠ caller ∧ i < slotCount ∧ (k.tasks.procs i).state =
    .blocked ∧ (k.tasks.procs i).waitSockPlus1 = 0 ∧ (k.tasks.procs i).wakeDeadlineMs = 0

def Wait.onFutex : Wait → Bool
  | .futex _ => true
  | _ => false

structure FutexSafe (env : Env σ) (caller : Nat) (f : SyscallFrame) (waits : Nat → Option Wait)
    (k : System σ) :
    Prop where
  fresh : ∀ w, sleeper env caller f k = some w → w.onFutex = true →
    (k.tasks.procs caller).waitSockPlus1 = 0 ∧ (k.tasks.procs caller).wakeDeadlineMs = 0
  spared : ∀ i < slotCount, ∀ w, waits i = some w → w.onFutex = true →
    ¬ endsVfork env caller f k i ∧ ¬ handsOver caller f k i
  shared : decode f.rax = .futex ∧ f.rsi.setWidth 32 &&& 0x7f = futexWake →
    ∀ i < slotCount, waits i = some (.futex f.rdi) →
      (k.tasks.procs i).pml4 = (k.tasks.procs caller).pml4 ∧ k.userRange env f.rdi 4 false = true

theorem handle_dozes (hc : k.tasks.current = some self) (hin : InTable k.socks)
    (hz : Dozing waits self k)
    (hs : FutexSafe env self f waits k) (hw : waits i = some (.futex addr)) :
    SleepsOn i k.tasks (handle env self f k).2.tasks ∨
      (((handle env self f k).2.tasks.procs i).state ≠ .blocked ∧ ∃ a, wakesAddr self f k a) := by
  obtain ⟨hi, hlt, hb, hmark, hdead⟩ := hz i addr hw
  obtain ⟨hvfork, hhand⟩ := hs.spared i hlt _ hw rfl
  refine (handle_rouses env hc hin hi hlt hb).imp_right (And.imp_right fun h => ?_)
  cases h with
  | data pe hp hm _ | gone pe hp hm _ => exact absurd (hm.symm.trans hmark) (readMark_ne_zero hp)
  | space si hp hm _ => exact absurd (hm.symm.trans hmark) (writeMark_ne_zero hp)
  | vfork h0 => exact absurd h0 hvfork
  | futex a h0 => exact ⟨a, h0.1⟩
  | hand h0 => exact absurd h0 hhand
  | early h0 => exact absurd hdead h0.2.1

theorem Doing.awake (h : Doing self S k k') (hi : i ≠ self)
    (hn : (k.tasks.procs i).state ≠ .blocked) :
    (k'.tasks.procs i).state ≠ .blocked :=
  h.keeps (P := fun k1 => (k1.tasks.procs i).state ≠ .blocked) (fun _ _ _ _ hd h0 => hd.awake hi h0) hn

theorem Doing.dozes (h : Doing self S k k') (hin : InTable k.socks) (hi : i ≠ self)
    (hlt : i < slotCount)
    (hb : (k.tasks.procs i).state = .blocked) (hmark : (k.tasks.procs i).waitSockPlus1 = 0)
    (hS : ∀ a, S a → a.leaves) (hwake : ¬ S (.wake i)) (hfutex : ∀ addr, ¬ S (.futex addr i))
    (hhand : ¬ S (.hand i)) (hearly : ¬ S (.early i)) : SleepsOn i k.tasks k'.tasks := by
  refine (h.left hin hi hlt hb hS).resolve_right ?_
  rintro ⟨-, ⟨pe, hp, hm, -⟩ | h0 | ⟨a, h0⟩ | h0 | h0⟩
  · exact readMark_ne_zero hp (hm.symm.trans hmark)
  · exact hwake h0
  · exact hfutex a h0
  · exact hhand h0
  · exact hearly h0

theorem Doing.inTable (h : Doing self S k k') (hin : InTable k.socks) : InTable k'.socks :=
  h.keeps (P := fun k1 => InTable k1.socks) (fun _ _ _ _ hd h0 => hd.inTable h0) hin

theorem departing_not_futex {t : Nat} : ¬ departing self k (.futex addr t) ∧
    ¬ departing self k (.early t) := by
  constructor
  all_goals
    rintro ((h | ⟨_, -, h⟩) | (h | ⟨_, -, h⟩) | (h | ⟨_, -, h⟩))
    all_goals cases h

theorem clearTidWord_queue (hq : Queue waits k) (hf : Finds k.tasks) :
    Queue waits (clearTidWord env self k) ∧ ∀ i, (clearTidWord env self k).tasks.procs i =
      k.tasks.procs i ∨
      (clearTidWord env self k).tasks.procs i = (k.tasks.procs i).awake := by
  unfold clearTidWord
  dsimp only
  generalize (k.tasks.procs self).clearTid = a
  split
  · have hq0 : Queue waits (k.store env a (bytesOf 4 0)) := ⟨hq.listed, hq.owned, hq.single⟩
    have hf0 : Finds (k.store env a (bytesOf 4 0)).tasks := hf
    have hsame : (k.store env a (bytesOf 4 0)).tasks = k.tasks := rfl
    generalize k.store env a (bytesOf 4 0) = k0 at hq0 hf0 hsame ⊢
    have hw := wakeFutex_spec Nat.one_pos (hq0.toOwned hf0 a)
    refine ⟨hq0.woke hf0 (fun j hj => mem_of_mem_take hj) hw, fun i => ?_⟩
    rw [hw.procs, hsame]
    split
    · exact .inr rfl
    · exact .inl rfl
  · exact ⟨hq, fun _ => .inl rfl⟩

theorem doExit_queue (hc : k.tasks.current = some self) (hin : InTable k.socks)
    (hz : Dozing waits self k)
    (hs : FutexSafe env self f waits k) (hx : exits f) (hq : Queue waits k) (hf : Finds k.tasks) :
    Queue waits (doExit env self f k).2 := by
  obtain ⟨hdep, hon⟩ := @depart_departing _ self k env f
  have hdozes : ∀ i addr, waits i = some (.futex addr) →
      SleepsOn i k.tasks (depart env self f k).tasks := by
    intro i addr hw
    obtain ⟨hi, hlt, hb, hmark, -⟩ := hz i addr hw
    obtain ⟨hvfork, hhand⟩ := hs.spared i hlt _ hw rfl
    exact hdep.dozes hin hi hlt hb hmark (fun a ha => departing_leaves ha)
      (fun h0 => hvfork (exiting_allowed env hx (.inl h0))) (fun a => departing_not_futex.1)
      (fun h0 => hhand (exiting_allowed env hx (.inl h0))) (@departing_not_futex _ _ _ 0 _).2
  have hq4 : Queue waits (depart env self f k) :=
    hq.sleepsOn (fun i addr hw => ⟨fun _ => (hz i addr hw).2.2.1, fun _ => hdozes i addr hw⟩) hon.futexes
  have hin4 := hdep.inTable hin
  have hleave : leave env self f k = (clearTidWord env self (depart env self f k)).modify self
    terminate := rfl
  unfold doExit
  dsimp only
  rw [hleave]
  generalize depart env self f k = k4 at hon hq4 hin4 hdozes ⊢
  -- the word that is cleared
  obtain ⟨hq5, hprocs⟩ := @clearTidWord_queue _ env _ _ self hq4 (hon.calm.finds hf)
  have hin5 := (@clearTidWord_waking _ self _ env).inTable hin4
  have hplans : ∀ i, ((clearTidWord env self k4).tasks.procs i).plans = (k.tasks.procs i).plans :=
    fun i => (clearTidWord_plans env k4 i).trans (hon.plans i)
  have hcur5 := (hon.calm.trans (clearTidWord_calm env self k4)).current.trans hc
  generalize clearTidWord env self k4 = k5 at hq5 hprocs hin5 hplans hcur5 ⊢
  -- the scheduler
  have hdead : Doing self (hurrying self (k5.modify self terminate).tasks) k5
      (k5.modify self terminate) :=
    Does.doing (.mind rfl (.modify_self _ _)) (.inl rfl)
  have hlast := hdead.trans (onExit_hurrying (k := k5.modify self terminate) hcur5 f)
  have hq7 : Queue waits { k5.modify self terminate with
      tasks := (onExit f (k5.modify self terminate).tasks).2.2 } := by
    refine hq5.sleepsOn (fun i addr hw => ?_) rfl
    obtain ⟨hi, hlt, -, hmark, hdead⟩ := hz i addr hw
    refine ⟨fun hb' => by_contra fun hb => hlast.awake hi hb hb', fun hb => ?_⟩
    have hsame : k5.tasks.procs i = k4.tasks.procs i :=
      (hprocs i).resolve_right fun h0 => awake_state _ (h0 ▸ hb)
    have hdead6 : ((k5.modify self terminate).tasks.procs i).wakeDeadlineMs = 0 := by
      rw [System.modify_tasks, Tasks.modify_other _ _ hi]
      exact (congrArg Plans.deadline (hplans i)).trans hdead
    refine hlast.dozes hin5 hi hlt hb ?_ ?_ ?_ (fun a => ?_) ?_ ?_
    · rw [hsame]
      exact (hdozes i addr hw).mark.trans hmark
    · rintro a (rfl | ⟨j, -, rfl⟩) <;> trivial
    all_goals
      rintro (h0 | ⟨j, hj, h0⟩)
      all_goals cases h0
    exact hj.1 hdead6
  unfold System.switching
  dsimp only
  split <;> exact hq7

theorem freeWaiter_spec (h : freeWaiter k = some j) : j < futexCount ∧ (k.futexes j).used = false := by
  have hm := mem_of_find?_eq_some h
  have hs := find?_some h
  exact ⟨mem_range.mp hm, by simpa using hs⟩

theorem Queue.block (hq : Queue waits k) (hc : k.tasks.current = some self)
    (hz : Dozing waits self k) :
    Queue waits { k with tasks := (blockFromSyscall f k.tasks).2.2 } := by
  refine hq.sleepsOn (fun i addr hw => ?_) rfl
  obtain ⟨hi, -, hb, -⟩ := hz i addr hw
  exact ⟨fun _ => hb, fun _ => (block_rel (Minds.running hc) f).sleepsOn hi hb⟩

theorem switching_false (hr : r.1 ≠ true) (fail : System σ → Ret × System σ) :
    k.switching r fail = fail { k with tasks := r.2.2 } := by
  unfold System.switching
  rw [if_neg hr]

theorem setWaiter_setWaiter (j : Nat) (w w' : FutexWaiter) (t : Tasks) :
    ({ k.setWaiter j w with tasks := t } : System σ).setWaiter j w' =
      ({ k with tasks := t } : System σ).setWaiter j w' := by
  simp only [System.setWaiter, update_idem]

theorem doFutex_queue (hc : k.tasks.current = some self) (hz : Dozing waits self k)
    (hq : Queue waits k)
    (hf : Finds k.tasks) (hs : canSwitch k.tasks = true → futexWaits env f k = none) :
    Queue waits (doFutex env self f k).2 := by
  have hwaits : canSwitch k.tasks = false ∨ futexWaits env f k = none := by
    cases h : canSwitch k.tasks with
    | false => exact .inl rfl
    | true => exact .inr (hs h)
  unfold futexWaits at hwaits
  unfold doFutex
  dsimp only
  split
  · exact hq
  split
  · refine hq.woke hf (fun j hj => mem_of_mem_take hj) (wakeFutex_spec ?_ (hq.toOwned hf f.rdi))
    split
    case isTrue hv => exact Nat.pos_of_ne_zero fun h0 => hv (BitVec.eq_of_toNat_eq h0)
    case isFalse => decide
  · split
    case isTrue hrange _ hop =>
      split
      · exact hq
      case isFalse hval =>
        split
        · exact hq
        case h_2 j hj =>
          split
          · exact hq
          case isFalse hr10 =>
            rw [hop, decide_eq_true rfl] at hrange
            have hstuck : canSwitch k.tasks = false := by
              refine hwaits.resolve_right fun h0 => ?_
              rw [if_pos ⟨by
                simpa using hrange, hop, not_not.mp hval, by rw [hj]; rfl, not_not.mp hr10⟩] at h0
              cases h0
            have hfalse : (blockFromSyscall f k.tasks).1 ≠ true := by
              rw [block_switches hc, hstuck]
              nofun
            refine (congrArg (Queue waits ·.2) (switching_false hfalse _)).mpr ?_
            dsimp only
            rw [setWaiter_setWaiter]
            exact (hq.block hc hz).drop (freeWaiter_spec hj).2 rfl
    · exact hq

theorem handle_push (hc : k.tasks.current = some self) (hz : Dozing waits self k)
    (hq : Queue waits k)
    (hid : UniqueIds k.tasks) (hlive : Live k.tasks self) (hw : PutsToSleep env self f k (.futex addr)) :
    Queue (update waits self (some (.futex addr))) (handle env self f k).2 := by
  cases hw with
  | futex j _ hs hj heq =>
    obtain ⟨hj, hfree⟩ := freeWaiter_spec hj
    obtain ⟨htrue, hself, -⟩ := block_canSwitch hc hs f
    have hq1 := hq.block (f := f) hc hz
    have htid : ((blockFromSyscall f k.tasks).2.2.procs self).tid = (k.tasks.procs self).tid := by
      rw [hself]
      rfl
    rw [heq, switching_true htrue, ← htid]
    refine hq1.push hj hfree (by rw [hself]; rfl) (fun a h0 => (hz self a h0).1 rfl) fun i a hi
      _ h0 => ?_
    obtain ⟨hne, hlt, hb, -⟩ := hz i a hi
    have hsame : ((blockFromSyscall f k.tasks).2.2.procs i).tid = (k.tasks.procs i).tid :=
      congrArg Core.tid ((block_rel (Minds.running hc) f).sleepsOn hne hb).core
    refine hne (hid.tids i self ⟨hlt, by rw [hb]; nofun⟩ hlive ?_)
    rw [← hsame, ← htid]
    exact h0

theorem handle_queue (hc : k.tasks.current = some self) (hin : InTable k.socks)
    (hz : Dozing waits self k)
    (hs : FutexSafe env self f waits k) (hq : Queue waits k) (hf : Finds k.tasks)
    (hn : ∀ a, sleeper env self f k ≠ some (.futex a)) : Queue waits (handle env self f k).2 := by
  by_cases hd : decode f.rax = .futex
  · rw [handle_eq_futex hd]
    refine doFutex_queue hc hz hq hf fun hsw => ?_
    unfold sleeper at hn
    rw [hd] at hn
    dsimp only at hn
    rw [if_pos hsw] at hn
    refine Or.resolve_right ?_ (hn f.rdi)
    unfold futexWaits
    split
    · exact .inr rfl
    · exact .inl rfl
  · by_cases hx : exits f
    · have hexit : handle env self f k = doExit env self f k := by
        unfold handle
        rcases hx with hx | hx <;> rw [hx]
      rw [hexit]
      exact doExit_queue hc hin hz hs hx hq hf
    · refine hq.sleepsOn (fun i addr hw => ?_) (handle_futexes env hd hx)
      refine ⟨fun _ => (hz i addr hw).2.2.1, fun _ => (handle_dozes hc hin hz hs hw).resolve_right ?_⟩
      rintro ⟨-, a, ⟨h0, -⟩ | ⟨h0, -⟩⟩
      · exact hd h0
      · exact hx h0

structure Watched.Queued (s : Watched σ) : Prop where
  alive : Alive s.system.tasks
  placed : Placed s.system.tasks
  inTable : InTable s.system.socks
  unique : UniqueIds s.system.tasks
  blocked : ∀ i w, s.waits i = some w → (s.system.tasks.procs i).state = .blocked
  waiter : ∀ i addr, s.waits i = some (.futex addr) → (s.system.tasks.procs i).waitSockPlus1 = 0 ∧
    (s.system.tasks.procs i).wakeDeadlineMs = 0 ∧ s.system.tasks.current ≠ some i
  queue : Queue s.waits s.system

/-- The condition on a step. -/
structure FutexStep (env : Env σ) (s : Watched σ) (op : KernelOp σ) : Prop where
  ids : FreshIds env s.system op
  calls : ∀ caller f, s.system.tasks.current = some caller → op = .call f →
    FutexSafe env caller f s.waits (freePending env caller s.system)

variable {s : Watched σ} {op : KernelOp σ}

theorem Watched.Queued.lt (h : s.Queued) (hw : s.waits i = some w) : i < slotCount := by
  refine h.placed i ?_
  rw [h.blocked i w hw]
  nofun

structure Watched.Ready (s : Watched σ) (caller : Nat) (k : System σ) : Prop where
  current : k.tasks.current = some caller
  live : Live k.tasks caller
  inTable : InTable k.socks
  unique : UniqueIds k.tasks
  finds : Finds k.tasks
  dozing : Dozing s.waits caller k
  queue : Queue s.waits k
  state : ∀ i, (k.tasks.procs i).state = (s.system.tasks.procs i).state
  pml4 : ∀ i, (k.tasks.procs i).pml4 = (s.system.tasks.procs i).pml4
  sleeps : ∀ i addr, s.waits i = some (.futex addr) → SleepsOn i s.system.tasks k.tasks

theorem Entered.keeps (he : Entered t self u) (i : Nat) :
    (u.procs i).state = (t.procs i).state ∧ (u.procs i).pml4 = (t.procs i).pml4 := by
  cases he with
  | same => exact ⟨rfl, rfl⟩
  | dropped =>
    rw [Tasks.modify_procs]
    split
    case isTrue h0 => exact h0 ▸ ⟨rfl, rfl⟩
    case isFalse => exact ⟨rfl, rfl⟩

theorem Watched.Queued.ready (h : s.Queued) (hc : s.system.tasks.current = some self) :
    s.Ready self (freePending env self s.system) := by
  have he := freePending_entered env hc
  have hsleeps : ∀ i addr, s.waits i = some (.futex addr) →
      SleepsOn i s.system.tasks (freePending env self s.system).tasks := by
    intro i addr hw
    exact (freePending_minds env self s.system).sleepsOn (fun h0 => (h.waiter i addr hw).2.2 (h0 ▸ hc))
      (h.blocked i _ hw)
  have hunique : UniqueIds (freePending env self s.system).tasks :=
    uniqueIds_iff.mpr (he.ids.1.numbered (uniqueIds_iff.mp h.unique))
  have hsame : ∀ i, ((freePending env self s.system).tasks.procs i).state =
    (s.system.tasks.procs i).state ∧
      ((freePending env self s.system).tasks.procs i).pml4 = (s.system.tasks.procs i).pml4 := he.keeps
  have hplaced : Placed (freePending env self s.system).tasks :=
    fun i hi => h.placed i ((hsame i).1 ▸ hi)
  have halive := (h.alive self hc).1
  refine ⟨he.current.trans hc, ⟨h.placed self halive, (hsame self).1 ▸ halive⟩,
    freePending_socks env self s.system ▸ h.inTable, hunique, hunique.finds_blocked hplaced,
      fun i addr hw => ?_, ?_, fun i => (hsame i).1, fun i => (hsame i).2, hsleeps⟩
  · have hon := hsleeps i addr hw
    obtain ⟨hmark, hdead, hcur⟩ := h.waiter i addr hw
    exact ⟨fun h0 => hcur (h0 ▸ hc), h.lt hw, hon.state, hon.mark.trans hmark,
      (congrArg Waiting.deadline hon.waiting).trans hdead⟩
  · refine h.queue.sleepsOn (fun i addr hw => ⟨fun _ => h.blocked i _ hw, fun _ => hsleeps i addr hw⟩) ?_
    unfold freePending destroyUnused
    dsimp only
    split
    · rfl
    · split <;> rfl

open Watched.Queued (ready)

theorem watchedStep_blocked (hb : ((kernelStep env s.system op).tasks.procs i).state = .blocked) :
    (watchedStep env s op).waits i =
      match fallsAsleep env s.system op with
      | some (j, w) => if i = j then some w else s.waits i
      | none => s.waits i := if_neg (not_not.mpr hb)

theorem call_queue (h : s.Queued) (hc : s.system.tasks.current = some self)
    (hs : FutexSafe env self f s.waits (freePending env self s.system)) :
    Queue (watchedStep env s (.call f)).waits (kernelStep env s.system (.call f)) := by
  have hr := @ready _ env _ _ h hc
  have hold := fun i => @watchedStep_blocked _ env i s (.call f)
  rw [fallsAsleep_call hc, kernelStep_call env hc] at hold
  rw [kernelStep_call env hc]
  generalize freePending env self s.system = k0 at *
  generalize (watchedStep env s (.call f)).waits = waits' at *
  by_cases hn : ∃ a, sleeper env self f k0 = some (.futex a)
  · obtain ⟨a, ha⟩ := hn
    refine (handle_push hr.current hr.dozing hr.queue hr.unique hr.live (sleeper_puts ha)).congr
      fun i addr hb => ?_
    rw [hold i hb, ha, update_apply]
    rfl
  · refine (handle_queue hr.current hr.inTable hr.dozing hs hr.queue hr.finds fun a h0 =>
      hn ⟨a, h0⟩).congr
      fun i addr hb => ?_
    rw [hold i hb]
    cases hw : sleeper env self f k0 with
    | none => rfl
    | some w =>
      dsimp only [Option.map_some]
      split
      case isTrue hi =>
        subst hi
        refine iff_of_false (fun h0 => hn ⟨addr, hw.trans h0⟩) fun h0 => ?_
        exact (hr.dozing _ addr h0).1 rfl
      case isFalse => rfl

theorem quiet_dozes (h : s.Queued) (hop : ∀ f, op ≠ .call f) (hw : s.waits i = some (.futex addr)) :
    SleepsOn i s.system.tasks (kernelStep env s.system op).tasks := by
  have hb := h.blocked i _ hw
  have hlt := h.lt hw
  obtain ⟨-, hdead, hcur⟩ := h.waiter i addr hw
  cases op with
  | call f => exact absurd rfl (hop f)
  | spawn r => exact (spawn_minds ..).sleepsOn hlt.ne hb
  | start j => exact (start_minds ..).sleepsOn hlt.ne hb
  | machine m => exact .refl hb
  | timer g =>
    exact (onTimer_rests hcur hb (env.uptimeMs s.system.mem) g).1.resolve_right fun h0 => h0.2.1 hdead

theorem kernelStep_dozes (h : s.Queued) (hs : FutexStep env s op)
    (hw : s.waits i = some (.futex addr)) :
    SleepsOn i s.system.tasks (kernelStep env s.system op).tasks ∨
      ((kernelStep env s.system op).tasks.procs i).state ≠ .blocked := by
  cases op with
  | call f =>
    cases hc : s.system.tasks.current with
    | none =>
      rw [kernelStep_call_none env hc]
      exact .inl (.refl (h.blocked i _ hw))
    | some self =>
      have hr := @ready _ env _ _ h hc
      rw [kernelStep_call env hc]
      exact (handle_dozes hr.current hr.inTable hr.dozing (hs.calls self f hc rfl) hw).imp
        (fun h0 => (hr.sleeps i addr hw).trans h0) And.left
  | timer | spawn | start | machine => exact .inl (quiet_dozes h (fun _ => nofun) hw)

theorem watchedStep_queue (h : s.Queued) (hs : FutexStep env s op) :
    Queue (watchedStep env s op).waits (kernelStep env s.system op) := by
  -- in the other steps nobody falls asleep
  have hstay : fallsAsleep env s.system op = none → Queue s.waits (kernelStep env s.system op) →
      Queue (watchedStep env s op).waits (kernelStep env s.system op) := by
    intro hf hq
    refine hq.congr fun i addr hb => ?_
    rw [watchedStep_blocked hb, hf]
  have hquiet : (∀ f, op ≠ .call f) → (kernelStep env s.system op).futexes = s.system.futexes →
      Queue s.waits (kernelStep env s.system op) := fun hop hfx =>
    h.queue.sleepsOn (fun i addr hw => ⟨fun _ => h.blocked i _ hw, fun _ => quiet_dozes h hop hw⟩) hfx
  cases op with
  | call f =>
    cases hc : s.system.tasks.current with
    | none =>
      refine hstay (by unfold fallsAsleep; rw [hc]; rfl) ?_
      rw [kernelStep_call_none env hc]
      exact h.queue
    | some self => exact call_queue h hc (hs.calls self f hc rfl)
  | timer | spawn | start | machine => exact hstay rfl (hquiet (fun _ => nofun) rfl)

theorem watchedStep_queued (h : s.Queued) (hs : FutexStep env s op) :
    (watchedStep env s op).Queued := by
  refine ⟨kernelStep_alive env h.alive op, kernelStep_placed env h.alive h.placed op,
    kernelStep_inTable env h.inTable op, (kernelStep_unique_iff env h.alive h.unique op).mp hs.ids,
    fun i w hw => (watchedStep_waits hw).1, fun i addr hw => ?_, watchedStep_queue h hs⟩
  obtain ⟨hb, hf | ⟨hold, -⟩⟩ := watchedStep_waits hw
  · cases op with
    | timer | spawn | start | machine => cases hf
    | call f =>
      cases hc : s.system.tasks.current with
      | none =>
        unfold fallsAsleep at hf
        rw [hc] at hf
        cases hf
      | some self =>
        have hr := @ready _ env _ _ h hc
        have hfresh := (hs.calls self f hc rfl).fresh
        rw [fallsAsleep_call hc] at hf
        obtain ⟨w, hsl, h0⟩ := Option.map_eq_some_iff.mp hf
        cases h0
        obtain ⟨h1, h2, h3⟩ := sleeper_carries hr.current hr.live.2 hsl nofun
        obtain ⟨hmark, hdead⟩ := hfresh _ hsl rfl
        rw [show (watchedStep env s (.call f)).system = _ from kernelStep_call env hc f]
        exact ⟨h1.trans hmark, h2.trans hdead, h3⟩
  · have hon := (kernelStep_dozes h hs hold).resolve_right fun h0 => h0 hb
    obtain ⟨hmark, hdead, hcur⟩ := h.waiter i addr hold
    exact ⟨hon.mark.trans hmark, (congrArg Waiting.deadline hon.waiting).trans hdead, hon.current hcur⟩

def sharers (s : Watched σ) (caller : Nat) (addr : Word) : Finset Nat :=
  (waitersAt s.waits addr).filter fun i => (s.system.tasks.procs i).pml4 =
    (s.system.tasks.procs caller).pml4

def FutexWakes (env : Env σ) (s : Watched σ) (op : KernelOp σ) : Prop :=
  ∀ caller f, s.system.tasks.current = some caller → op = .call f → decode f.rax = .futex →
    f.rsi.setWidth 32 &&& 0x7f = futexWake → f.rdx.setWidth 32 ≠ (0 : BitVec 32) →
    wokenIn s.system.tasks (kernelStep env s.system op).tasks ⊆ sharers s caller f.rdi ∧
      (wokenIn s.system.tasks (kernelStep env s.system op).tasks).card =
        min (f.rdx.setWidth 32 : BitVec 32).toNat (sharers s caller f.rdi).card

def Remembered (s : Watched σ) : Prop :=
  ∀ i addr, s.waits i = some (.futex addr) →
    ∃ j < futexCount, isEntry addr s.system j = true ∧ (s.system.futexes j).pid =
      (s.system.tasks.procs i).tid

def FutexRight (env : Env σ) (s : Watched σ) (op : KernelOp σ) : Prop :=
  FutexWakes env s op ∧ Remembered (watchedStep env s op)

theorem sharers_eq (h : s.Queued) (hc : s.system.tasks.current = some self)
    (hs : FutexSafe env self f s.waits (freePending env self s.system)) (hd : decode f.rax = .futex)
    (hop : f.rsi.setWidth 32 &&& 0x7f = futexWake) : sharers s self f.rdi = waitersAt s.waits f.rdi := by
  have hr := @ready _ env _ _ h hc
  unfold sharers
  refine Finset.filter_true_of_mem fun i hi => ?_
  obtain ⟨hlt, hw⟩ := Finset.mem_filter.mp hi
  obtain ⟨hsame, -⟩ := hs.shared ⟨hd, hop⟩ i (Finset.mem_range.mp hlt) hw
  rwa [hr.pml4, hr.pml4] at hsame

theorem wokenIn_self (t : Tasks) : wokenIn t t = ∅ := by
  refine Finset.filter_false_of_mem fun i _ h => ?_
  rw [h.1] at h
  cases h.2

theorem doFutex_of_wake (hop : f.rsi.setWidth 32 &&& 0x7f = futexWake)
    (hval : f.rdx.setWidth 32 ≠ (0 : BitVec 32)) :
    (doFutex env self f k).2 = if k.userRange env f.rdi 4 false = true then
      wakeFutex f.rdi (f.rdx.setWidth 32 : BitVec 32).toNat k else k := by
  unfold doFutex
  dsimp only
  rw [hop, show decide (futexWake = futexWait) = false by decide]
  cases k.userRange env f.rdi 4 false with
  | false => rfl
  | true => rw [if_neg (by nofun), if_pos rfl, if_pos hval, if_pos rfl]

theorem Watched.Queued.wakes (h : s.Queued) (hs : FutexStep env s op) : FutexWakes env s op := by
  rintro self f hc rfl hd hop hval
  have hsafe := hs.calls self f hc rfl
  have hr := @ready _ env _ _ h hc
  rw [sharers_eq h hc hsafe hd hop, kernelStep_call env hc, handle_eq_futex hd]
  have hshared := hsafe.shared ⟨hd, hop⟩
  generalize freePending env self s.system = k0 at *
  have hwoken : ∀ t, wokenIn s.system.tasks t = wokenIn k0.tasks t := by
    intro t
    unfold wokenIn
    simp only [hr.state]
  rw [hwoken, doFutex_of_wake hop hval]
  cases hrange : k0.userRange env f.rdi 4 false with
  | false =>
    -- nobody waits at an address that the caller cannot read
    have hnone : waitersAt s.waits f.rdi = ∅ := by
      refine Finset.filter_false_of_mem fun i hi hw => ?_
      exact Bool.false_ne_true (hrange.symm.trans (hshared i (Finset.mem_range.mp hi) hw).2)
    rw [if_neg nofun, wokenIn_self, hnone]
    exact ⟨Finset.empty_subset _, by simp⟩
  | true =>
    rw [if_pos rfl]
    have hpos : 0 < (f.rdx.setWidth 32 : BitVec 32).toNat :=
      Nat.pos_of_ne_zero fun h0 => hval (BitVec.eq_of_toNat_eq h0)
    refine hr.queue.wakes hr.finds (fun i a hw => ?_)
      (wakeFutex_spec hpos (hr.queue.toOwned hr.finds f.rdi))
    obtain ⟨-, hlt, hb, -⟩ := hr.dozing i a hw
    exact ⟨hlt, hb⟩

theorem Watched.Queued.remembered (h : s.Queued) : Remembered s :=
  fun i addr hw => h.queue.listed i addr hw (h.blocked i _ hw)

theorem boot_queued (m : σ) : (bootWatched m).Queued :=
  ⟨boot_alive, fun _ hi => absurd rfl hi, fun i h => absurd h (boot_free m i), boot_unique, nofun,
    nofun, nofun, nofun, nofun⟩

variable (env) in
theorem futexRight_along (m : σ) (ops : List (KernelOp σ))
    (hs : Along (watchedStep env) (FutexStep env) (bootWatched m) ops) :
    Along (watchedStep env) (FutexRight env) (bootWatched m) ops :=
  Along.imp (I := Watched.Queued) (fun _ _ h hop => watchedStep_queued h hop)
    (fun _ _ h hop => ⟨h.wakes hop, (watchedStep_queued h hop).remembered⟩) (boot_queued m) hs

section

instance (k : System σ) (op : KernelOp σ) : Decidable (FreshIds env k op) :=
  match h : stepChange env k op with
  | .born b => decidable_of_iff (b.tid k.tasks ≠ 0 ∧ k.tasks.get (b.tid k.tasks) = none)
      ⟨fun h0 _ hb => by cases h.symm.trans hb; exact h0, fun h0 => h0 b h⟩
  | .none | .exec _ | .reaped _ => .isTrue fun _ hb => by cases h.symm.trans hb

instance (self : Nat) (f : SyscallFrame) (waits : Nat → Option Wait) (k : System σ) :
    Decidable (FutexSafe env self f waits k) :=
  decidable_of_iff ((∀ w, sleeper env self f k = some w → w.onFutex = true →
        (k.tasks.procs self).waitSockPlus1 = 0 ∧ (k.tasks.procs self).wakeDeadlineMs = 0) ∧
      ∀ i < slotCount, (∀ w, waits i = some w → w.onFutex = true →
          ¬ endsVfork env self f k i ∧ ¬ handsOver self f k i) ∧
        (decode f.rax = .futex ∧ f.rsi.setWidth 32 &&& 0x7f = futexWake → waits i = some (.futex f.rdi) →
          (k.tasks.procs i).pml4 = (k.tasks.procs self).pml4 ∧ k.userRange env f.rdi 4 false = true))
    ⟨fun ⟨h1, h2⟩ => ⟨h1, fun i hi => (h2 i hi).1, fun hd i hi => (h2 i hi).2 hd⟩,
      fun h => ⟨h.fresh, fun i hi => ⟨h.spared i hi, fun hd => h.shared hd i hi⟩⟩⟩

instance (s : Watched σ) (op : KernelOp σ) : Decidable (FutexStep env s op) :=
  match op with
  | .call f =>
    decidable_of_iff (FreshIds env s.system (.call f) ∧ ∀ caller, s.system.tasks.current = some caller →
        FutexSafe env caller f s.waits (freePending env caller s.system))
      ⟨fun h => ⟨h.1, fun caller g hc hg => by cases hg; exact h.2 caller hc⟩,
        fun h => ⟨h.ids, fun caller hc => h.calls caller f hc rfl⟩⟩
  | .timer g | .spawn g | .start g | .machine g =>
    decidable_of_iff (FreshIds env s.system _) ⟨fun h => ⟨h, fun _ _ _ => nofun⟩, FutexStep.ids⟩

end

def threadWaits : List (KernelOp Unit) :=
  [.spawn (.loaded firstImage), .start 0, .call { plainCall 42 with rsi := 0x8000 },
    .call { plainCall 41 with rdi := 0x5000 }]

def parentWaits : List (KernelOp Unit) :=
  [.spawn (.loaded firstImage), .start 0, .call (plainCall 91),
    .call { plainCall 41 with rdi := 0x5000 }]

def wakeOne : KernelOp Unit := .call { plainCall 41 with rdi := 0x5000, rsi := 1, rdx := 1 }

theorem futexRight_threadWaits :
    (runFrom (watchedStep flatEnv) (bootWatched ()) threadWaits).waits 0 = some (.futex 0x5000) ∧
      Along (watchedStep flatEnv) (FutexRight flatEnv) (bootWatched ()) (threadWaits ++ [wakeOne]) :=
  ⟨by decide +kernel, futexRight_along flatEnv () (threadWaits ++ [wakeOne]) (by decide +kernel)⟩

theorem parent_woken_by_child :
    ¬ FutexRight flatEnv (runFrom (watchedStep flatEnv) (bootWatched ()) parentWaits) wakeOne := by
  have hcur : (runFrom (watchedStep flatEnv) (bootWatched ()) parentWaits).system.tasks.current =
      some 1 := by
    decide +kernel
  have hwoken : 0 ∈ wokenIn (runFrom (watchedStep flatEnv) (bootWatched ()) parentWaits).system.tasks
      (kernelStep flatEnv (runFrom (watchedStep flatEnv) (bootWatched ()) parentWaits).system
        wakeOne).tasks := by
    decide +kernel
  have hpml4 : ((runFrom (watchedStep flatEnv) (bootWatched ()) parentWaits).system.tasks.procs 0).pml4 ≠
      ((runFrom (watchedStep flatEnv) (bootWatched ()) parentWaits).system.tasks.procs 1).pml4 := by
    decide +kernel
  generalize runFrom (watchedStep flatEnv) (bootWatched ()) parentWaits = s at *
  intro h
  have hshare := (h.1 1 _ hcur rfl rfl rfl (by decide)).1 hwoken
  exact hpml4 (Finset.mem_filter.mp hshare).2

end BlockOS.Kernel
