import BlockOS.Kernel.Reasons

/-! Wake-ups for the right reason. -/

namespace BlockOS.Kernel
open Words Runs

def Wait.mark (old : BitVec 32) : Wait → BitVec 32
  | .read si => readMark si
  | .write _ pe _ => writeMark pe
  | _ => old

def Wait.deadline (old : Word) : Wait → Word
  | .sleep d => d
  | _ => old

def Wait.Small : Wait → Prop
  | .read si => Kernel.Small si
  | .write _ pe _ => Kernel.Small pe
  | _ => True

variable {σ : Type} {env : Env σ} {self i : Nat} {k : System σ} {w : Wait}

theorem handle_eq_futex (hd : decode f.rax = .futex) : handle env self f k = doFutex env self f k := by
  unfold handle
  rw [hd]

theorem forkLike_self (hl : (k.tasks.procs self).state ≠ .empty) (frame : TrapFrame)
    (vfork : Bool) :
    (forkLike env self frame vfork k).2.tasks.procs self = k.tasks.procs self := by
  unfold forkLike
  split
  · rfl
  case h_2 slot hs =>
    have hne : self ≠ slot := fun h0 => hl (h0 ▸ (freeSlot_spec hs).2)
    have hother : ∀ p : Process,
      ({ k.tasks with nextPid := k.tasks.nextPid + 1 }.modify slot fun _ => p).procs self =
        k.tasks.procs self := fun p => Tasks.modify_other _ _ hne
    dsimp only
    split
    · exact hother _
    split
    · exact hother _
    · exact hother _

theorem sleeper_carries (hc : k.tasks.current = some self)
    (hl : (k.tasks.procs self).state ≠ .empty)
    (h : sleeper env self f k = some w) (hw : w ≠ .child) :
    ((handle env self f k).2.tasks.procs self).waitSockPlus1 =
      w.mark (k.tasks.procs self).waitSockPlus1 ∧
      ((handle env self f k).2.tasks.procs self).wakeDeadlineMs =
        w.deadline (k.tasks.procs self).wakeDeadlineMs ∧
      (handle env self f k).2.tasks.current ≠ some self := by
  cases sleeper_puts h with
  | read d hs _ _ heq =>
    rw [heq]
    exact (waitOnSocket_blocks hc hs _ _).2
  | write d hs _ _ heq =>
    rw [heq]
    exact (waitOnSocket_blocks hc hs _ _).2
  | futex j _ hs _ heq =>
    obtain ⟨h1, h2, h3⟩ := block_canSwitch hc hs f
    rw [heq, switching_true h1]
    dsimp only
    rw [h2]
    exact ⟨rfl, rfl, h3⟩
  | sleep d _ hs heq =>
    obtain ⟨h1, h2, h3⟩ := blockUntil_canSwitch hc hs f d
    rw [heq, switching_true h1]
    dsimp only
    rw [h2]
    exact ⟨rfl, rfl, h3⟩
  | vfork child hs hchild heq =>
    have hcur := (@forkLike_current _ self k env f.toTrap true).trans hc
    have hself := @forkLike_self _ env _ _ hl f.toTrap true
    rw [heq]
    unfold doVfork
    generalize forkLike env self f.toTrap true k = r at hs hchild hcur hself
    obtain ⟨o, k1⟩ := r
    obtain rfl : o = some child := hchild
    dsimp only at hs hcur hself ⊢
    have hcur1 : (k1.modify self Process.block).tasks.current = some self := hcur
    obtain ⟨h1, h2, h3⟩ := block_canSwitch hcur1 ((canSwitch_modify hcur _).trans hs)
      { f with rax := (k1.tasks.procs child).pid }
    rw [switching_true h1]
    dsimp only
    rw [h2, System.modify_tasks, Tasks.modify_same, hself]
    exact ⟨rfl, rfl, h3⟩
  | child => exact absurd rfl hw

def PeersSmall (socks : Nat → UnixSocket) : Prop := ∀ n, (socks n).peer < 2147483647

section

theorem PeersSmall.set (h : PeersSmall socks) (j : Int) (hu : u.peer < 2147483647) :
    PeersSmall (setSock socks j u) := by
  intro n
  unfold setSock
  rw [Function.update_apply]
  split
  · exact hu
  · exact h n

theorem PeersSmall.alloc (h : PeersSmall socks) : PeersSmall (socketObjAlloc socks).2 := by
  unfold socketObjAlloc
  split
  · exact h.set _ (by decide)
  · exact h

theorem PeersSmall.free (h : PeersSmall socks) (j : Int) : PeersSmall (socketFree j socks) := by
  unfold socketFree
  split
  · exact h
  dsimp only
  refine PeersSmall.set ?_ j (by decide)
  split
  · exact h.set _ (show (-1 : Int) < 2147483647 by decide)
  · exact h

theorem Linked.peersSmall (hl : Linked a b socks socks') (h : PeersSmall socks) (ha : Small a)
    (hb : Small b) : PeersSmall socks' := by
  intro n
  rw [hl.peer]
  split
  · exact ha.2
  split
  · exact hb.2
  · exact h n

theorem SockStep.peersSmall (hs : SockStep socks socks') (ht : InTable socks)
    (h : PeersSmall socks) :
    PeersSmall socks' := by
  cases hs with
  | edit i u _ hpeer => exact h.set i (by rw [hpeer]; exact h _)
  | alloc => exact h.alloc
  | free i => exact h.free i
  | pair =>
    refine (allocPair_cases (P := fun socks => InTable socks ∧ PeersSmall socks) ?_ ?_ ?_ ⟨ht, h⟩).2
    · exact fun _ h => ⟨h.1.alloc, h.2.alloc⟩
    · exact fun _ i h => ⟨h.1.free i, h.2.free i⟩
    · intro socks socks' a b h ha hb hl hlone hu _
      exact ⟨hl.inTable h.1, hl.peersSmall h.2 (h.1.small ha hlone.1) (h.1.small hb hu)⟩

theorem connectTo_peersSmall (ht : InTable socks) (h : PeersSmall socks) (hsi : Small si) :
    PeersSmall (connectTo si li socks).2 := by
  unfold connectTo
  dsimp only
  split
  · exact h.alloc
  case isFalse hok =>
    have hpos : 0 ≤ (socketObjAlloc socks).1 := by omega
    have hnew := ht.alloc.small hpos (by rw [alloc_spec hpos])
    have hl := linked_set UnixSocket.connect (fun _ => rfl) si (socketObjAlloc socks).1
      (socketObjAlloc socks).2
    have hlink := hl.peersSmall h.alloc hsi hnew
    exact PeersSmall.set hlink li (hlink _)

end

theorem RuntimeFd.small {d : RuntimeFd} (h : 0 ≤ d.socket) : Small d.socket := by
  refine ⟨h, ?_⟩
  have hlt := BitVec.toInt_lt (x := d.object)
  unfold RuntimeFd.socket
  omega

theorem connectArgs_small (h : connectArgs env self f k = some r) : Small r.1 := by
  unfold connectArgs at h
  split at h
  · cases h
  case h_2 si hsi =>
    have hpos : Small si := by
      unfold System.socketOf at hsi
      split at hsi
      · cases hsi
      split at hsi
      case isTrue hd => exact Option.some.inj hsi ▸ RuntimeFd.small hd.2
      case isFalse => cases hsi
    split at h
    · cases h
    split at h
    · cases h
    · obtain ⟨li, -, rfl⟩ := Option.map_eq_some_iff.mp h
      exact hpos

theorem handle_peersSmall (ht : InTable k.socks) (h : PeersSmall k.socks) :
    PeersSmall (handle env self f k).2.socks := by
  by_cases hd : decode f.rax = .connect
  · rw [handle_eq_connect env hd, doConnect_socks]
    split
    case h_1 si li ha => exact connectTo_peersSmall ht h (connectArgs_small ha)
    case h_2 => exact h
  · refine (handle_socks env (P := fun socks => InTable socks ∧ PeersSmall socks) ?_ hd ⟨ht, h⟩).2
    exact fun _ _ hs h => ⟨hs.inTable h.1, hs.peersSmall h.1 h.2⟩

theorem sleeper_small (h : sleeper env self f k = some w) (hp : PeersSmall k.socks) : w.Small := by
  cases sleeper_puts h with
  | read d _ hpos => exact RuntimeFd.small hpos
  | write d _ _ hwait =>
    unfold writeMustWait at hwait
    simp only [Bool.and_eq_true, decide_eq_true_eq] at hwait
    exact ⟨hwait.1.2, hp _⟩
  | futex | sleep | vfork | child => trivial

def Wait.Served (env : Env σ) (k k' : System σ) (i : Nat) (call : Option (Nat × SyscallFrame)) :
    Wait → Prop
  | .read si => (sockAt k'.socks si).rx.size ≠ 0 ∨ Gone k'.socks si
  | .write _ pe _ => (sockAt k'.socks pe).rx.size < (sockAt k.socks pe).rx.size ∨ Gone k'.socks pe
  | .futex addr =>
    ∃ c, call = some c ∧ wakesAddr c.1 c.2 k addr ∧ (k.tasks.procs c.1).pml4 =
      (k.tasks.procs i).pml4
  | .sleep d => d ≤ env.uptimeMs k.mem
  | .vfork pid =>
    ∃ c, call = some c ∧ (exits c.2 ∨ decode c.2.rax = .execve) ∧ (k.tasks.procs c.1).pid = pid
  | .child => True

def calling (env : Env σ) (k : System σ) : KernelOp σ → Option (Nat × SyscallFrame) × System σ
  | .call f =>
    match k.tasks.current with
    | none => (none, k)
    | some self => (some (self, f), freePending env self k)
  | _ => (none, k)

/-- Every process that sleeps for another reason than `wait4` is woken only by its own event, and
its frame stays as it is. -/
def RightReason (env : Env σ) (s : Watched σ) (op : KernelOp σ) : Prop :=
  ∀ i w, s.waits i = some w → w ≠ .child → s.system.tasks.current ≠ some i →
    (((kernelStep env s.system op).tasks.procs i).state ≠ .blocked →
      w.Served env (calling env s.system op).2 (kernelStep env s.system op) i
        (calling env s.system op).1) ∧
    ((kernelStep env s.system op).tasks.procs i).savedFrame = (s.system.tasks.procs i).savedFrame

/-- The call takes no sleeper for one in another wait. -/
structure WakesRightly (env : Env σ) (caller : Nat) (f : SyscallFrame) (waits : Nat → Option Wait)
    (k : System σ) :
    Prop where
  fresh : ∀ w, sleeper env caller f k = some w → w ≠ .child →
    w.mark (k.tasks.procs caller).waitSockPlus1 = w.mark 0 ∧
      w.deadline (k.tasks.procs caller).wakeDeadlineMs = w.deadline 0
  vfork : ∀ i < slotCount, ∀ w, waits i = some w → endsVfork env caller f k i →
    w = .child ∨ w = .vfork (k.tasks.procs caller).pid
  futex : ∀ i < slotCount, ∀ w, waits i = some w → ∀ addr, Allowed env caller f k (.futex addr i) →
    w = .child ∨ w = .futex addr ∧ (k.tasks.procs caller).pml4 = (k.tasks.procs i).pml4
  wait4 : ∀ i < slotCount, ∀ w, waits i = some w → handsOver caller f k i → w = .child
  early : ∀ i < slotCount, ∀ w, waits i = some w → hurries caller f k i →
    w = .child ∨ ∃ d, w = .sleep d ∧ d ≤ env.uptimeMs k.mem

/-- Every system call wakes rightly; the other steps are not restricted. -/
def RightlySafe (env : Env σ) (s : Watched σ) : KernelOp σ → Prop
  | .call f => ∀ self, s.system.tasks.current = some self →
      WakesRightly env self f s.waits (freePending env self s.system)
  | _ => True

structure Watched.Rested (s : Watched σ) : Prop where
  alive : Alive s.system.tasks
  placed : Placed s.system.tasks
  inTable : InTable s.system.socks
  peers : PeersSmall s.system.socks
  blocked : ∀ i w, s.waits i = some w → (s.system.tasks.procs i).state = .blocked
  waiter : ∀ i w, s.waits i = some w → w ≠ .child → (s.system.tasks.procs i).waitSockPlus1 = w.mark 0 ∧
    (s.system.tasks.procs i).wakeDeadlineMs = w.deadline 0 ∧ s.system.tasks.current ≠ some i ∧ w.Small

variable {s : Watched σ}

theorem Watched.Rested.lt (h : s.Rested) (hw : s.waits i = some w) : i < slotCount := by
  refine h.placed i ?_
  rw [h.blocked i w hw]
  nofun

theorem Wait.of_readMark (hw : w.Small) (hp : Kernel.Small pe) (hm : w.mark 0 = readMark pe) :
    w = .read pe := by
  cases w with
  | read si => exact congrArg Wait.read (readMark_inj hw hp hm)
  | write si pj len => exact absurd hm.symm (readMark_ne_writeMark hp hw)
  | futex | sleep | vfork | child => exact absurd hm.symm (readMark_ne_zero hp)

theorem Wait.of_writeMark (hw : w.Small) (hp : Kernel.Small pe) (hm : w.mark 0 = writeMark pe) :
    ∃ si len, w = .write si pe len := by
  cases w with
  | read si => exact absurd hm (readMark_ne_writeMark hw hp)
  | write si pj len => exact ⟨si, len, by rw [writeMark_inj hw hp hm]⟩
  | futex | sleep | vfork | child => exact absurd hm.symm (writeMark_ne_zero hp)

theorem Roused.served (h : Roused env self f k k' i)
    (hs : WakesRightly env self f waits k) (hlt : i < slotCount) (hw : waits i = some w)
      (hne : w ≠ .child)
    (hsmall : w.Small) (hmark : (k.tasks.procs i).waitSockPlus1 = w.mark 0) :
    w.Served env k k' i (some (self, f)) := by
  cases h with
  | data pe hp hm h0 =>
    obtain rfl := Wait.of_readMark hsmall hp (hmark.symm.trans hm)
    exact .inl h0
  | gone pe hp hm h0 =>
    obtain rfl := Wait.of_readMark hsmall hp (hmark.symm.trans hm)
    exact .inr h0
  | space si hp hm h0 =>
    obtain ⟨sj, len, rfl⟩ := Wait.of_writeMark hsmall hp (hmark.symm.trans hm)
    exact .inl h0
  | vfork h0 =>
    obtain rfl := (hs.vfork i hlt w hw h0).resolve_left hne
    exact ⟨(self, f), rfl, h0.1.imp_right And.left, rfl⟩
  | futex addr h0 =>
    obtain ⟨rfl, hsame⟩ := (hs.futex i hlt w hw addr h0).resolve_left hne
    exact ⟨(self, f), rfl, h0.1, hsame⟩
  | hand h0 => exact absurd (hs.wait4 i hlt w hw h0) hne
  | early h0 =>
    obtain ⟨d, rfl, hd⟩ := (hs.early i hlt w hw h0).resolve_left hne
    exact hd

theorem Minds.rests (hm : Minds self s.system.tasks t) (hi : i ≠ self)
    (hb : (s.system.tasks.procs i).state = .blocked) :
    SleepsOn i s.system.tasks t ∧ (t.procs i).savedFrame = (s.system.tasks.procs i).savedFrame := by
  have h := hm.sleepsOn hi hb
  exact ⟨h, congrArg Waiting.frame h.waiting⟩

theorem onTimer_rests (hc : t.current ≠ some i) (hb : (t.procs i).state = .blocked) (now : Word)
    (g : InterruptFrame) :
    (SleepsOn i t (onTimer now g t).2.2 ∨ (((onTimer now g t).2.2.procs i).state ≠ .blocked ∧
      (t.procs i).wakeDeadlineMs ≠ 0 ∧ (t.procs i).wakeDeadlineMs ≤ now)) ∧
      ((onTimer now g t).2.2.procs i).savedFrame = (t.procs i).savedFrame := by
  obtain ⟨self, hi, hself⟩ := exists_interrupted hc
  have hm := onTimer_rel (Minds.rule hself) now g
  generalize (onTimer now g t).2.2 = t' at hm
  by_cases hdue : i < slotCount ∧ (t.procs i).wakeDeadlineMs ≠ 0 ∧ now ≥ (t.procs i).wakeDeadlineMs
  · have hproc : (wakeTimedTasks now t).procs i = { t.procs i with state := .ready } :=
      if_pos ⟨hdue.1, hb, hdue.2⟩
    have hframe := ((hm.others i hi).frame (by rw [hproc]; nofun)).2
    rw [hproc] at hframe
    refine ⟨.inr ⟨fun h0 => ?_, hdue.2⟩, hframe⟩
    have h1 := ((hm.others i hi).asleep (.inr h0)).1
    rw [h0, hproc] at h1
    cases h1
  · have hproc : (wakeTimedTasks now t).procs i = t.procs i := if_neg fun h0 => hdue ⟨h0.1, h0.2.2⟩
    have hs : SleepsOn i t (wakeTimedTasks now t) := .of_same hb hproc rfl
    have hall := hs.trans (hm.sleepsOn hi hs.state)
    exact ⟨.inl hall, congrArg Waiting.frame hall.waiting⟩

theorem kernelStep_rests (h : s.Rested) (hs : RightlySafe env s op) (hw : s.waits i = some w)
    (hne : w ≠ .child) :
    (SleepsOn i s.system.tasks (kernelStep env s.system op).tasks ∨
      (((kernelStep env s.system op).tasks.procs i).state ≠ .blocked ∧
        w.Served env (calling env s.system op).2 (kernelStep env s.system op) i
          (calling env s.system op).1)) ∧
    ((kernelStep env s.system op).tasks.procs i).savedFrame = (s.system.tasks.procs i).savedFrame := by
  have hb := h.blocked i w hw
  have hlt := h.lt hw
  obtain ⟨hmark, hdead, hcur, hsmall⟩ := h.waiter i w hw hne
  have hquiet : ∀ t : Tasks, Minds slotCount s.system.tasks t →
      SleepsOn i s.system.tasks t ∧ (t.procs i).savedFrame = (s.system.tasks.procs i).savedFrame :=
    fun t hm => hm.rests hlt.ne hb
  cases op with
  | spawn r => exact (hquiet _ (spawn_minds ..)).imp_left .inl
  | start j => exact (hquiet _ (start_minds ..)).imp_left .inl
  | machine m => exact (hquiet _ (.refl ..)).imp_left .inl
  | timer g =>
    refine (onTimer_rests hcur hb (env.uptimeMs s.system.mem) g).imp_left (Or.imp_right ?_)
    rintro ⟨hn, hd0, hd⟩
    refine ⟨hn, ?_⟩
    rw [hdead] at hd0 hd
    cases w with
    | sleep d => exact hd
    | read | write | futex | vfork | child => exact absurd rfl hd0
  | call f =>
    unfold calling
    cases hc : s.system.tasks.current with
    | none =>
      rw [kernelStep_call_none env hc]
      exact ⟨.inl (.refl hb), rfl⟩
    | some self =>
      have hright := hs self hc
      have hi : i ≠ self := fun h0 => hcur (h0 ▸ hc)
      have hcur0 := (freePending_entered env hc).current.trans hc
      have hsocks := freePending_socks env self s.system
      have hpend := (freePending_minds env self s.system).rests hi hb
      rw [kernelStep_call env hc]
      dsimp only
      generalize freePending env self s.system = k0 at *
      have hin : InTable k0.socks := hsocks ▸ h.inTable
      refine ⟨?_, ?_⟩
      · rcases handle_rouses env (f := f) hcur0 hin hi hlt hpend.1.state with h0 | ⟨hn, h0⟩
        · exact .inl (hpend.1.trans h0)
        · exact .inr ⟨hn, h0.served hright hlt hw hne hsmall (hpend.1.mark.trans hmark)⟩
      · refine Eq.trans (handle_frame env hcur0 hi hpend.1.state fun h0 => ?_) hpend.2
        exact hne (hright.wait4 i hlt w hw h0)

theorem Watched.Rested.rightReason (h : s.Rested) (hs : RightlySafe env s op) :
    RightReason env s op := by
  intro i w hw hne _
  obtain ⟨h1, h2⟩ := kernelStep_rests h hs hw hne
  exact ⟨fun hn => (h1.resolve_left fun h0 => hn h0.state).2, h2⟩

theorem kernelStep_peersSmall (ht : InTable k.socks) (h : PeersSmall k.socks) (op : KernelOp σ) :
    PeersSmall (kernelStep env k op).socks := by
  cases op with
  | timer | spawn | start | machine => exact h
  | call f =>
    cases hc : k.tasks.current with
    | none => rwa [kernelStep_call_none env hc]
    | some self =>
      have hs := freePending_socks env self k
      rw [kernelStep_call env hc]
      exact handle_peersSmall (hs ▸ ht) (hs ▸ h)

theorem fallsAsleep_carries (h : s.Rested) (hs : RightlySafe env s op)
    (hf : fallsAsleep env s.system op = some (i, w)) (hne : w ≠ .child) :
    ((kernelStep env s.system op).tasks.procs i).waitSockPlus1 = w.mark 0 ∧
      ((kernelStep env s.system op).tasks.procs i).wakeDeadlineMs = w.deadline 0 ∧
      (kernelStep env s.system op).tasks.current ≠ some i ∧ w.Small := by
  cases op with
  | timer | spawn | start | machine => cases hf
  | call f =>
    cases hc : s.system.tasks.current with
    | none =>
      unfold fallsAsleep at hf
      rw [hc] at hf
      cases hf
    | some self =>
      have hright := hs self hc
      have he := freePending_entered env hc
      have hsocks := freePending_socks env self s.system
      have hlive : ((freePending env self s.system).tasks.procs self).state ≠ .empty :=
        fun h0 => (h.alive self hc).1 ((he.kept self).empty.mp h0)
      have hcur := he.current.trans hc
      rw [fallsAsleep_call hc] at hf
      rw [kernelStep_call env hc]
      generalize freePending env self s.system = k0 at *
      obtain ⟨w', hw, h0⟩ := Option.map_eq_some_iff.mp hf
      cases h0
      obtain ⟨h1, h2, h3⟩ := sleeper_carries hcur hlive hw hne
      obtain ⟨hm, hd⟩ := hright.fresh w hw hne
      exact ⟨h1.trans hm, h2.trans hd, h3, sleeper_small hw (hsocks ▸ h.peers)⟩

theorem watchedStep_rested (h : s.Rested) (hs : RightlySafe env s op) :
    (watchedStep env s op).Rested := by
  refine ⟨kernelStep_alive env h.alive op, kernelStep_placed env h.alive h.placed op,
    kernelStep_inTable env h.inTable op, kernelStep_peersSmall h.inTable h.peers op,
    fun i w hw => (watchedStep_waits hw).1, fun i w hw hne => ?_⟩
  obtain ⟨hb, hf | ⟨hold, -⟩⟩ := watchedStep_waits hw
  · exact fallsAsleep_carries h hs hf hne
  obtain ⟨h1, -⟩ := kernelStep_rests h hs hold hne
  have hon := h1.resolve_right fun h0 => h0.1 hb
  obtain ⟨hmark, hdead, hcur, hsmall⟩ := h.waiter i w hold hne
  exact ⟨hon.mark.trans hmark, (congrArg Waiting.deadline hon.waiting).trans hdead,
    hon.current hcur, hsmall⟩

theorem boot_rested (m : σ) : (bootWatched m).Rested := by
  refine ⟨boot_alive, fun _ hi => absurd rfl hi, fun i h => absurd h (boot_free m i), fun n => ?_,
    nofun, nofun⟩
  exact (by decide : (0 : Int) < 2147483647)

section

instance (f : SyscallFrame) : Decidable (exits f) := inferInstanceAs (Decidable (_ ∨ _))

instance (self : Nat) (f : SyscallFrame) (k : System σ) (i : Nat) :
    Decidable (endsVfork env self f k i) :=
  inferInstanceAs (Decidable (_ ∧ _))

instance (self : Nat) (f : SyscallFrame) (k : System σ) (addr : Word) :
    Decidable (wakesAddr self f k addr) :=
  inferInstanceAs (Decidable (_ ∨ _))

instance (self : Nat) (f : SyscallFrame) (k : System σ) (i : Nat) :
    Decidable (handsOver self f k i) :=
  inferInstanceAs (Decidable (_ ∧ _ ∧ _))

instance (self : Nat) (f : SyscallFrame) (k : System σ) (i : Nat) :
    Decidable (hurries self f k i) :=
  inferInstanceAs (Decidable (_ ∧ _ ∧ _))

theorem forall_futex {P : Word → Prop} : (∀ addr, Allowed env self f k (.futex addr i) → P addr) ↔
      ∀ j < futexCount, (k.futexes j).used = true ∧ k.tasks.get (k.futexes j).pid = some i ∧
        wakesAddr self f k (k.futexes j).addr → P (k.futexes j).addr := by
  constructor
  · exact fun h j hj ⟨hu, hg, hw⟩ => h _ ⟨hw, j, hj, hu, rfl, hg⟩
  · rintro h addr ⟨hw, j, hj, hu, rfl, hg⟩
    exact h j hj ⟨hu, hg, hw⟩

def Wait.slept (now : Word) : Wait → Bool
  | .sleep d => decide (d ≤ now)
  | _ => false

instance (self : Nat) (f : SyscallFrame) (waits : Nat → Option Wait) (k : System σ) :
    Decidable (WakesRightly env self f waits k) :=
  haveI : ∀ (i : Nat) (w : Wait), Decidable (∀ addr, Allowed env self f k (.futex addr i) →
      w = .child ∨ w = .futex addr ∧ (k.tasks.procs self).pml4 = (k.tasks.procs i).pml4) :=
    fun i w => decidable_of_iff _ forall_futex.symm
  haveI : ∀ w : Wait, Decidable (∃ d, w = .sleep d ∧ d ≤ env.uptimeMs k.mem) := fun w =>
    decidable_of_iff (w.slept (env.uptimeMs k.mem) = true) (by cases w <;> simp [Wait.slept])
  decidable_of_iff ((∀ w, sleeper env self f k = some w → w ≠ .child →
        w.mark (k.tasks.procs self).waitSockPlus1 = w.mark 0 ∧
          w.deadline (k.tasks.procs self).wakeDeadlineMs = w.deadline 0) ∧
      ∀ i < slotCount, ∀ w, waits i = some w →
        (endsVfork env self f k i → w = .child ∨ w = .vfork (k.tasks.procs self).pid) ∧
        (∀ addr, Allowed env self f k (.futex addr i) →
          w = .child ∨ w = .futex addr ∧ (k.tasks.procs self).pml4 = (k.tasks.procs i).pml4) ∧
        (handsOver self f k i → w = .child) ∧
        (hurries self f k i → w = .child ∨ ∃ d, w = .sleep d ∧ d ≤ env.uptimeMs k.mem))
    ⟨fun ⟨h1, h2⟩ => ⟨h1, fun i hi w hw => (h2 i hi w hw).1, fun i hi w hw => (h2 i hi w hw).2.1,
        fun i hi w hw => (h2 i hi w hw).2.2.1, fun i hi w hw => (h2 i hi w hw).2.2.2⟩,
      fun h => ⟨h.fresh, fun i hi w hw => ⟨h.vfork i hi w hw, h.futex i hi w hw, h.wait4 i hi w hw,
        h.early i hi w hw⟩⟩⟩

instance (s : Watched σ) (op : KernelOp σ) : Decidable (RightlySafe env s op) :=
  match op with
  | .call f => inferInstanceAs (Decidable (∀ self, _ = some self → WakesRightly env self f _ _))
  | .timer _ | .spawn _ | .start _ | .machine _ => .isTrue trivial

end

def parentReads : List (KernelOp Unit) :=
  [.spawn (.loaded firstImage), .start 0, .call (plainCall 68), .call (plainCall 91),
    .call { plainCall 0 with rdi := 3, rdx := 1 }]

end BlockOS.Kernel
