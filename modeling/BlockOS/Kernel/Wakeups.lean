import BlockOS.Kernel.Waits

/-! Wake-ups on sockets. -/

namespace BlockOS.Kernel
open Words Runs List Function
open UnixSocket (used peer)

def Wait.sockets : Wait → List Int
  | .read si => [si]
  | .write si pe _ => [si, pe]
  | _ => []

def Wait.Holds (socks : Nat → UnixSocket) : Wait → Prop
  | .read si =>
    (sockAt socks si).used = true ∧ (sockAt socks si).rx.size = 0 ∧ (sockAt socks si).closed =
      false ∧ 0 ≤ (sockAt socks si).peer ∧ (sockAt socks (sockAt socks si).peer).used = true
  | .write si pe len => (sockAt socks si).used = true ∧ (sockAt socks si).peer = pe ∧ 0 ≤ pe ∧
      (sockAt socks pe).used = true ∧ room (sockAt socks pe) < min len socketBuffer
  | _ => True

def Wait.Marked (mark : BitVec 32) : Wait → Prop
  | .read si => 0 ≤ si ∧ mark = readMark si
  | .write si pe _ => 0 ≤ si ∧ mark = writeMark pe
  | _ => True

structure Sound (waits : Nat → Option Wait) (caller : Nat) {σ : Type} (k : System σ) : Prop where
  tidy : Tidy k.socks
  waiter : ∀ i w, i ≠ caller → waits i = some w → w.sockets ≠ [] → (k.tasks.procs i).state =
    .blocked → w.Marked (k.tasks.procs i).waitSockPlus1 ∧ w.Holds k.socks ∧ k.tasks.current ≠ some i

variable {σ : Type} {waits : Nat → Option Wait} {self i : Nat} {k k' : System σ} {w : Wait}
  {m : BitVec 32} {socks socks' : Nat → UnixSocket}

theorem Grew.holds (h : Grew socks socks') (hw : w.Holds socks) : w.Holds socks' := by
  cases w with
  | read si =>
    obtain ⟨hu, hsize, hclosed, hp, hpu⟩ := hw
    obtain ⟨h1, h2, h3, h4⟩ := h.kept si.toNat hu
    have hpeer : (sockAt socks' si).peer = (sockAt socks si).peer := h4 hp
    refine ⟨h1, h2.trans hsize, h3.trans hclosed, hpeer ▸ hp, ?_⟩
    rw [hpeer]
    exact (h.kept _ hpu).1
  | write si pe len =>
    obtain ⟨hu, hpe, hp, hpu, hroom⟩ := hw
    obtain ⟨h1, -, -, h4⟩ := h.kept si.toNat hu
    obtain ⟨h1', h2', -, -⟩ := h.kept pe.toNat hpu
    have hpeer : (sockAt socks' si).peer = (sockAt socks si).peer := h4 (hpe ▸ hp)
    refine ⟨h1, hpeer.trans hpe, hp, h1', ?_⟩
    unfold room at hroom ⊢
    rw [show (sockAt socks' pe).rx.size = (sockAt socks pe).rx.size from h2']
    exact hroom
  | futex | sleep | vfork | child => trivial

theorem Wait.Holds.of_same (hw : w.Holds socks)
    (hsame : ∀ n, (socks' n).used = (socks n).used ∧ (socks' n).peer = (socks n).peer)
    (hread : ∀ si, w = .read si → (sockAt socks' si).rx.size = (sockAt socks si).rx.size ∧
      (sockAt socks' si).closed = (sockAt socks si).closed)
    (hwrite : ∀ si pe len, w = .write si pe len → (sockAt socks pe).rx.size ≤
      (sockAt socks' pe).rx.size) :
    w.Holds socks' := by
  have hused : ∀ j : Int, (sockAt socks' j).used = (sockAt socks j).used := fun j => (hsame _).1
  have hpeer : ∀ j : Int, (sockAt socks' j).peer = (sockAt socks j).peer := fun j => (hsame _).2
  cases w with
  | read si =>
    obtain ⟨hu, hsize, hclosed, hp, hpu⟩ := hw
    obtain ⟨h1, h2⟩ := hread si rfl
    refine ⟨(hused si).trans hu, h1.trans hsize, h2.trans hclosed, (hpeer si).symm ▸ hp, ?_⟩
    rw [hpeer, hused]
    exact hpu
  | write si pe len =>
    obtain ⟨hu, hpe, hp, hpu, hroom⟩ := hw
    have hle := hwrite si pe len rfl
    refine ⟨(hused si).trans hu, (hpeer si).trans hpe, hp, (hused pe).trans hpu, ?_⟩
    unfold room at hroom ⊢
    omega
  | futex | sleep | vfork | child => trivial

theorem free_holds (hw : w.Holds socks) (hm : w.Marked m) (hj : 0 ≤ j) (hout : j ∉ w.sockets)
    (hread : ∀ si, w = .read si → (sockAt socks si).peer ≠ j) : w.Holds (socketFree j socks) := by
  have hother : ∀ i : Int, 0 ≤ i → j ≠ i → i.toNat ≠ j.toNat := fun i hi hne h0 => hne (by omega)
  cases w with
  | read si =>
    obtain ⟨hu, hsize, hclosed, hp, hpu⟩ := hw
    have hsi : j ≠ si := fun h0 => hout (h0 ▸ mem_singleton_self _)
    obtain ⟨h1, h2, h3, h4⟩ := free_other socks j (hother si hm.1 hsi)
    have hpeer : (sockAt (socketFree j socks) si).peer = (sockAt socks si).peer :=
      h4.resolve_right (hread si rfl)
    refine ⟨h1.trans hu, (congrArg Ring.size h2).trans hsize, h3.trans hclosed, hpeer.symm ▸ hp, ?_⟩
    rw [hpeer]
    exact (free_other socks j (hother _ hp (hread si rfl).symm)).1.trans hpu
  | write si pe len =>
    obtain ⟨hu, hpe, hp, hpu, hroom⟩ := hw
    have hsi : j ≠ si := fun h0 => hout (h0 ▸ mem_cons_self)
    have hpj : j ≠ pe := fun h0 => hout (h0 ▸ mem_cons_of_mem _ mem_cons_self)
    obtain ⟨h1, -, -, h4⟩ := free_other socks j (hother si hm.1 hsi)
    obtain ⟨h1', h2', -, -⟩ := free_other socks j (hother pe hp hpj)
    refine ⟨h1.trans hu, ?_, hp, h1'.trans hpu, ?_⟩
    · exact (h4.resolve_right fun h0 => hpj (h0.symm.trans hpe)).trans hpe
    unfold room at hroom ⊢
    rw [show (sockAt (socketFree j socks) pe).rx = (sockAt socks pe).rx from h2']
    exact hroom
  | futex | sleep | vfork | child => trivial

theorem wakeSocket_procs (mark : BitVec 32) (t : Tasks) (hi : i < slotCount)
    (hb : ((wakeSocket mark t).procs i).state = .blocked) :
    (wakeSocket mark t).procs i = t.procs i ∧ (t.procs i).waitSockPlus1 ≠ mark := by
  unfold wakeSocket Process.awakeFor at hb ⊢
  dsimp only at hb ⊢
  rw [if_pos hi] at hb ⊢
  split at hb
  · cases hb
  case isFalse h => exact ⟨by rw [if_neg h], fun h0 => h ⟨hb, h0⟩⟩

theorem wakeSocketReaders_procs (hidx : 0 ≤ idx) (t : Tasks) (hi : i < slotCount)
    (hb : ((wakeSocketReaders idx t).procs i).state = .blocked) :
    (wakeSocketReaders idx t).procs i = t.procs i ∧ (t.procs i).waitSockPlus1 ≠ readMark idx := by
  unfold wakeSocketReaders at hb ⊢
  rw [if_neg (by omega)] at hb ⊢
  exact wakeSocket_procs _ t hi hb

theorem wakeSocketWriters_procs (hidx : 0 ≤ idx) (t : Tasks) (hi : i < slotCount)
    (hb : ((wakeSocketWriters idx t).procs i).state = .blocked) :
    (wakeSocketWriters idx t).procs i = t.procs i ∧ (t.procs i).waitSockPlus1 ≠ writeMark idx := by
  unfold wakeSocketWriters at hb ⊢
  rw [if_neg (by omega)] at hb ⊢
  exact wakeSocket_procs _ t hi hb

theorem Sound.wakes (h : Sound waits self k)
    (hg : (g (k.tasks.procs j)).state ≠ .blocked) (hs : k'.socks = k.socks)
      (ht : k'.tasks = k.tasks.modify j g) :
    Sound waits self k' := by
  refine ⟨hs ▸ h.tidy, fun i w hi hw hsock hb => ?_⟩
  rw [hs, ht] at *
  by_cases hij : i = j
  · subst hij
    rw [Tasks.modify_same] at hb
    exact absurd hb hg
  · rw [Tasks.modify_other _ _ hij] at hb ⊢
    exact h.waiter i w hi hw hsock hb

theorem Sound.minds (h : Sound waits self k) (hs : Tidy k.socks → Grew k.socks k'.socks)
    (ht : Minds self k.tasks k'.tasks) : Sound waits self k' := by
  have hg := hs h.tidy
  refine ⟨hg.tidy, fun i w hi hw hsock hb => ?_⟩
  obtain ⟨hstate, hmark, -, -⟩ := (ht.others i hi).asleep (.inr hb)
  obtain ⟨hm, hh, hcur⟩ := h.waiter i w hi hw hsock (hstate.symm.trans hb)
  refine ⟨hmark.symm ▸ hm, hg.holds hh, fun h0 => ?_⟩
  rcases ht.current i h0 with h1 | h1 | h1
  · exact hcur h1
  · exact hi h1
  · exact h1 hb

theorem Tidy.step (h : Tidy socks) (hs : SockStep socks socks') : Tidy socks' :=
  ⟨hs.inTable h.inTable, hs.symmetric h.inTable h.symmetric⟩

theorem sockAt_setSock_of_ne {i j : Int} (hi : 0 ≤ i) (hj : 0 ≤ j) (h : i ≠ j) (u : UnixSocket) :
    sockAt (setSock socks j u) i = sockAt socks i := update_of_ne (by omega) ..

theorem sockAt_setSock_self (j : Int) (u : UnixSocket) : sockAt (setSock socks j u) j = u :=
    update_self ..

theorem Sound.deliver (h : Sound waits self k) (hlt : ∀ i w, waits i = some w → i < slotCount)
    (hp : 0 ≤ pe) (hs : k'.socks = Kernel.deliver k.socks pe src)
    (ht : k'.tasks = wakeSocketReaders pe k.tasks) : Sound waits self k' := by
  refine ⟨hs ▸ h.tidy.step (.edit _ _ rfl rfl), fun i w hi hw hsock hb => ?_⟩
  have hcur := (wakeSocketReaders_tamed pe k.tasks).current
  rw [ht] at hb ⊢
  obtain ⟨hproc, hmark⟩ := wakeSocketReaders_procs hp k.tasks (hlt i w hw) hb
  rw [hproc] at hb ⊢
  obtain ⟨hm, hh, hc⟩ := h.waiter i w hi hw hsock hb
  refine ⟨hm, ?_, fun h0 => hc (hcur ▸ h0)⟩
  rw [hs]
  have hsame : ∀ n, (Kernel.deliver k.socks pe src n).used = (k.socks n).used ∧
      (Kernel.deliver k.socks pe src n).peer = (k.socks n).peer := by
    intro n
    refine ⟨setSock_part used ?_ n, setSock_part peer ?_ n⟩
    all_goals rfl
  refine hh.of_same hsame ?_ ?_
  · rintro si rfl
    have hne : si ≠ pe := fun h0 => hmark (h0 ▸ hm.2)
    unfold Kernel.deliver
    rw [sockAt_setSock_of_ne hm.1 hp hne]
    exact ⟨rfl, rfl⟩
  · rintro sj pj len rfl
    have hpj : 0 ≤ pj := hh.2.2.1
    unfold Kernel.deliver
    by_cases hpe : pj = pe
    · rw [hpe, sockAt_setSock_self]
      exact Nat.le_add_right _ _
    · rw [sockAt_setSock_of_ne hpj hp hpe]

theorem Sound.drain (h : Sound waits self k) (hlt : ∀ i w, waits i = some w → i < slotCount)
    (hp : 0 ≤ si) (hn : n ≠ 0) (hle : n ≤ (sockAt k.socks si).rx.size)
      (hs : k'.socks = setSock k.socks si
      { sockAt k.socks si with rx := (sockAt k.socks si).rx.drop socketBuffer n })
    (ht : k'.tasks = wakeSocketWriters si k.tasks) : Sound waits self k' := by
  refine ⟨hs ▸ h.tidy.step (.edit si _ rfl rfl), fun i w hi hw hsock hb => ?_⟩
  have hcur := (wakeSocketWriters_tamed si k.tasks).current
  rw [ht] at hb ⊢
  obtain ⟨hproc, hmark⟩ := wakeSocketWriters_procs hp k.tasks (hlt i w hw) hb
  rw [hproc] at hb ⊢
  obtain ⟨hm, hh, hc⟩ := h.waiter i w hi hw hsock hb
  refine ⟨hm, ?_, fun h0 => hc (hcur ▸ h0)⟩
  rw [hs]
  refine hh.of_same (fun n => ⟨setSock_part used (by rfl) n, setSock_part peer (by rfl) n⟩) ?_ ?_
  · rintro sj rfl
    -- there was something to read
    have hne : sj ≠ si := by
      rintro rfl
      have := hh.2.1
      omega
    rw [sockAt_setSock_of_ne hm.1 hp hne]
    exact ⟨rfl, rfl⟩
  · rintro sj pj len rfl
    have hne : pj ≠ si := fun h0 => hmark (h0 ▸ hm.2)
    rw [sockAt_setSock_of_ne hh.2.2.1 hp hne]

theorem Sound.close (h : Sound waits self k) (hlt : ∀ i w, waits i = some w → i < slotCount)
    (hp : 0 ≤ si)
    (hout : ∀ i w, waits i = some w → si ∉ w.sockets) : Sound waits self (closeSocket si k) := by
  generalize hpe : (sockAt k.socks si).peer = pe
  -- a socket whose peer is closed is the peer of that one
  have hback : ∀ sj : Int, (sockAt k.socks sj).used = true → 0 ≤ sj → (sockAt k.socks sj).peer = si →
      pe = sj ∧ sj < socketCount := by
    intro sj hu hj hpeer
    have hsym := (h.tidy.symmetric sj.toNat hu (show 0 ≤ (sockAt k.socks sj).peer by omega)).2
    have hrange := h.tidy.inTable sj.toNat hu
    rw [show (k.socks sj.toNat).peer = si from hpeer, hpe] at hsym
    omega
  unfold closeSocket
  dsimp only
  rw [hpe]
  split
  case isTrue hc =>
    have hstep : SockStep k.socks (setSock k.socks pe { sockAt k.socks pe with closed := true }) :=
      .edit pe _ rfl rfl
    refine ⟨(h.tidy.step hstep).step (.free si), fun i w hi hw hsock hb => ?_⟩
    have hcur := (wakeSocketReaders_tamed pe k.tasks).current
    dsimp only at hb ⊢
    obtain ⟨hproc, hmark⟩ := wakeSocketReaders_procs hc.1 k.tasks (hlt i w hw) hb
    rw [hproc] at hb ⊢
    obtain ⟨hm, hh, hcw⟩ := h.waiter i w hi hw hsock hb
    refine ⟨hm, free_holds (hh.of_same (fun n => ⟨setSock_part used (by rfl) n,
      setSock_part peer (by rfl) n⟩) ?_ ?_) hm hp (hout i w hw) ?_, fun h0 => hcw (hcur ▸ h0)⟩
    · rintro sj rfl
      have hne : sj ≠ pe := fun h0 => hmark (h0 ▸ hm.2)
      rw [sockAt_setSock_of_ne hm.1 hc.1 hne]
      exact ⟨rfl, rfl⟩
    · rintro sj pj len rfl
      exact le_of_eq (setSock_part (fun u => u.rx.size) (by rfl) pj.toNat).symm
    · rintro sj rfl h0
      have hpeer : (sockAt k.socks sj).peer = si :=
        (setSock_part peer (by rfl) sj.toNat).symm.trans h0
      exact hmark ((hback sj hh.1 hm.1 hpeer).1 ▸ hm.2)
  case isFalse hc =>
    refine ⟨h.tidy.step (.free si), fun i w hi hw hsock hb => ?_⟩
    obtain ⟨hm, hh, hcw⟩ := h.waiter i w hi hw hsock hb
    refine ⟨hm, free_holds hh hm hp (hout i w hw) ?_, hcw⟩
    rintro sj rfl h0
    obtain ⟨h1, h2⟩ := hback sj hh.1 hm.1 h0
    exact hc ⟨h1 ▸ hm.1, h1 ▸ h2⟩

theorem Does.sound (hd : Does self k k' a) (h : Sound waits self k)
    (hlt : ∀ i w, waits i = some w → i < slotCount) (hwire : a ≠ .rewire)
    (hout : ∀ si, a = .close si → ∀ i w, waits i = some w → si ∉ w.sockets) : Sound waits self k' := by
  cases hd with
  | mind hs ht =>
    refine h.minds (fun hg => ?_) ht
    rw [hs]
    exact .refl hg
  | grow hs _ ht => exact h.minds hs ht
  | deliver pe src hp _ hs ht => exact h.deliver hlt hp hs ht
  | drain si n hp _ hn hle hs ht => exact h.drain hlt hp hn hle hs ht
  | touch si hs ht =>
    refine h.minds (fun htidy => ?_) (ht ▸ .refl _ _)
    rw [hs]
    exact (Grew.refl htidy).edit si rfl rfl rfl rfl
  | close si hp hk => exact hk ▸ h.close hlt hp (hout si rfl)
  | wake i hb hs ht | futex _ i hb hs ht =>
    refine h.wakes ?_ hs ht
    unfold Process.awake
    rw [if_pos hb]
    nofun
  | hand i pid hb hs ht => exact h.wakes (g := Process.handOver pid) nofun hs ht
  | early i hb hs ht => exact h.wakes (g := Process.wakeEarly) nofun hs ht
  | reap i hover hs ht => exact h.wakes (g := Process.vacate) nofun hs ht
  | rewire => exact absurd rfl hwire

section

variable {env : Env σ} {f : SyscallFrame} {s : Watched σ}

theorem sleeper_sound (hc : k.tasks.current = some self) (ht : Tidy k.socks)
    (h : sleeper env self f k = some w)
    (hw : w.sockets ≠ []) (hu : ∀ si ∈ w.sockets, (sockAt k.socks si).used = true) :
    w.Marked ((handle env self f k).2.tasks.procs self).waitSockPlus1 ∧
      w.Holds (handle env self f k).2.socks ∧
      (handle env self f k).2.tasks.current ≠ some self := by
  cases sleeper_puts h with
  | read d hs hpos hdry heq =>
    obtain ⟨h1, h2, -, h3⟩ := waitOnSocket_blocks (f := f) hc hs (readMark d.socket) sysRead
    rw [heq, h1, h2]
    have hused := hu _ mem_cons_self
    unfold socketDry at hdry
    simp only [Bool.and_eq_true, decide_eq_true_eq, Bool.not_eq_true'] at hdry
    obtain ⟨⟨hsize, hopen⟩, hpeer⟩ := hdry
    exact ⟨⟨hpos, rfl⟩, ⟨hused, hsize, hopen, hpeer, (ht.symmetric _ hused hpeer).1⟩, h3⟩
  | write d hs hpos hwait heq =>
    obtain ⟨h1, h2, -, h3⟩ :=
      waitOnSocket_blocks (f := f) hc hs (writeMark (sockAt k.socks d.socket).peer) sysWrite
    rw [heq, h1, h2]
    have hused := hu _ mem_cons_self
    unfold writeMustWait at hwait
    simp only [Bool.and_eq_true, decide_eq_true_eq] at hwait
    obtain ⟨⟨-, hpeer⟩, hfree⟩ := hwait
    have hpu := (ht.symmetric _ hused hpeer).1
    have hlt : (sockAt k.socks d.socket).peer.toNat < 256 := ht.inTable _ hpu
    rw [if_pos ⟨hpeer, by omega⟩] at hfree
    exact ⟨⟨hpos, rfl⟩, ⟨hused, rfl, hpeer, hpu, hfree⟩, h3⟩
  | futex | sleep | vfork | child => exact absurd rfl hw

structure WakesAll (env : Env σ) (caller : Nat) (f : SyscallFrame) (waits : Nat → Option Wait)
    (k : System σ) :
    Prop where
  connects : decode f.rax = .connect → ConnectsFree env caller f k
  spares : ∀ i < slotCount, ∀ w, waits i = some w → ∀ si ∈ w.sockets, ¬ frees caller f k si
  dozes : ∀ w, sleeper env caller f k = some w → ∀ si ∈ w.sockets, (sockAt k.socks si).used = true

/-- Every system call wakes whom it has to; the other steps are not restricted. -/
def WakeSafe (env : Env σ) (s : Watched σ) : KernelOp σ → Prop
  | .call f => ∀ self, s.system.tasks.current = some self →
      WakesAll env self f s.waits (freePending env self s.system)
  | _ => True

structure Watched.Sound (s : Watched σ) : Prop where
  alive : Alive s.system.tasks
  placed : Placed s.system.tasks
  blocked : ∀ i w, s.waits i = some w → (s.system.tasks.procs i).state = .blocked
  tidy : Tidy s.system.socks
  waiter : ∀ i w, s.waits i = some w → w.sockets ≠ [] →
    w.Marked (s.system.tasks.procs i).waitSockPlus1 ∧ w.Holds s.system.socks ∧
      s.system.tasks.current ≠ some i

theorem Watched.Sound.lt (h : s.Sound) (hw : s.waits i = some w) : i < slotCount := by
  refine h.placed i ?_
  rw [h.blocked i w hw]
  nofun

theorem Watched.Sound.others (h : s.Sound) (caller : Nat) : Kernel.Sound s.waits caller s.system :=
  ⟨h.tidy, fun i w _ hw hsock _ => h.waiter i w hw hsock⟩

theorem wakeTimedTasks_sound (h : Kernel.Sound waits self k) :
    Kernel.Sound waits self { k with tasks := wakeTimedTasks now k.tasks } := by
  refine ⟨h.tidy, fun i w hi hw hsock hb => ?_⟩
  have hproc : (wakeTimedTasks now k.tasks).procs i = k.tasks.procs i := by
    unfold wakeTimedTasks at hb ⊢
    dsimp only at hb ⊢
    split at hb
    · cases hb
    case isFalse h0 => exact if_neg h0
  dsimp only at hb ⊢
  rw [hproc] at hb ⊢
  exact h.waiter i w hi hw hsock hb

theorem onTimer_sound (hc : ∀ i, k.tasks.current = some i → i = self)
    (h : Kernel.Sound waits self k) :
    Kernel.Sound waits self { k with tasks := (onTimer now g k.tasks).2.2 } :=
  (wakeTimedTasks_sound h).minds .refl (onTimer_rel (Minds.rule hc) now g)

theorem kernelStep_sound (h : s.Sound) (op : KernelOp σ) (hs : WakeSafe env s op) :
    ∃ caller, Kernel.Sound s.waits caller (kernelStep env s.system op) ∧
      (∀ i w, s.waits i = some w → w.sockets ≠ [] → i ≠ caller) ∧
      ∀ i w, fallsAsleep env s.system op = some (i, w) → w.sockets ≠ [] →
        w.Marked ((kernelStep env s.system op).tasks.procs i).waitSockPlus1 ∧
          w.Holds (kernelStep env s.system op).socks ∧ (kernelStep env s.system op).tasks.current ≠
            some i := by
  have hout : ∀ i w, s.waits i = some w → w.sockets ≠ [] → i ≠ slotCount := fun i w hw _ => (h.lt hw).ne
  cases op with
  | timer g =>
    cases hc : s.system.tasks.current with
    | none =>
      exact ⟨slotCount, onTimer_sound (fun i hi => by rw [hc] at hi; cases hi) (h.others _), hout,
        nofun⟩
    | some self =>
      refine ⟨self, onTimer_sound (fun i hi => ?_) (h.others _), fun i w hw hsock h0 => ?_, nofun⟩
      · exact Option.some.inj (hi.symm.trans hc)
      · exact (h.waiter i w hw hsock).2.2 (h0 ▸ hc)
  | spawn r => exact ⟨slotCount, (h.others _).minds .refl (spawn_minds ..), hout, nofun⟩
  | start i => exact ⟨slotCount, (h.others _).minds .refl (start_minds ..), hout, nofun⟩
  | machine m => exact ⟨slotCount, (h.others _).minds .refl (.refl ..), hout, nofun⟩
  | call f =>
    cases hc : s.system.tasks.current with
    | none =>
      rw [kernelStep_call_none env hc]
      refine ⟨slotCount, h.others _, hout, fun i w h0 => ?_⟩
      unfold fallsAsleep at h0
      rw [hc] at h0
      cases h0
    | some self =>
      obtain ⟨hconn, hspare, hdoze⟩ := hs self hc
      have hcur := (freePending_entered env hc).current.trans hc
      have hsocks := freePending_socks env self s.system
      rw [kernelStep_call env hc, fallsAsleep_call hc]
      have hsound : Kernel.Sound s.waits self (freePending env self s.system) :=
        (h.others self).minds (fun ht => by rw [hsocks]; exact .refl ht) (freePending_minds ..)
      generalize freePending env self s.system = k at *
      refine ⟨self, ?_, fun i w hw hsock h0 => (h.waiter i w hw hsock).2.2 (h0 ▸ hc),
        fun i w h0 hsock => ?_⟩
      · refine (handle_does env hcur).keeps (P := Kernel.Sound s.waits self) ?_ hsound
        intro k1 k2 a ha hd h1
        have hallow := acts_allowed env ha
        refine hd.sound h1 (fun i w hw => h.lt hw) ?_ ?_
        · rintro rfl
          exact hallow.2 (hconn hallow.1)
        · rintro si rfl i w hw hmem
          exact hspare i (h.lt hw) w hw si hmem hallow
      · obtain ⟨w', hw', h0⟩ := Option.map_eq_some_iff.mp h0
        cases h0
        exact sleeper_sound hcur hsound.tidy hw' hsock (hdoze w hw')

theorem watchedStep_sound (h : s.Sound) (op : KernelOp σ) (hs : WakeSafe env s op) :
    (watchedStep env s op).Sound := by
  obtain ⟨caller, hsound, hother, hnew⟩ := kernelStep_sound h op hs
  refine ⟨kernelStep_alive env h.alive op, kernelStep_placed env h.alive h.placed op,
    fun i w hw => (watchedStep_waits hw).1, hsound.tidy, fun i w hw hsock => ?_⟩
  obtain ⟨hb, hf | ⟨hold, -⟩⟩ := watchedStep_waits hw
  · exact hnew i w hf hsock
  · exact hsound.waiter i w (hother i w hold hsock) hold hsock hb

theorem bootWatched_sound (m : σ) : (bootWatched m).Sound :=
  ⟨boot_alive, fun _ hi => absurd rfl hi, nofun, ⟨fun i h => absurd h (boot_free m i),
    fun i h => absurd h (boot_free m i)⟩, nofun⟩

def Wait.Due (socks : Nat → UnixSocket) : Wait → Prop
  | .read si =>
    (sockAt socks si).rx.size ≠ 0 ∨ (sockAt socks si).closed = true ∨ (sockAt socks si).peer < 0 ∨
      (sockAt socks (sockAt socks si).peer).used = false
  | .write si pe len =>
    len ≤ room (sockAt socks pe) ∨ (sockAt socks pe).used = false ∨ (sockAt socks si).peer ≠ pe
  | _ => False

/-- No process is blocked to read or to write that could go on. -/
def NoLostWakeup (s : Watched σ) : Prop :=
  ∀ i w, (s.system.tasks.procs i).state = .blocked → s.waits i = some w → ¬ w.Due s.system.socks

theorem Wait.Holds.not_due (h : w.Holds socks) : ¬ w.Due socks := by
  cases w with
  | read si =>
    obtain ⟨-, h1, h2, h3, h4⟩ := h
    rintro (h0 | h0 | h0 | h0)
    · exact h0 h1
    · exact absurd (h2.symm.trans h0) nofun
    · omega
    · exact absurd (h4.symm.trans h0) nofun
  | write si pe len =>
    obtain ⟨-, h1, -, h3, h4⟩ := h
    rintro (h0 | h0 | h0)
    · omega
    · exact absurd (h3.symm.trans h0) nofun
    · exact h0 h1
  | futex | sleep | vfork | child => exact id

theorem Watched.Sound.noLostWakeup (h : s.Sound) : NoLostWakeup s := by
  intro i w _ hw
  by_cases hsock : w.sockets = []
  · cases w with
    | read | write => cases hsock
    | futex | sleep | vfork | child => exact id
  · exact (h.waiter i w hw hsock).2.1.not_due

variable (env) in
theorem noLostWakeup_along (m : σ) (ops : List (KernelOp σ))
    (hs : Along (watchedStep env) (WakeSafe env) (bootWatched m) ops) :
    NoLostWakeup (runFrom (watchedStep env) (bootWatched m) ops) :=
  (Along.invariant (I := Watched.Sound) (fun _ op h hop => watchedStep_sound h op hop)
    (bootWatched_sound m) hs).noLostWakeup

instance (self fd : Nat) (k : System σ) (si : Int) : Decidable (DropsLast self fd k si) :=
  inferInstanceAs (Decidable (_ ∧ si ∉ namesBut _ _))

instance (self : Nat) (f : SyscallFrame) (k : System σ) : Decidable (Replaces self f k) :=
  inferInstanceAs (Decidable (_ ∧ _ ∧ _))

instance (self : Nat) (k : System σ) (si : Int) : Decidable (LeavesLast self k si) :=
  inferInstanceAs (Decidable (_ ∧ si ∉ namesBut _ _))

instance (self : Nat) (f : SyscallFrame) (k : System σ) (si : Int) :
    Decidable (frees self f k si) :=
  decidable_of_iff
    ((decode f.rax = .close ∧ (k.fd? self f.rdi).isSome ∧ DropsLast self f.rdi.toNat k si) ∨
      ((decode f.rax = .dup2 ∨ decode f.rax = .dup3) ∧ Replaces self f k ∧
        DropsLast self f.rsi.toNat k si) ∨
      (decode f.rax = .exit ∨ decode f.rax = .exitGroup) ∧ LeavesLast self k si)
    (by unfold frees; cases decode f.rax <;> simp)

instance (env : Env σ) (self : Nat) (f : SyscallFrame) (k : System σ) :
    Decidable (ConnectsFree env self f k) :=
  decidable_of_iff (∀ r : Int × Nat, connectArgs env self f k = some r →
    (connectTo r.1 r.2 k.socks).1 = true →
      (sockAt k.socks r.1).used = true ∧ (sockAt k.socks r.1).peer < 0)
    ⟨fun h si li => h (si, li), fun h r => h r.1 r.2⟩

instance (env : Env σ) (self : Nat) (f : SyscallFrame) (waits : Nat → Option Wait) (k : System σ) :
    Decidable (WakesAll env self f waits k) :=
  decidable_of_iff ((decode f.rax = .connect → ConnectsFree env self f k) ∧
      (∀ i < slotCount, ∀ w, waits i = some w → ∀ si ∈ w.sockets, ¬ frees self f k si) ∧
      ∀ w, sleeper env self f k = some w → ∀ si ∈ w.sockets, (sockAt k.socks si).used = true)
    ⟨fun h => ⟨h.1, h.2.1, h.2.2⟩, fun h => ⟨h.1, h.2, h.3⟩⟩

instance (env : Env σ) (s : Watched σ) (op : KernelOp σ) : Decidable (WakeSafe env s op) :=
  match op with
  | .call f => inferInstanceAs (Decidable (∀ self, _ = some self → WakesAll env self f _ _))
  | .timer _ | .spawn _ | .start _ | .machine _ => .isTrue trivial

end

def childWrites : List (KernelOp Unit) :=
  [.spawn (.loaded firstImage), .start 0, .call (plainCall 68), .call (plainCall 91),
    .call { plainCall 0 with rdi := 3, rdx := 1 }, .call { plainCall 1 with rdi := 4, rdx := 1 },
    .call (plainCall 46), .call { plainCall 0 with rdi := 3, rdx := 1 },
    .call { plainCall 0 with rdi := 3, rdx := 1 }]

theorem noLostWakeup_childWrites :
    ((runFrom (watchedStep flatEnv) (bootWatched ()) childWrites).waits 0 = some (.read 0)) ∧
      NoLostWakeup (runFrom (watchedStep flatEnv) (bootWatched ()) childWrites) :=
  ⟨by decide +kernel, noLostWakeup_along flatEnv () childWrites (by decide +kernel)⟩

def readersGone : List (KernelOp Unit) :=
  [.spawn (.loaded firstImage), .start 0, .call (plainCall 68), .call (plainCall 91),
    .call { plainCall 3 with rdi := 3 }, .call { plainCall 1 with rdi := 4, rdx := 1 },
    .call { plainCall 1 with rdi := 4, rdx := 65536 }, .call { plainCall 3 with rdi := 3 }]

theorem writer_forgotten :
    ¬ NoLostWakeup (runFrom (watchedStep flatEnv) (bootWatched ()) readersGone) := by
  have hb : ((runFrom (watchedStep flatEnv) (bootWatched ()) readersGone).system.tasks.procs
      0).state = .blocked := by
    decide +kernel
  have hw : (runFrom (watchedStep flatEnv) (bootWatched ()) readersGone).waits 0 =
      some (.write 1 0 65536) := by
    decide +kernel
  have hgone : (sockAt (runFrom (watchedStep flatEnv) (bootWatched ()) readersGone).system.socks
      0).used = false := by
    decide +kernel
  generalize runFrom (watchedStep flatEnv) (bootWatched ()) readersGone = s at *
  exact fun h => h 0 _ hb hw (.inr (.inl hgone))

end BlockOS.Kernel
