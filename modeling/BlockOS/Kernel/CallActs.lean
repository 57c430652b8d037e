import BlockOS.Kernel.Fairness
import BlockOS.Kernel.SocketCreation
import BlockOS.Kernel.Sleepers
import Mathlib.Logic.Relation

/-! Every system call as a sequence of acts. -/

namespace BlockOS.Kernel
open Words Relation Function
open Process (awake handOver vacate markSock block refs exec terminate exitWith)

inductive Act where
  | mind
  | grow
  | deliver (pe : Int) (n : Nat)
  | drain (si : Int)
  | touch (si : Int)
  | close (si : Int)
  | wake (i : Nat)
  | futex (addr : Word) (i : Nat)
  | hand (i : Nat)
  | early (i : Nat)
  | reap (i : Nat)
  | rewire

section

variable {σ : Type}

def closeSocket (si : Int) (k : System σ) : System σ :=
  let pe := (sockAt k.socks si).peer
  let k := if 0 ≤ pe ∧ pe < socketCount then
      { k with
        socks := setSock k.socks pe { sockAt k.socks pe with closed := true }
        tasks := wakeSocketReaders pe k.tasks }
    else k
  { k with socks := socketFree si k.socks }

inductive Does (self : Nat) (k k' : System σ) : Act → Prop where
  | mind (hs : k'.socks = k.socks) (ht : Minds self k.tasks k'.tasks) : Does self k k' .mind
  | grow (hs : Tidy k.socks → Grew k.socks k'.socks) (hi : InTable k.socks → InTable k'.socks)
      (ht : Minds self k.tasks k'.tasks) : Does self k k' .grow
  | deliver (pe : Int) (src : List Byte) (hp : 0 ≤ pe) (hu : (sockAt k.socks pe).used = true)
      (hs : k'.socks = BlockOS.Kernel.deliver k.socks pe src)
      (ht : k'.tasks = wakeSocketReaders pe k.tasks) : Does self k k' (.deliver pe src.length)
  | drain (si : Int) (n : Nat) (hp : 0 ≤ si) (hu : (sockAt k.socks si).used = true) (hn : n ≠ 0)
      (hle : n ≤ (sockAt k.socks si).rx.size)
      (hs : k'.socks = setSock k.socks si
        { sockAt k.socks si with rx := (sockAt k.socks si).rx.drop socketBuffer n })
      (ht : k'.tasks = wakeSocketWriters si k.tasks) : Does self k k' (.drain si)
  | touch (si : Int) (hs : k'.socks = setSock k.socks si
        { sockAt k.socks si with rx := (sockAt k.socks si).rx.drop socketBuffer 0 })
      (ht : k'.tasks = k.tasks) : Does self k k' (.touch si)
  | close (si : Int) (hp : 0 ≤ si) (h : k' = closeSocket si k) : Does self k k' (.close si)
  | wake (i : Nat) (hb : (k.tasks.procs i).state = .blocked) (hs : k'.socks = k.socks)
      (ht : k'.tasks = k.tasks.modify i awake) : Does self k k' (.wake i)
  | futex (addr : Word) (i : Nat) (hb : (k.tasks.procs i).state = .blocked) (hs : k'.socks = k.socks)
      (ht : k'.tasks = k.tasks.modify i awake) : Does self k k' (.futex addr i)
  | hand (i : Nat) (pid : Word) (hb : (k.tasks.procs i).state = .blocked) (hs : k'.socks = k.socks)
      (ht : k'.tasks = k.tasks.modify i (handOver pid)) : Does self k k' (.hand i)
  | early (i : Nat) (hb : (k.tasks.procs i).state = .blocked) (hs : k'.socks = k.socks)
      (ht : k'.tasks = k.tasks.modify i Process.wakeEarly) : Does self k k' (.early i)
  | reap (i : Nat) (hover : (k.tasks.procs i).state = .terminated) (hs : k'.socks = k.socks)
      (ht : k'.tasks = k.tasks.modify i vacate) : Does self k k' (.reap i)
  | rewire (hi : InTable k.socks → InTable k'.socks) (ht : Minds self k.tasks k'.tasks) : Does self k k' .rewire

def Doing (self : Nat) (S : Act → Prop) : System σ → System σ → Prop :=
  ReflTransGen fun k k' => ∃ a, S a ∧ Does self k k' a

variable {self : Nat} {S S' : Act → Prop} {k k' k'' : System σ} {a : Act}

theorem Doing.refl (k : System σ) : Doing self S k k := ReflTransGen.refl

theorem Doing.trans (h : Doing self S k k') (h' : Doing self S k' k'') : Doing self S k k'' :=
  ReflTransGen.trans h h'

theorem Does.doing (h : Does self k k' a) (ha : S a) : Doing self S k k' := .single ⟨a, ha, h⟩

open Does (doing)

theorem Doing.mono (h : Doing self S k k') (hS : ∀ a, S a → S' a) : Doing self S' k k' :=
  ReflTransGen.mono (fun _ _ ⟨a, ha, hd⟩ => ⟨a, hS a ha, hd⟩) _ _ h

theorem Doing.keeps {P : System σ → Prop} (hP : ∀ k k' a, S a → Does self k k' a → P k → P k')
    (h : Doing self S k k') (hk : P k) : P k' := by
  induction h with
  | refl => exact hk
  | tail _ hstep ih =>
    obtain ⟨a, ha, hd⟩ := hstep
    exact hP _ _ a ha hd ih

def calmly : Act → Prop := (· = .mind)

theorem minding (hs : k'.socks = k.socks) (ht : Minds self k.tasks k'.tasks) :
    Doing self calmly k k' :=
  doing (.mind hs ht) rfl

theorem calmRule : MinorRule (@Doing σ self calmly) where
  refl := .refl
  trans h h' := h.trans h'
  mem _ _ := minding rfl (.refl _ _)
  minor _ _ _ hg :=
    minding rfl (.modify fun _ => .of_parts (hg _).state (hg _).mark (hg _).waiting (hg _).core)
  files _ _ _ := minding rfl (.modify fun _ => .of_parts rfl rfl rfl rfl)
  fsBase k _ := minding rfl ((Minds.refl self k.tasks).same ⟨rfl, rfl⟩ ⟨rfl, rfl⟩)

theorem setFd_minding (k : System σ) (owner fd : Nat) (d : RuntimeFd) :
    Doing self calmly k (k.setFd owner fd d) := minding rfl (.of_tamed (Tamed.sockRule.setFd ..))

theorem calmFds : FdRule (@Doing σ self calmly) := { calmRule.toRule with setFd := setFd_minding }

theorem minding_switch (hr : Minds self k.tasks r.2.2)
    (hf : ∀ k', r.1 = false → k'.tasks = r.2.2 → Doing self calmly k' (fail k').2) :
    Doing self calmly k (k.switching r fail).2 := by
  have h : Doing self calmly k { k with tasks := r.2.2 } := minding rfl hr
  unfold System.switching
  split
  · exact h
  case isFalse hr => exact h.trans (hf _ (Bool.eq_false_of_not_eq_true hr) rfl)

variable (env : Env σ) {f : SyscallFrame}

theorem waitOnSocket_minding (hc : k.tasks.current = some self) (mark : BitVec 32) (number : Word) :
    Doing self calmly k (waitOnSocket self mark number f k).2 := by
  have hmark : ∀ (k : System σ) (m : BitVec 32), Doing self calmly k (k.modify self (markSock m)) :=
    fun k m => minding rfl (.modify_self _ _)
  unfold waitOnSocket
  refine (hmark k mark).trans
    (minding_switch (block_rel (t := (k.modify self _).tasks) (Minds.running hc) _) fun k1 h0 h1 =>
      ?_)
  have hcur : (k1.modify self (markSock 0)).tasks.current = some self := by
    rw [System.modify_tasks, Tasks.modify_current, h1, block_current_of_false h0]
    exact hc
  exact (hmark k1 0).trans (minding_switch (yield_rel (Minds.running hcur) _) fun k2 _ _ => .refl k2)

theorem doNanosleep_minding (hc : k.tasks.current = some self) :
    Doing self calmly k (doNanosleep env f k).2 := by
  fun_cases doNanosleep env f k
  all_goals first | exact .refl k | exact minding_switch (blockUntil_rel (Minds.running hc) _ _) fun k' _ _ => .refl k'

theorem doSchedYield_minding (hc : k.tasks.current = some self) :
    Doing self calmly k (doSchedYield f k).2 :=
  minding_switch (yield_rel (Minds.running hc) _) fun k' _ _ => .refl k'

theorem withIds_minding (uid euid gid egid : BitVec 32) :
    Doing self calmly k (k.modify self (Process.withIds uid euid gid egid)) :=
      minding rfl (.modify_self _ _)

theorem forkLike_minding (frame : TrapFrame) (vfork : Bool) :
    Doing self calmly k (forkLike env self frame vfork k).2 :=
  minding (forkLike_socks env frame vfork) (forkLike_minds env frame vfork)

theorem doFork_minding : Doing self calmly k (doFork env self f k).2 := by
  have h : Doing self calmly k (forkLike env self f.toTrap false k).2 := forkLike_minding ..
  unfold doFork
  split
  case h_1 h0 => rwa [h0] at h
  case h_2 h0 => rwa [h0] at h

theorem forkLike_current (frame : TrapFrame) (vfork : Bool) :
    (forkLike env self frame vfork k).2.tasks.current = k.tasks.current := by
  fun_cases forkLike env self frame vfork k <;> rfl

theorem doVfork_minding (hc : k.tasks.current = some self) :
    Doing self calmly k (doVfork env self f k).2 := by
  have h : Doing self calmly k (forkLike env self f.toTrap true k).2 := forkLike_minding ..
  have hcur : (forkLike env self f.toTrap true k).2.tasks.current = k.tasks.current :=
    forkLike_current ..
  unfold doVfork
  split
  case h_1 h0 => rwa [h0] at h
  case h_2 child k1 h0 =>
    rw [h0] at h hcur
    have hblock : Doing self calmly k1 (k1.modify self block) := minding rfl (.modify_self _ _)
    refine h.trans (hblock.trans (minding_switch ?_ fun k' _ _ => .refl k'))
    exact block_rel (t := (k1.modify self _).tasks) (Minds.running (hcur.trans hc)) _

theorem doClone_minding : Doing self calmly k (doClone env self f k).2 := by
  unfold doClone
  split
  · exact .refl k
  split
  · exact .refl k
  case h_2 slot hs => exact minding rfl (cloneInto_minds (freeSlot_spec hs).2 f)

theorem scanChildren_current : (scanChildren env self f k).2.tasks.current = k.tasks.current := by
  unfold scanChildren
  split
  case h_1 x hx =>
    obtain ⟨g, _, ht⟩ := reap_tasks env self x f k
    rw [ht]
    rfl
  case h_2 => rfl

def reaping (t : Tasks) (a : Act) : Prop := a = .mind ∨ ∃ x, (t.procs x).state = .terminated ∧
    a = .reap x

theorem scanChildren_reaping : Doing self (reaping k.tasks) k (scanChildren env self f k).2 := by
  unfold scanChildren
  split
  case h_1 x hx =>
    have hover := (findTerminated_spec hx).2.1
    obtain ⟨t, hm, hx1, -, ht⟩ := @reap_minds self _ env _ _ hover f
    have h1 : Doing self (reaping k.tasks) k { k with tasks := t } := doing (.mind rfl hm) (.inl rfl)
    exact h1.trans (doing (.reap x hx1 (reap_socks ..) ht) (.inr ⟨x, hover, rfl⟩))
  case h_2 => exact .refl k

theorem doWait4_reaping (hc : k.tasks.current = some self) :
    Doing self (reaping k.tasks) k (doWait4 env self f k).2 := by
  have h : Doing self (reaping k.tasks) k (scanChildren env self f k).2 := scanChildren_reaping env
  have hcur : (scanChildren env self f k).2.tasks.current = some self :=
    (scanChildren_current env).trans hc
  unfold doWait4
  dsimp only
  generalize (scanChildren env self f k).2 = k1 at h hcur
  split
  · exact h
  split
  · exact h
  split
  · exact h
  unfold waitForChild
  have hblock : Doing self calmly k1 ((k1.modify self (Process.awaitChild f)).modify self block) :=
    minding rfl ((Minds.modify_self _ _).trans (.modify_self _ _))
  refine h.trans (Doing.mono (hblock.trans (minding_switch ?_ fun k' _ _ => .refl k')) fun a ha =>
    .inl ha)
  exact block_rel (t := ((k1.modify self _).modify self _).tasks) (Minds.running hcur) _

def growing (a : Act) : Prop := a = .mind ∨ a = .grow

theorem growing_tamed (hs : Tidy k.socks → Grew k.socks k'.socks) (hp : Parts k k')
    (ht : Tamed (fun _ => False) k.tasks k'.tasks) : Doing self growing k k' :=
  doing (.grow hs hp.inTable (.of_tamed ht)) (.inr rfl)

theorem allocFd_socks (k : System σ) (i start : Nat) : (allocFd i start k).2.socks = k.socks := by
  unfold allocFd
  split <;> rfl

theorem doSocket_growing : Doing self growing k (doSocket self f k).2 := by
  refine growing_tamed (fun ht => ?_) (doSocket_rel Parts.rule.toSockRule) (doSocket_rel Tamed.sockRule)
  obtain ⟨hg, hfree⟩ := (Grew.refl ht).alloc
  have hs := allocFd_socks { k with socks := (socketObjAlloc k.socks).2 } self 0
  fun_cases doSocket self f k with
  | case1 | case2 => exact .refl ht
  | case3 _ _ hpos _ h0 =>
    rw [h0] at hs
    rw [hs]
    exact hg.free ht (hfree (not_lt.mp hpos))
  | case4 _ _ _ _ _ h0 =>
    rw [h0] at hs
    exact hs ▸ hg

theorem doBind_growing : Doing self growing k (doBind env self f k).2 := by
  refine growing_tamed (fun ht => ?_) (doBind_rel env Parts.rule.toSockRule)
    (doBind_rel env Tamed.sockRule)
  fun_cases doBind env self f k
  all_goals first | exact .refl ht | exact (Grew.refl ht).edit _ rfl rfl rfl rfl

theorem doListen_growing : Doing self growing k (doListen self f k).2 := by
  refine growing_tamed (fun ht => ?_) (doListen_rel Parts.rule.toSockRule) (doListen_rel Tamed.sockRule)
  fun_cases doListen self f k
  all_goals first | exact .refl ht | exact (Grew.refl ht).edit _ rfl rfl rfl rfl

theorem doAccept_growing : Doing self growing k (doAccept self f k).2 := by
  refine growing_tamed (fun ht => ?_) (doAccept_rel Parts.rule.toSockRule) (doAccept_rel Tamed.sockRule)
  have hg : ∀ li rest, Grew k.socks (setSock k.socks li { sockAt k.socks li with pending := rest }) :=
    fun _ _ => (Grew.refl ht).edit _ rfl rfl rfl rfl
  have hs := fun socks => allocFd_socks { k with socks := socks } self 0
  fun_cases doAccept self f k with
  | case1 | case2 | case3 => exact .refl ht
  | case4 li _ _ si rest _ _ _ h0 | case5 li _ _ si rest _ _ _ _ h0 =>
    have hs := hs (setSock k.socks li { sockAt k.socks li with pending := rest })
    rw [h0] at hs
    exact hs ▸ hg li rest

def ConnectsFree (self : Nat) (f : SyscallFrame) (k : System σ) : Prop :=
  ∀ si li, connectArgs env self f k = some (si, li) → (connectTo si li k.socks).1 = true →
    (sockAt k.socks si).used = true ∧ (sockAt k.socks si).peer < 0

def connecting (self : Nat) (f : SyscallFrame) (k : System σ) (a : Act) : Prop :=
  growing a ∨ (a = .rewire ∧ ¬ ConnectsFree env self f k)

theorem doConnect_connecting : Doing self (connecting env self f k) k (doConnect env self f k).2 := by
  have ht : Minds self k.tasks (doConnect env self f k).2.tasks :=
    doConnect_tasks env self f k ▸ .refl _ _
  by_cases hc : ConnectsFree env self f k
  · refine doing (.grow (fun htidy => ?_) (doConnect_inTable env) ht) (.inl (.inr rfl))
    rw [doConnect_socks]
    split
    case h_1 si li ha => exact connectTo_grew htidy (connectArgs_nonneg env ha) (hc si li ha)
    case h_2 => exact .refl htidy
  · exact doing (.rewire (doConnect_inTable env) ht) (.inr ⟨rfl, hc⟩)

theorem allocFd_twice_socks (self : Nat) (k : System σ) (socks : Nat → UnixSocket) :
    (allocFd self 0 (allocFd self 0 { k with socks := socks }).2).2.socks = socks := by
  rw [allocFd_socks, allocFd_socks]

theorem doSocketpair_growing : Doing self growing k (doSocketpair env self f k).2 := by
  refine growing_tamed (fun ht => ?_) (doSocketpair_rel env Parts.rule.toSockRule)
    (doSocketpair_rel env Tamed.sockRule)
  obtain ⟨hg, _⟩ := allocPair_grew ht
  unfold doSocketpair
  split
  · exact .refl ht
  split
  case h_1 h0 =>
    rw [h0] at hg
    exact hg
  case h_2 a b socks h0 =>
    rw [h0] at hg
    have hg' : Grew k.socks (setSock (setSock socks a { sockAt socks a with connected := true }) b
        { sockAt (setSock socks a { sockAt socks a with connected := true }) b with connected := true }) := by
      refine Grew.edit (Grew.edit hg a ?_ ?_ ?_ ?_) b ?_ ?_ ?_ ?_
      all_goals rfl
    dsimp only
    generalize setSock (setSock socks a _) b _ = socks1 at hg' ⊢
    have hs := Eq.subst (motive := Grew k.socks) (allocFd_twice_socks self k socks1).symm hg'
    split <;> exact hs

theorem doPipe2_growing : Doing self growing k (doPipe2 env self f k).2 := by
  refine growing_tamed (fun ht => ?_) (doPipe2_rel env Parts.rule.toSockRule)
    (doPipe2_rel env Tamed.sockRule)
  obtain ⟨hg, hnew⟩ := allocPair_grew ht
  unfold doPipe2
  split
  · exact .refl ht
  split
  case h_1 h0 =>
    rw [h0] at hg
    exact hg
  case h_2 a b socks h0 =>
    rw [h0] at hg hnew
    obtain ⟨ha, hb⟩ := hnew a b rfl
    have hback := (hg.free ht ha).free ht hb
    have hs := allocFd_twice_socks self k socks
    dsimp only
    split
    · exact Eq.subst (motive := Grew k.socks) hs.symm hg
    · dsimp only [System.setFd, System.modify]
      rw [hs]
      exact hback
    rw [hs]
    exact hback

def sending (pe : Int) (ns : Nat → Prop) (a : Act) : Prop := a = .mind ∨ ∃ n, ns n ∧
    a = .deliver pe n

def taking (si : Int) (a : Act) : Prop := a = .mind ∨ a = .touch si ∨ a = .drain si

theorem writeAll_sending (idx : Int) (src : List Byte) :
    Doing self (sending (sockAt k.socks idx).peer (· = src.length)) k (k.writeAll idx src).2 := by
  unfold System.writeAll socketWriteIdx
  split
  · exact .refl k
  case isFalse hw =>
    dsimp only
    split
    · exact .refl k
    · simp only [canWrite, Bool.not_eq_true, Bool.not_eq_false', Bool.and_eq_true,
        decide_eq_true_eq] at hw
      exact doing (.deliver _ src hw.1.2 hw.2 rfl rfl) (.inr ⟨_, rfl, rfl⟩)

theorem writeSome_sending (idx : Int) (src : List Byte) :
    Doing self (sending (sockAt k.socks idx).peer (· ≠ 0)) k (k.writeSome idx src).2 := by
  unfold System.writeSome socketWritePartial
  split
  · exact .refl k
  case isFalse hw =>
    dsimp only
    split
    · exact .refl k
    case isFalse hn =>
      simp only [canWrite, Bool.not_eq_true, Bool.not_eq_false', Bool.and_eq_true,
        decide_eq_true_eq] at hw
      exact doing (.deliver _ _ hw.1.2 hw.2 rfl rfl) (.inr ⟨_, hn, rfl⟩)

theorem readInto_taking (idx : Int) (dst : Word) (n : Nat) :
    Doing self (taking idx) k (k.readInto env idx dst n).2 := by
  unfold System.readInto socketReadIdx
  split
  · exact doing (.mind rfl (.refl _ _)) (.inl rfl)
  case isFalse hr =>
    simp only [Bool.not_eq_true, Bool.not_eq_false', Bool.and_eq_true, decide_eq_true_eq] at hr
    dsimp only
    rw [Ring.length_front]
    by_cases hn : min n (sockAt k.socks idx).rx.size = 0
    · rw [if_neg (not_not.mpr hn), hn]
      exact doing (.touch idx rfl rfl) (.inr (.inl rfl))
    · rw [if_pos hn]
      exact doing (.drain idx _ hr.1.1 hr.2 hn (Nat.min_le_right _ _) rfl rfl) (.inr (.inr rfl))

def writing (a : Act) : Prop := ∃ pe, sending pe (· ≠ 0) a

theorem calmly_writing : ∀ a, calmly a → writing a := fun _ h => ⟨0, .inl h⟩

theorem doWrite_writing (hc : k.tasks.current = some self) :
    Doing self writing k (doWrite env self f k).2 := by
  fun_cases doWrite env self f k
  all_goals first
    | exact .refl k
    | exact (runRest_rel env calmRule ..).mono calmly_writing
    | exact (waitOnSocket_minding hc _ _).mono calmly_writing
    | exact (writeSome_sending _ _).mono fun a ha => ⟨_, ha⟩

def reading (a : Act) : Prop := ∃ si, taking si a

theorem calmly_reading : ∀ a, calmly a → reading a := fun _ h => ⟨0, .inl h⟩

theorem doRead_reading (hc : k.tasks.current = some self) :
    Doing self reading k (doRead env self f k).2 := by
  fun_cases doRead env self f k
  all_goals first
    | exact .refl k
    | exact (runRest_rel env calmRule ..).mono calmly_reading
    | exact (waitOnSocket_minding hc _ _).mono calmly_reading
    | exact (readInto_taking env _ _ _).mono fun a ha => ⟨_, ha⟩

theorem doRecvfrom_reading : Doing self reading k (doRecvfrom env self f k).2 := by
  fun_cases doRecvfrom env self f k
  all_goals first | exact .refl k | exact (readInto_taking env _ _ _).mono fun a ha => ⟨_, ha⟩

theorem recvBuffers_taking (si : Int) (msg : Word) (fuel i total : Nat) (k : System σ) :
    Doing self (taking si) k (recvBuffers env si msg fuel i total k).2 := by
  induction fuel generalizing i total k with
  | zero => exact .refl k
  | succ fuel ih =>
    have h : Doing self (taking si) k
        (k.readInto env si (iovec env msg i k).1 (iovec env msg i k).2).2 :=
      readInto_taking ..
    unfold recvBuffers
    split
    · exact .refl k
    dsimp only
    split
    · exact .refl k
    split
    · exact h
    · exact h.trans (ih ..)

theorem doRecvmsg_reading : Doing self reading k (doRecvmsg env self f k).2 := by
  have hstore : ∀ (k : System σ) (addr : Word) (data : List Byte),
      Doing self reading k (k.store env addr data) :=
    fun k addr data => doing (.mind rfl (.refl _ _)) (calmly_reading _ rfl)
  unfold doRecvmsg
  split
  · exact .refl k
  split
  · exact .refl k
  have hclear := (hstore k (f.rsi + 40) (bytesOf 8 0)).trans (hstore _ (f.rsi + 48) (bytesOf 4 0))
  refine hclear.trans ?_
  dsimp only
  split
  · exact .refl _
  · exact (recvBuffers_taking env _ _ _ _ _ _).mono fun a ha => ⟨_, ha⟩

theorem length_load (k : System σ) (addr : Word) (len : Nat) : (k.load env addr len).length = len := by
  simp [System.load]

theorem writeAll_writing (si : Int) (h : ¬ (!k.userRange env addr len false) = true) :
    Doing self writing k (k.writeAll si (k.load env addr len)).2 := by
  have hlen : len ≠ 0 := by
    simp only [System.userRange, Bool.not_eq_true, Bool.not_eq_false', Bool.and_eq_true,
      decide_eq_true_eq] at h
    exact h.1
  refine (writeAll_sending si _).mono fun a ha => ⟨(sockAt k.socks si).peer, ha.imp_right ?_⟩
  rintro ⟨n, hn, h0⟩
  rw [length_load] at hn
  exact ⟨n, hn ▸ hlen, h0⟩

theorem sendBuffers_writing (si : Int) (msg : Word) (fuel i total : Nat) (k : System σ) :
    Doing self writing k (sendBuffers env si msg fuel i total k).2 := by
  induction fuel generalizing i total k with
  | zero => exact .refl k
  | succ fuel ih =>
    unfold sendBuffers
    split
    · exact .refl k
    dsimp only
    split
    · exact .refl k
    case isFalse hr =>
      split
      · exact (writeAll_writing env si hr).trans (ih ..)
      · exact writeAll_writing env si hr

theorem doSendto_writing : Doing self writing k (doSendto env self f k).2 := by
  unfold doSendto
  split
  · exact .refl k
  case h_2 si _ =>
    split
    · exact .refl k
    case isFalse hr => exact writeAll_writing env si hr

theorem doSendmsg_writing : Doing self writing k (doSendmsg env self f k).2 := by
  unfold doSendmsg
  split
  · exact .refl k
  split
  · exact .refl k
  · exact sendBuffers_writing env ..

def closing (freed : Int → Prop) (a : Act) : Prop := a = .mind ∨ ∃ si, freed si ∧ a = .close si

theorem closing_of_calmly {freed : Int → Prop} : ∀ a, calmly a → closing freed a :=
    fun _ h => .inl h

theorem closing_mono {freed freed' : Int → Prop} (h : ∀ si, freed si → freed' si) :
    ∀ a, closing freed a → closing freed' a :=
  fun _ ha => ha.imp_right fun ⟨si, hs, h0⟩ => ⟨si, h si hs, h0⟩

theorem socketReleaseFd_closing (si : Int) (except : Option (Nat × Nat)) :
    Doing self (closing fun s => s = si ∧ socketOtherRefs k.tasks si except = 0) k
      (socketReleaseFd si except k) := by
  unfold socketReleaseFd
  split
  · exact .refl k
  split
  · exact .refl k
  case isFalse hp hrefs =>
    exact doing (.close si (by omega) rfl) (.inr ⟨si, ⟨rfl, by omega⟩, rfl⟩)

def DropsLast (self fd : Nat) (k : System σ) (si : Int) : Prop :=
  (k.fdtable self fd).refers si = true ∧
    si ∉ namesBut k.tasks fun i n => n = fd ∧ (i = self ∨ i = k.tasks.fdOwner self)

theorem dropFd_closing (hu : (k.fdtable self fd).used = true) :
    Doing self (closing (DropsLast self fd k)) k (dropFd self fd (k.fdtable self fd) k) := by
  have hset : Doing self (closing (DropsLast self fd k)) k (k.setFd (k.tasks.fdOwner self) fd {}) :=
    (setFd_minding ..).mono closing_of_calmly
  unfold dropFd
  split
  case isTrue hk =>
    refine hset.trans ((socketReleaseFd_closing _ _).mono fun a ha => ha.imp_right ?_)
    rintro ⟨si, ⟨rfl, hrefs⟩, rfl⟩
    refine ⟨_, ⟨by simp [RuntimeFd.refers, hu, hk], ?_⟩, rfl⟩
    rintro ⟨i, n, hi, hn, hskip, hr⟩
    have h0 := otherRefs_eq_zero_iff.mp hrefs i n ((setFd_live _).mpr hi) hn ?_
    · rw [setFd_tasks, setFd_refs, if_neg, hr] at h0
      · cases h0
      · exact fun h => hskip ⟨h.2, .inr h.1⟩
    · rintro ⟨⟩
      exact hskip ⟨rfl, .inl rfl⟩
  case isFalse => exact hset

theorem doClose_closing : Doing self (closing fun s => (k.fd? self f.rdi).isSome ∧
    DropsLast self f.rdi.toNat k s) k (doClose self f k).2 := by
  unfold doClose
  split
  · exact .refl k
  case h_2 d hd =>
    obtain ⟨_, htable, hu⟩ := fd_spec hd
    subst htable
    exact (dropFd_closing hu).mono (closing_mono fun si hs => ⟨by rw [hd]; rfl, hs⟩)

theorem replaceFd_closing (d : RuntimeFd) (target : Nat) (flags : BitVec 32 → BitVec 32) :
    Doing self (closing (DropsLast self target k)) k (replaceFd self d target flags k) := by
  have hset : ∀ k' : System σ, Doing self (closing (DropsLast self target k)) k'
      (k'.setFd (k'.tasks.fdOwner self) target { d with flags := flags d.flags }) :=
    fun k' => (setFd_minding ..).mono closing_of_calmly
  unfold replaceFd
  dsimp only
  split
  case isTrue h => exact (dropFd_closing h.1).trans (hset _)
  case isFalse => exact hset k

def Replaces (self : Nat) (f : SyscallFrame) (k : System σ) : Prop :=
  (k.fd? self f.rdi).isSome ∧ f.rsi.toNat < maxRuntimeFds ∧ f.rdi ≠ f.rsi

theorem doDup2_closing :
    Doing self (closing fun s => Replaces self f k ∧ DropsLast self f.rsi.toNat k s) k
    (doDup2 self f k).2 := by
  unfold doDup2
  split
  · exact .refl k
  case h_2 d hd =>
    split
    · exact .refl k
    case isFalse hlt =>
      split
      · exact .refl k
      case isFalse hne =>
        have hr : Replaces self f k := ⟨by rw [hd]; rfl, by omega, hne⟩
        exact Doing.mono (replaceFd_closing d f.rsi.toNat _) (closing_mono fun si hs => ⟨hr, hs⟩)

theorem doDup3_closing :
    Doing self (closing fun s => Replaces self f k ∧ DropsLast self f.rsi.toNat k s) k
    (doDup3 self f k).2 := by
  unfold doDup3
  split
  · exact .refl k
  case h_2 d hd =>
    split
    · exact .refl k
    case isFalse hlt =>
      split
      · exact .refl k
      case isFalse hne =>
        have hr : Replaces self f k := ⟨by rw [hd]; rfl, by omega, hne⟩
        generalize (fun fl : BitVec 32 => (fl &&& ~~~fdCloexec) ||| if f.rdx &&& oCloexec ≠ 0 then
          fdCloexec else 0) = g
        exact Doing.mono (replaceFd_closing d f.rsi.toNat g) (closing_mono fun si hs => ⟨hr, hs⟩)

def LeavesLast (self : Nat) (k : System σ) (si : Int) : Prop :=
  (∃ fd < maxRuntimeFds, (k.tasks.procs self).refs fd si = true) ∧ si ∉ namesBut k.tasks fun i _ =>
    i = self

theorem releaseFd_last (fd : Nat) (h : LeavesLast self (releaseFd self k fd) si) :
    LeavesLast self k si := by
  have hlive := (releaseFd_rel Calm.closeRule self k fd).live
  have hrefs : ∀ i n, ((releaseFd self k fd).tasks.procs i).refs n =
      if i = self ∧ n = fd ∧ ((k.tasks.procs self).fds fd).used = true ∧
        ((k.tasks.procs self).fds fd).kind = .unixSocket then ({} : RuntimeFd).refers
      else (k.tasks.procs i).refs n := by
    intro i n
    unfold releaseFd
    dsimp only
    split
    case isTrue hd =>
      rw [socketReleaseFd_refs, setFd_tasks, setFd_refs]
      simp only [hd, and_true]
    case isFalse hd => rw [if_neg fun h0 => hd h0.2.2]
  obtain ⟨⟨n, hn, hr⟩, hout⟩ := h
  refine ⟨⟨n, hn, ?_⟩, ?_⟩
  · rw [hrefs] at hr
    split at hr
    · cases hr
    · exact hr
  · rintro ⟨i, m, hi, hm, hne, h0⟩
    refine hout ⟨i, m, (hlive i).mpr hi, hm, hne, ?_⟩
    rw [hrefs, if_neg fun h1 => hne h1.1]
    exact h0

theorem releaseFd_closing (hfd : fd < maxRuntimeFds) :
    Doing self (closing (LeavesLast self k)) k (releaseFd self k fd) := by
  unfold releaseFd
  dsimp only
  split
  case isTrue hd =>
    refine ((setFd_minding k ..).mono closing_of_calmly).trans
      ((socketReleaseFd_closing _ _).mono fun a ha => ha.imp_right ?_)
    rintro ⟨si, ⟨rfl, hrefs⟩, rfl⟩
    refine ⟨_, ⟨⟨fd, hfd, by simp [refs, RuntimeFd.refers, hd.1, hd.2]⟩, ?_⟩, rfl⟩
    rintro ⟨i, n, hi, hn, hskip, hr⟩
    have h0 := otherRefs_eq_zero_iff.mp hrefs i n ((setFd_live _).mpr hi) hn (fun h => by cases h)
    rw [setFd_tasks, setFd_refs, if_neg fun h => hskip h.1, hr] at h0
    cases h0
  case isFalse => exact .refl k

theorem releaseProcessFds_closing :
    Doing self (closing (LeavesLast self k)) k (releaseProcessFds self k) := by
  have hall : ∀ (l : List Nat) (k : System σ), (∀ fd ∈ l, fd < maxRuntimeFds) →
      Doing self (closing (LeavesLast self k)) k (l.foldl (releaseFd self) k) := by
    intro l
    induction l with
    | nil => exact fun k _ => .refl k
    | cons fd l ih =>
      intro k hlt
      have hrest := ih (releaseFd self k fd) fun n hn => hlt n (List.mem_cons_of_mem fd hn)
      exact (releaseFd_closing (hlt fd List.mem_cons_self)).trans
        (hrest.mono (closing_mono fun si hs => releaseFd_last fd hs))
  exact hall _ k fun fd hfd => List.mem_range.mp hfd

theorem get_congr {t t' : Tasks} (hp : ∀ i, (t'.procs i).pid = (t.procs i).pid)
    (he : ∀ i, (t'.procs i).state = .empty ↔ (t.procs i).state = .empty) : t'.get = t.get := by
  funext pid
  unfold Tasks.get
  congr 2
  funext i
  rw [hp]
  congr 1
  exact decide_eq_decide.mpr (not_congr (he i))

theorem Calm.get (h : Calm t t') : t'.get = t.get :=
  get_congr (fun i => congrArg Core.pid (h.core i)) (h.state_iff nofun nofun)

def freesVfork (self : Nat) (t : Tasks) (i : Nat) : Prop :=
  (t.procs self).vforkChild = true ∧ t.get (t.procs self).vforkParentPid = some i

instance (self : Nat) (t : Tasks) (i : Nat) : Decidable (freesVfork self t i) :=
    inferInstanceAs (Decidable (_ ∧ _))

def releasing (self : Nat) (t : Tasks) (a : Act) : Prop := a = .mind ∨ ∃ i, freesVfork self t i ∧
    a = .wake i

theorem releaseVforkParent_awake (h : freesVfork self t i) :
    ((releaseVforkParent self t).procs i).state ≠ .blocked := by
  unfold releaseVforkParent Tasks.wakePid
  rw [if_pos h.1, h.2]
  dsimp only
  have hawake : ((t.modify i awake).procs i).state ≠ .blocked := by
    rw [Tasks.modify_same]
    unfold awake
    split
    · nofun
    · assumption
  rw [Tasks.modify_procs]
  split
  case isTrue hi =>
    subst hi
    exact hawake
  case isFalse => exact hawake

theorem releaseVforkParent_releasing :
    Doing self (releasing self k.tasks) k { k with tasks := releaseVforkParent self k.tasks } := by
  unfold releaseVforkParent
  split
  case isTrue hv =>
    have hend : ∀ t : Tasks, Doing self (releasing self k.tasks) { k with tasks := t }
        { k with tasks := t.modify self Process.endVfork } :=
      fun t => doing (.mind rfl (.modify_self _ _)) (.inl rfl)
    refine Doing.trans ?_ (hend _)
    unfold Tasks.wakePid
    split
    case h_1 i hi =>
      by_cases hb : (k.tasks.procs i).state = .blocked
      · exact doing (.wake i hb rfl rfl) (.inr ⟨i, ⟨hv, hi⟩, rfl⟩)
      refine doing (.mind rfl (.modify fun _ => ?_)) (.inl rfl)
      unfold awake
      rw [if_neg hb]
      exact .refl _
    case h_2 => exact .refl k
  case isFalse => exact .refl k

theorem doExecve_releasing :
    Doing self (fun a => releasing self k.tasks a ∧ (a = .mind ∨ (env.execImage k f).1.isSome)) k
      (doExecve env self f k).2 := by
  unfold doExecve
  split
  · exact doing (.mind rfl (.refl _ _)) ⟨.inl rfl, .inl rfl⟩
  case h_2 image m himage =>
    dsimp only
    generalize ht : (k.tasks.modify (k.tasks.fdOwner self) Process.closeOnExec).modify self
      (exec image) = t
    have hload : Minds self k.tasks t :=
      ht ▸ Minds.trans (.modify fun _ => .of_parts rfl rfl rfl rfl) (.modify_self _ _)
    have hsame : ∀ i, (t.procs i).pid = (k.tasks.procs i).pid ∧
      (t.procs i).state = (k.tasks.procs i).state ∧
        (t.procs i).waiting = (k.tasks.procs i).waiting := by
      subst ht
      intro i
      rw [Tasks.modify_procs]
      split
      case isTrue hi =>
        subst hi
        rw [Tasks.modify_procs]
        split
        case isTrue ho => rw [← ho]; exact ⟨rfl, rfl, rfl⟩
        case isFalse => exact ⟨rfl, rfl, rfl⟩
      case isFalse =>
        rw [Tasks.modify_procs]
        split
        case isTrue ho => rw [← ho]; exact ⟨rfl, rfl, rfl⟩
        case isFalse => exact ⟨rfl, rfl, rfl⟩
    have hget : t.get = k.tasks.get := get_congr (fun i => (hsame i).1) fun i => by rw [(hsame i).2.1]
    have hrel : releasing self t = releasing self k.tasks := by
      unfold releasing freesVfork
      rw [hget, show (t.procs self).vforkChild = _ from congrArg Waiting.vforkChild (hsame self).2.2,
        show (t.procs self).vforkParentPid = _ from congrArg Waiting.vforkParentPid (hsame self).2.2]
      rfl
    have hsome : (env.execImage k f).1.isSome := by rw [himage]; rfl
    have h1 : Doing self (releasing self k.tasks) k { k with tasks := t, mem := m } :=
      doing (.mind rfl hload) (.inl rfl)
    have h2 := h1.trans (hrel ▸ releaseVforkParent_releasing (k := { k with tasks := t, mem := m }))
    refine Doing.mono (h2.trans (doing (.mind rfl ?_) (.inl rfl))) fun a ha => ⟨ha, .inr hsome⟩
    exact (Minds.refl self (releaseVforkParent self t)).same ⟨rfl, rfl⟩ ⟨rfl, rfl⟩

def futexWaking (addr : Word) (k : System σ) (a : Act) : Prop :=
  a = .mind ∨ ∃ i, (∃ j < futexCount, (k.futexes j).used = true ∧ (k.futexes j).addr = addr ∧
    k.tasks.get (k.futexes j).pid = some i) ∧ a = .futex addr i

theorem wakeFutexFrom_waking (addr : Word) (count : Nat) (woken : Nat) (hj : j + fuel ≤ futexCount)
    (k : System σ) : Doing self (futexWaking addr k) k (wakeFutexFrom addr count fuel j woken k) := by
  induction fuel generalizing j woken k with
  | zero => exact .refl k
  | succ fuel ih =>
    have hj1 : j + 1 + fuel ≤ futexCount := by omega
    unfold wakeFutexFrom
    dsimp only
    split
    · exact ih _ hj1 _
    case isFalse hw =>
      have hw : (k.futexes j).used = true ∧ (k.futexes j).addr = addr := by simpa using hw
      -- an entry of the table after this turn was there before
      have hback : ∀ k' : System σ, k'.futexes = update k.futexes j { k.futexes j with used := false } →
          k'.tasks.get = k.tasks.get → ∀ a, futexWaking addr k' a → futexWaking addr k a := by
        intro k' hf hg a ha
        refine ha.imp_right ?_
        rintro ⟨i, ⟨n, hlt, hu, hn, hi⟩, rfl⟩
        have hne : n ≠ j := by
          rintro rfl
          rw [hf, update_self] at hu
          cases hu
        rw [hf, update_of_ne hne] at hu hn hi
        exact ⟨i, ⟨n, hlt, hu, hn, hg ▸ hi⟩, rfl⟩
      have hset : Doing self (futexWaking addr k) k (k.setWaiter j { k.futexes j with used := false }) :=
        doing (.mind rfl (.refl _ _)) (.inl rfl)
      split
      · exact hset.trans ((ih _ hj1 _).mono (hback _ rfl rfl))
      case h_2 i hi =>
        split
        case isTrue hb =>
          have hwake : Doing self (futexWaking addr k) (k.setWaiter j { k.futexes j with used := false })
              ((k.setWaiter j { k.futexes j with used := false }).modify i awake) :=
            doing (.futex addr i hb rfl rfl) (.inr ⟨i, ⟨j, by omega, hw.1, hw.2, hi⟩, rfl⟩)
          split
          · exact hset.trans hwake
          · exact (hset.trans hwake).trans ((ih _ hj1 _).mono (hback _ rfl (awake_calm k.tasks i).get))
        case isFalse => exact hset.trans ((ih _ hj1 _).mono (hback _ rfl rfl))

theorem doFutex_waking (hc : k.tasks.current = some self) :
    Doing self (fun a => futexWaking f.rdi k a ∧ (a = .mind ∨ f.rsi.setWidth 32 &&& 0x7f = futexWake)) k
      (doFutex env self f k).2 := by
  have hset : ∀ (k : System σ) j w, Doing self calmly k (k.setWaiter j w) :=
    fun k _ w => minding rfl (.refl _ _)
  fun_cases doFutex env self f k
  case case2 hop => exact (wakeFutexFrom_waking _ _ _ (by decide) _).mono fun a ha => ⟨ha, .inr hop⟩
  all_goals first
    | exact .refl k
    | refine Doing.mono ((hset k _ _).trans (minding_switch ?_ fun k' _ _ => hset k' _ _)) fun a ha => ⟨.inl ha, .inl ha⟩
      exact block_rel (t := (k.setWaiter _ _).tasks) (Minds.running hc) _

structure Plans where
  deadline : Word
  clearTid : Word

def Process.plans (p : Process) : Plans := { deadline := p.wakeDeadlineMs, clearTid := p.clearTid }

structure Onward (k k' : System σ) : Prop where
  calm : Calm k.tasks k'.tasks
  plans : ∀ i, (k'.tasks.procs i).plans = (k.tasks.procs i).plans
  futexes : k'.futexes = k.futexes

theorem Onward.trans (h : Onward k k') (h' : Onward k' k'') : Onward k k'' :=
  ⟨h.calm.trans h'.calm, fun i => (h'.plans i).trans (h.plans i), h'.futexes.trans h.futexes⟩

theorem plans_modify (t : Tasks) (i : Nat) (hg : (g (t.procs i)).plans = (t.procs i).plans)
    (j : Nat) : ((t.modify i g).procs j).plans = (t.procs j).plans := by
  rw [Tasks.modify_procs]
  split
  case isTrue h => rw [hg, h]
  case isFalse => rfl

theorem wakeSocket_plans (mark : BitVec 32) (t : Tasks) (j : Nat) :
    ((wakeSocket mark t).procs j).plans = (t.procs j).plans := by
  unfold wakeSocket
  dsimp only
  split
  · unfold Process.awakeFor
    split <;> rfl
  · rfl

theorem Onward.closeRule : CloseRule (@Onward σ) where
  refl _ := ⟨.refl _, fun _ => rfl, rfl⟩
  trans h h' := h.trans h'
  mem _ _ := ⟨.refl _, fun _ => rfl, rfl⟩
  setFd k i fd d := ⟨Calm.closeRule.setFd k i fd d,
    plans_modify k.tasks i (g := fun p => { p with fds := update p.fds fd d }) rfl, rfl⟩
  socks _ := ⟨.refl _, fun _ => rfl, rfl⟩
  wake k mark := ⟨Calm.closeRule.wake k mark, wakeSocket_plans mark k.tasks, rfl⟩

theorem awake_part {α : Type} {g : Process → α}
    (hg : ∀ p : Process, g { p with state := .ready } = g p)
    (p : Process) : g p.awake = g p := by
  unfold awake
  split
  · exact hg p
  · rfl

theorem releaseVforkParent_part {α : Type} {g : Process → α}
    (hg : ∀ p : Process, g { p with state := .ready } = g p) (hend : ∀ p : Process, g p.endVfork = g p)
    (self : Nat) (t : Tasks) (j : Nat) : g ((releaseVforkParent self t).procs j) = g (t.procs j) := by
  have hmod : ∀ (t : Tasks) (i : Nat) (h : Process → Process), (∀ p, g (h p) = g p) →
      g ((t.modify i h).procs j) = g (t.procs j) := by
    intro t i h hh
    rw [Tasks.modify_procs]
    split
    case isTrue hi => rw [hh, hi]
    case isFalse => rfl
  unfold releaseVforkParent
  split
  · refine (hmod _ _ _ hend).trans ?_
    unfold Tasks.wakePid
    split
    · exact hmod _ _ _ (awake_part hg)
    · rfl
  · rfl

theorem wakeFutexFrom_plans (addr : Word) (count fuel j woken : Nat) (k : System σ) (i : Nat) :
    ((wakeFutexFrom addr count fuel j woken k).tasks.procs i).plans = (k.tasks.procs i).plans := by
  have hawake : ∀ (t : Tasks) n, ((t.modify n awake).procs i).plans = (t.procs i).plans :=
    fun t n => plans_modify _ _ (awake_part (fun _ => rfl) _) i
  fun_induction wakeFutexFrom addr count fuel j woken k with
  | case1 => rfl
  | case2 _ _ _ _ _ _ ih | case3 _ _ _ _ _ _ _ _ ih | case6 _ _ _ _ _ _ _ _ _ _ ih => exact ih
  | case4 => exact hawake ..
  | case5 _ _ _ _ _ _ _ _ _ _ _ _ ih => exact ih.trans (hawake ..)

def handing (self : Nat) (t : Tasks) (a : Act) : Prop :=
  a = .mind ∨ ∃ i, ((t.get (t.procs self).parentPid = some i ∧
    ((t.procs i).waitTargetPid = 0 ∨ (t.procs i).waitTargetPid = (t.procs self).pid)) ∧
      ¬ freesVfork self t i) ∧ a = .hand i

def notifying (self : Nat) (t : Tasks) (a : Act) : Prop :=
  a = .mind ∨ ∃ i, (t.get (t.procs self).parentPid = some i ∧
    waitsFor (t.procs i) (t.procs self).pid) ∧ a = .hand i

theorem notifyParent_notifying : Doing self (notifying self k.tasks) k (notifyParent env self k) := by
  unfold notifyParent
  dsimp only
  split
  · exact .refl k
  case h_2 i hi =>
    split
    case isTrue hw => exact doing (.hand i _ hw.1 rfl rfl) (.inr ⟨i, ⟨hi, hw⟩, rfl⟩)
    case isFalse => exact .refl k

theorem clearTidWord_waking :
    Doing self (futexWaking (k.tasks.procs self).clearTid k) k (clearTidWord env self k) := by
  unfold clearTidWord
  dsimp only
  split
  · have hstore : Doing self (futexWaking (k.tasks.procs self).clearTid k) k
        (k.store env (k.tasks.procs self).clearTid (bytesOf 4 0)) :=
          doing (.mind rfl (.refl _ _)) (.inl rfl)
    exact hstore.trans (wakeFutexFrom_waking _ 1 0 (by decide) (k.store env _ _))
  · exact .refl k

def hurrying (self : Nat) (t : Tasks) (a : Act) : Prop :=
  a = .mind ∨ ∃ i, ((t.procs i).wakeDeadlineMs ≠ 0 ∧
    ∀ j < slotCount, j ≠ self → (t.procs j).state ≠ .ready) ∧ a = .early i

theorem pickNext_eq_none (h : pickNext skip t = none)
    (hj : j < slotCount) (hne : some j ≠ skip) : (t.procs j).state ≠ .ready := by
  intro hr
  have hasks : candidate skip t j = true := by simp [candidate, hne, hr]
  have hsome : (pickNext skip t).isSome := Rotation.pick_isSome hj hasks
  rw [h] at hsome
  cases hsome

theorem nextAfterExit_hurrying (hc : k.tasks.current = some self) :
    Doing self (hurrying self k.tasks) k
        { k with tasks := (nextAfterExit k.tasks.current (endCurrent k.tasks)).2 } ∧
      ∀ j, (nextAfterExit k.tasks.current (endCurrent k.tasks)).1 = some j →
        ((nextAfterExit k.tasks.current (endCurrent k.tasks)).2.procs j).state ≠ .blocked := by
  have hother : ∀ j, j ≠ self → (endCurrent k.tasks).procs j = k.tasks.procs j := by
    intro j hj
    unfold endCurrent
    rw [hc]
    exact Tasks.modify_other _ _ hj
  have hend : Doing self (hurrying self k.tasks) k { k with tasks := endCurrent k.tasks } := by
    refine doing (.mind rfl ⟨fun j hj => ?_, fun j hj => .inl ?_⟩) (.inl rfl)
    · rw [hother j hj]
      exact .refl _
    unfold endCurrent at hj
    rw [hc] at hj
    exact hj
  generalize endCurrent k.tasks = u at hother hend ⊢
  unfold nextAfterExit
  split
  case h_1 next hn =>
    have hcursor : Doing self (hurrying self k.tasks) { k with tasks := u }
        { k with tasks := { u with rrCursor := next } } :=
      doing (.mind rfl ((Minds.refl self u).same ⟨rfl, rfl⟩ ⟨rfl, rfl⟩)) (.inl rfl)
    refine ⟨hend.trans hcursor, fun j hj h0 => ?_⟩
    cases hj
    exact absurd ((pickNext_spec hn).2.symm.trans h0) nofun
  case h_2 hn =>
    split
    case h_1 i hi =>
      obtain ⟨hne, hb, hd⟩ := earliestSleeper_spec hi
      have hself : i ≠ self := fun h0 => hne (by rw [hc, h0])
      refine ⟨hend.trans
        (doing (.early i hb rfl rfl) (.inr ⟨i, ⟨hother i hself ▸ hd, fun j hj hjs => ?_⟩, rfl⟩)),
        fun j hj => ?_⟩
      · have h0 := pickNext_eq_none hn hj (by rw [hc]; exact fun h0 => hjs (Option.some.inj h0))
        rwa [hother j hjs] at h0
      cases hj
      rw [Tasks.modify_same]
      nofun
    case h_2 => exact ⟨hend, nofun⟩

theorem onExit_hurrying (hc : k.tasks.current = some self) (f : SyscallFrame) :
    Doing self (hurrying self k.tasks) k { k with tasks := (onExit f k.tasks).2.2 } := by
  obtain ⟨h, hawake⟩ := nextAfterExit_hurrying hc
  have hmind : ∀ {t t' : Tasks}, Minds self t t' →
    Doing self (hurrying self k.tasks) { k with tasks := t }
      { k with tasks := t' } := fun h => doing (.mind rfl h) (.inl rfl)
  unfold onExit
  dsimp only
  generalize nextAfterExit k.tasks.current (endCurrent k.tasks) = r at h hawake ⊢
  split
  · exact h.trans (hmind ⟨fun _ _ => .refl _, nofun⟩)
  case h_2 next hn =>
    have hne := hawake next hn
    split
    · have hend : Minds self r.2 (r.2.modify next terminate) :=
        .modify fun _ => .of_awake hne nofun fun _ => ⟨nofun, rfl⟩
      exact h.trans (hmind ⟨hend.others, nofun⟩)
    · exact h.trans (hmind (Minds.enter fun _ => hne))

def departing (self : Nat) (k : System σ) (a : Act) : Prop :=
  closing (LeavesLast self k) a ∨ releasing self k.tasks a ∨ handing self k.tasks a

def exiting (self : Nat) (k : System σ) (a : Act) : Prop :=
  departing self k a ∨ futexWaking (k.tasks.procs self).clearTid k a ∨ hurrying self k.tasks a

def depart (self : Nat) (f : SyscallFrame) (k : System σ) : System σ :=
  let k := releaseProcessFds self k
  let k := { k with tasks := releaseVforkParent self k.tasks }
  notifyParent env self (k.modify self (exitWith f.rdi))

theorem Onward.handing (h : Onward k k')
    (htarget : ∀ i, (k'.tasks.procs i).waitTargetPid = (k.tasks.procs i).waitTargetPid)
    (hfreed : ∀ i, freesVfork self k.tasks i → (k'.tasks.procs i).state ≠ .blocked)
    (ha : notifying self k'.tasks a) : handing self k.tasks a := by
  refine ha.imp_right ?_
  rintro ⟨i, ⟨hi, hw⟩, rfl⟩
  have hpid : (k'.tasks.procs self).pid = (k.tasks.procs self).pid :=
    congrArg Core.pid (h.calm.core self)
  have hpar : (k'.tasks.procs self).parentPid = (k.tasks.procs self).parentPid :=
    congrArg Core.parentPid (h.calm.core self)
  rw [h.calm.get, hpar] at hi
  have htold := hw.2
  rw [htarget, hpid] at htold
  exact ⟨i, ⟨⟨hi, htold⟩, fun h0 => hfreed i h0 hw.1⟩, rfl⟩

theorem Onward.futexWaking (h : Onward k k')
    (ha : futexWaking (k'.tasks.procs self).clearTid k' a) :
    futexWaking (k.tasks.procs self).clearTid k a := by
  have hclear : (k'.tasks.procs self).clearTid = (k.tasks.procs self).clearTid :=
    congrArg Plans.clearTid (h.plans self)
  unfold Kernel.futexWaking at ha ⊢
  rwa [h.futexes, h.calm.get, hclear] at ha

theorem hurrying_of_calm (hcalm : Calm t t') (hplans : ∀ i, (t'.procs i).plans = (t.procs i).plans)
    (ha : hurrying self (t'.modify self terminate) a) : hurrying self t a := by
  refine ha.imp_right ?_
  rintro ⟨i, ⟨hd, hready⟩, rfl⟩
  refine ⟨i, ⟨?_, fun j hj hne => ?_⟩, rfl⟩
  · have h1 := plans_modify t' self (g := terminate) rfl i
    rwa [show (t.procs i).wakeDeadlineMs = _ from congrArg Plans.deadline (h1.trans (hplans i)).symm]
  have h0 := hready j hj hne
  rw [Tasks.modify_other _ _ hne] at h0
  rcases hcalm.state j with h1 | h1
  · rwa [← h1]
  · exact absurd h1.2 h0

theorem freesVfork_of_tamed {marks : BitVec 32 → Prop} (h : Tamed marks t t') :
    freesVfork self t' = freesVfork self t := by
  unfold freesVfork
  rw [h.calm.get, show (t'.procs self).vforkChild = _ from congrArg Waiting.vforkChild
    (h.procs self).waiting,
    show (t'.procs self).vforkParentPid = _ from congrArg Waiting.vforkParentPid (h.procs self).waiting]
  rfl

theorem depart_departing : Doing self (departing self k) k (depart env self f k) ∧
    Onward k (depart env self f k) := by
  have hclose : Doing self (departing self k) k (releaseProcessFds self k) :=
    releaseProcessFds_closing.mono fun a ha => .inl ha
  have htamed := releaseProcessFds_rel Tamed.closeRule self k
  have hon1 := releaseProcessFds_rel Onward.closeRule self k
  unfold depart
  dsimp only
  generalize releaseProcessFds self k = k1 at hclose htamed hon1 ⊢
  -- the parent of a `vfork`
  have hfrees := @freesVfork_of_tamed self _ _ _ htamed
  have hvfork : Doing self (departing self k) k1 { k1 with tasks := releaseVforkParent self k1.tasks } :=
    releaseVforkParent_releasing.mono fun a ha => .inr (.inl (by rwa [releasing, hfrees] at ha))
  have hon2 : Onward k1 { k1 with tasks := releaseVforkParent self k1.tasks } :=
    ⟨releaseVforkParent_calm self k1.tasks, releaseVforkParent_part (fun _ => rfl) (fun _ => rfl)
      self k1.tasks, rfl⟩
  have htarget2 : ∀ j,
    (({ k1 with tasks := releaseVforkParent self k1.tasks } : System σ).tasks.procs j).waitTargetPid
      =
      (k1.tasks.procs j).waitTargetPid :=
    releaseVforkParent_part (g := Process.waitTargetPid) (fun _ => rfl) (fun _ => rfl) self k1.tasks
  have hfreed2 : ∀ i, freesVfork self k.tasks i →
      (({ k1 with tasks := releaseVforkParent self k1.tasks } : System σ).tasks.procs i).state ≠
        .blocked :=
    fun i h0 => releaseVforkParent_awake (by rwa [hfrees])
  generalize ({ k1 with tasks := releaseVforkParent self k1.tasks } : System σ) =
    k2 at hvfork hon2 htarget2 hfreed2 ⊢
  -- the parent that waits
  have hcode : Doing self (departing self k) k2 (k2.modify self (exitWith f.rdi)) :=
    doing (.mind rfl (.modify_self _ _)) (.inl (.inl rfl))
  have hon3 : Onward k2 (k2.modify self (exitWith f.rdi)) :=
    ⟨.modify _ _ rfl (.inl rfl), plans_modify _ _ (g := exitWith f.rdi) rfl, rfl⟩
  have htarget3 : ∀ j, ((k2.modify self (exitWith f.rdi)).tasks.procs j).waitTargetPid =
      (k.tasks.procs j).waitTargetPid := by
    intro j
    have h0 : (k2.tasks.procs j).waitTargetPid = (k.tasks.procs j).waitTargetPid :=
      (htarget2 j).trans (congrArg Waiting.targetPid (htamed.procs j).waiting)
    rw [System.modify_tasks, Tasks.modify_procs]
    split
    case isTrue hj => exact hj ▸ h0
    case isFalse => exact h0
  have hfreed3 : ∀ i, freesVfork self k.tasks i →
      ((k2.modify self (exitWith f.rdi)).tasks.procs i).state ≠ .blocked := by
    intro i h0
    rw [System.modify_tasks, Tasks.modify_procs]
    split
    case isTrue hi => exact hi ▸ hfreed2 i h0
    case isFalse => exact hfreed2 i h0
  have hon := (hon1.trans hon2).trans hon3
  have hstart := (hclose.trans hvfork).trans hcode
  generalize k2.modify self (exitWith f.rdi) = k3 at hon3 htarget3 hfreed3 hon hstart ⊢
  have hhand : Doing self (departing self k) k3 (notifyParent env self k3) :=
    (notifyParent_notifying env).mono fun a ha => .inr (.inr (hon.handing htarget3 hfreed3 ha))
  have hon4 : Onward k3 (notifyParent env self k3) := by
    refine ⟨notifyParent_calm env self k3, fun j => ?_, ?_⟩
    · fun_cases notifyParent env self k3
      all_goals first | rfl | exact plans_modify _ _ (g := handOver _) rfl j
    · fun_cases notifyParent env self k3 <;> rfl
  exact ⟨hstart.trans hhand, hon.trans hon4⟩

theorem clearTidWord_plans (k : System σ) (i : Nat) :
    ((clearTidWord env self k).tasks.procs i).plans = (k.tasks.procs i).plans := by
  unfold clearTidWord
  dsimp only
  split
  · exact wakeFutexFrom_plans _ _ _ _ _ (k.store env _ _) i
  · rfl

theorem doExit_exiting (hc : k.tasks.current = some self) :
    Doing self (exiting self k) k (doExit env self f k).2 := by
  obtain ⟨hdep, hon⟩ := @depart_departing _ self k env f
  have hdep : Doing self (exiting self k) k (depart env self f k) := hdep.mono fun a ha => .inl ha
  have hleave : leave env self f k = (clearTidWord env self (depart env self f k)).modify self
    terminate := rfl
  unfold doExit
  rw [hleave]
  generalize depart env self f k = k4 at hdep hon ⊢
  -- the word that is cleared
  have hclear : Doing self (exiting self k) k4 (clearTidWord env self k4) :=
    (clearTidWord_waking env).mono fun a ha => .inr (.inl (hon.futexWaking ha))
  have hcalm := hon.calm.trans (clearTidWord_calm env self k4)
  have hplans : ∀ i, ((clearTidWord env self k4).tasks.procs i).plans = (k.tasks.procs i).plans :=
    fun i => (clearTidWord_plans env k4 i).trans (hon.plans i)
  have hmost := hdep.trans hclear
  generalize clearTidWord env self k4 = k5 at hclear hcalm hplans hmost ⊢
  -- the scheduler
  have hdead : Doing self (exiting self k) k5 (k5.modify self terminate) :=
    doing (.mind rfl (.modify_self _ _)) (.inl (.inl (.inl rfl)))
  have hnext : Doing self (exiting self k) (k5.modify self terminate)
      { k5.modify self terminate with tasks := (onExit f (k5.modify self terminate).tasks).2.2 } :=
    (onExit_hurrying (k := k5.modify self terminate) (hcalm.current.trans hc) f).mono
      fun a ha => .inr (.inr (hurrying_of_calm hcalm hplans ha))
  have hall := (hmost.trans hdead).trans hnext
  unfold System.switching
  dsimp only
  split <;> exact hall

def acts (self : Nat) (f : SyscallFrame) (k : System σ) : Act → Prop :=
  match decode f.rax with
  | .read | .recvfrom | .recvmsg => reading
  | .write | .sendto | .sendmsg => writing
  | .close => closing fun s => (k.fd? self f.rdi).isSome ∧ DropsLast self f.rdi.toNat k s
  | .dup2 | .dup3 => closing fun s => Replaces self f k ∧ DropsLast self f.rsi.toNat k s
  | .socket | .bind | .listen | .accept | .accept4 | .pipe2 | .socketpair => growing
  | .connect => connecting env self f k
  | .futex => fun a => futexWaking f.rdi k a ∧ (a = .mind ∨ f.rsi.setWidth 32 &&& 0x7f = futexWake)
  | .execve => fun a => releasing self k.tasks a ∧ (a = .mind ∨ (env.execImage k f).1.isSome)
  | .exit | .exitGroup => exiting self k
  | .wait4 => reaping k.tasks
  | _ => calmly

theorem handle_does (hc : k.tasks.current = some self) :
    Doing self (acts env self f k) k (handle env self f k).2 := by
  unfold handle acts
  cases hd : decode f.rax with
  | read => exact doRead_reading env hc
  | write => exact doWrite_writing env hc
  | close => exact doClose_closing
  | setuid => exact doSetuid_rel (.refl k) withIds_minding
  | setgid => exact doSetgid_rel (.refl k) withIds_minding
  | seteuid => exact doSeteuid_rel (.refl k) withIds_minding
  | setegid => exact doSetegid_rel (.refl k) withIds_minding
  | socket => exact doSocket_growing
  | bind => exact doBind_growing env
  | listen => exact doListen_growing
  | accept | accept4 => exact doAccept_growing
  | connect => exact doConnect_connecting env
  | sendto => exact doSendto_writing env
  | recvfrom => exact doRecvfrom_reading env
  | futex => exact doFutex_waking env hc
  | clone => exact doClone_minding env
  | wait4 => exact doWait4_reaping env hc
  | exit | exitGroup => exact doExit_exiting env hc
  | schedYield => exact doSchedYield_minding hc
  | nanosleep => exact doNanosleep_minding env hc
  | execve => exact doExecve_releasing env
  | setTidAddress => exact doSetTidAddress_rel env calmRule
  | fcntl => exact doFcntl_rel calmFds
  | dup => exact doDup_rel calmFds
  | dup2 => exact doDup2_closing
  | pipe2 => exact doPipe2_growing env
  | archPrctl => exact doArchPrctl_rel env calmRule
  | socketpair => exact doSocketpair_growing env
  | sendmsg => exact doSendmsg_writing env
  | recvmsg => exact doRecvmsg_reading env
  | setpgid => exact doSetpgid_rel calmRule
  | setsid => exact doSetsid_rel calmRule
  | fork => exact doFork_minding env
  | vfork => exact doVfork_minding env hc
  | dup3 => exact doDup3_closing
  | rest => exact runRest_rel env calmRule ..

def frees (self : Nat) (f : SyscallFrame) (k : System σ) (si : Int) : Prop :=
  match decode f.rax with
  | .close => (k.fd? self f.rdi).isSome ∧ DropsLast self f.rdi.toNat k si
  | .dup2 | .dup3 => Replaces self f k ∧ DropsLast self f.rsi.toNat k si
  | .exit | .exitGroup => LeavesLast self k si
  | _ => False

def exits (f : SyscallFrame) : Prop := decode f.rax = .exit ∨ decode f.rax = .exitGroup

def endsVfork (self : Nat) (f : SyscallFrame) (k : System σ) (i : Nat) : Prop :=
  (exits f ∨ (decode f.rax = .execve ∧ (env.execImage k f).1.isSome)) ∧ freesVfork self k.tasks i

def wakesAddr (self : Nat) (f : SyscallFrame) (k : System σ) (addr : Word) : Prop :=
  (decode f.rax = .futex ∧ f.rsi.setWidth 32 &&& 0x7f = futexWake ∧ addr = f.rdi) ∨
    (exits f ∧ addr = (k.tasks.procs self).clearTid)

def handsOver (self : Nat) (f : SyscallFrame) (k : System σ) (i : Nat) : Prop :=
  exits f ∧ (k.tasks.get (k.tasks.procs self).parentPid = some i ∧
    ((k.tasks.procs i).waitTargetPid = 0 ∨ (k.tasks.procs i).waitTargetPid =
      (k.tasks.procs self).pid)) ∧ ¬ freesVfork self k.tasks i

def hurries (self : Nat) (f : SyscallFrame) (k : System σ) (i : Nat) : Prop :=
  exits f ∧ (k.tasks.procs i).wakeDeadlineMs ≠ 0 ∧ ∀ j < slotCount, j ≠ self →
    (k.tasks.procs j).state ≠ .ready

def Allowed (self : Nat) (f : SyscallFrame) (k : System σ) : Act → Prop
  | .mind | .grow | .drain _ | .touch _ => True
  | .deliver _ n => n ≠ 0
  | .close si => frees self f k si
  | .wake i => endsVfork env self f k i
  | .futex addr i => wakesAddr self f k addr ∧
      ∃ j < futexCount, (k.futexes j).used = true ∧ (k.futexes j).addr = addr ∧
        k.tasks.get (k.futexes j).pid = some i
  | .hand i => handsOver self f k i
  | .early i => hurries self f k i
  | .reap i => decode f.rax = .wait4 ∧ (k.tasks.procs i).state = .terminated
  | .rewire => decode f.rax = .connect ∧ ¬ ConnectsFree env self f k

theorem closing_allowed {freed : Int → Prop} (h : closing freed a)
    (hf : ∀ si, freed si → frees self f k si) :
    Allowed env self f k a := by
  rcases h with rfl | ⟨si, hsi, rfl⟩
  · trivial
  · exact hf si hsi

theorem exiting_allowed (hd : exits f) (h : exiting self k a) : Allowed env self f k a := by
  rcases h with (h | h | h) | h | h
  · refine closing_allowed env h fun si hsi => ?_
    unfold frees
    rcases hd with hd | hd <;> rwa [hd]
  · rcases h with rfl | ⟨i, hi, rfl⟩
    · trivial
    · exact ⟨.inl hd, hi⟩
  · rcases h with rfl | ⟨i, hi, rfl⟩
    · trivial
    · exact ⟨hd, hi⟩
  · rcases h with rfl | ⟨i, hi, rfl⟩
    · trivial
    · exact ⟨.inr ⟨hd, rfl⟩, hi⟩
  rcases h with rfl | ⟨i, hi, rfl⟩
  · trivial
  · exact ⟨hd, hi⟩

theorem growing_allowed (h : growing a) : Allowed env self f k a := by
  rcases h with rfl | rfl <;> trivial

theorem acts_allowed (h : acts env self f k a) : Allowed env self f k a := by
  unfold acts at h
  cases hd : decode f.rax with
  | read | recvfrom | recvmsg =>
    rw [hd] at h
    obtain ⟨si, rfl | rfl | rfl⟩ := h <;> trivial
  | write | sendto | sendmsg =>
    rw [hd] at h
    obtain ⟨pe, rfl | ⟨n, hn, rfl⟩⟩ := h
    · trivial
    · exact hn
  | close | dup2 | dup3 =>
    rw [hd] at h
    refine closing_allowed env h fun si hsi => ?_
    unfold frees
    rwa [hd]
  | socket | bind | listen | accept | accept4 | pipe2 | socketpair =>
    rw [hd] at h
    exact growing_allowed env h
  | connect =>
    rw [hd] at h
    rcases h with h | ⟨rfl, h⟩
    · exact growing_allowed env h
    · exact ⟨hd, h⟩
  | futex =>
    rw [hd] at h
    obtain ⟨rfl | ⟨i, hi, rfl⟩, hop⟩ := h
    · trivial
    · exact ⟨.inl ⟨hd, hop.resolve_left nofun, rfl⟩, hi⟩
  | execve =>
    rw [hd] at h
    obtain ⟨rfl | ⟨i, hi, rfl⟩, himage⟩ := h
    · trivial
    · exact ⟨.inr ⟨hd, himage.resolve_left nofun⟩, hi⟩
  | exit =>
    rw [hd] at h
    exact exiting_allowed env (.inl hd) h
  | exitGroup =>
    rw [hd] at h
    exact exiting_allowed env (.inr hd) h
  | wait4 =>
    rw [hd] at h
    rcases h with rfl | ⟨i, hi, rfl⟩
    · trivial
    · exact ⟨hd, hi⟩
  | _ =>
    rw [hd] at h
    obtain rfl : a = .mind := h
    trivial

end

end BlockOS.Kernel
