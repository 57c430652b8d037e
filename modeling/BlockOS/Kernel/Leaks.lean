import BlockOS.Kernel.Holders

/-! No socket is lost and none dangles: a socket is in use exactly if a descriptor refers to it or
it waits to be accepted. -/

namespace BlockOS.Kernel
open Words Runs Holding List Function
open RuntimeFd (refers)
open Tended (of_use create)
open Process (closeOnExec exec vacate disown)

section

variable {σ : Type} (env : Env σ) {self : Nat} {f : SyscallFrame} {k k' : System σ} {si : Int}

def System.Tended (k : System σ) : Prop := Kernel.Tended (names k.tasks) (keysOf k.socks)

theorem System.Tended.of_same (h : k.Tended) (hn : names k'.tasks = names k.tasks)
    (hk : keysOf k'.socks = keysOf k.socks) : k'.Tended := by
  unfold System.Tended
  rw [hn, hk]
  exact h

def HasTable (t : Tasks) (self : Nat) : Prop := Live t (t.fdOwner self)

theorem socketOf_spec (h : k.socketOf self n = some si) :
    0 ≤ si ∧ ∃ m < maxRuntimeFds, (k.fdtable self m).refers si = true := by
  unfold System.socketOf at h
  split at h
  · cases h
  case h_2 d hd =>
    obtain ⟨hlt, htable, hu⟩ := fd_spec hd
    split at h
    case isTrue hk =>
      cases h
      refine ⟨hk.2, _, hlt, ?_⟩
      rw [htable]
      simp [refers, hu, hk.1]
    case isFalse => cases h

theorem socketOf_named (ho : HasTable k.tasks self) (h : k.socketOf self n = some si) :
    si ∈ names k.tasks := by
  obtain ⟨_, m, hm, hr⟩ := socketOf_spec h
  exact ⟨_, m, ho, hm, hr⟩

theorem doSocket_tended (h : k.Tended) (ho : HasTable k.tasks self) :
    (doSocket self f k).2.Tended := by
  unfold doSocket
  split
  · exact h
  dsimp only
  split
  · exact h
  case isFalse hr =>
    have hpos : 0 ≤ (socketObjAlloc k.socks).1 := by omega
    obtain ⟨hkeys, hnew, hlt⟩ := keysOf_alloc hpos
    split
    case h_1 k1 ha =>
      obtain rfl := allocFd_none ha
      refine of_use (κ := keysOf k.socks) h ?_
      rw [keysOf_free _ hpos hlt, hkeys, update_idem]
      exact .clear hpos hnew
    case h_2 fd k1 ha =>
      obtain ⟨_, hsocks, _, _⟩ := names_taken _ ha
      have hn := names_place ha ho (socketFd (socketObjAlloc k.socks).1 0)
      rw [socketFd_refers hpos hlt] at hn
      unfold System.Tended
      rw [setFd_tasks, hn]
      show Kernel.Tended _ (keysOf k1.socks)
      rw [hsocks, hkeys]
      exact create h hpos hnew

theorem doListen_tended (h : k.Tended) : (doListen self f k).2.Tended := by
  unfold doListen
  split
  · exact h
  case h_2 si hsi =>
    unfold System.Tended
    rw [keysOf_set]
    exact Tended.listen h (socketOf_spec hsi).1

def AcceptsAll (self : Nat) (f : SyscallFrame) (k : System σ) : Prop :=
  HasTable k.tasks self ∧ ∀ li, k.socketOf self f.rdi = some li → waitKeys (keysOf k.socks) li ≠
    [] → (allocFd self 0 k).1.isSome

theorem doAccept_tended (h : k.Tended) (ht : InTable k.socks) (ha : AcceptsAll self f k) :
    (doAccept self f k).2.Tended := by
  unfold doAccept
  split
  · exact h
  case h_2 li hli =>
    split
    · exact h
    case isFalse hlisten =>
      split
      · exact h
      case h_2 si rest hp =>
        have hlisten : (sockAt k.socks li).listener = true := by simpa using hlisten
        have hused : li ∈ usedKeys (keysOf k.socks) := h.sound.named_used (socketOf_named ha.1 hli)
        obtain ⟨htended, hsi⟩ := Tended.dequeue h hused hlisten hp
        have hwait : waitKeys (keysOf k.socks) li ≠ [] := by
          rw [show waitKeys (keysOf k.socks) li = si :: rest from
            (if_pos ⟨hused.1, hused.2, hlisten⟩).trans hp]
          nofun
        dsimp only
        split
        case h_1 k1 halloc =>
          have hsome := ha.2 li hli hwait
          have hnone := congrArg Prod.fst halloc
          rw [allocFd_fst] at hnone
          rw [hnone] at hsome
          cases hsome
        case h_2 fd k1 halloc =>
          obtain ⟨_, hsocks, _, _⟩ := names_taken _ halloc
          obtain ⟨hpos, hlt⟩ := ht.range hsi
          have hn := names_place halloc ha.1 (socketFd si (low16 f.r10))
          rw [socketFd_refers hpos hlt] at hn
          unfold System.Tended
          rw [setFd_tasks, hn]
          show Kernel.Tended _ (keysOf k1.socks)
          rw [hsocks]
          rw [keysOf_set]
          exact htended

theorem keysOf_connect (socks : Nat → UnixSocket) (a b : Int) :
    keysOf (setSock (setSock socks a { sockAt socks a with peer := b, connected := true }) b
      { sockAt (setSock socks a { sockAt socks a with peer := b, connected := true }) b with
        peer := a, connected := true }) = keysOf socks := by
  refine (keysOf_edit _ _ ?_).trans (keysOf_edit _ _ ?_)
  · rfl
  · rfl

def ConnectsAll (self : Nat) (f : SyscallFrame) (k : System σ) : Prop :=
  ∀ si li, connectArgs env self f k = some (si, li) → (connectTo si li k.socks).1 = true ∨
    (socketObjAlloc k.socks).1 < 0

variable {socks : Nat → UnixSocket} {d : RuntimeFd}

theorem listenerAt_spec (h : listenerAt socks key = some li) :
    (li : Int) ∈ usedKeys (keysOf socks) ∧
      (keysOf socks (li : Int).toNat).listener = true := by
  have hs := find?_some h
  simp only [Bool.and_eq_true] at hs
  exact ⟨⟨by omega, hs.1.1⟩, hs.1.2⟩

theorem connectArgs_listener (h : connectArgs env self f k = some r) :
    (r.2 : Int) ∈ usedKeys (keysOf k.socks) ∧ (keysOf k.socks (r.2 : Int).toNat).listener = true := by
  unfold connectArgs at h
  split at h
  · cases h
  split at h
  · cases h
  split at h
  · cases h
  · obtain ⟨li, hli, rfl⟩ := Option.map_eq_some_iff.mp h
    exact listenerAt_spec hli

theorem connectTo_tended (h : Kernel.Tended N (keysOf socks)) (hl : li ∈ usedKeys (keysOf socks))
    (hlisten : (keysOf socks li.toNat).listener = true)
    (hc : (connectTo si li socks).1 = true ∨ (socketObjAlloc socks).1 < 0) :
    Kernel.Tended N (keysOf (connectTo si li socks).2) := by
  unfold connectTo at hc ⊢
  dsimp only at hc ⊢
  split at hc
  case isTrue hbad =>
    have hneg : (socketObjAlloc socks).1 < 0 := hc.resolve_left nofun
    rw [alloc_fail hneg] at hbad ⊢
    rw [if_pos hbad]
    exact h
  case isFalse hok =>
    have hpos : 0 ≤ (socketObjAlloc socks).1 := by omega
    obtain ⟨hkeys, hnew, _⟩ := keysOf_alloc hpos
    rw [if_neg hok]
    have hsame := (keysOf_connect (socketObjAlloc socks).2 si (socketObjAlloc socks).1).trans hkeys
    have hne : li.toNat ≠ (socketObjAlloc socks).1.toNat :=
      toNat_ne hl.1 hpos fun h0 => hnew (h0 ▸ hl)
    have hli := congrFun hsame li.toNat
    rw [update_of_ne hne] at hli
    have hq := Tended.enqueue h hpos hnew hl hlisten
    rw [← hli] at hq
    rw [keysOf_set, hsame]
    exact hq

theorem doConnect_tended (h : k.Tended) (hc : ConnectsAll env self f k) :
    (doConnect env self f k).2.Tended := by
  unfold System.Tended
  rw [doConnect_tasks, doConnect_socks]
  cases ha : connectArgs env self f k with
  | none => exact h
  | some r =>
    obtain ⟨hl, hlisten⟩ := connectArgs_listener env ha
    exact connectTo_tended h hl hlisten (hc r.1 r.2 ha)

theorem allocPair_spec (socks : Nat → UnixSocket) :
    match (allocPair socks).1 with
    | some (a, b) =>
      (0 ≤ a ∧ a < socketCount) ∧ (0 ≤ b ∧ b < socketCount) ∧ a ∉ usedKeys (keysOf socks) ∧
        b ∉ usedKeys (update (keysOf socks) a.toNat { used := true }) ∧
        keysOf (allocPair socks).2 = update (update (keysOf socks) a.toNat { used := true }) b.toNat
          { used := true }
    | none => SameUse (keysOf socks) (keysOf (allocPair socks).2) := by
  unfold allocPair
  have ha := @keysOf_alloc socks
  have hfail := @alloc_fail socks
  by_cases hpa : (socketObjAlloc socks).1 < 0
  · have hfail := hfail hpa
    dsimp only
    rw [hfail, if_pos (.inl hpa)]
    rw [if_neg (by omega), if_neg (by omega), hfail]
    exact .of_eq rfl
  · obtain ⟨hkeys, hnew, hlt⟩ := ha (by omega)
    generalize socketObjAlloc socks = a at *
    have hb := @keysOf_alloc a.2
    have hfail' := @alloc_fail a.2
    dsimp only
    generalize socketObjAlloc a.2 = b at *
    by_cases hpb : b.1 < 0
    · rw [if_pos (.inr hpb)]
      rw [if_neg (by omega : ¬ b.1 ≥ 0), if_pos (by omega), hfail' hpb,
        keysOf_free _ (by omega) hlt, hkeys,
        update_idem]
      exact .clear (by omega) hnew
    · obtain ⟨hkeys', hnew', hlt'⟩ := hb (by omega)
      rw [if_neg (by omega)]
      refine ⟨⟨by omega, hlt⟩, ⟨by omega, hlt'⟩, hnew, ?_, ?_⟩
      · rw [← hkeys]
        exact hnew'
      refine (keysOf_edit _ _ ?_).trans ((keysOf_edit _ _ ?_).trans (hkeys'.trans (by rw [hkeys])))
      · rfl
      · rfl

theorem placePair_tended (flags : BitVec 32) (dst : Word)
    (ho : HasTable k.tasks self) (h : k.Tended) (hp : (allocPair k.socks).1 = some (a, b))
      (hs : keysOf socks = keysOf (allocPair k.socks).2)
    (hn : allocFd self 0 { k with socks := socks } = (some n, k1))
      (hm : allocFd self 0 k1 = (some m, k2)) :
    (placePair env self a b n m flags dst k2).Tended := by
  have hspec := allocPair_spec k.socks
  rw [hp] at hspec
  obtain ⟨⟨ha0, ha⟩, ⟨hb0, hb⟩, hanew, hbnew, hkeys⟩ := hspec
  obtain ⟨_, hsocks, howner, _⟩ := names_taken _ hn
  obtain ⟨_, hsocks', howner', _⟩ := names_taken _ hm
  have hnames := names_pair hn hm ho (socketFd a flags) (socketFd b flags)
  rw [socketFd_refers ha0 ha, socketFd_refers hb0 hb] at hnames
  show Kernel.Tended (names ((k2.tasks.setFd (k2.tasks.fdOwner self) n (socketFd a flags)).setFd
    ((k2.tasks.setFd (k2.tasks.fdOwner self) n (socketFd a flags)).fdOwner self) m (socketFd b flags)))
    (keysOf k2.socks)
  rw [setFd_fdOwner, howner', howner, hnames, hsocks', hsocks, hs, hkeys]
  exact (create h ha0 hanew).create hb0 hbnew

theorem freePair_use (hp : (allocPair k.socks).1 = some (a, b))
    (hs : keysOf socks = keysOf (allocPair k.socks).2) :
    SameUse (keysOf k.socks) (keysOf (socketFree b (socketFree a socks))) := by
  have hspec := allocPair_spec k.socks
  rw [hp] at hspec
  obtain ⟨⟨ha0, ha⟩, ⟨hb0, hb⟩, hanew, hbnew, hkeys⟩ := hspec
  have hab : a ≠ b := by
    rintro rfl
    refine hbnew ?_
    rw [usedKeys_update ha0, if_pos rfl]
    exact Set.mem_insert _ _
  have hbnew' : b ∉ usedKeys (update (keysOf k.socks) a.toNat {}) := by
    intro h0
    refine hbnew ?_
    rw [usedKeys_update ha0] at h0 ⊢
    exact Set.mem_insert_of_mem _ h0.1
  rw [keysOf_free _ hb0 hb, keysOf_free _ ha0 ha, hs, hkeys,
    update_comm (toNat_ne hb0 ha0 hab.symm), update_idem, update_idem]
  exact (SameUse.clear ha0 hanew).trans (.clear hb0 hbnew')

theorem doPipe2_tended (h : k.Tended) (ho : HasTable k.tasks self) :
    (doPipe2 env self f k).2.Tended := by
  unfold doPipe2
  split
  · exact h
  split
  case h_1 socks hp =>
    have hspec := allocPair_spec k.socks
    rw [hp] at hspec
    exact of_use h hspec
  case h_2 a b socks hp =>
    have hp1 : (allocPair k.socks).1 = some (a, b) := by rw [hp]
    have hp2 : keysOf socks = keysOf (allocPair k.socks).2 := by rw [hp]
    cases hn : allocFd self 0 { k with socks := socks } with
    | mk n k1 =>
      obtain ⟨hnames, hsocks, howner, _⟩ := names_taken _ hn
      dsimp only
      cases hm : allocFd self 0 k1 with
      | mk m k2 =>
        obtain ⟨hnames', hsocks', howner', hlive'⟩ := names_taken _ hm
        have hk2 : keysOf k2.socks = keysOf (allocPair k.socks).2 := by rw [hsocks', hsocks]; exact hp2
        cases n with
        | none =>
          unfold System.Tended
          dsimp only
          rw [hnames', hnames]
          exact of_use h (freePair_use hp1 hk2)
        | some n =>
          cases m with
          | none =>
            -- the descriptor that was taken is given back
            obtain rfl := allocFd_none hm
            obtain ⟨_, rfl, _⟩ := allocFd_some hn
            have hback : names ((k.tasks.setFd (k.tasks.fdOwner self) n { used := true }).setFd
                (k.tasks.fdOwner self) n {}) = names k.tasks := by
              refine (names_congr (fun _ => setFd_live _) (setFd_same ?_)).trans hnames
              rw [setFd_refs, if_pos ⟨rfl, rfl⟩]
              rfl
            unfold System.Tended
            show Kernel.Tended (names ((k.tasks.setFd (k.tasks.fdOwner self) n { used := true }).setFd
              (k.tasks.fdOwner self) n {})) (keysOf (socketFree b (socketFree a socks)))
            rw [hback]
            exact of_use h (freePair_use hp1 hp2)
          | some m => exact placePair_tended env _ _ ho h hp1 hp2 hn hm

def PairsAll (self : Nat) (k : System σ) : Prop :=
  HasTable k.tasks self ∧ ((allocPair k.socks).1.isSome →
    (allocFd self 0 k).1.isSome ∧ (allocFd self 0 (allocFd self 0 k).2).1.isSome)

theorem allocFd_snd (start : Nat) (socks : Nat → UnixSocket) :
    (allocFd self start { k with socks := socks }).2 = { (allocFd self start k).2 with socks :=
      socks } := by
  unfold allocFd System.fdtable
  dsimp only
  split <;> rfl

theorem doSocketpair_tended (h : k.Tended) (hall : PairsAll self k) :
    (doSocketpair env self f k).2.Tended := by
  unfold doSocketpair
  split
  · exact h
  split
  case h_1 socks hp =>
    have hspec := allocPair_spec k.socks
    rw [hp] at hspec
    exact of_use h hspec
  case h_2 a b socks hp =>
    have hp1 : (allocPair k.socks).1 = some (a, b) := by rw [hp]
    have hp2 : keysOf (setSock (setSock socks a { sockAt socks a with connected := true }) b
        { sockAt (setSock socks a { sockAt socks a with connected := true }) b with connected :=
          true }) =
        keysOf (allocPair k.socks).2 := by
      rw [hp]
      refine (keysOf_edit _ _ ?_).trans (keysOf_edit _ _ ?_)
      · rfl
      · rfl
    dsimp only
    generalize setSock (setSock socks a { sockAt socks a with connected := true }) b
      { sockAt (setSock socks a { sockAt socks a with connected := true }) b with connected :=
        true } = linked at hp2 ⊢
    obtain ⟨hone, htwo⟩ := hall.2 (by rw [hp1]; rfl)
    rw [← allocFd_fst 0 linked] at hone
    rw [← allocFd_fst 0 linked, ← allocFd_snd] at htwo
    cases hn : allocFd self 0 { k with socks := linked } with
    | mk n k1 =>
      rw [hn] at hone htwo
      cases hm : allocFd self 0 k1 with
      | mk m k2 =>
        rw [hm] at htwo
        obtain ⟨n, rfl⟩ := Option.isSome_iff_exists.mp hone
        obtain ⟨m, rfl⟩ := Option.isSome_iff_exists.mp htwo
        exact placePair_tended env _ _ hall.1 h hp1 hp2 hn hm

theorem dup_tended (h : k.Tended) {start n : Nat} (ha : allocFd self start k = (some n, k'))
    (hm : m < maxRuntimeFds) (hd : d.refers = (k.fdtable self m).refers) :
    (k'.setFd (k'.tasks.fdOwner self) n d).Tended := by
  obtain ⟨_, hsocks, _, _⟩ := names_taken _ ha
  refine System.Tended.of_same h (names_dup ha hm hd) ?_
  exact congrArg keysOf hsocks

theorem doDup_tended (h : k.Tended) : (doDup self f k).2.Tended := by
  unfold doDup
  split
  · exact h
  case h_2 d hd =>
    obtain ⟨hlt, htable, _⟩ := fd_spec hd
    split
    case h_1 k1 ha => rwa [allocFd_none ha]
    case h_2 n k1 ha => exact dup_tended h ha hlt (by rw [htable])

theorem dupFrom_tended (h : k.Tended) (hm : m < maxRuntimeFds)
    (hd : d.refers = (k.fdtable self m).refers) (start : Nat) : (dupFrom self start d k).2.Tended := by
  unfold dupFrom
  split
  case h_1 k1 ha => rwa [allocFd_none ha]
  case h_2 n k1 ha => exact dup_tended h ha hm hd

theorem doFcntl_tended (h : k.Tended) : (doFcntl self f k).2.Tended := by
  unfold doFcntl
  split
  · exact h
  case h_2 d hd =>
    obtain ⟨hlt, htable, _⟩ := fd_spec hd
    have hset : ∀ fl, (k.setFd (k.tasks.fdOwner self) f.rdi.toNat { d with flags := fl }).Tended := by
      intro fl
      refine System.Tended.of_same h (names_congr (fun _ => setFd_live _) (setFd_same ?_)) rfl
      rw [← htable]
      rfl
    split
    · exact dupFrom_tended h hlt (by rw [htable]) _
    split
    · exact h
    split
    · exact hset _
    split
    · exact h
    split
    · exact hset _
    split
    · exact dupFrom_tended h hlt (by rw [htable]; rfl) _
    · exact h

theorem otherRefs_eq_zero_iff : socketOtherRefs t si except = 0 ↔
      ∀ i fd, Live t i → fd < maxRuntimeFds → except ≠ some (i, fd) → (t.procs i).refs fd si =
        false := by
  unfold socketOtherRefs
  rw [sum_eq_zero_iff]
  simp only [mem_map, mem_range, forall_exists_index, and_imp, forall_apply_eq_imp_iff₂]
  constructor
  · intro h i fd hi hfd hne
    have h0 := h i hi.1
    rw [if_neg hi.2, length_eq_zero_iff, filter_eq_nil_iff] at h0
    have h1 := h0 fd (mem_range.mpr hfd)
    show ((t.procs i).fds fd).refers si = false
    simpa [hne] using h1
  · intro h i hi
    split
    · rfl
    case isFalse hne =>
      rw [length_eq_zero_iff, filter_eq_nil_iff]
      intro fd hfd h1
      simp only [Bool.and_eq_true, decide_eq_true_eq] at h1
      have h2 := h i fd ⟨hi, hne⟩ (mem_range.mp hfd) h1.1
      rw [show (t.procs i).refs fd si = true from h1.2] at h2
      cases h2

theorem Calm.live (h : Calm t t') (i : Nat) : Live t' i ↔ Live t i := by
  refine and_congr_right fun _ => ?_
  rcases h.state i with h0 | h0
  · rw [h0]
  · rw [h0.1, h0.2]
    exact iff_of_true nofun nofun

theorem Tamed.live {marks : BitVec 32 → Prop} (h : Tamed marks t t') (i : Nat) : Live t' i ↔
    Live t i := h.calm.live i

theorem modify_live (t : Tasks) (j : Nat) (hg : ∀ p, (g p).state = p.state) (i : Nat) :
    Live (t.modify j g) i ↔ Live t i := by
  unfold Live
  rw [Tasks.modify_procs]
  split
  case isTrue h => rw [hg, h]
  case isFalse => rfl

theorem socketReleaseFd_tended
    (h : Kernel.Tended N (keysOf k.socks)) (ht : InTable k.socks) (hN : N = names k.tasks ∪ {si})
    (hex : socketOtherRefs k.tasks si except = 0 ↔ si ∉ names k.tasks)
    (hq : si ∉ names k.tasks → waitKeys (keysOf k.socks) si = []) :
    (socketReleaseFd si except k).Tended := by
  have hsi : si ∈ N := by
    rw [hN]
    exact .inr rfl
  obtain ⟨hpos, hlt⟩ := ht.range (h.sound.named_used hsi)
  have hwake : ∀ idx, names (wakeSocketReaders idx k.tasks) = names k.tasks := fun idx =>
    names_congr (wakeSocketReaders_tamed idx k.tasks).live (wakeSocketReaders_refs _ _)
  unfold socketReleaseFd
  rw [if_neg (by omega)]
  split
  case isTrue hrefs =>
    have hmem : si ∈ names k.tasks := by
      by_contra h0
      exact hrefs (hex.mpr h0)
    unfold System.Tended
    rwa [← Set.union_eq_self_of_subset_right (Set.singleton_subset_iff.mpr hmem), ← hN]
  case isFalse hrefs =>
    have hnot : si ∉ names k.tasks := hex.mp (by omega)
    have hdiff : names k.tasks = N \ {si} := by
      rw [hN, Set.union_singleton]
      exact (Set.insert_sdiff_self_of_notMem hnot).symm
    have hfree := Tended.release h hsi (hq hnot)
    dsimp only
    split
    · unfold System.Tended
      rw [hwake, hdiff, keysOf_free _ hpos hlt, keysOf_edit _ _ (by rfl)]
      exact hfree
    · unfold System.Tended
      rw [hdiff, keysOf_free _ hpos hlt]
      exact hfree

def NoSockets (p : Process) : Prop :=
  ∀ fd < maxRuntimeFds, (p.fds fd).used = true → (p.fds fd).kind ≠ .unixSocket

theorem NoSockets.refs (h : NoSockets p) (hfd : fd < maxRuntimeFds) (si : Int) :
    p.refs fd si = false := by
  have h0 := h fd hfd
  unfold Process.refs refers
  cases hu : (p.fds fd).used with
  | false => rfl
  | true => simp [h0 hu]

def OwnTable (t : Tasks) (self : Nat) : Prop :=
  HasTable t self ∧ (t.fdOwner self = self ∨ NoSockets (t.procs self))

def ClosesIdle (self fd : Nat) (k : System σ) : Prop :=
  ∀ si, (k.fdtable self fd).refers si = true →
    si ∈ namesBut k.tasks (oneFd (k.tasks.fdOwner self) fd) ∨ waitKeys (keysOf k.socks) si = []

theorem refers_socket (hu : d.used = true) (hk : d.kind = .unixSocket) :
    {si | d.refers si = true} = {d.socket} := by
  ext si
  simp only [Set.mem_ofPred_eq, Set.mem_singleton_iff, refers, hu, hk, Bool.true_and,
    Bool.and_eq_true, decide_eq_true_eq, true_and]
  exact eq_comm

theorem emptyFd_refers : {si | ({} : RuntimeFd).refers si = true} = (∅ : Set Int) :=
  Set.eq_empty_of_forall_notMem fun _ => nofun

theorem dropFd_tended (h : k.Tended) (ht : InTable k.socks) (ho : OwnTable k.tasks self)
    (hfd : fd < maxRuntimeFds) (hu : (k.fdtable self fd).used = true) (hc : ClosesIdle self fd k) :
    (dropFd self fd (k.fdtable self fd) k).Tended := by
  have hclear : names (k.tasks.setFd (k.tasks.fdOwner self) fd {}) =
      namesBut k.tasks (oneFd (k.tasks.fdOwner self) fd) := by
    rw [names_setFd ho.1 hfd, emptyFd_refers, Set.union_empty]
  have hall : names k.tasks = namesBut k.tasks (oneFd (k.tasks.fdOwner self) fd) ∪
      {si | (k.fdtable self fd).refers si = true} := names_split ho.1 hfd
  unfold dropFd
  split
  case isTrue hk =>
    have hrefs := refers_socket hu hk
    refine socketReleaseFd_tended (N := names k.tasks) h ht ?_ ?_ ?_
    · rw [setFd_tasks, hclear, hall, hrefs]
    · rw [otherRefs_eq_zero_iff, setFd_tasks]
      constructor
      · rintro h0 ⟨i, n, hi, hn, hr⟩
        have hself : i = self ∧ n = fd := by
          by_contra hne
          have h1 := h0 i n hi hn fun h2 => hne (by cases h2; exact ⟨rfl, rfl⟩)
          rw [hr] at h1
          cases h1
        obtain ⟨rfl, rfl⟩ := hself
        rw [setFd_refs] at hr
        split at hr
        · cases hr
        case isFalse hne =>
          rcases ho.2 with h1 | h1
          · exact hne ⟨h1.symm, rfl⟩
          · rw [h1.refs hn] at hr
            cases hr
      · intro h0 i n hi hn _
        by_contra hr
        exact h0 ⟨i, n, hi, hn, by simpa using hr⟩
    · rw [setFd_tasks, hclear]
      intro hnot
      exact (hc _ ((Set.ext_iff.mp hrefs _).mpr rfl)).resolve_left hnot
  case isFalse hk =>
    have hnone : {si | (k.fdtable self fd).refers si = true} = (∅ : Set Int) := by
      refine Set.eq_empty_of_forall_notMem fun si hsi => hk ?_
      simp only [Set.mem_ofPred_eq, refers, Bool.and_eq_true, decide_eq_true_eq] at hsi
      exact hsi.1.2
    refine System.Tended.of_same h ?_ rfl
    rw [setFd_tasks, hclear, hall, hnone, Set.union_empty]

theorem doClose_tended (h : k.Tended) (ht : InTable k.socks) (ho : OwnTable k.tasks self)
    (hc : ClosesIdle self f.rdi.toNat k) : (doClose self f k).2.Tended := by
  unfold doClose
  split
  · exact h
  case h_2 d hd =>
    obtain ⟨hlt, rfl, hu⟩ := fd_spec hd
    exact dropFd_tended h ht ho hlt hu hc

theorem socketReleaseFd_refs (except : Option (Nat × Nat)) :
    SameRefs k.tasks (socketReleaseFd si except k).tasks := by
  unfold socketReleaseFd
  split
  · exact .refl _
  split
  · exact .refl _
  dsimp only
  split
  · exact wakeSocketReaders_refs _ _
  · exact .refl _

theorem dropFd_refs (fd : Nat) (d : RuntimeFd) :
    SameRefs (k.tasks.setFd (k.tasks.fdOwner self) fd {}) (dropFd self fd d k).tasks := by
  unfold dropFd
  split
  · exact socketReleaseFd_refs _
  · exact .refl _

theorem Tamed.fdOwner {marks : BitVec 32 → Prop} (h : Tamed marks t t') (i : Nat) :
    t'.fdOwner i = t.fdOwner i := by
  unfold Tasks.fdOwner
  rw [show (t'.procs i).fdOwner = (t.procs i).fdOwner from congrArg Core.fdOwner (h.procs i).core]

theorem replaceFd_tended (h : k.Tended) (ht : InTable k.socks) (ho : OwnTable k.tasks self)
    (hm : m < maxRuntimeFds) (hlt : target < maxRuntimeFds) (hne : m ≠ target)
    (hc : ClosesIdle self target k) (flags : BitVec 32 → BitVec 32) :
    (replaceFd self (k.fdtable self m) target flags k).Tended := by
  have hput : ∀ k1 : System σ, k1.Tended → HasTable k1.tasks self →
      (∀ si, (k1.tasks.procs (k1.tasks.fdOwner self)).refs target si = false) →
      (k1.tasks.procs (k1.tasks.fdOwner self)).refs m = (k.fdtable self m).refers →
      (k1.setFd (k1.tasks.fdOwner self) target
        { k.fdtable self m with flags := flags (k.fdtable self m).flags }).Tended := by
    intro k1 h1 ho1 hfree hsame
    refine System.Tended.of_same h1 ?_ rfl
    rw [setFd_tasks, names_fill ho1 hlt hfree]
    refine Set.union_eq_self_of_subset_right fun si hsi => ?_
    refine ⟨_, m, ho1, hm, ?_⟩
    rw [hsame]
    exact hsi
  unfold replaceFd
  dsimp only
  split
  case isTrue hold =>
    have htamed := dropFd_rel Tamed.closeRule self target (k.fdtable self target) k
    have hrefs : SameRefs (k.tasks.setFd (k.tasks.fdOwner self) target {})
        (dropFd self target (k.fdtable self target) k).tasks := dropFd_refs _ _
    refine hput _ (dropFd_tended h ht ho hlt hold.1 hc) ?_ ?_ ?_
    · unfold HasTable
      rw [htamed.fdOwner, htamed.live]
      exact ho.1
    · intro si
      rw [htamed.fdOwner, hrefs, setFd_refs, if_pos ⟨rfl, rfl⟩]
      rfl
    · rw [htamed.fdOwner, hrefs, setFd_refs, if_neg fun h0 => hne h0.2]
      rfl
  case isFalse hold =>
    refine hput k h ho.1 (fun si => ?_) rfl
    unfold Process.refs refers
    by_cases hu : (k.fdtable self target).used = true
    · have hk : (k.fdtable self target).kind ≠ .unixSocket := fun h0 => hold ⟨hu, h0⟩
      unfold System.fdtable at hk
      simp [hk]
    · unfold System.fdtable at hu
      simp [hu]

theorem toNat_ne_of_ne {x y : Word} (h : x ≠ y) : x.toNat ≠ y.toNat :=
    fun h0 => h (BitVec.eq_of_toNat_eq h0)

theorem doDup2_tended (h : k.Tended) (ht : InTable k.socks) (ho : OwnTable k.tasks self)
    (hc : ClosesIdle self f.rsi.toNat k) : (doDup2 self f k).2.Tended := by
  unfold doDup2
  split
  · exact h
  case h_2 d hd =>
    obtain ⟨hlt, rfl, _⟩ := fd_spec hd
    split
    · exact h
    split
    · exact h
    case isFalse hr _ hne => exact replaceFd_tended h ht ho hlt (by omega) (toNat_ne_of_ne hne) hc id

theorem doDup3_tended (h : k.Tended) (ht : InTable k.socks) (ho : OwnTable k.tasks self)
    (hc : ClosesIdle self f.rsi.toNat k) : (doDup3 self f k).2.Tended := by
  unfold doDup3
  split
  · exact h
  case h_2 d hd =>
    obtain ⟨hlt, rfl, _⟩ := fd_spec hd
    split
    · exact h
    split
    · exact h
    case isFalse hr _ hne => exact replaceFd_tended h ht ho hlt (by omega) (toNat_ne_of_ne hne) hc _

def LeavesIdle (self : Nat) (k : System σ) : Prop :=
  ∀ fd < maxRuntimeFds, ∀ si, (k.tasks.procs self).refs fd si = true →
    si ∈ namesBut k.tasks (fun i _ => i = self) ∨ waitKeys (keysOf k.socks) si = []

theorem socketReleaseFd_wait (except : Option (Nat × Nat)) (hi : waitKeys (keysOf k.socks) i = []) :
    waitKeys (keysOf (socketReleaseFd si except k).socks) i = [] := by
  unfold socketReleaseFd
  split
  · exact hi
  split
  · exact hi
  case isFalse hpos _ =>
    have hkeys : ∀ s, keysOf s = keysOf k.socks → waitKeys (keysOf (socketFree si s)) i = [] := by
      intro s hs
      by_cases hlt : si < socketCount
      · rw [keysOf_free _ (by omega) hlt, hs, waitKeys_update (by omega)]
        split
        · rfl
        · exact hi
      · unfold socketFree
        rw [if_pos (by omega), hs]
        exact hi
    dsimp only
    split
    · exact hkeys _ (keysOf_edit _ _ (by rfl))
    · exact hkeys _ rfl

theorem releaseFd_tended (h : k.Tended) (ht : InTable k.socks) (hl : Live k.tasks self)
    (hc : LeavesIdle self k) (hfd : fd < maxRuntimeFds) :
    (releaseFd self k fd).Tended ∧ LeavesIdle self (releaseFd self k fd) := by
  unfold releaseFd
  dsimp only
  split
  case isFalse => exact ⟨h, hc⟩
  case isTrue hd =>
    have hrefs := refers_socket hd.1 hd.2
    have hclear : names (k.tasks.setFd self fd {}) = namesBut k.tasks (oneFd self fd) := by
      rw [names_setFd hl hfd, emptyFd_refers, Set.union_empty]
    have hall : names k.tasks = namesBut k.tasks (oneFd self fd) ∪
        {((k.tasks.procs self).fds fd).socket} := by
      rw [← hrefs]
      exact names_split hl hfd
    generalize hsi : ((k.tasks.procs self).fds fd).socket = si at hall hrefs ⊢
    have hothers : namesBut k.tasks (fun i _ => i = self) ⊆ namesBut k.tasks (oneFd self fd) := by
      rintro x ⟨i, n, hi, hn, hne, hr⟩
      exact ⟨i, n, hi, hn, fun h0 => hne h0.1, hr⟩
    have hmine : (k.tasks.procs self).refs fd si = true := (Set.ext_iff.mp hrefs si).mpr rfl
    constructor
    · refine socketReleaseFd_tended (N := names k.tasks) h ht ?_ ?_ ?_
      · rw [setFd_tasks, hclear, hall]
      · rw [otherRefs_eq_zero_iff]
        constructor
        · rintro h0 ⟨i, n, hi, hn, hr⟩
          have h1 := h0 i n hi hn nofun
          rw [hr] at h1
          cases h1
        · intro h0 i n hi hn _
          by_contra hr
          exact h0 ⟨i, n, hi, hn, by simpa using hr⟩
      · rw [setFd_tasks, hclear]
        intro hnot
        exact (hc fd hfd si hmine).resolve_left fun h0 => hnot (hothers h0)
    · intro n hn x hx
      have hsame : SameRefs (k.setFd self fd {}).tasks
          (socketReleaseFd si none (k.setFd self fd {})).tasks :=
        socketReleaseFd_refs none
      have hlive := (socketReleaseFd_rel Calm.closeRule si none (k.setFd self fd {})).live
      rw [hsame, setFd_tasks, setFd_refs] at hx
      split at hx
      · cases hx
      rcases hc n hn x hx with ⟨i, m, hi, hm, hne, hr⟩ | h0
      · refine .inl ⟨i, m, (hlive i).mpr ((setFd_live _).mpr hi), hm, hne, ?_⟩
        rw [hsame, setFd_tasks, setFd_refs, if_neg fun h1 => hne h1.1]
        exact hr
      · exact .inr (socketReleaseFd_wait (k := k.setFd self fd {}) none h0)

theorem releaseProcessFds_tended (h : k.Tended) (ht : InTable k.socks) (hl : Live k.tasks self)
    (hc : LeavesIdle self k) : (releaseProcessFds self k).Tended := by
  have hall : ∀ (l : List Nat) (k : System σ), (∀ fd ∈ l, fd < maxRuntimeFds) → k.Tended →
    InTable k.socks →
      Live k.tasks self → LeavesIdle self k → (l.foldl (releaseFd self) k).Tended := by
    intro l
    induction l with
    | nil => exact fun k _ h _ _ _ => h
    | cons fd l ih =>
      intro k hlt h ht hl hc
      obtain ⟨h1, hc1⟩ := releaseFd_tended h ht hl hc (hlt fd mem_cons_self)
      refine ih _ (fun n hn => hlt n (mem_cons_of_mem fd hn)) h1 ?_ ?_ hc1
      · exact (releaseFd_rel Parts.rule.close self k fd).inTable ht
      · exact ((releaseFd_rel Calm.closeRule self k fd).live self).mpr hl
  exact hall _ k (fun fd hfd => mem_range.mp hfd) h ht hl hc

theorem doExit_still : Still (releaseProcessFds self k) (doExit env self f k).2 := by
  have hnotify : ∀ k : System σ, Still k (notifyParent env self k) := by
    intro k
    unfold notifyParent
    dsimp only
    split
    · exact .refl k
    split
    · exact .of_refs (SameRefs.modify _ _ (g := Process.handOver _) fun _ => rfl) rfl
    · exact .refl k
  have hclear : ∀ k : System σ, Still k (clearTidWord env self k) := by
    intro k
    unfold clearTidWord
    dsimp only
    split
    · have h : Still k (k.store env (k.tasks.procs self).clearTid (bytesOf 4 0)) := .of_eq rfl rfl
      exact h.trans (wakeFutexFrom_still ..)
    · exact .refl k
  unfold doExit leave
  generalize releaseProcessFds self k = k1
  have h1 : Still k1 { k1 with tasks := releaseVforkParent self k1.tasks } :=
    .of_refs (releaseVforkParent_refs _ _) rfl
  have h2 := h1.trans (modify_still _ self (g := Process.exitWith f.rdi) fun _ => rfl)
  have h3 := h2.trans ((hnotify _).trans (hclear _))
  have h4 := h3.trans (modify_still _ self (g := Process.terminate) fun _ => rfl)
  exact h4.trans (switching_still (onExit_refs _ _) fun k' => .refl k')

theorem System.Tended.of_still (h : k.Tended) (hs : Still k k')
    (hl : ∀ i, Live k'.tasks i ↔ Live k.tasks i) : k'.Tended :=
  h.of_same (names_congr hl hs.refs) hs.keys

theorem Steady.live (h : Steady t t') (i : Nat) : Live t' i ↔ Live t i :=
  and_congr_right fun _ => not_congr (h.empty i)

theorem doExit_tended (h : k.Tended) (ht : InTable k.socks) (ha : Alive k.tasks)
    (hcur : k.tasks.current = some self) (hl : Live k.tasks self) (hc : LeavesIdle self k) :
    (doExit env self f k).2.Tended := by
  refine (releaseProcessFds_tended h ht hl hc).of_still (doExit_still env) fun i => ?_
  rw [(doExit_settled env ha hcur).toSteady.live, (releaseProcessFds_rel Calm.closeRule self k).live]

def ExecKeeps (self : Nat) (f : SyscallFrame) (k : System σ) : Prop :=
  (env.execImage k f).1.isSome →
    names k.tasks ⊆ names (k.tasks.modify (k.tasks.fdOwner self) closeOnExec)

theorem closeOnExec_refs (p : Process) (fd : Nat) (si : Int) (h : p.closeOnExec.refs fd si = true) :
    p.refs fd si = true := by
  unfold Process.refs closeOnExec dropCloexec at h
  dsimp only at h
  split at h
  · cases h
  · exact h

theorem closeOnExec_names (t : Tasks) (o : Nat) : names (t.modify o closeOnExec) ⊆ names t := by
  rintro si ⟨i, fd, hi, hfd, hr⟩
  by_cases hio : i = o
  · subst hio
    rw [Tasks.modify_same] at hr
    refine ⟨i, fd, ⟨hi.1, ?_⟩, hfd, closeOnExec_refs _ _ _ hr⟩
    have h0 := hi.2
    rwa [Tasks.modify_same] at h0
  · rw [Tasks.modify_other _ _ hio] at hr
    refine ⟨i, fd, ⟨hi.1, ?_⟩, hfd, hr⟩
    have h0 := hi.2
    rwa [Tasks.modify_other _ _ hio] at h0

theorem doExecve_tended (h : k.Tended) (hc : ExecKeeps env self f k) :
    (doExecve env self f k).2.Tended := by
  unfold ExecKeeps at hc
  unfold doExecve
  split
  · exact h
  case h_2 image m he =>
    rw [he] at hc
    have hnames := (closeOnExec_names k.tasks (k.tasks.fdOwner self)).antisymm (hc rfl)
    refine h.of_same ?_ rfl
    rw [← hnames]
    generalize k.tasks.modify (k.tasks.fdOwner self) closeOnExec = u
    have hrefs := (SameRefs.modify u self (g := exec image) fun _ => rfl).trans
      (releaseVforkParent_refs self _)
    refine names_congr (fun i => ?_) hrefs
    exact ((releaseVforkParent_calm self _).live i).trans
      (modify_live u self (g := exec image) (fun _ => rfl) i)

def ReapKeeps (self : Nat) (f : SyscallFrame) (k : System σ) : Prop :=
  ∀ x, findTerminated k.tasks self (wantedPid f) = some x →
    names k.tasks ⊆ namesBut k.tasks fun i _ => i = x

theorem doWait4_refs : SameRefs k.tasks (doWait4 env self f k).2.tasks := by
  have hoff : ∀ (child : Nat → RuntimeFd) (p : Process), (p.takeOffsets child).refs = p.refs := by
    intro child p
    funext fd
    unfold Process.refs Process.takeOffsets handBackOffsets
    dsimp only
    split <;> rfl
  have hscan : SameRefs k.tasks (scanChildren env self f k).2.tasks := by
    unfold scanChildren
    split
    case h_1 x _ =>
      obtain ⟨g, hg, ht⟩ := reap_tasks env self x f k
      have hgr : ∀ p, (g p).refs = p.refs := by
        rcases hg with rfl | rfl <;> exact fun _ => rfl
      rw [ht]
      exact ((SameRefs.modify _ _ (hoff _)).trans (.modify _ _ hgr)).trans
        (SameRefs.modify _ _ (g := vacate) fun _ => rfl)
    case h_2 => exact .refl _
  unfold doWait4
  dsimp only
  split
  · exact hscan
  split
  · exact hscan
  split
  · exact hscan
  have hwait : ∀ k : System σ, Still k (waitForChild self f k).2 := by
    intro k
    exact ((modify_still k self (g := Process.awaitChild f) fun _ => rfl).trans
      (modify_still _ self (g := Process.block) fun _ => rfl)).trans
        (switching_still (block_rel (SameRefs.rule _) _) fun k' => .refl k')
  exact hscan.trans (hwait _).refs

theorem Handled.live (h : Handled self t c t') (i : Nat) :
    Live t' i ↔ (Live t i ∧ c ≠ .reaped i) ∨ ∃ b, c = .born b ∧ i = b.slot := by
  by_cases hi : (t.procs i).state = .empty
  · have hdead : ¬ Live t i := fun h0 => h0.2 hi
    by_cases hb : ∃ b, c = .born b ∧ i = b.slot
    · obtain ⟨b, rfl, rfl⟩ := hb
      obtain ⟨hslot, hne, _⟩ := h.born_spec
      exact iff_of_true ⟨(freeSlot_spec hslot).1, hne⟩ (.inr ⟨b, rfl, rfl⟩)
    · have hempty := h.empty hi fun b hc h0 => hb ⟨b, hc, h0⟩
      exact iff_of_false (fun h0 => h0.2 hempty) (not_or.mpr ⟨fun h0 => hdead h0.1, hb⟩)
  · have hnb : ¬ ∃ b, c = .born b ∧ i = b.slot := by
      rintro ⟨b, rfl, rfl⟩
      exact hi (freeSlot_spec h.born_spec.1).2
    by_cases hr : c = .reaped i
    · subst hr
      exact iff_of_false (fun h0 => h0.2 h.reaped_spec.2) (not_or.mpr ⟨fun h0 => h0.2 rfl, hnb⟩)
    have hk := (h.kept hi hr).empty
    refine ⟨fun h0 => .inl ⟨⟨h0.1, hi⟩, hr⟩, ?_⟩
    rintro (h0 | h0)
    · exact ⟨h0.1.1, fun h1 => hi (hk.mp h1)⟩
    · exact absurd h0 hnb

theorem doWait4_tended (h : k.Tended) (ha : Alive k.tasks) (hcur : k.tasks.current = some self)
    (hd : decode f.rax = .wait4) (hc : ReapKeeps self f k) : (doWait4 env self f k).2.Tended := by
  have hh := doWait4_handled env ha hcur hd
  have hrefs : SameRefs k.tasks (doWait4 env self f k).2.tasks := doWait4_refs env
  refine h.of_same ?_ (by rw [doWait4_socks])
  have hchange : changeOf env self f k = (findTerminated k.tasks self (wantedPid f)).elim .none
      .reaped := by
    unfold changeOf
    rw [hd]
  rw [hchange] at hh
  cases hx : findTerminated k.tasks self (wantedPid f) with
  | none =>
    rw [hx] at hh
    refine names_congr (fun i => ?_) hrefs
    rw [hh.live]
    simp
  | some x =>
    rw [hx] at hh
    have hlive : ∀ i, Live (doWait4 env self f k).2.tasks i ↔ Live k.tasks i ∧ i ≠ x := by
      intro i
      rw [hh.live]
      simp [eq_comm]
    have hnames : names (doWait4 env self f k).2.tasks = namesBut k.tasks fun i _ => i = x := by
      ext si
      refine exists_congr fun i => exists_congr fun fd => ?_
      rw [hlive, hrefs]
      tauto
    rw [hnames]
    exact namesBut_subset.antisymm (hc x hx)

structure Filled (t : Tasks) (slot : Nat) (t' : Tasks) : Prop where
  others : ∀ i, i ≠ slot → (t'.procs i).refs = (t.procs i).refs
  child : ∀ fd < maxRuntimeFds, ∀ si, (t'.procs slot).refs fd si = true → si ∈ names t

theorem Filled.modify (hu : SameRefs t u)
    (hp : ∀ fd < maxRuntimeFds, ∀ si, p.refs fd si = true → si ∈ names t) :
    Filled t slot (u.modify slot fun _ => p) := by
  refine ⟨fun i hi => ?_, fun fd hfd si hr => ?_⟩
  · rw [Tasks.modify_other _ _ hi, hu]
  · rw [Tasks.modify_same] at hr
    exact hp fd hfd si hr

theorem Filled.trans (h : Filled t slot t') (h' : SameRefs t' t'') : Filled t slot t'' :=
  ⟨fun i hi => (h' i).trans (h.others i hi), fun fd hfd si hr => h.child fd hfd si (h' slot ▸ hr)⟩

theorem Filled.names (h : Filled t slot t') (hslot : ¬ Live t slot)
    (hback : ∀ i, Live t' i → Live t i ∨ i = slot) (hkeep : ∀ i, Live t i → Live t' i) :
    names t' = names t := by
  ext si
  constructor
  · rintro ⟨i, fd, hi, hfd, hr⟩
    by_cases his : i = slot
    · subst his
      exact h.child fd hfd si hr
    · rw [h.others i his] at hr
      exact ⟨i, fd, (hback i hi).resolve_right his, hfd, hr⟩
  · rintro ⟨i, fd, hi, hfd, hr⟩
    have his : i ≠ slot := fun h0 => hslot (h0 ▸ hi)
    exact ⟨i, fd, hkeep i hi, hfd, by rwa [h.others i his]⟩

theorem changeOf_reaped (h : changeOf env self f k = .reaped x) : decode f.rax = .wait4 := by
  have helim : ∀ {α : Type} {o : Option α} {g : α → Change}, o.elim .none g = .reaped x → ∃ a,
      g a = .reaped x := by
    intro α o g h0
    cases o with
    | none => cases h0
    | some a => exact ⟨a, h0⟩
  unfold changeOf at h
  split at h
  · obtain ⟨slot, h0⟩ := helim h
    split at h0 <;> cases h0
  · obtain ⟨slot, h0⟩ := helim h
    cases h0
  · obtain ⟨slot, h0⟩ := helim h
    split at h0 <;> cases h0
  · obtain ⟨image, h0⟩ := helim h
    cases h0
  case h_5 hw => exact hw
  · cases h

theorem Handled.names (h : Handled self t c t')
    (hslot : t.freeSlot = some slot) (hf : Filled t slot t') (hr : ∀ x, c ≠ .reaped x) :
    names t' = names t := by
  refine hf.names (fun h0 => h0.2 (freeSlot_spec hslot).2) (fun i hi => ?_) fun i hi => ?_
  · rcases (h.live i).mp hi with h0 | ⟨b, hb, rfl⟩
    · exact .inl h0.1
    · subst hb
      exact .inr (Option.some.inj (h.born_spec.1.symm.trans hslot))
  · exact (h.live i).mpr (.inl ⟨hi, hr i⟩)

theorem named_of_live (hi : Live t i) (hfd : fd < maxRuntimeFds)
    (hr : (t.procs i).refs fd si = true) : si ∈ names t := ⟨i, fd, hi, hfd, hr⟩

theorem forkLike_filled (hl : Live k.tasks self) (frame : TrapFrame) (vfork : Bool)
    (hslot : k.tasks.freeSlot = some slot) :
    Filled k.tasks slot (forkLike env self frame vfork k).2.tasks := by
  have hchild : ∀ pid pml4, ∀ fd < maxRuntimeFds, ∀ si,
      (forkChild (k.tasks.procs self) frame vfork pid pml4 slot).refs fd si = true →
        si ∈ names k.tasks :=
    fun _ _ fd hfd si hr => named_of_live hl hfd hr
  have hcount : SameRefs k.tasks { k.tasks with nextPid := k.tasks.nextPid + 1 } := .refl _
  unfold forkLike
  rw [hslot]
  dsimp only
  split
  · exact Filled.modify hcount (hchild _ _)
  split
  · exact Filled.modify hcount fun _ _ _ hr => absurd hr Bool.false_ne_true
  · exact Filled.modify hcount (hchild _ _)

theorem forkLike_none (frame : TrapFrame) (vfork : Bool) (h : k.tasks.freeSlot = none) :
    forkLike env self frame vfork k = (none, k) := by
  unfold forkLike
  rw [h]

theorem forkLike_socks (frame : TrapFrame) (vfork : Bool) :
    (forkLike env self frame vfork k).2.socks = k.socks := by
  unfold forkLike
  split
  · rfl
  dsimp only
  split
  · rfl
  · split <;> rfl

theorem doFork_tended (h : k.Tended) (ha : Alive k.tasks) (hl : Live k.tasks self)
    (hd : decode f.rax = .fork) : (doFork env self f k).2.Tended := by
  have hh : Handled self k.tasks _ _ := doFork_handled env ha hd
  have hend : (doFork env self f k).2 = (forkLike env self f.toTrap false k).2 := by
    unfold doFork
    split
    case h_1 h0 => rw [h0]
    case h_2 h0 => rw [h0]
  rw [hend] at hh ⊢
  cases hslot : k.tasks.freeSlot with
  | none => rwa [forkLike_none env _ _ hslot]
  | some slot =>
    refine h.of_same (hh.names hslot (forkLike_filled env hl _ _ hslot) fun x h0 => ?_)
      (by rw [forkLike_socks])
    cases hd.symm.trans (changeOf_reaped env h0)

theorem doVfork_tended (h : k.Tended) (ha : Alive k.tasks) (hcur : k.tasks.current = some self)
    (hl : Live k.tasks self) (hd : decode f.rax = .vfork) : (doVfork env self f k).2.Tended := by
  have hh := doVfork_handled env ha hcur hd
  have hend : Still (forkLike env self f.toTrap true k).2 (doVfork env self f k).2 := by
    unfold doVfork
    split
    case h_1 h0 =>
      rw [h0]
      exact .refl _
    case h_2 h0 =>
      rw [h0]
      exact (modify_still _ self (g := Process.block) fun _ => rfl).trans
        (switching_still (block_rel (SameRefs.rule _) _) fun k' => .refl k')
  cases hslot : k.tasks.freeSlot with
  | none =>
    unfold doVfork
    rwa [forkLike_none env _ _ hslot]
  | some slot =>
    have hf := (forkLike_filled env hl f.toTrap true hslot).trans hend.refs
    refine h.of_same (hh.names hslot hf fun x h0 => ?_) (hend.keys.trans (by rw [forkLike_socks]))
    cases hd.symm.trans (changeOf_reaped env h0)

theorem doClone_tended (h : k.Tended) (ha : Alive k.tasks) (hd : decode f.rax = .clone) :
    (doClone env self f k).2.Tended := by
  have hh : Handled self k.tasks _ _ := doClone_handled env ha hd
  unfold doClone at hh ⊢
  split
  · exact h
  case isFalse hargs =>
    rw [if_neg hargs] at hh
    cases hslot : k.tasks.freeSlot with
    | none => exact h
    | some slot =>
      rw [hslot] at hh
      refine h.of_same (hh.names hslot ?_ fun x h0 => ?_) rfl
      · unfold cloneInto
        refine ⟨fun i hi => ?_, fun fd hfd si hr => ?_⟩
        · rw [Tasks.modify_other _ _ hi, SameRefs.modify _ self (g := disown) fun _ => rfl,
            Tasks.modify_other _ _ hi]
        · rw [Tasks.modify_same] at hr
          cases hr
      · cases hd.symm.trans (changeOf_reaped env h0)

theorem spawn_tended (env : Env σ) (h : k.Tended) (ha : Alive k.tasks) (r : SpawnResult) :
    System.Tended { k with tasks := spawn r k.tasks } := by
  have hh : Handled 0 k.tasks _ _ := spawn_handled env ha r k rfl
  refine h.of_same ?_ rfl
  cases hslot : k.tasks.freeSlot with
  | none =>
    unfold spawn
    rw [hslot]
  | some slot =>
    have hf : ∀ p : Process, p.fds = stdFds → Filled k.tasks slot (k.tasks.modify slot fun _ => p) := by
      intro p hp
      refine .modify (.refl _) fun fd _ si hr => ?_
      unfold Process.refs stdFds at *
      rw [hp] at hr
      dsimp only at hr
      split at hr <;> cases hr
    unfold spawn at hh ⊢
    rw [hslot] at hh ⊢
    cases r with
    | early => rfl
    | late pml4 =>
      have hf := hf (spawnProcess slot k.tasks.nextPid pml4) rfl
      exact hh.names hslot ⟨hf.others, hf.child⟩ nofun
    | loaded image =>
      have hf := hf (spawned slot k.tasks.nextPid image) rfl
      refine hh.names hslot ⟨hf.others, hf.child⟩ fun x h0 => ?_
      unfold stepChange at h0
      rw [hslot] at h0
      cases h0

def SockSafe (self : Nat) (f : SyscallFrame) (k : System σ) : Prop :=
  match decode f.rax with
  | .socket | .pipe2 => HasTable k.tasks self
  | .accept | .accept4 => AcceptsAll self f k
  | .connect => ConnectsAll env self f k
  | .socketpair => PairsAll self k
  | .close => OwnTable k.tasks self ∧ ClosesIdle self f.rdi.toNat k
  | .dup2 | .dup3 => OwnTable k.tasks self ∧ ClosesIdle self f.rsi.toNat k
  | .exit | .exitGroup => LeavesIdle self k
  | .execve => ExecKeeps env self f k
  | .wait4 => ReapKeeps self f k
  | _ => True

def KeepsSocks (k : System σ) : KernelOp σ → Prop
  | .call f => ∀ self, k.tasks.current = some self → SockSafe env self f (freePending env self k)
  | _ => True

theorem changeOf_still (h : (decode f.rax).still = true) : changeOf env self f k = .none := by
  unfold changeOf
  cases hd : decode f.rax <;> first | rfl | (rw [hd] at h; cases h)

theorem handle_tended (h : k.Tended) (ht : InTable k.socks) (ha : Alive k.tasks)
    (hcur : k.tasks.current = some self) (hl : Live k.tasks self) (hs : SockSafe env self f k) :
    (handle env self f k).2.Tended := by
  by_cases hst : (decode f.rax).still = true
  · refine h.of_still (handle_still env hst) fun i => ?_
    rw [(handle_handled env ha hcur).live, changeOf_still env hst]
    simp
  unfold SockSafe at hs
  unfold handle
  cases hd : decode f.rax with
  | close =>
    rw [hd] at hs
    exact doClose_tended h ht hs.1 hs.2
  | socket =>
    rw [hd] at hs
    exact doSocket_tended h hs
  | listen => exact doListen_tended h
  | accept | accept4 =>
    rw [hd] at hs
    exact doAccept_tended h ht hs
  | connect =>
    rw [hd] at hs
    exact doConnect_tended env h hs
  | clone => exact doClone_tended env h ha hd
  | wait4 =>
    rw [hd] at hs
    exact doWait4_tended env h ha hcur hd hs
  | exit | exitGroup =>
    rw [hd] at hs
    exact doExit_tended env h ht ha hcur hl hs
  | execve =>
    rw [hd] at hs
    exact doExecve_tended env h hs
  | fcntl => exact doFcntl_tended h
  | dup => exact doDup_tended h
  | dup2 =>
    rw [hd] at hs
    exact doDup2_tended h ht hs.1 hs.2
  | pipe2 =>
    rw [hd] at hs
    exact doPipe2_tended env h hs
  | socketpair =>
    rw [hd] at hs
    exact doSocketpair_tended env h hs
  | fork => exact doFork_tended env h ha hl hd
  | vfork => exact doVfork_tended env h ha hcur hl hd
  | dup3 =>
    rw [hd] at hs
    exact doDup3_tended h ht hs.1 hs.2
  | _ =>
    rw [hd] at hst
    exact absurd rfl hst

def Placed (t : Tasks) : Prop := ∀ i, (t.procs i).state ≠ .empty → i < slotCount

theorem kernelStep_placed (ha : Alive k.tasks) (h : Placed k.tasks) (op : KernelOp σ) :
    Placed (kernelStep env k op).tasks := by
  intro i hi
  by_contra hlt
  refine hi (kernelStep_empty env ha ?_ fun b hb h0 => ?_)
  · by_contra hne
    exact hlt (h i hne)
  subst h0
  obtain ⟨self, u, _, hh⟩ := kernelStep_handled env ha op
  rw [hb] at hh
  exact hlt (freeSlot_spec hh.born_spec.1).1

theorem freePending_still (self : Nat) (k : System σ) : Still k (freePending env self k) := by
  refine .of_refs ?_ (freePending_socks env self k)
  rcases freePending_tasks env self k with h0 | h0
  · rw [h0]
    exact .refl _
  · rw [h0]
    exact .modify _ _ fun _ => rfl

structure InOrder (k : System σ) : Prop where
  alive : Alive k.tasks
  placed : Placed k.tasks
  inTable : InTable k.socks
  tended : k.Tended

theorem kernelStep_tended (h : InOrder k) (op : KernelOp σ) (hs : KeepsSocks env k op) :
    (kernelStep env k op).Tended := by
  cases op with
  | call f =>
    cases hc : k.tasks.current with
    | none =>
      rw [kernelStep_call_none env hc]
      exact h.tended
    | some self =>
      have he := freePending_entered env hc
      have hlive : ∀ i, Live (freePending env self k).tasks i ↔ Live k.tasks i :=
        fun i => and_congr_right fun _ => not_congr (he.kept i).empty
      rw [kernelStep_call env hc]
      refine handle_tended env (h.tended.of_still (freePending_still env self k) hlive) ?_
        (he.alive h.alive) (he.current.trans hc) ?_ (hs self hc)
      · rw [freePending_socks]
        exact h.inTable
      · exact (hlive self).mpr ⟨h.placed self (h.alive self hc).1, (h.alive self hc).1⟩
  | timer f =>
    exact h.tended.of_still (.of_refs (onTimer_refs _ _ _) rfl) (onTimer_quiet h.alive _ f).toSteady.live
  | spawn r => exact spawn_tended env h.tended h.alive r
  | start i =>
    exact h.tended.of_still (.of_refs (start_refs _ _) rfl) (start_held h.alive i).toSteady.live
  | machine m => exact h.tended

theorem boot_inOrder (m : σ) : InOrder (bootSystem m) := by
  have hdead : ∀ i, ¬ Live (bootSystem m).tasks i := fun _ h => h.2 rfl
  have hnames : names (bootSystem m).tasks = ∅ :=
    Set.eq_empty_of_forall_notMem fun _ ⟨i, _, hi, _⟩ => hdead i hi
  have hused : usedKeys (keysOf (bootSystem m).socks) = ∅ :=
    Set.eq_empty_of_forall_notMem fun i hi => boot_free m i.toNat hi.2
  have hwait : ∀ l, waitKeys (keysOf (bootSystem m).socks) l = [] := fun l =>
    waitKeys_unused (by rw [hused]; exact Set.notMem_empty l)
  refine ⟨boot_alive, fun i hi => absurd rfl hi, fun i hi => absurd hi (boot_free m i),
    ⟨⟨?_, ?_, ?_, ?_, ?_⟩, ?_⟩⟩
  · intro i
    simp only [books, hnames, hused, hwait, Set.mem_empty_iff_false, not_mem_nil, exists_false, or_self]
  · intro l i hi
    simp only [books, hwait, not_mem_nil] at hi
  · intro l l' i hi
    simp only [books, hwait, not_mem_nil] at hi
  · intro l
    simp only [books, hwait, nodup_nil]
  · exact fun l _ => hwait l
  · exact fun i _ => rfl

/-- A socket is in use exactly if a descriptor of a process refers to it or it waits at a socket in
use that listens. -/
def NoneLost (k : System σ) : Prop :=
  ∀ j : Nat, (k.socks j).used = true ↔
    (∃ i fd, Live k.tasks i ∧ fd < maxRuntimeFds ∧ ((k.tasks.procs i).fds fd).refers j = true) ∨
    ∃ l : Nat, (k.socks l).used = true ∧ (k.socks l).listener = true ∧ (j : Int) ∈ (k.socks l).pending

theorem System.Tended.noneLost (h : k.Tended) : NoneLost k := by
  intro j
  have hl := h.sound.live j
  have hused : (j : Int) ∈ usedKeys (keysOf k.socks) ↔ (k.socks j).used = true :=
    and_iff_right (Int.natCast_nonneg j)
  refine hused.symm.trans (hl.trans (or_congr Iff.rfl ⟨?_, ?_⟩))
  · rintro ⟨l, hl⟩
    have hl : (j : Int) ∈ waitKeys (keysOf k.socks) l := hl
    unfold waitKeys at hl
    split at hl
    case isTrue h0 => exact ⟨l.toNat, h0.2.1, h0.2.2, hl⟩
    case isFalse => cases hl
  · rintro ⟨l, hu, hlisten, hmem⟩
    refine ⟨(l : Int), ?_⟩
    show (j : Int) ∈ waitKeys (keysOf k.socks) l
    unfold waitKeys
    rw [if_pos ⟨Int.natCast_nonneg l, hu, hlisten⟩]
    exact hmem

theorem noneLost_along (m : σ) (ops : List (KernelOp σ))
    (hs : Along (kernelStep env) (KeepsSocks env) (bootSystem m) ops) :
    NoneLost (runFrom (kernelStep env) (bootSystem m) ops) := by
  refine (Along.invariant (I := InOrder) (fun k op h hop => ?_) (boot_inOrder m) hs).tended.noneLost
  exact ⟨kernelStep_alive env h.alive op, kernelStep_placed env h.alive h.placed op,
    kernelStep_inTable env h.inTable op, kernelStep_tended env h op hop⟩

theorem run_inTable (m : σ) (ops : List (KernelOp σ)) :
    InTable (runFrom (kernelStep env) (bootSystem m) ops).socks :=
  Along.invariant (P := fun _ _ => True) (I := fun k : System σ => InTable k.socks)
    (fun _ op h _ => kernelStep_inTable env h op) (boot_inOrder m).inTable
      (.of_forall (fun _ _ => trivial) _ _)

instance (t : Tasks) (self : Nat) : Decidable (HasTable t self) :=
    inferInstanceAs (Decidable (Live _ _))

instance (t : Tasks) (self : Nat) : Decidable (OwnTable t self) :=
  haveI : Decidable (NoSockets (t.procs self)) :=
    inferInstanceAs (Decidable (∀ fd < maxRuntimeFds, _ → _))
  inferInstanceAs (Decidable (_ ∧ _))

instance decidableForallSome {α : Type} (o : Option α) (P : α → Prop) [∀ a, Decidable (P a)] :
    Decidable (∀ a, o = some a → P a) :=
  match o with
  | none => .isTrue nofun
  | some a => decidable_of_iff (P a) ⟨fun h _ h0 => Option.some.inj h0 ▸ h, fun h => h a rfl⟩

instance (self : Nat) (f : SyscallFrame) (k : System σ) : Decidable (AcceptsAll self f k) :=
  inferInstanceAs (Decidable (_ ∧ ∀ li, _ = some li → _))

instance (self : Nat) (f : SyscallFrame) (k : System σ) : Decidable (ConnectsAll env self f k) :=
  decidable_of_iff (∀ r : Int × Nat, connectArgs env self f k = some r →
      (connectTo r.1 r.2 k.socks).1 = true ∨ (socketObjAlloc k.socks).1 < 0)
    ⟨fun h si li => h (si, li), fun h r => h r.1 r.2⟩

instance (self : Nat) (k : System σ) : Decidable (PairsAll self k) :=
  inferInstanceAs (Decidable (_ ∧ (_ → _ ∧ _)))

instance (self fd : Nat) (k : System σ) : Decidable (ClosesIdle self fd k) :=
  decidable_of_iff _ forall_refers.symm

instance (self : Nat) (k : System σ) : Decidable (LeavesIdle self k) :=
  haveI : ∀ fd, Decidable (∀ si, (k.tasks.procs self).refs fd si = true →
      si ∈ namesBut k.tasks (fun i _ => i = self) ∨ waitKeys (keysOf k.socks) si = []) :=
    fun _ => decidable_of_iff _ forall_refers.symm
  inferInstanceAs (Decidable (∀ fd < maxRuntimeFds, _))

instance (self : Nat) (f : SyscallFrame) (k : System σ) : Decidable (ExecKeeps env self f k) :=
  inferInstanceAs (Decidable (_ → names _ ⊆ names _))

instance (self : Nat) (f : SyscallFrame) (k : System σ) : Decidable (ReapKeeps self f k) :=
  inferInstanceAs (Decidable (∀ x, _ = some x → names _ ⊆ namesBut _ _))

instance (self : Nat) (f : SyscallFrame) (k : System σ) : Decidable (SockSafe env self f k) := by
  unfold SockSafe
  split <;> infer_instance

instance (k : System σ) (op : KernelOp σ) : Decidable (KeepsSocks env k op) :=
  match op with
  | .call f => inferInstanceAs (Decidable (∀ self, _ = some self → SockSafe env self f _))
  | .timer _ | .spawn _ | .start _ | .machine _ => .isTrue trivial

end

def acceptAndClose : List (KernelOp Unit) :=
  [.spawn (.loaded firstImage), .start 0,
    .call { plainCall 25 with rdi := 1, rsi := 1 }, .call { plainCall 26 with rdi := 3, rdx := 4 },
    .call { plainCall 27 with rdi := 3 }, .call { plainCall 25 with rdi := 1, rsi := 1 },
    .call { plainCall 30 with rdi := 4, rdx := 4 }, .call { plainCall 28 with rdi := 3 },
    .call { plainCall 3 with rdi := 5 }, .call (plainCall 68)]

theorem noneLost_acceptAndClose :
    NoneLost (runFrom (kernelStep flatEnv) (bootSystem ()) acceptAndClose) :=
  noneLost_along flatEnv () acceptAndClose (by decide +kernel)

def closeListener : List (KernelOp Unit) :=
  [.spawn (.loaded firstImage), .start 0,
    .call { plainCall 25 with rdi := 1, rsi := 1 }, .call { plainCall 26 with rdi := 3, rdx := 4 },
    .call { plainCall 27 with rdi := 3 }, .call { plainCall 25 with rdi := 1, rsi := 1 },
    .call { plainCall 30 with rdi := 4, rdx := 4 }, .call { plainCall 3 with rdi := 3 }]

theorem connection_lost : ¬ NoneLost (runFrom (kernelStep flatEnv) (bootSystem ()) closeListener) := by
  have ht : InTable (runFrom (kernelStep flatEnv) (bootSystem ()) closeListener).socks :=
    run_inTable flatEnv () closeListener
  have hused : ((runFrom (kernelStep flatEnv) (bootSystem ()) closeListener).socks 2).used = true := by
    decide +kernel
  have hnames : (2 : Int) ∉ names
      (runFrom (kernelStep flatEnv) (bootSystem ()) closeListener).tasks := by
    decide +kernel
  have hwait : ∀ l < socketCount,
    ((runFrom (kernelStep flatEnv) (bootSystem ()) closeListener).socks l).used = true →
      (2 : Int) ∉ ((runFrom (kernelStep flatEnv) (bootSystem ()) closeListener).socks l).pending := by
    decide +kernel
  generalize runFrom (kernelStep flatEnv) (bootSystem ()) closeListener = k at *
  intro h
  rcases (h 2).mp hused with h0 | ⟨l, hu, _, hmem⟩
  · exact hnames h0
  · exact hwait l (ht l hu) hu hmem

end BlockOS.Kernel
