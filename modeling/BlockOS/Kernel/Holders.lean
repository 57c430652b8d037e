import BlockOS.Kernel.Peers
import BlockOS.Kernel.SocketReferences
import BlockOS.Lib.Holding

/-! Which sockets descriptors refer to, and the objects of the table of sockets as objects without
reference counts. -/

namespace BlockOS.Kernel
open Words Holding List Function

def namesBut (t : Tasks) (skip : Nat → Nat → Prop) : Set Int :=
  {si | ∃ i fd, Live t i ∧ fd < maxRuntimeFds ∧ ¬ skip i fd ∧ (t.procs i).refs fd si = true}

def names (t : Tasks) : Set Int :=
  {si | ∃ i fd, Live t i ∧ fd < maxRuntimeFds ∧ (t.procs i).refs fd si = true}

def oneFd (o fd : Nat) (i n : Nat) : Prop := i = o ∧ n = fd

instance (t : Tasks) (i : Nat) : Decidable (Live t i) := inferInstanceAs (Decidable (_ ∧ _))

instance (o fd i n : Nat) : Decidable (oneFd o fd i n) := inferInstanceAs (Decidable (_ ∧ _))

instance (t : Tasks) (skip : Nat → Nat → Prop) [∀ i n, Decidable (skip i n)] (si : Int) :
    Decidable (si ∈ namesBut t skip) :=
  decidable_of_iff (∃ i < slotCount, (t.procs i).state ≠ .empty ∧ ∃ fd < maxRuntimeFds,
    ¬ skip i fd ∧ (t.procs i).refs fd si = true)
    ⟨fun ⟨i, hi, hs, fd, hfd, h⟩ => ⟨i, fd, ⟨hi, hs⟩, hfd, h⟩,
      fun ⟨i, fd, hi, hfd, h⟩ => ⟨i, hi.1, hi.2, fd, hfd, h⟩⟩

instance (t : Tasks) (si : Int) : Decidable (si ∈ names t) :=
  decidable_of_iff (∃ i < slotCount, (t.procs i).state ≠ .empty ∧ ∃ fd < maxRuntimeFds,
    (t.procs i).refs fd si = true)
    ⟨fun ⟨i, hi, hs, fd, hfd, h⟩ => ⟨i, fd, ⟨hi, hs⟩, hfd, h⟩,
      fun ⟨i, fd, hi, hfd, h⟩ => ⟨i, hi.1, hi.2, fd, hfd, h⟩⟩

theorem forall_refers {d : RuntimeFd} {P : Int → Prop} : (∀ si, d.refers si = true → P si) ↔
    (d.used = true → d.kind = .unixSocket → P d.socket) := by
  constructor
  · intro h hu hk
    exact h _ (by simp [RuntimeFd.refers, hu, hk])
  intro h si hr
  simp only [RuntimeFd.refers, Bool.and_eq_true, decide_eq_true_eq] at hr
  exact hr.2 ▸ h hr.1.1 hr.1.2

instance (t : Tasks) (S : Set Int) [DecidablePred (· ∈ S)] : Decidable (names t ⊆ S) :=
  decidable_of_iff (∀ i < slotCount, (t.procs i).state ≠ .empty → ∀ fd < maxRuntimeFds,
      ((t.procs i).fds fd).used = true → ((t.procs i).fds fd).kind = .unixSocket →
        ((t.procs i).fds fd).socket ∈ S)
    ⟨fun h _ ⟨i, fd, hi, hfd, hr⟩ => forall_refers.mpr (h i hi.1 hi.2 fd hfd) _ hr,
      fun h i hi hs fd hfd => forall_refers.mp fun _ hr => h ⟨i, fd, ⟨hi, hs⟩, hfd, hr⟩⟩

variable {t t' : Tasks} {o fd : Nat} {si : Int}

theorem names_congr (hl : ∀ i, Live t' i ↔ Live t i) (hr : SameRefs t t') : names t' = names t := by
  ext si
  simp only [names, Set.mem_ofPred_eq, hl, hr _]

theorem names_split (ho : Live t o) (hfd : fd < maxRuntimeFds) :
    names t = namesBut t (oneFd o fd) ∪ {si | (t.procs o).refs fd si = true} := by
  ext si
  constructor
  · rintro ⟨i, n, hi, hn, hr⟩
    by_cases h : oneFd o fd i n
    · obtain ⟨rfl, rfl⟩ := h
      exact .inr hr
    · exact .inl ⟨i, n, hi, hn, h, hr⟩
  · rintro (⟨i, n, hi, hn, _, hr⟩ | hr)
    · exact ⟨i, n, hi, hn, hr⟩
    · exact ⟨o, fd, ho, hfd, hr⟩

theorem namesBut_subset {skip : Nat → Nat → Prop} : namesBut t skip ⊆ names t := by
  rintro si ⟨i, n, hi, hn, _, hr⟩
  exact ⟨i, n, hi, hn, hr⟩

def Tasks.setFd (t : Tasks) (o fd : Nat) (d : RuntimeFd) : Tasks :=
  t.modify o fun p => { p with fds := update p.fds fd d }

theorem setFd_live (d : RuntimeFd) : Live (t.setFd o fd d) i ↔ Live t i := by
  unfold Live Tasks.setFd
  rw [Tasks.modify_procs]
  split
  case isTrue h => rw [h]
  case isFalse => rfl

theorem setFd_fdOwner (d : RuntimeFd) (i : Nat) : (t.setFd o fd d).fdOwner i = t.fdOwner i := by
  unfold Tasks.fdOwner Tasks.setFd
  rw [Tasks.modify_procs]
  split
  case isTrue h => rw [h]
  case isFalse => rfl

theorem setFd_fds (d : RuntimeFd) (i n : Nat) :
    ((t.setFd o fd d).procs i).fds n = if i = o ∧ n = fd then d else (t.procs i).fds n := by
  unfold Tasks.setFd
  rw [Tasks.modify_procs]
  by_cases hi : i = o
  · subst hi
    simp only [if_true, true_and, update_apply]
  · simp only [hi, if_false, false_and]

theorem setFd_refs (d : RuntimeFd) (i n : Nat) :
    ((t.setFd o fd d).procs i).refs n = if i = o ∧ n = fd then d.refers else (t.procs i).refs n := by
  unfold Process.refs
  rw [setFd_fds]
  split <;> rfl

theorem namesBut_setFd (d : RuntimeFd) : namesBut (t.setFd o fd d)
    (oneFd o fd) = namesBut t (oneFd o fd) := by
  ext si
  refine exists_congr fun i => exists_congr fun n => ?_
  rw [setFd_live, setFd_refs]
  refine and_congr_right fun _ => and_congr_right fun _ => and_congr_right fun h => ?_
  rw [if_neg (show ¬ (i = o ∧ n = fd) from h)]

theorem names_setFd (ho : Live t o) (hfd : fd < maxRuntimeFds) (d : RuntimeFd) :
    names (t.setFd o fd d) = namesBut t (oneFd o fd) ∪ {si | d.refers si = true} := by
  rw [names_split ((setFd_live d).mpr ho) hfd, namesBut_setFd, setFd_refs, if_pos ⟨rfl, rfl⟩]

theorem names_setFd_dead (ho : ¬ Live t o) (d : RuntimeFd) : names (t.setFd o fd d) = names t := by
  ext si
  refine exists_congr fun i => exists_congr fun n => ?_
  rw [setFd_live, setFd_refs]
  refine and_congr_right fun hi => and_congr_right fun _ => ?_
  have hne : ¬ (i = o ∧ n = fd) := fun h => ho (h.1 ▸ hi)
  rw [if_neg hne]

theorem setFd_same (hd : d.refers = (t.procs o).refs fd) : SameRefs t (t.setFd o fd d) := by
  intro i
  funext n
  rw [setFd_refs]
  split
  case isTrue h => rw [h.1, h.2, hd]
  case isFalse => rfl

theorem names_fill (ho : Live t o) (hfd : fd < maxRuntimeFds)
    (hfree : ∀ si, (t.procs o).refs fd si = false)
    (d : RuntimeFd) : names (t.setFd o fd d) = names t ∪ {si | d.refers si = true} := by
  have hnone : {si | (t.procs o).refs fd si = true} = (∅ : Set Int) := by
    ext si
    simp [hfree]
  rw [names_setFd ho hfd, names_split ho hfd, hnone, Set.union_empty]

section

variable {σ : Type} (env : Env σ) {self : Nat} {k k' : System σ}

theorem setFd_tasks (k : System σ) (o fd : Nat) (d : RuntimeFd) :
    (k.setFd o fd d).tasks = k.tasks.setFd o fd d := rfl

variable {d : RuntimeFd} {start : Nat}

theorem fd_spec (h : k.fd? self n = some d) :
    n.toNat < maxRuntimeFds ∧ k.fdtable self n.toNat = d ∧ d.used = true := by
  unfold System.fd? at h
  split at h
  · cases h
  case isFalse hlt =>
    split at h
    case isTrue hu =>
      cases h
      exact ⟨by omega, rfl, hu⟩
    case isFalse => cases h

theorem refers_unused (h : d.used = false) (si : Int) : d.refers si = false := by
  unfold RuntimeFd.refers
  rw [h]
  rfl

theorem allocFd_some (h : allocFd self start k = (some n, k')) :
    n < maxRuntimeFds ∧ k' = k.setFd (k.tasks.fdOwner self) n { used := true } ∧
      (k.fdtable self n).used = false := by
  unfold allocFd at h
  split at h
  case h_1 i hi =>
    cases h
    have hm := mem_of_find?_eq_some hi
    have hs := find?_some hi
    simp only [Bool.and_eq_true, Bool.not_eq_true'] at hs
    exact ⟨mem_range.mp hm, rfl, hs.2⟩
  case h_2 => cases h

theorem allocFd_none (h : allocFd self start k = (none, k')) : k' = k := by
  unfold allocFd at h
  split at h
  · cases h
  · cases h
    rfl

theorem allocFd_fst (start : Nat) (socks : Nat → UnixSocket) :
    (allocFd self start { k with socks := socks }).1 = (allocFd self start k).1 := by
  unfold allocFd System.fdtable
  dsimp only
  split <;> rfl

theorem names_taken (r : Option Nat) (h : allocFd self start k = (r, k')) :
    names k'.tasks = names k.tasks ∧ k'.socks = k.socks ∧ k'.tasks.fdOwner self = k.tasks.fdOwner self ∧
      ∀ i, Live k'.tasks i ↔ Live k.tasks i := by
  cases r with
  | none =>
    rw [allocFd_none h]
    exact ⟨rfl, rfl, rfl, fun _ => Iff.rfl⟩
  | some n =>
    obtain ⟨hn, rfl, hfree⟩ := allocFd_some h
    refine ⟨names_congr (fun _ => setFd_live _) (setFd_same ?_), rfl, setFd_fdOwner _ _,
      fun _ => setFd_live _⟩
    exact funext fun si => (refers_unused hfree si).symm

theorem names_place (h : allocFd self start k = (some n, k'))
    (ho : Live k.tasks (k.tasks.fdOwner self)) (d : RuntimeFd) :
    names (k'.tasks.setFd (k'.tasks.fdOwner self) n d) = names k.tasks ∪ {si | d.refers si = true} := by
  obtain ⟨hnames, _, howner, hlive⟩ := names_taken _ h
  obtain ⟨hn, rfl, hfree⟩ := allocFd_some h
  rw [howner, ← hnames]
  refine names_fill ((hlive _).mpr ho) hn (fun si => ?_) d
  rw [setFd_tasks, setFd_refs, if_pos ⟨rfl, rfl⟩]
  rfl

theorem names_pair (h : allocFd self 0 k = (some n, k'))
    (h' : allocFd self 0 k' = (some m, k'')) (ho : Live k.tasks (k.tasks.fdOwner self))
      (d e : RuntimeFd) :
    names ((k''.tasks.setFd (k.tasks.fdOwner self) n d).setFd (k.tasks.fdOwner self) m e) =
      names k.tasks ∪ {si | d.refers si = true} ∪ {si | e.refers si = true} := by
  obtain ⟨hnames, _, howner, hlive⟩ := names_taken _ h
  obtain ⟨hnames', _, howner', hlive'⟩ := names_taken _ h'
  obtain ⟨hn, hk, hfree⟩ := allocFd_some h
  obtain ⟨hm, hk', hfree'⟩ := allocFd_some h'
  have hne : n ≠ m := by
    rintro rfl
    unfold System.fdtable at hfree'
    rw [howner, hk, setFd_tasks, setFd_fds, if_pos ⟨rfl, rfl⟩] at hfree'
    cases hfree'
  have ho'' : Live k''.tasks (k.tasks.fdOwner self) := (hlive' _).mpr ((hlive _).mpr ho)
  have hat : ∀ x, x = n ∨ x = m → ∀ si, (k''.tasks.procs (k.tasks.fdOwner self)).refs x si = false := by
    intro x hx si
    rw [hk', setFd_tasks, howner, setFd_refs]
    split
    · rfl
    case isFalse hxm =>
      have hxn : x = n := hx.resolve_right fun h0 => hxm ⟨rfl, h0⟩
      rw [hk, setFd_tasks, setFd_refs, if_pos ⟨rfl, hxn⟩]
      rfl
  rw [names_fill ((setFd_live d).mpr ho'') hm, names_fill ho'' hn (hat n (.inl rfl)), hnames', hnames]
  intro si
  rw [setFd_refs, if_neg fun h0 => hne h0.2.symm]
  exact hat m (.inr rfl) si

theorem names_dup (h : allocFd self start k = (some n, k')) (hm : m < maxRuntimeFds)
    (hd : d.refers = (k.fdtable self m).refers) :
    names (k'.setFd (k'.tasks.fdOwner self) n d).tasks = names k.tasks := by
  rw [setFd_tasks]
  by_cases ho : Live k.tasks (k.tasks.fdOwner self)
  · rw [names_place h ho]
    refine Set.union_eq_self_of_subset_right fun si hsi => ?_
    rw [Set.mem_ofPred_eq, hd] at hsi
    exact ⟨_, m, ho, hm, hsi⟩
  · obtain ⟨hn, ht, howner, hl⟩ := names_taken _ h
    rw [names_setFd_dead (by rwa [hl, howner]), hn]

end

def usedKeys (κ : Nat → SockKey) : Set Int := {i | 0 ≤ i ∧ (κ i.toNat).used = true}

def waitKeys (κ : Nat → SockKey) (i : Int) : List Int :=
  if 0 ≤ i ∧ (κ i.toNat).used = true ∧ (κ i.toNat).listener = true then (κ i.toNat).pending else []

def books (N : Set Int) (κ : Nat → SockKey) : Books Int :=
  { named := N, used := usedKeys κ, queue := waitKeys κ }

def IdleKeys (κ : Nat → SockKey) : Prop := ∀ i, (κ i).listener = false → (κ i).pending = []

structure Tended (N : Set Int) (κ : Nat → SockKey) : Prop where
  sound : (books N κ).Sound
  idle : IdleKeys κ

variable {i j : Int} {socks : Nat → UnixSocket}

theorem toNat_ne (hi : 0 ≤ i) (hj : 0 ≤ j) (h : i ≠ j) : i.toNat ≠ j.toNat := by
  intro h0
  omega

theorem usedKeys_update (hj : 0 ≤ j) (u : SockKey) : usedKeys (update κ j.toNat u) =
    if u.used = true then insert j (usedKeys κ) else usedKeys κ \ {j} := by
  ext i
  have hi : i ∈ usedKeys (update κ j.toNat u) ↔ 0 ≤ i ∧ if i = j then u.used =
      true else (κ i.toNat).used = true := by
    refine and_congr_right fun hi => ?_
    rw [update_apply]
    by_cases hij : i = j
    · rw [if_pos hij, if_pos (by rw [hij])]
    · rw [if_neg hij, if_neg (toNat_ne hi hj hij)]
  rw [hi]
  by_cases hij : i = j
  · subst hij
    cases hu : u.used <;> simp [hj]
  · cases hu : u.used <;> simp [hij, usedKeys]

theorem waitKeys_update (hj : 0 ≤ j) (u : SockKey) (i : Int) : waitKeys (update κ j.toNat u) i =
    if i = j then if u.used = true ∧ u.listener = true then u.pending else [] else waitKeys κ i := by
  unfold waitKeys
  by_cases hij : i = j
  · subst hij
    simp only [update_self, hj, true_and, if_true]
  by_cases hi : 0 ≤ i
  · simp only [update_of_ne (toNat_ne hi hj hij), hij, if_false]
  · simp only [hi, hij, false_and, if_false]

theorem waitKeys_unused (h : j ∉ usedKeys κ) : waitKeys κ j = [] :=
  if_neg fun h0 => h ⟨h0.1, h0.2.1⟩

theorem IdleKeys.update (h : IdleKeys κ) (hu : u.listener = false → u.pending = []) :
    IdleKeys (update κ n u) := by
  intro i
  rw [update_apply]
  split
  · exact hu
  · exact h i

structure SameUse (κ κ' : Nat → SockKey) : Prop where
  used : usedKeys κ' = usedKeys κ
  wait : waitKeys κ' = waitKeys κ
  idle : IdleKeys κ → IdleKeys κ'

theorem SameUse.of_eq (h : κ' = κ) : SameUse κ κ' := h ▸ ⟨rfl, rfl, id⟩

theorem SameUse.trans (h : SameUse κ κ') (h' : SameUse κ' κ'') : SameUse κ κ'' :=
  ⟨h'.used.trans h.used, h'.wait.trans h.wait, fun h0 => h'.idle (h.idle h0)⟩

theorem Tended.of_use (h : Tended N κ) (hk : SameUse κ κ') : Tended N κ' := by
  have hb : books N κ' = books N κ := by
    unfold books
    rw [hk.used, hk.wait]
  exact ⟨hb ▸ h.sound, hk.idle h.idle⟩

theorem SameUse.clear (hj : 0 ≤ j) (hu : j ∉ usedKeys κ) : SameUse κ (update κ j.toNat {}) := by
  refine ⟨?_, ?_, fun h => h.update fun _ => rfl⟩
  · rw [usedKeys_update hj]
    exact Set.sdiff_singleton_eq_self hu
  funext i
  rw [waitKeys_update hj]
  split
  case isTrue hi => exact (hi ▸ waitKeys_unused hu).symm
  case isFalse => rfl

theorem Tended.create (h : Tended N κ) (hj : 0 ≤ j) (hu : j ∉ usedKeys κ) :
    Tended (N ∪ {j}) (update κ j.toNat { used := true }) := by
  have hb : books (N ∪ {j}) (update κ j.toNat { used := true }) = (books N κ).create j := by
    unfold books Books.create
    rw [usedKeys_update hj, if_pos rfl, Set.union_singleton]
    congr 1
    funext i
    rw [waitKeys_update hj]
    split
    case isTrue hi => exact (hi ▸ waitKeys_unused hu).symm
    case isFalse => rfl
  exact ⟨hb ▸ h.sound.create hu, h.idle.update fun _ => rfl⟩

theorem Tended.release (h : Tended N κ) (hj : j ∈ N) (hq : waitKeys κ j = []) :
    Tended (N \ {j}) (update κ j.toNat {}) := by
  have hpos : 0 ≤ j := (h.sound.named_used hj).1
  have hb : books (N \ {j}) (update κ j.toNat {}) = (books N κ).release j := by
    unfold books Books.release
    rw [usedKeys_update hpos]
    congr 1
    funext i
    rw [waitKeys_update hpos]
    split
    case isTrue hi => exact (hi ▸ hq).symm
    case isFalse => rfl
  exact ⟨hb ▸ h.sound.release hj hq, h.idle.update fun _ => rfl⟩

theorem Tended.enqueue (h : Tended N κ) (hj : 0 ≤ j) (hu : j ∉ usedKeys κ) (hl : l ∈ usedKeys κ)
    (hlisten : (κ l.toNat).listener = true) :
    Tended N (update (update κ j.toNat { used := true }) l.toNat
      { κ l.toNat with pending := (κ l.toNat).pending ++ [j] }) := by
  have hlj : l ≠ j := fun h0 => hu (h0 ▸ hl)
  have hb : books N (update (update κ j.toNat { used := true }) l.toNat
      { κ l.toNat with pending := (κ l.toNat).pending ++ [j] }) = (books N κ).enqueue l j := by
    have hql : waitKeys κ l = (κ l.toNat).pending := if_pos ⟨hl.1, hl.2, hlisten⟩
    unfold books Books.enqueue
    rw [usedKeys_update hl.1, if_pos hl.2, usedKeys_update hj, if_pos rfl,
      Set.insert_eq_of_mem (Set.mem_insert_of_mem j hl)]
    congr 1
    funext i
    rw [waitKeys_update hl.1, waitKeys_update hj]
    split
    · rw [if_pos ⟨hl.2, hlisten⟩]
      exact congrArg (· ++ [j]) hql.symm
    split
    case isTrue hi => exact (hi ▸ waitKeys_unused hu).symm
    case isFalse => rfl
  refine ⟨hb ▸ h.sound.enqueue hu hl, (h.idle.update fun _ => rfl).update fun h0 => ?_⟩
  have h1 : (κ l.toNat).listener = false := h0
  rw [hlisten] at h1
  cases h1

theorem Tended.dequeue (h : Tended N κ) (hl : l ∈ usedKeys κ)
    (hlisten : (κ l.toNat).listener = true) (hp : (κ l.toNat).pending = j :: rest) :
    Tended (N ∪ {j}) (update κ l.toNat { κ l.toNat with pending := rest }) ∧ j ∈ usedKeys κ := by
  have hql : waitKeys κ l = j :: rest := (if_pos ⟨hl.1, hl.2, hlisten⟩).trans hp
  have hb : books (N ∪ {j}) (update κ l.toNat { κ l.toNat with pending := rest }) =
      (books N κ).dequeue l j := by
    unfold books Books.dequeue
    rw [usedKeys_update hl.1, if_pos hl.2, Set.insert_eq_of_mem hl, Set.union_singleton]
    congr 1
    funext i
    rw [waitKeys_update hl.1]
    split
    · rw [if_pos ⟨hl.2, hlisten⟩]
      exact (congrArg List.tail hql).symm
    · rfl
  refine ⟨⟨hb ▸ h.sound.dequeue ?_, h.idle.update fun h0 => ?_⟩, ?_⟩
  · exact congrArg List.head? hql
  · have h1 : (κ l.toNat).listener = false := h0
    rw [hlisten] at h1
    cases h1
  exact h.sound.queued_used (l := l) (by
    show j ∈ waitKeys κ l
    rw [hql]
    exact mem_cons_self)

theorem Tended.listen {l : Int} (h : Tended N κ) (hl : 0 ≤ l) :
    Tended N (update κ l.toNat { κ l.toNat with listener := true }) := by
  refine h.of_use ⟨?_, ?_, fun h0 => h0.update nofun⟩
  · rw [usedKeys_update hl]
    dsimp only
    split
    case isTrue hu => exact Set.insert_eq_of_mem ⟨hl, hu⟩
    case isFalse hu => exact Set.sdiff_singleton_eq_self fun h0 => hu h0.2
  · funext i
    rw [waitKeys_update hl]
    split
    case isTrue hi =>
      subst hi
      unfold waitKeys
      cases hb : (κ i.toNat).listener with
      | true => simp [hl]
      | false => simp [h.idle _ hb]
    case isFalse => rfl

theorem keysOf_alloc (h : 0 ≤ (socketObjAlloc socks).1) : keysOf (socketObjAlloc socks).2 =
        update (keysOf socks) (socketObjAlloc socks).1.toNat { used := true } ∧
      (socketObjAlloc socks).1 ∉ usedKeys (keysOf socks) ∧ (socketObjAlloc socks).1 < socketCount := by
  unfold socketObjAlloc at h ⊢
  split at h
  case h_1 i hi =>
    obtain ⟨hlt, hfree⟩ := freeSocket_spec hi
    refine ⟨keysOf_set _ _ _, fun hu => ?_, by dsimp only; omega⟩
    have hused : (socks i).used = true := hu.2
    rw [hfree] at hused
    cases hused
  case h_2 =>
    have : (0 : Int) ≤ -1 := h
    omega

theorem alloc_fail (h : (socketObjAlloc socks).1 < 0) : (socketObjAlloc socks).2 = socks := by
  unfold socketObjAlloc at h ⊢
  split at h
  case h_1 i hi =>
    have : (i : Int) < 0 := h
    omega
  case h_2 => rfl

theorem keysOf_free (socks : Nat → UnixSocket) (hj : 0 ≤ j) (hlt : j < socketCount) :
    keysOf (socketFree j socks) = update (keysOf socks) j.toNat {} := by
  unfold socketFree
  rw [if_neg (by omega)]
  dsimp only
  rw [keysOf_set]
  congr 1
  split
  · exact keysOf_edit _ _ rfl
  · rfl

theorem socketFd_refers (hj : 0 ≤ j) (hlt : j < socketCount) (flags : BitVec 32) :
    {si | (socketFd j flags).refers si = true} = {j} := by
  ext si
  have hobj : (socketFd j flags).socket = j := by
    unfold socketCount at hlt
    simp only [socketFd, RuntimeFd.socket, BitVec.toInt_ofInt]
    rw [Int.bmod_eq_of_le] <;> omega
  simp only [Set.mem_ofPred_eq, Set.mem_singleton_iff, RuntimeFd.refers, hobj, Bool.and_eq_true,
    decide_eq_true_eq]
  exact ⟨fun h => h.2.symm, fun h => ⟨⟨rfl, rfl⟩, h.symm⟩⟩

theorem InTable.range (ht : InTable socks) (hi : i ∈ usedKeys (keysOf socks)) :
    0 ≤ i ∧ i < socketCount := by
  have := ht i.toNat hi.2
  have := hi.1
  omega

end BlockOS.Kernel
