import BlockOS.Kernel.Ids
import BlockOS.Kernel.CallParts

/-! Sockets and their peers. -/

namespace BlockOS.Kernel
open Words Runs Function

def Symmetric (socks : Nat → UnixSocket) : Prop :=
  ∀ i : Nat, (socks i).used = true → 0 ≤ (socks i).peer →
    (sockAt socks (socks i).peer).used = true ∧ (sockAt socks (socks i).peer).peer = i

variable {socks socks' : Nat → UnixSocket} {si li : Int}

theorem Symmetric.congr (h : Symmetric socks)
    (heq : ∀ i, (socks' i).used = (socks i).used ∧ (socks' i).peer = (socks i).peer) : Symmetric
      socks' := by
  intro i hu hp
  unfold sockAt
  rw [(heq i).1] at hu
  rw [(heq i).2] at hp ⊢
  rw [(heq _).1, (heq _).2]
  exact h i hu hp

theorem symmetric_edit_iff (j : Int) (hused : u.used = (sockAt socks j).used)
    (hpeer : u.peer = (sockAt socks j).peer) : Symmetric (setSock socks j u) ↔ Symmetric socks := by
  have hsame : ∀ i, (setSock socks j u i).used = (socks i).used ∧ (setSock socks j u i).peer =
      (socks i).peer := by
    intro i
    unfold setSock
    rw [update_apply]
    split
    case isTrue hi => exact ⟨hi ▸ hused, hi ▸ hpeer⟩
    case isFalse => exact ⟨rfl, rfl⟩
  exact ⟨fun h => h.congr fun i => ⟨(hsame i).1.symm, (hsame i).2.symm⟩, fun h => h.congr hsame⟩

theorem Symmetric.peer_ne (h : Symmetric socks) (hi : (socks i).used = true)
    (hp : 0 ≤ (socks i).peer) (hj : (socks j).used = false) : (socks i).peer.toNat ≠ j := by
  intro h0
  have hu := (h i hi hp).1
  unfold sockAt at hu
  rw [h0, hj] at hu
  cases hu

theorem Symmetric.fill (h : Symmetric socks) (hj : (socks j).used = false)
    (hu : u.used = true → u.peer < 0) : Symmetric (update socks j u) := by
  intro i hi hp
  by_cases hij : i = j
  · subst hij
    rw [update_self] at hi hp
    exact absurd hp (by have := hu hi; omega)
  rw [update_of_ne hij] at hi hp ⊢
  unfold sockAt
  rw [update_of_ne (h.peer_ne hi hp hj)]
  exact h i hi hp

theorem freeSocket_spec (h : freeSocket? socks = some j) : j < socketCount ∧
    (socks j).used = false := by
  have hm := List.mem_of_find?_eq_some h
  have hs := List.find?_some (p := fun i => !(socks i).used) h
  exact ⟨List.mem_range.mp hm, by simpa using hs⟩

theorem Symmetric.alloc (h : Symmetric socks) : Symmetric (socketObjAlloc socks).2 := by
  unfold socketObjAlloc
  split
  case h_1 j hj => exact h.fill (freeSocket_spec hj).2 fun _ => by decide
  case h_2 => exact h

def InTable (socks : Nat → UnixSocket) : Prop := ∀ i : Nat, (socks i).used = true → i < socketCount

theorem Symmetric.free (h : Symmetric socks) (ht : InTable socks) (j : Int) :
    Symmetric (socketFree j socks) := by
  unfold socketFree
  split
  · exact h
  case isFalse hj =>
    dsimp only
    generalize hpe : (sockAt socks j).peer = pe
    intro i hi hp
    have hij : i ≠ j.toNat := by
      rintro rfl
      simp [setSock] at hi
    unfold setSock at hi hp ⊢
    rw [update_of_ne hij] at hi hp ⊢
    by_cases hc : 0 ≤ pe ∧ pe < socketCount ∧ (sockAt socks pe).used = true ∧ (sockAt socks pe).peer = j
    · simp only [if_pos hc] at hi hp ⊢
      -- the peer of the socket that is freed has no peer now
      have hipe : i ≠ pe.toNat := by
        rintro rfl
        rw [update_self] at hp
        have : (0 : Int) ≤ -1 := hp
        omega
      rw [update_of_ne hipe] at hi hp ⊢
      obtain ⟨hu, hback⟩ := h i hi hp
      have hm1 : (socks i).peer.toNat ≠ pe.toNat := by
        intro h0
        unfold sockAt at hback hc
        rw [h0, hc.2.2.2] at hback
        omega
      have hm2 : (socks i).peer.toNat ≠ j.toNat := by
        intro h0
        unfold sockAt at hback hpe
        rw [h0, hpe] at hback
        omega
      unfold sockAt at hu hback ⊢
      rw [update_of_ne hm2, update_of_ne hm1]
      exact ⟨hu, hback⟩
    · simp only [if_neg hc] at hi hp ⊢
      obtain ⟨hu, hback⟩ := h i hi hp
      have hm : (socks i).peer.toNat ≠ j.toNat := by
        intro h0
        have hpi : pe = i := by
          unfold sockAt at hback hpe
          rw [h0, hpe] at hback
          exact hback
        have hlt := ht i hi
        refine hc ⟨by omega, by omega, ?_, ?_⟩
        · rw [hpi]
          exact hi
        rw [hpi]
        unfold sockAt
        rw [Int.toNat_natCast]
        omega
      unfold sockAt at hu hback ⊢
      rw [update_of_ne hm]
      exact ⟨hu, hback⟩

theorem InTable.set (h : InTable socks) (j : Int)
    (hu : u.used = true → (sockAt socks j).used = true) : InTable (setSock socks j u) := by
  intro i hi
  unfold setSock at hi
  by_cases hij : i = j.toNat
  · subst hij
    rw [update_self] at hi
    exact h _ (hu hi)
  · rw [update_of_ne hij] at hi
    exact h i hi

theorem InTable.alloc (h : InTable socks) : InTable (socketObjAlloc socks).2 := by
  unfold socketObjAlloc
  split
  case h_1 j hj =>
    intro i hi
    by_cases hij : i = j
    · rw [hij]
      exact (freeSocket_spec hj).1
    · have hsame : setSock socks j { used := true, peer := -1 } i = socks i := update_of_ne hij ..
      exact h i (hsame ▸ hi)
  case h_2 => exact h

theorem InTable.free (h : InTable socks) (j : Int) : InTable (socketFree j socks) := by
  unfold socketFree
  split
  · exact h
  dsimp only
  refine InTable.set ?_ j nofun
  split
  · exact h.set _ fun h0 => h0
  · exact h

def Lone (socks : Nat → UnixSocket) (i : Int) : Prop :=
  (sockAt socks i).used = true ∧ ((sockAt socks i).peer < 0 ∨ (sockAt socks i).peer = i)

structure Linked (a b : Int) (socks socks' : Nat → UnixSocket) : Prop where
  used : ∀ i, (socks' i).used = (socks i).used
  peer : ∀ i, (socks' i).peer = if i = b.toNat then a else if i = a.toNat then b else (socks i).peer

theorem Linked.of_set (hu : u.used = (sockAt socks a).used ∧ u.peer = b)
    (hv : v.used = (sockAt (setSock socks a u) b).used ∧ v.peer = a) :
    Linked a b socks (setSock (setSock socks a u) b v) := by
  have hua : ∀ i, (setSock socks a u i).used = (socks i).used := by
    intro i
    unfold setSock
    rw [update_apply]
    split
    case isTrue h => exact h ▸ hu.1
    case isFalse => rfl
  refine ⟨fun i => ?_, fun i => ?_⟩
  · rw [← hua i]
    unfold setSock
    rw [update_apply]
    split
    case isTrue h => exact h ▸ hv.1
    case isFalse => rfl
  · unfold setSock
    rw [update_apply]
    split
    · exact hv.2
    rw [update_apply]
    split
    · exact hu.2
    · rfl

theorem linked_set (g : UnixSocket → UnixSocket) (hg : ∀ u, (g u).used = u.used) (a b : Int)
    (socks : Nat → UnixSocket) :
    Linked a b socks (setSock (setSock socks a { g (sockAt socks a) with peer := b }) b
      { g (sockAt (setSock socks a { g (sockAt socks a) with peer := b }) b) with peer := a }) :=
  Linked.of_set ⟨hg _, rfl⟩ ⟨hg _, rfl⟩

theorem Linked.inTable (hl : Linked a b socks socks') (h : InTable socks) : InTable socks' :=
  fun i hi => h i (hl.used i ▸ hi)

theorem Linked.symmetric_iff (hl : Linked a b socks socks') (h : Symmetric socks)
    (ha : 0 ≤ a) (hb : 0 ≤ b) (hub : (sockAt socks b).used = true) (hpb : (sockAt socks b).peer < 0) :
    Symmetric socks' ↔ Lone socks a := by
  have hbt : ((b.toNat : Nat) : Int) = b := Int.toNat_of_nonneg hb
  have hat : ((a.toNat : Nat) : Int) = a := Int.toNat_of_nonneg ha
  constructor
  · intro hs
    have hua : (sockAt socks a).used = true := by
      have h0 := (hs b.toNat (by rw [hl.used]; exact hub) (by rw [hl.peer, if_pos rfl]; exact ha)).1
      rw [hl.peer, if_pos rfl] at h0
      exact (hl.used _).symm.trans h0
    refine ⟨hua, ?_⟩
    by_contra hne
    -- the old peer of `a` still has `a` for its peer
    have hpos : 0 ≤ (sockAt socks a).peer := by omega
    obtain ⟨huo, hpo⟩ := h a.toNat hua hpos
    have hoa : (sockAt socks a).peer.toNat ≠ a.toNat := by
      intro h0
      omega
    have hob : (sockAt socks a).peer.toNat ≠ b.toNat := by
      intro h0
      have h1 : (sockAt socks (sockAt socks a).peer).peer < 0 := by
        unfold sockAt at h0 hpb ⊢
        rw [h0]
        exact hpb
      have h2 : (sockAt socks (sockAt socks a).peer).peer = (a.toNat : Int) := hpo
      omega
    have hpeer : (socks' (sockAt socks a).peer.toNat).peer = a := by
      rw [hl.peer, if_neg hob, if_neg hoa]
      exact hpo.trans hat
    have h0 := (hs (sockAt socks a).peer.toNat (by rw [hl.used]; exact huo) (by rw [hpeer]; exact ha)).2
    rw [hpeer] at h0
    have hab : a.toNat ≠ b.toNat := by
      intro h1
      unfold sockAt at hpb hpos
      rw [h1] at hpos
      omega
    have hnew : (sockAt socks' a).peer = b := (hl.peer _).trans ((if_neg hab).trans (if_pos rfl))
    omega
  · rintro ⟨hua, hpa⟩ i hi hp
    rw [hl.used] at hi
    unfold sockAt at hub hpb hua hpa ⊢
    rw [hl.peer] at hp ⊢
    split
    case isTrue hib =>
      rw [hl.used, hl.peer]
      refine ⟨hua, ?_⟩
      split
      case isTrue => omega
      case isFalse => rw [if_pos rfl]; omega
    case isFalse hib =>
      rw [if_neg hib] at hp
      split
      case isTrue hia =>
        rw [hl.used, hl.peer, if_pos rfl]
        exact ⟨hub, by omega⟩
      case isFalse hia =>
        rw [if_neg hia] at hp
        obtain ⟨hu, hback⟩ := h i hi hp
        unfold sockAt at hu hback
        have hmb : (socks i).peer.toNat ≠ b.toNat := by
          intro h0
          rw [h0] at hback
          omega
        have hma : (socks i).peer.toNat ≠ a.toNat := by
          intro h0
          rw [h0] at hback
          omega
        rw [hl.used, hl.peer, if_neg hmb, if_neg hma]
        exact ⟨hu, hback⟩

theorem alloc_spec (h : 0 ≤ (socketObjAlloc socks).1) :
    sockAt (socketObjAlloc socks).2 (socketObjAlloc socks).1 = { used := true, peer := -1 } := by
  unfold socketObjAlloc at h ⊢
  split at h
  case h_1 j hj =>
    dsimp only
    exact update_self ..
  case h_2 =>
    have : (0 : Int) ≤ -1 := h
    omega

theorem alloc_other (hi : (socks si.toNat).used = true) : sockAt (socketObjAlloc socks).2 si =
    sockAt socks si := by
  unfold socketObjAlloc
  split
  case h_1 j hj =>
    refine update_of_ne ?_ ..
    intro h0
    have hfree := (freeSocket_spec hj).2
    rw [Int.toNat_natCast] at h0
    rw [← h0, hi] at hfree
    cases hfree
  case h_2 => rfl

theorem allocPair_cases {P : (Nat → UnixSocket) → Prop}
    (halloc : ∀ socks, P socks → P (socketObjAlloc socks).2) (hfree : ∀ socks i, P socks →
      P (socketFree i socks))
    (hlink : ∀ socks socks' a b, P socks → 0 ≤ a → 0 ≤ b → Linked a b socks socks' → Lone socks a →
      (sockAt socks b).used = true → (sockAt socks b).peer < 0 → P socks') (h : P socks) :
    P (allocPair socks).2 := by
  unfold allocPair
  have ha := @alloc_spec socks
  have h1 := halloc _ h
  generalize socketObjAlloc socks = a at ha h1
  have hb := @alloc_spec a.2
  have hkept := @alloc_other a.2 a.1
  have h2 := halloc _ h1
  dsimp only
  generalize socketObjAlloc a.2 = b at hb hkept h2
  split
  · have h3 : P (if a.1 ≥ 0 then socketFree a.1 b.2 else b.2) := by
      split
      · exact hfree _ _ h2
      · exact h2
    dsimp only
    split
    · exact hfree _ _ h3
    · exact h3
  case isFalse hok =>
    have hpa : 0 ≤ a.1 := by omega
    have hpb : 0 ≤ b.1 := by omega
    have hua : (sockAt a.2 a.1).used = true := by rw [ha hpa]
    refine hlink b.2 _ a.1 b.1 h2 hpa hpb (linked_set id (fun _ => rfl) a.1 b.1 b.2) ?_ ?_ ?_
    · unfold Lone
      rw [hkept hua, ha hpa]
      exact ⟨rfl, .inl (by decide)⟩
    · rw [hb hpb]
    · rw [hb hpb]
      decide

theorem SockStep.inTable (hs : SockStep socks socks') (h : InTable socks) : InTable socks' := by
  cases hs with
  | edit i u hused _ => exact h.set i fun h0 => hused ▸ h0
  | alloc => exact h.alloc
  | free i => exact h.free i
  | pair =>
    exact allocPair_cases (fun _ h => h.alloc) (fun _ i h => h.free i)
      (fun _ _ _ _ h _ _ hl _ _ _ => hl.inTable h) h

theorem Parts.inTable {σ : Type} {k k' : System σ} (h : Parts k k') (ht : InTable k.socks) :
    InTable k'.socks := by
  refine h.keeps (P := fun k => InTable k.socks) ?_ ht
  intro k k' hp hk
  cases hp with
  | tasks | mem | futexes => exact hk
  | socks hs => exact hs.inTable hk

theorem SockStep.symmetric (hs : SockStep socks socks') (ht : InTable socks) (h : Symmetric socks) :
    Symmetric socks' := by
  cases hs with
  | edit i u hused hpeer => exact (symmetric_edit_iff i hused hpeer).mpr h
  | alloc => exact h.alloc
  | free i => exact h.free ht i
  | pair =>
    refine (allocPair_cases (P := fun socks => InTable socks ∧ Symmetric socks) ?_ ?_ ?_ ⟨ht, h⟩).2
    · exact fun _ h => ⟨h.1.alloc, h.2.alloc⟩
    · exact fun _ i h => ⟨h.1.free i, h.2.free h.1 i⟩
    · exact fun _ _ _ _ h ha hb hl hlone hu hp =>
        ⟨hl.inTable h.1, (hl.symmetric_iff h.2 ha hb hu hp).mpr hlone⟩

def UnixSocket.connect (u : UnixSocket) : UnixSocket := { u with connected := true }

theorem connectTo_inTable (h : InTable socks) : InTable (connectTo si li socks).2 := by
  unfold connectTo
  dsimp only
  split
  · exact h.alloc
  · exact ((linked_set UnixSocket.connect (fun _ => rfl) si _ _).inTable h.alloc).set _ fun h0 => h0

theorem connectTo_symmetric_iff (h : Symmetric socks) (hsi : 0 ≤ si) :
    Symmetric (connectTo si li socks).2 ↔
      ((connectTo si li socks).1 = true → Lone (socketObjAlloc socks).2 si) := by
  unfold connectTo
  dsimp only
  split
  · exact iff_of_true h.alloc nofun
  case isFalse hok =>
    have hp : 0 ≤ (socketObjAlloc socks).1 := by omega
    have hnew := alloc_spec hp
    have hl := linked_set UnixSocket.connect (fun _ => rfl) si (socketObjAlloc socks).1
      (socketObjAlloc socks).2
    have hiff := hl.symmetric_iff h.alloc hsi hp (by rw [hnew]) (by rw [hnew]; decide)
    refine (symmetric_edit_iff li ?_ ?_).trans
      (Iff.trans ?_ (hiff.trans ⟨fun h0 _ => h0, fun h0 => h0 rfl⟩))
    · rfl
    · rfl
    · rfl

section

variable {σ : Type} (env : Env σ) {self : Nat} {f : SyscallFrame} {k : System σ}

def connectArgs (self : Nat) (f : SyscallFrame) (k : System σ) : Option (Int × Nat) :=
  match k.socketOf self f.rdi with
  | none => none
  | some si =>
    if k.userRange env f.rsi f.rdx.toNat false = false ∨ f.rdx < 3 then none
    else
      match unixKeyFromAddr env f.rsi f.rdx.toNat k with
      | none => none
      | some key => (listenerAt k.socks key).map (si, ·)

theorem doConnect_socks : (doConnect env self f k).2.socks =
    match connectArgs env self f k with
    | some (si, li) => (connectTo si li k.socks).2
    | none => k.socks := by
  unfold doConnect connectArgs
  cases k.socketOf self f.rdi with
  | none => rfl
  | some si =>
    dsimp only
    split
    · rfl
    cases unixKeyFromAddr env f.rsi f.rdx.toNat k with
    | none => rfl
    | some key => cases h : listenerAt k.socks key <;> simp only [h, Option.map_none, Option.map_some]

theorem connectArgs_nonneg (h : connectArgs env self f k = some r) : 0 ≤ r.1 := by
  unfold connectArgs at h
  split at h
  · cases h
  case h_2 si hsi =>
    have hpos : 0 ≤ si := by
      unfold System.socketOf at hsi
      split at hsi
      · cases hsi
      split at hsi
      case isTrue hd => exact Option.some.inj hsi ▸ hd.2
      case isFalse => cases hsi
    split at h
    · cases h
    split at h
    · cases h
    · obtain ⟨li, -, rfl⟩ := Option.map_eq_some_iff.mp h
      exact hpos

def ConnectsLone (self : Nat) (f : SyscallFrame) (k : System σ) : Prop :=
  ∀ si li, connectArgs env self f k = some (si, li) → (connectTo si li k.socks).1 = true →
    Lone (socketObjAlloc k.socks).2 si

theorem doConnect_symmetric_iff (h : Symmetric k.socks) :
    Symmetric (doConnect env self f k).2.socks ↔ ConnectsLone env self f k := by
  rw [doConnect_socks]
  unfold ConnectsLone
  cases hc : connectArgs env self f k with
  | none => exact iff_of_true h nofun
  | some r =>
    refine (connectTo_symmetric_iff h (connectArgs_nonneg env hc)).trans ⟨fun h0 si li hr => ?_,
      fun h0 => ?_⟩
    · cases hr
      exact h0
    · exact h0 r.1 r.2 rfl

theorem doConnect_inTable (h : InTable k.socks) : InTable (doConnect env self f k).2.socks := by
  rw [doConnect_socks]
  split
  · exact connectTo_inTable h
  · exact h

def PeerSafe (k : System σ) : KernelOp σ → Prop
  | .call f => ∀ self, k.tasks.current = some self → decode f.rax = .connect →
      ConnectsLone env self f (freePending env self k)
  | _ => True

theorem handle_eq_connect (hd : decode f.rax = .connect) :
    handle env self f k = doConnect env self f k := by
  unfold handle
  rw [hd]

theorem handle_eq_wait4 (hd : decode f.rax = .wait4) : handle env self f k = doWait4 env self f k := by
  unfold handle
  rw [hd]

theorem handle_socks {P : (Nat → UnixSocket) → Prop} (hP : ∀ s s', SockStep s s' → P s → P s')
    (hd : decode f.rax ≠ .connect) (h : P k.socks) : P (handle env self f k).2.socks := by
  by_cases hw : decode f.rax = .wait4
  · rwa [handle_eq_wait4 env hw, doWait4_socks]
  refine (handle_parts env hd hw).keeps (P := fun k => P k.socks) ?_ h
  intro k k' hp hk
  cases hp with
  | tasks | mem | futexes => exact hk
  | socks hs => exact hP _ _ hs hk

theorem handle_inTable (h : InTable k.socks) : InTable (handle env self f k).2.socks := by
  by_cases hd : decode f.rax = .connect
  · rw [handle_eq_connect env hd]
    exact doConnect_inTable env h
  · exact handle_socks env (fun _ _ hs => hs.inTable) hd h

theorem kernelStep_inTable (h : InTable k.socks) (op : KernelOp σ) :
    InTable (kernelStep env k op).socks := by
  cases op with
  | timer | spawn | start | machine => exact h
  | call f =>
    cases hc : k.tasks.current with
    | none => rwa [kernelStep_call_none env hc]
    | some self =>
      rw [kernelStep_call env hc]
      refine handle_inTable env ?_
      rwa [freePending_socks]

theorem kernelStep_symmetric_iff (ht : InTable k.socks) (h : Symmetric k.socks) (op : KernelOp σ) :
    PeerSafe env k op ↔ Symmetric (kernelStep env k op).socks := by
  cases op with
  | timer | spawn | start | machine => exact iff_of_true trivial h
  | call f =>
    unfold PeerSafe
    cases hc : k.tasks.current with
    | none =>
      rw [kernelStep_call_none env hc]
      exact iff_of_true nofun h
    | some self =>
      rw [kernelStep_call env hc]
      have hs := freePending_socks env self k
      by_cases hd : decode f.rax = .connect
      · rw [handle_eq_connect env hd, doConnect_symmetric_iff env (hs ▸ h)]
        refine ⟨fun h0 => h0 self rfl hd, fun h0 i hi _ => ?_⟩
        cases hi
        exact h0
      · refine iff_of_true (fun i _ h0 => absurd h0 hd) ?_
        refine (handle_socks env (P := fun socks => InTable socks ∧ Symmetric socks) ?_ hd ?_).2
        · exact fun _ _ hs h => ⟨hs.inTable h.1, hs.symmetric h.1 h.2⟩
        · rw [hs]
          exact ⟨ht, h⟩

theorem boot_free (m : σ) (i : Nat) : ((bootSystem m).socks i).used ≠ true := Bool.false_ne_true

theorem symmetric_along_iff (m : σ) (ops : List (KernelOp σ)) :
    Along (kernelStep env) (fun k op => Symmetric (kernelStep env k op).socks) (bootSystem m) ops ↔
      Along (kernelStep env) (PeerSafe env) (bootSystem m) ops := by
  refine (Along.congr (I := fun k => InTable k.socks ∧ Symmetric k.socks) ?_ ?_ ops ?_).symm
  · exact fun k op h => kernelStep_symmetric_iff env h.1 h.2 op
  · exact fun k op h hp =>
      ⟨kernelStep_inTable env h.1 op, (kernelStep_symmetric_iff env h.1 h.2 op).mp hp⟩
  · exact ⟨fun i h => absurd h (boot_free m i), fun i h => absurd h (boot_free m i)⟩

end

def connectTwice : List (KernelOp Unit) :=
  [.spawn (.loaded firstImage), .start 0,
    .call { plainCall 25 with rdi := 1, rsi := 1 }, .call { plainCall 26 with rdi := 3, rdx := 4 },
    .call { plainCall 27 with rdi := 3 }, .call { plainCall 25 with rdi := 1, rsi := 1 },
    .call { plainCall 30 with rdi := 4, rdx := 4 }, .call { plainCall 30 with rdi := 4, rdx := 4 }]

theorem first_peer_orphaned :
    ¬ Symmetric (runFrom (kernelStep flatEnv) (bootSystem ()) connectTwice).socks := by
  have hpeers : ((runFrom (kernelStep flatEnv) (bootSystem ()) connectTwice).socks 2).used = true ∧
      ((runFrom (kernelStep flatEnv) (bootSystem ()) connectTwice).socks 2).peer = 1 ∧
      ((runFrom (kernelStep flatEnv) (bootSystem ()) connectTwice).socks 1).peer = 3 := by
    decide +kernel
  intro h
  generalize runFrom (kernelStep flatEnv) (bootSystem ()) connectTwice = k at h hpeers
  have h2 := (h 2 hpeers.1 (by rw [hpeers.2.1]; decide)).2
  rw [hpeers.2.1] at h2
  exact absurd (h2.symm.trans hpeers.2.2) (by decide)

end BlockOS.Kernel
