import BlockOS.Net.Replies

/-! One connection per four-tuple. -/

namespace BlockOS.Net
open Words Runs List

def Conn.Open (c : Conn) : Prop := c.used = true ∧ c.state ≠ .listen

instance (c : Conn) : Decidable c.Open := inferInstanceAs (Decidable (_ ∧ _))

/-- No two open connections have the same ends. -/
def OneEach (cs : List Conn) : Prop :=
  cs.Pairwise fun c d => c.Open → d.Open → c.ends ≠ d.ends

instance (cs : List Conn) : Decidable (OneEach cs) :=
    inferInstanceAs (Decidable (List.Pairwise _ _))

def opensListener (s : Tcp) (src : IPv4Address) (bytes : List Byte) : Option Ends :=
  match parse s.wire.ip src bytes with
  | none => none
  | some seg =>
    if on seg.flags rst then none
    else
      match s.conns.find? (fun d => d.accepts src seg) with
      | none => none
      | some c => if c.state = .listen then some (seg.ends src) else none

/-- No listener takes a SYN with the ends of a connection that is open already. -/
def NoDouble (s : Tcp) : TcpOp → Prop
  | .packet src bytes => ∀ d ∈ s.conns, d.Open → some d.ends ≠ opensListener s src bytes
  | _ => True

section

variable {up : Nat → Bool} {s : Tcp} {op : TcpOp} {cs cs' : List Conn} {c c' : Conn} {i : Nat}

theorem oneEach_iff : OneEach cs ↔ ∀ (i j : Nat) (c d : Conn), cs[i]? = some c → cs[j]? = some d →
    c.Open → d.Open →
    c.ends = d.ends → i = j := by
  unfold OneEach
  rw [List.pairwise_iff_getElem]
  constructor
  · intro h i j c d hi hj hc hd he
    obtain ⟨hi', rfl⟩ := List.getElem?_eq_some_iff.mp hi
    obtain ⟨hj', rfl⟩ := List.getElem?_eq_some_iff.mp hj
    by_contra hne
    rcases Nat.lt_or_gt_of_ne hne with hlt | hlt
    · exact h i j hi' hj' hlt hc hd he
    · exact h j i hj' hi' hlt hd hc he.symm
  · intro h i j hi hj hlt hc hd he
    have := h i j _ _ (List.getElem?_eq_getElem hi) (List.getElem?_eq_getElem hj) hc hd he
    omega

def Inherits (c c' : Conn) : Prop := c'.Open → c.Open ∧ c'.ends = c.ends

theorem OneEach.inherits (ho : OneEach cs)
    (h : ∀ (i : Nat) (c' : Conn), cs'[i]? = some c' → ∃ c, cs[i]? = some c ∧ Inherits c c') :
      OneEach cs' := by
  rw [oneEach_iff] at ho ⊢
  intro i j c d hi hj hc hd he
  obtain ⟨c0, h1, h2⟩ := h i c hi
  obtain ⟨d0, h3, h4⟩ := h j d hj
  exact ho i j c0 d0 h1 h3 (h2 hc).1 (h4 hd).1 ((h2 hc).2.symm.trans (he.trans (h4 hd).2))

theorem oneEach_set (ho : OneEach cs) (hi : cs[i]? = some c) (hc : ¬c.Open) (hc' : c'.Open) :
    OneEach (cs.set i c') ↔ ∀ d ∈ cs, d.Open → d.ends ≠ c'.ends := by
  have hlt : i < cs.length := (List.getElem?_eq_some_iff.mp hi).1
  rw [oneEach_iff] at ho ⊢
  constructor
  · intro h d hd hopen he
    obtain ⟨j, hj⟩ := List.mem_iff_getElem?.mp hd
    have hne : i ≠ j := by
      rintro rfl
      exact hc (Option.some.inj (hi.symm.trans hj) ▸ hopen)
    have hj' : (cs.set i c')[j]? = some d := by rw [List.getElem?_set_ne hne, hj]
    exact hne (h i j c' d (List.getElem?_set_self hlt) hj' hc' hopen he.symm)
  · intro h j k d e hj hk hd he heq
    rw [List.getElem?_set] at hj hk
    split at hj <;> split at hk
    case isTrue.isTrue h1 h2 => exact h1.symm.trans h2
    case isTrue.isFalse h1 h2 =>
      obtain rfl := Option.some.inj hj
      exact absurd heq.symm (h e (List.mem_of_getElem? hk) he)
    case isFalse.isTrue h1 h2 =>
      obtain rfl := Option.some.inj hk
      exact absurd heq (h d (List.mem_of_getElem? hj) hd)
    case isFalse.isFalse h1 h2 => exact ho j k d e hj hk hd he heq

theorem inherits_refl : Inherits c c := fun h => ⟨h, rfl⟩

theorem inherits_of_unused (h : c'.used = false) : Inherits c c' := fun ho => by
  rw [ho.1] at h
  cases h

theorem inherits_of_state (h : SameEnds c c') (hs : c'.state = c.state) : Inherits c c' :=
  fun ho => ⟨⟨h.used ▸ ho.1, hs ▸ ho.2⟩, h.ends⟩

theorem inherits_of_open (h : SameEnds c c') (hs : c.state ≠ .listen) : Inherits c c' :=
  fun ho => ⟨⟨h.used ▸ ho.1, hs⟩, h.ends⟩

theorem sendTracked_same (c : Conn) (tick : Seq) (flags : Byte) (payload : List Byte) (w : Wire) :
    SameEnds c (sendTrackedSegment up tick c flags payload w).2.1 ∧
      (sendTrackedSegment up tick c flags payload w).2.1.state = c.state := by
  obtain ⟨-, h⟩ | ⟨-, -, -, h⟩ := sendTrackedSegment_cases up tick c flags payload w
  · rw [h]
    exact ⟨.refl, rfl⟩
  · rw [h]
    exact ⟨⟨rfl, rfl⟩, rfl⟩

theorem send_inherits (tick : Seq) (data : List Byte) (w : Wire) :
    Inherits c (c.send up tick data w).2.1 := by
  unfold Conn.send
  split_ifs
  case neg =>
    obtain ⟨h1, h2⟩ := @sendTracked_same up c tick (ack ||| psh)
      ((data.take txBufferSize).take c.advertisedWindow.toNat) w
    exact inherits_of_state h1 h2
  all_goals exact inherits_refl

theorem read_inherits (n : Nat) : Inherits c (c.read n).2.2 := by
  unfold Conn.read rxResetIfEmpty
  dsimp only
  split_ifs <;> exact inherits_of_state ⟨rfl, rfl⟩ rfl

theorem sendFin_inherits (tick : Seq) (next : TcpState) (w : Wire) (hs : c.state ≠ .listen) :
    Inherits c (c.sendFin up tick next w).2.1 := by
  unfold Conn.sendFin
  obtain ⟨h1, h2⟩ := @sendTracked_same up c tick (fin ||| ack) [] w
  dsimp only
  split
  · exact inherits_refl
  split
  · exact inherits_of_open ⟨h1.used, h1.ends⟩ hs
  · exact inherits_of_open h1 hs

theorem close_inherits (tick : Seq) (w : Wire) : Inherits c (c.close up tick w).2.1 := by
  unfold Conn.close
  split
  · exact inherits_refl
  split
  case h_1 h => exact sendFin_inherits tick _ w (by rw [h]; nofun)
  case h_2 h => exact sendFin_inherits tick _ w (by rw [h]; nofun)
  case h_6 => exact inherits_refl
  all_goals exact inherits_of_unused rfl

theorem giveUp_inherits : Inherits c (giveUp c) := by
  unfold giveUp
  split
  · exact inherits_of_unused rfl
  · exact inherits_refl

theorem retransmit_inherits (tick : Seq) (w : Wire) : Inherits c (retransmit up tick c w).2.1 := by
  unfold retransmit Conn.backOff
  dsimp only
  split_ifs
  case pos => exact inherits_refl
  case pos => exact inherits_of_unused rfl
  all_goals exact inherits_of_state ⟨rfl, rfl⟩ rfl

theorem Inherits.trans (h : Inherits c c') (h' : Inherits c' c'') : Inherits c c'' :=
  fun ho => ⟨(h (h' ho).1).1, (h' ho).2.trans (h (h' ho).1).2⟩

theorem onTick_inherits (tick : Seq) (w : Wire) : Inherits c (c.onTick up tick w).1 := by
  unfold Conn.onTick
  dsimp only
  split
  · exact inherits_refl
  split
  · split
    · exact inherits_of_unused rfl
    · exact inherits_refl
  split
  · split
    · exact (retransmit_inherits tick w).trans giveUp_inherits
    · exact retransmit_inherits tick w
  · exact giveUp_inherits

theorem allocateEphemeralPort_fresh {next : Port} {d : Conn}
    (h : (allocateEphemeralPort cs n next).1 ≠ 0) (hd : d ∈ cs) (hu : d.used = true) :
    d.localPort ≠ (allocateEphemeralPort cs n next).1 := by
  induction n generalizing next with
  | zero => exact absurd rfl h
  | succ n ih =>
    rw [allocateEphemeralPort] at h ⊢
    split at h
    case isTrue ht =>
      rw [if_pos ht]
      exact ih h
    case isFalse ht =>
      rw [if_neg ht]
      intro heq
      refine ht (any_eq_true.mpr ⟨d, hd, ?_⟩)
      rw [hu, heq, beq_self_eq_true]
      rfl

theorem startConnect_cases (tick : Seq) (dst : IPv4Address) (localPort port : Port) (w : Wire) :
    ((startConnect up tick dst localPort port w).1 = false ∧
      (startConnect up tick dst localPort port w).2.1.used = false) ∨
      ((startConnect up tick dst localPort port w).2.1.Open ∧
        (startConnect up tick dst localPort port w).2.1.ends = ⟨dst, localPort, port⟩) := by
  unfold startConnect
  dsimp only
  split
  · obtain ⟨h1, h2⟩ := @sendTracked_same up (connecting dst localPort port) tick syn [] w
    exact .inr ⟨⟨h1.used, by rw [h2]; nofun⟩, h1.ends⟩
  · exact .inl ⟨rfl, rfl⟩

theorem oneEach_connect (ho : OneEach s.conns) (dst : IPv4Address) (port : Port) :
    OneEach (tcpConnect up s dst port).2.conns := by
  unfold tcpConnect
  split
  · exact ho
  dsimp only
  split
  · exact ho
  case isFalse hport =>
    split
    · exact ho
    case h_2 i hslot =>
      dsimp only at hslot ⊢
      have hlt : i < s.conns.length := (findIdx?_eq_some_iff_getElem.mp hslot).1
      have hget : s.conns[i]? = some s.conns[i] := getElem?_eq_getElem hlt
      have hunused := freeSlot_get hslot hget
      have hclosed : ¬s.conns[i].Open := fun h => by
        rw [h.1] at hunused
        cases hunused
      obtain ⟨-, hu⟩ | ⟨hopen, hends⟩ := @startConnect_cases up s.currentTick dst
        (allocateEphemeralPort s.conns 16384 s.nextEphemeralPort).1 port s.wire
      · refine ho.inherits fun j c' hj => ?_
        rw [getElem?_set] at hj
        split at hj
        case isTrue h =>
          subst h
          obtain rfl := Option.some.inj hj
          exact ⟨_, hget, inherits_of_unused hu⟩
        · exact ⟨c', hj, inherits_refl⟩
      · rw [oneEach_set ho hget hclosed hopen, hends]
        intro d hd hopen' heq
        exact allocateEphemeralPort_fresh hport hd hopen'.1 (congrArg Ends.localPort heq)

theorem dispatch_set {tick : Seq} {src : IPv4Address} {seg : Segment} {w : Wire}
    (h : cs.find? (fun d => d.accepts src seg) = some c) :
    ∃ i, cs[i]? = some c ∧ (dispatch up tick src seg w cs).1 =
      cs.set i (onSegment up tick c src seg w).1 := by
  induction cs with
  | nil => cases h
  | cons d cs ih =>
    rw [dispatch]
    rw [find?_cons] at h
    cases hd : d.accepts src seg with
    | true =>
      rw [hd] at h
      obtain rfl := Option.some.inj h
      exact ⟨0, rfl, rfl⟩
    | false =>
      rw [hd] at h
      obtain ⟨i, h1, h2⟩ := ih h
      exact ⟨i + 1, h1, congrArg (d :: ·) h2⟩

theorem onSegment_inherits (ha : c.accepts src seg = true)
    (hl : c.state ≠ .listen) : Inherits c (onSegment up tick c src seg w).1 := by
  obtain ⟨hu, -, hcase⟩ := accepts_spec ha
  obtain ⟨-, hends⟩ := hcase.resolve_left fun h => hl h.1
  cases he : c.ended seg with
  | true =>
    rw [onSegment_ended src he]
    exact inherits_of_unused (onRest_spec _).1.used
  | false =>
    obtain ⟨-, h2, -⟩ := @onSegment_spec up tick _ _ w _ ha he
    exact fun _ => ⟨⟨hu, hl⟩, h2.trans hends.symm⟩

theorem Moves.inherits (hm : Moves up s i op c c') (hconnect : ∀ dst port, op ≠ .connect dst port)
    (hsyn : ∀ src bytes, op = .packet src bytes → opensListener s src bytes = none) : Inherits c c' := by
  cases hm with
  | stay h => exact inherits_refl
  | listen port h => exact fun ho => absurd rfl ho.2
  | connect dst localPort port h => exact absurd rfl (hconnect dst port)
  | reset src bytes => exact inherits_of_unused rfl
  | segment src bytes seg hp hr hc =>
    refine onSegment_inherits (by simpa using find?_some hc) fun hl => ?_
    have hnone := hsyn src bytes rfl
    simp [opensListener, hp, hr, hc, hl] at hnone
  | send handle data => exact send_inherits _ data _
  | read n => exact read_inherits n
  | close handle => exact close_inherits _ _
  | tick w => exact onTick_inherits _ w

theorem oneEach_syn (ho : OneEach s.conns) (h : opensListener s src bytes = some e) :
    OneEach (tcpReceivePacket up s src bytes).conns ↔ ∀ d ∈ s.conns, d.Open → d.ends ≠ e := by
  unfold opensListener at h
  split at h
  · cases h
  case h_2 seg hp =>
    split at h
    · cases h
    case isFalse hr =>
      split at h
      · cases h
      case h_2 c hf =>
        split at h
        case isFalse => cases h
        case isTrue hl =>
          obtain rfl := Option.some.inj h
          have ha : c.accepts src seg = true := by simpa using find?_some hf
          obtain ⟨hu, hport, hcase⟩ := accepts_spec ha
          obtain ⟨-, hs⟩ := hcase.resolve_right fun h0 => h0.1 hl
          have hlisten : onSegment up s.currentTick c src seg s.wire =
              onListen up s.currentTick (c.withWindow seg.window) src seg s.wire := by
            simp [onSegment, Conn.withWindow, hl]
          obtain ⟨h1, h2, h3, -⟩ := @onListen_spec up s.currentTick (c.withWindow seg.window)
            _ s.wire src hport hs
          rw [← hlisten] at h1 h2 h3
          obtain ⟨i, hi, hset⟩ := @dispatch_set up _ _ s.currentTick _ _ s.wire hf
          unfold tcpReceivePacket
          rw [hp]
          dsimp only
          rw [if_neg hr]
          dsimp only
          rw [hset, oneEach_set ho hi (fun h0 => h0.2 hl) ⟨h1.trans hu, by rw [h2]; decide⟩, h3]

theorem step_oneEach (ho : OneEach s.conns) (op : TcpOp) : OneEach (step up s op).conns ↔
    NoDouble s op := by
  have hkeep : (∀ dst port, op ≠ .connect dst port) →
      (∀ src bytes, op = .packet src bytes → opensListener s src bytes = none) →
        OneEach (step up s op).conns := by
    intro h1 h2
    refine ho.inherits fun i c' hi => ?_
    obtain ⟨c, hc, hm⟩ := step_moves hi
    exact ⟨c, hc, hm.inherits h1 h2⟩
  cases op with
  | packet src bytes =>
    cases h : opensListener s src bytes with
    | none =>
      refine iff_of_true (hkeep (fun _ _ => nofun) ?_) fun d _ _ => by rw [h]; nofun
      rintro src bytes ⟨⟩
      exact h
    | some e =>
      refine (oneEach_syn ho h).trans (forall_congr' fun d => forall_congr' fun _ =>
        forall_congr' fun _ => ?_)
      rw [h, ne_eq, ne_eq, Option.some.injEq]
  | connect dst port => exact iff_of_true (oneEach_connect ho dst port) trivial
  | listen port => exact iff_of_true (hkeep (fun _ _ => nofun) fun _ _ => nofun) trivial
  | send handle data => exact iff_of_true (hkeep (fun _ _ => nofun) fun _ _ => nofun) trivial
  | read handle len => exact iff_of_true (hkeep (fun _ _ => nofun) fun _ _ => nofun) trivial
  | close handle => exact iff_of_true (hkeep (fun _ _ => nofun) fun _ _ => nofun) trivial
  | tick => exact iff_of_true (hkeep (fun _ _ => nofun) fun _ _ => nofun) trivial

theorem tcpInit_oneEach (ip : IPv4Address) : OneEach (tcpInit ip).conns := by
  refine pairwise_replicate.mpr (.inr fun h => ?_)
  cases h.1

theorem oneEach_along_iff (up : Nat → Bool) (ip : IPv4Address) (ops : List TcpOp) :
    Along (step up) (fun s op => OneEach (step up s op).conns) (tcpInit ip) ops ↔
      Along (step up) NoDouble (tcpInit ip) ops :=
  Along.congr (I := fun s => OneEach s.conns) (fun _ op ho => step_oneEach ho op) (fun _ _ _ h => h) ops
    (tcpInit_oneEach ip)

def doubleSyn : List TcpOp :=
  [.listen 81, .listen 80, clientSegment 100 0 syn [], .close 0, .listen 80, clientSegment 100 0 syn []]

theorem two_connections :
    ¬OneEach (runFrom (step fun _ => true) (tcpInit sampleServer) doubleSyn).conns := by
  decide +kernel

end

end BlockOS.Net
