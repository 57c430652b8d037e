import BlockOS.Net.FourTuple
import BlockOS.Net.Sockets

/-! Which connections a socket reaches. -/

namespace BlockOS.Net
open Words Runs Slots List Function
open Option (bind_some)

def TcpState.leaving : TcpState → Bool
  | .finWait1 => true
  | .finWait2 => true
  | .closing => true
  | .lastAck => true
  | .timeWait => true
  | _ => false

def Fades (c c' : Conn) : Prop := c'.used = true → c.used = true ∧
    (c.state.leaving = true → c'.state.leaving = true)

section

variable {up : Nat → Bool} {tick : Seq} {c c' : Conn} {w : Wire} {a : Sender}

theorem fades_refl : Fades c c := fun h => ⟨h, id⟩

theorem fades_of_unused (h : c'.used = false) : Fades c c' := fun hu => by
  rw [hu] at h
  cases h

theorem fades_of_state (hu : c'.used = c.used) (hs : c'.state = c.state) : Fades c c' :=
  fun h => ⟨hu ▸ h, fun hl => hs ▸ hl⟩

def Sender.Fades (a a' : Sender) : Prop := a'.used = true → a.used = true ∧
    (a.state.leaving = true → a'.state.leaving = true)

theorem Sender.Fades.refl : a.Fades a := fun h => ⟨h, id⟩

theorem Sender.Fades.trans (h : a.Fades a') (h' : a'.Fades a'') : a.Fades a'' :=
  fun hu => ⟨(h (h' hu).1).1, fun hl => (h' hu).2 ((h (h' hu).1).2 hl)⟩

theorem Sender.Fades.of_leaving (hu : a'.used = a.used) (hl : a'.state.leaving = true) :
    a.Fades a' :=
  fun h => ⟨hu ▸ h, fun _ => hl⟩

theorem Sender.Fades.acked (ackNo : Seq) : a.Fades (a.acked ackNo) := by
  have hsyn : a.Fades a.ackSyn := by
    unfold Sender.ackSyn
    split
    case isTrue h => exact fun hu => ⟨hu, fun hl => by rw [h] at hl; cases hl⟩
    · exact .refl
  have hfin : a.ackSyn.Fades (a.ackSyn.ackFin ackNo) := by
    unfold Sender.ackFin
    split
    · refine .of_leaving rfl ?_
      split <;> rfl
    · exact .refl
  unfold Sender.acked Sender.ackLast
  split
  · exact nofun
  · exact hsyn.trans hfin

theorem Sender.Fades.finish (taken : Bool) : a.Fades (a.finish taken) := by
  have honFin : a.Fades (if taken then a.onFin else a) := by
    split
    · unfold Sender.onFin
      dsimp only
      split
      case h_1 h => exact fun hu => ⟨hu, fun hl => by rw [h] at hl; cases hl⟩
      case h_2 => split <;> exact .of_leaving rfl rfl
      case h_5 => exact fun hu => ⟨hu, id⟩
      all_goals exact .of_leaving rfl rfl
    · exact .refl
  have hwait1 : ∀ a : Sender, a.Fades a.leaveFinWait1 := fun a => by
    unfold Sender.leaveFinWait1
    split
    · split <;> exact .of_leaving rfl rfl
    · exact .refl
  have hwait2 : ∀ a : Sender, a.Fades a.leaveFinWait2 := fun a => by
    unfold Sender.leaveFinWait2
    split
    · exact .of_leaving rfl rfl
    · exact .refl
  have hclosing : ∀ a : Sender, a.Fades a.leaveClosing := fun a => by
    unfold Sender.leaveClosing
    split
    · exact .of_leaving rfl rfl
    · exact .refl
  exact honFin.trans ((hwait1 _).trans ((hwait2 _).trans (hclosing _)))

theorem onData_fades : Fades c (onData up tick c seg w).1 := by
  cases hw : outOfWindow c seg with
  | true =>
    rw [onData, hw]
    exact fades_refl
  | false =>
    suffices h : c.sender.Fades (onData up tick c seg w).1.sender from h
    rw [onData_sender up tick w hw]
    refine .trans ?_ (.finish _)
    obtain ⟨-, hr | hr⟩ | ⟨-, hr⟩ := ackPart_cases up tick w hw
    · exact fun h => absurd (hr.symm.trans h) (by decide)
    · rw [hr.sender]
      exact fun h => ⟨h, id⟩
    · rw [hr, acked_sender]
      exact Sender.Fades.acked (a := c.sender.release seg.ackNo) seg.ackNo

theorem onSegment_fades (ha : c.accepts src seg = true) :
    Fades c (onSegment up tick c src seg w).1 := by
  have hu := accepts_used ha
  have hstay : ∀ c' : Conn, c.state.leaving = false → Fades c c' :=
    fun c' hl _ => ⟨hu, fun h => by rw [hl] at h; cases h⟩
  obtain ⟨-, h2⟩ | ⟨h1, -⟩ | ⟨h1, -⟩ | ⟨h1, -⟩ | ⟨-, -, -, -, h2⟩ := onSegment_cases up tick c src seg w
  · rw [h2]
    exact fades_of_state rfl rfl
  · exact hstay _ (by rw [h1]; rfl)
  · exact hstay _ (by rw [h1]; rfl)
  · exact hstay _ (by rw [h1]; rfl)
  · rw [h2]
    exact onData_fades (c := c.withWindow seg.window)

theorem read_fades (n : Nat) : Fades c (c.read n).2.2 := by
  unfold Conn.read rxResetIfEmpty
  dsimp only
  split_ifs <;> exact fades_of_state rfl rfl

theorem onTick_fades : Fades c (c.onTick up tick w).1 := by
  obtain h | h := onTick_cases up tick w c
  · exact fades_of_unused h
  · exact fades_of_state (congrArg Sender.used h.sender) (congrArg Sender.state h.sender)

def Conn.closable (c : Conn) (up : Nat → Bool) (w : Wire) : Bool :=
  match c.state with
  | .listen => true
  | .synSent => true
  | .synReceived => true
  | .established => !c.tx.used && up w.tries
  | .closeWait => !c.tx.used && up w.tries
  | _ => false

theorem sendTracked_up (flags : Byte) (htx : c.tx.used = false) :
    (sendTrackedSegment up tick c flags [] w).1 = up w.tries := by
  have hshort : ¬([] : List Byte).length > txBufferSize := Nat.not_lt_zero _
  have hraw : (sendRawSegment up c flags c.sndNxt c.rcvNxt [] w).1 = up w.tries := by
    unfold sendRawSegment ipv4Send
    cases up w.tries <;> rfl
  unfold sendTrackedSegment
  rw [htx, if_neg Bool.false_ne_true, if_neg hshort]
  dsimp only
  rw [hraw]
  cases up w.tries <;> rfl

theorem sendFin_leaves (next : TcpState) (hs : c.state.leaving = false) (hn : next.leaving = true)
    (hu : c.used = true) :
    ((c.sendFin up tick next w).2.1.used = true → (c.sendFin up tick next w).2.1.state.leaving = true) ↔
      (!c.tx.used && up w.tries) = true := by
  unfold Conn.sendFin
  cases htx : c.tx.used with
  | true => simp [hs, hu]
  | false =>
    obtain ⟨hsame, hstate⟩ := @sendTracked_same up c tick (fin ||| ack) [] w
    rw [if_neg Bool.false_ne_true]
    dsimp only
    rw [sendTracked_up _ htx]
    cases up w.tries with
    | true => exact ⟨fun _ => rfl, fun _ _ => hn⟩
    | false =>
      rw [if_neg Bool.false_ne_true, hstate, hsame.used, hs, hu]
      decide

theorem close_leaves (hu : c.used = true) :
    ((c.close up tick w).2.1.used = true → (c.close up tick w).2.1.state.leaving = true) ↔
      (c.closable up w = true ∨ c.state.leaving = true) := by
  unfold Conn.close Conn.closable
  rw [hu, if_neg (by decide)]
  cases hs : c.state with
  | established =>
    rw [sendFin_leaves .finWait1 (by rw [hs]; rfl) rfl hu]
    simp [TcpState.leaving]
  | closeWait =>
    rw [sendFin_leaves .lastAck (by rw [hs]; rfl) rfl hu]
    simp [TcpState.leaving]
  | listen => simp [clearConnection]
  | synSent => simp [clearConnection]
  | synReceived => simp [clearConnection]
  | closed => simp [hs, hu]
  | finWait1 => simp [hs, TcpState.leaving]
  | finWait2 => simp [hs, TcpState.leaving]
  | lastAck => simp [hs, TcpState.leaving]
  | closing => simp [hs, TcpState.leaving]
  | timeWait => simp [hs, TcpState.leaving]

theorem close_fades : Fades c (c.close up tick w).2.1 := by
  intro hu'
  cases hu : c.used with
  | false =>
    unfold Conn.close at hu'
    rw [hu] at hu'
    exact absurd (hu.symm.trans hu') nofun
  | true => exact ⟨rfl, fun hl => (close_leaves hu).mpr (.inr hl) hu'⟩

end

def Socket.seen (s : Socket) : Option (Option Nat) :=
  if s.used then some (if s.transport < 0 then none else some s.transport.toNat) else none

def Conn.seen (c : Conn) : Option Bool := if c.used then some c.state.leaving else none

def Sockets.holds (n : Sockets) (p : Nat) : Option (Option Nat) := n.sockets[p]?.bind Socket.seen

def Tcp.slot (s : Tcp) (i : Nat) : Option Bool := s.conns[i]?.bind Conn.seen

def Traced.board (t : Traced) : Board :=
  { holds := t.net.holds, slot := t.net.tcp.slot, number := t.number, opener := t.opener, next :=
    t.next }

open Traced (board)

structure Shaped (n : Sockets) : Prop where
  slots : n.tcp.conns.length ≤ maxConnections
  plain : ∀ s ∈ n.sockets, s.used = true → s.type ≠ sockStream → s.transport < 0

section

variable {up : Nat → Bool} {n : Sockets} {t : Traced} {fd : Int} {s : Socket}

theorem open_spec (h : n.open? fd = some s) : fd = fd.toNat ∧ n.sockets[fd.toNat]? = some s ∧
    s.used = true := by
  unfold Sockets.open? at h
  split at h
  · cases h
  · rw [Option.filter_eq_some_iff] at h
    exact ⟨by omega, h.1, h.2⟩

theorem holds_of_open (h : n.open? fd = some s) :
    n.holds fd.toNat = some (if s.transport < 0 then none else some s.transport.toNat) := by
  obtain ⟨-, hget, hu⟩ := open_spec h
  unfold Sockets.holds
  rw [hget, bind_some, Socket.seen, if_pos hu]

theorem holds_put (h : n.sockets[fd.toNat]? = some s) (s' : Socket) :
    (n.put fd s').holds = Function.update n.holds fd.toNat s'.seen := by
  have hlt : fd.toNat < n.sockets.length := (List.getElem?_eq_some_iff.mp h).1
  funext p
  by_cases hp : p = fd.toNat
  · subst hp
    rw [Function.update_self]
    unfold Sockets.holds Sockets.put
    rw [List.getElem?_set_self hlt, bind_some]
  · rw [Function.update_of_ne hp]
    unfold Sockets.holds Sockets.put
    rw [List.getElem?_set_ne (Ne.symm hp)]

theorem holds_put_same (h : n.sockets[fd.toNat]? = some s) (hs : s'.seen = s.seen) :
    (n.put fd s').holds = n.holds := by
  rw [holds_put h, hs, update_eq_self_iff]
  unfold Sockets.holds
  rw [h, bind_some]

theorem slot_fades {s s' : Tcp}
    (h : ∀ (i : Nat) (c' : Conn), s'.conns[i]? = some c' → ∃ c, s.conns[i]? = some c ∧ Fades c c') :
    Slots.Fades s.slot s'.slot := by
  have hseen : ∀ {c : Conn}, c.used = true → c.seen = some c.state.leaving := fun hu => if_pos hu
  intro i hi
  unfold Tcp.slot at hi ⊢
  cases hc' : s'.conns[i]? with
  | none =>
    rw [hc'] at hi
    exact absurd rfl hi
  | some c' =>
    obtain ⟨c, hc, hf⟩ := h i c' hc'
    rw [hc', bind_some] at hi
    have hu' : c'.used = true := by
      by_contra hu
      exact hi (if_neg hu)
    obtain ⟨hu, hl⟩ := hf hu'
    rw [hc, bind_some, bind_some, hseen hu, hseen hu']
    refine ⟨nofun, fun h0 => ?_⟩
    have h0' := Option.some.inj h0
    cases hlc : c.state.leaving with
    | false => rfl
    | true =>
      rw [hl hlc] at h0'
      cases h0'

theorem slot_set {s : Tcp} {i : Nat} {c c' : Conn} (hi : s.conns[i]? = some c) {s' : Tcp}
    (hs : s'.conns = s.conns.set i c') : s'.slot = Function.update s.slot i c'.seen := by
  have hlt : i < s.conns.length := (List.getElem?_eq_some_iff.mp hi).1
  funext j
  unfold Tcp.slot
  rw [hs]
  by_cases hj : j = i
  · subst hj
    rw [Function.update_self, List.getElem?_set_self hlt, bind_some]
  · rw [Function.update_of_ne hj, List.getElem?_set_ne (Ne.symm hj)]

theorem step_fades {s : Tcp} {op : TcpOp} (hlisten : ∀ port, op ≠ .listen port)
    (hconnect : ∀ dst port, op ≠ .connect dst port) :
    Slots.Fades s.slot (step up s op).slot := by
  refine slot_fades fun i c' hi => ?_
  obtain ⟨c, hc, hm⟩ := step_moves hi
  refine ⟨c, hc, ?_⟩
  cases hm with
  | stay h => exact Net.fades_refl
  | listen port h => exact absurd rfl (hlisten port)
  | connect dst localPort port h => exact absurd rfl (hconnect dst port)
  | reset src bytes => exact fades_of_unused rfl
  | segment src bytes seg hp hr hc => exact onSegment_fades (by simpa using find?_some hc)
  | send handle data =>
    obtain ⟨h1, h2, -⟩ := send_cases up s.currentTick s.wire c data
    exact fades_of_state h1 h2
  | read n => exact read_fades n
  | close handle => exact close_fades
  | tick w => exact onTick_fades

theorem step_slots (s : Tcp) (op : TcpOp) : (step up s op).conns.length ≤ s.conns.length := by
  by_contra h
  obtain ⟨c, hc, -⟩ := step_moves (getElem?_eq_getElem (Nat.not_le.mp h))
  rw [getElem?_eq_none (Nat.le_refl _)] at hc
  cases hc

theorem tcpListen_slot (s : Tcp) (port : Port) :
    ((tcpListen s port).1 = false ∧ (tcpListen s port).2 = s) ∨
      ((tcpListen s port).1 = true ∧ ∃ i, freeSlot s.conns = some i ∧
        (tcpListen s port).2.slot = update s.slot i (some false)) := by
  unfold tcpListen
  split
  · exact .inl ⟨rfl, rfl⟩
  split
  · exact .inl ⟨rfl, rfl⟩
  split
  · exact .inl ⟨rfl, rfl⟩
  case h_2 i hi =>
    obtain ⟨hlt, -, -⟩ := findIdx?_eq_some_iff_getElem.mp hi
    refine .inr ⟨rfl, i, hi, ?_⟩
    exact @slot_set _ _ _ (listening port) (getElem?_eq_getElem hlt) _ rfl

theorem tcpConnect_slot (s : Tcp) (dst : IPv4Address) (port : Port) :
    ((tcpConnect up s dst port).1 < 0 ∧ Slots.Fades s.slot (tcpConnect up s dst port).2.slot) ∨
      ∃ i : Nat, (tcpConnect up s dst port).1 = i ∧ freeSlot s.conns = some i ∧
        (tcpConnect up s dst port).2.slot = update s.slot i (some false) := by
  unfold tcpConnect
  split
  · exact .inl ⟨neg_one_lt_zero, Slots.fades_refl⟩
  dsimp only
  split
  · exact .inl ⟨neg_one_lt_zero, Slots.fades_refl⟩
  split
  · exact .inl ⟨neg_one_lt_zero, Slots.fades_refl⟩
  case h_2 i hi =>
    have hfree : freeSlot s.conns = some i := hi
    obtain ⟨hlt, -, -⟩ := findIdx?_eq_some_iff_getElem.mp hfree
    have hget : s.conns[i]? = some s.conns[i] := getElem?_eq_getElem hlt
    unfold startConnect
    dsimp only
    generalize (allocateEphemeralPort s.conns 16384 s.nextEphemeralPort).1 = q
    split
    case isTrue hok =>
      refine .inr ⟨i, rfl, hfree, ?_⟩
      obtain ⟨h1, h2⟩ := @sendTracked_same up (connecting dst q port) s.currentTick syn [] s.wire
      have hseen : (sendTrackedSegment up s.currentTick (connecting dst q port) syn []
          s.wire).2.1.seen = some false := by
        unfold Conn.seen
        rw [h1.used, h2]
        rfl
      rw [← hseen]
      exact slot_set hget rfl
    case isFalse hfail =>
      refine .inl ⟨neg_one_lt_zero, slot_fades fun j c' hj => ?_⟩
      obtain ⟨c, hc, ⟨-, rfl⟩ | ⟨-, rfl⟩⟩ := set_get hj
      · exact ⟨c, hc, fades_of_unused rfl⟩
      · exact ⟨c', hc, Net.fades_refl⟩

theorem conn_slot {s : Tcp} (hlen : s.conns.length ≤ maxConnections) {i : Nat} {c : Conn}
    (hi : s.conns[i]? = some c) :
    s.conn? i = some c := by
  have hlt := (List.getElem?_eq_some_iff.mp hi).1
  rw [conn_of_lt (by omega), hi]

theorem tcpClose_get {s : Tcp} (hlen : s.conns.length ≤ maxConnections) (handle : Int) {i : Nat}
    {c : Conn}
    (hi : s.conns[i]? = some c) :
    (tcpClose up s handle).2.conns[i]? =
      some (if handle = i then (c.close up s.currentTick s.wire).2.1 else c) := by
  have hlt := (List.getElem?_eq_some_iff.mp hi).1
  unfold tcpClose
  by_cases hh : handle = i
  · subst hh
    rw [conn_slot hlen hi, if_pos rfl]
    exact List.getElem?_set_self hlt
  rw [if_neg hh]
  cases hc : s.conn? handle with
  | none => exact hi
  | some d =>
    obtain ⟨heq, -⟩ := conn_get hc
    exact (List.getElem?_set_ne (by omega)).trans hi

theorem socket_spec (n : Sockets) (domain type protocol : Int) :
    ((socket n domain type protocol).1 < 0 ∧ (socket n domain type protocol).2 = n) ∨
      ∃ p : Nat, (socket n domain type protocol).1 = p ∧ n.holds p = none ∧
        (socket n domain type protocol).2.holds = update n.holds p (some none) ∧
          (socket n domain type protocol).2.tcp = n.tcp := by
  unfold socket
  split
  · exact .inl ⟨neg_one_lt_zero, rfl⟩
  split
  · exact .inl ⟨neg_one_lt_zero, rfl⟩
  case h_2 i hi =>
    obtain ⟨hlt, hfree, -⟩ := findIdx?_eq_some_iff_getElem.mp hi
    have hget : n.sockets[i]? = some n.sockets[i] := getElem?_eq_getElem hlt
    refine .inr ⟨i, rfl, ?_, @holds_put _ i _ hget _, rfl⟩
    unfold Sockets.holds Socket.seen
    rw [hget, bind_some, if_neg (by simpa using hfree)]

theorem bind_spec (n : Sockets) (fd : Int) (port : Port) : (bind n fd port).2.holds = n.holds ∧
      ((bindSlot n fd port = none ∧ (bind n fd port).2.tcp = n.tcp) ∨
        ∃ j, bindSlot n fd port = some j ∧ n.holds fd.toNat ≠ none ∧
          (bind n fd port).2.tcp.slot = update n.tcp.slot j (some false)) := by
  unfold bind bindSlot
  cases hopen : n.open? fd with
  | none => exact ⟨rfl, .inl ⟨rfl, rfl⟩⟩
  | some s =>
    obtain ⟨-, hget, -⟩ := open_spec hopen
    have hput : (n.put fd { s with localPort := port }).holds = n.holds := holds_put_same hget rfl
    have hne : n.holds fd.toNat ≠ none := by
      rw [holds_of_open hopen]
      nofun
    dsimp only
    by_cases hport : port = 0
    · have hfail : (tcpListen n.tcp port).1 = false := by
        unfold tcpListen
        rw [if_pos hport]
      rw [if_pos hport, hfail, if_neg (by simp)]
      exact ⟨rfl, .inl ⟨rfl, rfl⟩⟩
    · rw [if_neg hport]
      by_cases htype : s.type = sockStream
      · rw [if_pos htype]
        refine ⟨hput, ?_⟩
        obtain ⟨hfail, hsame⟩ | ⟨hok, j, hj, hslot⟩ := tcpListen_slot n.tcp port
        · refine .inl ⟨if_neg fun h => ?_, hsame⟩
          rw [hfail] at h
          cases h.2
        · exact .inr ⟨j, (if_pos ⟨htype, hok⟩).trans hj, hne, hslot⟩
      · rw [if_neg htype, if_neg fun h => htype h.1]
        exact ⟨hput, .inl ⟨rfl, rfl⟩⟩

theorem connect_spec (n : Sockets) (fd : Int) (addr : IPv4Address) (port : Port) :
    (connectSlot up n fd addr port = none ∧ (connect up n fd addr port).2.holds = n.holds ∧
        Slots.Fades n.tcp.slot (connect up n fd addr port).2.tcp.slot) ∨
      ∃ j, connectSlot up n fd addr port = some j ∧ n.holds fd.toNat ≠ none ∧
        (connect up n fd addr port).2.holds = update n.holds fd.toNat (some (some j)) ∧
          (connect up n fd addr port).2.tcp.slot = update n.tcp.slot j (some false) := by
  unfold connect connectSlot
  cases hopen : n.open? fd with
  | none => exact .inl ⟨rfl, rfl, Slots.fades_refl⟩
  | some s =>
    obtain ⟨-, hget, hu⟩ := open_spec hopen
    have hne : n.holds fd.toNat ≠ none := by
      rw [holds_of_open hopen]
      nofun
    dsimp only
    by_cases htype : s.type = sockStream
    · rw [if_neg (not_not.mpr htype)]
      obtain ⟨hfail, hfade⟩ | ⟨j, hj, hfree, hslot⟩ := @tcpConnect_slot up n.tcp addr port
      · rw [if_neg fun h => absurd h.2 (not_le.mpr hfail), if_pos hfail]
        exact .inl ⟨rfl, rfl, hfade⟩
      rw [if_pos ⟨htype, by omega⟩, if_neg (by omega), hj]
      refine .inr ⟨j, by rw [Int.toNat_natCast], hne, ?_, hslot⟩
      refine (holds_put (n := { n with tcp := (tcpConnect up n.tcp addr port).2 }) hget _).trans ?_
      have hseen : ({ s with transport := (j : Int) } : Socket).seen = some (some j) := by
        unfold Socket.seen
        dsimp only
        rw [if_pos hu, if_neg (by omega), Int.toNat_natCast]
      rw [hseen]
      rfl
    · rw [if_pos htype, if_neg fun h => htype h.1]
      exact .inl ⟨rfl, rfl, Slots.fades_refl⟩

theorem close_spec (hn : Shaped n) (hopen : n.open? fd = some s) :
    (close up n fd).2.holds = update n.holds fd.toNat none ∧
      Slots.Fades n.tcp.slot (close up n fd).2.tcp.slot ∧
        ∀ (i : Nat) (c : Conn), n.tcp.conns[i]? = some c → (close up n fd).2.tcp.conns[i]? =
          some (if s.transport = i then (c.close up n.tcp.currentTick n.tcp.wire).2.1 else c) := by
  obtain ⟨-, hget, hu⟩ := open_spec hopen
  have hplain := hn.plain s (mem_of_getElem? hget) hu
  unfold close
  rw [hopen]
  dsimp only
  split
  case isTrue hstream =>
    refine ⟨holds_put (n := { n with tcp := (tcpClose up n.tcp s.transport).2 }) hget _, ?_, ?_⟩
    · exact @step_fades _ _ (.close s.transport) (fun _ => nofun) fun _ _ => nofun
    · exact fun i c hi => tcpClose_get hn.slots s.transport hi
  case isFalse hno =>
    have hneg : s.transport < 0 := by
      by_contra h0
      refine hno ⟨?_, by omega⟩
      by_contra htype
      exact h0 (hplain htype)
    refine ⟨holds_put hget _, Slots.fades_refl, fun i c hi => ?_⟩
    rw [if_neg (by omega)]
    exact hi

theorem shaped_put (h : Shaped n) (hs : s'.used = true → s'.type ≠ sockStream → s'.transport < 0) :
    Shaped (n.put fd s') := by
  refine ⟨h.slots, fun s hmem hu htype => ?_⟩
  rcases mem_or_eq_of_mem_set hmem with hmem | rfl
  · exact h.plain s hmem hu htype
  · exact hs hu htype

theorem shaped_tcp (h : Shaped n) {s : Tcp} (hs : s.conns.length ≤ n.tcp.conns.length) :
    Shaped { n with tcp := s } :=
  ⟨hs.trans h.slots, h.plain⟩

theorem sockStep_shaped (h : Shaped n) (op : SockOp) : Shaped (sockStep up n op) := by
  cases op with
  | socket domain type protocol =>
    unfold sockStep socket
    dsimp only
    split
    · exact h
    split
    · exact h
    · exact shaped_put h fun _ _ => neg_one_lt_zero
  | bind fd port =>
    dsimp only [sockStep]
    unfold bind
    cases hopen : n.open? fd with
    | none => exact h
    | some s =>
      obtain ⟨-, hget, -⟩ := open_spec hopen
      have hput : Shaped (n.put fd { s with localPort := port }) :=
        shaped_put h (h.plain s (mem_of_getElem? hget))
      dsimp only
      split
      · exact h
      split
      · exact shaped_tcp hput (@step_slots up _ (.listen port))
      · exact hput
  | connect fd addr port =>
    have htcp : Shaped { n with tcp := (tcpConnect up n.tcp addr port).2 } :=
      shaped_tcp h (@step_slots up _ (.connect addr port))
    dsimp only [sockStep]
    unfold connect
    cases hopen : n.open? fd with
    | none => exact h
    | some s =>
      dsimp only
      split
      · exact h
      case isFalse htype =>
        split
        · exact htcp
        · exact shaped_put htcp fun _ h0 => absurd h0 htype
  | listen fd => exact h
  | send fd buf =>
    dsimp only [sockStep]
    unfold send
    split
    case h_1 s data hopen =>
      split
      · exact shaped_tcp h (@step_slots up _ (.send s.transport data))
      · exact h
    · exact h
  | recv fd buf =>
    dsimp only [sockStep]
    unfold recv
    split
    case h_1 s len hopen =>
      split
      · exact shaped_tcp h (@step_slots up _ (.read s.transport len))
      · exact h
    · exact h
  | close fd =>
    dsimp only [sockStep]
    unfold close
    cases hopen : n.open? fd with
    | none => exact h
    | some s =>
      dsimp only
      split
      · exact shaped_put (shaped_tcp h (@step_slots up _ (.close s.transport))) nofun
      · exact shaped_put h nofun
  | packet src bytes => exact shaped_tcp h (@step_slots up _ (.packet src bytes))
  | tick => exact shaped_tcp h (@step_slots up _ .tick)

/-- A slot is opened only when no open socket holds its number from before, and a socket is closed
only when all that it opened is closing or can be closed through the number it holds. -/
def Careful (up : Nat → Bool) (t : Traced) : SockOp → Prop
  | .bind fd port => ∀ j, bindSlot t.net fd port = some j → ∀ q, t.net.holds q ≠ some (some j)
  | .connect fd addr port =>
    ∀ j, connectSlot up t.net fd addr port = some j → ∀ q, t.net.holds q = some (some j) → q = fd.toNat
  | .close fd =>
    ∀ s, t.net.open? fd = some s → ∀ (i : Nat) (c : Conn) (o : Opener),
      t.net.tcp.conns[i]? = some c →
    c.used = true → t.opener i = some o → o.owner = t.number fd.toNat →
      (s.transport = i ∧ c.closable up t.net.tcp.wire = true) ∨ c.state.leaving = true
  | _ => True

def ActsOnOwn (up : Nat → Bool) (t : Traced) (op : SockOp) : Prop :=
  ∀ fd, ((∃ buf, op = .send fd buf) ∨ ∃ buf, op = .recv fd buf) → ∀ i : Nat,
    (tracedStep up t op).net.tcp.conns[i]? ≠ t.net.tcp.conns[i]? →
      t.opener i = some ⟨t.number fd.toNat, true⟩

theorem sane_apart_fade (hs : Sane t.board) (ha : Apart t.board) (hh : net.holds = t.net.holds)
    (hf : Slots.Fades t.net.tcp.slot net.tcp.slot) :
    Sane ({ t with net := net } : Traced).board ∧ Apart ({ t with net := net } : Traced).board := by
  have hboard : ({ t with net := net } : Traced).board = { t.board with slot := net.tcp.slot } := by
    unfold board
    rw [hh]
  rw [hboard]
  exact ⟨hs.fade hf, ha.fade hf⟩

theorem closed_slots (hn : Shaped t.net) (hopen : t.net.open? fd = some s) :
    (∀ i o, t.opener i = some o → o.owner = t.number fd.toNat → (close up t.net fd).2.tcp.slot i ≠
      some false) ↔
      Careful up t (.close fd) := by
  obtain ⟨-, hfade, hget⟩ := @close_spec up _ _ _ hn hopen
  have hslot : ∀ (i : Nat) (c : Conn), t.net.tcp.conns[i]? = some c → c.used = true →
      ((close up t.net fd).2.tcp.slot i ≠ some false ↔
        (s.transport = i ∧ c.closable up t.net.tcp.wire = true) ∨ c.state.leaving = true) := by
    intro i c hc hu
    unfold Tcp.slot
    rw [hget i c hc, bind_some]
    have hseen : ∀ d : Conn, d.seen ≠ some false ↔ (d.used = true → d.state.leaving = true) := by
      intro d
      unfold Conn.seen
      split
      case isTrue h => simp [h]
      case isFalse h => simp [h]
    rw [hseen]
    split
    case isTrue h => rw [close_leaves hu, and_iff_right h]
    case isFalse h => simp [h, hu]
  constructor
  · intro h s' hs' i c o hc hu ho hown
    rw [hopen] at hs'
    obtain rfl := Option.some.inj hs'
    exact (hslot i c hc hu).mp (h i o ho hown)
  · intro h i o ho hown hfalse
    have hne := (hfade i (by rw [hfalse]; nofun)).1
    unfold Tcp.slot at hne
    cases hc : t.net.tcp.conns[i]? with
    | none =>
      rw [hc] at hne
      exact hne rfl
    | some c =>
      have hu : c.used = true := by
        by_contra hu
        rw [hc, bind_some] at hne
        exact hne (if_neg hu)
      exact (hslot i c hc hu).mpr (h s hopen i c o hc hu ho hown) hfalse

theorem step_apart (hn : Shaped t.net) (hs : Sane t.board) (ha : Apart t.board) (op : SockOp) :
    Sane (tracedStep up t op).board ∧ (Apart (tracedStep up t op).board ↔ Careful up t op) := by
  have hquiet : ∀ {net : Sockets}, net.holds = t.net.holds →
    Slots.Fades t.net.tcp.slot net.tcp.slot → Sane ({ t with net := net } : Traced).board ∧
        (Apart ({ t with net := net } : Traced).board ↔ True) := by
    intro net hh hf
    obtain ⟨h1, h2⟩ := sane_apart_fade hs ha hh hf
    exact ⟨h1, iff_true_intro h2⟩
  cases op with
  | socket domain type protocol =>
    unfold tracedStep
    dsimp only [sockStep]
    obtain ⟨hfail, -⟩ | ⟨p, hp, hfree, hholds, htcp⟩ := socket_spec t.net domain type protocol
    · rw [if_pos hfail]
      exact ⟨hs, iff_of_true ha trivial⟩
    rw [if_neg (by omega), hp, Int.toNat_natCast]
    have hboard : ({ t with
        net := (socket t.net domain type protocol).2
        number := fun i => if i = p then t.next else t.number i
        next := t.next + 1 } : Traced).board = t.board.enter p := by
      unfold board Board.enter
      rw [hholds, htcp]
      congr 1
      funext i
      rw [update_apply]
    rw [hboard]
    exact ⟨hs.enter hfree, iff_of_true (ha.enter hs hfree) trivial⟩
  | bind fd port =>
    unfold tracedStep
    dsimp only [sockStep]
    obtain ⟨hholds, ⟨hnone, htcp⟩ | ⟨j, hj, hne, hslot⟩⟩ := bind_spec t.net fd port
    · rw [hnone]
      obtain ⟨h1, h2⟩ := sane_apart_fade hs ha hholds (htcp ▸ Slots.fades_refl)
      refine ⟨h1, iff_of_true h2 ?_⟩
      intro j hj
      rw [hnone] at hj
      cases hj
    · rw [hj]
      have hboard : ({ t with
          net := (bind t.net fd port).2
          opener := t.opens (some j) ⟨t.number fd.toNat, false⟩ } : Traced).board =
            t.board.open fd.toNat j false := by
        unfold board Board.open
        congr 1
        funext i
        rw [update_apply]
        unfold Traced.opens
        simp only [Option.some.injEq, eq_comm]
      rw [hboard, ha.open hs hne]
      refine ⟨hs.open hne, ?_⟩
      simp only [Careful, hj, Option.some.injEq, forall_eq']
      simp [board]
  | connect fd addr port =>
    unfold tracedStep
    dsimp only [sockStep]
    obtain ⟨hnone, hholds, hfade⟩ | ⟨j, hj, hne, hholds, hslot⟩ := @connect_spec up t.net fd addr port
    · rw [hnone]
      obtain ⟨h1, h2⟩ := sane_apart_fade hs ha hholds hfade
      refine ⟨h1, iff_of_true h2 ?_⟩
      intro j hj
      rw [hnone] at hj
      cases hj
    · rw [hj]
      have hboard : ({ t with
          net := (connect up t.net fd addr port).2
          opener := t.opens (some j) ⟨t.number fd.toNat, true⟩ } : Traced).board =
            t.board.open fd.toNat j true := by
        unfold board Board.open
        congr 1
        funext i
        rw [update_apply]
        unfold Traced.opens
        simp only [Option.some.injEq, eq_comm]
      rw [hboard, ha.open hs hne]
      refine ⟨hs.open hne, ?_⟩
      simp only [Careful, hj, Option.some.injEq, forall_eq']
      simp [board]
  | listen fd => exact hquiet rfl Slots.fades_refl
  | send fd buf =>
    have hnet : (send up t.net fd buf).2.holds = t.net.holds ∧
        Slots.Fades t.net.tcp.slot (send up t.net fd buf).2.tcp.slot := by
      unfold send
      split
      case h_1 s data hopen =>
        split
        · exact ⟨rfl, @step_fades _ _ (.send s.transport data) (fun _ => nofun) fun _ _ => nofun⟩
        · exact ⟨rfl, Slots.fades_refl⟩
      · exact ⟨rfl, Slots.fades_refl⟩
    exact hquiet hnet.1 hnet.2
  | recv fd buf =>
    have hnet : (recv t.net fd buf).2.2.holds = t.net.holds ∧
        Slots.Fades t.net.tcp.slot (recv t.net fd buf).2.2.tcp.slot := by
      unfold recv
      split
      case h_1 s len hopen =>
        split
        · exact ⟨rfl, @step_fades up _ (.read s.transport len) (fun _ => nofun) fun _ _ => nofun⟩
        · exact ⟨rfl, Slots.fades_refl⟩
      · exact ⟨rfl, Slots.fades_refl⟩
    exact hquiet hnet.1 hnet.2
  | close fd =>
    cases hopen : t.net.open? fd with
    | none =>
      have hclose : (close up t.net fd).2 = t.net := by
        unfold close
        rw [hopen]
      rw [show tracedStep up t (.close fd) = { t with net := (close up t.net fd).2 } from rfl, hclose]
      refine ⟨hs, iff_of_true ha ?_⟩
      intro s hs'
      rw [hopen] at hs'
      cases hs'
    | some s =>
      obtain ⟨hholds, hfade, -⟩ := @close_spec up _ _ _ hn hopen
      have hne : t.board.holds fd.toNat ≠ none := by
        rw [show t.board.holds fd.toNat = _ from holds_of_open hopen]
        nofun
      have hboard : (tracedStep up t (.close fd)).board = t.board.leave fd.toNat
          (close up t.net fd).2.tcp.slot := by
        unfold tracedStep board Board.leave
        dsimp only [sockStep]
        rw [hholds]
      rw [hboard]
      refine ⟨hs.leave hfade, (ha.leave hs hne hfade).trans (closed_slots hn hopen)⟩
  | packet src bytes =>
    exact hquiet rfl (@step_fades _ _ (.packet src bytes) (fun _ => nofun) fun _ _ => nofun)
  | tick => exact hquiet rfl (@step_fades _ _ .tick (fun _ => nofun) fun _ _ => nofun)

theorem opener_of_held (ha : Apart t.board) (hopen : t.net.open? fd = some s) {i : Nat}
    (hi : s.transport = i) (hc : t.net.tcp.conns[i]? = some c) (hu : c.used = true) :
    t.opener i = some ⟨t.number fd.toNat, true⟩ := by
  refine ha.own fd.toNat i ?_ ?_
  · refine (holds_of_open hopen).trans ?_
    rw [hi, if_neg (by omega), Int.toNat_natCast]
  unfold board Tcp.slot Conn.seen
  dsimp only
  rw [hc, bind_some, if_pos hu]
  nofun

theorem setConn_acts {s : Tcp} {c e : Conn} {w : Wire} {i : Nat} (hc : s.conn? handle = some c)
    (he : c.used = false → e = c) (hi : (s.setConn handle e w).conns[i]? ≠ s.conns[i]?) :
    handle = i ∧ s.conns[i]? = some c ∧ c.used = true := by
  obtain ⟨hh, hget⟩ := conn_get hc
  by_cases hji : handle.toNat = i
  · subst hji
    refine ⟨hh, hget, ?_⟩
    by_contra hu
    have hlt := (List.getElem?_eq_some_iff.mp hget).1
    have hset : (s.setConn handle e w).conns[handle.toNat]? = some e := List.getElem?_set_self hlt
    rw [hset, he (Bool.eq_false_iff.mpr hu), hget] at hi
    exact hi rfl
  · exact absurd (List.getElem?_set_ne hji) hi

theorem acts_on_own (ha : Apart t.board) (op : SockOp) : ActsOnOwn up t op := by
  rintro fd (⟨buf, rfl⟩ | ⟨buf, rfl⟩) i hi
  · replace hi : (send up t.net fd buf).2.tcp.conns[i]? ≠ t.net.tcp.conns[i]? := hi
    unfold send at hi
    split at hi
    case h_1 s data hopen =>
      split at hi
      · unfold tcpSend at hi
        split at hi
        · exact absurd rfl hi
        case h_2 c hc =>
          obtain ⟨h1, h2, h3⟩ := setConn_acts hc (fun hu => by simp [Conn.send, hu]) hi
          exact opener_of_held ha hopen h1 h2 h3
      · exact absurd rfl hi
    · exact absurd rfl hi
  · replace hi : (recv t.net fd buf).2.2.tcp.conns[i]? ≠ t.net.tcp.conns[i]? := hi
    unfold recv at hi
    split at hi
    case h_1 s len hopen =>
      split at hi
      · unfold tcpReceive at hi
        split at hi
        · exact absurd rfl hi
        case h_2 c hc =>
          obtain ⟨h1, h2, h3⟩ := setConn_acts hc (fun hu => by simp [Conn.read, hu]) hi
          exact opener_of_held ha hopen h1 h2 h3
      · exact absurd rfl hi
    · exact absurd rfl hi

theorem tracedStep_shaped (h : Shaped t.net) (op : SockOp) : Shaped (tracedStep up t op).net := by
  have hstep := @sockStep_shaped up _ h op
  cases op with
  | socket domain type protocol =>
    unfold tracedStep
    dsimp only
    split
    · exact h
    · exact hstep
  | _ => exact hstep

theorem holds_eq_none (h : ∀ s ∈ n.sockets, s.used = false) (p : Nat) : n.holds p = none := by
  refine Option.bind_eq_none_iff.mpr fun s hs => ?_
  unfold Socket.seen
  rw [h s (mem_of_getElem? hs)]
  rfl

theorem tracedInit_apart (ip : IPv4Address) :
    Shaped (tracedInit ip).net ∧ Sane (tracedInit ip).board ∧ Apart (tracedInit ip).board := by
  have hholds : ∀ p, (tracedInit ip).board.holds p = none :=
    holds_eq_none fun s hs => by rw [eq_of_mem_replicate hs]
  have hslot : ∀ i, (tracedInit ip).board.slot i = none := by
    intro i
    refine Option.bind_eq_none_iff.mpr fun c hc => ?_
    rw [eq_of_mem_replicate (mem_of_getElem? hc)]
    rfl
  refine ⟨⟨(length_replicate ..).le, fun s hs hu => ?_⟩, ⟨?_, ?_, ?_⟩, ⟨?_, ?_, ?_⟩⟩
  · rw [eq_of_mem_replicate hs] at hu
    cases hu
  · exact fun p hp => absurd (hholds p) hp
  · exact fun p q hp => absurd (hholds p) hp
  · exact fun i hi => absurd (hslot i) hi
  · exact fun p i hp => by rw [hholds] at hp; cases hp
  · exact fun p q i hp => by rw [hholds] at hp; cases hp
  · exact fun i o hi => by rw [hslot] at hi; cases hi

theorem sockets_apart_iff (up : Nat → Bool) (ip : IPv4Address) (ops : List SockOp) :
    Along (tracedStep up) (fun t op => ActsOnOwn up t op ∧ Apart (tracedStep up t op).board)
      (tracedInit ip) ops ↔
      Along (tracedStep up) (Careful up) (tracedInit ip) ops := by
  refine Along.congr (I := fun t => Shaped t.net ∧ Sane t.board ∧ Apart t.board) ?_ ?_ ops
    (tracedInit_apart ip)
  · rintro t op ⟨hn, hs, ha⟩
    rw [and_iff_right (acts_on_own ha op)]
    exact (step_apart hn hs ha op).2
  · rintro t op ⟨hn, hs, ha⟩ ⟨-, h⟩
    exact ⟨tracedStep_shaped hn op, (@step_apart up _ hn hs ha op).1, h⟩

end

def resetFirst : SockOp :=
  let start := headerStart 80 ephemeralPortFirst 1 2 rst 0
  .packet sampleClient
    (packet start (htons (tcpChecksum sampleClient sampleServer (packet start 0 []))) [])

def staleHandle : List SockOp :=
  [.socket 2 1 0, .connect 0 sampleClient 80, resetFirst, .socket 2 1 0, .connect 1 sampleClient 80]

def leftListener : List SockOp := [.socket 2 1 0, .bind 0 80, .close 0]

def acceptFirst : SockOp :=
  let start := headerStart 80 ephemeralPortFirst 1 2 (syn ||| ack) 4096
  .packet sampleClient
    (packet start (htons (tcpChecksum sampleClient sampleServer (packet start 0 []))) [])

def leftConnection : List SockOp :=
  [.socket 2 1 0, .connect 0 sampleClient 80, acceptFirst, .send 0 (some [7]), .close 0]

theorem sockets_not_apart :
    ¬Apart (runFrom (tracedStep fun _ => true) (tracedInit sampleServer) staleHandle).board ∧
    ¬Apart (runFrom (tracedStep fun _ => true) (tracedInit sampleServer) leftListener).board ∧
    ¬Apart (runFrom (tracedStep fun _ => true) (tracedInit sampleServer) leftConnection).board := by
  refine ⟨fun h => ?_, fun h => ?_, fun h => ?_⟩
  · exact absurd (h.single 0 1 0 (by decide +kernel) (by decide +kernel) (by decide +kernel)) (by decide)
  · obtain ⟨p, hp, -⟩ := h.gone 0 ⟨0, false⟩ (by decide +kernel) (by decide +kernel)
    exact hp (holds_eq_none (by decide +kernel) p)
  · obtain ⟨p, hp, -⟩ := h.gone 0 ⟨0, true⟩ (by decide +kernel) (by decide +kernel)
    exact hp (holds_eq_none (by decide +kernel) p)

end BlockOS.Net
