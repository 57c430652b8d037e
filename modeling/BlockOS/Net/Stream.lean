import BlockOS.Net.Acks

/-! The receive stream of a connection. -/

namespace BlockOS.Net
open Words Buffer Runs List
open Receiver (rxHead rxTail)

def Receiver.buffered (r : Receiver) : List Byte := slice r.rx r.rxHead (r.rxTail - r.rxHead)

def IsPart (stream : List Byte) (irs seq : Seq) (data : List Byte) : Prop :=
  data <+: stream.drop (seq - (irs + 1)).toNat

instance (stream : List Byte) (irs seq : Seq) (data : List Byte) :
    Decidable (IsPart stream irs seq data) := inferInstanceAs (Decidable (_ <+: _))

structure Received (stream : List Byte) (irs : Seq) (out : List Byte) (r : Receiver) : Prop where
  head_le : r.rxHead ≤ r.rxTail
  tail_le : r.rxTail ≤ rxBufferSize
  bytes : out ++ r.buffered <+: stream
  nxt : r.rcvNxt = irs + 1 + BitVec.ofNat 32 (out ++ r.buffered).length
  ooo : r.ooo.used = true → IsPart stream irs r.ooo.seq r.ooo.data

section Stream

variable {stream : List Byte} {irs : Seq} {out : List Byte} {c : Conn} {r : Receiver}

theorem Received.offset (hl : stream.length < 2147483648) (h : Received stream irs out r) :
    (r.rcvNxt - (irs + 1)).toNat = (out ++ r.buffered).length := by
  have hle := h.bytes.length_le
  have hx : r.rcvNxt - (irs + 1) = BitVec.ofNat 32 (out ++ r.buffered).length := by
    rw [h.nxt, BitVec.add_comm]
    exact BitVec.add_sub_cancel _ _
  rw [hx, BitVec.toNat_ofNat]
  omega

theorem Received.append (hl : stream.length < 2147483648) (h : Received stream irs out r)
    (hd : IsPart stream irs r.rcvNxt data) :
    out ++ r.buffered ++ data <+: stream := by
  obtain ⟨rest, hr⟩ := h.bytes
  unfold IsPart at hd
  rw [h.offset hl, ← hr, drop_left] at hd
  rw [← hr]
  exact (prefix_append_right_inj _).mpr hd

theorem rxAvailable_eq (h : c.rxHead ≤ c.rxTail) : rxAvailable c = c.rxTail - c.rxHead :=
  if_neg (by omega)

theorem rxPush_spec (data : List Byte) (h1 : c.rxHead ≤ c.rxTail) (h2 : c.rxTail ≤ rxBufferSize) :
    let p := rxPush c data
    p.2.rxHead ≤ p.2.rxTail ∧ p.2.rxTail ≤ rxBufferSize ∧ p.2.rcvNxt = c.rcvNxt ∧ p.2.ooo = c.ooo ∧
      p.2.receiver.buffered = c.receiver.buffered ++ if p.1 then data else [] := by
  have hb : c.receiver.buffered = slice c.rx c.rxHead (c.rxTail - c.rxHead) := rfl
  have happ : ∀ d : Conn, d.rxHead ≤ d.rxTail →
      slice (blit d.rx d.rxTail data) d.rxHead (d.rxTail + data.length - d.rxHead) =
        slice d.rx d.rxHead (d.rxTail - d.rxHead) ++ data := by
    intro d hd
    have := slice_blit_append d.rx d.rxHead (d.rxTail - d.rxHead) data
    rwa [show d.rxHead + (d.rxTail - d.rxHead) = d.rxTail by omega,
      show d.rxTail - d.rxHead + data.length = d.rxTail + data.length - d.rxHead by omega] at this
  unfold rxPush
  split
  case isTrue h0 =>
    have : data = [] := length_eq_zero_iff.mp h0
    exact ⟨h1, h2, rfl, rfl, by simp [this]⟩
  case isFalse h0 =>
    split
    case isTrue => exact ⟨h1, h2, rfl, rfl, by simp⟩
    case isFalse hf =>
      -- the buffer after the compaction, if there is one
      generalize hd : (if c.rxTail + data.length > rxBufferSize then c.compact else c) = d
      have hc : d.rxHead ≤ d.rxTail ∧ d.rxTail ≤ rxBufferSize ∧ d.rcvNxt = c.rcvNxt ∧ d.ooo = c.ooo ∧
          slice d.rx d.rxHead (d.rxTail - d.rxHead) = c.receiver.buffered := by
        rw [← hd]
        split
        · have ha := rxAvailable_eq h1
          refine ⟨Nat.zero_le _, ?_, rfl, rfl, ?_⟩
          · show rxAvailable c ≤ rxBufferSize
            omega
          have := slice_blit c.rx 0 (slice c.rx c.rxHead (rxAvailable c))
          rw [length_slice] at this
          rw [hb, ← ha]
          exact this
        · exact ⟨h1, h2, rfl, rfl, rfl⟩
      obtain ⟨hd1, hd2, hd3, hd4, hd5⟩ := hc
      dsimp only
      split
      case isTrue => exact ⟨hd1, hd2, hd3, hd4, by rw [if_neg nofun, append_nil]; exact hd5⟩
      case isFalse ht =>
        refine ⟨?_, Nat.le_of_not_lt ht, hd3, hd4, ?_⟩
        · show d.rxHead ≤ d.rxTail + data.length
          omega
        · rw [if_pos rfl, ← hd5]
          exact happ d hd1

theorem Received.push (hl : stream.length < 2147483648) (h : Received stream irs out c.receiver)
    {data : List Byte} (hd : IsPart stream irs c.rcvNxt data) :
    let p := rxPush c data
    Received stream irs out (if p.1 then
      { p.2.receiver with rcvNxt := p.2.rcvNxt + BitVec.ofNat 32 data.length } else p.2.receiver) := by
  obtain ⟨h1, h2, h3, h4, h5⟩ := rxPush_spec data h.head_le h.tail_le
  have happ := h.append hl hd
  have hooo : (rxPush c data).2.ooo.used = true →
      IsPart stream irs (rxPush c data).2.ooo.seq (rxPush c data).2.ooo.data := by
    rw [h4]
    exact h.ooo
  dsimp only
  split
  case isTrue hp =>
    rw [hp, if_pos rfl] at h5
    have h6 : out ++ (rxPush c data).2.receiver.buffered = out ++ c.receiver.buffered ++ data := by
      rw [h5, append_assoc]
    refine ⟨h1, h2, ?_, ?_, hooo⟩
    · show out ++ (rxPush c data).2.receiver.buffered <+: stream
      rw [h6]
      exact happ
    show (rxPush c data).2.rcvNxt + _ = irs + 1 + BitVec.ofNat 32
      (out ++ (rxPush c data).2.receiver.buffered).length
    have hlen : (out ++ c.receiver.buffered ++ data).length =
        (out ++ c.receiver.buffered).length + data.length := length_append
    rw [h6, hlen, h3, show c.rcvNxt = _ from h.nxt, BitVec.ofNat_add, BitVec.add_assoc]
  case isFalse hp =>
    have hp : (rxPush c data).1 = false := by simpa using hp
    rw [hp, if_neg nofun, append_nil] at h5
    refine ⟨h1, h2, by rw [h5]; exact h.bytes, ?_, hooo⟩
    rw [h5]
    exact h3.trans h.nxt

theorem Received.consume (hl : stream.length < 2147483648)
    (h : Received stream irs out c.receiver) :
    Received stream irs out (consumeOutOfOrder c).receiver := by
  unfold consumeOutOfOrder
  split
  case isTrue => exact h
  case isFalse hu =>
    split
    case isTrue => exact h
    case isFalse hq =>
      have hd : IsPart stream irs c.rcvNxt c.ooo.data := by
        have hu : c.ooo.used = true := by simpa using hu
        have := h.ooo hu
        rwa [show c.receiver.ooo.seq = c.rcvNxt from not_not.mp hq] at this
      have hp := h.push hl hd
      dsimp only at hp ⊢
      split
      case isTrue ht =>
        rw [if_pos ht] at hp
        exact ⟨hp.head_le, hp.tail_le, hp.bytes, hp.nxt, nofun⟩
      case isFalse ht => rwa [if_neg ht] at hp

theorem Received.onPayload (hl : stream.length < 2147483648)
    (h : Received stream irs out c.receiver)
    (hd : IsPart stream irs seg.seq seg.payload) :
    Received stream irs out (Net.onPayload c seg).receiver := by
  unfold Net.onPayload
  split
  case isTrue hs =>
    have hp := h.push hl (hs ▸ hd)
    dsimp only at hp ⊢
    split
    case isTrue ht =>
      rw [if_pos ht] at hp
      exact Received.consume hl hp
    case isFalse ht => rwa [if_neg ht] at hp
  case isFalse =>
    split
    · unfold queueOutOfOrder
      split_ifs
      · exact h
      · exact h
      · exact h
      · exact h
      · exact ⟨h.head_le, h.tail_le, h.bytes, h.nxt, fun _ => hd⟩
    · exact h

theorem Received.read (h : Received stream irs out c.receiver) (n : Nat) :
    Received stream irs (out ++ (c.read n).2.1) (c.read n).2.2.receiver := by
  have ha := rxAvailable_eq h.head_le
  unfold Conn.read
  split
  · simpa using h
  split
  · simpa using h
  dsimp only
  generalize hm : (if n > rxAvailable c then rxAvailable c else n) = m
  have hm : c.rxHead + m ≤ c.rxTail := by
    have := h.head_le
    have : c.rxHead ≤ c.rxTail := this
    rw [← hm]
    split <;> omega
  have hsplit : c.receiver.buffered =
      slice c.rx c.rxHead m ++ slice c.rx (c.rxHead + m) (c.rxTail - (c.rxHead + m)) := by
    rw [← slice_add]
    show slice c.rx c.rxHead (c.rxTail - c.rxHead) = _
    rw [show c.rxTail - c.rxHead = m + (c.rxTail - (c.rxHead + m)) by omega]
  have hb : out ++ c.receiver.buffered = out ++ slice c.rx c.rxHead m ++
      slice c.rx (c.rxHead + m) (c.rxTail - (c.rxHead + m)) := by
    rw [hsplit, append_assoc]
  have hbytes := h.bytes
  have hnxt := h.nxt
  rw [hb] at hbytes hnxt
  unfold rxResetIfEmpty
  dsimp only
  split
  case isTrue he =>
    -- all was read, and the buffer starts anew
    rw [show c.rxTail - (c.rxHead + m) = 0 by omega, slice_zero] at hbytes hnxt
    exact ⟨Nat.le_refl _, Nat.zero_le _, hbytes, hnxt, h.ooo⟩
  case isFalse => exact ⟨hm, h.tail_le, hbytes, hnxt, h.ooo⟩

end Stream

variable {up : Nat → Bool} {tick : Seq} {c : Conn} {seg : Segment} {w : Wire} {a : Sender}

def Past (st : TcpState) (a : Sender) : Prop :=
  a.used = true → a.state.handshake = false ∧ (a.state = .established → st = .established)

theorem Past.acked (h : Past st a) : Past st (a.acked ackNo) := by
  have h1 : Past st a.ackSyn := fun hu => by
    have hu : a.used = true := by
      unfold Sender.ackSyn at hu
      split at hu <;> exact hu
    have hs : a.ackSyn = a := if_neg fun h0 => by
      have := (h hu).1
      rw [h0] at this
      cases this
    rw [hs]
    exact h hu
  have h2 : Past st (a.ackSyn.ackFin ackNo) := by
    unfold Sender.ackFin
    split
    · intro hu
      dsimp only
      split <;> exact ⟨rfl, nofun⟩
    · exact h1
  unfold Sender.acked Sender.ackLast
  split
  · exact nofun
  · exact h2

theorem Past.finish (h : Past st a) (taken : Bool) : Past st (a.finish taken) := by
  intro hu
  rw [finish_used] at hu
  have h1 := h hu
  clear h hu
  obtain ⟨u, st', una, nxt, tu, ts, te, fs, fr⟩ := a
  cases st' <;> cases taken <;> cases tu <;> cases fs <;> cases fr <;>
    first | exact h1 | exact ⟨rfl, nofun⟩

theorem onData_past (h : c.state.handshake = false) :
    Past c.state (onData up tick c seg w).1.sender := by
  have hc : Past c.state c.sender := fun _ => ⟨h, id⟩
  cases hw : outOfWindow c seg with
  | true =>
    rw [onData, hw]
    exact hc
  | false =>
    rw [onData_sender up tick w hw]
    apply Past.finish
    obtain ⟨-, hr | hr⟩ | ⟨-, hr⟩ := ackPart_cases up tick w hw
    · intro hu
      exact absurd (hr.symm.trans hu) (by decide)
    · rw [hr.sender]
      exact hc
    · rw [hr, acked_sender]
      exact Past.acked (a := c.sender.release seg.ackNo) hc

theorem finish_true_state (a : Sender) : (a.finish true).state ≠ .established := by
  obtain ⟨u, st, una, nxt, tu, ts, te, fs, fr⟩ := a
  cases st <;> cases tu <;> cases fs <;> cases fr <;> nofun

theorem settle_receiver (c : Conn) : (settleState tick c).receiver = c.receiver := by
  unfold settleState leaveClosing leaveFinWait2 leaveFinWait1
  split_ifs <;> rfl

def Quiet (c c' : Conn) : Prop := c'.rxHead = c.rxHead ∧ c'.rxTail = c.rxTail ∧ c'.ooo = c.ooo

theorem SameStreams.quiet (h : SameStreams c c') : Quiet c c' :=
  ⟨congrArg rxHead h.receiver, congrArg rxTail h.receiver, congrArg Receiver.ooo h.receiver⟩

theorem sendTracked_quiet (up : Nat → Bool) (tick : Seq) (w : Wire) (c : Conn) (flags : Byte)
    (payload : List Byte) :
    (sendTrackedSegment up tick c flags payload w).2.1.receiver = c.receiver ∧
      (sendTrackedSegment up tick c flags payload w).2.1.state = c.state := by
  obtain ⟨-, hr⟩ | ⟨-, -, -, hr⟩ := sendTrackedSegment_cases up tick c flags payload w <;>
    rw [hr] <;> exact ⟨rfl, rfl⟩

theorem onSegment_quiet (up : Nat → Bool) (tick : Seq) (src : IPv4Address) (seg : Segment)
    (w : Wire)
    (h : c.state.handshake = true) :
    Quiet c (onSegment up tick c src seg w).1 := by
  obtain ⟨hs, -⟩ | ⟨-, hr⟩ | ⟨-, hr⟩ | ⟨-, hr⟩ | ⟨h1, h2, h3, h4, -⟩ :=
    onSegment_cases up tick c src seg w
  · rw [hs] at h
    cases h
  · rw [hr]
    unfold onListen
    split
    · exact ⟨rfl, rfl, rfl⟩
    dsimp only
    generalize hd : Conn.mk _ _ _ _ _ _ _ _ _ _ _ _ _ _ _ _ _ _ _ _ _ _ _ = d
    have hq := (sendTracked_quiet up tick w d (syn ||| ack) []).1
    refine ⟨(congrArg rxHead hq).trans ?_, (congrArg rxTail hq).trans ?_,
      (congrArg Receiver.ooo hq).trans ?_⟩ <;> rw [← hd] <;> rfl
  · rw [hr]
    unfold onSynSent
    split
    · split <;> exact ⟨rfl, rfl, rfl⟩
    · split <;> exact ⟨rfl, rfl, rfl⟩
  · rw [hr]
    unfold onSynReceived
    split
    · split <;> exact ⟨rfl, rfl, rfl⟩
    · exact ⟨rfl, rfl, rfl⟩
  · cases hs : c.state <;> simp_all [TcpState.handshake]

theorem ackPart_receiver (hw : outOfWindow c seg = false)
    (hu : (ackPart up tick c seg w).1.used = true) :
    (ackPart up tick c seg w).1.receiver = c.receiver := by
  obtain ⟨-, hr | hr⟩ | ⟨-, hr⟩ := ackPart_cases up tick w hw
  · exact absurd (hr.symm.trans hu) nofun
  · exact hr.receiver
  obtain h0 | h0 := acked_cases (c.release tick seg.ackNo) seg.ackNo
  · rw [hr, h0] at hu
    cases hu
  · rw [hr, h0]
    rfl

theorem onData_receiver (hu : (onData up tick c seg w).1.used = true)
    (hs : (onData up tick c seg w).1.state = .established) :
    (onData up tick c seg w).1.receiver = c.receiver ∨
      (onData up tick c seg w).1.receiver = (afterPayload c seg).receiver := by
  cases hw : outOfWindow c seg with
  | true =>
    rw [onData, hw]
    exact .inl rfl
  | false =>
    have hd := onData_sender up tick w hw
    have hu' : (ackPart up tick c seg w).1.used = true := by
      have := congrArg Sender.used hd
      rw [finish_used] at this
      exact this.symm.trans hu
    have hr := ackPart_receiver hw hu'
    have ht : takesFin (ackPart up tick c seg w).1 seg = false := by
      by_contra h0
      rw [Bool.not_eq_false] at h0
      have hs' : (onData up tick c seg w).1.sender.state = .established := hs
      rw [hd, h0] at hs'
      exact finish_true_state _ hs'
    right
    rw [onData_eq hw]
    dsimp only
    rw [ht, if_neg Bool.false_ne_true, settle_receiver]
    unfold afterPayload
    split
    · exact hr
    · exact onPayload_congr hr seg

def Empty (c : Conn) : Prop := c.rxHead = 0 ∧ c.rxTail = 0 ∧ c.ooo.used = false

theorem Quiet.empty (h : Quiet c c') (he : Empty c) : Empty c' :=
  ⟨h.1.trans he.1, h.2.1.trans he.2.1, (congrArg _ h.2.2).trans he.2.2⟩

def Fresh (c : Conn) : Prop := c.used = true → c.state.handshake = true → Empty c

def Opens (c c' : Conn) : Prop :=
  Fresh c' ∧ (c'.used = true → c'.state = .established → Empty c' ∨ c.used = true ∧
    c.state = .established)

theorem Opens.of_not_used (h : c'.used = false) : Opens c c' :=
  ⟨fun h0 => absurd (h.symm.trans h0) nofun, fun h0 => absurd (h.symm.trans h0) nofun⟩

theorem Opens.of_quiet (hf : Fresh c) (hu : c'.used = c.used) (hs : c'.state = c.state)
    (hq : Quiet c c') : Opens c c' :=
  ⟨fun h0 h1 => hq.empty (hf (hu.symm.trans h0) (hs ▸ h1)),
    fun h0 h1 => .inr ⟨hu.symm.trans h0, hs.symm.trans h1⟩⟩

theorem Opens.of_past (h : Past c.state c'.sender) (hu : c.used = true) : Opens c c' :=
  ⟨fun h0 h1 => absurd ((h h0).1.symm.trans h1) nofun, fun h0 h1 => .inr ⟨hu, (h h0).2 h1⟩⟩

theorem Opens.segment (hf : Fresh c) (hu : c.used = true) (src : IPv4Address) :
    Opens c (onSegment up tick c src seg w).1 := by
  cases hs : c.state.handshake with
  | true =>
    have he := (onSegment_quiet up tick src seg w hs).empty (hf hu hs)
    exact ⟨fun _ _ => he, fun _ _ => .inl he⟩
  | false =>
    obtain ⟨-, hr⟩ | ⟨h0, -⟩ | ⟨h0, -⟩ | ⟨h0, -⟩ | ⟨-, -, -, -, hr⟩ :=
      onSegment_cases up tick c src seg w
    · rw [hr]
      exact .of_quiet hf rfl rfl ⟨rfl, rfl, rfl⟩
    · rw [h0] at hs
      cases hs
    · rw [h0] at hs
      cases hs
    · rw [h0] at hs
      cases hs
    · rw [hr]
      exact .of_past (onData_past (c := c.withWindow seg.window) hs) hu

theorem Opens.read (hf : Fresh c) (n : Nat) : Opens c (c.read n).2.2 := by
  have hu : (c.read n).2.2.used = c.used ∧ (c.read n).2.2.state = c.state := by
    unfold Conn.read rxResetIfEmpty
    dsimp only
    split_ifs <;> exact ⟨rfl, rfl⟩
  refine ⟨fun h0 h1 => ?_, fun h0 h1 => .inr ⟨hu.1.symm.trans h0, hu.2.symm.trans h1⟩⟩
  have he : Empty c := hf (hu.1.symm.trans h0) (hu.2 ▸ h1)
  have ha : rxAvailable c = 0 := by
    rw [rxAvailable, he.1, he.2.1]
    rfl
  have hc : (c.read n).2.2 = c := by
    unfold Conn.read
    rw [if_pos ha]
    split <;> rfl
  rw [hc]
  exact he

theorem Opens.close (hf : Fresh c) : Opens c (c.close up tick w).2.1 := by
  have hc : Opens c c := .of_quiet hf rfl rfl ⟨rfl, rfl, rfl⟩
  have hfin : ∀ next : TcpState, next.handshake = false → next ≠ .established →
      Opens c (c.sendFin up tick next w).2.1 := by
    intro next h1 h2
    unfold Conn.sendFin
    split
    · exact hc
    dsimp only
    obtain ⟨hb, hr⟩ | ⟨hb, -, -, -⟩ := sendTrackedSegment_cases up tick c (fin ||| ack) [] w
    · rw [hb, if_neg nofun, hr]
      exact hc
    · rw [hb, if_pos rfl]
      exact ⟨fun _ h3 => absurd (h1.symm.trans h3) nofun, fun _ h3 => absurd h3 h2⟩
  unfold Conn.close
  split
  · exact hc
  split
  case h_1 => exact hfin .finWait1 rfl nofun
  case h_2 => exact hfin .lastAck rfl nofun
  case h_6 => exact hc
  all_goals exact .of_not_used rfl

theorem onTick_cases (up : Nat → Bool) (tick : Seq) (w : Wire) (c : Conn) :
    (c.onTick up tick w).1.used = false ∨ SameStreams c (c.onTick up tick w).1 := by
  have hg : ∀ d : Conn, giveUp d = clearConnection ∨ giveUp d = d := fun d => by
    unfold giveUp
    split
    · exact .inl rfl
    · exact .inr rfl
  unfold Conn.onTick
  split
  · exact .inr ⟨rfl, rfl⟩
  split
  · dsimp only
    split
    · exact .inl rfl
    · exact .inr ⟨rfl, rfl⟩
  split
  · dsimp only
    obtain hr | hr := retransmit_cases up tick c w
    · rw [hr]
      split <;> exact .inl rfl
    split
    · obtain h0 | h0 := hg (retransmit up tick c w).2.1
      · exact .inl (by rw [h0]; rfl)
      · exact .inr (by rw [h0]; exact hr)
    · exact .inr hr
  · obtain h0 | h0 := hg c
    · exact .inl (by rw [h0]; rfl)
    · exact .inr (by rw [h0]; exact ⟨rfl, rfl⟩)

theorem send_cases (up : Nat → Bool) (tick : Seq) (w : Wire) (c : Conn) (data : List Byte) :
    (c.send up tick data w).2.1.used = c.used ∧ (c.send up tick data w).2.1.state = c.state ∧
      (c.send up tick data w).2.1.receiver = c.receiver := by
  unfold Conn.send
  split_ifs
  all_goals try exact ⟨rfl, rfl, rfl⟩
  dsimp only
  obtain ⟨-, hr⟩ | ⟨-, -, -, hr⟩ := sendTrackedSegment_cases up tick c (ack ||| psh)
    ((data.take txBufferSize).take c.advertisedWindow.toNat) w <;>
  rw [hr] <;> exact ⟨rfl, rfl, rfl⟩

theorem Moves.opens (hm : Moves up s k op c c') (hf : Fresh c) : Opens c c' := by
  cases hm with
  | stay => exact .of_quiet hf rfl rfl ⟨rfl, rfl, rfl⟩
  | listen port => exact ⟨fun _ _ => ⟨rfl, rfl, rfl⟩, fun _ => nofun⟩
  | connect dst localPort port =>
    have he : Empty (startConnect up s.currentTick dst localPort port s.wire).2.1 := by
      unfold startConnect
      dsimp only
      split
      · have hq := (sendTracked_quiet up s.currentTick s.wire (connecting dst localPort port) syn []).1
        exact ⟨congrArg rxHead hq, congrArg rxTail hq, congrArg (fun r => r.ooo.used) hq⟩
      · exact ⟨rfl, rfl, rfl⟩
    exact ⟨fun _ _ => he, fun _ _ => .inl he⟩
  | reset => exact .of_not_used rfl
  | segment src bytes seg hp hr hfind =>
    exact .segment hf (accepts_used (find?_some (p := fun d : Conn => d.accepts src seg) hfind)) src
  | send handle data =>
    obtain ⟨h1, h2, h3⟩ := send_cases up s.currentTick s.wire c data
    exact .of_quiet hf h1 h2 ⟨congrArg rxHead h3, congrArg rxTail h3, congrArg Receiver.ooo h3⟩
  | read n => exact .read hf n
  | close handle => exact .close hf
  | tick w =>
    obtain h | h := onTick_cases up (s.currentTick + 1) w c
    · exact .of_not_used h
    · exact .of_quiet hf (congrArg Sender.used h.sender) (congrArg Sender.state h.sender) h.quiet

def establishedAt (k : Nat) (s : Tcp) : Bool :=
  s.conns[k]?.any fun c => c.used && c.state == .established

def startsAt (irs : Seq) (k : Nat) (s : Tcp) : Bool :=
  s.conns[k]?.any fun c => c.used && c.state == .established && c.rcvNxt == irs + 1

def carries (stream : List Byte) (irs : Seq) (k : Nat) (s : Tcp) : TcpOp → Bool
  | .packet src bytes =>
    match parse s.wire.ip src bytes with
    | none => true
    | some seg => !(s.conns[k]?.any fun c => c.accepts src seg) || on seg.flags rst ||
        decide (IsPart stream irs seg.seq seg.payload)
  | _ => true

def output (k : Nat) (s : Tcp) : TcpOp → List Byte
  | .read handle n => if handle = k then (tcpReceive s handle n).2.1 else []
  | _ => []

def readStep (up : Nat → Bool) (k : Nat) (x : Tcp × List Byte) (op : TcpOp) : Tcp × List Byte :=
  (step up x.1 op, x.2 ++ output k x.1 op)

theorem establishedAt_iff : establishedAt k s = true ↔
    ∃ c, s.conns[k]? = some c ∧ c.used = true ∧ c.state = .established := by
  simp [establishedAt, Option.any_eq_true]

section Stream

theorem output_of_ne (h : ∀ n, op ≠ .read k n) : output k s op = [] := by
  cases op with
  | read handle n =>
    refine if_neg fun h0 => h n ?_
    rw [h0]
  | _ => rfl

theorem Received.moves (hl : stream.length < 2147483648) (hk : k < maxConnections)
    (h : Received stream irs out c.receiver) (hc : s.conns[k]? = some c)
    (hs : c.state = .established) (hm : Moves up s k op c c') (hcar : carries stream irs k s op = true)
    (hu' : c'.used = true) (hs' : c'.state = .established) :
    Received stream irs (out ++ output k s op) c'.receiver := by
  -- only a read returns bytes
  have hsame : (∀ n, op ≠ .read k n) → c'.receiver = c.receiver →
      Received stream irs (out ++ output k s op) c'.receiver := fun hop hr => by
    rw [output_of_ne hop, append_nil, hr]
    exact h
  cases hm with
  | stay hop => exact hsame (hop hk) rfl
  | listen port => cases hs'
  | connect dst localPort port =>
    exfalso
    unfold startConnect at hs'
    dsimp only at hs'
    split at hs'
    · rw [(sendTracked_quiet _ _ _ (connecting dst localPort port) syn []).2] at hs'
      cases hs'
    · cases hs'
  | reset => cases hu'
  | segment src bytes seg hp hr hfind =>
    have hacc : c.accepts src seg = true :=
      find?_some (p := fun d : Conn => d.accepts src seg) hfind
    have hpart : IsPart stream irs seg.seq seg.payload := by
      simpa [carries, hp, hc, hacc, hr] using hcar
    obtain ⟨h0, -⟩ | ⟨h0, -⟩ | ⟨h0, -⟩ | ⟨h0, -⟩ | ⟨-, -, -, -, hd⟩ :=
      onSegment_cases up s.currentTick c src seg s.wire
    · exact absurd (hs.symm.trans h0) (by decide)
    · exact absurd (hs.symm.trans h0) (by decide)
    · exact absurd (hs.symm.trans h0) (by decide)
    · exact absurd (hs.symm.trans h0) (by decide)
    rw [hd] at hu' hs' hsame ⊢
    obtain hrec | hrec := onData_receiver hu' hs'
    · exact hsame (fun _ h0 => by cases h0) hrec
    have ho : output k s (.packet src bytes) = [] := output_of_ne fun _ h0 => by cases h0
    rw [ho, append_nil, hrec]
    unfold afterPayload
    split
    · exact h
    · exact Received.onPayload (c := c.withWindow seg.window) hl h hpart
  | send handle data => exact hsame (fun _ h0 => by cases h0) (send_cases _ _ _ c data).2.2
  | read n =>
    have ho : output k s (.read k n) = (c.read n).2.1 := by
      rw [output, if_pos rfl, tcpReceive, conn_of_lt hk, hc]
    rw [ho]
    exact h.read n
  | close handle =>
    refine hsame (fun _ h0 => by cases h0) ?_
    unfold Conn.close at hs' hu' ⊢
    split
    · rfl
    rename_i hu
    rw [if_neg hu] at hs'
    simp only [hs] at hs' ⊢
    unfold Conn.sendFin at hs' ⊢
    split
    · rfl
    rename_i ht
    rw [if_neg ht] at hs'
    obtain ⟨hb, hr⟩ | ⟨hb, -, -, -⟩ :=
      sendTrackedSegment_cases up s.currentTick c (fin ||| ack) [] s.wire
    · simp only [hb, hr, Bool.false_eq_true, if_false]
    · simp only [hb, if_true] at hs'
      cases hs'
  | tick w =>
    obtain h0 | h0 := onTick_cases up (s.currentTick + 1) w c
    · exact absurd (h0.symm.trans hu') (by decide)
    · exact hsame (fun _ h0 => by cases h0) h0.receiver

theorem run_fresh (up : Nat → Bool) (ip : IPv4Address) (ops : List TcpOp) :
    ∀ c ∈ (runFrom (step up) (tcpInit ip) ops).conns, Fresh c := by
  refine Along.invariant (I := fun s : Tcp => ∀ c ∈ s.conns, Fresh c) ?_ ?_
    (Along.of_forall (fun _ _ => trivial) (tcpInit ip) ops : Along (step up) (fun _ _ => True) _ ops)
  · intro s op hs _ c' hc'
    obtain ⟨i, hi⟩ := getElem?_of_mem hc'
    obtain ⟨c, hc, hm⟩ := step_moves hi
    exact (hm.opens (hs c (mem_of_getElem? hc))).1
  · intro c hc
    rw [eq_of_mem_replicate hc]
    exact nofun

theorem received_stream_eq_take (up : Nat → Bool) (ip : IPv4Address) (before : List TcpOp)
    (op : TcpOp) (ops : List TcpOp) (stream : List Byte) (irs : Seq) (k : Nat)
    (hl : stream.length < 2 ^ 31) (hk : k < maxConnections)
    (hbefore : establishedAt k (runFrom (step up) (tcpInit ip) before) = false)
    (hstart : startsAt irs k (step up (runFrom (step up) (tcpInit ip) before) op) = true)
    (hrun : Along (readStep up k)
      (fun x op => carries stream irs k x.1 op = true ∧ establishedAt k (step up x.1 op) = true)
      (step up (runFrom (step up) (tcpInit ip) before) op, []) ops) :
    let x := runFrom (readStep up k) (step up (runFrom (step up) (tcpInit ip) before) op, []) ops
    ∃ c, x.1.conns[k]? = some c ∧ (c.rcvNxt - (irs + 1)).toNat ≤ stream.length ∧
      x.2 ++ slice c.rx c.rxHead (rxAvailable c) = stream.take (c.rcvNxt - (irs + 1)).toNat := by
  have hl : stream.length < 2147483648 := hl
  obtain ⟨c1, hc1, ⟨hu1, hs1⟩, hn1⟩ : ∃ c,
    (step up (runFrom (step up) (tcpInit ip) before) op).conns[k]? = some c ∧
        (c.used = true ∧ c.state = .established) ∧ c.rcvNxt = irs + 1 := by
    simpa [startsAt, Option.any_eq_true] using hstart
  -- the connection enters ESTABLISHED empty
  have hinit : Received stream irs [] c1.receiver := by
    obtain ⟨c0, hc0, hm⟩ := step_moves hc1
    have hf := run_fresh up ip before c0 (mem_of_getElem? hc0)
    obtain he | he := (hm.opens hf).2 hu1 hs1
    · obtain ⟨he1, he2, he3⟩ := he
      have hb : c1.receiver.buffered = [] := by
        show slice c1.rx c1.rxHead (c1.rxTail - c1.rxHead) = []
        rw [he1, he2]
        rfl
      refine ⟨?_, ?_, by rw [hb]; exact nil_prefix, ?_, fun h0 => ?_⟩
      · show c1.rxHead ≤ c1.rxTail
        omega
      · show c1.rxTail ≤ rxBufferSize
        omega
      · rw [hb]
        show c1.rcvNxt = _
        rw [hn1]
        simp
      · exact absurd (he3.symm.trans h0) nofun
    · rw [establishedAt_iff.mpr ⟨c0, hc0, he⟩] at hbefore
      cases hbefore
  have hinv := Along.invariant (I := fun x : Tcp × List Byte => ∃ c, x.1.conns[k]? = some c ∧
    c.state = .established ∧ Received stream irs x.2 c.receiver) ?_ ⟨c1, hc1, hs1, hinit⟩ hrun
  · obtain ⟨c, hc, -, hr⟩ := hinv
    refine ⟨c, hc, ?_⟩
    rw [rxAvailable_eq hr.head_le, show c.rcvNxt = c.receiver.rcvNxt from rfl, hr.offset hl]
    exact ⟨hr.bytes.length_le, prefix_iff_eq_take.mp hr.bytes⟩
  · rintro ⟨s, out⟩ op ⟨c, hc, hs, hr⟩ ⟨hcar, hest⟩
    obtain ⟨c', hc', hu', hs'⟩ := establishedAt_iff.mp hest
    obtain ⟨c₂, hc₂, hm⟩ := step_moves hc'
    obtain rfl : c₂ = c := Option.some.inj (hc₂.symm.trans hc)
    exact ⟨c', hc', hs', hr.moves hl hk hc hs hm hcar hu' hs'⟩

end Stream

def sampleArrivals : List TcpOp :=
  [clientSegment 103 2 (ack ||| psh) [0x63, 0x64], clientSegment 101 2 (ack ||| psh) [0x61, 0x62],
    .read 0 3, clientSegment 102 2 (ack ||| psh) [0x62, 0x63, 0x64], .read 0 0]

theorem received_stream_eq_take_sample :
    let x := runFrom (readStep (fun _ => true) 0)
      (step (fun _ => true) (runFrom (step fun _ => true) (tcpInit sampleServer)
        [.listen 80, clientSegment 100 0 syn []]) (clientSegment 101 2 ack []), []) sampleArrivals
    ∃ c, x.1.conns[0]? = some c ∧ (c.rcvNxt - (100 + 1)).toNat ≤ 5 ∧
      x.2 ++ slice c.rx c.rxHead (rxAvailable c) = List.take (c.rcvNxt - (100 + 1)).toNat [0x61, 0x62, 0x63, 0x64, 0x65] :=
  received_stream_eq_take (fun _ => true) sampleServer
    [.listen 80, clientSegment 100 0 syn []] (clientSegment 101 2 ack []) sampleArrivals
    [0x61, 0x62, 0x63, 0x64, 0x65] 100 0 (by decide) (by decide) (by decide +kernel)
    (by decide +kernel) (by decide +kernel)

end BlockOS.Net
