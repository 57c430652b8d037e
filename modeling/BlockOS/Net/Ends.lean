import BlockOS.Net.Acks
import BlockOS.Net.Checksum

/-! The two ends of a connection, and where the segments go that a connection sends. -/

namespace BlockOS.Net
open Words List Bool

structure Ends where
  remote : IPv4Address
  localPort : Port
  remotePort : Port
  deriving DecidableEq

def Conn.ends (c : Conn) : Ends := ⟨c.remote, c.localPort, c.remotePort⟩

def Segment.ends (seg : Segment) (src : IPv4Address) : Ends := ⟨src, seg.dstPort, seg.srcPort⟩

def Ends.Sent (e : Ends) (x : IPv4Address × List Byte) : Prop :=
  x.1 = e.remote ∧ net16 x.2 0 = e.localPort ∧ net16 x.2 2 = e.remotePort

def Emits (P : IPv4Address × List Byte → Prop) (w w' : Wire) : Prop :=
    ∃ new, w'.sent = new ++ w.sent ∧ ∀ x ∈ new, P x

section

variable {P : IPv4Address × List Byte → Prop} {w w' w'' : Wire}

theorem Emits.refl : Emits P w w := ⟨[], rfl, nofun⟩

theorem Emits.trans (h : Emits P w w') (h' : Emits P w' w'') : Emits P w w'' := by
  obtain ⟨l, hl, hP⟩ := h
  obtain ⟨l', hl', hP'⟩ := h'
  refine ⟨l' ++ l, by rw [hl', hl, append_assoc], fun x hx => ?_⟩
  exact (mem_append.mp hx).elim (hP' x) (hP x)

theorem ipv4Send_emits (up : Nat → Bool) (h : P (dst, payload)) :
    Emits P w (ipv4Send up w dst payload).2 := by
  unfold ipv4Send
  split
  · exact ⟨[(dst, payload)], rfl, fun x hx => mem_singleton.mp hx ▸ h⟩
  · exact ⟨[], rfl, nofun⟩

end

section

variable {up : Nat → Bool} {tick : Seq} {c : Conn} {seg : Segment} {w : Wire}

theorem headerStart_ports (srcPort dstPort : Port) (seq ackNo : Seq) (flags : Byte)
    (window : BitVec 16)
    (rest : List Byte) :
    net16 (headerStart srcPort dstPort seq ackNo flags window ++ rest) 0 = srcPort ∧
      net16 (headerStart srcPort dstPort seq ackNo flags window ++ rest) 2 = dstPort :=
  ⟨net16_field [] _ _, net16_field (le16 (htons srcPort)) _ _⟩

theorem sendRawSegment_emits (c : Conn) (flags : Byte) (seq ackNo : Seq) (payload : List Byte) :
    Emits c.ends.Sent w (sendRawSegment up c flags seq ackNo payload w).2 := by
  unfold sendRawSegment
  split
  · exact .refl
  refine ipv4Send_emits up ⟨rfl, ?_⟩
  unfold rawSegment sealed packet rawHeader
  simp only [append_assoc]
  exact headerStart_ports ..

theorem sendAck_emits (c : Conn) : Emits c.ends.Sent w (sendAck up c w) :=
    sendRawSegment_emits c _ _ _ _

theorem sendTrackedSegment_emits (c : Conn) (flags : Byte) (payload : List Byte) :
    Emits c.ends.Sent w (sendTrackedSegment up tick c flags payload w).2.2 := by
  unfold sendTrackedSegment
  split
  · exact .refl
  split
  · exact .refl
  dsimp only
  split
  · exact sendRawSegment_emits c _ _ _ _
  · exact sendRawSegment_emits c _ _ _ _

theorem refuse_emits (src : IPv4Address) (seg : Segment) :
    Emits (seg.ends src).Sent w (refuse up src seg w) := by
  unfold refuse sendRst
  have hports : ∀ seq ackNo b,
      (seg.ends src).Sent (src, rstSegment w.ip src seg.dstPort seg.srcPort seq ackNo b) := by
    intro seq ackNo b
    refine ⟨rfl, ?_⟩
    unfold rstSegment sealed packet rstHeader
    simp only [append_assoc]
    exact headerStart_ports ..
  split
  · exact ipv4Send_emits up (hports ..)
  · exact ipv4Send_emits up (hports ..)

structure SameEnds (c c' : Conn) : Prop where
  used : c'.used = c.used
  ends : c'.ends = c.ends

theorem SameEnds.refl : SameEnds c c := ⟨rfl, rfl⟩

theorem SameEnds.trans (h : SameEnds c c') (h' : SameEnds c' c'') : SameEnds c c'' :=
  ⟨h'.used.trans h.used, h'.ends.trans h.ends⟩

theorem rxPush_ends (c : Conn) (data : List Byte) : SameEnds c (rxPush c data).2 := by
  unfold rxPush Conn.compact
  dsimp only
  split_ifs <;> exact ⟨rfl, rfl⟩

theorem consumeOutOfOrder_ends (c : Conn) : SameEnds c (consumeOutOfOrder c) := by
  unfold consumeOutOfOrder
  have hpush := rxPush_ends c c.ooo.data
  split
  · exact .refl
  split
  · exact .refl
  dsimp only
  split
  · exact hpush.trans ⟨rfl, rfl⟩
  · exact hpush

theorem onPayload_ends (c : Conn) (seg : Segment) : SameEnds c (onPayload c seg) := by
  unfold onPayload
  have hpush := rxPush_ends c seg.payload
  split
  · dsimp only
    split
    · have hcons := consumeOutOfOrder_ends { (rxPush c seg.payload).2 with
        rcvNxt := (rxPush c seg.payload).2.rcvNxt + BitVec.ofNat 32 seg.payload.length }
      exact hpush.trans ⟨hcons.used, hcons.ends⟩
    · exact hpush
  · unfold queueOutOfOrder
    split_ifs <;> exact ⟨rfl, rfl⟩

theorem onFin_ends (c : Conn) : SameEnds c (c.onFin tick) := by
  unfold Conn.onFin enterTimeWait
  split
  case h_2 => split <;> exact ⟨rfl, rfl⟩
  all_goals exact ⟨rfl, rfl⟩

theorem settleState_ends (c : Conn) : SameEnds c (settleState tick c) := by
  unfold settleState leaveClosing leaveFinWait2 leaveFinWait1 enterTimeWait
  split_ifs <;> exact ⟨rfl, rfl⟩

def onRest (up : Nat → Bool) (tick : Seq) (seg : Segment) (a : Conn × Wire) : Conn × Wire :=
  let p := payloadArrives up a.1 seg a.2
  let f := if on seg.flags fin then
      processFin up tick p.1 (seg.seq + BitVec.ofNat 32 seg.payload.length) p.2
    else p
  (settleState tick f.1, f.2)

theorem onData_rest (hw : outOfWindow c seg = false) :
    onData up tick c seg w = onRest up tick seg (ackPart up tick c seg w) := by
  rw [onData, hw]
  rfl

theorem onRest_spec (a : Conn × Wire) :
    SameEnds a.1 (onRest up tick seg a).1 ∧ Emits a.1.ends.Sent a.2 (onRest up tick seg a).2 := by
  have hpay : SameEnds a.1 (payloadArrives up a.1 seg a.2).1 ∧
      Emits a.1.ends.Sent a.2 (payloadArrives up a.1 seg a.2).2 := by
    unfold payloadArrives
    split
    · exact ⟨.refl, .refl⟩
    · have hends := onPayload_ends a.1 seg
      exact ⟨hends, hends.ends ▸ sendAck_emits _⟩
  unfold onRest
  dsimp only
  generalize payloadArrives up a.1 seg a.2 = p at hpay
  have hfin : ∀ seq, SameEnds p.1 (processFin up tick p.1 seq p.2).1 ∧
      Emits p.1.ends.Sent p.2 (processFin up tick p.1 seq p.2).2 := by
    intro seq
    unfold processFin
    split
    · exact ⟨.refl, .refl⟩
    · have hends := @onFin_ends tick { p.1 with rcvNxt := p.1.rcvNxt + 1, finReceived := true }
      exact ⟨⟨hends.used, hends.ends⟩,
        sendAck_emits { p.1 with rcvNxt := p.1.rcvNxt + 1, finReceived := true }⟩
  have hends := hpay.1.ends
  split
  · obtain ⟨h1, h2⟩ := hfin (seg.seq + BitVec.ofNat 32 seg.payload.length)
    exact ⟨(hpay.1.trans h1).trans (settleState_ends _), hpay.2.trans (hends ▸ h2)⟩
  · exact ⟨hpay.1.trans (settleState_ends _), hpay.2⟩

def dies (c : Conn) (seg : Segment) : Bool :=
  on seg.flags ack && !outOfWindow c seg && c.tx.used && !sequenceLess seg.ackNo c.tx.seq &&
    !sequenceGreater seg.ackNo c.tx.endSeq &&
      (if seg.ackNo = c.lastAck then decide (c.duplicateAcks ≥ 2) &&
        decide (c.tx.retransmitCount ≥ maxRetries)
      else c.state == .lastAck && seg.ackNo == c.sndNxt)

theorem retransmit_spec (c : Conn) (hr : c.tx.retransmitCount < maxRetries) :
    SameEnds c (retransmit up tick c w).2.1 ∧ Emits c.ends.Sent w (retransmit up tick c w).2.2 := by
  unfold retransmit
  split
  · exact ⟨.refl, .refl⟩
  rw [if_neg (by simpa using hr)]
  dsimp only
  have hsend : Emits c.ends.Sent w
      (sendRawSegment up c.backOff c.backOff.tx.flags c.backOff.tx.seq c.backOff.rcvNxt
        c.backOff.tx.payload w).2 :=
    sendRawSegment_emits c.backOff _ _ _ _
  split
  · exact ⟨⟨rfl, rfl⟩, hsend⟩
  · exact ⟨⟨rfl, rfl⟩, hsend⟩

theorem duplicateAcks_count (x : Byte) : (if x < 255 then x + 1 else x) ≥ 3 ↔ x ≥ 2 := by
  revert x
  decide

theorem duplicateAck_dies (h1 : c.duplicateAcks ≥ 2) (h2 : c.tx.retransmitCount ≥ maxRetries)
    (hu : c.tx.used = true) :
    duplicateAck up tick c w = (clearConnection, w) := by
  have h3 : c.countDuplicate.duplicateAcks ≥ 3 := (duplicateAcks_count _).mpr h1
  unfold duplicateAck
  dsimp only
  rw [if_pos h3]
  unfold retransmit
  have hu' : c.countDuplicate.halveWindow.tx.used = true := hu
  have h2' : c.countDuplicate.halveWindow.tx.retransmitCount ≥ maxRetries := h2
  rw [hu', if_neg (by decide), if_pos h2']
  rfl

theorem duplicateAck_lives (h : ¬(c.duplicateAcks ≥ 2 ∧ c.tx.retransmitCount ≥ maxRetries)) :
    SameEnds c (duplicateAck up tick c w).1 ∧ Emits c.ends.Sent w (duplicateAck up tick c w).2 := by
  unfold duplicateAck
  dsimp only
  split
  case isTrue h3 =>
    have hr : c.tx.retransmitCount < maxRetries :=
      BitVec.not_le.mp fun hge => h ⟨(duplicateAcks_count _).mp h3, hge⟩
    obtain ⟨h1, h2⟩ := @retransmit_spec up tick w c.countDuplicate.halveWindow hr
    exact ⟨⟨h1.used, h1.ends⟩, h2⟩
  · exact ⟨⟨rfl, rfl⟩, .refl⟩

theorem acked_lives {ackNo : Seq} (h : ¬(c.state = .lastAck ∧ ackNo = c.sndNxt)) :
    SameEnds c (c.acked ackNo) := by
  have hfront : SameEnds c (c.ackSyn.ackFin ackNo) ∧
      ((c.ackSyn.ackFin ackNo).state = .lastAck → c.state = .lastAck ∧
        (c.ackSyn.ackFin ackNo).sndNxt = c.sndNxt) := by
    unfold Conn.ackFin Conn.ackSyn
    split_ifs <;> simp_all [SameEnds.refl] <;> constructor <;> rfl
  unfold Conn.acked Conn.ackLast
  rw [if_neg]
  · exact hfront.1
  rintro ⟨h1, h2⟩
  obtain ⟨h3, h4⟩ := hfront.2 h1
  exact h ⟨h3, h2.trans h4⟩

theorem ackPart_dies (h : dies c seg = true) : ackPart up tick c seg w = (clearConnection, w) := by
  simp only [dies, and_eq_true, not_eq_true'] at h
  obtain ⟨⟨⟨⟨⟨h1, -⟩, h3⟩, h4⟩, h5⟩, h6⟩ := h
  unfold ackPart ackSegment
  rw [if_pos h1, h3, if_neg (by decide), h4, if_neg (by decide), h5, if_neg (by decide)]
  split
  case isTrue heq =>
    rw [if_pos heq, and_eq_true, decide_eq_true_eq, decide_eq_true_eq] at h6
    exact duplicateAck_dies h6.1 h6.2 h3
  case isFalse hne =>
    rw [if_neg hne, and_eq_true, beq_iff_eq, beq_iff_eq] at h6
    have hclear : (c.release tick seg.ackNo).acked seg.ackNo = clearConnection := by
      unfold Conn.acked Conn.ackLast Conn.ackFin Conn.ackSyn Conn.release
      simp [h6.1, ← h6.2]
    rw [hclear]

theorem ackPart_lives (hw : outOfWindow c seg = false) (h : dies c seg = false) :
    SameEnds c (ackPart up tick c seg w).1 ∧ Emits c.ends.Sent w (ackPart up tick c seg w).2 := by
  unfold ackPart ackSegment
  split
  case isFalse => exact ⟨.refl, .refl⟩
  case isTrue h1 =>
    split
    · exact ⟨.refl, .refl⟩
    split
    · exact ⟨.refl, .refl⟩
    split
    · exact ⟨.refl, .refl⟩
    case isFalse h2 h3 h4 =>
      simp only [Bool.not_eq_true, Bool.not_eq_false'] at h2 h3 h4
      simp only [dies, h1, hw, h2, h3, h4, Bool.not_false, Bool.and_true, Bool.true_and] at h
      split
      case isTrue heq =>
        rw [if_pos heq, Bool.and_eq_false_iff, decide_eq_false_iff_not, decide_eq_false_iff_not] at h
        exact duplicateAck_lives fun hd => h.elim (· hd.1) (· hd.2)
      case isFalse hne =>
        rw [if_neg hne, Bool.and_eq_false_iff, beq_eq_false_iff_ne, beq_eq_false_iff_ne] at h
        have hlive := @acked_lives (c.release tick seg.ackNo) seg.ackNo fun hd =>
          h.elim (· hd.1) (· hd.2)
        exact ⟨⟨hlive.used, hlive.ends⟩, .refl⟩

def TcpState.takesData : TcpState → Bool
  | .timeWait => false
  | .listen => false
  | .synSent => false
  | .synReceived => false
  | _ => true

def Conn.ended (c : Conn) (seg : Segment) : Bool := c.state.takesData && dies c seg

theorem onData_lives (h : dies c seg = false) :
    SameEnds c (onData up tick c seg w).1 ∧ Emits c.ends.Sent w (onData up tick c seg w).2 := by
  cases hw : outOfWindow c seg with
  | true =>
    rw [onData, hw]
    exact ⟨.refl, .refl⟩
  | false =>
    rw [onData_rest hw]
    obtain ⟨h1, h2⟩ := @ackPart_lives up tick _ _ w hw h
    obtain ⟨h3, h4⟩ := @onRest_spec up tick seg (ackPart up tick c seg w)
    exact ⟨h1.trans h3, h2.trans (h1.ends ▸ h4)⟩

theorem onSegment_rest (src : IPv4Address) (hs : c.state.takesData = true)
    (hw : outOfWindow c seg = false) :
    onSegment up tick c src seg w =
      onRest up tick seg (ackPart up tick (c.withWindow seg.window) seg w) := by
  rw [← onData_rest (c := c.withWindow seg.window) hw]
  obtain ⟨h, -⟩ | ⟨h, -⟩ | ⟨h, -⟩ | ⟨h, -⟩ | ⟨-, -, -, -, h⟩ := onSegment_cases up tick c src seg w
  all_goals first | exact h | (rw [h] at hs; cases hs)

theorem onSegment_ended (src : IPv4Address) (h : c.ended seg = true) :
    onSegment up tick c src seg w = onRest up tick seg (clearConnection, w) := by
  unfold Conn.ended at h
  rw [and_eq_true] at h
  have hw : outOfWindow c seg = false := by
    have hd := h.2
    unfold dies at hd
    simp only [and_eq_true, not_eq_true'] at hd
    exact hd.1.1.1.1.2
  rw [onSegment_rest src h.1 hw, ackPart_dies (c := c.withWindow seg.window) h.2]

theorem accepts_spec (h : c.accepts src seg = true) : c.used = true ∧ c.localPort = seg.dstPort ∧
      (c.state = .listen ∧ on seg.flags syn = true ∨ c.state ≠ .listen ∧ c.ends = seg.ends src) := by
  unfold Conn.accepts at h
  split at h
  case isTrue hl =>
    simp only [and_eq_true, beq_iff_eq] at h
    exact ⟨h.1.1.1, h.1.1.2, .inl ⟨hl, h.1.2⟩⟩
  case isFalse hl =>
    simp only [Conn.isPeer, and_eq_true, beq_iff_eq] at h
    obtain ⟨⟨⟨h1, h2⟩, h3⟩, h4⟩ := h
    refine ⟨h1, h2, .inr ⟨hl, ?_⟩⟩
    rw [Conn.ends, Segment.ends, h2, h3, h4]

theorem onListen_spec {src : IPv4Address} (hp : c.localPort = seg.dstPort)
    (hs : on seg.flags syn = true) :
    (onListen up tick c src seg w).1.used = c.used ∧ (onListen up tick c src seg w).1.state =
      .synReceived ∧ (onListen up tick c src seg w).1.ends = seg.ends src ∧
        Emits (seg.ends src).Sent w (onListen up tick c src seg w).2 := by
  unfold onListen
  rw [hs, if_neg (by decide)]
  dsimp only
  generalize hd : ({ c with
      remote := src
      remotePort := seg.srcPort
      rcvNxt := seg.seq + 1
      sndUna := initialSequence
      sndNxt := initialSequence
      cwnd := initialCwnd
      ssthresh := initialSsthresh
      rto := initialRto
      state := .synReceived
      tx := {} } : Conn) = d
  have hused : d.used = c.used := by rw [← hd]
  have hstate : d.state = .synReceived := by rw [← hd]
  have hends : d.ends = seg.ends src := by
    rw [← hd, Segment.ends, ← hp]
    rfl
  refine ⟨?_, ?_, ?_, hends ▸ sendTrackedSegment_emits d _ _⟩
  all_goals
    obtain ⟨-, h2⟩ | ⟨-, -, -, h2⟩ := sendTrackedSegment_cases up tick d (syn ||| ack) [] w
    · rw [h2]; assumption
    · rw [h2]; assumption

theorem onSynSent_spec (c : Conn) (seg : Segment) :
    SameEnds c (onSynSent up c seg w).1 ∧ Emits c.ends.Sent w (onSynSent up c seg w).2 := by
  unfold onSynSent
  split
  · split
    · exact ⟨.refl, .refl⟩
    · exact ⟨⟨rfl, rfl⟩, @sendAck_emits up w { c with
        tx := { c.tx with used := false }
        sndUna := seg.ackNo
        rcvNxt := seg.seq + 1
        lastAck := seg.ackNo
        cwnd := initialCwnd
        state := .established }⟩
  · split
    · exact ⟨⟨rfl, rfl⟩, sendRawSegment_emits { c with rcvNxt := seg.seq + 1 } _ _ _ _⟩
    · exact ⟨.refl, .refl⟩

theorem onSegment_spec {src : IPv4Address} (ha : c.accepts src seg = true)
    (he : c.ended seg = false) :
    (onSegment up tick c src seg w).1.used = true ∧ (onSegment up tick c src seg w).1.ends =
      seg.ends src ∧
      Emits (seg.ends src).Sent w (onSegment up tick c src seg w).2 := by
  obtain ⟨hu, hp, hcase⟩ := accepts_spec ha
  rcases hcase with ⟨hl, hs⟩ | ⟨hl, hends⟩
  · have hlisten : onSegment up tick c src seg w = onListen up tick (c.withWindow seg.window) src
        seg w := by
      simp [onSegment, Conn.withWindow, hl]
    rw [hlisten]
    obtain ⟨h1, -, h3, h4⟩ := @onListen_spec up tick (c.withWindow seg.window) _ w src hp hs
    exact ⟨h1.trans hu, h3, h4⟩
  · -- the peer of an existing connection
    suffices h : SameEnds c (onSegment up tick c src seg w).1 ∧
      Emits c.ends.Sent w (onSegment up tick c src seg w).2 from
      ⟨h.1.used.trans hu, h.1.ends.trans hends, hends ▸ h.2⟩
    have hwin : SameEnds c (c.withWindow seg.window) := ⟨rfl, rfl⟩
    unfold onSegment
    split
    · refine ⟨⟨rfl, rfl⟩, ?_⟩
      dsimp only
      split
      · exact sendAck_emits c
      · exact .refl
    case isFalse ht =>
      dsimp only
      split
      case h_1 h0 => exact absurd h0 hl
      case h_2 h0 =>
        obtain ⟨h1, h2⟩ := @onSynSent_spec up w (c.withWindow seg.window) seg
        exact ⟨hwin.trans h1, h2⟩
      case h_3 h0 =>
        refine ⟨?_, .refl⟩
        unfold onSynReceived
        split_ifs <;> exact ⟨rfl, rfl⟩
      case h_4 h1 h2 h3 =>
        have htakes : c.state.takesData = true := by
          have e1 : c.state ≠ .listen := h1
          have e2 : c.state ≠ .synSent := h2
          have e3 : c.state ≠ .synReceived := h3
          cases hc : c.state <;> simp_all [TcpState.takesData]
        rw [Conn.ended, htakes, Bool.true_and] at he
        obtain ⟨h4, h5⟩ := @onData_lives up tick (c.withWindow seg.window) seg w he
        exact ⟨hwin.trans h4, h5⟩

end

end BlockOS.Net
