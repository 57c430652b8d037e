import BlockOS.Net.Ends
import BlockOS.Net.Stream

/-! A segment that was received before. -/

namespace BlockOS.Net
open Words List

structure Old (c : Conn) (seg : Segment) : Prop where
  takes : seg.payload ≠ [] ∨ on seg.flags fin = true
  below : ∀ i < seg.payload.length + (on seg.flags fin).toNat,
    sequenceLess (seg.seq + BitVec.ofNat 32 i) c.rcvNxt = true

def AckOf (c : Conn) (x : IPv4Address × List Byte) : Prop :=
  ∃ ip d flags seq payload, d.ends = c.ends ∧ on flags ack = true ∧
    x = (c.remote, rawSegment ip d flags seq c.rcvNxt payload)

def Acked (c : Conn) (w w' : Wire) : Prop := ∃ new, w'.sent = new ++ w.sent ∧ ∃ x ∈ new, AckOf c x

def Reacknowledges (c : Conn) (seg : Segment) : Prop :=
  ∀ (up : Nat → Bool) (tick : Seq) (src : IPv4Address) (w : Wire),
    (onSegment up tick c src seg w).1.used = true ∧ (onSegment up tick c src seg w).1.receiver =
      c.receiver ∧ ((∀ n, up n = true) → Acked c w (onSegment up tick c src seg w).2)

def resendsAck (c : Conn) (seg : Segment) : Bool :=
  c.tx.used && !sequenceLess seg.ackNo c.tx.seq && !sequenceGreater seg.ackNo c.tx.endSeq &&
    seg.ackNo == c.lastAck && decide (c.duplicateAcks ≥ 2) &&
      decide (c.tx.retransmitCount < maxRetries) &&
      decide (c.tx.payload.length ≤ txBufferSize) && on c.tx.flags ack

theorem not_acked_self : ¬Acked c w w := by
  rintro ⟨new, hn, x, hx, -⟩
  rw [self_eq_append_left.mp hn] at hx
  cases hx

theorem sendRawSegment_sent (hup : ∀ n, up n = true) (d : Conn) (flags : Byte) (seq ackNo : Seq)
    (h : payload.length ≤ txBufferSize) : (sendRawSegment up d flags seq ackNo payload w).2.sent =
      (d.remote, rawSegment w.ip d flags seq ackNo payload) :: w.sent := by
  unfold sendRawSegment ipv4Send
  rw [if_neg (by omega), hup, if_pos rfl]

theorem acked_sendAck (hup : ∀ n, up n = true) (he : d.ends = c.ends) (hr : d.receiver = c.receiver)
    (hw : ∃ new, w'.sent = new ++ w.sent) : Acked c w (sendAck up d w') := by
  obtain ⟨new, hn⟩ := hw
  have hsent : (sendAck up d w').sent = (d.remote, rawSegment w'.ip d ack d.sndNxt d.rcvNxt []) ::
      new ++ w.sent := by
    rw [cons_append, ← hn]
    exact sendRawSegment_sent hup d _ _ _ (Nat.zero_le _)
  refine ⟨_, hsent, _, mem_cons_self, w'.ip, d, ack, d.sndNxt, [], he, rfl, ?_⟩
  rw [show d.remote = c.remote from congrArg Ends.remote he,
    show d.rcvNxt = c.rcvNxt from congrArg Receiver.rcvNxt hr]

theorem Old.rest (h : Old c seg) : onRest up tick seg (c, w) =
    (settleState tick c, if seg.payload.length = 0 then w else sendAck up c w) := by
  have hless : ∀ {s : Seq}, sequenceLess s c.rcvNxt = true → s ≠ c.rcvNxt ∧
      sequenceGreater s c.rcvNxt = false := by
    intro s hs
    simp only [sequenceLess, sequenceGreater, decide_eq_true_eq, decide_eq_false_iff_not] at hs ⊢
    exact ⟨fun h0 => by simp [h0] at hs, by omega⟩
  have hpay : payloadArrives up c seg w = (c, if seg.payload.length = 0 then w else sendAck up c w) := by
    unfold payloadArrives
    split
    · rfl
    case isFalse h0 =>
      obtain ⟨h1, h2⟩ := hless (by simpa using h.below 0 (by omega))
      rw [onPayload, if_neg h1, h2, if_neg Bool.false_ne_true]
  unfold onRest
  dsimp only
  rw [hpay]
  split
  case isTrue hf =>
    obtain ⟨h1, -⟩ := hless (h.below seg.payload.length (by rw [hf]; exact Nat.lt_succ_self _))
    rw [processFin, if_pos h1]
  · rfl

theorem duplicateAck_acked (hup : ∀ n, up n = true) (hu : c.tx.used = true)
    (h : ¬(c.duplicateAcks ≥ 2 ∧ c.tx.retransmitCount ≥ maxRetries)) :
    Acked c w (duplicateAck up tick c w).2 ↔ c.duplicateAcks ≥ 2 ∧ c.tx.retransmitCount < maxRetries ∧
      c.tx.payload.length ≤ txBufferSize ∧ on c.tx.flags ack = true := by
  unfold duplicateAck
  dsimp only
  split
  case isFalse h3 =>
    exact ⟨fun h0 => absurd h0 not_acked_self, fun h0 => absurd ((duplicateAcks_count _).mpr h0.1)
      h3⟩
  case isTrue h3 =>
    have h2 := (duplicateAcks_count _).mp h3
    have hr : c.tx.retransmitCount < maxRetries := BitVec.not_le.mp fun hge => h ⟨h2, hge⟩
    have hwire : (retransmit up tick c.countDuplicate.halveWindow w).2.2 = (sendRawSegment up
        c.countDuplicate.halveWindow.backOff c.tx.flags c.tx.seq c.rcvNxt c.tx.payload w).2 := by
      have hu' : c.countDuplicate.halveWindow.tx.used = true := hu
      have hr' : ¬c.countDuplicate.halveWindow.tx.retransmitCount ≥ maxRetries := BitVec.not_le.mpr hr
      unfold retransmit
      rw [hu', if_neg (by decide), if_neg hr']
      dsimp only
      split <;> rfl
    dsimp only
    rw [hwire]
    by_cases hl : c.tx.payload.length ≤ txBufferSize
    · have hsent := sendRawSegment_sent (w := w) hup c.countDuplicate.halveWindow.backOff c.tx.flags
        c.tx.seq c.rcvNxt hl
      refine ⟨?_, fun h0 => ⟨[_], hsent, _, mem_singleton_self _, w.ip, _, _, _, _, rfl, h0.2.2.2, rfl⟩⟩
      rintro ⟨new, hn, x, hx, ip, d, flags, seq, payload, -, hf, rfl⟩
      rw [hsent] at hn
      obtain rfl := append_cancel_right (show [_] ++ w.sent = new ++ w.sent from hn)
      have hflags : flags = c.tx.flags := congrArg (fun y => y.2.getD 13 0) (mem_singleton.mp hx)
      exact ⟨h2, hr, hl, hflags ▸ hf⟩
    · rw [sendRawSegment, if_pos (by omega)]
      exact ⟨fun h0 => absurd h0 not_acked_self, fun h0 => absurd h0.2.2.1 hl⟩

theorem ackPart_acked (hup : ∀ n, up n = true) (ha : on seg.flags ack = true)
    (hw : outOfWindow c seg = false)
    (hd : dies c seg = false) : Acked c w (ackPart up tick c seg w).2 ↔ resendsAck c seg = true := by
  unfold ackPart ackSegment resendsAck
  rw [if_pos ha]
  simp only [dies, ha, hw, Bool.not_false, Bool.and_true, Bool.true_and] at hd
  split
  case isTrue h2 => exact ⟨fun h0 => absurd h0 not_acked_self, by simp_all⟩
  split
  case isTrue h3 => exact ⟨fun h0 => absurd h0 not_acked_self, by simp_all⟩
  split
  case isTrue h4 => exact ⟨fun h0 => absurd h0 not_acked_self, by simp_all⟩
  case isFalse h2 h3 h4 =>
    simp only [Bool.not_eq_true, Bool.not_eq_false'] at h2 h3 h4
    simp only [h2, h3, h4, Bool.not_false, Bool.and_true, Bool.true_and] at hd ⊢
    split
    case isTrue heq =>
      rw [if_pos heq, Bool.and_eq_false_iff, decide_eq_false_iff_not, decide_eq_false_iff_not] at hd
      rw [duplicateAck_acked hup h2 fun h0 => hd.elim (· h0.1) (· h0.2)]
      simp only [heq, beq_self_eq_true, Bool.true_and, Bool.and_eq_true, decide_eq_true_eq, and_assoc]
    case isFalse hne => exact ⟨fun h0 => absurd h0 not_acked_self, by simp_all⟩

theorem takesData_of_synchronized {st : TcpState} (h : st.synchronized = true) :
    st.takesData = true := by
  cases st <;> first | rfl | cases h

theorem Old.answered (ho : Old c seg) (hu : c.used = true) (hs : c.state.synchronized = true)
    (ha : on seg.flags ack = true) (hw : outOfWindow c seg = false) (hd : dies c seg = false)
      (up : Nat → Bool) (tick : Seq)
    (src : IPv4Address) (w : Wire) :
    ∃ a : Conn × Wire, onSegment up tick c src seg w =
        (settleState tick a.1, if seg.payload.length = 0 then a.2 else sendAck up a.1 a.2) ∧
      a.1.used = true ∧ a.1.ends = c.ends ∧ a.1.receiver = c.receiver ∧
        (∃ new, a.2.sent = new ++ w.sent) ∧
      ((∀ n, up n = true) → (Acked c w a.2 ↔ resendsAck c seg = true)) := by
  obtain ⟨⟨hused, hends⟩, new, hn, -⟩ := @ackPart_lives up tick (c.withWindow seg.window) seg w hw hd
  have hrec := ackPart_receiver (c := c.withWindow seg.window) hw (hused.trans hu)
  refine ⟨ackPart up tick (c.withWindow seg.window) seg w, ?_, hused.trans hu, hends, hrec,
    ⟨new, hn⟩, fun hup => ackPart_acked (c := c.withWindow seg.window) hup ha hw hd⟩
  rw [onSegment_rest src (takesData_of_synchronized hs) hw]
  generalize ackPart up tick (c.withWindow seg.window) seg w = a at hrec
  have hnxt : a.1.rcvNxt = c.rcvNxt := congrArg Receiver.rcvNxt hrec
  exact Old.rest ⟨ho.takes, hnxt ▸ ho.below⟩

theorem old_segment_reacknowledged_iff (c : Conn) (seg : Segment) (hu : c.used = true)
    (hs : c.state.synchronized = true ∨ c.state = .timeWait) (ha : on seg.flags ack = true)
    (hw : outOfWindow c seg = false) (ho : Old c seg) :
    Reacknowledges c seg ↔ if c.state = .timeWait then on seg.flags fin = true
      else dies c seg = false ∧ (seg.payload ≠ [] ∨ resendsAck c seg = true) := by
  have hsent := fun h : Reacknowledges c seg => h (fun _ => true) 0 c.remote { ip := c.remote }
  split
  case isTrue ht =>
    refine ⟨fun h => ?_, fun hf up tick src w => ?_⟩
    · have h1 := (hsent h).2.2 fun _ => rfl
      rw [onSegment, if_pos ht] at h1
      by_contra hf
      rw [if_neg hf] at h1
      exact not_acked_self h1
    · rw [onSegment, if_pos ht, if_pos hf]
      exact ⟨hu, rfl, fun hup => acked_sendAck hup rfl rfl ⟨[], rfl⟩⟩
  case isFalse ht =>
    have hs := hs.resolve_right ht
    cases hd : dies c seg with
    | true =>
      refine ⟨fun h => ?_, fun h => by cases h.1⟩
      have h1 := (hsent h).1
      rw [onSegment_rest _ (takesData_of_synchronized hs) hw,
        ackPart_dies (c := c.withWindow seg.window) hd, (onRest_spec _).1.used] at h1
      cases h1
    | false =>
      rw [eq_self, true_and]
      refine ⟨fun h => ?_, fun h up tick src w => ?_⟩
      · obtain ⟨a, heq, -, -, -, -, hacked⟩ :=
          ho.answered hu hs ha hw hd (fun _ => true) 0 c.remote { ip := c.remote }
        have h1 := (hsent h).2.2 fun _ => rfl
        by_cases hp : seg.payload = []
        · rw [heq, if_pos (by rw [hp]; rfl)] at h1
          exact .inr ((hacked fun _ => rfl).mp h1)
        · exact .inl hp
      · obtain ⟨a, heq, hused, hends, hrec, hnew, hacked⟩ := ho.answered hu hs ha hw hd up tick src w
        rw [heq]
        refine ⟨(settleState_ends _).used.trans hused, (settle_receiver _).trans hrec, fun hup => ?_⟩
        split
        case isTrue h0 =>
          exact (hacked hup).mpr (h.resolve_left (not_not.mpr (length_eq_zero_iff.mp h0)))
        case isFalse => exact acked_sendAck hup hends hrec hnew

def sampleReceived (state : TcpState) : Conn :=
  { clearConnection with
    used := true
    state := state
    remote := sampleClient
    localPort := 80
    remotePort := 5000
    sndUna := 5
    sndNxt := 5
    rcvNxt := 100 }

def sampleOld (seq : Seq) (flags : Byte) (payload : List Byte) : Segment :=
    ⟨5000, 80, seq, 5, flags, 1000, payload⟩

theorem old_segment_reacknowledged_iff_sample : Reacknowledges (sampleReceived .closeWait)
    (sampleOld 98 ack [7]) :=
  (old_segment_reacknowledged_iff (sampleReceived .closeWait) (sampleOld 98 ack [7]) rfl (.inl rfl)
    rfl (by decide)
    ⟨.inl nofun, by decide⟩).mpr (by decide)

theorem old_fin_not_acknowledged : Old (sampleReceived .closeWait) (sampleOld 99 (fin ||| ack) []) ∧
      outOfWindow (sampleReceived .closeWait) (sampleOld 99 (fin ||| ack) []) = false ∧
      (onSegment (fun _ => true) 0 (sampleReceived .closeWait) sampleClient
        (sampleOld 99 (fin ||| ack) [])
        { ip := sampleServer }).2.sent = [] :=
  ⟨⟨.inr rfl, by decide⟩, by decide, by decide⟩

end BlockOS.Net
