import BlockOS.Net.Ends
import BlockOS.Net.Stream

/-! Replies of `tcp_receive`. -/

namespace BlockOS.Net
open Words Buffer Runs List

section

variable {up : Nat → Bool} {tick : Seq} {seg : Segment} {w : Wire}

theorem rxPush_clear (h0 : data.length ≠ 0) (h : data.length ≤ rxBufferSize) :
    rxPush clearConnection data =
      (true, { clearConnection with rx := blit (fun _ => 0) 0 data, rxTail := 0 + data.length }) := by
  have hfree : ¬rxFreeSpace clearConnection < data.length := Nat.not_lt.mpr h
  have hroom : ¬clearConnection.rxTail + data.length > rxBufferSize := by
    rw [show clearConnection.rxTail = 0 from rfl]
    omega
  unfold rxPush
  rw [if_neg h0, if_neg hfree, if_neg hroom]
  rw [if_neg hroom]
  rfl

theorem onPayload_clear (h0 : seg.payload.length ≠ 0) : onPayload clearConnection seg =
    clearConnection ↔ (seg.seq = 0 → rxBufferSize < seg.payload.length) ∧
        (sequenceGreater seg.seq 0 = true → txBufferSize < seg.payload.length) := by
  unfold onPayload
  by_cases hseq : seg.seq = 0
  · have hg : sequenceGreater seg.seq 0 = false := by
      rw [hseq]
      decide
    rw [if_pos (show seg.seq = clearConnection.rcvNxt from hseq), hg]
    by_cases hlen : seg.payload.length ≤ rxBufferSize
    · rw [rxPush_clear h0 hlen]
      refine ⟨fun h => ?_, fun h => absurd (h.1 hseq) (by omega)⟩
      have htail : 0 + seg.payload.length = 0 := congrArg Conn.rxTail h
      omega
    · have hfree : rxFreeSpace clearConnection < seg.payload.length := Nat.not_le.mp hlen
      have hfail : rxPush clearConnection seg.payload = (false, clearConnection) := by
        unfold rxPush
        rw [if_neg h0, if_pos hfree]
      rw [hfail]
      exact ⟨fun _ => ⟨fun _ => Nat.not_le.mp hlen, nofun⟩, fun _ => rfl⟩
  · rw [if_neg (show ¬seg.seq = clearConnection.rcvNxt from hseq)]
    cases hg : sequenceGreater seg.seq 0 with
    | false =>
      rw [show sequenceGreater seg.seq clearConnection.rcvNxt = false from hg]
      exact ⟨fun _ => ⟨fun h => absurd h hseq, nofun⟩, fun _ => rfl⟩
    | true =>
      rw [if_pos (show sequenceGreater seg.seq clearConnection.rcvNxt = true from hg)]
      have hless : sequenceLess seg.seq 0 = false := by
        unfold sequenceGreater at hg
        unfold sequenceLess
        rw [decide_eq_true_eq] at hg
        rw [decide_eq_false_iff_not]
        omega
      unfold queueOutOfOrder
      rw [if_neg h0, if_neg (show ¬clearConnection.ooo.used = true from nofun)]
      split
      case isTrue hlen => exact ⟨fun _ => ⟨fun h => absurd h hseq, fun _ => hlen⟩, fun _ => rfl⟩
      case isFalse hlen =>
        rw [show sequenceLess seg.seq clearConnection.rcvNxt = false from hless, if_neg nofun]
        refine ⟨fun h => ?_, fun h => absurd (h.2 rfl) hlen⟩
        exact absurd (congrArg (fun c : Conn => c.ooo.used) h) nofun

def Unnoticed (src : IPv4Address) (seg : Segment) : Prop :=
  (seg.payload.length ≠ 0 → seg.ends src = clearConnection.ends ∧
    (seg.seq = 0 → rxBufferSize < seg.payload.length) ∧
      (sequenceGreater seg.seq 0 = true → txBufferSize < seg.payload.length)) ∧
  (on seg.flags fin = true → seg.seq + BitVec.ofNat 32 seg.payload.length ≠ 0)

theorem onRest_cases (c : Conn) (w : Wire) :
    (takesFin c seg = false ∧ (onRest up tick seg (c, w)).1 = settleState tick (afterPayload c seg)
      ∧ (onRest up tick seg (c, w)).2 = (payloadArrives up c seg w).2) ∨
    (takesFin c seg = true ∧ (onRest up tick seg (c, w)).1.finReceived = true) := by
  have hpay : (payloadArrives up c seg w).1 = afterPayload c seg := by
    unfold payloadArrives afterPayload
    split <;> rfl
  have hset : ∀ d : Conn, (settleState tick d).finReceived = d.finReceived := fun d => by
    unfold settleState leaveClosing leaveFinWait2 leaveFinWait1 enterTimeWait
    split_ifs <;> rfl
  unfold onRest
  dsimp only
  rw [hpay, hset]
  unfold takesFin processFin
  cases on seg.flags fin with
  | false => exact .inl ⟨rfl, congrArg _ hpay, rfl⟩
  | true =>
    rw [if_pos rfl]
    by_cases heq : seg.seq + BitVec.ofNat 32 seg.payload.length = (afterPayload c seg).rcvNxt
    · refine .inr ⟨by simp [heq], ?_⟩
      rw [if_neg (not_not.mpr heq)]
      unfold Conn.onFin enterTimeWait
      dsimp only
      split <;> first | rfl | split <;> rfl
    · rw [if_pos heq]
      exact .inl ⟨by simp [heq], rfl, rfl⟩

variable {src : IPv4Address}

theorem settleState_closed (h : c.state = .closed) : settleState tick c = c := by
  simp [settleState, leaveFinWait1, leaveFinWait2, leaveClosing, h]

theorem onRest_clear : (onRest up tick seg (clearConnection, w)).1 = clearConnection ↔
    (seg.payload.length ≠ 0 → onPayload clearConnection seg = clearConnection) ∧
      (on seg.flags fin = true → seg.seq + BitVec.ofNat 32 seg.payload.length ≠ 0) := by
  have hafter : afterPayload clearConnection seg = clearConnection ↔
      (seg.payload.length ≠ 0 → onPayload clearConnection seg = clearConnection) := by
    unfold afterPayload
    split
    case isTrue h0 => exact ⟨fun _ h => absurd h0 h, fun _ => rfl⟩
    case isFalse h0 => exact ⟨fun h _ => h, fun h => h h0⟩
  have hturn : afterPayload clearConnection seg = clearConnection →
    (takesFin clearConnection seg = false ↔
      (on seg.flags fin = true → seg.seq + BitVec.ofNat 32 seg.payload.length ≠ 0)) := by
    intro h
    unfold takesFin
    rw [h, Bool.and_eq_false_imp]
    exact forall_congr' fun _ => beq_eq_false_iff_ne
  have hclosed : (afterPayload clearConnection seg).state = .closed := by
    unfold afterPayload
    split
    · rfl
    · exact congrArg Sender.state (onPayload_sender clearConnection seg)
  rw [← hafter]
  obtain ⟨h1, h2, -⟩ | ⟨h1, h2⟩ := @onRest_cases up tick seg clearConnection w
  · rw [h2, settleState_closed hclosed]
    exact ⟨fun h => ⟨h, (hturn h).mp h1⟩, And.left⟩
  constructor
  · intro h
    rw [h] at h2
    cases h2
  rintro ⟨h, h3⟩
  rw [(hturn h).mpr h3] at h1
  cases h1

def Tidy (cs : List Conn) : Prop := ∀ c ∈ cs, c.used = false → c = clearConnection

def AnswerTo (src : IPv4Address) (p : List Byte) (x : IPv4Address × List Byte) : Prop :=
  x.1 = src ∧ net16 x.2 0 = net16 p 2 ∧ net16 x.2 2 = net16 p 0

def RepliesRight (up : Nat → Bool) (s : Tcp) (src : IPv4Address) (p : List Byte) : Prop :=
  Emits (AnswerTo src p) s.wire (tcpReceivePacket up s src p).wire ∧
    Tidy (tcpReceivePacket up s src p).conns

/-- The connection that the packet ends takes no notice of its rest. -/
def EndsQuietly (s : Tcp) (src : IPv4Address) (p : List Byte) : Prop :=
  ∀ seg, parse s.wire.ip src p = some seg → on seg.flags rst = false →
    ∀ c, s.conns.find? (fun d => d.accepts src seg) = some c → c.ended seg = true → Unnoticed src seg

theorem parse_ends (h : parse ip src p = some seg) : seg.ends src = ⟨src, net16 p 2, net16 p 0⟩ := by
  unfold parse at h
  dsimp only at h
  split_ifs at h
  cases h
  rfl

theorem Emits.mem {P : IPv4Address × List Byte → Prop}
    (h : Emits P w w') (hl : w'.sent = l ++ w.sent) : ∀ x ∈ l, P x := by
  obtain ⟨new, hn, hP⟩ := h
  obtain rfl := append_cancel_right (hl.symm.trans hn)
  exact hP

theorem dispatch_wire (src : IPv4Address) (cs : List Conn) :
    (dispatch up tick src seg w cs).2 = match cs.find? (fun d => d.accepts src seg) with
      | none => refuse up src seg w
      | some c => (onSegment up tick c src seg w).2 := by
  induction cs with
  | nil => rfl
  | cons d cs ih =>
    rw [dispatch, find?_cons]
    cases hd : d.accepts src seg with
    | true => rfl
    | false => exact ih

theorem dispatch_unused (hc : c ∈ cs) (hu : c.used = false) :
    c ∈ (dispatch up tick src seg w cs).1 := by
  induction cs with
  | nil => cases hc
  | cons d cs ih =>
    rw [dispatch]
    split
    case isTrue hd =>
      rcases mem_cons.mp hc with rfl | hc
      · rw [accepts_used hd] at hu
        cases hu
      · exact mem_cons_of_mem _ hc
    case isFalse hd =>
      rcases mem_cons.mp hc with rfl | hc
      · exact mem_cons_self
      · exact mem_cons_of_mem _ (ih hc)

theorem answerTo_iff (h : parse ip src p = some seg) : AnswerTo src p = (seg.ends src).Sent := by
  rw [parse_ends h]
  rfl

theorem onRest_unnoticed {src : IPv4Address} (h : Unnoticed src seg) :
    (onRest up tick seg (clearConnection, w)).1 = clearConnection ∧
      Emits (seg.ends src).Sent w (onRest up tick seg (clearConnection, w)).2 := by
  have hclear : (onRest up tick seg (clearConnection, w)).1 = clearConnection :=
    onRest_clear.mpr ⟨fun h0 => (onPayload_clear h0).mpr (h.1 h0).2, h.2⟩
  refine ⟨hclear, ?_⟩
  by_cases h0 : seg.payload.length = 0
  · obtain ⟨-, -, hwire⟩ | ⟨-, hfin⟩ := @onRest_cases up tick seg clearConnection w
    · rw [hwire]
      unfold payloadArrives
      rw [if_pos h0]
      exact .refl
    · rw [hclear] at hfin
      cases hfin
  · rw [(h.1 h0).1]
    exact (onRest_spec (clearConnection, w)).2

theorem sendAck_clear
    (h : Emits (seg.ends src).Sent w (sendAck (fun _ => true) clearConnection w)) :
    seg.ends src = clearConnection.ends := by
  have hown := (@sendAck_emits (fun _ => true) w clearConnection).mem (l := [_]) rfl _ mem_cons_self
  have hsrc := h.mem (l := [_]) rfl _ mem_cons_self
  have h1 := hsrc.1.symm.trans hown.1
  have h2 := hsrc.2.1.symm.trans hown.2.1
  have h3 := hsrc.2.2.symm.trans hown.2.2
  cases hs : seg.ends src
  simp only [hs] at h1 h2 h3
  subst h1 h2 h3
  rfl

theorem noticed_of_ended
    (h : RepliesRight (fun _ => true) s src p) (hp : parse s.wire.ip src p = some seg)
      (hr : on seg.flags rst = false)
    (hf : s.conns.find? (fun d => d.accepts src seg) = some c) (he : c.ended seg = true) : Unnoticed
      src seg := by
  unfold RepliesRight tcpReceivePacket at h
  rw [hp, answerTo_iff hp] at h
  dsimp only at h
  rw [hr, if_neg Bool.false_ne_true] at h
  rw [dispatch_wire, hf] at h
  obtain ⟨hemits, htidy⟩ := h
  have hmem := @dispatch_mem (fun _ => true) _ s.currentTick _ _ s.wire _ hf
  dsimp only at hemits
  rw [onSegment_ended src he] at hemits hmem
  have hused := (@onRest_spec (fun _ => true) s.currentTick seg (clearConnection, s.wire)).1.used
  have hclear := htidy _ hmem hused
  obtain ⟨hpay, hfin⟩ := onRest_clear.mp hclear
  refine ⟨fun h0 => ⟨?_, (onPayload_clear h0).mp (hpay h0)⟩, hfin⟩
  obtain ⟨-, -, hwire⟩ | ⟨-, hrec⟩ :=
    @onRest_cases (fun _ => true) s.currentTick seg clearConnection s.wire
  · rw [hwire] at hemits
    unfold payloadArrives at hemits
    rw [if_neg h0, hpay h0] at hemits
    exact sendAck_clear hemits
  · rw [hclear] at hrec
    cases hrec

theorem tidy_before (h : Tidy (tcpReceivePacket up s src p).conns) : Tidy s.conns := by
  intro c hc hu
  refine h c ?_ hu
  unfold tcpReceivePacket
  split
  · exact hc
  case h_2 seg hp =>
    split
    · refine mem_map.mpr ⟨c, hc, if_neg ?_⟩
      rintro ⟨-, hpeer⟩
      simp [Conn.isPeer, hu] at hpeer
    · exact dispatch_unused hc hu

theorem tidy_dispatch (h : Tidy cs)
    (hc : ∀ c, cs.find? (fun d => d.accepts src seg) = some c →
      (onSegment up tick c src seg w).1.used = false →
      (onSegment up tick c src seg w).1 = clearConnection) : Tidy (dispatch up tick src seg w cs).1 := by
  intro c' hmem hu
  obtain ⟨i, hi⟩ := mem_iff_getElem?.mp hmem
  obtain ⟨c, hget, rfl | ⟨hf, rfl⟩⟩ := dispatch_get hi
  · exact h c' (mem_of_getElem? hget) hu
  · exact hc c hf hu

theorem repliesRight_iff (s : Tcp) (src : IPv4Address) (p : List Byte) :
    (∀ up, RepliesRight up s src p) ↔ Tidy s.conns ∧ EndsQuietly s src p := by
  constructor
  · intro h
    have hup := h fun _ => true
    exact ⟨tidy_before hup.2, fun seg hp hr c hf he => noticed_of_ended hup hp hr hf he⟩
  rintro ⟨htidy, hquiet⟩ up
  unfold RepliesRight tcpReceivePacket
  split
  · exact ⟨.refl, htidy⟩
  case h_2 seg hp =>
    rw [answerTo_iff hp]
    split
    · refine ⟨.refl, fun c' hc' hu => ?_⟩
      obtain ⟨c, hc, rfl⟩ := mem_map.mp hc'
      unfold Conn.reset at hu ⊢
      split at hu
      case isTrue hreset => rw [if_pos hreset]
      case isFalse hreset =>
        rw [if_neg hreset]
        exact htidy c hc hu
    case isFalse hr =>
      dsimp only
      have hr' : on seg.flags rst = false := Bool.eq_false_iff.mpr hr
      have hcase : ∀ c, s.conns.find? (fun d => d.accepts src seg) = some c →
          Emits (seg.ends src).Sent s.wire (onSegment up s.currentTick c src seg s.wire).2 ∧
            ((onSegment up s.currentTick c src seg s.wire).1.used = false →
              (onSegment up s.currentTick c src seg s.wire).1 = clearConnection) := by
        intro c hf
        cases he : c.ended seg with
        | true =>
          obtain ⟨h1, h2⟩ := @onRest_unnoticed up s.currentTick _ s.wire _ (hquiet seg hp hr' c hf he)
          rw [onSegment_ended src he]
          exact ⟨h2, fun _ => h1⟩
        | false =>
          have ha : c.accepts src seg = true := by simpa using find?_some hf
          obtain ⟨h1, -, h3⟩ := @onSegment_spec up s.currentTick _ _ s.wire _ ha he
          exact ⟨h3, fun hu => by rw [h1] at hu; cases hu⟩
      refine ⟨?_, tidy_dispatch htidy fun c hf => (hcase c hf).2⟩
      rw [dispatch_wire]
      split
      · exact refuse_emits src seg
      case h_2 c hf => exact (hcase c hf).1

end

def lastAckWaiting : Tcp :=
  runFrom (step fun _ => true) (tcpInit sampleServer) [.listen 80, clientSegment 100 0 syn [],
    clientSegment 101 2 ack [], clientSegment 101 2 (fin ||| ack) [], .close 0]

def lastAckWithData : List Byte :=
  match clientSegment 102 3 ack [7] with
  | .packet _ bytes => bytes
  | _ => []

theorem reply_to_nobody : ¬RepliesRight (fun _ => true) lastAckWaiting sampleClient
    lastAckWithData := by
  intro h
  have hsent : (tcpReceivePacket (fun _ => true) lastAckWaiting sampleClient lastAckWithData).wire.sent =
      (tcpReceivePacket (fun _ => true) lastAckWaiting sampleClient lastAckWithData).wire.sent.take 1 ++
        lastAckWaiting.wire.sent := by decide +kernel
  have hnobody : ∃ x ∈ (tcpReceivePacket (fun _ => true) lastAckWaiting sampleClient
    lastAckWithData).wire.sent.take 1,
      x.1 ≠ sampleClient := by decide +kernel
  obtain ⟨x, hx, hne⟩ := hnobody
  exact hne (h.1.mem hsent x hx).1

end BlockOS.Net
