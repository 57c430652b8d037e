import BlockOS.Net.Moves

/-! The sending side of a connection. -/

namespace BlockOS.Net
open Words

structure Sender where
  used : Bool
  state : TcpState
  una : Seq
  nxt : Seq
  txUsed : Bool
  txSeq : Seq
  txEnd : Seq
  finSent : Bool
  finReceived : Bool

def Conn.sender (c : Conn) : Sender :=
  ⟨c.used, c.state, c.sndUna, c.sndNxt, c.tx.used, c.tx.seq, c.tx.endSeq, c.finSent, c.finReceived⟩

namespace Sender

def track (a : Sender) (n : Seq) : Sender :=
  { a with txUsed := true, txSeq := a.nxt, txEnd := a.nxt + n, nxt := a.nxt + n }

def release (a : Sender) (ackNo : Seq) : Sender :=
  { a with txUsed := false, una := if sequenceGreater ackNo a.una then ackNo else a.una }

def ackSyn (a : Sender) : Sender := if a.state = .synSent then { a with state := .established } else
    a

def ackFin (a : Sender) (ackNo : Seq) : Sender :=
  if a.state = .finWait1 ∧ a.finSent = true ∧ ackNo = a.nxt then
    { a with state := if a.finReceived then .timeWait else .finWait2 }
  else a

def ackLast (a : Sender) (ackNo : Seq) : Sender :=
  if a.state = .lastAck ∧ ackNo = a.nxt then clearConnection.sender else a

def acked (a : Sender) (ackNo : Seq) : Sender := (a.ackSyn.ackFin ackNo).ackLast ackNo

def timeWait (a : Sender) : Sender := { a with state := .timeWait, txUsed := false }

def onFin (a : Sender) : Sender :=
  let a := { a with finReceived := true }
  match a.state with
  | .established => { a with state := .closeWait }
  | .finWait1 => if !a.txUsed then a.timeWait else { a with state := .closing }
  | .finWait2 => a.timeWait
  | .closing => a.timeWait
  | _ => a

def leaveFinWait1 (a : Sender) : Sender :=
  if a.state = .finWait1 ∧ a.txUsed = false ∧ a.finSent = true then
    if a.finReceived then a.timeWait else { a with state := .finWait2 }
  else a

def leaveFinWait2 (a : Sender) : Sender :=
  if a.state = .finWait2 ∧ a.finReceived = true then a.timeWait else a

def leaveClosing (a : Sender) : Sender :=
  if a.state = .closing ∧ a.txUsed = false then a.timeWait else a

def settle (a : Sender) : Sender := a.leaveFinWait1.leaveFinWait2.leaveClosing

def finish (a : Sender) (taken : Bool) : Sender := (if taken then a.onFin else a).settle

end Sender

theorem sendTrackedSegment_cases (up : Nat → Bool) (tick : Seq) (c : Conn) (flags : Byte)
    (payload : List Byte) (w : Wire) :
    ((sendTrackedSegment up tick c flags payload w).1 = false ∧
      (sendTrackedSegment up tick c flags payload w).2.1 = c) ∨
    ((sendTrackedSegment up tick c flags payload w).1 = true ∧ c.tx.used = false ∧
      payload.length ≤ txBufferSize ∧
      (sendTrackedSegment up tick c flags payload w).2.1 = c.track tick flags payload) := by
  unfold sendTrackedSegment
  split
  · exact .inl ⟨rfl, rfl⟩
  split
  · exact .inl ⟨rfl, rfl⟩
  rename_i h1 h2
  dsimp only
  split
  · exact .inr ⟨rfl, by simpa using h1, by omega, rfl⟩
  · exact .inl ⟨rfl, rfl⟩

structure Receiver where
  rcvNxt : Seq
  rx : Nat → Byte
  rxHead : Nat
  rxTail : Nat
  ooo : OutOfOrderSegment

def Conn.receiver (c : Conn) : Receiver := ⟨c.rcvNxt, c.rx, c.rxHead, c.rxTail, c.ooo⟩

structure SameStreams (c c' : Conn) : Prop where
  sender : c'.sender = c.sender
  receiver : c'.receiver = c.receiver

theorem retransmit_cases (up : Nat → Bool) (tick : Seq) (c : Conn) (w : Wire) :
    (retransmit up tick c w).2.1 = clearConnection ∨ SameStreams c (retransmit up tick c w).2.1 := by
  unfold retransmit
  split
  · exact .inr ⟨rfl, rfl⟩
  split
  · exact .inl rfl
  · dsimp only
    split <;> exact .inr ⟨rfl, rfl⟩

theorem duplicateAck_cases (up : Nat → Bool) (tick : Seq) (c : Conn) (w : Wire) :
    (duplicateAck up tick c w).1.used = false ∨ SameStreams c (duplicateAck up tick c w).1 := by
  unfold duplicateAck
  dsimp only
  split
  · obtain hr | hr := retransmit_cases up tick c.countDuplicate.halveWindow w
    · exact .inl (by rw [hr]; rfl)
    · exact .inr ⟨hr.sender, hr.receiver⟩
  · exact .inr ⟨rfl, rfl⟩

theorem acked_cases (c : Conn) (ackNo : Seq) :
    c.acked ackNo = clearConnection ∨ (c.acked ackNo).receiver = c.receiver := by
  have h : (c.ackSyn.ackFin ackNo).receiver = c.receiver := by
    unfold Conn.ackFin Conn.ackSyn
    split_ifs <;> rfl
  rw [Conn.acked, Conn.ackLast]
  split
  · exact .inl rfl
  · exact .inr h

theorem acked_sender (c : Conn) (ackNo : Seq) : (c.acked ackNo).sender = c.sender.acked ackNo := by
  have h1 : ∀ d : Conn, d.ackSyn.sender = d.sender.ackSyn := fun _ => apply_ite Conn.sender _ _ _
  have h2 : ∀ d : Conn, (d.ackFin ackNo).sender = d.sender.ackFin ackNo :=
    fun _ => apply_ite Conn.sender _ _ _
  have h3 : ∀ d : Conn, (d.ackLast ackNo).sender = d.sender.ackLast ackNo :=
    fun _ => apply_ite Conn.sender _ _ _
  rw [Conn.acked, h3, h2, h1, Sender.acked]

theorem onFin_sender (c : Conn) (tick : Seq) (n : Seq) :
    (({ c with rcvNxt := n, finReceived := true } : Conn).onFin tick).sender = c.sender.onFin := by
  cases h : c.state
  case finWait1 =>
    simp only [Conn.onFin, Sender.onFin, Conn.sender, h]
    exact apply_ite Conn.sender _ _ _
  all_goals simp [Conn.onFin, Sender.onFin, Conn.sender, enterTimeWait, Sender.timeWait, h]

theorem settle_sender (c : Conn) (tick : Seq) : (settleState tick c).sender = c.sender.settle := by
  have h1 : ∀ d : Conn, (leaveFinWait1 tick d).sender = d.sender.leaveFinWait1 := fun d => by
    rw [leaveFinWait1, apply_ite Conn.sender, apply_ite Conn.sender]
    rfl
  have h2 : ∀ d : Conn, (leaveFinWait2 tick d).sender = d.sender.leaveFinWait2 :=
    fun _ => apply_ite Conn.sender _ _ _
  have h3 : ∀ d : Conn, (leaveClosing tick d).sender = d.sender.leaveClosing :=
    fun _ => apply_ite Conn.sender _ _ _
  rw [settleState, h3, h2, h1, Sender.settle]

theorem rxPush_sender (c : Conn) (data : List Byte) : (rxPush c data).2.sender = c.sender := by
  unfold rxPush
  dsimp only
  split_ifs <;> rfl

theorem consumeOutOfOrder_sender (c : Conn) : (consumeOutOfOrder c).sender = c.sender := by
  unfold consumeOutOfOrder
  have h := rxPush_sender c c.ooo.data
  split
  · rfl
  split
  · rfl
  dsimp only
  split
  · exact h
  · exact h

theorem queueOutOfOrder_sender (c : Conn) (seq : Seq) (data : List Byte) :
    (queueOutOfOrder c seq data).sender = c.sender := by
  unfold queueOutOfOrder
  split_ifs <;> rfl

theorem onPayload_sender (c : Conn) (seg : Segment) : (onPayload c seg).sender = c.sender := by
  unfold onPayload
  have h := rxPush_sender c seg.payload
  split
  · dsimp only
    split
    · rw [consumeOutOfOrder_sender]
      exact h
    · exact h
  · split
    · exact queueOutOfOrder_sender c seg.seq seg.payload
    · rfl

theorem rxPush_congr (h : c.receiver = d.receiver) (data : List Byte) :
    (rxPush c data).1 = (rxPush d data).1 ∧
      (rxPush c data).2.receiver = (rxPush d data).2.receiver := by
  simp only [Conn.receiver, Receiver.mk.injEq] at h
  obtain ⟨h1, h2, h3, h4, h5⟩ := h
  have ha : rxAvailable c = rxAvailable d := by rw [rxAvailable, rxAvailable, h3, h4]
  have hf : rxFreeSpace c = rxFreeSpace d := by rw [rxFreeSpace, rxFreeSpace, ha]
  by_cases ht : d.rxTail + data.length > rxBufferSize <;>
    simp only [rxPush, hf, Conn.compact, h2, h3, h4, ha, ht, if_true, if_false] <;>
    split_ifs <;> simp [Conn.receiver, h1, h2, h3, h4, h5]

theorem onPayload_congr (h : c.receiver = d.receiver) (seg : Segment) :
    (onPayload c seg).receiver = (onPayload d seg).receiver := by
  have hc : ∀ {c d : Conn}, c.receiver = d.receiver →
      (consumeOutOfOrder c).receiver = (consumeOutOfOrder d).receiver := by
    intro c d h
    have h1 : c.rcvNxt = d.rcvNxt := congrArg Receiver.rcvNxt h
    have h5 : c.ooo = d.ooo := congrArg Receiver.ooo h
    obtain ⟨hp, hr⟩ := rxPush_congr h d.ooo.data
    simp only [consumeOutOfOrder, h1, h5, hp]
    split_ifs
    · exact h
    · exact h
    · simp only [Conn.receiver, Receiver.mk.injEq] at hr ⊢
      simp [hr]
    · exact hr
  have h1 : c.rcvNxt = d.rcvNxt := congrArg Receiver.rcvNxt h
  have h5 : c.ooo = d.ooo := congrArg Receiver.ooo h
  obtain ⟨hp, hr⟩ := rxPush_congr h seg.payload
  simp only [onPayload, queueOutOfOrder, h1, h5, hp]
  split_ifs
  case pos =>
    apply hc
    simp only [Conn.receiver, Receiver.mk.injEq] at hr ⊢
    simp [hr]
  all_goals first | exact hr | exact h | simp_all [Conn.receiver]

end BlockOS.Net
