import BlockOS.Lib.Runs
import BlockOS.Net.Sender

/-! Is everything acknowledged once no segment is tracked? `ack_segment` takes every new
acknowledgement number within the tracked segment for an acknowledgement of all of it. -/

namespace BlockOS.Net
open Words Runs List

def TcpState.synchronized : TcpState → Bool
  | .established | .closeWait | .finWait1 | .finWait2 | .closing | .lastAck => true
  | _ => false

def TcpState.handshake : TcpState → Bool
  | .listen | .synSent | .synReceived => true
  | _ => false

structure Sound (a : Sender) : Prop where
  tracked : a.txUsed = true → a.txSeq = a.una ∧ a.txEnd = a.nxt ∧ sequenceGreater a.nxt a.una = true
  synSent : a.state = .synSent → a.txUsed = true
  settled : a.state.synchronized = true → a.txUsed = false → a.una = a.nxt
  finWait2 : a.state = .finWait2 → a.txUsed = false ∧ a.finSent = true
  noFin : a.state.handshake = true ∨ a.state = .established ∨ a.state = .finWait1 → a.finReceived = false

variable {a : Sender} {ackNo n : Seq}

theorem Sound.timeWait (a : Sender) : Sound a.timeWait :=
  ⟨nofun, nofun, nofun, nofun, by rintro (h | h | h) <;> cases h⟩

theorem Sound.track (ht : sequenceGreater (a.nxt + n) a.nxt = true) (hu : a.una = a.nxt)
    (h2 : a.state ≠ .finWait2)
    (hf : a.state.handshake = true ∨ a.state = .established ∨ a.state = .finWait1 →
      a.finReceived = false) : Sound (a.track n) :=
  ⟨fun _ => ⟨hu.symm, rfl, by rw [Sender.track, hu]; exact ht⟩, fun _ => rfl, nofun,
    fun h => absurd h h2, hf⟩

theorem Sound.release (h : Sound a) (hs : a.state.handshake = false) (ht : a.txUsed = true)
    (hk : ackNo = a.txEnd) : Sound (a.release ackNo) ∧ (a.release ackNo).una = a.nxt := by
  obtain ⟨-, h2, h3⟩ := h.tracked ht
  have hu : (a.release ackNo).una = a.nxt := by
    rw [Sender.release, hk, h2, if_pos h3]
  refine ⟨⟨nofun, fun h0 => ?_, fun _ _ => hu, fun h0 => ?_, h.noFin⟩, hu⟩
  · rw [show a.state = .synSent from h0] at hs
    cases hs
  · rw [(h.finWait2 h0).1] at ht
    cases ht

theorem Sound.acked (ackNo : Seq) (h : Sound a) (hs : a.state.handshake = false)
    (ht : a.txUsed = false) :
    (a.acked ackNo).used = false ∨ Sound (a.acked ackNo) ∧ (a.acked ackNo).state.handshake = false := by
  have h1 : a.ackSyn = a := if_neg fun h0 => by
    rw [h0] at hs
    cases hs
  have h2 : Sound (a.ackFin ackNo) ∧ (a.ackFin ackNo).state.handshake = false := by
    unfold Sender.ackFin
    split
    case isFalse => exact ⟨h, hs⟩
    case isTrue h0 =>
      obtain ⟨h0, h3, -⟩ := h0
      have hu : a.una = a.nxt := h.settled (by rw [h0]; rfl) ht
      cases hf : a.finReceived with
      | true => exact ⟨⟨fun h4 => absurd (ht.symm.trans h4) nofun, nofun, nofun, nofun,
          by rintro (h | h | h) <;> cases h⟩, rfl⟩
      | false => exact ⟨⟨fun h4 => absurd (ht.symm.trans h4) nofun, nofun, fun _ _ => hu,
          fun _ => ⟨ht, h3⟩, by rintro (h | h | h) <;> cases h⟩, rfl⟩
  rw [Sender.acked, h1, Sender.ackLast]
  split
  · exact .inl rfl
  · exact .inr h2

theorem Sound.onFin (h : Sound a) (hs : a.state.handshake = false) : Sound a.onFin := by
  have hkeep : ∀ st : TcpState, st ≠ .synSent → st ≠ .finWait2 → st.handshake = false →
      st ≠ .established → st ≠ .finWait1 → (st.synchronized = true → a.state.synchronized = true) →
      Sound { a with state := st, finReceived := true } := by
    intro st h1 h2 h3 h4 h5 h6
    refine ⟨h.tracked, fun h0 => absurd h0 h1, fun h0 => h.settled (h6 h0),
      fun h0 => absurd h0 h2, ?_⟩
    rintro (h0 | h0 | h0)
    · exact absurd (h3.symm.trans h0) nofun
    · exact absurd h0 h4
    · exact absurd h0 h5
  unfold Sender.onFin
  dsimp only
  split
  case h_1 h0 => exact hkeep .closeWait nofun nofun rfl nofun nofun (fun _ => by rw [h0]; rfl)
  case h_2 h0 =>
    split
    · exact .timeWait _
    · exact hkeep .closing nofun nofun rfl nofun nofun (fun _ => by rw [h0]; rfl)
  case h_3 => exact .timeWait _
  case h_4 => exact .timeWait _
  case h_5 h1 h2 h3 h4 =>
    exact hkeep a.state (fun h0 => by rw [h0] at hs; cases hs) h3 hs h1 h2 id

theorem Sound.settle (h : Sound a) : Sound a.settle := by
  have h1 : Sound a.leaveFinWait1 := by
    unfold Sender.leaveFinWait1
    split
    case isFalse => exact h
    case isTrue h0 =>
      obtain ⟨h0, h1, h2⟩ := h0
      split
      · exact .timeWait a
      · exact ⟨h.tracked, nofun, fun _ => h.settled (by rw [h0]; rfl), fun _ => ⟨h1, h2⟩,
          by rintro (h | h | h) <;> cases h⟩
  have h2 : Sound a.leaveFinWait1.leaveFinWait2 := by
    unfold Sender.leaveFinWait2
    split
    · exact .timeWait _
    · exact h1
  unfold Sender.settle Sender.leaveClosing
  split
  · exact .timeWait _
  · exact h2

theorem Sound.finish (h : Sound a) (hs : a.state.handshake = false) (taken : Bool) :
    Sound (a.finish taken) := by
  cases taken with
  | true => exact (h.onFin hs).settle
  | false => exact h.settle

theorem finish_used (a : Sender) (taken : Bool) : (a.finish taken).used = a.used := by
  obtain ⟨u, st, una, nxt, tu, ts, te, fs, fr⟩ := a
  cases st <;> cases taken <;> cases tu <;> cases fs <;> cases fr <;> rfl

def Sender.Acknowledged (a : Sender) : Prop :=
  (a.state.synchronized = true → a.txUsed = false → a.una = a.nxt) ∧
    (a.state = .finWait2 → a.finSent = true ∧ a.una = a.nxt)

theorem Sound.acknowledged (h : Sound a) : a.Acknowledged :=
  ⟨h.settled, fun h0 => ⟨(h.finWait2 h0).2, h.settled (by rw [h0]; rfl) (h.finWait2 h0).1⟩⟩

def TcpState.losesOpen (taken : Bool) : TcpState → Bool
  | .established | .closeWait | .lastAck => true
  | .finWait1 => !taken
  | _ => false

theorem sequenceGreater_irrefl (x : Seq) : sequenceGreater x x = false := by
  simp [sequenceGreater]

theorem Sound.acked_partial (h : Sound a) (hs : a.state.handshake = false) (ht : a.txUsed = true)
    (hk : ackNo ≠ a.txEnd) : (a.release ackNo).acked ackNo = a.release ackNo := by
  have hk : ackNo ≠ a.nxt := (h.tracked ht).2.1 ▸ hk
  have h1 : (a.release ackNo).ackSyn = a.release ackNo := if_neg fun h0 => by
    rw [show a.state = .synSent from h0] at hs
    cases hs
  have h2 : (a.release ackNo).ackFin ackNo = a.release ackNo := if_neg fun h0 => hk h0.2.2
  rw [Sender.acked, h1, h2]
  exact if_neg fun h0 => hk h0.2

theorem Sound.finish_partial (h : Sound a) (hs : a.state.handshake = false) (ht : a.txUsed = true)
    (hk : ackNo ≠ a.txEnd) (taken : Bool) :
    if a.state.losesOpen taken then ¬((a.release ackNo).finish taken).Acknowledged
    else Sound ((a.release ackNo).finish taken) := by
  obtain ⟨-, h2, h3⟩ := h.tracked ht
  have hu : (a.release ackNo).una ≠ a.nxt := by
    rw [Sender.release]
    dsimp only
    split
    · exact h2 ▸ hk
    intro h0
    rw [h0, sequenceGreater_irrefl] at h3
    cases h3
  have hopen : ∀ b : Sender, b.una = (a.release ackNo).una → b.nxt = a.nxt → b.txUsed = false →
      b.state.synchronized = true → ¬b.Acknowledged :=
    fun b h4 h5 h6 h7 h8 => hu (by rw [← h4, ← h5]; exact h8.1 h7 h6)
  have h4 := h.finWait2
  have h5 := h.noFin
  clear h h2 h3 hk hu
  obtain ⟨u, st, una, nxt, tu, ts, te, fs, fr⟩ := a
  cases ht
  cases st with
  | listen | synSent | synReceived => cases hs
  | established | closeWait | lastAck => cases taken <;> exact hopen _ rfl rfl rfl rfl
  | finWait1 =>
    obtain rfl : fr = false := h5 (.inr (.inr rfl))
    cases taken with
    | true => cases fs <;> exact .timeWait _
    | false => cases fs <;> exact hopen _ rfl rfl rfl rfl
  | finWait2 => cases (h4 rfl).1
  | closing => cases taken <;> exact .timeWait _
  | closed | timeWait =>
    cases taken <;> exact ⟨nofun, nofun, nofun, nofun, by rintro (h | h | h) <;> cases h⟩

variable {up : Nat → Bool} {tick : Seq} {c : Conn} {seg : Segment} {w : Wire}

def Conn.Live (c : Conn) : Prop := c.used = true → Sound c.sender

def releases (c : Conn) (seg : Segment) : Bool :=
  on seg.flags ack && !outOfWindow c seg && c.tx.used && !sequenceLess seg.ackNo c.tx.seq &&
    !sequenceGreater seg.ackNo c.tx.endSeq && seg.ackNo != c.lastAck

def afterPayload (c : Conn) (seg : Segment) : Conn :=
  if seg.payload.length = 0 then c else onPayload c seg

def takesFin (c : Conn) (seg : Segment) : Bool :=
  on seg.flags fin && seg.seq + BitVec.ofNat 32 seg.payload.length == (afterPayload c seg).rcvNxt

def forgetsData (c : Conn) (seg : Segment) : Bool :=
  releases c seg && seg.ackNo != c.tx.endSeq && c.state.losesOpen (takesFin c seg)

theorem takesFin_congr (h : c.receiver = d.receiver) : takesFin c seg = takesFin d seg := by
  have hp : (afterPayload c seg).receiver = (afterPayload d seg).receiver := by
    unfold afterPayload
    split
    · exact h
    · exact onPayload_congr h seg
  rw [takesFin, takesFin, show (afterPayload c seg).rcvNxt = (afterPayload d seg).rcvNxt from
    congrArg Receiver.rcvNxt hp]

def ackPart (up : Nat → Bool) (tick : Seq) (c : Conn) (seg : Segment) (w : Wire) : Conn × Wire :=
  if on seg.flags ack then ackSegment up tick c seg.ackNo w else (c, w)

theorem ackPart_cases (up : Nat → Bool) (tick : Seq) (w : Wire) (hw : outOfWindow c seg = false) :
    releases c seg = false ∧
      ((ackPart up tick c seg w).1.used = false ∨ SameStreams c (ackPart up tick c seg w).1) ∨
    releases c seg = true ∧ (ackPart up tick c seg w).1 = (c.release tick seg.ackNo).acked
      seg.ackNo := by
  unfold ackPart ackSegment releases
  rw [hw]
  split
  case isFalse h1 => exact .inl ⟨by simp [h1], .inr ⟨rfl, rfl⟩⟩
  case isTrue h1 =>
    split
    case isTrue h2 => exact .inl ⟨by simp_all, .inr ⟨rfl, rfl⟩⟩
    split
    case isTrue h2 h3 => exact .inl ⟨by simp_all, .inr ⟨rfl, rfl⟩⟩
    split
    case isTrue h2 h3 h4 => exact .inl ⟨by simp_all, .inr ⟨rfl, rfl⟩⟩
    split
    case isTrue h2 h3 h4 h5 => exact .inl ⟨by simp [h5], duplicateAck_cases up tick c w⟩
    case isFalse h2 h3 h4 h5 => exact .inr ⟨by simp_all, rfl⟩

theorem onData_eq (hw : outOfWindow c seg = false) : (onData up tick c seg w).1 =
      let d := afterPayload (ackPart up tick c seg w).1 seg
      settleState tick (if takesFin (ackPart up tick c seg w).1 seg then
        ({ d with rcvNxt := d.rcvNxt + 1, finReceived := true } : Conn).onFin tick else d) := by
  have hp : ∀ d w, (payloadArrives up d seg w).1 = afterPayload d seg := fun d w => by
    unfold payloadArrives afterPayload
    split <;> rfl
  have hd : (onData up tick c seg w).1 = settleState tick (if on seg.flags fin then
        processFin up tick
          (payloadArrives up (ackPart up tick c seg w).1 seg (ackPart up tick c seg w).2).1
          (seg.seq + BitVec.ofNat 32 seg.payload.length)
          (payloadArrives up (ackPart up tick c seg w).1 seg (ackPart up tick c seg w).2).2
      else payloadArrives up (ackPart up tick c seg w).1 seg (ackPart up tick c seg w).2).1 := by
    rw [onData, hw]
    rfl
  rw [hd]
  generalize (ackPart up tick c seg w).1 = d
  dsimp only
  congr 1
  unfold takesFin
  cases on seg.flags fin with
  | false =>
    rw [if_neg nofun, hp]
    rfl
  | true =>
    rw [if_pos rfl, hp, processFin]
    split
    case isTrue h => simp [h]
    case isFalse h => simp [not_not.mp h]

theorem onData_sender (up : Nat → Bool) (tick : Seq) (w : Wire) (hw : outOfWindow c seg = false) :
    (onData up tick c seg w).1.sender =
      (ackPart up tick c seg w).1.sender.finish (takesFin (ackPart up tick c seg w).1 seg) := by
  have hs : ∀ d, (afterPayload d seg).sender = d.sender := fun d => by
    unfold afterPayload
    split
    · rfl
    · exact onPayload_sender d seg
  rw [onData_eq hw, settle_sender, Sender.finish]
  congr 1
  split
  · rw [onFin_sender, hs]
  · exact hs _

theorem onData_live (hu : c.used = true) (h : Sound c.sender) (hs : c.state.handshake = false) :
    if forgetsData c seg then
      (onData up tick c seg w).1.used = true ∧ ¬(onData up tick c seg w).1.sender.Acknowledged
    else (onData up tick c seg w).1.Live := by
  have hused : ∀ d : Conn, d.sender.used = d.used := fun _ => rfl
  cases hw : outOfWindow c seg with
  | true =>
    have hf : forgetsData c seg = false := by simp [forgetsData, releases, hw]
    rw [if_neg (by simp [hf]), onData, hw]
    exact fun _ => h
  | false =>
    have hd := onData_sender up tick w hw
    have hl : Sound (onData up tick c seg w).1.sender → (onData up tick c seg w).1.Live := fun h _ => h
    obtain ⟨hr, hc⟩ | ⟨hr, hc⟩ := ackPart_cases up tick w hw
    · -- nothing is released: the connection is cleared or its sending side is as before
      rw [if_neg (by simp [forgetsData, hr])]
      obtain hc | hc := hc
      · intro h0
        rw [← hused, hd, finish_used, hused, hc] at h0
        cases h0
      apply hl
      rw [hd, hc.sender]
      exact h.finish hs _
    · have ht : c.tx.used = true := by simp_all [releases]
      by_cases hk : seg.ackNo = c.tx.endSeq
      · -- all of the tracked segment is acknowledged
        rw [if_neg (by simp [forgetsData, hk])]
        obtain ha | ⟨ha, hs'⟩ := (h.release hs ht hk).1.acked seg.ackNo hs rfl
        all_goals
          rw [hc, acked_sender, show (c.release tick seg.ackNo).sender = c.sender.release seg.ackNo
            from rfl] at hd
        · intro h0
          rw [← hused, hd, finish_used, ha] at h0
          cases h0
        apply hl
        rw [hd]
        exact ha.finish hs' _
      · have hsend : (ackPart up tick c seg w).1.sender = c.sender.release seg.ackNo := by
          rw [hc, acked_sender]
          exact h.acked_partial hs ht hk
        have htake : takesFin (ackPart up tick c seg w).1 seg = takesFin c seg := by
          apply takesFin_congr
          rw [hc] at hsend ⊢
          obtain h0 | h0 := acked_cases (c.release tick seg.ackNo) seg.ackNo
          · rw [h0] at hsend
            have := congrArg Sender.used hsend
            exact absurd (hu.symm.trans this.symm) nofun
          · exact h0
        have hfin := h.finish_partial hs ht hk (takesFin c seg)
        rw [hsend, htake] at hd
        rw [← hd] at hfin
        have hu' : (onData up tick c seg w).1.used = true := by
          rw [← hused, hd, finish_used]
          exact hu
        have hf : forgetsData c seg = c.state.losesOpen (takesFin c seg) := by
          simp [forgetsData, hr, hk]
        rw [show c.sender.state = c.state from rfl] at hfin
        rw [hf]
        split
        case isTrue h0 => exact ⟨hu', by rwa [if_pos h0] at hfin⟩
        case isFalse h0 => exact hl (by rwa [if_neg h0] at hfin)

theorem sequenceGreater_add (x : Seq) (h0 : 0 < n.toNat) (h : n.toNat < 2147483648) :
    sequenceGreater (x + n) x = true := by
  have hx : x + n - x = n := by
    rw [BitVec.add_comm]
    exact BitVec.add_sub_cancel n x
  rw [sequenceGreater, hx, decide_eq_true_eq, BitVec.toInt_eq_toNat_of_lt (by omega)]
  omega

theorem track_one (tick : Seq) (hf : advance flags [] = 1) (hu : c.sndUna = c.sndNxt)
    (h2 : c.state ≠ .finWait2)
    (hn : c.state.handshake = true ∨ c.state = .established ∨ c.state = .finWait1 →
      c.finReceived = false) : Sound (c.track tick flags []).sender := by
  refine Sound.track (a := c.sender) ?_ hu h2 hn
  rw [hf]
  exact sequenceGreater_add _ (by decide) (by decide)

theorem onListen_live (src : IPv4Address) (h : Sound c.sender) (hl : c.state = .listen) :
    (onListen up tick c src seg w).1.Live := by
  have hf : c.finReceived = false := h.noFin (.inl (by rw [show c.sender.state = _ from hl]; rfl))
  unfold onListen
  split
  · exact fun _ => h
  dsimp only
  generalize hd : ({ c with
    remote := src
    remotePort := seg.srcPort
    rcvNxt := seg.seq + 1
    sndUna := initialSequence
    sndNxt := initialSequence
    cwnd := initialCwnd
    ssthresh := initialSsthresh
    rto := initialRto
    state := .synReceived
    tx := {} } : Conn) = d
  intro _
  obtain ⟨-, hr⟩ | ⟨-, -, -, hr⟩ := sendTrackedSegment_cases up tick d (syn ||| ack) [] w
  · rw [hr, ← hd]
    exact ⟨nofun, nofun, nofun, nofun, fun _ => hf⟩
  · rw [hr]
    exact track_one tick (by decide) (by rw [← hd]) (by rw [← hd]; nofun)
      (fun _ => by rw [← hd]; exact hf)

theorem onSynSent_live (h : Sound c.sender) (hs : c.state = .synSent) :
    (onSynSent up c seg w).1.Live := by
  have ht : c.tx.used = true := h.synSent hs
  obtain ⟨h1, h2, h3⟩ := h.tracked ht
  have hf : c.finReceived = false := h.noFin (.inl (by rw [show c.sender.state = _ from hs]; rfl))
  unfold onSynSent
  split
  · split
    case isTrue => exact fun _ => h
    case isFalse hk =>
      have hk : seg.ackNo = c.tx.endSeq := by simpa [ht] using hk
      exact fun _ => ⟨nofun, nofun, fun _ _ => hk.trans h2, nofun, fun _ => hf⟩
  · split
    · exact fun _ => ⟨fun _ => ⟨h1, h2, h3⟩, nofun, nofun, nofun, fun _ => hf⟩
    · exact fun _ => h

theorem onSynReceived_live (h : Sound c.sender) (hs : c.state = .synReceived) :
    (onSynReceived c seg).Live := by
  have hf : c.finReceived = false := h.noFin (.inl (by rw [show c.sender.state = _ from hs]; rfl))
  unfold onSynReceived
  split
  · split
    case isTrue hk =>
      obtain ⟨-, h2, -⟩ := h.tracked hk.1
      exact fun _ => ⟨nofun, nofun, fun _ _ => hk.2.trans h2, nofun, fun _ => hf⟩
    case isFalse => exact fun _ => h
  · exact fun _ => h

theorem onSegment_live (up : Nat → Bool) (tick : Seq) (src : IPv4Address) (seg : Segment) (w : Wire)
    (hu : c.used = true) (h : Sound c.sender) :
    if forgetsData c seg then (onSegment up tick c src seg w).1.used = true ∧
      ¬(onSegment up tick c src seg w).1.sender.Acknowledged
    else (onSegment up tick c src seg w).1.Live := by
  -- outside of the transfer states nothing is forgotten
  have hno : c.state.losesOpen (takesFin c seg) = false → forgetsData c seg = false := fun h0 => by
    simp [forgetsData, h0]
  obtain ⟨hs, hr⟩ | ⟨hs, hr⟩ | ⟨hs, hr⟩ | ⟨hs, hr⟩ | ⟨h1, h2, h3, h4, hr⟩ :=
    onSegment_cases up tick c src seg w
  · rw [if_neg (by simp [hno (by rw [hs]; rfl)]), hr]
    exact fun _ => h
  · rw [if_neg (by simp [hno (by rw [hs]; rfl)]), hr]
    exact onListen_live src h hs
  · rw [if_neg (by simp [hno (by rw [hs]; rfl)]), hr]
    exact onSynSent_live h hs
  · rw [if_neg (by simp [hno (by rw [hs]; rfl)]), hr]
    exact onSynReceived_live h hs
  have hc : forgetsData c seg = forgetsData (c.withWindow seg.window) seg := by
    rw [forgetsData, forgetsData, takesFin_congr (c := c) (d := c.withWindow seg.window) rfl]
    rfl
  have hs : c.state.handshake = false := by
    cases hs : c.state <;> first | rfl | contradiction
  rw [hc, hr]
  exact onData_live hu h hs

theorem startConnect_live (dst : IPv4Address) (localPort port : Port) :
    (startConnect up tick dst localPort port w).2.1.Live := by
  unfold startConnect
  dsimp only
  split
  case isTrue h0 =>
    obtain ⟨hr, -⟩ | ⟨-, -, -, hr⟩ :=
      sendTrackedSegment_cases up tick (connecting dst localPort port) syn [] w
    · rw [hr] at h0
      cases h0
    · rw [hr]
      exact fun _ => track_one tick (by decide) rfl nofun fun _ => rfl
  case isFalse => exact nofun

theorem send_live (h : c.Live) (data : List Byte) : (c.send up tick data w).2.1.Live := by
  unfold Conn.send
  split; · exact h
  split; · exact h
  split; · exact h
  split; · exact h
  split; · exact h
  split; · exact h
  rename_i h1 h2 h3 h4 h5 h6
  have hs : Sound c.sender := h (by simpa using h1)
  have he : c.state = .established := not_not.mp h2
  have hw : 0 < c.advertisedWindow.toNat := by
    refine Nat.pos_of_ne_zero fun h0 => h5 (BitVec.eq_of_toNat_eq h0)
  dsimp only
  obtain ⟨-, hr⟩ | ⟨-, ht, hl, hr⟩ := sendTrackedSegment_cases up tick c (ack ||| psh)
    ((data.take txBufferSize).take c.advertisedWindow.toNat) w
  · rw [hr]
    exact h
  rw [hr]
  refine fun _ => Sound.track (a := c.sender) ?_ (hs.settled ?_ ht) ?_ hs.noFin
  · have hn : advance (ack ||| psh) ((data.take txBufferSize).take c.advertisedWindow.toNat) =
        BitVec.ofNat 32 ((data.take txBufferSize).take c.advertisedWindow.toNat).length := by
      simp [advance, on, ack, psh, syn, fin]
    have hpos : 0 < ((data.take txBufferSize).take c.advertisedWindow.toNat).length := by
      simp only [length_take, txBufferSize]
      omega
    rw [hn]
    unfold txBufferSize at hl hpos ⊢
    exact sequenceGreater_add _ (by rw [BitVec.toNat_ofNat]; omega) (by rw [BitVec.toNat_ofNat]; omega)
  · rw [show c.sender.state = _ from he]
    rfl
  · rw [show c.sender.state = _ from he]
    nofun

theorem read_live (h : c.Live) (n : Nat) : (c.read n).2.2.Live := by
  unfold Conn.read rxResetIfEmpty
  split; · exact h
  split; · exact h
  dsimp only
  split <;> split <;> exact h

theorem sendFin_live {next : TcpState} (h : Sound c.sender) (hc : c.state.synchronized = true)
    (h1 : next.handshake = false) (h2 : next ≠ .established) (h3 : next ≠ .finWait2)
    (hf : next = .finWait1 → c.finReceived = false) : (c.sendFin up tick next w).2.1.Live := by
  unfold Conn.sendFin
  split
  · exact fun _ => h
  dsimp only
  obtain ⟨hb, hr⟩ | ⟨hb, ht, -, hr⟩ := sendTrackedSegment_cases up tick c (fin ||| ack) [] w
  · rw [hb, if_neg nofun, hr]
    exact fun _ => h
  rw [hb, if_pos rfl]
  dsimp only
  rw [hr]
  refine fun _ => track_one (c := { c with finSent := true, state := next }) tick (by decide)
    (h.settled hc ht) h3 ?_
  rintro (h0 | h0 | h0)
  · exact absurd (h1.symm.trans h0) nofun
  · exact absurd h0 h2
  · exact hf h0

theorem close_live (h : c.Live) : (c.close up tick w).2.1.Live := by
  unfold Conn.close
  split
  · exact h
  rename_i hu
  have hs : Sound c.sender := h (by simpa using hu)
  split
  case h_1 h0 =>
    exact sendFin_live hs (by rw [h0]; rfl) rfl nofun nofun fun _ => hs.noFin (.inr (.inl h0))
  case h_2 h0 => exact sendFin_live hs (by rw [h0]; rfl) rfl nofun nofun nofun
  case h_6 => exact h
  all_goals exact nofun

theorem onTick_live (h : c.Live) : (c.onTick up tick w).1.Live := by
  have hg : ∀ d : Conn, d.Live → (giveUp d).Live := fun d hd => by
    unfold giveUp
    split
    · exact nofun
    · exact hd
  unfold Conn.onTick
  split; · exact h
  split
  · dsimp only
    split
    · exact nofun
    · exact h
  split
  · have hr : (retransmit up tick c w).2.1.Live := by
      obtain hr | hr := retransmit_cases up tick c w
      · rw [hr]
        exact nofun
      intro h0
      rw [hr.sender]
      exact h ((congrArg Sender.used hr.sender).symm.trans h0)
    dsimp only
    split
    · exact hg _ hr
    · exact hr
  · exact hg c h

/-- The step hands a segment to a connection that forgets data over it. -/
def forgets (s : Tcp) : TcpOp → Bool
  | .packet src bytes =>
    match parse s.wire.ip src bytes with
    | none => false
    | some seg =>
      !on seg.flags rst && (s.conns.find? fun d => d.accepts src seg).any fun c => forgetsData c seg
  | _ => false

variable {s : Tcp}

theorem accepts_used (h : c.accepts src seg = true) : c.used = true := by
  unfold Conn.accepts Conn.isPeer at h
  split at h <;> simp_all

theorem find_live (hs : ∀ c ∈ s.conns, c.Live)
    (hf : s.conns.find? (fun d => d.accepts src seg) = some c) : c.used = true ∧ Sound c.sender :=
  have hu := accepts_used (find?_some (p := fun d : Conn => d.accepts src seg) hf)
  ⟨hu, hs c (mem_of_find?_eq_some hf) hu⟩

theorem step_live (hs : ∀ c ∈ s.conns, c.Live) (hf : forgets s op = false) :
    ∀ c ∈ (step up s op).conns, c.Live := by
  intro c' hc'
  obtain ⟨i, hi⟩ := getElem?_of_mem hc'
  obtain ⟨c, hc, hm⟩ := step_moves hi
  have hl : c.Live := hs c (mem_of_getElem? hc)
  cases hm with
  | stay => exact hl
  | listen port => exact fun _ => ⟨nofun, nofun, nofun, nofun, fun _ => rfl⟩
  | connect dst localPort port => exact startConnect_live dst localPort port
  | reset => exact nofun
  | segment src bytes seg hp hr hfind =>
    have h0 : forgetsData c seg = false := by simpa [forgets, hp, hr, hfind] using hf
    obtain ⟨hu, hsound⟩ := find_live hs hfind
    have h1 := onSegment_live up s.currentTick src seg s.wire hu hsound
    rwa [if_neg (by simp [h0])] at h1
  | send handle data => exact send_live hl data
  | read n => exact read_live hl n
  | close handle => exact close_live hl
  | tick w => exact onTick_live hl

def Conn.Acknowledged (c : Conn) : Prop :=
  c.used = true → (c.state.synchronized = true → c.tx.used = false → c.sndUna = c.sndNxt) ∧
    (c.state = .finWait2 → c.finSent = true ∧ c.sndUna = c.sndNxt)

instance (c : Conn) : Decidable c.Acknowledged :=
  inferInstanceAs (Decidable (_ → (_ → _ → _) ∧ (_ → _ ∧ _)))

theorem step_forgets (up : Nat → Bool) (hs : ∀ c ∈ s.conns, c.Live) (hf : forgets s op = true) :
    ∃ c ∈ (step up s op).conns, ¬c.Acknowledged := by
  cases op with
  | packet src bytes =>
    simp only [forgets] at hf
    split at hf
    · cases hf
    rename_i seg hp
    simp only [Bool.and_eq_true, Bool.not_eq_true', Option.any_eq_true] at hf
    obtain ⟨hr, c, hfind, h0⟩ := hf
    obtain ⟨hu, hsound⟩ := find_live hs hfind
    have h1 := onSegment_live up s.currentTick src seg s.wire hu hsound
    rw [if_pos h0] at h1
    refine ⟨(onSegment up s.currentTick c src seg s.wire).1, ?_, fun h => h1.2 (h h1.1)⟩
    rw [step, tcpReceivePacket, hp]
    dsimp only
    rw [if_neg (by simp [hr])]
    exact dispatch_mem hfind
  | _ => cases hf

theorem tcpInit_live (ip : IPv4Address) : ∀ c ∈ (tcpInit ip).conns, c.Live := by
  intro c hc
  rw [eq_of_mem_replicate hc]
  exact nofun

theorem open_data_tracked_iff (up : Nat → Bool) (ip : IPv4Address) (ops : List TcpOp) :
    Along (step up) (fun s op => ∀ c ∈ (step up s op).conns, c.Acknowledged) (tcpInit ip) ops ↔
      Along (step up) (fun s op => forgets s op = false) (tcpInit ip) ops := by
  have hiff : ∀ s op, (∀ c ∈ s.conns, c.Live) →
      ((∀ c ∈ (step up s op).conns, c.Acknowledged) ↔ forgets s op = false) := by
    intro s op hs
    constructor
    · intro h
      by_contra hf
      obtain ⟨c, hc, hn⟩ := step_forgets up hs (Bool.eq_true_of_not_eq_false hf)
      exact hn (h c hc)
    · exact fun hf c hc hu => (step_live hs hf c hc hu).acknowledged
  exact Along.congr hiff (fun s op hs h => step_live hs ((hiff s op hs).mp h)) ops (tcpInit_live ip)

def sampleServer : IPv4Address := ⟨10, 0, 2, 15⟩
def sampleClient : IPv4Address := ⟨10, 0, 2, 2⟩

def clientSegment (seq ackNo : Seq) (flags : Byte) (payload : List Byte) : TcpOp :=
  let start := headerStart 5000 80 seq ackNo flags 4096
  let sum := tcpChecksum sampleClient sampleServer (packet start 0 payload)
  .packet sampleClient (packet start (htons sum) payload)

def closedEarly : List TcpOp :=
  [.listen 80, clientSegment 100 0 syn [], clientSegment 101 2 ack [], .close 0,
    clientSegment 101 2 ack []]

theorem open_fin_forgotten :
    ¬∀ c ∈ (runFrom (step fun _ => true) (tcpInit sampleServer) closedEarly).conns,
      c.Acknowledged := by
  decide +kernel

end BlockOS.Net
