import BlockOS.Lib.Buffer
import BlockOS.Net.Segment

/-! The TCP module of `net/tcp.cpp`: what an incoming packet, a call of the socket layer or a tick
does to the sixteen connections. -/

namespace BlockOS.Net
open Words Buffer

def sequenceLess (a b : Seq) : Bool := decide ((a - b).toInt < 0)
def sequenceGreater (a b : Seq) : Bool := decide ((a - b).toInt > 0)

def Conn.compact (c : Conn) : Conn :=
  { c with
    rx := blit c.rx 0 (slice c.rx c.rxHead (rxAvailable c))
    rxHead := 0
    rxTail := rxAvailable c }

def rxPush (c : Conn) (data : List Byte) : Bool × Conn :=
  if data.length = 0 then (true, c)
  else if rxFreeSpace c < data.length then (false, c)
  else
    let c := if c.rxTail + data.length > rxBufferSize then c.compact else c
    if c.rxTail + data.length > rxBufferSize then (false, c)
    else (true, { c with rx := blit c.rx c.rxTail data, rxTail := c.rxTail + data.length })

def rxResetIfEmpty (c : Conn) : Conn :=
  if c.rxHead = c.rxTail then { c with rxHead := 0, rxTail := 0 } else c

def queueOutOfOrder (c : Conn) (seq : Seq) (data : List Byte) : Conn :=
  if data.length = 0 then c
  else if c.ooo.used then c
  else if data.length > txBufferSize then c
  else if sequenceLess seq c.rcvNxt then c
  else { c with ooo := { used := true, seq := seq, data := data } }

def consumeOutOfOrder (c : Conn) : Conn :=
  if !c.ooo.used then c
  else if c.ooo.seq ≠ c.rcvNxt then c
  else
    let r := rxPush c c.ooo.data
    if r.1 then { r.2 with rcvNxt := r.2.rcvNxt + BitVec.ofNat 32 c.ooo.data.length, ooo := {} }
    else r.2

section Network

variable (up : Nat → Bool)

def Conn.countDuplicate (c : Conn) : Conn :=
  { c with
    duplicateAcks := if c.duplicateAcks < 255 then c.duplicateAcks + 1 else c.duplicateAcks }

def Conn.halveWindow (c : Conn) : Conn :=
  { c with ssthresh := halved c.cwnd, cwnd := halved c.cwnd + 3 }

def duplicateAck (tick : Seq) (c : Conn) (w : Wire) : Conn × Wire :=
  let c := c.countDuplicate
  if c.duplicateAcks ≥ 3 then
    let r := retransmit up tick c.halveWindow w
    ({ r.2.1 with duplicateAcks := 0 }, r.2.2)
  else (c, w)

def Conn.release (c : Conn) (tick ackNo : Seq) : Conn :=
  { c with
    lastAck := ackNo
    duplicateAcks := 0
    tx := { c.tx with used := false }
    sndUna := if sequenceGreater ackNo c.sndUna then ackNo else c.sndUna
    cwnd := if c.cwnd < c.ssthresh then c.cwnd + 1
      else if tick &&& 3 = 0 then c.cwnd + 1 else c.cwnd
    retries := 0
    rto := initialRto }

def Conn.ackSyn (c : Conn) : Conn :=
  if c.state = .synSent then { c with state := .established } else c

def Conn.ackFin (c : Conn) (ackNo : Seq) : Conn :=
  if c.state = .finWait1 ∧ c.finSent = true ∧ ackNo = c.sndNxt then
    { c with state := if c.finReceived then .timeWait else .finWait2 }
  else c

def Conn.ackLast (c : Conn) (ackNo : Seq) : Conn :=
  if c.state = .lastAck ∧ ackNo = c.sndNxt then clearConnection else c

def Conn.acked (c : Conn) (ackNo : Seq) : Conn := (c.ackSyn.ackFin ackNo).ackLast ackNo

def ackSegment (tick : Seq) (c : Conn) (ackNo : Seq) (w : Wire) : Conn × Wire :=
  if !c.tx.used then (c, w)
  else if sequenceLess ackNo c.tx.seq then (c, w)
  else if sequenceGreater ackNo c.tx.endSeq then (c, w)
  else if ackNo = c.lastAck then duplicateAck up tick c w
  else ((c.release tick ackNo).acked ackNo, w)

def enterTimeWait (tick : Seq) (c : Conn) : Conn :=
  { c with state := .timeWait, timerTick := tick, tx := { c.tx with used := false } }

def Conn.onFin (c : Conn) (tick : Seq) : Conn :=
  match c.state with
  | .established => { c with state := .closeWait }
  | .finWait1 => if !c.tx.used then enterTimeWait tick c else { c with state := .closing }
  | .finWait2 => enterTimeWait tick c
  | .closing => enterTimeWait tick c
  | _ => c

def processFin (tick : Seq) (c : Conn) (seq : Seq) (w : Wire) : Conn × Wire :=
  if seq ≠ c.rcvNxt then (c, w)
  else
    let c := { c with rcvNxt := c.rcvNxt + 1, finReceived := true }
    (c.onFin tick, sendAck up c w)

structure Segment where
  srcPort : Port
  dstPort : Port
  seq : Seq
  ackNo : Seq
  flags : Byte
  window : BitVec 16
  payload : List Byte

def onPayload (c : Conn) (seg : Segment) : Conn :=
  if seg.seq = c.rcvNxt then
    let r := rxPush c seg.payload
    if r.1 then
      consumeOutOfOrder { r.2 with rcvNxt := r.2.rcvNxt + BitVec.ofNat 32 seg.payload.length }
    else r.2
  else if sequenceGreater seg.seq c.rcvNxt then queueOutOfOrder c seg.seq seg.payload
  else c

def payloadArrives (c : Conn) (seg : Segment) (w : Wire) : Conn × Wire :=
  if seg.payload.length = 0 then (c, w)
  else (onPayload c seg, sendAck up (onPayload c seg) w)

def leaveFinWait1 (tick : Seq) (c : Conn) : Conn :=
  if c.state = .finWait1 ∧ c.tx.used = false ∧ c.finSent = true then
    if c.finReceived then enterTimeWait tick c else { c with state := .finWait2 }
  else c

def leaveFinWait2 (tick : Seq) (c : Conn) : Conn :=
  if c.state = .finWait2 ∧ c.finReceived = true then enterTimeWait tick c else c

def leaveClosing (tick : Seq) (c : Conn) : Conn :=
  if c.state = .closing ∧ c.tx.used = false then enterTimeWait tick c else c

def settleState (tick : Seq) (c : Conn) : Conn :=
  leaveClosing tick (leaveFinWait2 tick (leaveFinWait1 tick c))

def outOfWindow (c : Conn) (seg : Segment) : Bool :=
  on seg.flags ack && (sequenceLess seg.ackNo c.sndUna || sequenceGreater seg.ackNo c.sndNxt)

def onData (tick : Seq) (c : Conn) (seg : Segment) (w : Wire) : Conn × Wire :=
  if outOfWindow c seg then (c, w)
  else
    let a := if on seg.flags ack then ackSegment up tick c seg.ackNo w else (c, w)
    let p := payloadArrives up a.1 seg a.2
    let f := if on seg.flags fin then
        processFin up tick p.1 (seg.seq + BitVec.ofNat 32 seg.payload.length) p.2
      else p
    (settleState tick f.1, f.2)

def onListen (tick : Seq) (c : Conn) (src : IPv4Address) (seg : Segment) (w : Wire) : Conn × Wire :=
  if !on seg.flags syn then (c, w)
  else
    let c := { c with
      remote := src
      remotePort := seg.srcPort
      rcvNxt := seg.seq + 1
      sndUna := initialSequence
      sndNxt := initialSequence
      cwnd := initialCwnd
      ssthresh := initialSsthresh
      rto := initialRto
      state := .synReceived
      tx := {} }
    (sendTrackedSegment up tick c (syn ||| ack) [] w).2

def onSynSent (c : Conn) (seg : Segment) (w : Wire) : Conn × Wire :=
  if on seg.flags syn && on seg.flags ack then
    if c.tx.used = true ∧ seg.ackNo ≠ c.tx.endSeq then (c, w)
    else
      let c := { c with
        tx := { c.tx with used := false }
        sndUna := seg.ackNo
        rcvNxt := seg.seq + 1
        lastAck := seg.ackNo
        cwnd := initialCwnd
        state := .established }
      (c, sendAck up c w)
  else if on seg.flags syn then
    let c := { c with rcvNxt := seg.seq + 1 }
    ({ c with state := .synReceived }, (sendRawSegment up c (syn ||| ack) c.sndNxt c.rcvNxt [] w).2)
  else (c, w)

def onSynReceived (c : Conn) (seg : Segment) : Conn :=
  if on seg.flags ack then
    if c.tx.used = true ∧ seg.ackNo = c.tx.endSeq then
      { c with tx := { c.tx with used := false }, sndUna := seg.ackNo, state := .established }
    else c
  else c

def Conn.withWindow (c : Conn) (window : BitVec 16) : Conn := { c with advertisedWindow := window }

def onSegment (tick : Seq) (c : Conn) (src : IPv4Address) (seg : Segment) (w : Wire) :
    Conn × Wire :=
  if c.state = .timeWait then
    ({ c with timerTick := tick }, if on seg.flags fin then sendAck up c w else w)
  else
    let c := c.withWindow seg.window
    match c.state with
    | .listen => onListen up tick c src seg w
    | .synSent => onSynSent up c seg w
    | .synReceived => (onSynReceived c seg, w)
    | _ => onData up tick c seg w

structure Tcp where
  conns : List Conn
  nextEphemeralPort : Port
  currentTick : Seq
  wire : Wire

def net16 (p : List Byte) (i : Nat) : BitVec 16 := p.getD i 0 ++ p.getD (i + 1) 0

def net32 (p : List Byte) (i : Nat) : BitVec 32 := net16 p i ++ net16 p (i + 2)

def parse (ip src : IPv4Address) (p : List Byte) : Option Segment :=
  if p.length < 20 then none
  else
    let hdrLen := ((p.getD 12 0 >>> 4) &&& 0x0f).toNat * 4
    if hdrLen < 20 then none
    else if hdrLen > p.length then none
    else if tcpChecksum ip src p ≠ 0 then none
    else some {
      srcPort := net16 p 0
      dstPort := net16 p 2
      seq := net32 p 4
      ackNo := net32 p 8
      flags := p.getD 13 0
      window := net16 p 14
      payload := p.drop hdrLen }

def Conn.isPeer (c : Conn) (src : IPv4Address) (seg : Segment) : Bool :=
  c.used && c.localPort == seg.dstPort && c.remote == src && c.remotePort == seg.srcPort

def Conn.accepts (c : Conn) (src : IPv4Address) (seg : Segment) : Bool :=
  if c.state = .listen then
    c.used && c.localPort == seg.dstPort && on seg.flags syn && !on seg.flags ack
  else c.isPeer src seg

def refuse (src : IPv4Address) (seg : Segment) (w : Wire) : Wire :=
  if on seg.flags syn then sendRst up src seg.dstPort seg.srcPort 0 (seg.seq + 1) true w
  else sendRst up src seg.dstPort seg.srcPort seg.ackNo
    (seg.seq + BitVec.ofNat 32 seg.payload.length) false w

def dispatch (tick : Seq) (src : IPv4Address) (seg : Segment) (w : Wire) : List Conn →
    List Conn × Wire
  | [] => ([], refuse up src seg w)
  | c :: cs =>
    if c.accepts src seg then
      let r := onSegment up tick c src seg w
      (r.1 :: cs, r.2)
    else
      let r := dispatch tick src seg w cs
      (c :: r.1, r.2)

def Conn.reset (src : IPv4Address) (seg : Segment) (c : Conn) : Conn :=
  if c.state ≠ .listen ∧ c.isPeer src seg = true then clearConnection else c

def tcpReceivePacket (s : Tcp) (src : IPv4Address) (p : List Byte) : Tcp :=
  match parse s.wire.ip src p with
  | none => s
  | some seg =>
    if on seg.flags rst then { s with conns := s.conns.map (Conn.reset src seg) }
    else
      let r := dispatch up s.currentTick src seg s.wire s.conns
      { s with conns := r.1, wire := r.2 }

def tcpInit (ip : IPv4Address) : Tcp :=
  { conns := List.replicate maxConnections clearConnection
    nextEphemeralPort := ephemeralPortFirst
    currentTick := 0
    wire := { ip := ip } }

def freeSlot (conns : List Conn) : Option Nat := conns.findIdx? fun c => !c.used

def listening (port : Port) : Conn :=
  { clearConnection with
    used := true
    state := .listen
    localPort := port
    advertisedWindow := BitVec.ofNat 16 initialWindow }

def tcpListen (s : Tcp) (port : Port) : Bool × Tcp :=
  if port = 0 then (false, s)
  else if s.conns.any (fun c => c.used && c.state == .listen && c.localPort == port) then (false, s)
  else
    match freeSlot s.conns with
    | none => (false, s)
    | some i => (true, { s with conns := s.conns.set i (listening port) })

def allocateEphemeralPort (conns : List Conn) : Nat → Port → Port × Port
  | 0, next => (0, next)
  | n + 1, next =>
    let following := if next + 1 > ephemeralPortLast then ephemeralPortFirst else next + 1
    if conns.any (fun c => c.used && c.localPort == next) then allocateEphemeralPort conns n following
    else (next, following)

def connecting (dst : IPv4Address) (localPort port : Port) : Conn :=
  { clearConnection with
    used := true
    state := .synSent
    remote := dst
    localPort := localPort
    remotePort := port
    sndUna := initialSequence
    sndNxt := initialSequence
    rcvNxt := 0
    cwnd := initialCwnd
    ssthresh := initialSsthresh
    rto := initialRto
    lastAck := initialSequence
    advertisedWindow := BitVec.ofNat 16 initialWindow }

def startConnect (tick : Seq) (dst : IPv4Address) (localPort port : Port) (w : Wire) :
    Bool × Conn × Wire :=
  let r := sendTrackedSegment up tick (connecting dst localPort port) syn [] w
  if r.1 then r else (false, clearConnection, r.2.2)

def tcpConnect (s : Tcp) (dst : IPv4Address) (port : Port) : Int × Tcp :=
  if port = 0 then (-1, s)
  else
    let q := allocateEphemeralPort s.conns 16384 s.nextEphemeralPort
    let s := { s with nextEphemeralPort := q.2 }
    if q.1 = 0 then (-1, s)
    else
      match freeSlot s.conns with
      | none => (-1, s)
      | some i =>
        let r := startConnect up s.currentTick dst q.1 port s.wire
        (if r.1 then i else -1, { s with conns := s.conns.set i r.2.1, wire := r.2.2 })

def Conn.send (c : Conn) (tick : Seq) (data : List Byte) (w : Wire) : Int × Conn × Wire :=
  if !c.used then (-1, c, w)
  else if c.state ≠ .established then (-1, c, w)
  else if data.length = 0 then (0, c, w)
  else if c.tx.used then (0, c, w)
  else if c.advertisedWindow = 0 then (0, c, w)
  else if c.cwnd = 0 then (0, c, w)
  else
    let data := (data.take txBufferSize).take c.advertisedWindow.toNat
    let r := sendTrackedSegment up tick c (ack ||| psh) data w
    (if r.1 then data.length else -1, r.2)

def Conn.read (c : Conn) (len : Nat) : Int × List Byte × Conn :=
  if !c.used then (-1, [], c)
  else if rxAvailable c = 0 then (0, [], c)
  else
    let len := if len > rxAvailable c then rxAvailable c else len
    (len, slice c.rx c.rxHead len, rxResetIfEmpty { c with rxHead := c.rxHead + len })

def Conn.sendFin (c : Conn) (tick : Seq) (next : TcpState) (w : Wire) : Int × Conn × Wire :=
  if c.tx.used then (0, c, w)
  else
    let r := sendTrackedSegment up tick c (fin ||| ack) [] w
    if r.1 then (0, { r.2.1 with finSent := true, state := next }, r.2.2) else (-1, r.2)

def Conn.close (c : Conn) (tick : Seq) (w : Wire) : Int × Conn × Wire :=
  if !c.used then (-1, c, w)
  else
    match c.state with
    | .established => c.sendFin up tick .finWait1 w
    | .closeWait => c.sendFin up tick .lastAck w
    | .listen => (0, clearConnection, w)
    | .synSent => (0, clearConnection, w)
    | .synReceived => (0, clearConnection, w)
    | _ => (0, c, w)

def Tcp.conn? (s : Tcp) (handle : Int) : Option Conn :=
  if handle < 0 then none
  else if handle ≥ maxConnections then none
  else s.conns[handle.toNat]?

def Tcp.setConn (s : Tcp) (handle : Int) (c : Conn) (w : Wire) : Tcp :=
  { s with conns := s.conns.set handle.toNat c, wire := w }

def tcpSend (s : Tcp) (handle : Int) (data : List Byte) : Int × Tcp :=
  match s.conn? handle with
  | none => (-1, s)
  | some c =>
    let r := c.send up s.currentTick data s.wire
    (r.1, s.setConn handle r.2.1 r.2.2)

def tcpReceive (s : Tcp) (handle : Int) (len : Nat) : Int × List Byte × Tcp :=
  match s.conn? handle with
  | none => (-1, [], s)
  | some c =>
    let r := c.read len
    (r.1, r.2.1, s.setConn handle r.2.2 s.wire)

def tcpClose (s : Tcp) (handle : Int) : Int × Tcp :=
  match s.conn? handle with
  | none => (-1, s)
  | some c =>
    let r := c.close up s.currentTick s.wire
    (r.1, s.setConn handle r.2.1 r.2.2)

def giveUp (c : Conn) : Conn :=
  if (c.state = .synSent ∨ c.state = .synReceived) ∧ c.tx.used = true ∧
      c.tx.retransmitCount ≥ maxRetries then clearConnection
  else c

def Conn.onTick (c : Conn) (tick : Seq) (w : Wire) : Conn × Wire :=
  if !c.used then (c, w)
  else if c.state = .timeWait then
    (if tick - c.timerTick ≥ timeWaitTicks then clearConnection else c, w)
  else if c.tx.used = true ∧ tick - c.tx.sentTick ≥ c.rto then
    let r := retransmit up tick c w
    (if r.1 then giveUp r.2.1 else r.2.1, r.2.2)
  else (giveUp c, w)

def tickAll (tick : Seq) : Wire → List Conn → List Conn × Wire
  | w, [] => ([], w)
  | w, c :: cs =>
    let r := c.onTick up tick w
    let rs := tickAll tick r.2 cs
    (r.1 :: rs.1, rs.2)

def tcpTick (s : Tcp) : Tcp :=
  let r := tickAll up (s.currentTick + 1) s.wire s.conns
  { s with conns := r.1, currentTick := s.currentTick + 1, wire := r.2 }

inductive TcpOp where
  | listen (port : Port)
  | connect (dst : IPv4Address) (port : Port)
  | packet (src : IPv4Address) (bytes : List Byte)
  | send (handle : Int) (data : List Byte)
  | read (handle : Int) (len : Nat)
  | close (handle : Int)
  | tick

def step (s : Tcp) : TcpOp → Tcp
  | .listen port => (tcpListen s port).2
  | .connect dst port => (tcpConnect up s dst port).2
  | .packet src bytes => tcpReceivePacket up s src bytes
  | .send handle data => (tcpSend up s handle data).2
  | .read handle len => (tcpReceive s handle len).2.2
  | .close handle => (tcpClose up s handle).2
  | .tick => tcpTick up s

end Network

end BlockOS.Net
