import BlockOS.Lib.OnesComplement
import BlockOS.Lib.Words

/-! The records of `net/tcp.cpp` and the segments it sends. -/

namespace BlockOS.Net
open Words OnesComplement

abbrev Seq := BitVec 32
abbrev Port := BitVec 16

def maxConnections : Nat := 16
def rxBufferSize : Nat := 8192
def txBufferSize : Nat := 1460
def ephemeralPortFirst : Port := 49152
def ephemeralPortLast : Port := 65535
def fin : Byte := 0x01
def syn : Byte := 0x02
def rst : Byte := 0x04
def psh : Byte := 0x08
def ack : Byte := 0x10
def initialSequence : Seq := 1
def initialRto : Seq := 30
def maxRto : Seq := 480
def maxRetries : Seq := 6
def timeWaitTicks : Seq := 120
def initialWindow : Nat := 4096
def initialCwnd : Seq := 1
def initialSsthresh : Seq := 8
def ipTcp : Nat := 6

def on (flags f : Byte) : Bool := flags &&& f != 0

structure IPv4Address where
  b0 : Byte
  b1 : Byte
  b2 : Byte
  b3 : Byte
  deriving DecidableEq, Repr

inductive TcpState where
  | closed | listen | synSent | synReceived | established | finWait1 | finWait2 | closeWait
  | lastAck | closing | timeWait
  deriving DecidableEq, Repr

structure TxSegment where
  used : Bool := false
  seq : Seq := 0
  endSeq : Seq := 0
  flags : Byte := 0
  payload : List Byte := []
  sentTick : Seq := 0
  retransmitCount : Seq := 0

structure OutOfOrderSegment where
  used : Bool := false
  seq : Seq := 0
  data : List Byte := []

structure Conn where
  used : Bool := false
  state : TcpState := .closed
  remote : IPv4Address := ⟨0, 0, 0, 0⟩
  localPort : Port := 0
  remotePort : Port := 0
  sndUna : Seq := 0
  sndNxt : Seq := 0
  rcvNxt : Seq := 0
  advertisedWindow : BitVec 16 := 0
  cwnd : Seq := 0
  ssthresh : Seq := 0
  rto : Seq := 0
  lastAck : Seq := 0
  duplicateAcks : Byte := 0
  timerTick : Seq := 0
  retries : Byte := 0
  finSent : Bool := false
  finReceived : Bool := false
  rx : Nat → Byte := fun _ => 0
  rxHead : Nat := 0
  rxTail : Nat := 0
  tx : TxSegment := {}
  ooo : OutOfOrderSegment := {}

def clearConnection : Conn := {}

structure Wire where
  ip : IPv4Address
  tries : Nat := 0
  sent : List (IPv4Address × List Byte) := []

def word (hi lo : Byte) : Nat := hi.toNat <<< 8 ||| lo.toNat

def add32 (a b : Nat) : Nat := (a + b) % 4294967296

def pseudoSum (src dst : IPv4Address) (len : Nat) : Nat :=
  [word src.b0 src.b1, word src.b2 src.b3, word dst.b0 dst.b1, word dst.b2 dst.b3, ipTcp,
    len % 4294967296].foldl add32 0

def sumWords : Nat → List Byte → Nat
  | sum, hi :: lo :: rest => sumWords (fold16 (add32 sum (word hi lo))) rest
  | sum, [b] => fold16 (add32 sum (b.toNat <<< 8))
  | sum, [] => sum

def tcpSum (src dst : IPv4Address) (data : List Byte) : Nat :=
  fold16 (sumWords (pseudoSum src dst data.length) data)

def tcpChecksum (src dst : IPv4Address) (data : List Byte) : BitVec 16 :=
  ~~~BitVec.ofNat 16 (tcpSum src dst data)

def htons (x : BitVec 16) : BitVec 16 := x <<< 8 ||| x >>> 8

def htonl (x : BitVec 32) : BitVec 32 :=
  (x &&& 0x000000ff) <<< 24 ||| (x &&& 0x0000ff00) <<< 8 ||| (x &&& 0x00ff0000) >>> 8 |||
    (x &&& 0xff000000) >>> 24

def le16 (x : BitVec 16) : List Byte := [x.setWidth 8, (x >>> 8).setWidth 8]

def le32 (x : BitVec 32) : List Byte :=
  [x.setWidth 8, (x >>> 8).setWidth 8, (x >>> 16).setWidth 8, (x >>> 24).setWidth 8]

def headerStart (srcPort dstPort : Port) (seq ackNo : Seq) (flags : Byte) (window : BitVec 16) :
    List Byte :=
  le16 (htons srcPort) ++ le16 (htons dstPort) ++ le32 (htonl seq) ++ le32 (htonl ackNo) ++
    [0x50, flags] ++ le16 (htons window)

def packet (start : List Byte) (checksum : BitVec 16) (payload : List Byte) : List Byte :=
  start ++ le16 checksum ++ [0, 0] ++ payload

def sealed (src dst : IPv4Address) (start payload : List Byte) : List Byte :=
  packet start (tcpChecksum src dst (packet start 0 payload)) payload

def rxAvailable (c : Conn) : Nat := if c.rxTail < c.rxHead then 0 else c.rxTail - c.rxHead

def rxFreeSpace (c : Conn) : Nat :=
  if rxAvailable c ≥ rxBufferSize then 0 else rxBufferSize - rxAvailable c

def rawHeader (c : Conn) (flags : Byte) (seq ackNo : Seq) : List Byte :=
  headerStart c.localPort c.remotePort seq ackNo flags
    (BitVec.ofNat 16 (if rxFreeSpace c < initialWindow then rxFreeSpace c else initialWindow))

def rawSegment (ip : IPv4Address) (c : Conn) (flags : Byte) (seq ackNo : Seq)
    (payload : List Byte) : List Byte :=
  sealed ip c.remote (rawHeader c flags seq ackNo) payload

def rstHeader (srcPort dstPort : Port) (seq ackNo : Seq) (ackFlag : Bool) : List Byte :=
  headerStart srcPort dstPort seq ackNo (rst ||| if ackFlag then ack else 0) 0

def rstSegment (ip dst : IPv4Address) (srcPort dstPort : Port) (seq ackNo : Seq) (ackFlag : Bool) :
    List Byte :=
  sealed ip dst (rstHeader srcPort dstPort seq ackNo ackFlag) []

section Network

variable (up : Nat → Bool)

def ipv4Send (w : Wire) (dst : IPv4Address) (payload : List Byte) : Bool × Wire :=
  if up w.tries then (true, { w with tries := w.tries + 1, sent := (dst, payload) :: w.sent })
  else (false, { w with tries := w.tries + 1 })

def sendRawSegment (c : Conn) (flags : Byte) (seq ackNo : Seq) (payload : List Byte) (w : Wire) :
    Bool × Wire :=
  if payload.length > txBufferSize then (false, w)
  else ipv4Send up w c.remote (rawSegment w.ip c flags seq ackNo payload)

def sendAck (c : Conn) (w : Wire) : Wire := (sendRawSegment up c ack c.sndNxt c.rcvNxt [] w).2

def sendRst (dst : IPv4Address) (srcPort dstPort : Port) (seq ackNo : Seq) (ackFlag : Bool)
    (w : Wire) : Wire :=
  (ipv4Send up w dst (rstSegment w.ip dst srcPort dstPort seq ackNo ackFlag)).2

def advance (flags : Byte) (payload : List Byte) : Seq :=
  BitVec.ofNat 32 payload.length + (if on flags syn then 1 else 0) + (if on flags fin then 1 else 0)

def Conn.track (c : Conn) (tick : Seq) (flags : Byte) (payload : List Byte) : Conn :=
  { c with
    tx := { used := true, seq := c.sndNxt, endSeq := c.sndNxt + advance flags payload,
            flags := flags, payload := payload, sentTick := tick, retransmitCount := 0 }
    sndNxt := c.sndNxt + advance flags payload
    timerTick := tick }

def sendTrackedSegment (tick : Seq) (c : Conn) (flags : Byte) (payload : List Byte) (w : Wire) :
    Bool × Conn × Wire :=
  if c.tx.used then (false, c, w)
  else if payload.length > txBufferSize then (false, c, w)
  else
    let r := sendRawSegment up c flags c.sndNxt c.rcvNxt payload w
    if r.1 then (true, c.track tick flags payload, r.2) else (false, c, r.2)

def halved (cwnd : Seq) : Seq := if cwnd / 2 < 2 then 2 else cwnd / 2

def Conn.backOff (c : Conn) : Conn :=
  { c with
    tx := { c.tx with retransmitCount := c.tx.retransmitCount + 1 }
    rto := if c.rto * 2 > maxRto then maxRto else c.rto * 2
    ssthresh := halved c.cwnd
    cwnd := 1 }

def retransmit (tick : Seq) (c : Conn) (w : Wire) : Bool × Conn × Wire :=
  if !c.tx.used then (false, c, w)
  else if c.tx.retransmitCount ≥ maxRetries then (false, clearConnection, w)
  else
    let c := c.backOff
    let r := sendRawSegment up c c.tx.flags c.tx.seq c.rcvNxt c.tx.payload w
    if r.1 then (true, { c with tx := { c.tx with sentTick := tick }, timerTick := tick }, r.2)
    else (false, c, r.2)

end Network

end BlockOS.Net
