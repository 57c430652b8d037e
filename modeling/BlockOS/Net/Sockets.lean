import BlockOS.Lib.Slots
import BlockOS.Net.Tcp

/-! The socket layer of `net/socket.cpp` over the TCP module, and who opened which slot of the
connection table. -/

namespace BlockOS.Net
open Words Slots

def sockStream : Int := 1
def sockDgram : Int := 2
def maxSockets : Nat := 32

structure Socket where
  used : Bool := false
  type : Int := 0
  proto : Int := 0
  transport : Int := 0
  localPort : Port := 0

structure Sockets where
  tcp : Tcp
  sockets : List Socket

def Sockets.open? (n : Sockets) (fd : Int) : Option Socket :=
  if fd < 0 ∨ fd ≥ maxSockets then none
  else (n.sockets[fd.toNat]?).filter Socket.used

def Sockets.put (n : Sockets) (fd : Int) (s : Socket) : Sockets :=
    { n with sockets := n.sockets.set fd.toNat s }

section

variable (up : Nat → Bool)

def socket (n : Sockets) (domain type protocol : Int) : Int × Sockets :=
  if domain ≠ 2 ∨ (type ≠ sockStream ∧ type ≠ sockDgram) then (-1, n)
  else
    match n.sockets.findIdx? fun s => !s.used with
    | none => (-1, n)
    | some i =>
      (i, n.put i { used := true, type := type, proto := protocol, transport := -1, localPort :=
        0 })

def bind (n : Sockets) (fd : Int) (port : Port) : Int × Sockets :=
  match n.open? fd with
  | none => (-1, n)
  | some s =>
    if port = 0 then (-1, n)
    else
      let n := n.put fd { s with localPort := port }
      if s.type = sockStream then
        let r := tcpListen n.tcp port
        (if r.1 then 0 else -1, { n with tcp := r.2 })
      else (0, n)

def connect (n : Sockets) (fd : Int) (addr : IPv4Address) (port : Port) : Int × Sockets :=
  match n.open? fd with
  | none => (-1, n)
  | some s =>
    if s.type ≠ sockStream then (-1, n)
    else
      let r := tcpConnect up n.tcp addr port
      let n := { n with tcp := r.2 }
      if r.1 < 0 then (-1, n) else (0, n.put fd { s with transport := r.1 })

def listen (n : Sockets) (fd : Int) : Int :=
  match n.open? fd with
  | none => -1
  | some s => if s.type ≠ sockStream then -1 else if s.localPort ≠ 0 then 0 else -1

def send (n : Sockets) (fd : Int) (buf : Option (List Byte)) : Int × Sockets :=
  match n.open? fd, buf with
  | some s, some data =>
    if s.type = sockStream then
      let r := tcpSend up n.tcp s.transport data
      (r.1, { n with tcp := r.2 })
    else (-1, n)
  | _, _ => (-1, n)

def recv (n : Sockets) (fd : Int) (buf : Option Nat) : Int × List Byte × Sockets :=
  match n.open? fd, buf with
  | some s, some len =>
    if s.type = sockStream then
      let r := tcpReceive n.tcp s.transport len
      (r.1, r.2.1, { n with tcp := r.2.2 })
    else (-1, [], n)
  | _, _ => (-1, [], n)

def close (n : Sockets) (fd : Int) : Int × Sockets :=
  match n.open? fd with
  | none => (-1, n)
  | some s =>
    let n := if s.type = sockStream ∧
      s.transport ≥ 0 then { n with tcp := (tcpClose up n.tcp s.transport).2 } else n
    (0, n.put fd {})

inductive SockOp where
  | socket (domain type protocol : Int)
  | bind (fd : Int) (port : Port)
  | connect (fd : Int) (addr : IPv4Address) (port : Port)
  | listen (fd : Int)
  | send (fd : Int) (buf : Option (List Byte))
  | recv (fd : Int) (buf : Option Nat)
  | close (fd : Int)
  | packet (src : IPv4Address) (bytes : List Byte)
  | tick

def sockStep (n : Sockets) : SockOp → Sockets
  | .socket domain type protocol => (socket n domain type protocol).2
  | .bind fd port => (bind n fd port).2
  | .connect fd addr port => (connect up n fd addr port).2
  | .listen _ => n
  | .send fd buf => (send up n fd buf).2
  | .recv fd buf => (recv n fd buf).2.2
  | .close fd => (close up n fd).2
  | .packet src bytes => { n with tcp := tcpReceivePacket up n.tcp src bytes }
  | .tick => { n with tcp := tcpTick up n.tcp }

def socketsInit (ip : IPv4Address) : Sockets :=
  { tcp := tcpInit ip, sockets := List.replicate maxSockets {} }

structure Traced where
  net : Sockets
  number : Nat → Nat
  opener : Nat → Option Opener
  next : Nat

def bindSlot (n : Sockets) (fd : Int) (port : Port) : Option Nat :=
  match n.open? fd with
  | none => none
  | some s =>
    if s.type = sockStream ∧ (tcpListen n.tcp port).1 = true then freeSlot n.tcp.conns else none

def connectSlot (n : Sockets) (fd : Int) (addr : IPv4Address) (port : Port) : Option Nat :=
  match n.open? fd with
  | none => none
  | some s =>
    if s.type = sockStream ∧ 0 ≤ (tcpConnect up n.tcp addr port).1 then
      some (tcpConnect up n.tcp addr port).1.toNat
    else none

def Traced.opens (t : Traced) (slot : Option Nat) (o : Opener) : Nat → Option Opener :=
  fun i => if slot = some i then some o else t.opener i

def tracedStep (t : Traced) (op : SockOp) : Traced :=
  let net := sockStep up t.net op
  match op with
  | .socket domain type protocol =>
    let r := (socket t.net domain type protocol).1
    if r < 0 then t
    else { t with net := net, number := fun i => if i = r.toNat then t.next else t.number i, next :=
      t.next + 1 }
  | .bind fd port =>
    { t with net := net, opener := t.opens (bindSlot t.net fd port) ⟨t.number fd.toNat, false⟩ }
  | .connect fd addr port =>
    { t with net := net, opener :=
      t.opens (connectSlot up t.net fd addr port) ⟨t.number fd.toNat, true⟩ }
  | _ => { t with net := net }

def tracedInit (ip : IPv4Address) : Traced :=
  { net := socketsInit ip, number := fun _ => 0, opener := fun _ => none, next := 0 }

end

end BlockOS.Net
