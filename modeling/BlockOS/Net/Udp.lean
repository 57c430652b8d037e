import BlockOS.Net.Tcp

/-! Datagrams over IPv4: `udp.cpp`, `ipv4.cpp` and the parts of `net.cpp` and `arp.cpp` that they
use. -/

namespace BlockOS.Net
open Words OnesComplement

abbrev MacAddress := Vector Byte 6

structure ArpEntry where
  valid : Bool
  ip : IPv4Address
  mac : MacAddress

structure Binding (η : Type) where
  port : Port
  handler : η
  deriving DecidableEq

structure UdpDatagram where
  src : IPv4Address
  srcPort : Port
  dstPort : Port
  data : List Byte
  deriving DecidableEq

structure Host (η : Type) where
  ip : IPv4Address
  mask : IPv4Address
  gw : IPv4Address
  mac : MacAddress
  cache : List ArpEntry
  identification : BitVec 16
  bindings : List (Option (Binding η))
  frames : List (List Byte) := []

def ipUdp : Nat := 17
def etherTypeIPv4 : BitVec 16 := 0x0800
def etherTypeArp : BitVec 16 := 0x0806
def ethMaxFrame : Nat := 1514

def IPv4Address.bytes (a : IPv4Address) : List Byte := [a.b0, a.b1, a.b2, a.b3]

def addWord (s v : Nat) : Nat := fold16 (add32 s v)

def csum4 (src dst : IPv4Address) (p : List Byte) : BitVec 16 :=
  let s := [word src.b0 src.b1, word dst.b0 dst.b1, word src.b2 src.b3, word dst.b2 dst.b3, ipUdp,
    p.length % 65536].foldl addWord 0
  ~~~BitVec.ofNat 16 (sumWords s p)

def plainSum : Nat → List Byte → Nat
  | sum, hi :: lo :: rest => plainSum (add32 sum (word hi lo)) rest
  | sum, [b] => add32 sum (b.toNat <<< 8)
  | sum, [] => sum

def checksum (data : List Byte) : BitVec 16 := htons (~~~BitVec.ofNat 16 (fold16 (plainSum 0 data)))

section

variable {η : Type} (up : Nat → Bool)

def ethernetFrame (src dst : MacAddress) (ethertype : BitVec 16) (payload : List Byte) :
    List Byte :=
  dst.toList ++ src.toList ++ [(ethertype >>> 8).setWidth 8, ethertype.setWidth 8] ++ payload

def Host.sendFrame (h : Host η) (dst : MacAddress) (ethertype : BitVec 16) (payload : List Byte) :
    Bool × Host η :=
  if payload.length + 14 > ethMaxFrame then (false, h)
  else (up h.frames.length, { h with frames := h.frames ++ [ethernetFrame h.mac dst ethertype payload] })

def Host.arpLookup (h : Host η) (ip : IPv4Address) : Option MacAddress :=
  (h.cache.find? fun e => e.valid && e.ip == ip).map ArpEntry.mac

def Host.arpRequest (h : Host η) (ip : IPv4Address) : Bool × Host η :=
  let p := le16 (htons 1) ++ le16 (htons etherTypeIPv4) ++ [6, 4] ++ le16 (htons 1) ++ h.mac.toList
    ++ h.ip.bytes ++ List.replicate 6 0 ++ ip.bytes
  h.sendFrame up (Vector.replicate 6 0xff) etherTypeArp p

def sameSubnet (mask a b : IPv4Address) : Bool :=
  a.b0 &&& mask.b0 == b.b0 &&& mask.b0 && a.b1 &&& mask.b1 == b.b1 &&& mask.b1 &&
    a.b2 &&& mask.b2 == b.b2 &&& mask.b2 && a.b3 &&& mask.b3 == b.b3 &&& mask.b3

def broadcast : IPv4Address := ⟨255, 255, 255, 255⟩

def Host.nextHop (h : Host η) (dst : IPv4Address) : IPv4Address :=
    if sameSubnet h.mask h.ip dst then dst else h.gw

def Host.resolve (h : Host η) (dst : IPv4Address) : Option MacAddress :=
  if dst = broadcast then some (Vector.replicate 6 0xff) else h.arpLookup (h.nextHop dst)

def ipStart (total identification : BitVec 16) (protocol : Byte) : List Byte :=
  [0x45, 0] ++ le16 (htons total) ++ le16 (htons identification) ++ le16 (htons 0x4000) ++ [64, protocol]

def ipHeader (start : List Byte) (sum : BitVec 16) (src dst : IPv4Address) : List Byte :=
  start ++ le16 sum ++ (src.bytes ++ dst.bytes)

def Host.ipv4Packet (h : Host η) (dst : IPv4Address) (protocol : Byte) (payload : List Byte) :
    List Byte :=
  let start := ipStart (BitVec.ofNat 16 (20 + payload.length)) h.identification protocol
  ipHeader start (checksum (ipHeader start 0 h.ip dst)) h.ip dst ++ payload

def Host.ipv4Send (h : Host η) (dst : IPv4Address) (protocol : Byte) (payload : List Byte) :
    Bool × Host η :=
  if payload.length > 1480 then (false, h)
  else
    match h.resolve dst with
    | none => (false, (h.arpRequest up (h.nextHop dst)).2)
    | some mac =>
      { h with identification := h.identification + 1 }.sendFrame up mac etherTypeIPv4
        (h.ipv4Packet dst protocol payload)

def udpBind (h : Host η) [DecidableEq η] (port : Port) (handler : Option η) : Bool × Host η :=
  match handler with
  | none => (false, h)
  | some handler =>
    if port = 0 then (false, h)
    else if some ⟨port, handler⟩ ∈ h.bindings then (true, h)
    else
      match h.bindings.findIdx? Option.isNone with
      | none => (false, h)
      | some i => (true, { h with bindings := h.bindings.set i (some ⟨port, handler⟩) })

def udpPacket (srcPort dstPort : Port) (sum : BitVec 16) (data : List Byte) : List Byte :=
  le16 (htons srcPort) ++ le16 (htons dstPort) ++ le16 (htons (BitVec.ofNat 16 (8 + data.length)))
    ++ le16 sum ++ data

def udpSum (src dst : IPv4Address) (srcPort dstPort : Port) (data : List Byte) : BitVec 16 :=
  let sum := htons (csum4 src dst (udpPacket srcPort dstPort 0 data))
  if sum = 0 then 0xffff else sum

def udpSend (h : Host η) (dst : IPv4Address) (srcPort dstPort : Port) (data : List Byte) :
    Bool × Host η :=
  if data.length + 8 > 1480 then (false, h)
  else h.ipv4Send up dst (BitVec.ofNat 8 ipUdp)
    (udpPacket srcPort dstPort (udpSum h.ip dst srcPort dstPort data) data)

def firstBound (port : Port) : List (Option (Binding η)) → Option η
  | [] => none
  | some b :: bs => if b.port = port then some b.handler else firstBound port bs
  | none :: bs => firstBound port bs

def udpReceive (h : Host η) (src : IPv4Address) (packet : List Byte) : List (η × UdpDatagram) :=
  let ulen := (net16 packet 4).toNat
  if packet.length < 8 then []
  else if ulen < 8 ∨ ulen > packet.length then []
  else if net16 packet 6 ≠ 0 ∧ csum4 src h.ip (packet.take ulen) ≠ 0 then []
  else
    match firstBound (net16 packet 2) h.bindings with
    | none => []
    | some handler => [(handler, ⟨src, net16 packet 0, net16 packet 2, (packet.take ulen).drop 8⟩)]

inductive Delivery (η : Type) where
  | dropped
  | overread
  | icmp (src : IPv4Address) (p : List Byte)
  | udp (calls : List (η × UdpDatagram))
  | tcp (src : IPv4Address) (p : List Byte)
  deriving DecidableEq

def address (p : List Byte) (i : Nat) : IPv4Address :=
    ⟨p.getD i 0, p.getD (i + 1) 0, p.getD (i + 2) 0, p.getD (i + 3) 0⟩

def ipv4Receive (h : Host η) (packet : List Byte) : Delivery η :=
  let version := packet.getD 0 0 >>> 4
  let ihl := (packet.getD 0 0 &&& 0x0f).toNat * 4
  let total := (net16 packet 2).toNat
  if packet.length < 20 then .dropped
  else if version ≠ 4 ∨ ihl < 20 ∨ ihl > packet.length then .dropped
  else if total < ihl ∨ total > packet.length then .dropped
  else if ihl > 20 then .overread
  else if checksum (packet.take 20) ≠ 0 then .dropped
  else if address packet 16 ≠ h.ip then .dropped
  else
    let p := (packet.take total).drop ihl
    match packet.getD 9 0 with
    | 1 => .icmp (address packet 12) p
    | 17 => .udp (udpReceive h (address packet 12) p)
    | 6 => .tcp (address packet 12) p
    | _ => .dropped

end

end BlockOS.Net
