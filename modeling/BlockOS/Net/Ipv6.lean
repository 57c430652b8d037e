import BlockOS.Net.Arp

/-! `ipv6.cpp`, `icmpv6.cpp` and `ndp.cpp`, with `udp6_receive`. -/

namespace BlockOS.Net
open Words OnesComplement

abbrev IPv6Address := Vector Byte 16

structure Neighbour where
  valid : Bool
  ip : IPv6Address
  mac : MacAddress
  age : BitVec 32

structure UdpDatagram6 where
  src : IPv6Address
  srcPort : Port
  dstPort : Port
  data : List Byte

structure Host6 (η : Type) extends Host η where
  localAddr : IPv6Address
  router : IPv6Address
  prefixAddr : IPv6Address
  prefixLen : Byte
  ready : Bool
  neighbours : List Neighbour
  ndpRouter : IPv6Address
  age : BitVec 32
  bindings6 : List (Option (Binding η))

def ethertypeIPv6 : BitVec 16 := 0x86DD
def icmpv6EchoRequest : Byte := 128
def icmpv6EchoReply : Byte := 129

def unspecified : IPv6Address := Vector.replicate 16 0

def isMulticast (a : IPv6Address) : Bool := a[0] == 0xff

def allNodes : IPv6Address := #v[0xff, 0x02, 0, 0, 0, 0, 0, 0, 0, 0, 0, 0, 0, 0, 0, 1]

def solicitedNode (t : IPv6Address) : IPv6Address :=
  #v[0xff, 0x02, 0, 0, 0, 0, 0, 1, 0xff, t[13], t[14], t[15], 0, 0, 0, 0]

def multicastMac (a : IPv6Address) : MacAddress := #v[0x33, 0x33, a[12], a[13], a[14], a[15]]

def address6 (p : List Byte) (i : Nat) : IPv6Address := Vector.ofFn fun k => p.getD (i + k) 0

def ipv6TransportChecksum (src dst : IPv6Address) (nextHeader : Byte) (data : List Byte) :
    BitVec 16 :=
  let s := sumWords (sumWords 0 src.toList) dst.toList
  let s := [(data.length >>> 16) % 65536, data.length % 65536, nextHeader.toNat].foldl addWord s
  ~~~BitVec.ofNat 16 (sumWords s data)

variable {η : Type} (up : Nat → Bool)

def ipv6Header (src dst : IPv6Address) (next hop : Byte) (n : Nat) : List Byte :=
  le32 (htonl (6 <<< 28)) ++ le16 (htons (BitVec.ofNat 16 n)) ++ [next, hop] ++ src.toList ++ dst.toList

def Host6.sendFrame6 (h : Host6 η) (mac : MacAddress) (dst : IPv6Address) (next : Byte)
    (payload : List Byte)
    (hop : Byte) : Bool × Host6 η :=
  let sent := h.sendFrame up mac ethertypeIPv6
    (ipv6Header h.localAddr dst next hop payload.length ++ payload)
  (sent.1, { h with toHost := sent.2 })

def Host6.onLink (h : Host6 η) (dst : IPv6Address) : Bool :=
  let full := h.prefixLen.toNat / 8
  let rem := h.prefixLen.toNat % 8
  let mask : Byte := 0xff <<< (8 - rem)
  h.prefixLen == 0 || (dst.toList.take full == h.prefixAddr.toList.take full &&
      (rem == 0 || dst.toList.getD full 0 &&& mask == h.prefixAddr.toList.getD full 0 &&& mask))

def Host6.nextHop6 (h : Host6 η) (dst : IPv6Address) : IPv6Address :=
  if !h.onLink dst && h.router != unspecified then h.router else dst

def Host6.ndpLookup (h : Host6 η) (ip : IPv6Address) : Option MacAddress :=
  (h.neighbours.find? fun e => e.valid && e.ip == ip).map Neighbour.mac

def solicitation (sum : BitVec 16) (target : IPv6Address) (mac : MacAddress) : List Byte :=
  let message := [135, 0] ++ le16 sum ++ [0, 0, 0, 0] ++ target.toList ++ List.replicate 16 0
  (message.take 20 ++ ([1, 1] ++ mac.toList) ++ message.drop 28).take 28

def Host6.ndpRequest (h : Host6 η) (target : IPv6Address) : Bool × Host6 η :=
  let dst := solicitedNode target
  let sum := htons (ipv6TransportChecksum h.localAddr dst 58 (solicitation 0 target h.mac))
  h.sendFrame6 up (multicastMac dst) dst 58 (solicitation sum target h.mac) 255

def Host6.ipv6Send (h : Host6 η) (dst : IPv6Address) (next : Byte) (payload : List Byte)
    (hop : Byte) :
    Bool × Host6 η :=
  if payload.length > 1232 then (false, h)
  else if isMulticast dst then h.sendFrame6 up (multicastMac dst) dst next payload hop
  else
    match h.ndpLookup (h.nextHop6 dst) with
    | none => (false, (h.ndpRequest up (h.nextHop6 dst)).2)
    | some m => h.sendFrame6 up m dst next payload hop

def Host6.udp6Receive (h : Host6 η) (src dst : IPv6Address) (packet : List Byte) :
    List (η × UdpDatagram6) :=
  let ulen := (net16 packet 4).toNat
  if packet.length < 8 then []
  else if ulen < 8 ∨ ulen > packet.length then []
  else if net16 packet 6 = 0 ∨ ipv6TransportChecksum src dst 17 (packet.take ulen) ≠ 0 then []
  else
    match firstBound (net16 packet 2) h.bindings6 with
    | none => []
    | some handler => [(handler, ⟨src, net16 packet 0, net16 packet 2, (packet.take ulen).drop 8⟩)]

def echoReply (sum : BitVec 16) (rest : List Byte) : List Byte :=
    [icmpv6EchoReply, 0] ++ le16 sum ++ rest

def Host6.icmpv6Receive (h : Host6 η) (src dst : IPv6Address) (packet : List Byte) : Host6 η :=
  if h.ready = false ∨ packet.length < 8 then h
  else if ipv6TransportChecksum src dst 58 packet ≠ 0 then h
  else if packet.getD 0 0 ≠ icmpv6EchoRequest ∨ packet.getD 1 0 ≠ 0 then h
  else if packet.length > 1232 then h
  else
    let sum := htons (ipv6TransportChecksum h.localAddr src 58 (echoReply 0 (packet.drop 4)))
    (h.ipv6Send up src 58 (echoReply sum (packet.drop 4)) 64).2

def Host6.ipv6Receive (h : Host6 η) (packet : List Byte) : Host6 η × List (η × UdpDatagram6) :=
  let plen := (net16 packet 4).toNat
  if packet.length < 40 then (h, [])
  else if packet.getD 0 0 >>> 4 ≠ 6 then (h, [])
  else if plen > packet.length - 40 then (h, [])
  else
    let p := (packet.drop 40).take plen
    match packet.getD 6 0 with
    | 58 => (h.icmpv6Receive up (address6 packet 8) (address6 packet 24) p, [])
    | 17 => (h, h.udp6Receive (address6 packet 8) (address6 packet 24) p)
    | _ => (h, [])

def storeNeighbour (ip : IPv6Address) (mac : MacAddress) (age : BitVec 32)
    (cache : List Neighbour) : List Neighbour :=
  match (cache.findIdx? fun e => e.valid && e.ip == ip).or (cache.findIdx? fun e => !e.valid) with
  | some i => cache.set i ⟨true, ip, mac, age⟩
  | none => cache

def Host6.advertised (h : Host6 η) (t : IPv6Address) (options : List Byte) : Host6 η :=
  (List.range (options.length / 8)).foldl (fun h k =>
    if options.getD (8 * k) 0 = 2 ∧ options.getD (8 * k + 1) 0 = 1 then
      { h with neighbours := storeNeighbour t (macAt options (8 * k + 2)) h.age h.neighbours }
    else h) h

def autoAddress (net : IPv6Address) (mac : MacAddress) : IPv6Address :=
  #v[net[0], net[1], net[2], net[3], net[4], net[5], net[6], net[7], mac[0] ^^^ 0x02, mac[1],
    mac[2], 0xff, 0xfe, mac[3], mac[4], mac[5]]

def Host6.routerOptions (p : List Byte) : Nat → Nat → Host6 η → Host6 η
  | 0, _, h => h
  | fuel + 1, off, h =>
    let olen := (p.getD (off + 1) 0 * 8).toNat
    if off + 2 > p.length then h
    else if olen < 8 ∨ off + olen > p.length then h
    else if p.getD off 0 = 3 ∧ olen ≥ 32 ∧ p.getD (off + 2) 0 = 64 ∧ p.getD (off + 3) 0 &&& 0x40 ≠ 0 then
      let net := address6 p (off + 16)
      Host6.routerOptions p fuel (off + olen)
        { h with prefixAddr := net, prefixLen := 64, localAddr := autoAddress net h.mac }
    else Host6.routerOptions p fuel (off + olen) h

def neighbourReply (sum : BitVec 16) (own : IPv6Address) (mac : MacAddress) : List Byte :=
  let message := [136, 0] ++ le16 sum ++ [0, 0, 0, 0] ++ own.toList ++ List.replicate 8 0
  (message.take 20 ++ ([2, 1] ++ mac.toList) ++ message.drop 28).take 28

def Host6.ndpReceive (h : Host6 η) (src : IPv6Address) (p : List Byte) : Host6 η :=
  if p.length < 8 then h
  else if p.getD 0 0 = 135 ∧ p.length ≥ 24 then
    if address6 p 8 ≠ h.localAddr then h
    else
      let dst := if src = unspecified then allNodes else src
      let sum := htons (ipv6TransportChecksum h.localAddr dst 58 (neighbourReply 0 h.localAddr h.mac))
      (h.ipv6Send up dst 58 (neighbourReply sum h.localAddr h.mac) 255).2
  else if p.getD 0 0 = 136 ∧ p.length ≥ 24 then
    if address6 p 8 ≠ h.localAddr then h else h.advertised (address6 p 8) (p.drop 24)
  else if p.getD 0 0 = 134 ∧ p.length ≥ 16 then
    Host6.routerOptions p p.length 16 { h with ndpRouter := src }
  else h

end BlockOS.Net
