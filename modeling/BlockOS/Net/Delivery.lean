import BlockOS.Net.Checksum
import BlockOS.Net.Udp

/-! A datagram that one host sends is the datagram that the handler of another host gets. -/

namespace BlockOS.Net
open Words OnesComplement List
open BitVec (ofNat toNat_ofNat)

theorem wordSum_le (data : List Byte) : wordSum data ≤ 65535 * data.length := by
  fun_induction wordSum data with
  | case1 hi lo rest ih =>
    have h := word_lt hi lo
    simp only [length_cons]
    omega
  | case2 b =>
    rw [Nat.shiftLeft_eq, length_singleton]
    omega
  | case3 => exact Nat.zero_le _

theorem plainSum_eq {sum : Nat} (h : sum + wordSum data < 4294967296) :
    plainSum sum data = sum + wordSum data := by
  fun_induction plainSum sum data with
  | case1 sum hi lo rest ih =>
    rw [wordSum] at h ⊢
    rw [add32_of_lt (by omega)] at ih ⊢
    omega
  | case2 sum b =>
    exact add32_of_lt h
  | case3 sum => rfl

theorem folds_addWord (h : Folds s t) (hv : v < 65536) : Folds (addWord s v) (t + v) := by
  have hlt := h.lt
  rw [addWord, add32_of_lt (by omega)]
  exact h.add v

theorem folds_foldl (h : Folds s t) {vs : List Nat} (hvs : ∀ v ∈ vs, v < 65536) :
    Folds (vs.foldl addWord s) (t + vs.sum) := by
  induction vs generalizing s t with
  | nil => exact h
  | cons v vs ih =>
    rw [foldl_cons, sum_cons, ← Nat.add_assoc]
    exact ih (folds_addWord h (hvs v mem_cons_self)) fun u hu => hvs u (mem_cons_of_mem v hu)

theorem folds_sumWords {s t : Nat} {data : List Byte} (h : Folds s t) : Folds (sumWords s data)
    (t + wordSum data) := by
  fun_induction sumWords s data generalizing t with
  | case1 s hi lo rest ih =>
    rw [wordSum, ← Nat.add_assoc]
    exact ih (folds_addWord h (word_lt hi lo))
  | case2 s b =>
    exact folds_addWord h (by rw [Nat.shiftLeft_eq]; omega)
  | case3 s => exact h

def pseudoWords (src dst : IPv4Address) (n : Nat) : List Nat :=
  [word src.b0 src.b1, word dst.b0 dst.b1, word src.b2 src.b3, word dst.b2 dst.b3, ipUdp, n % 65536]

def csumTotal (src dst : IPv4Address) (p : List Byte) : Nat :=
    (pseudoWords src dst p.length).sum + wordSum p

theorem csumTotal_pos (src dst : IPv4Address) (p : List Byte) : 0 < csumTotal src dst p := by
  simp only [csumTotal, pseudoWords, sum_cons, ipUdp]
  omega

theorem complement_toNat (h : s < 65536) : (~~~ofNat 16 s).toNat = 65535 - s := by
  rw [BitVec.toNat_not, toNat_ofNat, Nat.mod_eq_of_lt h]

theorem complement_eq_zero (h : s < 65536) : ~~~ofNat 16 s = 0 ↔ s = 65535 := by
  have hn := complement_toNat h
  rw [← BitVec.toNat_inj, hn]
  exact ⟨fun h0 => by simp at h0; omega, fun h0 => by subst h0; rfl⟩

theorem csum4_spec (src dst : IPv4Address) (p : List Byte) :
    ∃ s, Folds s (csumTotal src dst p) ∧ csum4 src dst p = ~~~ofNat 16 s := by
  refine ⟨_, ?_, rfl⟩
  have hvs : ∀ v ∈ pseudoWords src dst p.length, v < 65536 := by
    simp only [pseudoWords, forall_mem_cons, word_lt, not_mem_nil, ipUdp, true_and]
    exact ⟨by decide, Nat.mod_lt _ (by decide), nofun⟩
  have h := @folds_sumWords _ _ p (folds_foldl folds_zero hvs)
  rwa [Nat.zero_add] at h

theorem csum4_eq_zero (src dst : IPv4Address) (p : List Byte) : csum4 src dst p = 0 ↔
    csumTotal src dst p % 65535 = 0 := by
  obtain ⟨s, hs, h⟩ := csum4_spec src dst p
  rw [h, complement_eq_zero hs.lt, hs.ones (csumTotal_pos src dst p)]

theorem checksum_spec {data : List Byte} (h : data.length ≤ 65536) :
    ∃ s, Folds s (wordSum data) ∧ checksum data = htons (~~~ofNat 16 s) := by
  have hle := wordSum_le data
  refine ⟨_, ?_, rfl⟩
  rw [plainSum_eq (by omega), Nat.zero_add]
  exact folds_fold16 _

theorem checksum_eq_zero_iff (h : data.length ≤ 65536) : checksum data = 0 ↔
    fold16 (wordSum data) = 65535 := by
  have hle := wordSum_le data
  rw [checksum, plainSum_eq (by omega), Nat.zero_add, ← complement_eq_zero (fold16_lt _)]
  exact ⟨fun h1 => by rw [← htons_htons (~~~_), h1]; rfl, fun h1 => by rw [h1]; rfl⟩

theorem checksum_eq_zero (h : data.length ≤ 65536) (h0 : 0 < wordSum data) :
    checksum data = 0 ↔ wordSum data % 65535 = 0 := by
  rw [checksum_eq_zero_iff h, (folds_fold16 _).ones h0]

theorem checksum_ipHeader (hs : start.length = 10) (h0 : 0 < wordSum start)
    (src dst : IPv4Address) :
    checksum (ipHeader start (checksum (ipHeader start 0 src dst)) src dst) = 0 := by
  have hlen : ∀ c, (ipHeader start c src dst).length = 20 := fun c => by
    simp [ipHeader, hs, le16, IPv4Address.bytes]
  have hsum : ∀ c, wordSum (ipHeader start c src dst) =
      wordSum start + (wordSum (le16 c) + wordSum (src.bytes ++ dst.bytes)) := fun c => by
    rw [ipHeader, append_assoc, wordSum_append _ (by omega), wordSum_append _ (by simp [le16])]
  have hzero : wordSum (le16 0) = 0 := rfl
  obtain ⟨s, hf, hc⟩ := @checksum_spec (ipHeader start 0 src dst) (by rw [hlen]; decide)
  have hcomp := hf.complement
  rw [checksum_eq_zero (by rw [hlen]; decide) (by rw [hsum]; omega), hsum, hc]
  have hfield := wordSum_field (~~~ofNat 16 s) []
  rw [append_nil, complement_toNat hf.lt] at hfield
  rw [hsum, hzero] at hcomp
  rw [hfield, wordSum]
  omega

theorem length_udpPacket (srcPort dstPort : Port) (sum : BitVec 16) (data : List Byte) :
    (udpPacket srcPort dstPort sum data).length = 8 + data.length := by
  simp [udpPacket, le16]
  omega

theorem csum4_udpPacket (src dst : IPv4Address) (srcPort dstPort : Port) (data : List Byte) :
    csum4 src dst (udpPacket srcPort dstPort (udpSum src dst srcPort dstPort data) data) = 0 ∧
      udpSum src dst srcPort dstPort data ≠ 0 := by
  have htotal : ∀ c, csumTotal src dst (udpPacket srcPort dstPort c data) =
      csumTotal src dst (udpPacket srcPort dstPort 0 data) + wordSum (le16 c) := fun c => by
    have hsum : ∀ c, wordSum (udpPacket srcPort dstPort c data) = srcPort.toNat + (dstPort.toNat +
        ((ofNat 16 (8 + data.length)).toNat + (wordSum (le16 c) + wordSum data))) := fun c => by
      simp only [udpPacket, append_assoc]
      rw [wordSum_field, wordSum_field, wordSum_field, wordSum_append _ (by simp [le16])]
    have hzero : wordSum (le16 0) = 0 := rfl
    rw [csumTotal, csumTotal, hsum, hsum, length_udpPacket, length_udpPacket, hzero]
    omega
  obtain ⟨s, hf, hc⟩ := csum4_spec src dst (udpPacket srcPort dstPort 0 data)
  have hcomp := hf.complement
  rw [csum4_eq_zero, htotal]
  unfold udpSum
  dsimp only
  rw [hc]
  split
  case isTrue h =>
    have hones : ~~~ofNat 16 s = 0 := by rw [← htons_htons (~~~_), h]; rfl
    rw [complement_eq_zero hf.lt] at hones
    have hword : wordSum (le16 0xffff) = 65535 := by decide
    exact ⟨by omega, by decide⟩
  case isFalse h =>
    have hfield := wordSum_field (~~~ofNat 16 s) []
    rw [append_nil, complement_toNat hf.lt, wordSum] at hfield
    rw [hfield]
    exact ⟨hcomp, h⟩

section

variable {η : Type}

def handled (bindings : List (Option (Binding η))) (d : UdpDatagram) : List (η × UdpDatagram) :=
  match firstBound d.dstPort bindings with
  | none => []
  | some handler => [(handler, d)]

theorem udpReceive_udpPacket (b : Host η) (src : IPv4Address) (srcPort dstPort : Port)
    (hdata : data.length ≤ 1472) :
    udpReceive b src (udpPacket srcPort dstPort (udpSum src b.ip srcPort dstPort data) data) =
      handled b.bindings ⟨src, srcPort, dstPort, data⟩ := by
  obtain ⟨hsum, hne⟩ := csum4_udpPacket src b.ip srcPort dstPort data
  generalize hc : udpSum src b.ip srcPort dstPort data = c at hsum hne
  have hlen := length_udpPacket srcPort dstPort c data
  have hsrc : net16 (udpPacket srcPort dstPort c data) 0 = srcPort := net16_field [] _ _
  have hdst : net16 (udpPacket srcPort dstPort c data) 2 = dstPort :=
    net16_field (le16 (htons srcPort)) _ _
  have hulen : net16 (udpPacket srcPort dstPort c data) 4 = ofNat 16 (8 + data.length) :=
    net16_field (le16 (htons srcPort) ++ le16 (htons dstPort)) _ _
  have hn : (ofNat 16 (8 + data.length)).toNat = 8 + data.length := by
    rw [toNat_ofNat]
    omega
  have hdrop : (udpPacket srcPort dstPort c data).drop 8 = data := rfl
  unfold udpReceive handled
  dsimp only
  rw [hulen, hn, ← hlen, take_length, hsum, hsrc, hdst, hdrop, if_neg (by omega), if_neg (by omega)]
  exact if_neg fun h => h.2 rfl

theorem ipv4Receive_ipv4Packet (a b : Host η) (hlen : payload.length ≤ 1480) :
    ipv4Receive b (a.ipv4Packet b.ip 17 payload) = .udp (udpReceive b a.ip payload) := by
  unfold Host.ipv4Packet
  dsimp only
  generalize hstart : ipStart (ofNat 16 (20 + payload.length)) a.identification 17 = start
  have hs : start.length = 10 := by
    rw [← hstart]
    rfl
  have h0 : 0 < wordSum start := by
    rw [← hstart]
    exact Nat.add_pos_left (by decide) _
  have hsum := checksum_ipHeader hs h0 a.ip b.ip
  generalize checksum (ipHeader start 0 a.ip b.ip) = c at hsum
  have htake : (ipHeader start c a.ip b.ip ++ payload).take 20 = ipHeader start c a.ip b.ip := by
    rw [take_append_of_le_length, take_of_length_le]
    all_goals simp [ipHeader, hs, le16, IPv4Address.bytes]
  have hsize : (ipHeader start c a.ip b.ip ++ payload).length = 20 + payload.length := by
    simp [ipHeader, hs, le16, IPv4Address.bytes]
    omega
  subst hstart
  generalize hp : ipHeader _ c a.ip b.ip ++ payload = packet at htake hsize
  have hfirst : packet.getD 0 0 = 0x45 := by rw [← hp]; rfl
  have htotal : net16 packet 2 = ofNat 16 (20 + payload.length) := by
    rw [← hp]
    exact net16_field [0x45, 0] _ _
  have hn : (ofNat 16 (20 + payload.length)).toNat = 20 + payload.length := by
    rw [toNat_ofNat]
    omega
  have hprotocol : packet.getD 9 0 = 17 := by rw [← hp]; rfl
  have hsrc : address packet 12 = a.ip := by rw [← hp]; rfl
  have hdst : address packet 16 = b.ip := by rw [← hp]; rfl
  have hdrop : packet.drop 20 = payload := by rw [← hp]; rfl
  have hihl : ((0x45 : Byte) &&& 0x0f).toNat * 4 = 20 := by decide
  have hversion : ¬((0x45 : Byte) >>> 4 ≠ 4 ∨ 20 < 20 ∨ 20 > packet.length) := by
    rw [hsize, not_or, not_or]
    exact ⟨by decide, by omega, by omega⟩
  unfold ipv4Receive
  dsimp only
  rw [hfirst, hihl, htotal, hn, ← hsize, htake, hsum, hsrc, hdst, take_length, hdrop, hprotocol,
    if_neg (by omega), if_neg hversion, if_neg (by omega), if_neg (by omega),
      if_neg (not_not.mpr rfl), if_neg (not_not.mpr rfl)]
  rfl

theorem udpSend_delivered (up : Nat → Bool) (a b : Host η) (srcPort dstPort : Port)
    (data : List Byte)
    (hdata : data.length ≤ 1472) (mac : MacAddress) (hmac : a.resolve b.ip = some mac) :
    ∃ packet, (udpSend up a b.ip srcPort dstPort data).2.frames =
        a.frames ++ [ethernetFrame a.mac mac etherTypeIPv4 packet] ∧
      ipv4Receive b packet = .udp (handled b.bindings ⟨a.ip, srcPort, dstPort, data⟩) := by
  have hlen := length_udpPacket srcPort dstPort (udpSum a.ip b.ip srcPort dstPort data) data
  refine ⟨a.ipv4Packet b.ip 17 (udpPacket srcPort dstPort (udpSum a.ip b.ip srcPort dstPort data)
    data), ?_, ?_⟩
  · unfold udpSend Host.ipv4Send
    rw [if_neg (by omega), if_neg (by omega), hmac]
    unfold Host.sendFrame
    have hfits : ¬(a.ipv4Packet b.ip (ofNat 8 ipUdp)
        (udpPacket srcPort dstPort (udpSum a.ip b.ip srcPort dstPort data) data)).length +
          14 > ethMaxFrame := by
      simp only [Host.ipv4Packet, ipHeader, ipStart, le16, IPv4Address.bytes, length_append,
        length_cons, length_nil, hlen, ethMaxFrame]
      omega
    dsimp only
    rw [if_neg hfits]
    rfl
  · rw [ipv4Receive_ipv4Packet a b (by omega)]
    exact congrArg _ (udpReceive_udpPacket b a.ip srcPort dstPort hdata)

def sampleSender : Host Nat :=
  { ip := ⟨10, 0, 0, 1⟩, mask := ⟨255, 255, 255, 0⟩, gw := ⟨10, 0, 0, 254⟩, mac := Vector.replicate 6 1
    cache := [⟨true, ⟨10, 0, 0, 2⟩, Vector.replicate 6 2⟩], identification := 1, bindings := [] }

def sampleReceiver : Host Nat :=
  { ip := ⟨10, 0, 0, 2⟩, mask := ⟨255, 255, 255, 0⟩, gw := ⟨10, 0, 0, 254⟩, mac := Vector.replicate 6 2
    cache := [], identification := 1, bindings := [none, some ⟨9, 4⟩, some ⟨7, 3⟩, some ⟨7, 5⟩] }

theorem udpSend_delivered_zeroSum :
    csum4 sampleSender.ip sampleReceiver.ip (udpPacket 5 7 0 [0xeb, 0xc9, 0]) = 0 ∧
    ∃ packet, (udpSend (fun _ => true) sampleSender sampleReceiver.ip 5 7 [0xeb, 0xc9, 0]).2.frames
      = [ethernetFrame (Vector.replicate 6 1) (Vector.replicate 6 2) etherTypeIPv4 packet] ∧
      ipv4Receive sampleReceiver packet = .udp [(3, ⟨⟨10, 0, 0, 1⟩, 5, 7, [0xeb, 0xc9, 0]⟩)] :=
  ⟨by decide +kernel, udpSend_delivered (fun _ => true) sampleSender sampleReceiver 5 7 [0xeb, 0xc9, 0] (by decide)
    (Vector.replicate 6 2) (by decide +kernel)⟩

def headerLength (packet : List Byte) : Nat := (packet.getD 0 0 &&& 0x0f).toNat * 4

structure HeaderFields (h : Host η) (packet : List Byte) : Prop where
  length : 20 ≤ packet.length
  version : packet.getD 0 0 >>> 4 = 4
  ihl : 20 ≤ headerLength packet ∧ headerLength packet ≤ packet.length
  total : headerLength packet ≤ (net16 packet 2).toNat ∧ (net16 packet 2).toNat ≤ packet.length
  dst : address packet 16 = h.ip

def PassedOn (h : Host η) (packet : List Byte) (d : Delivery η) : Prop :=
  let p := (packet.take (net16 packet 2).toNat).drop (headerLength packet)
  d = .icmp (address packet 12) p ∨ d = .udp (udpReceive h (address packet 12) p) ∨
    d = .tcp (address packet 12) p

theorem HeaderFields.receive {packet : List Byte} (hf : HeaderFields h packet)
    (h20 : headerLength packet = 20) :
    ipv4Receive h packet ≠ .overread ∧ (PassedOn h packet (ipv4Receive h packet) ↔
      fold16 (wordSum (packet.take 20)) = 0xffff ∧ packet.getD 9 0 ∈ [1, 6, 17]) := by
  obtain ⟨hlen, hversion, hihl, htotal, hdst⟩ := hf
  have hsum : checksum (packet.take 20) = 0 ↔ fold16 (wordSum (packet.take 20)) = 0xffff :=
    checksum_eq_zero_iff (by rw [length_take]; omega)
  rw [← hsum]
  unfold PassedOn ipv4Receive
  unfold headerLength at hihl htotal h20 ⊢
  rw [if_neg (by omega),
    if_neg (by rw [not_or, not_or]; exact ⟨not_not.mpr hversion, by omega, by omega⟩),
    if_neg (by omega), if_neg (by omega), if_neg (not_not.mpr hdst)]
  split
  case isTrue h0 =>
    refine ⟨nofun, ?_, fun h1 => absurd h1.1 h0⟩
    rintro (h1 | h1 | h1) <;> cases h1
  case isFalse h0 =>
    have hz := not_not.mp h0
    split
    case h_1 hp => exact ⟨nofun, fun _ => ⟨hz, by rw [hp]; decide⟩, fun _ => .inl rfl⟩
    case h_2 hp => exact ⟨nofun, fun _ => ⟨hz, by rw [hp]; decide⟩, fun _ => .inr (.inl rfl)⟩
    case h_3 hp => exact ⟨nofun, fun _ => ⟨hz, by rw [hp]; decide⟩, fun _ => .inr (.inr rfl)⟩
    case h_4 h1 h17 h6 =>
      refine ⟨nofun, ?_, fun h2 => ?_⟩
      · rintro (h2 | h2 | h2) <;> cases h2
      · have hp := h2.2
        simp only [mem_cons, not_mem_nil, or_false] at hp
        exact (hp.elim h1 fun hp => hp.elim h6 h17).elim

theorem HeaderFields.overread {packet : List Byte} (hf : HeaderFields h packet)
    (h20 : headerLength packet ≠ 20) : ipv4Receive h packet = .overread := by
  obtain ⟨hlen, hversion, hihl, htotal, hdst⟩ := hf
  unfold headerLength at hihl htotal h20
  unfold ipv4Receive
  rw [if_neg (by omega),
    if_neg (by rw [not_or, not_or]; exact ⟨not_not.mpr hversion, by omega, by omega⟩),
    if_neg (by omega), if_pos (by omega)]

theorem header_validated_iff (h : Host η) (packet : List Byte) (hf : HeaderFields h packet) :
    ((PassedOn h packet (ipv4Receive h packet) ↔
      fold16 (wordSum (packet.take (headerLength packet))) = 0xffff) ∧
        ipv4Receive h packet ≠ .overread) ↔
      headerLength packet = 20 ∧
        (packet.getD 9 0 ∈ [1, 6, 17] ∨ fold16 (wordSum (packet.take (headerLength packet))) ≠
          0xffff) := by
  by_cases h20 : headerLength packet = 20
  · obtain ⟨hread, hpassed⟩ := hf.receive h20
    rw [hpassed, h20, and_iff_left hread, eq_self, true_and, and_iff_left_iff_imp, imp_iff_or_not]
  · exact ⟨fun h0 => absurd (hf.overread h20) h0.2, fun h0 => absurd h0.1 h20⟩

def sampleHeader (first total : Byte) (sum : List Byte) (options : List Byte) : List Byte :=
  [first, 0, 0, total, 0, 0, 0x40, 0, 64, 6] ++ sum ++ [10, 0, 0, 1, 10, 0, 0, 2] ++ options

theorem header_validated_iff_sample :
    (PassedOn sampleReceiver (sampleHeader 0x45 20 [0x26, 0xe2] [])
      (ipv4Receive sampleReceiver (sampleHeader 0x45 20 [0x26, 0xe2] [])) ↔
      fold16 (wordSum ((sampleHeader 0x45 20 [0x26, 0xe2] []).take 20)) = 0xffff) :=
  ((header_validated_iff sampleReceiver (sampleHeader 0x45 20 [0x26, 0xe2] [])
    ⟨by decide, by decide, by decide, by decide, by decide⟩).mpr ⟨by decide, .inl (by decide)⟩).1

theorem options_overread :
    HeaderFields sampleReceiver (sampleHeader 0x46 24 [0x23, 0xdc] [1, 1, 1, 1]) ∧
      fold16 (wordSum ((sampleHeader 0x46 24 [0x23, 0xdc] [1, 1, 1, 1]).take 24)) = 0xffff ∧
      ipv4Receive sampleReceiver (sampleHeader 0x46 24 [0x23, 0xdc] [1, 1, 1, 1]) = .overread :=
  ⟨⟨by decide, by decide, by decide, by decide, by decide⟩, by decide, by decide⟩

end

end BlockOS.Net
