import BlockOS.Net.Delivery
import BlockOS.Net.Ipv6

/-! Neighbour discovery end to end. -/

namespace BlockOS.Net
open Words OnesComplement Runs List

def IsOption (o : List Byte) : Prop := o.length = 8 * (o.getD 1 0).toNat ∧ 0 < o.length

structure Advertisement (own t : IPv6Address) (m : MacAddress) (packet : List Byte) : Prop where
  version : packet.getD 0 0 >>> 4 = 6
  length : 40 + (net16 packet 4).toNat = packet.length
  icmp : packet.getD 6 0 = 58
  hop : packet.getD 7 0 = 255
  dst : address6 packet 24 = own ∨ address6 packet 24 = allNodes
  sum : ipv6TransportChecksum (address6 packet 8) (address6 packet 24) 58 (packet.drop 40) = 0
  kind : packet.getD 40 0 = 136 ∧ packet.getD 41 0 = 0
  target : address6 packet 48 = t
  options : ∃ options : List (List Byte), packet.drop 64 = options.flatten ∧
    (∀ o ∈ options, IsOption o) ∧ [2, 1] ++ m.toList ∈ options

def advertisementBody (sum : BitVec 16) (t : IPv6Address) (m : MacAddress) : List Byte :=
  [136, 0] ++ (le16 sum ++ ([0x60, 0, 0, 0] ++ t.toList ++ ([2, 1] ++ m.toList)))

def advertisement (own t : IPv6Address) (m : MacAddress) : List Byte :=
  ipv6Header t own 58 255 32 ++
    advertisementBody (htons (ipv6TransportChecksum t own 58 (advertisementBody 0 t m))) t m

def transportTotal (src dst : IPv6Address) (nextHeader : Byte) (data : List Byte) : Nat :=
  wordSum src.toList + wordSum dst.toList +
    ((data.length >>> 16) % 65536 + data.length % 65536 + nextHeader.toNat) + wordSum data

theorem transportChecksum_spec (src dst : IPv6Address) (nextHeader : Byte) (data : List Byte) :
    ∃ s, Folds s (transportTotal src dst nextHeader data) ∧
      ipv6TransportChecksum src dst nextHeader data = ~~~BitVec.ofNat 16 s := by
  refine ⟨_, ?_, rfl⟩
  have hsrc := @folds_sumWords _ _ src.toList folds_zero
  have hdst := @folds_sumWords _ _ dst.toList hsrc
  have hlen : ∀ v ∈ [(data.length >>> 16) % 65536, data.length % 65536, nextHeader.toNat],
      v < 65536 := by
    simp only [forall_mem_cons, not_mem_nil]
    exact ⟨Nat.mod_lt _ (by decide), Nat.mod_lt _ (by decide), by omega, nofun⟩
  have h := @folds_sumWords _ _ data (folds_foldl hdst hlen)
  have htotal : transportTotal src dst nextHeader data = 0 + wordSum src.toList + wordSum dst.toList +
      [(data.length >>> 16) % 65536, data.length % 65536, nextHeader.toNat].sum + wordSum data := by
    simp only [transportTotal, sum_cons, sum_nil]
    omega
  rw [htotal]
  exact h

theorem transportChecksum_eq_zero (src dst : IPv6Address) (hn : 0 < nextHeader.toNat)
    (data : List Byte) : ipv6TransportChecksum src dst nextHeader data = 0 ↔
      transportTotal src dst nextHeader data % 65535 = 0 := by
  obtain ⟨s, hs, h⟩ := transportChecksum_spec src dst nextHeader data
  rw [h, complement_eq_zero hs.lt, hs.ones (by unfold transportTotal; omega)]

theorem wordSum_body (sum : BitVec 16) (t : IPv6Address) (m : MacAddress) :
    wordSum (advertisementBody sum t m) = wordSum (advertisementBody 0 t m) + wordSum (le16 sum) := by
  have hsum : ∀ c, wordSum (advertisementBody c t m) =
      wordSum [136, 0] +
        (wordSum (le16 c) + wordSum ([0x60, 0, 0, 0] ++ t.toList ++ ([2, 1] ++ m.toList))) :=
          fun c => by
    rw [advertisementBody, wordSum_append _ rfl, wordSum_append _ (by simp [le16])]
  have hzero : wordSum (le16 0) = 0 := rfl
  rw [hsum, hsum 0, hzero]
  omega

theorem length_body (sum : BitVec 16) (t : IPv6Address) (m : MacAddress) :
    (advertisementBody sum t m).length = 32 := by
  simp [advertisementBody, le16]

theorem checksum_body (own t : IPv6Address) (m : MacAddress) : ipv6TransportChecksum t own 58
      (advertisementBody (htons (ipv6TransportChecksum t own 58 (advertisementBody 0 t m))) t m) =
        0 := by
  obtain ⟨s, hs, hc⟩ := transportChecksum_spec t own 58 (advertisementBody 0 t m)
  have hcomp := hs.complement
  have hfield := wordSum_field (~~~BitVec.ofNat 16 s) []
  rw [append_nil, complement_toNat hs.lt, wordSum] at hfield
  rw [transportChecksum_eq_zero t own (by decide), hc]
  unfold transportTotal at hcomp ⊢
  rw [wordSum_body, length_body, hfield]
  rw [length_body] at hcomp
  omega

theorem address6_append {front : List Byte} {i : Nat} (hi : front.length = i) (a : IPv6Address)
    (rest : List Byte) :
    address6 (front ++ (a.toList ++ rest)) i = a := by
  subst hi
  ext k hk
  simp [address6, getElem?_append_right, getElem?_append_left]

theorem ipv6Header_eq (src dst : IPv6Address) (next hop : Byte) (n : Nat) :
    ipv6Header src dst next hop n = [0x60, 0, 0, 0] ++
        (le16 (htons (BitVec.ofNat 16 n)) ++ ([next, hop] ++ (src.toList ++ dst.toList))) := by
  have hversion : le32 (htonl (6 <<< 28)) = [0x60, 0, 0, 0] := by decide
  simp only [ipv6Header, hversion, append_assoc]

theorem ipv6Header_append (src dst : IPv6Address) (next hop : Byte) (n : Nat)
    (payload : List Byte) :
    ∃ front, front.length = 8 ∧ front.getD 0 0 = 0x60 ∧ net16 front 4 = BitVec.ofNat 16 n ∧
      front.getD 6 0 = next ∧ front.getD 7 0 = hop ∧ ipv6Header src dst next hop n ++ payload =
        front ++ (src.toList ++ (dst.toList ++ payload)) := by
  refine ⟨[0x60, 0, 0, 0] ++ (le16 (htons (BitVec.ofNat 16 n)) ++ [next, hop]), rfl, rfl, ?_, rfl,
    rfl, ?_⟩
  · exact net16_field [0x60, 0, 0, 0] [next, hop] _
  · simp only [ipv6Header_eq, append_assoc]

theorem advertisement_wellFormed (own t : IPv6Address) (m : MacAddress) :
    Advertisement own t m (advertisement own t m) := by
  have hsum := checksum_body own t m
  revert hsum
  unfold advertisement
  generalize htons (ipv6TransportChecksum t own 58 (advertisementBody 0 t m)) = c
  intro hsum
  have hbody := length_body c t m
  obtain ⟨front, hlen, hversion, hplen, hnext, hhop, hpacket⟩ :=
    ipv6Header_append t own 58 255 32 (advertisementBody c t m)
  rw [hpacket]
  have hfront : ∀ k < 8, (front ++ (t.toList ++ (own.toList ++ advertisementBody c t m))).getD k 0 =
      front.getD k 0 :=
    fun k hk => by rw [getD_eq_getElem?_getD, getElem?_append_left (by omega), getD_eq_getElem?_getD]
  have hsrc := address6_append hlen t (own.toList ++ advertisementBody c t m)
  have hdst := @address6_append (front ++ t.toList) 24 (by simp [hlen]) own (advertisementBody c t m)
  have htarget :=
    @address6_append
      (front ++ (t.toList ++ (own.toList ++ ([136, 0] ++ (le16 c ++ [0x60, 0, 0, 0]))))) 48
    (by simp [hlen, le16]) t ([2, 1] ++ m.toList)
  have hdrop := @List.drop_left' _ (front ++ (t.toList ++ own.toList)) (advertisementBody c t m) 40
    (by simp [hlen])
  have hoptions := @List.drop_left' _
    (front ++ (t.toList ++ (own.toList ++ ([136, 0] ++ (le16 c ++ ([0x60, 0, 0, 0] ++ t.toList))))))
      ([2, 1] ++ m.toList) 64
    (by simp [hlen, le16])
  simp only [append_assoc] at hdst hdrop
  constructor
  case version => rw [hfront 0 (by decide), hversion]; rfl
  case length =>
    unfold net16 at hplen ⊢
    rw [hfront 4 (by decide), hfront 5 (by decide), hplen]
    simp [hlen, hbody]
  case icmp => rw [hfront 6 (by decide), hnext]
  case hop => rw [hfront 7 (by decide), hhop]
  case dst => exact .inl hdst
  case sum => rw [hsrc, hdst, hdrop, hsum]
  case kind =>
    have hat : ∀ k, (front ++ (t.toList ++ (own.toList ++ advertisementBody c t m))).getD (40 + k) 0 =
        (advertisementBody c t m).getD k 0 := fun k => by
      rw [getD_eq_getElem?_getD, ← getElem?_drop, hdrop, getD_eq_getElem?_getD]
    exact ⟨hat 0, hat 1⟩
  case target => simpa [advertisementBody] using htarget
  case options =>
    refine ⟨[[2, 1] ++ m.toList], ?_, ?_, mem_singleton_self _⟩
    · simpa [advertisementBody] using hoptions
    intro o ho
    rw [mem_singleton.mp ho]
    exact ⟨by simp, by simp⟩

variable {η : Type} (up : Nat → Bool)

theorem ipv6Send_neighbours (h : Host6 η) (dst : IPv6Address) (next : Byte) (payload : List Byte)
    (hop : Byte) :
    (h.ipv6Send up dst next payload hop).2.neighbours = h.neighbours := by
  unfold Host6.ipv6Send
  split
  · rfl
  split
  · rfl
  split <;> rfl

theorem icmpv6Receive_neighbours (h : Host6 η) (src dst : IPv6Address) (packet : List Byte) :
    (h.icmpv6Receive up src dst packet).neighbours = h.neighbours := by
  unfold Host6.icmpv6Receive
  repeat' split
  all_goals first | rfl | exact ipv6Send_neighbours up h _ _ _ _

theorem ipv6Receive_neighbours (h : Host6 η) (packet : List Byte) :
    (h.ipv6Receive up packet).1.neighbours = h.neighbours := by
  unfold Host6.ipv6Receive
  dsimp only
  repeat' split
  all_goals first | rfl | exact icmpv6Receive_neighbours up h _ _ _

theorem ndpLookup_congr {h h' : Host6 η} (hn : h'.neighbours = h.neighbours) (t : IPv6Address) :
    h'.ndpLookup t = h.ndpLookup t := by
  rw [Host6.ndpLookup, Host6.ndpLookup, hn]

inductive Call6 where
  | init
  | setLocal (a : IPv6Address)
  | setRouter (a : IPv6Address)
  | setPrefix (a : IPv6Address) (len : Byte)
  | request (t : IPv6Address)
  | send (dst : IPv6Address) (next : Byte) (payload : List Byte) (hop : Byte)
  | receive (packet : List Byte)

def Host6.ipv6Init (h : Host6 η) : Host6 η :=
  { h with
    neighbours := List.replicate 16 ⟨false, unspecified, Vector.replicate 6 0, 0⟩
    ndpRouter := unspecified
    age := 0
    ready := true
    router := unspecified }

def Host6.step (h : Host6 η) : Call6 → Host6 η
  | .init => h.ipv6Init
  | .setLocal a => { h with localAddr := a }
  | .setRouter a => { h with router := a }
  | .setPrefix a len => if len.toNat > 128 then h else { h with prefixAddr := a, prefixLen := len }
  | .request t => (h.ndpRequest up t).2
  | .send dst next payload hop => (h.ipv6Send up dst next payload hop).2
  | .receive packet => (h.ipv6Receive up packet).1

theorem step_neighbours (h : Host6 η) (call : Call6) :
    (h.step up call).neighbours = h.neighbours ∨ (h.step up call).neighbours =
      h.ipv6Init.neighbours := by
  cases call with
  | init => exact .inr rfl
  | setLocal a => exact .inl rfl
  | setRouter a => exact .inl rfl
  | setPrefix a len =>
    refine .inl ?_
    unfold Host6.step
    dsimp only
    split <;> rfl
  | request t => exact .inl rfl
  | send dst next payload hop => exact .inl (ipv6Send_neighbours up h dst next payload hop)
  | receive packet => exact .inl (ipv6Receive_neighbours up h packet)

theorem ndpLookup_reachable (h : Host6 η) (calls : List Call6) (t : IPv6Address) :
    (runFrom (Host6.step up) h.ipv6Init calls).ndpLookup t = none := by
  suffices hinv : ∀ g : Host6 η, g.neighbours = h.ipv6Init.neighbours →
      (runFrom (Host6.step up) g calls).neighbours = h.ipv6Init.neighbours by
    rw [ndpLookup_congr (hinv _ rfl)]
    rfl
  induction calls with
  | nil => exact fun g hg => hg
  | cons call calls ih =>
    intro g hg
    refine ih _ ((step_neighbours up g call).elim (fun hs => hs.trans hg) fun hs => hs.trans rfl)

theorem neighbour_found_iff (h : Host6 η) (t : IPv6Address) (m : MacAddress) :
    (∀ packet, Advertisement h.localAddr t m packet →
      ((h.ndpRequest up t).2.ipv6Receive up packet).1.ndpLookup t = some m) ↔
        h.ndpLookup t = some m := by
  have hsame : ∀ packet, ((h.ndpRequest up t).2.ipv6Receive up packet).1.ndpLookup t =
    h.ndpLookup t := fun packet =>
    ndpLookup_congr (ipv6Receive_neighbours up (h.ndpRequest up t).2 packet) t
  constructor
  · intro hfound
    rw [← hfound _ (advertisement_wellFormed h.localAddr t m), hsame]
  · intro hknown packet _
    rw [hsame, hknown]

def freshHost6 : Host6 Unit :=
  { ip := ⟨10, 0, 0, 1⟩, mask := ⟨255, 255, 255, 0⟩, gw := ⟨10, 0, 0, 254⟩, mac := #v[2, 0, 0, 0, 0, 2],
    cache := arpInit, identification := 0, bindings := [], localAddr := unspecified, router :=
      unspecified,
    prefixAddr := unspecified, prefixLen := 64, ready := false, neighbours := [], ndpRouter :=
      unspecified, age := 0, bindings6 := List.replicate 32 none }

theorem neighbour_unknown :
    let h : Host6 Unit := { freshHost6.ipv6Init with
      localAddr := #v[0xfe, 0x80, 0, 0, 0, 0, 0, 0, 0x02, 0x54, 0xff, 0xfe, 0, 0, 0x01, 0] }
    let t : IPv6Address := #v[0xfe, 0x80, 0, 0, 0, 0, 0, 0, 0, 0, 0, 0, 0, 0, 0, 0x05]
    let m : MacAddress := #v[2, 0, 0, 0, 0, 5]
    Advertisement h.localAddr t m (advertisement h.localAddr t m) ∧
      ((h.ndpRequest (fun _ => true) t).2.ipv6Receive (fun _ => true)
        (advertisement h.localAddr t m)).1.ndpLookup t =
        none := by
  intro h t m
  exact ⟨advertisement_wellFormed h.localAddr t m, by decide +kernel⟩

end BlockOS.Net
