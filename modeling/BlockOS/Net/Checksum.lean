import BlockOS.Net.Tcp

/-! The checksum of an outgoing segment against the checksum test of `tcp_receive`. -/

namespace BlockOS.Net
open Words OnesComplement List

def wordSum : List Byte → Nat
  | hi :: lo :: rest => word hi lo + wordSum rest
  | [b] => b.toNat <<< 8
  | [] => 0

theorem word_eq (hi lo : Byte) : word hi lo = hi.toNat * 256 + lo.toNat := by
  rw [word, Nat.shiftLeft_eq, Nat.mul_comm, ← Nat.two_pow_add_eq_or_of_lt (i := 8) (b := lo.toNat)
    lo.isLt hi.toNat]

theorem word_lt (hi lo : Byte) : word hi lo < 65536 := by
  have h1 := hi.isLt
  have h2 := lo.isLt
  rw [word_eq]
  omega

theorem wordSum_append (b : List Byte) (h : a.length % 2 = 0) :
    wordSum (a ++ b) = wordSum a + wordSum b := by
  fun_induction wordSum a with
  | case1 hi lo rest ih =>
    have h' : rest.length % 2 = 0 := by
      simp only [length_cons] at h
      omega
    simp only [cons_append, wordSum, ih h']
    omega
  | case2 x => simp at h
  | case3 => simp

theorem add32_of_lt (h : a + b < 4294967296) : add32 a b = a + b := Nat.mod_eq_of_lt h

theorem sumWords_spec (sum : Nat) (data : List Byte) (h0 : 0 < sum) (h : sum < 2147483648) :
    0 < sumWords sum data ∧ sumWords sum data % 65535 = (sum + wordSum data) % 65535 := by
  -- what one folded addition does to the sum
  have hfold : ∀ s x, 0 < s → s < 2147483648 → x < 65536 → 0 < fold16 (add32 s x) ∧
    fold16 (add32 s x) < 2147483648 ∧
        fold16 (add32 s x) % 65535 = (s + x) % 65535 := by
    intro s x hs0 hs hx
    rw [add32_of_lt (by omega), fold16_mod]
    have hne := fold16_eq_zero (s + x)
    have hlt := fold16_lt (s + x)
    omega
  fun_induction sumWords sum data with
  | case1 sum hi lo rest ih =>
    obtain ⟨h1, h2, h3⟩ := hfold sum (word hi lo) h0 h (word_lt hi lo)
    obtain ⟨h4, h5⟩ := ih h1 h2
    refine ⟨h4, ?_⟩
    rw [wordSum]
    omega
  | case2 sum b =>
    have hb := b.isLt
    obtain ⟨h1, _, h3⟩ := hfold sum (b.toNat <<< 8) h0 h (by rw [Nat.shiftLeft_eq]; omega)
    exact ⟨h1, h3⟩
  | case3 sum => exact ⟨h0, rfl⟩

theorem pseudoSum_eq (src dst : IPv4Address) (h : n < 65536) :
    pseudoSum src dst n = word src.b0 src.b1 + word src.b2 src.b3 + word dst.b0 dst.b1 +
      word dst.b2 dst.b3 + 6 + n := by
  have h1 := word_lt src.b0 src.b1
  have h2 := word_lt src.b2 src.b3
  have h3 := word_lt dst.b0 dst.b1
  have h4 := word_lt dst.b2 dst.b3
  simp only [pseudoSum, foldl_cons, foldl_nil, add32, ipTcp]
  omega

theorem tcpSum_spec (src dst : IPv4Address) (h : data.length < 65536) :
    0 < tcpSum src dst data ∧ tcpSum src dst data < 65536 ∧
      tcpSum src dst data % 65535 = (pseudoSum src dst data.length + wordSum data) % 65535 := by
  have hp := pseudoSum_eq src dst h
  have h1 := word_lt src.b0 src.b1
  have h2 := word_lt src.b2 src.b3
  have h3 := word_lt dst.b0 dst.b1
  have h4 := word_lt dst.b2 dst.b3
  obtain ⟨hpos, hmod⟩ :=
    sumWords_spec (pseudoSum src dst data.length) data (by omega) (by omega)
  have hne := fold16_eq_zero (sumWords (pseudoSum src dst data.length) data)
  refine ⟨by unfold tcpSum; omega, fold16_lt _, ?_⟩
  rw [tcpSum, fold16_mod, hmod]

theorem toNat_tcpChecksum (src dst : IPv4Address) (h : data.length < 65536) :
    (tcpChecksum src dst data).toNat = 65535 - tcpSum src dst data := by
  obtain ⟨-, hlt, -⟩ := tcpSum_spec src dst h
  rw [tcpChecksum, BitVec.toNat_not, BitVec.toNat_ofNat, Nat.mod_eq_of_lt hlt]

theorem tcpChecksum_eq_zero (src dst : IPv4Address) (h : data.length < 65536) :
    tcpChecksum src dst data = 0 ↔
      (pseudoSum src dst data.length + wordSum data) % 65535 = 0 := by
  have hn := toNat_tcpChecksum src dst h
  obtain ⟨h0, hlt, hmod⟩ := tcpSum_spec src dst h
  have hz : tcpChecksum src dst data = 0 ↔ (tcpChecksum src dst data).toNat = 0 :=
    ⟨fun h => by rw [h]; rfl, fun h => BitVec.eq_of_toNat_eq h⟩
  rw [hz, hn, ← hmod]
  omega

theorem le16_htons (x : BitVec 16) : le16 (htons x) = [(x >>> 8).setWidth 8, x.setWidth 8] := by
  have h1 : (htons x).setWidth 8 = (x >>> 8).setWidth 8 := by
    apply BitVec.eq_of_getLsbD_eq
    intro i hi
    simp [htons, hi]
  have h2 : (htons x >>> 8).setWidth 8 = x.setWidth 8 := by
    apply BitVec.eq_of_getLsbD_eq
    intro i hi
    simp [htons, hi]
    grind
  rw [le16, h1, h2]

theorem word_bytes (x : BitVec 16) : word ((x >>> 8).setWidth 8) (x.setWidth 8) = x.toNat := by
  have hx := x.isLt
  rw [word_eq, BitVec.toNat_setWidth, BitVec.toNat_setWidth, BitVec.toNat_ushiftRight,
    Nat.shiftRight_eq_div_pow]
  omega

theorem wordSum_field (x : BitVec 16) (rest : List Byte) : wordSum (le16 (htons x) ++ rest) =
    x.toNat + wordSum rest := by
  rw [le16_htons]
  simp only [cons_append, nil_append, wordSum, word_bytes]

theorem net16_field (front rest : List Byte) (x : BitVec 16) :
    net16 (front ++ (le16 (htons x) ++ rest)) front.length = x := by
  rw [le16_htons]
  unfold net16
  simp only [getD_eq_getElem?_getD, getElem?_append_right, Nat.le_refl, Nat.le_add_right, Nat.sub_self,
    Nat.add_sub_cancel_left, cons_append, getElem?_cons_zero, getElem?_cons_succ, Option.getD_some]
  apply BitVec.eq_of_getLsbD_eq
  intro i hi
  simp
  grind

theorem htons_htons (x : BitVec 16) : htons (htons x) = x := by
  apply BitVec.eq_of_getLsbD_eq
  intro i hi
  simp [htons]
  grind

theorem wordSum_le16 (x : BitVec 16) : wordSum (le16 x) = swap16 x.toNat := by
  have h := x.isLt
  simp only [le16, wordSum, word_eq, swap16, BitVec.toNat_setWidth, BitVec.toNat_ushiftRight,
    Nat.shiftRight_eq_div_pow]
  omega

theorem length_packet (start payload : List Byte) (c : BitVec 16) :
    (packet start c payload).length = start.length + payload.length + 4 := by
  simp [packet, le16]
  omega

theorem wordSum_packet (payload : List Byte) (c : BitVec 16) (h : start.length % 2 = 0) :
    wordSum (packet start c payload) = wordSum start + swap16 c.toNat + wordSum payload := by
  have h2 : wordSum (le16 c ++ ([0, 0] ++ payload)) = swap16 c.toNat + wordSum payload := by
    rw [wordSum_append _ (by simp [le16]), wordSum_le16, wordSum_append _ rfl]
    simp [wordSum, word]
  rw [packet, append_assoc, append_assoc, wordSum_append _ h, h2]
  omega

theorem sealed_accepted_iff (src dst : IPv4Address) (hs : start.length = 16)
    (hp : payload.length ≤ txBufferSize) :
    tcpChecksum dst src (sealed src dst start payload) = 0 ↔
      swap16 (tcpSum src dst (packet start 0 payload)) = tcpSum src dst (packet start 0 payload) := by
  have hlen : ∀ c, (packet start c payload).length = 20 + payload.length := fun c => by
    rw [length_packet, hs]
    omega
  have hlt : ∀ c, (packet start c payload).length < 65536 := fun c => by
    rw [hlen c]
    unfold txBufferSize at hp
    omega
  have hsum := wordSum_packet payload (h := (by omega : start.length % 2 = 0))
  obtain ⟨h0, h1, h2⟩ := tcpSum_spec src dst (hlt 0)
  have hc := toNat_tcpChecksum src dst (hlt 0)
  rw [sealed, tcpChecksum_eq_zero dst src (hlt _), ← add_swap_complement h0 h1, hsum, hc]
  rw [hsum, hlen, pseudoSum_eq src dst (by rw [← hlen 0]; exact hlt 0)] at h2
  rw [hlen, pseudoSum_eq dst src (by rw [← hlen 0]; exact hlt 0)]
  have hz : swap16 (0 : BitVec 16).toNat = 0 := rfl
  omega

theorem sent_segment_accepted_iff (ip : IPv4Address) :
    (∀ (c : Conn) (flags : Byte) (seq ackNo : Seq) (payload : List Byte), payload.length ≤ txBufferSize →
      let sum := tcpSum ip c.remote (packet (rawHeader c flags seq ackNo) 0 payload)
      (tcpChecksum c.remote ip (rawSegment ip c flags seq ackNo payload) = 0 ↔ sum % 256 = sum / 256)) ∧
    ∀ (dst : IPv4Address) (srcPort dstPort : Port) (seq ackNo : Seq) (ackFlag : Bool),
      let sum := tcpSum ip dst (packet (rstHeader srcPort dstPort seq ackNo ackFlag) 0 [])
      (tcpChecksum dst ip (rstSegment ip dst srcPort dstPort seq ackNo ackFlag) = 0 ↔
        sum % 256 = sum / 256) := by
  have hswap : ∀ s : Nat, s < 65536 → (swap16 s = s ↔ s % 256 = s / 256) := fun s hs => by
    unfold swap16
    omega
  refine ⟨fun c flags seq ackNo payload hp => ?_, fun dst srcPort dstPort seq ackNo ackFlag => ?_⟩
  · exact (sealed_accepted_iff ip c.remote rfl hp).trans (hswap _ (fold16_lt _))
  · exact (sealed_accepted_iff ip dst rfl (Nat.zero_le _)).trans (hswap _ (fold16_lt _))

def sampleHost : IPv4Address := ⟨10, 0, 2, 15⟩

def samplePeer : Conn :=
  { clearConnection with remote := ⟨10, 0, 2, 2⟩, localPort := 49152, remotePort := 80 }

theorem sent_syn_not_accepted :
    tcpChecksum samplePeer.remote sampleHost (rawSegment sampleHost samplePeer syn 1 0 []) ≠ 0 := by
  decide +kernel

theorem sent_segment_accepted_sample : tcpChecksum samplePeer.remote sampleHost
      (rawSegment sampleHost samplePeer (ack ||| psh) 2 1 [0x68, 0x07]) = 0 :=
  ((sent_segment_accepted_iff sampleHost).1 samplePeer (ack ||| psh) 2 1 [0x68, 0x07]
    (by decide)).mpr (by decide +kernel)

end BlockOS.Net
