import BlockOS.Net.Udp
import BlockOS.Lib.Table
import BlockOS.Lib.Runs

/-! The cache of `arp.cpp` and the packets that fill it. -/

namespace BlockOS.Net
open BlockOS.Words BlockOS.Table BlockOS.Runs

def arpInit : List ArpEntry := List.replicate 16 ⟨false, ⟨0, 0, 0, 0⟩, Vector.replicate 6 0⟩

def learn (ip : IPv4Address) (mac : MacAddress) (cache : List ArpEntry) : List ArpEntry :=
  match cache.findIdx? fun e => e.valid && e.ip == ip with
  | some i => cache.modify i fun e => { e with mac := mac }
  | none =>
    match cache.findIdx? fun e => !e.valid with
    | some i => cache.set i ⟨true, ip, mac⟩
    | none => cache

structure ArpPacket where
  oper : BitVec 16
  sha : MacAddress
  spa : IPv4Address
  tpa : IPv4Address

def macAt (p : List Byte) (i : Nat) : MacAddress := Vector.ofFn fun k => p.getD (i + k) 0

def arpPacket (p : List Byte) : Option ArpPacket :=
  if p.length < 28 then none
  else if net16 p 0 ≠ 1 ∨ net16 p 2 ≠ etherTypeIPv4 ∨ p.getD 4 0 ≠ 6 ∨ p.getD 5 0 ≠ 4 then none
  else some ⟨net16 p 6, macAt p 8, address p 14, address p 24⟩

variable {η : Type} (up : Nat → Bool)

def Host.arpReply (h : Host η) (a : ArpPacket) : Host η :=
  let p := le16 (htons 1) ++ le16 (htons etherTypeIPv4) ++ [6, 4] ++ le16 (htons 2) ++ h.mac.toList
    ++ h.ip.bytes ++ a.sha.toList ++ a.spa.bytes
  (h.sendFrame up a.sha etherTypeArp p).2

def Host.arpReceive (h : Host η) (packet : List Byte) : Host η :=
  match arpPacket packet with
  | none => h
  | some a =>
    let h := { h with cache := learn a.spa a.sha h.cache }
    if a.oper ≠ 1 ∨ a.tpa ≠ h.ip then h else h.arpReply up a

def ArpEntry.slot (e : ArpEntry) : Option (IPv4Address × MacAddress) :=
    if e.valid then some (e.ip, e.mac) else none

open ArpEntry (slot)

def Host.table (h : Host η) : List (Option (IPv4Address × MacAddress)) := h.cache.map slot

variable {ip : IPv4Address} {cache : List ArpEntry} {h : Host η}

theorem mem_keys_slots : ip ∈ keys (cache.map slot) ↔ ∃ e ∈ cache, e.valid && e.ip == ip := by
  induction cache with
  | nil => simp [keys]
  | cons e cache ih =>
    cases hv : e.valid with
    | false => simp [slot, keys, hv, ih]
    | true => simp [slot, keys, hv, ih, @eq_comm _ ip]

theorem arpLookup_eq (h : Host η) (ip : IPv4Address) : h.arpLookup ip = lookup ip h.table := by
  unfold Host.arpLookup Host.table
  induction h.cache with
  | nil => rfl
  | cons e cache ih =>
    cases hv : e.valid with
    | false => simpa [slot, lookup, hv] using ih
    | true =>
      by_cases hip : e.ip = ip
      · simp [slot, lookup, hv, hip]
      · simpa [slot, lookup, hv, hip] using ih

theorem map_slot_modify (h : cache.findIdx? (fun e => e.valid && e.ip == ip) = some i) :
    (cache.modify i fun e => { e with mac := mac }).map slot = overwrite ip mac (cache.map slot) := by
  induction cache generalizing i with
  | nil => simp at h
  | cons e cache ih =>
    rw [List.findIdx?_cons] at h
    by_cases he : (e.valid && e.ip == ip) = true
    · rw [if_pos he] at h
      obtain rfl := Option.some.inj h
      obtain ⟨hv, hip⟩ := Bool.and_eq_true_iff.mp he
      simp [slot, overwrite, hv, beq_iff_eq.mp hip]
    · rw [if_neg he] at h
      obtain ⟨j, hj, rfl⟩ := Option.map_eq_some_iff.mp h
      have hrest := ih hj
      cases hv : e.valid with
      | false => simpa [slot, overwrite, hv] using hrest
      | true =>
        have hne : e.ip ≠ ip := by simpa [hv] using he
        simpa [slot, overwrite, hv, hne] using hrest

theorem map_slot_set (h : cache.findIdx? (fun e => !e.valid) = some i) :
    (cache.set i ⟨true, ip, mac⟩).map slot = fill ip mac (cache.map slot) := by
  induction cache generalizing i with
  | nil => simp at h
  | cons e cache ih =>
    rw [List.findIdx?_cons] at h
    cases hv : e.valid with
    | false =>
      obtain rfl : 0 = i := by simpa [hv] using h
      simp [slot, fill, hv]
    | true =>
      obtain ⟨j, hj, rfl⟩ : ∃ j, cache.findIdx? (fun e => !e.valid) = some j ∧ j + 1 = i :=
        by simpa [hv] using h
      simpa [slot, fill, hv] using ih hj

theorem learn_table (ip : IPv4Address) (mac : MacAddress) (cache : List ArpEntry) :
    (learn ip mac cache).map slot = put ip mac (cache.map slot) := by
  unfold learn put
  cases hold : cache.findIdx? fun e => e.valid && e.ip == ip with
  | some i =>
    have hmem : ip ∈ keys (cache.map slot) := by
      have hany : cache.any (fun e => e.valid && e.ip == ip) = true := by
        rw [← List.findIdx?_isSome, hold, Option.isSome_some]
      exact mem_keys_slots.mpr (List.any_eq_true.mp hany)
    rw [if_pos hmem]
    exact map_slot_modify hold
  | none =>
    have hmem : ip ∉ keys (cache.map slot) := by
      rw [mem_keys_slots]
      rintro ⟨e, he, hip⟩
      exact Bool.false_ne_true ((List.findIdx?_eq_none_iff.mp hold e he).symm.trans hip)
    rw [if_neg hmem]
    cases hfree : cache.findIdx? fun e => !e.valid with
    | some i => exact map_slot_set hfree
    | none =>
      refine (fill_full fun hm => ?_).symm
      obtain ⟨e, he, hs⟩ := List.mem_map.mp hm
      have hv := List.findIdx?_eq_none_iff.mp hfree e he
      simp [slot] at hs hv
      exact Bool.false_ne_true (hs.symm.trans hv)

theorem arpReceive_table (h : Host η) (packet : List Byte) : (h.arpReceive up packet).table =
      (arpPacket packet).elim h.table fun a => put a.spa a.sha h.table := by
  unfold Host.arpReceive
  cases hp : arpPacket packet with
  | none => rfl
  | some a =>
    dsimp only
    have hlearn := learn_table a.spa a.sha h.cache
    by_cases hreply : a.oper ≠ 1 ∨ a.tpa ≠ h.ip
    · rw [if_pos hreply]
      exact hlearn
    rw [if_neg hreply]
    unfold Host.arpReply Host.sendFrame
    dsimp only
    split <;> exact hlearn

def Host.Unambiguous (h : Host η) : Prop := h.cache.Pairwise fun e f =>
    ¬(e.valid ∧ f.valid ∧ e.ip = f.ip)

def ArpLearns (h : Host η) (packet : List Byte) : Prop :=
  (h.arpReceive up packet).Unambiguous ∧
    (∀ a, arpPacket packet = some a → (h.arpReceive up packet).arpLookup a.spa = some a.sha) ∧
    ∀ ip, (∀ a, arpPacket packet = some a → ip ≠ a.spa) → (h.arpReceive up packet).arpLookup ip =
      h.arpLookup ip

def SenderHasRoom (h : Host η) (packet : List Byte) : Prop :=
  ∀ a, arpPacket packet = some a → (∃ e ∈ h.cache, e.valid ∧ e.ip = a.spa) ∨ ∃ e ∈ h.cache, ¬e.valid

theorem unambiguous_iff (h : Host η) : h.Unambiguous ↔ (keys h.table).Nodup := by
  unfold Host.Unambiguous Host.table
  induction h.cache with
  | nil => simp [keys]
  | cons e cache ih =>
    cases hv : e.valid with
    | false => simpa [slot, keys, hv] using ih
    | true =>
      have hkey : (∀ f ∈ cache, ¬(e.valid ∧ f.valid ∧ e.ip = f.ip)) ↔ e.ip ∉ keys (cache.map slot) := by
        rw [mem_keys_slots]
        simp [hv, @eq_comm _ e.ip]
      rw [List.pairwise_cons, hkey, ih]
      simp [slot, keys, hv]

theorem hasRoom_iff (h : Host η) (ip : IPv4Address) :
    HasRoom ip h.table ↔ (∃ e ∈ h.cache, e.valid ∧ e.ip = ip) ∨ ∃ e ∈ h.cache, ¬e.valid := by
  unfold HasRoom Host.table
  rw [mem_keys_slots]
  simp [slot]

theorem Host.Unambiguous.arpReceive (hu : h.Unambiguous) (packet : List Byte) :
    (h.arpReceive up packet).Unambiguous := by
  rw [unambiguous_iff] at hu ⊢
  rw [arpReceive_table]
  cases arpPacket packet with
  | none => exact hu
  | some a => exact nodup_keys_put hu

theorem arpLearns_iff (hu : h.Unambiguous) (packet : List Byte) : ArpLearns up h packet ↔
    SenderHasRoom h packet := by
  unfold ArpLearns SenderHasRoom
  simp only [arpLookup_eq, arpReceive_table, ← hasRoom_iff]
  cases hp : arpPacket packet with
  | none => simpa using hu.arpReceive up packet
  | some a =>
    have hself := @lookup_put_self _ _ _ a.spa a.sha h.table
    constructor
    · rintro ⟨-, hfound, -⟩ b hb
      obtain rfl := Option.some.inj hb
      exact hself.mp (hfound a rfl)
    intro hroom
    refine ⟨hu.arpReceive up packet, fun b hb => ?_, fun ip hip => ?_⟩
    · obtain rfl := Option.some.inj hb
      exact hself.mpr (hroom a rfl)
    · exact lookup_put_ne (hip a rfl)

theorem unambiguous_arpInit (hc : h.cache = arpInit) : h.Unambiguous := by
  rw [unambiguous_iff, Host.table, hc]
  exact List.nodup_nil

theorem arp_learns_iff (h : Host η) (packets : List (List Byte)) :
    Along (Host.arpReceive up) (ArpLearns up) { h with cache := arpInit } packets ↔
      Along (Host.arpReceive up) SenderHasRoom { h with cache := arpInit } packets :=
  Along.congr (fun _ p hu => arpLearns_iff up hu p) (fun _ p hu _ => hu.arpReceive up p) packets
    (unambiguous_arpInit rfl)

def arpFrom (n : Byte) : List Byte :=
  [0, 1, 8, 0, 6, 4, 0, 1, 2, 0, 0, 0, 0, n, 10, 0, 0, n, 0, 0, 0, 0, 0, 0, 10, 0, 0, 1]

def arpHost : Host Unit :=
  { ip := ⟨10, 0, 0, 1⟩, mask := ⟨255, 255, 255, 0⟩, gw := ⟨10, 0, 0, 254⟩, mac :=
    #v[2, 0, 0, 0, 0, 1], cache := arpInit, identification := 0, bindings := [] }

theorem seventeenth_sender_unknown : arpPacket (arpFrom 18) ≠ none ∧
    (runFrom (Host.arpReceive fun _ => true) arpHost
        ((List.range 17).map fun n => arpFrom (BitVec.ofNat 8 (n + 2)))).arpLookup ⟨10, 0, 0, 18⟩ =
          none := by
  constructor
  · simp [arpPacket, arpFrom, net16, etherTypeIPv4]
  · decide +kernel

end BlockOS.Net
