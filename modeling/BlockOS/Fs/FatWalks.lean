import BlockOS.Fs.FatTree

/-! The walks of the driver over directories: the search for a name, the resolution of a path, and
the search for a free slot. -/

namespace BlockOS.Fat32
open Words Buffer Links Paths List
open Slot (make lead fileSize isFree isShort)

theorem Slot.length_make {name : List Byte} (h : name.length = 11) (attr : Byte)
    (cluster size : Nat) :
    (make name attr cluster size).length = 32 := by
  simp [make, h]

section

variable {name : List Byte} (h : name.length = 11) (attr : Byte) (cluster size : Nat)
include h

theorem Slot.name_make : Slot.name (make name attr cluster size) = name := by
  unfold Slot.name make
  simp only [append_assoc]
  exact take_left' h

theorem Slot.attr_make : Slot.attr (make name attr cluster size) = attr := by
  unfold Slot.attr make
  simp only [append_assoc, cons_append]
  rw [getD_eq_getElem?_getD, getElem?_append_right (by omega), h]
  rfl

theorem Slot.lead_make : lead (make name attr cluster size) = name.headD 0 := by
  cases name with
  | nil => cases h
  | cons b name => rfl

theorem Slot.fileSize_make : fileSize (make name attr cluster size) = size % 4294967296 := by
  have hd : (make name attr cluster size).drop 28 = bytesOf 4 size := by
    unfold make
    exact drop_left' (by simp [h])
  unfold fileSize
  rw [hd, take_of_length_le (by simp)]
  exact le_bytesOf 4 size

theorem Slot.cluster_make (hc : cluster < 4294967296) :
    Slot.cluster (make name attr cluster size) = cluster := by
  have hlo : ((make name attr cluster size).drop 26).take 2 = bytesOf 2 (cluster &&& 0xFFFF) := by
    unfold make
    rw [append_assoc, drop_left' (by simp [h]), take_left' (by simp)]
  have hhi : ((make name attr cluster size).drop 20).take 2 =
      bytesOf 2 ((cluster >>> 16) &&& 0xFFFF) := by
    unfold make
    rw [append_assoc, append_assoc, append_assoc, drop_left' (by simp [h]), take_left' (by simp)]
  have hmask : ∀ x : Nat, le (bytesOf 2 (x &&& 0xFFFF)) = x % 65536 := by
    intro x
    rw [le_bytesOf, show (0xFFFF : Nat) = 2 ^ 16 - 1 from rfl, Nat.and_two_pow_sub_one_eq_mod]
    exact Nat.mod_mod x 65536
  unfold Slot.cluster
  rw [hlo, hhi, hmask, hmask, Nat.or_comm, ← Nat.shiftLeft_add_eq_or_of_lt (Nat.mod_lt _ (by decide)),
    Nat.shiftLeft_eq, Nat.shiftRight_eq_div_pow]
  omega

end

theorem upper_ne_dot (h : c ≠ 46) : upper c ≠ 46 := by
  unfold upper
  by_cases hc : 97 ≤ c.toNat ∧ c.toNat ≤ 122
  · rw [if_pos hc]
    intro h46
    bv_omega
  · rw [if_neg hc]
    exact h

theorem upper_ne_zero (h : c ≠ 0) : upper c ≠ 0 := by
  unfold upper
  by_cases hc : 97 ≤ c.toNat ∧ c.toNat ≤ 122
  · rw [if_pos hc]
    intro h0
    bv_omega
  · rw [if_neg hc]
    exact h

theorem toShortName_spec (h : toShortName name = some t) :
    t.length = 11 ∧ ∃ b ∈ name, b ≠ 46 ∧ t.headD 0 = upper b := by
  unfold toShortName at h
  dsimp only at h
  by_cases h8 : 8 < (name.takeWhile fun c => c != 46).length
  · rw [if_pos h8] at h; cases h
  by_cases h0 : (name.takeWhile fun c => c != 46).length = 0
  · rw [if_neg h8, if_pos h0] at h; cases h
  rw [if_neg h8, if_neg h0] at h
  obtain ⟨b, base, hbase⟩ := exists_cons_of_length_pos (Nat.pos_of_ne_zero h0)
  have hb : b ∈ name.takeWhile fun c => c != 46 := by
    rw [hbase]
    exact mem_cons_self
  have hb46 : b ≠ 46 := by simpa using all_eq_true.mp all_takeWhile b hb
  have hbname : b ∈ name := takeWhile_subset _ hb
  generalize (name.takeWhile fun c => c != 46) = base' at *
  subst hbase
  cases hrest : name.drop (b :: base).length with
  | nil =>
    rw [hrest] at h
    cases h
    refine ⟨?_, b, hbname, hb46, rfl⟩
    simp only [padTo, length_append, length_map, length_replicate]
    omega
  | cons x ext =>
    rw [hrest] at h
    dsimp only at h
    by_cases h3 : 3 < ext.length
    · rw [if_pos h3] at h; cases h
    rw [if_neg h3] at h
    cases h
    refine ⟨?_, b, hbname, hb46, rfl⟩
    simp only [padTo, length_append, length_map, length_replicate]
    omega

theorem lookSlots_hit (h : lookSlots want l = .hit s) : s ∈ l ∧ want s = true ∧ isFree s = false := by
  induction l with
  | nil => cases h
  | cons a l ih =>
    rw [lookSlots] at h
    by_cases h0 : lead a = 0x00
    · rw [if_pos h0] at h; cases h
    by_cases h1 : lead a = 0xE5
    · rw [if_neg h0, if_pos h1] at h
      obtain ⟨hm, hrest⟩ := ih h
      exact ⟨mem_cons_of_mem _ hm, hrest⟩
    rw [if_neg h0, if_neg h1] at h
    by_cases hw : want a = true
    · rw [if_pos hw] at h
      cases h
      refine ⟨mem_cons_self, hw, ?_⟩
      unfold isFree
      rw [beq_false_of_ne h0, beq_false_of_ne h1]
      rfl
    · rw [if_neg hw] at h
      obtain ⟨hm, hrest⟩ := ih h
      exact ⟨mem_cons_of_mem _ hm, hrest⟩

def Look.found : Look → Option Slot
  | .hit s => some s
  | _ => none

namespace Fat32Reader

variable {r : Fat32Reader} {d : Disk}

variable {c k : Nat} {s : Slot} {l : List Nat} {n : Node}

theorem mem_slots : s ∈ r.slots d c ↔ ∃ i < r.sectorsPerCluster * 16, r.slot d c i = s := by
  unfold slots
  rw [mem_map]
  constructor
  · rintro ⟨i, hi, h⟩
    exact ⟨i, mem_range.mp hi, h⟩
  · rintro ⟨i, hi, h⟩
    exact ⟨i, mem_range.mpr hi, h⟩

theorem link_some (h : r.link d c = some b) : r.raw d c % 0x10000000 = b ∧ InChain b := by
  unfold link at h
  by_cases hc : InChain (r.raw d c % 0x10000000)
  · rw [if_pos hc] at h
    cases h
    exact ⟨rfl, hc⟩
  · rw [if_neg hc] at h
    cases h

theorem link_none (h : r.link d c = none) : ¬ InChain (r.raw d c % 0x10000000) := by
  unfold link at h
  intro hc
  rw [if_pos hc] at h
  cases h

theorem Geometry.lookChain_eq (g : r.Geometry) (want : Slot → Bool)
    (h : Chain (r.link d) c l) : (∀ x ∈ l, r.Numbered x ∧ r.OnDisk x) → ∀ fuel, l.length < fuel →
      r.lookChain d want fuel c = some (lookSlots want (l.flatMap (r.slots d))).found := by
  induction h with
  | @last c hend =>
    intro htaken fuel hf
    obtain ⟨hc, hd⟩ := htaken c mem_cons_self
    obtain ⟨fuel, rfl⟩ : ∃ k, fuel = k + 2 := ⟨fuel - 2, by simp at hf; omega⟩
    rw [lookChain, if_pos (g.inChain hc), g.lookCluster_eq hc hd, flatMap_singleton]
    cases lookSlots want (r.slots d c) with
    | more =>
      dsimp only
      rw [lookChain, g.nextClusterInChain_eq hc.2, if_neg (link_none hend)]
      rfl
    | ended => rfl
    | hit s => rfl
  | @cons c b l hb ht ih =>
    intro htaken fuel hf
    obtain ⟨hc, hd⟩ := htaken c mem_cons_self
    obtain ⟨fuel, rfl⟩ : ∃ k, fuel = k + 1 := ⟨fuel - 1, by simp at hf; omega⟩
    have hrest := ih (fun x hx => htaken x (mem_cons_of_mem _ hx)) fuel (by simp at hf; omega)
    rw [lookChain, if_pos (g.inChain hc), g.lookCluster_eq hc hd, flatMap_cons, lookSlots_append]
    cases lookSlots want (r.slots d c) with
    | more =>
      dsimp only
      rw [g.nextClusterInChain_eq hc.2, (link_some hb).1]
      exact hrest
    | ended => rfl
    | hit s => rfl

theorem Directory.length_lt (h : r.Directory d k n l) (hw : r.WellFormed d) :
    l.length + 1 < maxWalk := by
  have hsub : l.toFinset ⊆ Finset.range (r.fatSize * 128) := by
    intro x hx
    exact Finset.mem_range.mpr (h.taken hw x (mem_toFinset.mp hx)).numbered.2
  have hcard := Finset.card_le_card hsub
  rw [toFinset_card_of_nodup h.chain.nodup, Finset.card_range] at hcard
  have := hw.layout.numbers
  unfold maxWalk
  omega

theorem Directory.lookChain_eq (h : r.Directory d k n l) (hw : r.WellFormed d)
    (want : Slot → Bool) :
    r.lookChain d want maxWalk (r.start d n) = some (lookSlots want (l.flatMap (r.slots d))).found := by
  have hlen := h.length_lt hw
  exact hw.geometry.lookChain_eq want h.chain
    (fun x hx => ⟨(h.taken hw x hx).numbered, (h.taken hw x hx).onDisk⟩)
    maxWalk (by omega)

theorem Directory.found_listed (h : r.Directory d k n l)
    (hs : lookSlots want (l.flatMap (r.slots d)) = .hit s) (hshort : isShort s = true)
    (hdot : lead s ≠ 46) : ∃ c i, Listed r d (k + 1) (some (c, i)) ∧ r.slot d c i = s := by
  obtain ⟨hm, -, hfree⟩ := lookSlots_hit hs
  obtain ⟨c, hc, hm⟩ := mem_flatMap.mp hm
  obtain ⟨i, hi, rfl⟩ := mem_slots.mp hm
  exact ⟨c, i, .entry h.listed h.dir h.chain hc hi ⟨hfree, hshort, hdot⟩, rfl⟩

theorem lead_of_name (h : Slot.name s = t) (ht : t.length = 11) : lead s = t.headD 0 := by
  subst h
  unfold Slot.name lead at *
  cases s with
  | nil => cases ht
  | cons b s => rfl

theorem lead_ne_dot (ht : toShortName name = some t) (h : Slot.name s = t) : lead s ≠ 46 := by
  obtain ⟨htlen, b, -, hb, hhead⟩ := toShortName_spec ht
  rw [lead_of_name h htlen, hhead]
  exact upper_ne_dot hb

theorem WellFormed.resolveFrom_spec (hw : r.WellFormed d) : ∀ (comps : List (List Byte)) {k n l},
    r.Directory d k n l → ∃ res, r.resolveFrom d comps (r.start d n) = some res ∧
      ∀ P, res = some P → ∃ n' l', r.Directory d (k + comps.length) n' l' ∧ r.start d n' = P := by
  intro comps
  induction comps with
  | nil =>
    intro k n l h
    refine ⟨some (r.start d n), rfl, ?_⟩
    rintro P hP
    cases hP
    exact ⟨n, l, h, rfl⟩
  | cons comp comps ih =>
    intro k n l h
    rw [resolveFrom]
    by_cases hlen : 16 ≤ comp.length
    · rw [if_pos hlen]
      exact ⟨none, rfl, nofun⟩
    rw [if_neg hlen]
    cases ht : toShortName comp with
    | none => exact ⟨none, rfl, nofun⟩
    | some t =>
      dsimp only
      rw [findEntryInDirectory, h.lookChain_eq hw]
      cases hs : lookSlots (fun s => isShort s && Slot.name s == t) (l.flatMap (r.slots d)) with
      | more => exact ⟨none, rfl, nofun⟩
      | ended => exact ⟨none, rfl, nofun⟩
      | hit s =>
        dsimp only [Look.found]
        by_cases hdir : (!Slot.isDirectory s) = true
        · rw [if_pos hdir]
          exact ⟨none, rfl, nofun⟩
        rw [if_neg hdir]
        obtain ⟨-, hwant, -⟩ := lookSlots_hit hs
        rw [Bool.and_eq_true, beq_iff_eq] at hwant
        obtain ⟨c, i, hlisted, rfl⟩ := h.found_listed hs hwant.1 (lead_ne_dot ht hwant.2)
        have hisdir : Slot.isDirectory (r.slot d c i) = true := by simpa using hdir
        obtain ⟨l', hchild⟩ := hw.directory hlisted hisdir
        have hne : Slot.cluster (r.slot d c i) ≠ 0 := hchild.start_ne hw
        rw [if_neg hne]
        obtain ⟨res, hres, hP⟩ := ih hchild
        refine ⟨res, hres, fun P h => ?_⟩
        obtain ⟨n', l', hd, hst⟩ := hP P h
        refine ⟨n', l', ?_, hst⟩
        rwa [length_cons, show k + (comps.length + 1) = k + 1 + comps.length by omega]

theorem WellFormed.root (hw : r.WellFormed d) : ∃ l, r.Directory d 0 none l :=
    hw.directory .root rfl

def parentPieces (path : List Byte) : List (List Byte) :=
    ((splitLast path).1.map (pieces 47)).getD []

theorem WellFormed.getParent_spec (hw : r.WellFormed d) (path : List Byte) :
    ∃ res, r.getParentDirectoryCluster d path = some res ∧
      ∀ P, res = some P → r.resolveFrom d (parentPieces path) r.rootClusterNum = some (some P) := by
  have hready := hw.geometry.ready
  obtain ⟨l, hroot⟩ := hw.root
  unfold getParentDirectoryCluster parentPieces
  rw [if_neg (by rw [hready]; decide)]
  cases hp : (splitLast path).1 with
  | none =>
    refine ⟨_, rfl, fun P h => ?_⟩
    cases h
    rfl
  | some parentPath =>
    dsimp only [Option.map_some, Option.getD_some]
    by_cases h0 : parentPath = []
    · rw [if_pos h0, h0]
      refine ⟨_, rfl, fun P h => ?_⟩
      cases h
      rfl
    rw [if_neg h0]
    by_cases h256 : 256 ≤ parentPath.length
    · rw [if_pos h256]
      exact ⟨none, rfl, nofun⟩
    rw [if_neg h256, resolvePath, if_neg (by rw [hready]; decide)]
    obtain ⟨res, hres, -⟩ := hw.resolveFrom_spec (pieces 47 parentPath) hroot
    exact ⟨res, hres, fun P h => by rw [← h]; exact hres⟩

end Fat32Reader

end BlockOS.Fat32
