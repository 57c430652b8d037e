import BlockOS.Fs.Fat32
import BlockOS.Lib.Links

/-! A FAT32 volume as its table and its clusters. -/

namespace BlockOS.Fat32
open Words Buffer Paths List Function Nat
open List (range' range)

@[simp] theorem length_bytesOf (n x : Nat) : (bytesOf n x).length = n := by
  induction n generalizing x with
  | zero => rfl
  | succ n ih => simp [bytesOf, ih]

theorem le_bytesOf (n x : Nat) : le (bytesOf n x) = x % 256 ^ n := by
  induction n generalizing x with
  | zero => simp [bytesOf, le, mod_one]
  | succ n ih =>
    rw [bytesOf, le, ih, pow_succ', mod_mul, BitVec.toNat_ofNat]

theorem range'_blocks (n s k : Nat) :
    range' (s * n) ((k + 1) * n) = (range n).map (s * n + ·) ++ range' ((s + 1) * n) (k * n) := by
  rw [← List.range'_eq_map_range, add_mul s, one_mul, List.range'_append_1, add_mul k, one_mul,
    add_comm n]

theorem u32_of_lt (h : x < 4294967296) : u32 x = x := mod_eq_of_lt h

namespace Fat32Reader

variable (r : Fat32Reader) (d : Disk)

structure Layout : Prop where
  fat : r.fatStartSector + r.fatSize ≤ r.dataStartSector
  data : r.dataStartSector ≤ r.sectorCount
  reach : r.dataStartSector ≤ 0x10000000
  numbers : r.fatSize < 2097152
  wrap : r.dataStartSector + r.fatSize * 128 * r.sectorsPerCluster ≤ 4294967296

structure Geometry : Prop extends r.Layout where
  ready : r.isInitialized = true
  bytes : r.bytesPerSector = 512
  sectors : 0 < r.sectorsPerCluster

theorem geometry_of_mounted {r : Fat32Reader} {d : Disk} (hm : r.initializeReader d = (true, r))
    (hl : r.Layout) :
    r.Geometry := by
  unfold initializeReader at hm
  dsimp only at hm
  cases hb : ({ r with isInitialized := false } : Fat32Reader).readSectors d 0 with
  | none => rw [hb] at hm; cases hm
  | some boot =>
    rw [hb] at hm
    dsimp only at hm
    by_cases h1 : le (slice boot 11 2) ≠ 512
    · rw [if_pos h1] at hm; cases hm
    by_cases h2 : le (slice boot 36 4) = 0
    · rw [if_neg h1, if_pos h2] at hm; cases hm
    by_cases h3 : le (slice boot 13 1) = 0
    · rw [if_neg h1, if_neg h2, if_pos h3] at hm; cases hm
    rw [if_neg h1, if_neg h2, if_neg h3] at hm
    have hr := (Prod.mk.inj hm).2
    refine { hl with ready := ?_, bytes := ?_, sectors := ?_ }
    · rw [← hr]
    · rw [← hr]
      exact not_not.mp h1
    · rw [← hr]
      exact pos_of_ne_zero h3

def Numbered (c : Nat) : Prop := 2 ≤ c ∧ c < r.fatSize * 128

def OnDisk (c : Nat) : Prop := ∀ s < r.sectorsPerCluster, r.Addresses (r.clusterToLba c + s)

instance (c : Nat) : Decidable (r.Numbered c) := inferInstanceAs (Decidable (_ ∧ _))

instance (c : Nat) : Decidable (r.OnDisk c) := inferInstanceAs (Decidable (∀ s < _, _))

def raw (c : Nat) : Nat := le (slice (d (r.fatStartSector + c / 128)) (4 * (c % 128)) 4)

def link (c : Nat) : Option Nat :=
  if InChain (r.raw d c % 0x10000000) then some (r.raw d c % 0x10000000) else none

def slot (c i : Nat) : Slot := slotAt (d (r.clusterToLba c + i / 16)) (i % 16)

def slots (c : Nat) : List Slot := (range (r.sectorsPerCluster * 16)).map (r.slot d c)

variable {r d} (g : r.Geometry) {c c' : Nat}
include g

theorem Geometry.clusterToLba_eq (hc : r.Numbered c) :
    r.clusterToLba c = r.dataStartSector + (c - 2) * r.sectorsPerCluster := by
  have hn := g.numbers
  have hc2 : u32 (c + 4294967294) = c - 2 := by
    have h1 := hc.1
    have h2 := hc.2
    unfold u32
    omega
  have hlt : (c - 2) * r.sectorsPerCluster < r.fatSize * 128 * r.sectorsPerCluster :=
    mul_lt_mul_of_pos_right (by have := hc.1; have := hc.2; omega) g.sectors
  have hw := g.wrap
  unfold clusterToLba
  rw [hc2]
  exact u32_of_lt (by omega)

theorem Geometry.data_le_lba (hc : r.Numbered c) : r.dataStartSector ≤ r.clusterToLba c := by
  rw [g.clusterToLba_eq hc]
  omega

variable {s y : Nat} {d' : Disk}

theorem Geometry.u32_lba (hc : r.Numbered c) (hs : s < r.sectorsPerCluster) :
    u32 (r.clusterToLba c + s) = r.clusterToLba c + s := by
  have hle : (c - 2 + 1) * r.sectorsPerCluster ≤ r.fatSize * 128 * r.sectorsPerCluster :=
    mul_le_mul_right _ (by have := hc.1; have := hc.2; omega)
  have hw := g.wrap
  rw [add_mul] at hle
  apply u32_of_lt
  rw [g.clusterToLba_eq hc]
  omega

theorem Geometry.lba_inj (hc : r.Numbered c) (hc' : r.Numbered c') (hs : s < r.sectorsPerCluster)
    (hs' : s' < r.sectorsPerCluster) (h : r.clusterToLba c + s = r.clusterToLba c' + s') : c = c' ∧
      s = s' := by
  rw [g.clusterToLba_eq hc, g.clusterToLba_eq hc'] at h
  have hdiv := congrArg (· / r.sectorsPerCluster)
    (show (c - 2) * r.sectorsPerCluster + s = (c' - 2) * r.sectorsPerCluster + s' by omega)
  simp only [mul_comm _ r.sectorsPerCluster, mul_add_div g.sectors, div_eq_of_lt hs,
    div_eq_of_lt hs', add_zero] at hdiv
  have h1 := hc.1
  have h2 := hc'.1
  have hcc : c = c' := by omega
  subst hcc
  exact ⟨rfl, by omega⟩

theorem Geometry.inChain (hc : r.Numbered c) : InChain c := by
  have h1 := hc.1
  have h2 := hc.2
  have h3 := g.numbers
  exact ⟨h1, by omega⟩

theorem Geometry.fat_lt (hc : c < r.fatSize * 128) :
    r.fatStartSector + c / 128 < r.dataStartSector := by
  have := g.fat
  omega

theorem Geometry.fatSector (h : sector < r.fatSize) :
    u32 (r.fatStartSector + sector) = r.fatStartSector + sector ∧
      r.Addresses (r.fatStartSector + sector) := by
  have h1 := g.fat
  have h2 := g.reach
  have h3 := g.data
  exact ⟨u32_of_lt (by omega), by omega, by omega⟩

theorem Geometry.readFatTable_eq (h : sector < r.fatSize) :
    r.readFatTable d sector = some (d (r.fatStartSector + sector)) := by
  obtain ⟨hu, ha⟩ := g.fatSector h
  unfold readFatTable readSectors
  rw [hu, if_pos ha]

theorem Geometry.fatEntry (hc : c < r.fatSize * 128) :
    u32 (c * 4) / r.bytesPerSector = c / 128 ∧ u32 (c * 4) % r.bytesPerSector = 4 * (c % 128) := by
  have h := g.numbers
  rw [g.bytes, u32_of_lt (by omega)]
  omega

theorem Geometry.nextClusterInChain_eq (hc : c < r.fatSize * 128) :
    r.nextClusterInChain d c = r.raw d c % 0x10000000 := by
  obtain ⟨hs, ho⟩ := g.fatEntry hc
  unfold nextClusterInChain
  dsimp only
  rw [hs, ho, g.readFatTable_eq (by omega)]
  exact and_two_pow_sub_one_eq_mod _ 28

omit g in
def setRaw (r : Fat32Reader) (d : Disk) (c y : Nat) : Disk :=
  update d (r.fatStartSector + c / 128)
    (blit (d (r.fatStartSector + c / 128)) (4 * (c % 128)) (bytesOf 4 y))

theorem Geometry.writeFatEntry_eq (hc : c < r.fatSize * 128) (value : Nat) :
    r.writeFatEntry d c value = some (r.setRaw d c (value % 0x10000000)) := by
  obtain ⟨hs, ho⟩ := g.fatEntry hc
  obtain ⟨hu, ha⟩ := @Geometry.fatSector r g (c / 128) (by omega)
  have htop : ∀ x : Nat, (x &&& 0xF0000000) % 256 = 0 := by
    intro x
    rw [show (256 : Nat) = 2 ^ 8 from rfl, ← Nat.and_two_pow_sub_one_eq_mod, Nat.and_assoc]
    exact Nat.and_zero x
  unfold writeFatEntry
  dsimp only
  rw [hs, ho, g.readFatTable_eq (by omega)]
  dsimp only
  rw [htop, Nat.or_zero, show (0x0FFFFFFF : Nat) = 2 ^ 28 - 1 from rfl, Nat.and_two_pow_sub_one_eq_mod]
  unfold writeFatTable writeSectors
  rw [hu, if_pos ha]
  rfl

omit g in
theorem raw_setRaw (d : Disk) (c c' : Nat) (hy : y < 4294967296) :
    r.raw (r.setRaw d c y) c' = if c' = c then y else r.raw d c' := by
  unfold raw setRaw
  by_cases hs : c' / 128 = c / 128
  · rw [hs, update_self]
    by_cases hcc : c' = c
    · subst hcc
      rw [if_pos rfl]
      have h := slice_blit (d (r.fatStartSector + c' / 128)) (4 * (c' % 128)) (bytesOf 4 y)
      rw [length_bytesOf] at h
      rw [h, le_bytesOf]
      exact mod_eq_of_lt hy
    · rw [if_neg hcc]
      by_cases hlt : c' % 128 < c % 128
      · rw [slice_blit_of_le _ _ (by omega)]
      · rw [slice_blit_of_ge _ _ (by rw [length_bytesOf]; omega)]
  · rw [update_of_ne (by omega), if_neg (by rintro rfl; exact hs rfl)]

theorem Geometry.setRaw_data (hc : c < r.fatSize * 128) (y : Nat) (h : r.dataStartSector ≤ lba) :
    r.setRaw d c y lba = d lba := by
  have := g.fat_lt hc
  exact update_of_ne (by omega) _ _

theorem Geometry.raw_congr (h : ∀ lba < r.dataStartSector, d' lba = d lba)
    (hc : c < r.fatSize * 128) :
    r.raw d' c = r.raw d c := by
  unfold raw
  rw [h _ (g.fat_lt hc)]

omit g in
def freeClusters (r : Fat32Reader) (d : Disk) : List Nat :=
  (range' 256 (r.fatSize * 128 - 256)).filter fun c => r.raw d c == 0

omit g in
theorem mem_freeClusters : c ∈ r.freeClusters d ↔ 256 ≤ c ∧ c < r.fatSize * 128 ∧ r.raw d c = 0 := by
  unfold freeClusters
  rw [mem_filter, mem_range'_1, beq_iff_eq]
  omega

omit g in
theorem zeroEntry_eq (sector : Nat) :
    (zeroEntry (d (r.fatStartSector + sector))).map (sector * 128 + ·)
      = (((range 128).map (sector * 128 + ·)).filter fun c => r.raw d c == 0).head? := by
  rw [filter_map, head?_map, head?_filter]
  unfold zeroEntry
  congr 1
  apply find?_congr
  intro i hi
  have := mem_range.mp hi
  simp only [Function.comp, raw]
  rw [show (sector * 128 + i) / 128 = sector by omega, show (sector * 128 + i) % 128 = i by omega]

theorem Geometry.scanFat_eq : ∀ k sector, sector + k ≤ r.fatSize → r.scanFat d (range' sector k)
      = ((range' (sector * 128) (k * 128)).filter fun c => r.raw d c == 0).headD 0xFFFFFFFF := by
  intro k
  induction k with
  | zero => intros; simp [scanFat]
  | succ k ih =>
    intro sector h
    have hn := g.numbers
    rw [List.range'_succ, scanFat, g.readFatTable_eq (by omega), range'_blocks, filter_append]
    dsimp only
    have hz := zeroEntry_eq (r := r) (d := d) sector
    cases he : zeroEntry (d (r.fatStartSector + sector)) with
    | none =>
      rw [he] at hz
      rw [head?_eq_none_iff.mp hz.symm, nil_append]
      exact ih (sector + 1) (by omega)
    | some i =>
      rw [he] at hz
      have hi := mem_range.mp (mem_of_find?_eq_some he)
      obtain ⟨t, ht⟩ := head?_eq_some_iff.mp hz.symm
      rw [ht]
      exact u32_of_lt (by omega)

theorem Geometry.getFirstFreeCluster_eq :
    r.getFirstFreeCluster d = (r.freeClusters d).headD 0xFFFFFFFF := by
  unfold getFirstFreeCluster freeClusters
  by_cases h : 2 ≤ r.fatSize
  · rw [g.scanFat_eq _ _ (by omega), Nat.sub_mul]
  · rw [show r.fatSize - 2 = 0 by omega, show r.fatSize * 128 - 256 = 0 by omega]
    rfl

omit g in
theorem nodup_freeClusters : (r.freeClusters d).Nodup := (nodup_range' 1).filter _

omit g in
theorem freeClusters_congr (h : ∀ c < r.fatSize * 128, r.raw d' c = 0 ↔ r.raw d c = 0) :
    r.freeClusters d' = r.freeClusters d := by
  unfold freeClusters
  apply filter_congr
  intro c hc
  have := mem_range'_1.mp hc
  rw [Bool.eq_iff_iff, beq_iff_eq, beq_iff_eq]
  exact h c (by omega)

omit g in
theorem freeClusters_setRaw_head (h : r.freeClusters d = c :: t) (hy : y < 4294967296)
    (hy0 : y ≠ 0) : r.freeClusters (r.setRaw d c y) = t := by
  have hsplit : r.freeClusters (r.setRaw d c y) = (r.freeClusters d).filter fun x => x != c := by
    unfold freeClusters
    rw [filter_filter]
    apply filter_congr
    intro x _
    rw [raw_setRaw d c x hy]
    by_cases hx : x = c
    · simp [hx, hy0]
    · simp [hx]
  have hnd := nodup_freeClusters (r := r) (d := d)
  rw [h] at hnd
  rw [hsplit, h, filter_cons_of_neg (by simp), filter_eq_self]
  intro x hx
  have : x ≠ c := by
    rintro rfl
    exact (nodup_cons.mp hnd).1 hx
  simpa using this

omit g in
def Outside (r : Fat32Reader) (c : Nat) (d d' : Disk) : Prop :=
  ∀ lba, (∀ s < r.sectorsPerCluster, lba ≠ r.clusterToLba c + s) → d' lba = d lba

omit g in
theorem Outside.refl : r.Outside c d d := fun _ _ => rfl

omit g in
theorem Outside.trans (h : r.Outside c d d') (h' : r.Outside c d' d'') : r.Outside c d d'' :=
  fun lba hlba => (h' lba hlba).trans (h lba hlba)

omit g in
theorem Outside.update (hs : s < r.sectorsPerCluster) (buffer : Sector) :
    r.Outside c d (update d (r.clusterToLba c + s) buffer) :=
  fun _ hlba => update_of_ne (hlba s hs) _ _

theorem Geometry.outside_raw (hc : r.Numbered c) (h : r.Outside c d d')
    (hc' : c' < r.fatSize * 128) :
    r.raw d' c' = r.raw d c' := by
  have hle := g.data_le_lba hc
  refine g.raw_congr (fun lba hlba => h lba fun s _ => ?_) hc'
  omega

theorem Geometry.outside_sector (hc : r.Numbered c) (hc' : r.Numbered c') (hne : c' ≠ c)
    (h : r.Outside c d d') (hs : s < r.sectorsPerCluster) :
    d' (r.clusterToLba c' + s) = d (r.clusterToLba c' + s) :=
  h _ fun _ hs' heq => hne (g.lba_inj hc' hc hs hs' heq).1

omit g in
def putSlot (r : Fat32Reader) (d : Disk) (c i : Nat) (e : Slot) : Disk :=
  update d (r.clusterToLba c + i / 16) (blit (d (r.clusterToLba c + i / 16)) (32 * (i % 16)) e)

omit g in
theorem outside_putSlot (hi : i < r.sectorsPerCluster * 16) (e : Slot) :
    r.Outside c d (r.putSlot d c i e) :=
  Outside.update (by omega) _

theorem Geometry.slot_putSlot (hc : r.Numbered c) (hc' : r.Numbered c')
    (hi : i < r.sectorsPerCluster * 16) (hi' : i' < r.sectorsPerCluster * 16) (he : e.length = 32) :
    r.slot (r.putSlot d c i e) c' i' = if c' = c ∧ i' = i then e else r.slot d c' i' := by
  unfold slot putSlot slotAt
  by_cases hs : r.clusterToLba c' + i' / 16 = r.clusterToLba c + i / 16
  · obtain ⟨rfl, hdiv⟩ := g.lba_inj hc' hc (by omega) (by omega) hs
    rw [hs, update_self]
    by_cases hii : i' = i
    · subst hii
      rw [if_pos ⟨rfl, rfl⟩]
      conv_lhs => rw [← he]
      exact slice_blit _ _ _
    · rw [if_neg (by rintro ⟨_, h⟩; exact hii h)]
      by_cases hlt : i' % 16 < i % 16
      · rw [slice_blit_of_le _ _ (by omega)]
      · rw [slice_blit_of_ge _ _ (by omega)]
  · rw [update_of_ne hs, if_neg]
    rintro ⟨rfl, rfl⟩
    exact hs rfl

theorem Geometry.readSectors_eq (hc : r.Numbered c) (hd : r.OnDisk c)
    (hs : s < r.sectorsPerCluster) :
    r.readSectors d (u32 (r.clusterToLba c + s)) = some (d (r.clusterToLba c + s)) := by
  unfold readSectors
  rw [g.u32_lba hc hs, if_pos (hd s hs)]

omit g in
theorem slotAt_sector (s e : Nat) (he : e < 16) : slotAt (d (r.clusterToLba c + s)) e =
    r.slot d c (s * 16 + e) := by
  unfold slot
  rw [show (s * 16 + e) / 16 = s by omega, show (s * 16 + e) % 16 = e by omega]

theorem Geometry.placeEntry_eq (hc : r.Numbered c) (hd : r.OnDisk c) (entry : Slot) : ∀ k s,
    s + k ≤ r.sectorsPerCluster → r.placeEntry d (r.clusterToLba c) entry (range' s k)
      = match (range' (s * 16) (k * 16)).find? fun i => Slot.isFree (r.slot d c i) with
        | none => .full
        | some i => .written (some (r.putSlot d c i entry)) := by
  intro k
  induction k with
  | zero => intros; rfl
  | succ k ih =>
    intro s h
    have hfind : (range (r.bytesPerSector / 32)).find?
      (fun e => Slot.isFree (slotAt (d (r.clusterToLba c + s)) e))
        = (range 16).find? fun e => Slot.isFree (r.slot d c (s * 16 + e)) := by
      rw [g.bytes]
      apply find?_congr
      intro e he
      rw [slotAt_sector s e (mem_range.mp he)]
    rw [List.range'_succ, placeEntry, g.readSectors_eq hc hd (by omega), range'_blocks,
      find?_append, find?_map]
    dsimp only
    rw [hfind]
    cases he : (range 16).find? fun e => Slot.isFree (r.slot d c (s * 16 + e)) with
    | none =>
      have : (range 16).find? ((fun i => Slot.isFree (r.slot d c i)) ∘ (s * 16 + ·)) = none := he
      rw [this]
      exact ih (s + 1) (by omega)
    | some e =>
      have : (range 16).find? ((fun i => Slot.isFree (r.slot d c i)) ∘ (s * 16 + ·)) = some e := he
      have hlt := mem_range.mp (mem_of_find?_eq_some he)
      rw [this]
      unfold writeSectors putSlot
      dsimp only [Option.map_some, Option.some_or]
      rw [g.u32_lba hc (by omega), if_pos (hd s (by omega))]
      rw [show (s * 16 + e) / 16 = s by omega, show (s * 16 + e) % 16 = e by omega]

end Fat32Reader

theorem lookSlots_append (want : Slot → Bool) (l m : List Slot) :
    lookSlots want (l ++ m) = match lookSlots want l with
      | .more => lookSlots want m
      | found => found := by
  induction l with
  | nil => rfl
  | cons s l ih =>
    rw [cons_append, lookSlots, lookSlots, ih]
    by_cases h0 : Slot.lead s = 0x00
    · rw [if_pos h0, if_pos h0]
    by_cases h1 : Slot.lead s = 0xE5
    · rw [if_neg h0, if_pos h1, if_neg h0, if_pos h1]
    rw [if_neg h0, if_neg h1, if_neg h0, if_neg h1]
    by_cases hw : want s = true
    · rw [if_pos hw, if_pos hw]
    · rw [if_neg hw, if_neg hw]

namespace Fat32Reader

variable {r : Fat32Reader} {d : Disk} (g : r.Geometry) {c c' : Nat}
include g

theorem Geometry.lookSectors_eq (hc : r.Numbered c) (hd : r.OnDisk c) (want : Slot → Bool) : ∀ k s,
    s + k ≤ r.sectorsPerCluster → r.lookSectors d want (r.clusterToLba c) (range' s k)
      = lookSlots want ((range' (s * 16) (k * 16)).map (r.slot d c)) := by
  intro k
  induction k with
  | zero => intros; rfl
  | succ k ih =>
    intro s h
    have hslots : (range (r.bytesPerSector / 32)).map (slotAt (d (r.clusterToLba c + s)))
        = ((range 16).map (s * 16 + ·)).map (r.slot d c) := by
      rw [g.bytes, map_map]
      apply map_congr_left
      intro e he
      exact slotAt_sector s e (mem_range.mp he)
    rw [List.range'_succ, lookSectors, g.readSectors_eq hc hd (by omega), range'_blocks, map_append,
      lookSlots_append]
    dsimp only
    rw [hslots]
    have hrest := ih (s + 1) (by omega)
    cases lookSlots want (((range 16).map (s * 16 + ·)).map (r.slot d c)) with
    | hit e => rfl
    | ended => rfl
    | more => exact hrest

theorem Geometry.lookCluster_eq (hc : r.Numbered c) (hd : r.OnDisk c) (want : Slot → Bool) :
    r.lookCluster d want c = lookSlots want (r.slots d c) := by
  unfold lookCluster slots
  rw [range_eq_range', g.lookSectors_eq hc hd want _ 0 (by omega), range_eq_range', zero_mul]

theorem Geometry.clearCluster_spec (hc : r.Numbered c) : ∀ k s d, s + k ≤ r.sectorsPerCluster →
    ∃ ok d', r.clearCluster (r.clusterToLba c) (range' s k) d = (ok, d') ∧ r.Outside c d d' ∧
      (ok = true ↔ ∀ j, s ≤ j → j < s + k → r.Addresses (r.clusterToLba c + j)) ∧
      (ok = true → ∀ j, s ≤ j → j < s + k → d' (r.clusterToLba c + j) = fun _ => 0) ∧
      (∀ j < s, d' (r.clusterToLba c + j) = d (r.clusterToLba c + j)) := by
  intro k
  induction k with
  | zero =>
    intro s d _
    exact ⟨true, d, rfl, .refl, by simp; omega, by intros; omega, fun _ _ => rfl⟩
  | succ k ih =>
    intro s d h
    rw [List.range'_succ, clearCluster, writeSectors, g.u32_lba hc (by omega)]
    by_cases ha : r.Addresses (r.clusterToLba c + s)
    · rw [if_pos ha]
      dsimp only
      obtain ⟨ok, d', heq, hout, hok, hzero, hkeep⟩ :=
        ih (s + 1) (update d (r.clusterToLba c + s) fun _ => 0)
        (by omega)
      refine ⟨ok, d', heq, (Outside.update (by omega) _).trans hout, hok.trans ?_, ?_, ?_⟩
      · constructor
        · intro hall j h1 h2
          by_cases hj : j = s
          · rw [hj]; exact ha
          · exact hall j (by omega) (by omega)
        · intro hall j h1 h2
          exact hall j (by omega) (by omega)
      · intro ho j h1 h2
        by_cases hj : j = s
        · rw [hj, hkeep s (by omega), update_self]
        · exact hzero ho j (by omega) (by omega)
      · intro j hj
        rw [hkeep j (by omega), update_of_ne (by omega)]
    · rw [if_neg ha]
      refine ⟨false, d, rfl, .refl, ?_, nofun, fun _ _ => rfl⟩
      constructor
      · nofun
      · intro hall
        exact absurd (hall s (by omega) (by omega)) ha

theorem Geometry.clearCluster_eq (hc : r.Numbered c) (d : Disk) :
    ∃ ok d', r.clearCluster (r.clusterToLba c) (range r.sectorsPerCluster) d = (ok, d') ∧
      r.Outside c d d' ∧ (ok = true ↔ r.OnDisk c) ∧
        (ok = true → ∀ s < r.sectorsPerCluster, d' (r.clusterToLba c + s) = fun _ => 0) := by
  obtain ⟨ok, d', heq, hout, hok, hzero, -⟩ := g.clearCluster_spec hc r.sectorsPerCluster 0 d (by omega)
  rw [range_eq_range']
  refine ⟨ok, d', heq, hout, hok.trans ?_, fun ho s hs => hzero ho s (by omega) (by omega)⟩
  constructor
  · intro h s hs
    exact h s (by omega) (by omega)
  · intro h s _ hs
    exact h s (by omega)

end Fat32Reader

end BlockOS.Fat32
