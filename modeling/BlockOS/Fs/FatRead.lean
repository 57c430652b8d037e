import BlockOS.Fs.FatCalls

/-! Reading a file. -/

namespace BlockOS.Fat32
open Words Buffer Links Paths List
open Slot (fileSize cluster isFree)

namespace Fat32Reader

variable {r : Fat32Reader} {d d' : Disk}

theorem readCluster_spec (lba : Nat) : ∀ (ss : List Nat) (rem : Nat) (dest : List Byte),
    match r.readCluster d lba ss rem dest with
    | .failed => True
    | .done l => ∃ t, l = dest ++ t ∧ t.length = rem
    | .more dest' rem' => ∃ t, dest' = dest ++ t ∧ t.length + rem' = rem := by
  intro ss
  induction ss with
  | nil => exact fun rem dest => ⟨[], by simp, by simp⟩
  | cons s ss ih =>
    intro rem dest
    rw [readCluster]
    cases r.readSectors d (u32 (lba + s)) with
    | none => trivial
    | some buffer =>
      dsimp only
      by_cases h0 : rem - min rem 512 = 0
      · rw [if_pos h0]
        exact ⟨slice buffer 0 (min rem 512), rfl, by rw [length_slice]; omega⟩
      rw [if_neg h0]
      have h := ih (rem - min rem 512) (dest ++ slice buffer 0 (min rem 512))
      revert h
      cases r.readCluster d lba ss (rem - min rem 512) (dest ++ slice buffer 0 (min rem 512)) with
      | failed => exact fun _ => trivial
      | done l =>
        rintro ⟨t, rfl, ht⟩
        exact ⟨slice buffer 0 (min rem 512) ++ t, by rw [append_assoc],
          by rw [length_append, length_slice, ht]; omega⟩
      | more dest' rem' =>
        rintro ⟨t, rfl, ht⟩
        exact ⟨slice buffer 0 (min rem 512) ++ t, by rw [append_assoc],
          by rw [length_append, length_slice]; omega⟩

theorem readChain_spec : ∀ (fuel c rem : Nat) (dest : List Byte) {l : List Byte},
    r.readChain d fuel c rem dest = some (some l) → ∃ t, l = dest ++ t ∧ t.length = rem := by
  intro fuel
  induction fuel with
  | zero => intro c rem dest l h; cases h
  | succ fuel ih =>
    intro c rem dest l h
    rw [readChain] at h
    by_cases hc : InChain c
    · rw [if_pos hc] at h
      have hspec := readCluster_spec (r := r) (d := d) (r.clusterToLba c)
        (List.range r.sectorsPerCluster) rem dest
      revert h hspec
      cases r.readCluster d (r.clusterToLba c) (List.range r.sectorsPerCluster) rem dest with
      | failed => intro h; cases h
      | done l' =>
        intro h hspec
        cases h
        exact hspec
      | more dest' rem' =>
        rintro h ⟨t, rfl, ht⟩
        obtain ⟨t', rfl, ht'⟩ := ih _ _ _ h
        exact ⟨t ++ t', by rw [append_assoc], by rw [length_append]; omega⟩
    · rw [if_neg hc] at h
      cases h

theorem readEntry_length (h : r.readEntry d s = some (some l)) : l.length = fileSize s := by
  unfold readEntry at h
  by_cases h0 : fileSize s = 0
  · rw [if_pos h0] at h
    cases h
    exact h0.symm
  rw [if_neg h0] at h
  obtain ⟨t, rfl, ht⟩ := readChain_spec _ _ _ _ h
  exact ht

theorem u32_clusterToLba (c : Nat) : u32 (r.clusterToLba c + 0) = r.clusterToLba c := by
  unfold clusterToLba u32
  rw [Nat.add_zero, Nat.mod_mod]

theorem readEntry_head (g : r.Geometry) (h : r.readEntry d s = some (some l))
    (h0 : fileSize s ≠ 0) :
    InChain (cluster s) ∧ l.headD 0 = d (r.clusterToLba (cluster s)) 0 := by
  unfold readEntry at h
  rw [if_neg h0, readChain] at h
  by_cases hc : InChain (cluster s)
  · refine ⟨hc, ?_⟩
    rw [if_pos hc] at h
    obtain ⟨k, hk⟩ : ∃ k, r.sectorsPerCluster = k + 1 :=
      ⟨r.sectorsPerCluster - 1, by have := g.sectors; omega⟩
    rw [range_eq_range', hk, List.range'_succ, readCluster, u32_clusterToLba, readSectors] at h
    by_cases ha : r.Addresses (r.clusterToLba (cluster s))
    · rw [if_pos ha] at h
      dsimp only at h
      obtain ⟨m, hm⟩ : ∃ m, min (fileSize s) 512 = m + 1 := ⟨min (fileSize s) 512 - 1, by omega⟩
      have hslice : ∀ t,
        (([] : List Byte) ++ slice (d (r.clusterToLba (cluster s))) 0 (m + 1) ++ t).headD 0
          = d (r.clusterToLba (cluster s)) 0 := by
        intro t
        rw [Nat.add_comm m, slice_add]
        rfl
      rw [hm] at h
      by_cases hr : fileSize s - (m + 1) = 0
      · rw [if_pos hr] at h
        cases h
        have := hslice []
        rwa [append_nil] at this
      · rw [if_neg hr] at h
        have hspec := readCluster_spec (r := r) (d := d) (r.clusterToLba (cluster s))
          (List.range' (0 + 1) k)
          (fileSize s - (m + 1)) ([] ++ slice (d (r.clusterToLba (cluster s))) 0 (m + 1))
        revert h hspec
        cases r.readCluster d (r.clusterToLba (cluster s)) (List.range' (0 + 1) k) (fileSize s - (m + 1))
          ([] ++ slice (d (r.clusterToLba (cluster s))) 0 (m + 1)) with
        | failed => intro h; cases h
        | done l' =>
          intro h hspec
          cases h
          obtain ⟨t, rfl, -⟩ := hspec
          exact hslice t
        | more dest' rem' =>
          rintro h ⟨t, rfl, -⟩
          obtain ⟨t', rfl, -⟩ := readChain_spec _ _ _ _ h
          rw [append_assoc _ t t']
          exact hslice (t ++ t')
    · rw [if_neg ha] at h
      cases h
  · rw [if_neg hc] at h
    cases h

theorem Geometry.readCluster_back (g : r.Geometry) {F length : Nat} (hF : r.Numbered F)
    (src : Nat → Byte)
    (hlen : length ≤ 512 * r.sectorsPerCluster) (hfits : r.Fits F length 0)
    (hdata : ∀ s < r.sectorsPerCluster, 512 * s < length → d (r.clusterToLba F + s) = fun i =>
      src (512 * s + i)) :
    ∀ k j, j + k = r.sectorsPerCluster → 512 * j < length →
      r.readCluster d (r.clusterToLba F) (List.range' j k) (length - 512 * j) (slice src 0 (512 * j))
        = .done (slice src 0 length) := by
  intro k
  induction k with
  | zero => intro j hj hlt; omega
  | succ k ih =>
    intro j hj hlt
    have hslice : ∀ m, slice src 0 (512 * j) ++ slice (fun i => src (512 * j + i)) 0 m =
        slice src 0 (512 * j + m) := by
      intro m
      rw [slice_add, Nat.zero_add]
      congr 1
      unfold slice
      simp only [Nat.zero_add]
    rw [List.range'_succ, readCluster, readSectors, g.u32_lba hF (by omega),
      if_pos (hfits j (by omega) (by omega)),
      hdata j (by omega) hlt]
    dsimp only
    rw [hslice]
    by_cases hend : length - 512 * j ≤ 512
    · rw [Nat.min_eq_left hend, if_pos (by omega), show 512 * j + (length - 512 * j) = length by omega]
    rw [Nat.min_eq_right (by omega), if_neg (by omega), show length - 512 * j - 512 =
      length - 512 * (j + 1) by omega,
      show 512 * j + 512 = 512 * (j + 1) by omega]
    exact ih (j + 1) (by omega) (by omega)

theorem Geometry.readEntry_back (g : r.Geometry) {F length : Nat} (hF : r.Numbered F)
    (src : Nat → Byte)
    (hpos : 0 < length) (hlen : length ≤ 512 * r.sectorsPerCluster) (hfits : r.Fits F length 0)
    (hdata : ∀ s < r.sectorsPerCluster, 512 * s < length → d (r.clusterToLba F + s) = fun i =>
      src (512 * s + i))
    (hsize : fileSize s = length) (hin : InChain (cluster s))
    (hlba : r.clusterToLba (cluster s) = r.clusterToLba F) :
    r.readEntry d s = some (some (slice src 0 length)) := by
  unfold readEntry
  rw [if_neg (by omega), readChain, if_pos hin, hlba, hsize, range_eq_range']
  have h := g.readCluster_back hF src hlen hfits hdata r.sectorsPerCluster 0 (by omega) (by omega)
  rw [Nat.mul_zero, Nat.sub_zero, slice_zero] at h
  rw [h]

end Fat32Reader

theorem lookSlots_taken (want : Slot → Bool) (h : ∀ s ∈ l, isFree s = false) :
    lookSlots want l = (l.find? want).elim .more .hit := by
  induction l with
  | nil => rfl
  | cons s l ih =>
    have hs := h s mem_cons_self
    unfold isFree at hs
    rw [Bool.or_eq_false_iff, beq_eq_false_iff_ne, beq_eq_false_iff_ne] at hs
    rw [lookSlots, if_neg hs.1, if_neg hs.2, find?_cons]
    by_cases hw : want s = true
    · rw [if_pos hw, hw]
      rfl
    · rw [if_neg hw, ih fun x hx => h x (mem_cons_of_mem _ hx), Bool.eq_false_iff.mpr hw]

theorem lookSlots_deleted (ht : t.length = 11) (hlead : t.headD 0 = 0xE5) :
    lookSlots (Fat32Reader.isFileNamed t) l ≠ .hit s := by
  intro h
  obtain ⟨-, hwant, hfree⟩ := lookSlots_hit h
  unfold Fat32Reader.isFileNamed at hwant
  rw [Bool.and_eq_true, beq_iff_eq] at hwant
  unfold isFree at hfree
  rw [Fat32Reader.lead_of_name hwant.2 ht, hlead] at hfree
  cases hfree

namespace Fat32Reader

variable {r : Fat32Reader} {d d' : Disk}

def Beside (r : Fat32Reader) (d d' : Disk) (D : List Nat) : Prop :=
  ∀ c, r.Taken d c → c ∉ D → r.raw d' c = r.raw d c ∧
    ∀ s < r.sectorsPerCluster, d' (r.clusterToLba c + s) = d (r.clusterToLba c + s)

theorem slots_congr (h : ∀ s < r.sectorsPerCluster, d' (r.clusterToLba c + s) =
    d (r.clusterToLba c + s)) :
    r.slots d' c = r.slots d c :=
  map_congr_left fun _ hi => slot_congr (mem_range.mp hi) h

section

variable (hw : r.WellFormed d) (hp : r.Directory d k₀ n₀ D) (hb : r.Beside d d' D)
include hw hp hb

theorem Beside.look (h : r.Directory d k n l) (hne : n ≠ n₀)
    (want : Slot → Bool) : r.lookChain d' want maxWalk (r.start d n) = r.lookChain d want maxWalk
      (r.start d n) := by
  have htaken := h.taken hw
  have hsame : ∀ c ∈ l, r.raw d' c = r.raw d c ∧
      ∀ s < r.sectorsPerCluster, d' (r.clusterToLba c + s) = d (r.clusterToLba c + s) :=
    fun c hc => hb c (htaken c hc) (hp.not_mem hw h.listed (h.chainOf hw) hne hc)
  have hlen := h.length_lt hw
  rw [h.lookChain_eq hw,
    hw.geometry.lookChain_eq want (h.chain.congr fun c hc => link_congr (hsame c hc).1)
    (fun c hc => ⟨(htaken c hc).numbered, (htaken c hc).onDisk⟩) maxWalk (by omega)]
  congr 3
  apply flatMap_congr
  exact fun c hc => slots_congr (hsame c hc).2

theorem Beside.resolve : ∀ (comps : List (List Byte)) {k n l}, r.Directory d k n l →
    k + comps.length = k₀ → r.resolveFrom d comps (r.start d n) = some (some (r.start d n₀)) →
    r.resolveFrom d' comps (r.start d n) = some (some (r.start d n₀)) := by
  intro comps
  induction comps with
  | nil => exact fun _ _ h => h
  | cons comp comps ih =>
    intro k n l h hk hres
    have hne : n ≠ n₀ := by
      rintro rfl
      have := hw.depth_unique h.listed hp.listed
      rw [length_cons] at hk
      omega
    rw [resolveFrom] at hres ⊢
    by_cases hlen : 16 ≤ comp.length
    · rw [if_pos hlen] at hres
      cases hres
    rw [if_neg hlen] at hres ⊢
    cases ht : toShortName comp with
    | none =>
      rw [ht] at hres
      cases hres
    | some t =>
      rw [ht] at hres
      dsimp only at hres ⊢
      rw [findEntryInDirectory, hb.look hw hp h hne, h.lookChain_eq hw]
      rw [findEntryInDirectory, h.lookChain_eq hw] at hres
      cases hs : lookSlots (fun s => Slot.isShort s && Slot.name s == t) (l.flatMap (r.slots d)) with
      | more =>
        rw [hs] at hres
        cases hres
      | ended =>
        rw [hs] at hres
        cases hres
      | hit s =>
        rw [hs] at hres
        dsimp only [Look.found] at hres ⊢
        by_cases hdir : (!Slot.isDirectory s) = true
        · rw [if_pos hdir] at hres
          cases hres
        rw [if_neg hdir] at hres ⊢
        obtain ⟨-, hwant, -⟩ := lookSlots_hit hs
        rw [Bool.and_eq_true, beq_iff_eq] at hwant
        obtain ⟨c, i, hlisted, rfl⟩ := h.found_listed hs hwant.1 (lead_ne_dot ht hwant.2)
        have hisdir : Slot.isDirectory (r.slot d c i) = true := by simpa using hdir
        obtain ⟨l', hchild⟩ := hw.directory hlisted hisdir
        have hne0 : cluster (r.slot d c i) ≠ 0 := hchild.start_ne hw
        rw [if_neg hne0] at hres ⊢
        exact ih hchild (by rw [length_cons] at hk; omega) hres

theorem Beside.getParent (hk : k₀ = (parentPieces path).length)
    (hpar : r.getParentDirectoryCluster d path = some (some (r.start d n₀)))
    (hres : r.resolveFrom d (parentPieces path) r.rootClusterNum = some (some (r.start d n₀))) :
    r.getParentDirectoryCluster d' path = some (some (r.start d n₀)) := by
  obtain ⟨l, hroot⟩ := hw.root
  have hres' := hb.resolve hw hp (parentPieces path) hroot (by omega) hres
  have hready := hw.geometry.ready
  unfold getParentDirectoryCluster at hpar ⊢
  unfold parentPieces at hres'
  rw [if_neg (by rw [hready]; decide)] at hpar ⊢
  cases hs : (splitLast path).1 with
  | none =>
    rw [hs] at hpar
    exact hpar
  | some parentPath =>
    rw [hs] at hpar hres'
    dsimp only at hpar ⊢
    by_cases h0 : parentPath = []
    · rw [if_pos h0] at hpar ⊢
      exact hpar
    rw [if_neg h0] at hpar ⊢
    by_cases h256 : 256 ≤ parentPath.length
    · rw [if_pos h256] at hpar
      cases hpar
    rw [if_neg h256, resolvePath, if_neg (by rw [hready]; decide)]
    exact hres'

end

end Fat32Reader

end BlockOS.Fat32
