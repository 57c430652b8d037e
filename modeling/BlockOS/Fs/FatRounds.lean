import BlockOS.Fs.FatInsert

/-! The rounds of the loop of `write_file`. -/

namespace BlockOS.Fat32
open Words Buffer Links List Function Nat

namespace Fat32Reader

variable {r : Fat32Reader} {d : Disk}

def Fits (r : Fat32Reader) (F length w : Nat) : Prop :=
  ∀ s < r.sectorsPerCluster, w + 512 * s < length → r.Addresses (r.clusterToLba F + s)

section

variable (g : r.Geometry) (hF : r.Numbered F) (src : Nat → Byte) (length : Nat)
include g hF

theorem Geometry.writeCluster_spec : ∀ k s d w, s + k ≤ r.sectorsPerCluster → ∃ ok d' w',
    r.writeCluster src length (r.clusterToLba F) (List.range' s k) d w = (ok, d', w') ∧
      r.Outside F d d' ∧
      (ok = true ↔ ∀ j < k, w + 512 * j < length → r.Addresses (r.clusterToLba F + (s + j))) ∧
      (ok = true → w ≤ length → w' = min length (w + 512 * k)) ∧
      (ok = true → ∀ j < k, d' (r.clusterToLba F + (s + j))
        = if w + 512 * j < length then fun i =>
          src (w + 512 * j + i) else d (r.clusterToLba F + (s + j))) ∧
      (∀ j < s, d' (r.clusterToLba F + j) = d (r.clusterToLba F + j)) := by
  intro k
  induction k with
  | zero =>
    intro s d w _
    exact ⟨true, d, w, rfl, .refl, by simp, fun _ h => by omega, fun _ j hj => by omega, fun _ _ => rfl⟩
  | succ k ih =>
    intro s d w h
    rw [List.range'_succ, writeCluster]
    by_cases hw : length ≤ w
    · rw [if_pos hw]
      refine ⟨true, d, w, rfl, .refl, ?_,
        fun _ h => by omega, fun _ j _ => by rw [if_neg (by omega)], fun _ _ => rfl⟩
      simp only [true_iff]
      intro j _ hj
      omega
    rw [if_neg hw, writeSectors, g.u32_lba hF (by omega)]
    by_cases ha : r.Addresses (r.clusterToLba F + s)
    · rw [if_pos ha]
      dsimp only
      obtain ⟨ok, d', w', heq, hout, hok, hw', hsec, hkeep⟩ :=
        ih (s + 1) (update d (r.clusterToLba F + s) fun i => src (w + i)) (w + min (length - w) 512)
          (by omega)
      -- sector `s` holds what was written first, sector `j + 1` what the rest wrote at `j`
      have hwj : ∀ j, w + min (length - w) 512 + 512 * j < length ↔ w + 512 * (j + 1) < length := by
        intro j
        omega
      refine ⟨ok, d', w', heq, (Outside.update (by omega) _).trans hout, hok.trans ?_, ?_, ?_, ?_⟩
      · constructor
        · intro hall j hj hlt
          rcases j with _ | j
          · exact ha
          · have := hall j (by omega) ((hwj j).mpr hlt)
            rwa [show s + 1 + j = s + (j + 1) by omega] at this
        · intro hall j hj hlt
          have := hall (j + 1) (by omega) ((hwj j).mp hlt)
          rwa [show s + (j + 1) = s + 1 + j by omega] at this
      · intro ho _
        rw [hw' ho (by omega)]
        omega
      · intro ho j hj
        rcases j with _ | j
        · have hs := hkeep s (by omega)
          rw [update_self] at hs
          rw [if_pos (by omega)]
          simpa using hs
        · have hs := hsec ho j (by omega)
          rw [show s + 1 + j = s + (j + 1) by omega, update_of_ne (by omega)] at hs
          rw [hs]
          by_cases hlt : w + 512 * (j + 1) < length
          · rw [if_pos hlt, if_pos ((hwj j).mpr hlt), show w + min (length - w) 512 + 512 * j =
              w + 512 * (j + 1) by omega]
          · rw [if_neg hlt, if_neg (fun h => hlt ((hwj j).mp h))]
      · intro j hj
        rw [hkeep j (by omega), update_of_ne (by omega)]
    · rw [if_neg ha]
      refine ⟨false, d, w, rfl, .refl, ?_, (fun h => by cases h), (fun h => by cases h), fun _ _ => rfl⟩
      constructor
      · exact fun h => by cases h
      · intro hall
        exact absurd (hall 0 (by omega) (by omega)) ha

theorem Geometry.writeCluster_eq (d : Disk) (hw : w ≤ length) : ∃ ok d' w',
    r.writeCluster src length (r.clusterToLba F) (List.range r.sectorsPerCluster) d w =
      (ok, d', w') ∧ r.Outside F d d' ∧
      (ok = true ↔ r.Fits F length w) ∧ (ok = true → w' = min length (w + 512 * r.sectorsPerCluster)) ∧
      (ok = true → ∀ s < r.sectorsPerCluster, d' (r.clusterToLba F + s)
        = if w + 512 * s < length then fun i =>
          src (w + 512 * s + i) else d (r.clusterToLba F + s)) := by
  obtain ⟨ok, d', w', heq, hout, hok, hw', hsec, -⟩ :=
    g.writeCluster_spec hF src length r.sectorsPerCluster 0 d w (by omega)
  rw [range_eq_range']
  simp only [zero_add] at hok hsec
  exact ⟨ok, d', w', heq, hout, hok, fun h => hw' h hw, hsec⟩

end

structure Left (r : Fat32Reader) (length w q : Nat) : Prop where
  le : w ≤ length
  enough : length ≤ w + q * (512 * r.sectorsPerCluster)
  least : 0 < q → w + (q - 1) * (512 * r.sectorsPerCluster) < length

def rounds (r : Fat32Reader) (length : Nat) : Nat :=
  (length + 512 * r.sectorsPerCluster - 1) / (512 * r.sectorsPerCluster)

theorem Geometry.left_rounds (g : r.Geometry) (length : Nat) : r.Left length 0 (r.rounds length) := by
  have hB : 0 < 512 * r.sectorsPerCluster := Nat.mul_pos (by decide) g.sectors
  have hdiv := Nat.div_add_mod (length + 512 * r.sectorsPerCluster - 1) (512 * r.sectorsPerCluster)
  have hmod := Nat.mod_lt (length + 512 * r.sectorsPerCluster - 1) hB
  refine ⟨by omega, ?_, fun hq => ?_⟩
  · rw [rounds, Nat.mul_comm]
    omega
  have hle := Nat.le_mul_of_pos_right (512 * r.sectorsPerCluster) hq
  rw [rounds] at hle
  rw [rounds, Nat.sub_mul, Nat.one_mul, Nat.mul_comm]
  omega

theorem Left.lt_iff {length w q : Nat} (h : r.Left length w q) : w < length ↔ 0 < q := by
  constructor
  · intro hlt
    by_contra h0
    have := h.enough
    rw [show q = 0 by omega, zero_mul] at this
    omega
  · intro hq
    have := h.least hq
    omega

theorem Left.step {length w q : Nat} (h : r.Left length w (q + 1)) :
    r.Left length (min length (w + 512 * r.sectorsPerCluster)) q := by
  have h1 := h.enough
  have h2 := h.least (by omega)
  rw [Nat.add_mul, Nat.one_mul] at h1
  rw [Nat.add_sub_cancel] at h2
  refine ⟨by omega, by omega, fun hq => ?_⟩
  obtain ⟨p, rfl⟩ : ∃ p, q = p + 1 := ⟨q - 1, by omega⟩
  rw [Nat.add_mul, Nat.one_mul] at h2
  rw [Nat.add_sub_cancel]
  omega

def finish (r : Fat32Reader) : Option (Bool × Disk × Nat) → Option (Bool × Disk)
  | none => none
  | some (false, d, _) => some (false, d)
  | some (true, d, current) =>
    match r.writeFatEntry d current 0x0FFFFFFF with
    | none => some (false, d)
    | some d => some (true, d)

theorem writeData_eq (src : Nat → Byte) (length F : Nat) (d : Disk) (current : Nat) :
    r.writeData src length F d current =
      r.finish (r.writeLoop src length F (length + 1) d current 0) := by
  unfold writeData finish
  rfl

section

variable (g : r.Geometry) (hF : r.Numbered F) (src : Nat → Byte) (length : Nat)
include g hF

theorem Geometry.outside_free (h : r.Outside F d d') : r.freeClusters d' = r.freeClusters d :=
  freeClusters_congr fun c hc => by rw [g.outside_raw hF h hc]

theorem Geometry.round_cases (d : Disk) (hw : w < length) (hcur : cur < r.fatSize * 128) : ∃ d₁,
    r.Outside F d d₁ ∧ (r.Fits F length w → ∀ s < r.sectorsPerCluster, d₁ (r.clusterToLba F + s)
        = if w + 512 * s < length then fun i => src (w + 512 * s + i) else d (r.clusterToLba F + s)) ∧
      ∀ fuel, (¬ r.Fits F length w ∧ r.writeLoop src length F (fuel + 1) d cur w =
        some (false, d₁, cur)) ∨ (r.Fits F length w ∧ r.freeClusters d = [] ∧
          r.writeLoop src length F (fuel + 1) d cur w = some (false, d₁, cur)) ∨
        ∃ x ys, r.Fits F length w ∧ r.freeClusters d = x :: ys ∧
          r.writeLoop src length F (fuel + 1) d cur w
          = r.writeLoop src length F fuel (r.setRaw d₁ cur x) x
            (min length (w + 512 * r.sectorsPerCluster)) := by
  obtain ⟨ok, d₁, w', heq, hout, hok, hw', hsec⟩ := g.writeCluster_eq hF src length d (le_of_lt hw)
  refine ⟨d₁, hout, fun h => hsec (hok.mpr h), fun fuel => ?_⟩
  rw [writeLoop, if_pos hw, heq]
  cases ok with
  | false => exact .inl ⟨fun h => by simpa using hok.mpr h, rfl⟩
  | true =>
    have hfits := hok.mp rfl
    have hfree := g.outside_free hF hout
    refine .inr ?_
    dsimp only
    rw [g.getFirstFreeCluster_eq, hfree]
    cases hfr : r.freeClusters d with
    | nil => exact .inl ⟨hfits, rfl, rfl⟩
    | cons x ys =>
      obtain ⟨hx, -, -⟩ := numbered_of_free hfr
      have hx2 := hx.2
      have hn := g.numbers
      refine .inr ⟨x, ys, hfits, rfl, ?_⟩
      rw [headD_cons, if_neg (by omega), g.writeFatEntry_eq hcur, mod_eq_of_lt (by omega), hw' rfl]

theorem Geometry.round_ok (hw : w < length) (hcur : cur < r.fatSize * 128)
    (hfits : r.Fits F length w) (hfr : r.freeClusters d = x :: ys) :
    ∃ d₁, r.Outside F d d₁ ∧ (∀ s < r.sectorsPerCluster, d₁ (r.clusterToLba F + s)
        = if w + 512 * s < length then fun i => src (w + 512 * s + i) else d (r.clusterToLba F + s)) ∧
      ∀ fuel, r.writeLoop src length F (fuel + 1) d cur w
        = r.writeLoop src length F fuel (r.setRaw d₁ cur x) x
          (min length (w + 512 * r.sectorsPerCluster)) := by
  obtain ⟨d₁, hout, hsec, hcases⟩ := g.round_cases hF src length d hw hcur
  refine ⟨d₁, hout, hsec hfits, fun fuel => ?_⟩
  rcases hcases fuel with ⟨hn, -⟩ | ⟨-, hnil, -⟩ | ⟨x', ys', -, hcons, heq⟩
  · exact absurd hfits hn
  · rw [hfr] at hnil
    cases hnil
  rw [hfr] at hcons
  cases hcons
  exact heq

omit hF in
theorem Geometry.finish_eq (hcur : cur < r.fatSize * 128) (d : Disk) :
    r.finish (some (true, d, cur)) = some (true, r.setRaw d cur endMark) := by
  unfold finish
  dsimp only
  rw [g.writeFatEntry_eq hcur]
  rfl

end

end Fat32Reader

end BlockOS.Fat32
