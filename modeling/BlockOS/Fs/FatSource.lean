import BlockOS.Fs.FatRead

/-! How the loop of `write_file` depends on the bytes that it writes. -/

namespace BlockOS.Fat32
open Words Buffer Links Function

namespace Fat32Reader

variable {r : Fat32Reader} {d d' : Disk} (g : r.Geometry) {F : Nat} (hF : r.Numbered F)
  {src src' : Nat → Byte} {length : Nat}
include g hF

theorem Geometry.outside_setRaw (hc : c < r.fatSize * 128) (y : Nat) (h : r.Outside F d d') :
    r.Outside F (r.setRaw d c y) (r.setRaw d' c y) := by
  intro lba hlba
  have hlt := g.fat_lt hc
  have hle := g.data_le_lba hF
  have hfat : d' (r.fatStartSector + c / 128) = d (r.fatStartSector + c / 128) := h _ fun s _ => by omega
  unfold setRaw
  by_cases heq : lba = r.fatStartSector + c / 128
  · rw [heq, update_self, update_self, hfat]
  · rw [update_of_ne heq, update_of_ne heq, h lba hlba]

omit g hF in
theorem Outside.symm (h : r.Outside F d d') : r.Outside F d' d := fun lba hlba => (h lba hlba).symm

theorem Geometry.loop_sim (src src' : Nat → Byte) (length : Nat) : ∀ q fuel d d' cur w,
    r.Left length w q → q < fuel →
    cur < r.fatSize * 128 → r.Outside F d d' → ∃ ok e e' cur', cur' < r.fatSize * 128 ∧
      r.writeLoop src length F fuel d cur w = some (ok, e, cur') ∧
      r.writeLoop src' length F fuel d' cur w = some (ok, e', cur') ∧ r.Outside F e e' := by
  intro q
  induction q with
  | zero =>
    intro fuel d d' cur w hleft hf hcur hout
    obtain ⟨fuel, rfl⟩ : ∃ k, fuel = k + 1 := ⟨fuel - 1, by omega⟩
    have hno : ¬ w < length := fun h => by simpa using hleft.lt_iff.mp h
    refine ⟨true, d, d', cur, hcur, ?_, ?_, hout⟩
    · rw [writeLoop, if_neg hno]
    · rw [writeLoop, if_neg hno]
  | succ q ih =>
    intro fuel d d' cur w hleft hf hcur hout
    obtain ⟨fuel, rfl⟩ : ∃ k, fuel = k + 1 := ⟨fuel - 1, by omega⟩
    have hw := hleft.lt_iff.mpr (Nat.succ_pos q)
    obtain ⟨e, he, -, hcases⟩ := g.round_cases hF src length d hw hcur
    obtain ⟨e', he', -, hcases'⟩ := g.round_cases hF src' length d' hw hcur
    have hee : r.Outside F e e' := (he.symm.trans hout).trans he'
    have hfree := g.outside_free hF hout
    rcases hcases fuel with ⟨hn, heq⟩ | ⟨hfits, hnil, heq⟩ | ⟨x, ys, hfits, hcons, heq⟩
    · rcases hcases' fuel with ⟨-, heq'⟩ | ⟨hfits, -, -⟩ | ⟨-, -, hfits, -, -⟩
      · exact ⟨false, e, e', cur, hcur, heq, heq', hee⟩
      · exact absurd hfits hn
      · exact absurd hfits hn
    · rcases hcases' fuel with ⟨hn, -⟩ | ⟨-, -, heq'⟩ | ⟨x, ys, -, hcons, -⟩
      · exact absurd hfits hn
      · exact ⟨false, e, e', cur, hcur, heq, heq', hee⟩
      · rw [hfree, hnil] at hcons
        cases hcons
    · rcases hcases' fuel with ⟨hn, -⟩ | ⟨-, hnil, -⟩ | ⟨x', ys', -, hcons', heq'⟩
      · exact absurd hfits hn
      · rw [hfree, hcons] at hnil
        cases hnil
      · rw [hfree, hcons] at hcons'
        cases hcons'
        rw [heq, heq']
        exact ih fuel _ _ x _ hleft.step (by omega) (numbered_of_free hcons).1.2
          (g.outside_setRaw hF hcur x hee)

theorem Geometry.writeData_sim (hP : P < r.fatSize * 128)
    (h : r.writeData src length F d P = some (true, d')) (src' : Nat → Byte) :
    ∃ d'', r.writeData src' length F d P = some (true, d'') := by
  have hleft := g.left_rounds length
  have hle := hleft.le_length g
  obtain ⟨ok, e, e', cur, hcur, heq, heq', -⟩ :=
    g.loop_sim hF src src' length (r.rounds length) (length + 1) d d P 0 hleft
    (by omega) hP .refl
  rw [writeData_eq] at h ⊢
  rw [heq] at h
  rw [heq']
  cases ok with
  | false => cases h
  | true => exact ⟨_, g.finish_eq hcur e'⟩

omit g hF in
theorem writeCluster_congr (lba : Nat) : ∀ (ss : List Nat) (d : Disk) (w : Nat),
    (∀ i ≥ w, src i = src' i) →
    r.writeCluster src length lba ss d w = r.writeCluster src' length lba ss d w ∧
      w ≤ (r.writeCluster src length lba ss d w).2.2 := by
  intro ss
  induction ss with
  | nil => exact fun d w _ => ⟨rfl, Nat.le_refl w⟩
  | cons s ss ih =>
    intro d w h
    rw [writeCluster, writeCluster]
    by_cases hw : length ≤ w
    · rw [if_pos hw, if_pos hw]
      exact ⟨rfl, Nat.le_refl w⟩
    have hsrc : (fun i => src (w + i)) = fun i => src' (w + i) := funext fun i => h (w + i) (by omega)
    rw [if_neg hw, if_neg hw, hsrc]
    cases r.writeSectors d (u32 (lba + s)) fun i => src' (w + i) with
    | none => exact ⟨rfl, Nat.le_refl w⟩
    | some d =>
      obtain ⟨heq, hle⟩ := ih d (w + min (length - w) 512) fun i hi => h i (by omega)
      exact ⟨heq, by dsimp only; omega⟩

omit g hF in
theorem writeLoop_congr : ∀ (fuel : Nat) (d : Disk) (cur w : Nat), (∀ i ≥ w, src i = src' i) →
    r.writeLoop src length F fuel d cur w = r.writeLoop src' length F fuel d cur w := by
  intro fuel
  induction fuel with
  | zero => intros; rfl
  | succ fuel ih =>
    intro d cur w h
    rw [writeLoop, writeLoop]
    by_cases hw : w < length
    · rw [if_pos hw, if_pos hw]
      obtain ⟨heq, hle⟩ :=
        @writeCluster_congr r _ _ length (r.clusterToLba F) (List.range r.sectorsPerCluster) d w h
      rw [← heq]
      revert hle
      rcases r.writeCluster src length (r.clusterToLba F) (List.range r.sectorsPerCluster) d
        w with ⟨ok, e, w'⟩
      intro hle
      cases ok with
      | false => rfl
      | true =>
        dsimp only
        by_cases hn : r.getFirstFreeCluster e = 0xFFFFFFFF
        · rw [if_pos hn, if_pos hn]
        rw [if_neg hn, if_neg hn]
        cases r.writeFatEntry e cur (r.getFirstFreeCluster e) with
        | none => rfl
        | some e => exact ih e _ w' fun i hi => h i (Nat.le_trans hle hi)
    · rw [if_neg hw, if_neg hw]

omit hF in
theorem Geometry.round_forgets (fuel : Nat) (hd : ∀ lba, lba ≠ r.clusterToLba F → d' lba = d lba)
    (ha : r.Addresses (r.clusterToLba F)) (hw : w < length) (hsrc : ∀ i ≥ w, src i = src' i) :
    r.writeLoop src length F (fuel + 1) d cur w = r.writeLoop src' length F (fuel + 1) d' cur w := by
  obtain ⟨k, hk⟩ : ∃ k, r.sectorsPerCluster = k + 1 :=
    ⟨r.sectorsPerCluster - 1, by have := g.sectors; omega⟩
  have hcl : r.writeCluster src length (r.clusterToLba F) (List.range r.sectorsPerCluster) d w
      = r.writeCluster src length (r.clusterToLba F) (List.range r.sectorsPerCluster) d' w := by
    rw [List.range_eq_range', hk, List.range'_succ, writeCluster, writeCluster, if_neg (by omega),
      if_neg (by omega),
      u32_clusterToLba, writeSectors, writeSectors, if_pos ha, if_pos ha]
    have hupd : update d (r.clusterToLba F) (fun i => src (w + i))
        = update d' (r.clusterToLba F) fun i => src (w + i) := by
      funext lba
      by_cases hl : lba = r.clusterToLba F
      · rw [hl, update_self, update_self]
      · rw [update_of_ne hl, update_of_ne hl, hd lba hl]
    dsimp only
    rw [hupd]
  rw [← @writeLoop_congr r F _ _ length (fuel + 1) d' cur w hsrc, writeLoop, writeLoop, if_pos hw,
    if_pos hw, hcl]

theorem Geometry.writeData_forgets (hP : P < r.fatSize * 128)
    (hlen : 512 * r.sectorsPerCluster < length) (hfits : r.Fits F length 0)
      (hfr : r.freeClusters d = x :: ys)
    (hsrc : ∀ i ≥ 1, src i = src' i) :
    r.writeData src length F d P = r.writeData src' length F d P := by
  have hpos := g.sectors
  have ha := hfits 0 hpos (by omega)
  rw [Nat.add_zero] at ha
  obtain ⟨e, he, hsec, heq⟩ := g.round_ok hF src length (show 0 < length by omega) hP hfits hfr
  obtain ⟨e', he', hsec', heq'⟩ := g.round_ok hF src' length (show 0 < length by omega) hP hfits hfr
  have hee : ∀ lba, lba ≠ r.clusterToLba F → e' lba = e lba := by
    intro lba hlba
    by_cases hin : ∃ s < r.sectorsPerCluster, lba = r.clusterToLba F + s
    · obtain ⟨s, hs, rfl⟩ := hin
      rw [hsec s hs, hsec' s hs]
      split
      · funext i
        exact (hsrc _ (by omega)).symm
      · rfl
    · have hout : ∀ s < r.sectorsPerCluster, lba ≠ r.clusterToLba F + s := fun s hs h => hin ⟨s, hs, h⟩
      rw [he lba hout, he' lba hout]
  rw [writeData_eq, writeData_eq]
  refine congrArg r.finish ?_
  obtain ⟨m, rfl⟩ : ∃ m, length = m + 1 := ⟨length - 1, by omega⟩
  rw [heq, heq']
  have hw : min (m + 1) (0 + 512 * r.sectorsPerCluster) < m + 1 := by omega
  refine g.round_forgets m (fun lba hlba => ?_) ha hw fun i hi => hsrc i (by omega)
  have hlt := g.fat_lt hP
  have hfe : e' (r.fatStartSector + P / 128) = e (r.fatStartSector + P / 128) := by
    have hle := g.data_le_lba hF
    exact hee _ (by omega)
  unfold setRaw
  by_cases hl : lba = r.fatStartSector + P / 128
  · rw [hl, update_self, update_self, hfe]
  · rw [update_of_ne hl, update_of_ne hl, hee lba hlba]

theorem Geometry.writeData_one (hP : P < r.fatSize * 128) (hpos : 0 < length)
    (hlen : length ≤ 512 * r.sectorsPerCluster) (hfits : r.Fits F length 0)
      (hfr : r.freeClusters d = x :: ys)
    (src : Nat → Byte) : ∃ d', r.writeData src length F d P = some (true, d') ∧
      r.Outside F (r.setRaw (r.setRaw d P x) x endMark) d' ∧
      ∀ s < r.sectorsPerCluster, d' (r.clusterToLba F + s)
        = if 512 * s < length then fun i => src (512 * s + i) else d (r.clusterToLba F + s) := by
  obtain ⟨hx, -, -⟩ := numbered_of_free hfr
  obtain ⟨e, he, hsec, heq⟩ := g.round_ok hF src length hpos hP hfits hfr
  obtain ⟨m, rfl⟩ : ∃ m, length = m + 1 := ⟨length - 1, by omega⟩
  refine ⟨r.setRaw (r.setRaw e P x) x endMark, ?_,
    g.outside_setRaw hF hx.2 _ (g.outside_setRaw hF hP _ he), ?_⟩
  · rw [writeData_eq, heq, writeLoop, if_neg (by omega), g.finish_eq hx.2]
  intro s hs
  have hle := g.data_le_lba hF
  rw [g.setRaw_data hx.2 _ (by omega), g.setRaw_data hP _ (by omega), hsec s hs]
  simp only [Nat.zero_add]

end Fat32Reader

end BlockOS.Fat32
