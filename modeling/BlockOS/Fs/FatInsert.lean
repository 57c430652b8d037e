import BlockOS.Fs.FatWalks

/-! The insertion of an entry into a directory. -/

namespace BlockOS.Fat32
open Words Buffer Links List

namespace Fat32Reader

variable {r : Fat32Reader} {d : Disk}

def Full (r : Fat32Reader) (d : Disk) (c : Nat) : Prop :=
  ∀ i < r.sectorsPerCluster * 16, Slot.isFree (r.slot d c i) = false

structure FirstFree (r : Fat32Reader) (d : Disk) (c i : Nat) : Prop where
  lt : i < r.sectorsPerCluster * 16
  free : Slot.isFree (r.slot d c i) = true
  before : ∀ j < i, Slot.isFree (r.slot d c j) = false

def endMark : Nat := 0x0FFFFFFF

section

variable (g : r.Geometry)
include g

theorem Geometry.place_cases (hc : r.Numbered c) (hd : r.OnDisk c) (e : Slot) :
    (r.Full d c ∧ r.placeEntry d (r.clusterToLba c) e (List.range r.sectorsPerCluster) = .full) ∨
    ∃ i, r.FirstFree d c i ∧
      r.placeEntry d (r.clusterToLba c) e (List.range r.sectorsPerCluster) =
        .written (some (r.putSlot d c i e)) := by
  have h := g.placeEntry_eq (d := d) hc hd e r.sectorsPerCluster 0 (by omega)
  rw [← range_eq_range', Nat.zero_mul, ← range_eq_range'] at h
  cases hf : (List.range (r.sectorsPerCluster * 16)).find? fun i => Slot.isFree (r.slot d c i) with
  | none =>
    rw [hf] at h
    refine .inl ⟨fun i hi => ?_, h⟩
    simpa using find?_eq_none.mp hf i (mem_range.mpr hi)
  | some i =>
    rw [hf] at h
    refine .inr ⟨i, ?_, h⟩
    obtain ⟨hfree, hi, hbefore⟩ := find?_range_eq_some.mp hf
    exact ⟨mem_range.mp hi, hfree, fun j hj => by simpa using hbefore j hj⟩

theorem Geometry.insert_walk (e : Slot) (fuel : Nat) : ∀ (pre : List Nat) {c : Nat},
    Chain (r.link d) c (pre ++ z :: post) → (∀ x ∈ pre, r.Numbered x ∧ r.OnDisk x ∧ r.Full d x) →
      r.insertDirectoryEntry (pre.length + fuel) d c e = r.insertDirectoryEntry fuel d z e := by
  intro pre
  induction pre with
  | nil =>
    intro c h _
    obtain ⟨t, ht⟩ := h.eq_cons
    cases ht
    rw [length_nil, Nat.zero_add]
  | cons y pre ih =>
    intro c h hpre
    have hcy : c = y := by
      obtain ⟨t, ht⟩ := h.eq_cons
      exact (List.cons.inj ht).1.symm
    subst hcy
    obtain ⟨b, hb, ht⟩ := h.uncons (by simp)
    obtain ⟨hc, hd, hfull⟩ := hpre c mem_cons_self
    rw [length_cons, Nat.add_right_comm, insertDirectoryEntry, if_pos (g.inChain hc)]
    rcases g.place_cases (d := d) hc hd e with ⟨-, hplace⟩ | ⟨i, hfirst, -⟩
    · rw [hplace]
      dsimp only
      rw [g.nextClusterInChain_eq hc.2, (link_some hb).1, if_pos (link_some hb).2]
      exact ih ht fun x hx => hpre x (mem_cons_of_mem _ hx)
    · have hfree := hfirst.free
      rw [hfull i hfirst.lt] at hfree
      cases hfree

theorem Geometry.insert_place (hc : r.Numbered c) (hd : r.OnDisk c) (h : ¬ r.Full d c) (e : Slot)
    (fuel : Nat) :
    ∃ i, r.FirstFree d c i ∧ r.insertDirectoryEntry (fuel + 1) d c e =
      some (true, r.putSlot d c i e) := by
  rcases g.place_cases (d := d) hc hd e with ⟨hfull, -⟩ | ⟨i, hfirst, hplace⟩
  · exact absurd hfull h
  · refine ⟨i, hfirst, ?_⟩
    rw [insertDirectoryEntry, if_pos (g.inChain hc), hplace]

theorem Geometry.insert_end (hc : r.Numbered c) (hd : r.OnDisk c) (hfull : r.Full d c)
    (hend : r.link d c = none)
    (e : Slot) (fuel : Nat) :
    (r.freeClusters d = [] ∧ r.insertDirectoryEntry (fuel + 2) d c e = some (false, d)) ∨
    (∃ F t d', r.freeClusters d = F :: t ∧ ¬ r.OnDisk F ∧ r.Outside F (r.setRaw d F endMark) d' ∧
      r.insertDirectoryEntry (fuel + 2) d c e = some (false, d')) ∨
    (∃ F t d', r.freeClusters d = F :: t ∧ r.OnDisk F ∧ r.Outside F (r.setRaw d F endMark) d' ∧
      (∀ s < r.sectorsPerCluster, d' (r.clusterToLba F + s) = fun _ => 0) ∧
      r.insertDirectoryEntry (fuel + 2) d c e = some (true, r.putSlot (r.setRaw d' c F) F 0 e)) := by
  have hplace : r.placeEntry d (r.clusterToLba c) e (List.range r.sectorsPerCluster) = .full := by
    rcases g.place_cases (d := d) hc hd e with ⟨-, h⟩ | ⟨i, hfirst, -⟩
    · exact h
    have hfree := hfirst.free
    rw [hfull i hfirst.lt] at hfree
    cases hfree
  cases hfr : r.freeClusters d with
  | nil =>
    refine .inl ⟨rfl, ?_⟩
    rw [insertDirectoryEntry, if_pos (g.inChain hc), hplace]
    dsimp only
    rw [g.nextClusterInChain_eq hc.2, if_neg (link_none hend), g.getFirstFreeCluster_eq, hfr]
    rfl
  | cons F t =>
    obtain ⟨hF, hF', -⟩ := mem_freeClusters.mp (hfr ▸ mem_cons_self : F ∈ r.freeClusters d)
    have hn := g.numbers
    have hFn : r.Numbered F := ⟨by omega, hF'⟩
    obtain ⟨ok, d', hclear, hout, hok, hzero⟩ := g.clearCluster_eq hFn (r.setRaw d F endMark)
    have hfirst : r.getFirstFreeCluster d = F := by
      rw [g.getFirstFreeCluster_eq, hfr]
      rfl
    -- the claim of the cluster, after the clearing of its sectors
    have hstep : ∀ f, r.insertDirectoryEntry (f + 1) d c e =
        if ok then (r.writeFatEntry d' c F).elim (some (false, d')) fun d =>
          r.insertDirectoryEntry f d F e
        else some (false, d') := by
      intro f
      rw [insertDirectoryEntry, if_pos (g.inChain hc), hplace]
      dsimp only
      rw [g.nextClusterInChain_eq hc.2, if_neg (link_none hend), hfirst, if_neg (by omega),
        g.writeFatEntry_eq hF']
      dsimp only
      erw [hclear]
      cases ok with
      | false => rfl
      | true =>
        dsimp only
        cases r.writeFatEntry d' c F <;> rfl
    cases ok with
    | false =>
      refine .inr (.inl ⟨F, t, d', rfl, fun h => by simpa using hok.mpr h, hout, ?_⟩)
      rw [hstep]
      rfl
    | true =>
      refine .inr (.inr ⟨F, t, d', rfl, hok.mp rfl, hout, hzero rfl, ?_⟩)
      have hzero' : ∀ s < r.sectorsPerCluster, r.setRaw d' c F (r.clusterToLba F + s) = fun _ => 0 := by
        intro s hs
        have hle := g.data_le_lba hFn
        rw [g.setRaw_data hc.2 _ (by omega)]
        exact hzero rfl s hs
      have hslot0 : Slot.isFree (r.slot (r.setRaw d' c F) F 0) = true := by
        have hs := hzero' 0 g.sectors
        unfold slot
        rw [Nat.zero_div, hs]
        rfl
      have hpos := g.sectors
      have hnot : ¬ r.Full (r.setRaw d' c F) F := by
        intro h
        rw [h 0 (by omega)] at hslot0
        cases hslot0
      obtain ⟨i, hi, hins⟩ := g.insert_place hFn (hok.mp rfl) hnot e fuel
      have hi0 : i = 0 := by
        by_contra h0
        have := hi.before 0 (by omega)
        rw [hslot0] at this
        cases this
      subst hi0
      rw [hstep, if_pos rfl, g.writeFatEntry_eq hc.2, Nat.mod_eq_of_lt (by omega)]
      exact hins

end

inductive Inserted (r : Fat32Reader) (d : Disk) (D : List Nat) (e : Slot) : Bool → Disk → Prop
  | placed {pre post : List Nat} {c i : Nat} : D = pre ++ c :: post → (∀ x ∈ pre, r.Full d x) → r.FirstFree d c i →
      Inserted r d D e true (r.putSlot d c i e)
  | noCluster : (∀ x ∈ D, r.Full d x) → r.freeClusters d = [] → Inserted r d D e false d
  | offDisk {F : Nat} {t : List Nat} {d' : Disk} : (∀ x ∈ D, r.Full d x) → r.freeClusters d = F :: t →
      ¬ r.OnDisk F → r.Outside F (r.setRaw d F endMark) d' → Inserted r d D e false d'
  | extended {pre : List Nat} {z F : Nat} {t : List Nat} {d' : Disk} : D = pre ++ [z] → (∀ x ∈ D, r.Full d x) →
      r.freeClusters d = F :: t → r.OnDisk F → r.Outside F (r.setRaw d F endMark) d' →
      (∀ s < r.sectorsPerCluster, d' (r.clusterToLba F + s) = fun _ => 0) →
      Inserted r d D e true (r.putSlot (r.setRaw d' z F) F 0 e)

theorem full_or_split (r : Fat32Reader) (d : Disk) (D : List Nat) :
    (∀ x ∈ D, r.Full d x) ∨ ∃ pre c post, D = pre ++ c :: post ∧ (∀ x ∈ pre, r.Full d x) ∧
      ¬ r.Full d c := by
  induction D with
  | nil => exact .inl nofun
  | cons c D ih =>
    by_cases hc : r.Full d c
    · rcases ih with hall | ⟨pre, x, post, rfl, hpre, hx⟩
      · exact .inl fun x hx => (mem_cons.mp hx).elim (fun h => h ▸ hc) (hall x)
      · exact .inr ⟨c :: pre, x, post, rfl, fun y hy => (mem_cons.mp hy).elim (fun h => h ▸ hc)
          (hpre y), hx⟩
    · exact .inr ⟨[], c, D, rfl, nofun, hc⟩

theorem Geometry.insert_inserted (g : r.Geometry) (hD : Chain (r.link d) P D)
    (hon : ∀ x ∈ D, r.Numbered x ∧ r.OnDisk x) (hlen : D.length + 1 < maxWalk) (e : Slot) :
    ∃ ok d', r.insertDirectoryEntry maxWalk d P e = some (ok, d') ∧ Inserted r d D e ok d' := by
  rcases full_or_split r d D with hall | ⟨pre, c, post, rfl, hpre, hc⟩
  · obtain ⟨pre, z, rfl⟩ : ∃ pre z, D = pre ++ [z] := by
      obtain ⟨t, rfl⟩ := hD.eq_cons
      exact ⟨_, _, (dropLast_append_getLast (cons_ne_nil P t)).symm⟩
    obtain ⟨fuel, hfuel⟩ : ∃ fuel, maxWalk = pre.length + (fuel + 2) := by
      rw [length_append, length_singleton] at hlen
      exact ⟨maxWalk - pre.length - 2, by omega⟩
    have hz : z ∈ pre ++ [z] := mem_append_right _ mem_cons_self
    rw [hfuel, g.insert_walk e (fuel + 2) pre hD fun x hx =>
      ⟨(hon x (mem_append_left _ hx)).1, (hon x (mem_append_left _ hx)).2,
        hall x (mem_append_left _ hx)⟩]
    rcases g.insert_end (hon z hz).1 (hon z hz).2 (hall z hz) hD.next_last e fuel with
      ⟨hfr, hins⟩ | ⟨F, t, d', hfr, hoff, hout, hins⟩ | ⟨F, t, d', hfr, hF, hout, hzero, hins⟩
    · exact ⟨false, d, hins, .noCluster hall hfr⟩
    · exact ⟨false, d', hins, .offDisk hall hfr hoff hout⟩
    · exact ⟨true, _, hins, .extended rfl hall hfr hF hout hzero⟩
  · obtain ⟨fuel, hfuel⟩ : ∃ fuel, maxWalk = pre.length + (fuel + 1) := by
      rw [length_append, length_cons] at hlen
      exact ⟨maxWalk - pre.length - 1, by omega⟩
    have hcm : c ∈ pre ++ c :: post := mem_append_right _ mem_cons_self
    rw [hfuel, g.insert_walk e (fuel + 1) pre hD fun x hx =>
      ⟨(hon x (mem_append_left _ hx)).1, (hon x (mem_append_left _ hx)).2, hpre x hx⟩]
    obtain ⟨i, hi, hins⟩ := g.insert_place (hon c hcm).1 (hon c hcm).2 hc e fuel
    exact ⟨true, _, hins, .placed rfl hpre hi⟩

structure Keeps (r : Fat32Reader) (d d' : Disk) : Prop where
  raw : ∀ c, r.Taken d c → r.raw d' c = r.raw d c
  sectors : ∀ c, r.Taken d c → ∀ s < r.sectorsPerCluster, d' (r.clusterToLba c + s) =
    d (r.clusterToLba c + s)
  free : ∀ c, r.Numbered c → r.raw d' c = 0 → r.raw d c = 0

theorem Keeps.refl : r.Keeps d d := ⟨fun _ _ => rfl, fun _ _ _ _ => rfl, fun _ _ h => h⟩

theorem numbered_of_free (h : r.freeClusters d = F :: t) : r.Numbered F ∧ r.raw d F = 0 ∧ 256 ≤ F := by
  obtain ⟨h1, h2, h3⟩ := mem_freeClusters.mp (h ▸ mem_cons_self : F ∈ r.freeClusters d)
  exact ⟨⟨by omega, h2⟩, h3, h1⟩

theorem link_endMark (h : r.raw d c = endMark) : r.link d c = none := by
  unfold link
  rw [h]
  rfl

theorem Geometry.keeps_claim (g : r.Geometry) (h : r.freeClusters d = F :: t)
    (hout : r.Outside F (r.setRaw d F endMark) d') :
    r.Keeps d d' ∧ (∀ c < r.fatSize * 128, r.raw d' c = if c = F then endMark else r.raw d c) ∧
      ∀ c, r.Numbered c → c ≠ F → ∀ s < r.sectorsPerCluster, d' (r.clusterToLba c + s) =
        d (r.clusterToLba c + s) := by
  obtain ⟨hF, hF0, -⟩ := numbered_of_free h
  have hraw : ∀ c < r.fatSize * 128, r.raw d' c = if c = F then endMark else r.raw d c := by
    intro c hc
    rw [g.outside_raw hF hout hc, raw_setRaw d F c (by decide)]
  have hsec : ∀ c, r.Numbered c → c ≠ F → ∀ s < r.sectorsPerCluster,
      d' (r.clusterToLba c + s) = d (r.clusterToLba c + s) := by
    intro c hc hne s hs
    have hle := g.data_le_lba hc
    rw [g.outside_sector hF hc hne hout hs, g.setRaw_data hF.2 _ (by omega)]
  have hne : ∀ c, r.Taken d c → c ≠ F := by
    rintro c hc rfl
    exact hc.raw hF0
  refine ⟨⟨fun c hc => ?_, fun c hc => hsec c hc.numbered (hne c hc), fun c hc h0 => ?_⟩, hraw, hsec⟩
  · rw [hraw c hc.numbered.2, if_neg (hne c hc)]
  rw [hraw c hc.2] at h0
  by_cases hcF : c = F
  · rw [if_pos hcF] at h0
    cases h0
  · rwa [if_neg hcF] at h0

theorem Geometry.extended_spec (g : r.Geometry) (h : r.freeClusters d = F :: t)
    (hout : r.Outside F (r.setRaw d F endMark) d') (hz : r.Numbered z) (hz0 : r.raw d z ≠ 0) (e : Slot) :
    (∀ c < r.fatSize * 128, r.raw (r.putSlot (r.setRaw d' z F) F 0 e) c
      = if c = z then F else if c = F then endMark else r.raw d c) ∧
    (∀ c, r.Numbered c → c ≠ F → ∀ s < r.sectorsPerCluster,
      r.putSlot (r.setRaw d' z F) F 0 e (r.clusterToLba c + s) = d (r.clusterToLba c + s)) ∧
    r.freeClusters (r.putSlot (r.setRaw d' z F) F 0 e) = t := by
  obtain ⟨hF, hF0, hF256⟩ := numbered_of_free h
  obtain ⟨-, hraw, hsec⟩ := g.keeps_claim h hout
  have hpos := g.sectors
  have hn := g.numbers
  have hF2 := hF.2
  have hput : r.Outside F (r.setRaw d' z F) (r.putSlot (r.setRaw d' z F) F 0 e) :=
    outside_putSlot (by omega) e
  have hraw' : ∀ c < r.fatSize * 128, r.raw (r.putSlot (r.setRaw d' z F) F 0 e) c
      = if c = z then F else if c = F then endMark else r.raw d c := by
    intro c hc
    rw [g.outside_raw hF hput hc, raw_setRaw d' z c (by omega), hraw c hc]
  refine ⟨hraw', fun c hc hcF s hs => ?_, ?_⟩
  · have hle := g.data_le_lba hc
    rw [g.outside_sector hF hc hcF hput hs, g.setRaw_data hz.2 _ (by omega), hsec c hc hcF s hs]
  rw [← freeClusters_setRaw_head h (show endMark < 4294967296 by decide) (by decide)]
  apply freeClusters_congr
  intro c hc
  rw [hraw' c hc, raw_setRaw d F c (by decide)]
  by_cases hcz : c = z
  · rw [if_pos hcz, hcz, if_neg (by rintro rfl; exact hz0 hF0)]
    omega
  · rw [if_neg hcz]

section

theorem Keeps.slot (hk : r.Keeps d d₀) (hc : r.Taken d c) (hi : i < r.sectorsPerCluster * 16) :
    r.slot d₀ c i = r.slot d c i := slot_congr hi (hk.sectors c hc)

theorem Keeps.grows (hk : r.Keeps d d₀) (hw : r.WellFormed d) (hp : r.Directory d k n D)
    (e : Option Slot) :
    r.Grows d d₀ n D [] e where
  same c hc _ := ⟨hk.raw c hc, hk.sectors c hc⟩
  chain := by
    rw [append_nil]
    exact hp.chain.congr fun c hc => link_congr (hk.raw c (hp.taken hw c hc))
  added := nofun
  gains := ⟨0, 0, fun c hc i hi => .inl (hk.slot (hp.taken hw c hc) hi), nofun⟩

section

variable (hk : r.Keeps d d₀) (hw : r.WellFormed d) (hp : r.Directory d k n D)
include hk hw hp

theorem Keeps.chain : Chain (r.link d₀) (r.start d n) D :=
  hp.chain.congr fun c hc => link_congr (hk.raw c (hp.taken hw c hc))

theorem Keeps.grows_placed (hc : c ∈ D) (hfirst : r.FirstFree d₀ c i) (he : e.length = 32) :
    r.Grows d (r.putSlot d₀ c i e) n D [] (some e) := by
  have g := hw.geometry
  have htaken := hp.taken hw
  have hcn := (htaken c hc).numbered
  have hout : r.Outside c d₀ (r.putSlot d₀ c i e) := outside_putSlot hfirst.lt e
  refine ⟨fun x hx hxD => ?_, ?_, nofun, c, i, fun x hx j hj => ?_, nofun⟩
  · have hxc : x ≠ c := by
      rintro rfl
      exact hxD hc
    refine ⟨(g.outside_raw hcn hout hx.numbered.2).trans (hk.raw x hx), fun s hs => ?_⟩
    rw [g.outside_sector hcn hx.numbered hxc hout hs, hk.sectors x hx s hs]
  · rw [append_nil]
    exact (hk.chain hw hp).congr fun x hx => link_congr (g.outside_raw hcn hout (htaken x hx).numbered.2)
  · rw [g.slot_putSlot hcn (htaken x hx).numbered hfirst.lt hj he]
    by_cases hxj : x = c ∧ j = i
    · rw [if_pos hxj]
      obtain ⟨rfl, rfl⟩ := hxj
      refine .inr ⟨rfl, rfl, ?_, rfl⟩
      rw [← hk.slot (htaken x hx) hj]
      exact hfirst.free
    · rw [if_neg hxj]
      exact .inl (hk.slot (htaken x hx) hj)

omit hp in
theorem Keeps.claim (hfr : r.freeClusters d₀ = F :: t)
    (hout : r.Outside F (r.setRaw d₀ F endMark) d') : r.Keeps d d' := by
  obtain ⟨hclaim, hraw, hsec⟩ := hw.geometry.keeps_claim hfr hout
  have hne : ∀ c, r.Taken d c → c ≠ F := by
    rintro c hc rfl
    exact hc.raw (hk.free c hc.numbered (numbered_of_free hfr).2.1)
  refine ⟨fun c hc => ?_, fun c hc s hs => ?_, fun c hc h0 => hk.free c hc (hclaim.free c hc h0)⟩
  · rw [hraw c hc.numbered.2, if_neg (hne c hc), hk.raw c hc]
  · rw [hsec c hc.numbered (hne c hc) s hs, hk.sectors c hc s hs]

theorem Keeps.grows_extended (hD : D = pre ++ [z])
    (hfr : r.freeClusters d₀ = F :: t) (hFd : r.OnDisk F) (hout : r.Outside F (r.setRaw d₀ F endMark) d₁)
    (hzero : ∀ s < r.sectorsPerCluster, d₁ (r.clusterToLba F + s) = fun _ => 0) (he : e.length = 32) :
    r.Grows d (r.putSlot (r.setRaw d₁ z F) F 0 e) n D [F] (some e) := by
  have g := hw.geometry
  have htaken := hp.taken hw
  obtain ⟨hF, hF0, hF256⟩ := numbered_of_free hfr
  have hne : ∀ c, r.Taken d c → c ≠ F := by
    rintro c hc rfl
    exact hc.raw (hk.free c hc.numbered hF0)
  have hzD : z ∈ D := hD ▸ mem_append_right _ mem_cons_self
  have hz := htaken z hzD
  have hpos := g.sectors
  have hn := g.numbers
  have hF2 := hF.2
  obtain ⟨hraw, hsec, -⟩ := g.extended_spec hfr hout hz.numbered (by rw [hk.raw z hz]; exact hz.raw) e
  refine ⟨fun x hx hxD => ⟨?_, fun s hs => ?_⟩, ?_, fun c hc => ?_, F, 0, fun x hx j hj => .inl ?_,
    fun x hx j hj => ?_⟩
  · have hxz : x ≠ z := by
      rintro rfl
      exact hxD hzD
    rw [hraw x hx.numbered.2, if_neg hxz, if_neg (hne x hx), hk.raw x hx]
  · rw [hsec x hx.numbered (hne x hx) s hs, hk.sectors x hx s hs]
  · have hFlink : r.link (r.putSlot (r.setRaw d₁ z F) F 0 e) F = none := by
      apply link_endMark
      rw [hraw F hF.2, if_neg (fun h => hne z hz h.symm), if_pos rfl]
    have hzlink : r.link (r.putSlot (r.setRaw d₁ z F) F 0 e) z = some F := by
      unfold link
      rw [hraw z hz.numbered.2, if_pos rfl, Nat.mod_eq_of_lt (by omega), if_pos (g.inChain hF)]
    have hchain := hk.chain hw hp
    subst hD
    rw [append_assoc]
    refine hchain.concat (fun y hy => link_congr ?_) hzlink (.last hFlink)
    have hyD : y ∈ pre ++ [z] := mem_append_left _ hy
    have hyz : y ≠ z := by
      rintro rfl
      exact (disjoint_of_nodup_append hp.chain.nodup) hy mem_cons_self
    rw [hraw y (htaken y hyD).numbered.2, if_neg hyz, if_neg (hne y (htaken y hyD))]
  · rw [mem_singleton.mp hc]
    exact ⟨hF, hFd, hk.free F hF hF0⟩
  · rw [slot_congr hj (hsec x (htaken x hx).numbered (hne x (htaken x hx))), hk.slot (htaken x hx) hj]
  · have hxF := mem_singleton.mp hx
    subst hxF
    rw [g.slot_putSlot hF hF (by omega) hj he]
    by_cases hj0 : j = 0
    · rw [if_pos ⟨rfl, hj0⟩]
      exact .inr ⟨rfl, hj0, rfl⟩
    rw [if_neg (fun h => hj0 h.2)]
    refine .inl ?_
    have hle := g.data_le_lba hF
    unfold Fat32Reader.slot
    rw [g.setRaw_data hz.numbered.2 _ (by omega), hzero _ (by omega)]
    rfl

theorem Inserted.grows (h : Inserted r d₀ D e ok d') (he : e.length = 32) :
    ∃ ext, r.Grows d d' n D ext (some e) ∧ (∀ c ∈ ext, c ∈ r.freeClusters d₀) ∧
      ∀ c < r.fatSize * 128, c ∉ r.freeClusters d₀ → c ∉ D → r.raw d' c = r.raw d₀ c := by
  have g := hw.geometry
  have htaken := hp.taken hw
  cases h with
  | @placed pre post c i hD _ hfirst =>
    have hc : c ∈ D := hD ▸ mem_append_right _ mem_cons_self
    exact ⟨[], hk.grows_placed hw hp hc hfirst he, nofun,
      fun x hx _ _ => g.outside_raw (htaken c hc).numbered (outside_putSlot hfirst.lt e) hx⟩
  | noCluster _ _ => exact ⟨[], hk.grows hw hp _, nofun, fun _ _ _ _ => rfl⟩
  | @offDisk F t _ _ hfr _ hout =>
    refine ⟨[], (hk.claim hw hfr hout).grows hw hp _, nofun, fun c hc hcf _ => ?_⟩
    rw [(g.keeps_claim hfr hout).2.1 c hc, if_neg]
    rintro rfl
    exact hcf (hfr ▸ mem_cons_self)
  | @extended pre z F t d₁ hD _ hfr hFd hout hzero =>
    have hzD : z ∈ D := hD ▸ mem_append_right _ mem_cons_self
    have hz := htaken z hzD
    have hFmem : F ∈ r.freeClusters d₀ := hfr ▸ mem_cons_self
    refine ⟨[F], hk.grows_extended hw hp hD hfr hFd hout hzero he,
      fun c hc => mem_singleton.mp hc ▸ hFmem, ?_⟩
    intro c hc hcf hcD
    have hcz : c ≠ z := by
      rintro rfl
      exact hcD hzD
    have hcF : c ≠ F := by
      rintro rfl
      exact hcf hFmem
    rw [(g.extended_spec hfr hout hz.numbered (by rw [hk.raw z hz]; exact hz.raw) e).1 c hc,
      if_neg hcz, if_neg hcF]

end

end

end Fat32Reader

end BlockOS.Fat32
