import BlockOS.Fs.FatReadBack

/-! Writing a file with bytes and reading it back. -/

namespace BlockOS.Fat32
open Words Buffer Links Paths List
open Slot (isFree cluster fileSize make)

namespace Fat32Reader

theorem headD_slice (src : Nat → Byte) {length : Nat} (h : 0 < length) :
    (slice src 0 length).headD 0 = src 0 := by
  obtain ⟨m, rfl⟩ : ∃ m, length = 1 + m := ⟨length - 1, by omega⟩
  rw [slice_add]
  rfl

variable {r : Fat32Reader} {d d' d₁ : Disk} {k : Nat} {n : Node} {D : List Nat} {path t : List Byte}
  {F x length : Nat} {src src' : Nat → Byte}

section

variable (hw : r.WellFormed d) (hp : r.Directory d k n D)
include hw hp

omit hp in
theorem WellFormed.sectors_lt : r.sectorsPerCluster < 256 := by
  have hm := hw.mounted
  unfold initializeReader at hm
  dsimp only at hm
  cases hb : ({ r with isInitialized := false } : Fat32Reader).readSectors d 0 with
  | none => rw [hb] at hm; cases hm
  | some boot =>
    rw [hb] at hm
    dsimp only at hm
    split at hm
    · cases hm
    split at hm
    · cases hm
    split at hm
    · cases hm
    rw [← (Prod.mk.inj hm).2]
    show (boot 13).toNat + 256 * 0 < 256
    omega

omit hp in
theorem WellFormed.success_fits (hF : r.Numbered F) (hP : P < r.fatSize * 128)
    (hlen : 0 < length) (h : r.writeData src length F d₁ P = some (true, d')) :
    r.Fits F length 0 ∧ ∃ x ys, r.freeClusters d₁ = x :: ys := by
  obtain ⟨e, -, -, hcases⟩ := hw.geometry.round_cases hF src length d₁ hlen hP
  rw [writeData_eq] at h
  rcases hcases length with ⟨-, heq⟩ | ⟨-, -, heq⟩ | ⟨x, ys, hfits, hcons, -⟩
  · rw [heq] at h
    cases h
  · rw [heq] at h
    cases h
  · exact ⟨hfits, x, ys, hcons⟩

variable {c : Nat} {s : Slot}

theorem Directory.old_file (hF : r.Numbered F) (hF0 : r.raw d F = 0)
    (ht : toShortName (finalComponent path) = some t) (hc : c ∈ D) (hs : s ∈ r.slots d c)
      (hfree : isFree s = false)
    (hname : isFileNamed t s = true) (hin : InChain (cluster s)) :
    r.clusterToLba (cluster s) ≠ r.clusterToLba F := by
  intro hlba
  have g := hw.geometry
  obtain ⟨i, hi, rfl⟩ := mem_slots.mp hs
  unfold isFileNamed at hname
  rw [Bool.and_eq_true, Bool.and_eq_true, beq_iff_eq] at hname
  have hlisted : Listed r d (k + 1) (some (c, i)) :=
    .entry hp.listed hp.dir hp.chain hc hi ⟨hfree, hname.1.1, lead_ne_dot ht hname.2⟩
  obtain ⟨l, hl, -, htaken⟩ := hw.owned _ _ hlisted
  have hstart : r.start d (some (c, i)) = cluster (r.slot d c i) := rfl
  unfold ChainOf at hl
  rw [hstart, if_neg (by have := hin.1; omega)] at hl
  have hmem := htaken _ hl.start_mem
  have heq := (g.lba_inj hmem.numbered hF g.sectors g.sectors (by rw [hlba])).1
  rw [heq] at hmem
  exact hmem.raw hF0

omit hp in
theorem WellFormed.same_entry (hlen : 0 < length)
    (he : ∀ lba, lba ≠ r.clusterToLba F → e' lba = e lba) (hne : src 0 ≠ src' 0)
    (h : r.readEntry e s = some (some (slice src 0 length)))
      (h' : r.readEntry e' s = some (some (slice src' 0 length))) :
    InChain (cluster s) ∧ r.clusterToLba (cluster s) = r.clusterToLba F ∧ fileSize s = length := by
  have g := hw.geometry
  have hsize : fileSize s = length := by
    have := readEntry_length h
    rw [length_slice] at this
    exact this.symm
  obtain ⟨hin, h1⟩ := readEntry_head g h (by omega)
  obtain ⟨-, h2⟩ := readEntry_head g h' (by omega)
  rw [headD_slice _ hlen] at h1 h2
  refine ⟨hin, ?_, hsize⟩
  by_contra hlba
  rw [he _ hlba] at h2
  exact hne (h1.trans h2.symm)

def marked : Nat → Byte := fun i => if i = 0 then 1 else 0

omit hw hp in
theorem marked_of_pos (h : 1 ≤ i) : marked i = 0 := if_neg (by omega)

structure Entered (r : Fat32Reader) (d d₁ : Disk) (D : List Nat) (F x length : Nat) : Prop where
  file : r.Numbered F
  fileFree : r.raw d F = 0
  next : r.Numbered x
  nextFree : r.raw d x = 0
  head : ∃ ys, r.freeClusters d₁ = x :: ys
  beside : r.Beside d d₁ D
  pos : 0 < length
  fits : r.Fits F length 0

structure OneRound (r : Fat32Reader) (d₁ : Disk) (P F x length : Nat) (src : Nat → Byte)
    (d' : Disk) : Prop where
  written : r.writeData src length F d₁ P = some (true, d')
  outside : r.Outside F (r.setRaw (r.setRaw d₁ P x) x endMark) d'
  data : ∀ s < r.sectorsPerCluster, d' (r.clusterToLba F + s)
    = if 512 * s < length then fun i => src (512 * s + i) else d₁ (r.clusterToLba F + s)

variable (he : r.Entered d d₁ D F x length)
include he

theorem Entered.oneRound (hlen : length ≤ 512 * r.sectorsPerCluster) (src : Nat → Byte) :
    ∃ d', r.OneRound d₁ (r.start d n) F x length src d' := by
  obtain ⟨ys, hfr⟩ := he.head
  have hP := (hp.taken hw _ hp.chain.start_mem).numbered
  obtain ⟨d', h, hout, hdata⟩ := hw.geometry.writeData_one he.file hP.2 he.pos hlen he.fits hfr src
  exact ⟨d', h, hout, hdata⟩

variable (ho : r.OneRound d₁ (r.start d n) F x length src d')
include ho

theorem OneRound.sector (hc : r.Numbered c) (hcF : c ≠ F) {s : Nat} (hs : s < r.sectorsPerCluster) :
    d' (r.clusterToLba c + s) = d₁ (r.clusterToLba c + s) := by
  have g := hw.geometry
  have hP := (hp.taken hw _ hp.chain.start_mem).numbered
  have hle := g.data_le_lba hc
  rw [g.outside_sector he.file hc hcF ho.outside hs, g.setRaw_data he.next.2 _ (by omega),
    g.setRaw_data hP.2 _ (by omega)]

omit hp in
theorem OneRound.raw_eq (hc : c < r.fatSize * 128) :
    r.raw d' c = if c = x then endMark else if c = r.start d n then x else r.raw d₁ c := by
  have g := hw.geometry
  have hn := g.numbers
  have hx := he.next.2
  rw [g.outside_raw he.file ho.outside hc, raw_setRaw _ x c (by decide), raw_setRaw d₁ _ c (by omega)]

theorem OneRound.beside : r.Beside d d' D := by
  intro c hc hcD
  obtain ⟨hraw, hsec⟩ := he.beside c hc hcD
  have hcx : c ≠ x := fun h => hc.raw (h ▸ he.nextFree)
  have hcF : c ≠ F := fun h => hc.raw (h ▸ he.fileFree)
  have hcP : c ≠ r.start d n := fun h => hcD (h ▸ hp.chain.start_mem)
  refine ⟨?_, fun s hs => ?_⟩
  · rw [ho.raw_eq hw he hc.numbered.2, if_neg hcx, if_neg hcP, hraw]
  · rw [ho.sector hw hp he hc.numbered hcF hs, hsec s hs]

section

variable (hk : k = (parentPieces path).length) (hpar : r.getParentDirectoryCluster d path =
  some (some (r.start d n)))
  (hres : r.resolveFrom d (parentPieces path) r.rootClusterNum = some (some (r.start d n)))
  (ht : toShortName (finalComponent path) = some t)
include hk hpar hres ht

theorem OneRound.read : r.readFile d' path
    = (r.lookBoth d' (isFileNamed t) (r.start d n) x).elim (some none) (r.readEntry d') := by
  have g := hw.geometry
  have hP := hp.taken hw _ hp.chain.start_mem
  have hPx : r.start d n ≠ x := fun h => hP.raw (h ▸ he.nextFree)
  have hraw := fun c hc => ho.raw_eq hw he (c := c) hc
  refine readFile_eq g ((ho.beside hw hp he).getParent hw hp hk hpar hres) ht ?_
  refine lookChain_two g hP.numbered he.next ?_ ?_ _
  · rw [hraw _ hP.numbered.2, if_neg hPx, if_pos rfl]
  · rw [hraw _ he.next.2, if_pos rfl]

end

omit hw hp he in
theorem OneRound.differ (ho' : r.OneRound d₁ (r.start d n) F x length src' d'')
    (hsrc : ∀ i ≥ 1, src i = src' i) (hlba : lba ≠ r.clusterToLba F) : d'' lba = d' lba := by
  by_cases hin : ∃ s < r.sectorsPerCluster, lba = r.clusterToLba F + s
  · obtain ⟨s, hs, rfl⟩ := hin
    rw [ho.data s hs, ho'.data s hs]
    split
    · funext i
      exact (hsrc _ (by omega)).symm
    · rfl
  · have hout : ∀ s < r.sectorsPerCluster, lba ≠ r.clusterToLba F + s := fun s hs h => hin ⟨s, hs, h⟩
    rw [ho.outside lba hout, ho'.outside lba hout]

omit hp in
theorem OneRound.entry_read (hlen : length ≤ 512 * r.sectorsPerCluster)
    (hsize : fileSize s = length)
    (hin : InChain (cluster s)) (hlba : r.clusterToLba (cluster s) = r.clusterToLba F) :
    r.readEntry d' s = some (some (slice src 0 length)) := by
  refine hw.geometry.readEntry_back he.file src he.pos hlen he.fits (fun j hj hlt => ?_) hsize hin hlba
  rw [ho.data j hj, if_pos hlt]

end

def AllBack (r : Fat32Reader) (d₁ : Disk) (path : List Byte) (P F x length : Nat) : Prop :=
  ∀ src d', r.OneRound d₁ P F x length src d' → r.readFile d' path = some (some (slice src 0 length))

theorem lookBoth_of_found (h : (r.lookCluster d want P).found = some s) (x : Nat) :
    r.lookBoth d want P x = some s := by
  unfold lookBoth
  cases hl : r.lookCluster d want P with
  | hit s' =>
    rw [hl] at h
    exact h
  | ended =>
    rw [hl] at h
    cases h
  | more =>
    rw [hl] at h
    cases h

section

variable (hw : r.WellFormed d) (hp : r.Directory d k n D) (he : r.Entered d d₁ D F x length)
  (hlen : length ≤ 512 * r.sectorsPerCluster) (hk : k = (parentPieces path).length)
  (hpar : r.getParentDirectoryCluster d path = some (some (r.start d n)))
  (hres : r.resolveFrom d (parentPieces path) r.rootClusterNum = some (some (r.start d n)))
  (ht : toShortName (finalComponent path) = some t)
include hw hp he hlen hk hpar hres ht

theorem AllBack.found_entry (hall : r.AllBack d₁ path (r.start d n) F x length)
    (hlook : ∀ src d', r.OneRound d₁ (r.start d n) F x length src d' →
      r.lookBoth d' (isFileNamed t) (r.start d n) x = some s) :
    InChain (cluster s) ∧ r.clusterToLba (cluster s) = r.clusterToLba F ∧ fileSize s = length := by
  have hread : ∀ src d', r.OneRound d₁ (r.start d n) F x length src d' →
      r.readEntry d' s = some (some (slice src 0 length)) := by
    intro src d' ho
    have h := hall src d' ho
    rw [ho.read hw hp he hk hpar hres ht, hlook src d' ho] at h
    exact h
  obtain ⟨a, ha⟩ := he.oneRound hw hp hlen fun _ => 0
  obtain ⟨b, hb⟩ := he.oneRound hw hp hlen marked
  exact hw.same_entry he.pos (fun lba hlba => ha.differ hb (fun i hi => (marked_of_pos hi).symm)
    hlba) (by decide)
    (hread _ a ha) (hread _ b hb)

omit hlen in
theorem AllBack.found_some (hall : r.AllBack d₁ path (r.start d n) F x length)
    (ho : r.OneRound d₁ (r.start d n) F x length src d') :
    ∃ s, r.lookBoth d' (isFileNamed t) (r.start d n) x = some s := by
  have h := hall src d' ho
  rw [ho.read hw hp he hk hpar hres ht] at h
  cases hs : r.lookBoth d' (isFileNamed t) (r.start d n) x with
  | some s => exact ⟨s, rfl⟩
  | none =>
    rw [hs] at h
    cases h

theorem AllBack.not_old (hall : r.AllBack d₁ path (r.start d n) F x length)
    (hs : s ∈ r.slots d (r.start d n)) (hfree : isFree s = false) (hname : isFileNamed t s = true)
    (hlook : ∀ src d', r.OneRound d₁ (r.start d n) F x length src d' →
      (r.lookCluster d' (isFileNamed t) (r.start d n)).found = some s) : False := by
  obtain ⟨hin, hlba, -⟩ := hall.found_entry hw hp he hlen hk hpar hres ht
    fun src d' ho => lookBoth_of_found (hlook src d' ho) x
  exact hp.old_file hw he.file he.fileFree ht hp.chain.start_mem hs hfree hname hin hlba

omit hlen hk hpar hres ht in
theorem OneRound.look_first (ho : r.OneRound d₁ (r.start d n) F x length src d')
    (want : Slot → Bool) :
    r.lookCluster d' want (r.start d n) = lookSlots want (r.slots d₁ (r.start d n)) := by
  have hP := hp.taken hw _ hp.chain.start_mem
  have hPF : r.start d n ≠ F := fun h => hP.raw (h ▸ he.fileFree)
  rw [hw.geometry.lookCluster_eq hP.numbered hP.onDisk, slots_congr fun s hs =>
    ho.sector hw hp he hP.numbered hPF hs]

theorem Entered.back_first (hpath : (0 : Byte) ∉ path) (hfirst : r.FirstFree d (r.start d n) i)
    (hd₁ : d₁ = r.putSlot d (r.start d n) i (make t 0x20 F length)) :
    r.AllBack d₁ path (r.start d n) F x length ↔ r.shadow d t [r.start d n] = none ∧
      t.headD 0 ≠ 0xE5 := by
  have g := hw.geometry
  have hn := g.numbers
  have hF2 := he.file.2
  have hlt := hw.sectors_lt
  have hP := hp.taken hw _ hp.chain.start_mem
  obtain ⟨htlen, -⟩ := toShortName_spec ht
  obtain ⟨B, R, R', hB, hR, hR'⟩ := hfirst.slots_put g hP.numbered (Slot.length_make htlen 0x20 F length)
  have hshadow : r.shadow d t [r.start d n] = B.find? (isFileNamed t) := by
    unfold shadow
    rw [flatMap_singleton, hR, takeWhile_cut hB hfirst.free]
  have hlook : ∀ src d', r.OneRound d₁ (r.start d n) F x length src d' →
      (r.lookCluster d' (isFileNamed t) (r.start d n)).found
        = (B.find? (isFileNamed t)).or
          (if t.headD 0 = 0xE5 then none else some (make t 0x20 F length)) := by
    intro src d' ho
    rw [ho.look_first hw hp he, hd₁, hR', lookSlots_new htlen (headD_ne_zero hpath ht) F length hB]
  rw [hshadow]
  cases hfind : B.find? (isFileNamed t) with
  | some s =>
    refine ⟨fun hall => ?_, nofun⟩
    have hsB := mem_of_find?_eq_some hfind
    refine (hall.not_old hw hp he hlen hk hpar hres ht ?_ (hB s hsB) (find?_some hfind) fun src d'
      ho => ?_).elim
    · rw [hR]
      exact mem_append_left _ hsB
    · rw [hlook src d' ho, hfind]
      rfl
  | none =>
    by_cases h5 : t.headD 0 = 0xE5
    · refine ⟨fun hall => ?_, fun h => absurd h5 h.2⟩
      obtain ⟨d', ho⟩ := he.oneRound hw hp hlen fun _ => 0
      obtain ⟨s, hs⟩ := hall.found_some hw hp he hk hpar hres ht ho
      rw [lookBoth_deleted htlen h5] at hs
      cases hs
    · refine ⟨fun _ => ⟨rfl, h5⟩, fun _ src d' ho => ?_⟩
      have hfound := hlook src d' ho
      rw [hfind, Option.none_or, if_neg h5] at hfound
      rw [ho.read hw hp he hk hpar hres ht, lookBoth_of_found hfound]
      have hcl := Slot.cluster_make htlen 0x20 F length (by omega)
      refine ho.entry_read hw he hlen ?_ ?_ ?_
      · rw [Slot.fileSize_make htlen, Nat.mod_eq_of_lt (by omega)]
      · rw [hcl]
        exact g.inChain he.file
      · rw [hcl]

omit hp hlen hk hpar hres ht in
theorem OneRound.look_zeros (ho : r.OneRound d₁ (r.start d n) F x length (fun _ => 0) d')
    (want : Slot → Bool) :
    r.lookCluster d' want F = .ended := by
  have g := hw.geometry
  obtain ⟨m, hm⟩ : ∃ m, r.sectorsPerCluster = m + 1 :=
    ⟨r.sectorsPerCluster - 1, by have := g.sectors; omega⟩
  have ha := he.fits 0 g.sectors (by have := he.pos; omega)
  have hzero := ho.data 0 g.sectors
  rw [if_pos (by have := he.pos; omega)] at hzero
  rw [Nat.add_zero] at ha hzero
  unfold lookCluster
  rw [range_eq_range', hm, List.range'_succ, lookSectors, u32_clusterToLba, readSectors, if_pos ha,
    hzero, g.bytes]
  rfl

theorem Entered.not_back_later (hfull : r.Full d (r.start d n)) (hxF : x = F)
    (hslots : r.slots d₁ (r.start d n) = r.slots d (r.start d n)) : ¬ r.AllBack d₁ path
      (r.start d n) F x length := by
  intro hall
  have hlook : ∀ src d', r.OneRound d₁ (r.start d n) F x length src d' →
      r.lookCluster d' (isFileNamed t) (r.start d n)
        = ((r.slots d (r.start d n)).find? (isFileNamed t)).elim .more .hit := by
    intro src d' ho
    rw [ho.look_first hw hp he, hslots, lookSlots_taken _ (Full.slots hfull)]
  cases hfind : (r.slots d (r.start d n)).find? (isFileNamed t) with
  | some s =>
    have hs := mem_of_find?_eq_some hfind
    refine hall.not_old hw hp he hlen hk hpar hres ht hs (Full.slots hfull s hs) (find?_some hfind)
      fun src d' ho => ?_
    rw [hlook src d' ho, hfind]
    rfl
  | none =>
    obtain ⟨d', ho⟩ := he.oneRound hw hp hlen fun _ => 0
    obtain ⟨s, hs⟩ := hall.found_some hw hp he hk hpar hres ht ho
    unfold lookBoth at hs
    rw [hlook _ d' ho, hfind, hxF] at hs
    rw [ho.look_zeros hw he] at hs
    cases hs

theorem Entered.back_full (hxF : x ≠ F)
    (hsec : ∀ c, r.Numbered c → c ≠ F → ∀ s < r.sectorsPerCluster,
      d₁ (r.clusterToLba c + s) = d (r.clusterToLba c + s)) :
    r.AllBack d₁ path (r.start d n) F x length ↔ ∃ s, r.lookBoth d (isFileNamed t) (r.start d n) x =
      some s ∧
      InChain (cluster s) ∧ r.clusterToLba (cluster s) = r.clusterToLba F ∧ fileSize s = length := by
  have g := hw.geometry
  have hP := hp.taken hw _ hp.chain.start_mem
  have hPF : r.start d n ≠ F := fun h => hP.raw (h ▸ he.fileFree)
  have hlook : ∀ src d', r.OneRound d₁ (r.start d n) F x length src d' →
      r.lookBoth d' (isFileNamed t) (r.start d n) x = r.lookBoth d (isFileNamed t) (r.start d n) x := by
    intro src d' ho
    have hcl : ∀ c, r.Numbered c → c ≠ F →
        r.lookCluster d' (isFileNamed t) c = r.lookCluster d (isFileNamed t) c := by
      intro c hc hcF
      refine lookCluster_congr g hc _ fun s hs => ?_
      rw [ho.sector hw hp he hc hcF hs, hsec c hc hcF s hs]
    unfold lookBoth
    rw [hcl _ hP.numbered hPF, hcl _ he.next hxF]
  constructor
  · intro hall
    obtain ⟨d', ho⟩ := he.oneRound hw hp hlen fun _ => 0
    obtain ⟨s, hs⟩ := hall.found_some hw hp he hk hpar hres ht ho
    rw [hlook _ d' ho] at hs
    exact ⟨s, hs, hall.found_entry hw hp he hlen hk hpar hres ht fun src d' ho =>
      (hlook src d' ho).trans hs⟩
  · rintro ⟨s, hs, hin, hlba, hsize⟩ src d' ho
    rw [ho.read hw hp he hk hpar hres ht, hlook src d' ho, hs]
    exact ho.entry_read hw he hlen hsize hin hlba

omit hk hpar hres ht in
theorem Entered.allBack_iff : r.AllBack d₁ path (r.start d n) F x length ↔
    ∀ src d', r.writeData src length F d₁ (r.start d n) = some (true, d') →
      r.readFile d' path = some (some (slice src 0 length)) := by
  refine ⟨fun hall src d' h => ?_, fun h src d' ho => h src d' ho.written⟩
  obtain ⟨d'', ho⟩ := he.oneRound hw hp hlen src
  cases h.symm.trans ho.written
  exact hall src d' ho

end

section

variable (hw : r.WellFormed d) (hp : r.Directory d k n D)
include hw hp

theorem Entered.not_back_long (he : r.Entered d d₁ D F x length)
    (hlen : 512 * r.sectorsPerCluster < length)
    (hsucc : ∃ src d', r.writeData src length F d₁ (r.start d n) = some (true, d')) :
    ¬ ∀ src d', r.writeData src length F d₁ (r.start d n) = some (true, d') →
      r.readFile d' path = some (some (slice src 0 length)) := by
  intro h
  have g := hw.geometry
  have hP := (hp.taken hw _ hp.chain.start_mem).numbered
  obtain ⟨src, d', hsrc⟩ := hsucc
  obtain ⟨ys, hfr⟩ := he.head
  obtain ⟨a, ha⟩ := g.writeData_sim he.file hP.2 hsrc fun _ => 0
  have hsame := g.writeData_forgets he.file hP.2 hlen he.fits hfr fun i hi => (marked_of_pos hi).symm
  have heq : slice (fun _ => 0) 0 length = slice marked 0 length :=
    Option.some.inj (Option.some.inj ((h _ a ha).symm.trans (h marked a (hsame.symm.trans ha))))
  have hhead : (slice (fun _ => 0) 0 length).headD 0 = (slice marked 0 length).headD 0 := by rw [heq]
  rw [headD_slice _ he.pos, headD_slice _ he.pos] at hhead
  cases hhead

theorem Inserted.entered (hins : Inserted r d D e true d₁) (he : e.length = 32)
    (hpos : 0 < length) (hfr : r.freeClusters d = F :: rest)
    (hsucc : ∃ src d', r.writeData src length F d₁ (r.start d n) = some (true, d')) :
    ∃ x, r.Entered d d₁ D F x length ∧
      ((∃ pre post c i, D = pre ++ c :: post ∧ (∀ y ∈ pre, r.Full d y) ∧ r.FirstFree d c i ∧ x = F ∧
          d₁ = r.putSlot d c i e) ∨
        ((∀ c ∈ D, r.Full d c) ∧ rest.head? = some x ∧ ∀ c, r.Numbered c → c ≠ F →
          ∀ s < r.sectorsPerCluster,
          d₁ (r.clusterToLba c + s) = d (r.clusterToLba c + s))) := by
  have g := hw.geometry
  obtain ⟨hF, hF0, -⟩ := numbered_of_free hfr
  have hP := (hp.taken hw _ hp.chain.start_mem).numbered
  obtain ⟨src, d', hsrc⟩ := hsucc
  obtain ⟨hfits, x, ys, hx⟩ := hw.success_fits hF hP.2 hpos hsrc
  refine ⟨x, ?_⟩
  cases hins with
  | @placed pre post c i hD hpre hfirst =>
    have hc : c ∈ D := hD ▸ mem_append_right _ mem_cons_self
    have hfree := g.outside_free (hp.taken hw c hc).numbered (outside_putSlot (d := d) hfirst.lt e)
    rw [hfr] at hfree
    cases hfree.symm.trans hx
    exact ⟨⟨hF, hF0, hF, hF0, ⟨_, hx⟩, (Keeps.refl.grows_placed hw hp hc hfirst he).same, hpos,
      hfits⟩, .inl ⟨pre, post, c, i, hD, hpre, hfirst, rfl, rfl⟩⟩
  | @extended pre z F' rest' d₀ hD hfull hfr' hFd hout hzero =>
    cases hfr.symm.trans hfr'
    have hz := hp.taken hw z (hD ▸ mem_append_right _ mem_cons_self)
    obtain ⟨-, hsec, hfree⟩ := g.extended_spec hfr hout hz.numbered hz.raw e
    have hrest := hfree.symm.trans hx
    obtain ⟨-, -, hx0⟩ := mem_freeClusters.mp (show x ∈ r.freeClusters d by rw [hfr, hrest]; simp)
    exact ⟨⟨hF, hF0, (numbered_of_free hx).1, hx0, ⟨ys, hx⟩,
      (Keeps.refl.grows_extended hw hp hD hfr hFd hout hzero he).same, hpos, hfits⟩,
      .inr ⟨hfull, by rw [hrest]; rfl, hsec⟩⟩

variable (hk : k = (parentPieces path).length) (hpar : r.getParentDirectoryCluster d path =
  some (some (r.start d n)))
  (hres : r.resolveFrom d (parentPieces path) r.rootClusterNum = some (some (r.start d n)))
  (ht : toShortName (finalComponent path) = some t) (hpath : (0 : Byte) ∉ path)
include hk hpar hres ht hpath

theorem Directory.data_back (hpos : 0 < length) (hfr : r.freeClusters d = F :: rest)
    (hins : Inserted r d D (make t 0x20 F length) true d₁)
    (hsucc : ∃ src d', r.writeData src length F d₁ (r.start d n) = some (true, d')) :
    (∀ src d', r.writeData src length F d₁ (r.start d n) = some (true, d') →
      r.readFile d' path = some (some (slice src 0 length))) ↔
        r.DataBack d t (r.start d n) D length := by
  have g := hw.geometry
  obtain ⟨htlen, -⟩ := toShortName_spec ht
  have helen := Slot.length_make htlen 0x20 F length
  obtain ⟨x, he, hcases⟩ := hins.entered hw hp helen hpos hfr hsucc
  by_cases hlen : length ≤ 512 * r.sectorsPerCluster
  · rw [← he.allBack_iff hw hp hlen]
    rcases hcases with ⟨pre, post, c, i, hD, hpre, hfirst, hxF, hd₁⟩ | ⟨hfull, hx, hsec⟩
    · have hcD : c ∈ D := hD ▸ mem_append_right _ mem_cons_self
      have hcfull : ¬ r.Full d c := by
        intro h
        have hi := h i hfirst.lt
        rw [hfirst.free] at hi
        cases hi
      have hnot : ¬ ∀ c ∈ D, r.Full d c := fun h => hcfull (h c hcD)
      cases pre with
      | nil =>
        -- the chain starts with the cluster that has the free slot
        obtain ⟨l, hl⟩ := hp.chain.eq_cons
        rw [hl] at hD
        obtain ⟨hc, -⟩ := List.cons.inj hD
        subst hc
        rw [he.back_first hw hp hlen hk hpar hres ht hpath hfirst hd₁]
        exact ⟨fun h => ⟨hlen, .inl ⟨hcfull, h⟩⟩, fun h => h.2.elim (fun h => h.2) fun h =>
          absurd h.1 hnot⟩
      | cons y pre =>
        obtain ⟨l, hl⟩ := hp.chain.eq_cons
        have hD' := hD
        rw [hl] at hD'
        obtain ⟨hy, -⟩ := List.cons.inj hD'
        have hPfull : r.Full d (r.start d n) := hy ▸ hpre y mem_cons_self
        have hPc : r.start d n ≠ c := fun h => hcfull (h ▸ hPfull)
        have hslots : r.slots d₁ (r.start d n) = r.slots d (r.start d n) := by
          rw [hd₁]
          exact slots_congr fun s hs => g.outside_sector (hp.taken hw c hcD).numbered
            (hp.taken hw _ hp.chain.start_mem).numbered hPc (outside_putSlot hfirst.lt _) hs
        refine ⟨fun h => absurd h (he.not_back_later hw hp hlen hk hpar hres ht hPfull hxF hslots),
          fun h => ?_⟩
        exact h.2.elim (fun h => absurd hPfull h.1) fun h => absurd h.1 hnot
    · obtain ⟨ys, rfl⟩ : ∃ ys, rest = x :: ys := head?_eq_some_iff.mp hx
      have hxF : x ≠ F := by
        have hnd := nodup_freeClusters (r := r) (d := d)
        rw [hfr] at hnd
        rintro rfl
        exact (nodup_cons.mp hnd).1 mem_cons_self
      rw [he.back_full hw hp hlen hk hpar hres ht hxF hsec]
      constructor
      · rintro ⟨s, hs⟩
        exact ⟨hlen, .inr ⟨hfull, F, x, ys, s, hfr, hs⟩⟩
      rintro ⟨-, ⟨hn, -⟩ | ⟨-, F', x', ys', s, hfr', hs⟩⟩
      · exact absurd (hfull _ hp.chain.start_mem) hn
      · cases hfr.symm.trans hfr'
        exact ⟨s, hs⟩
  · exact ⟨fun h => absurd h (he.not_back_long hw hp (by omega) hsucc), fun h => absurd h.1 hlen⟩

end

theorem WellFormed.writeFile_cases (hw : r.WellFormed d) (path : List Byte) (length : Nat) :
    (∀ src d', r.writeFile d path src length ≠ some (true, d')) ∨
    ∃ n D t, r.getParentDirectoryCluster d path = some (some (r.start d n)) ∧
      r.Directory d (parentPieces path).length n D ∧
      r.resolveFrom d (parentPieces path) r.rootClusterNum = some (some (r.start d n)) ∧
      toShortName (finalComponent path) = some t ∧
      ((length = 0 ∧ ∃ d₁, Inserted r d D (make t 0x20 0 0) true d₁ ∧
          ∀ src, r.writeFile d path src length = some (true, d₁)) ∨
        (0 < length ∧ ∃ F rest d₁, r.freeClusters d = F :: rest ∧
          Inserted r d D (make t 0x20 F length) true d₁ ∧
          ∀ src, r.writeFile d path src length = r.writeData src length F d₁ (r.start d n))) := by
  have g := hw.geometry
  have hready : ¬ (!r.isInitialized) = true := by
    rw [g.ready]
    decide
  rcases hw.parent_cases path with hpar | ⟨n, D, hpar, hp, hres⟩
  · refine .inl fun src d' h => ?_
    rw [writeFile, if_neg hready, hpar] at h
    cases h
  cases ht : toShortName (finalComponent path) with
  | none =>
    refine .inl fun src d' h => ?_
    rw [writeFile, if_neg hready, hpar, ht] at h
    cases h
  | some t =>
    by_cases hlen : length = 0
    · obtain ⟨ok, d₁, heq, hins⟩ := hw.insert_directory hp .refl (make t 0x20 0 0)
      have hrun : ∀ src, r.writeFile d path src length = some (ok, d₁) := by
        intro src
        rw [writeFile, if_neg hready, hpar, ht]
        dsimp only
        rw [if_pos hlen, heq]
      cases ok with
      | false =>
        refine .inl fun src d' h => ?_
        rw [hrun] at h
        cases h
      | true => exact .inr ⟨n, D, t, hpar, hp, hres, rfl, .inl ⟨hlen, d₁, hins, hrun⟩⟩
    cases hfr : r.freeClusters d with
    | nil =>
      refine .inl fun src d' h => ?_
      rw [writeFile, if_neg hready, hpar, ht] at h
      dsimp only at h
      rw [if_neg hlen, g.getFirstFreeCluster_eq, hfr] at h
      cases h
    | cons F rest =>
      have hF2 := (numbered_of_free hfr).1.2
      have hn := g.numbers
      have hfirst : r.getFirstFreeCluster d = F := by
        rw [g.getFirstFreeCluster_eq, hfr]
        rfl
      obtain ⟨ok, d₁, heq, hins⟩ := hw.insert_directory hp .refl (make t 0x20 F length)
      have hrun : ∀ src, r.writeFile d path src length
          = if ok then r.writeData src length F d₁ (r.start d n) else some (false, d₁) := by
        intro src
        rw [writeFile, if_neg hready, hpar, ht]
        dsimp only
        rw [if_neg hlen, hfirst, if_neg (by omega), heq]
        cases ok <;> rfl
      cases ok with
      | false =>
        refine .inl fun src d' h => ?_
        rw [hrun] at h
        cases h
      | true =>
        exact .inr ⟨n, D, t, hpar, hp, hres, rfl,
          .inr ⟨Nat.pos_of_ne_zero hlen, F, rest, d₁, rfl, hins, hrun⟩⟩

theorem Directory.readsBack_iff (hp : r.Directory d k n D)
    (hpar : r.getParentDirectoryCluster d path = some (some (r.start d n)))
    (ht : toShortName (finalComponent path) = some t) :
    r.ReadsBack d path length ↔ if length = 0 then r.EmptyBack d t D else r.DataBack d t
      (r.start d n) D length := by
  refine ⟨fun h => h _ t D hpar ht hp.chain, fun h P t' D' hP ht' hD' => ?_⟩
  cases hpar.symm.trans hP
  cases ht.symm.trans ht'
  cases hp.chain.unique hD'
  exact h

end Fat32Reader

open Fat32Reader in
theorem reads_back_iff {r : Fat32Reader} {d : Disk} (hw : r.WellFormed d) {path : List Byte}
    (hpath : (0 : Byte) ∉ path)
    (length : Nat) :
    (∀ src d', r.writeFile d path src length = some (true, d') →
      r.readFile d' path = some (some (slice src 0 length))) ↔
      ((∃ src d', r.writeFile d path src length = some (true, d')) → r.ReadsBack d path length) := by
  rcases hw.writeFile_cases path length with hnone | ⟨n, D, t, hpar, hp, hres, ht, hcases⟩
  · exact ⟨fun _ ⟨src, d', h⟩ => absurd h (hnone src d'), fun _ src d' h => absurd h (hnone src d')⟩
  rw [hp.readsBack_iff hpar ht]
  rcases hcases with ⟨rfl, d₁, hins, heq⟩ | ⟨hpos, F, rest, d₁, hfr, hins, heq⟩
  · have hback := hp.empty_back hw rfl hpar hres ht hpath hins
    constructor
    · intro h _
      exact hback.mp (h (fun _ => 0) d₁ (heq _))
    intro h src d' hd'
    have hcond := h ⟨src, d', hd'⟩
    rw [heq] at hd'
    cases hd'
    exact hback.mpr hcond
  · have hback := hp.data_back hw rfl hpar hres ht hpath hpos hfr hins
    simp only [heq, if_neg (Nat.ne_of_gt hpos)]
    constructor
    · exact fun h hsucc => (hback hsucc).mp h
    · exact fun h src d' hd' => (hback ⟨src, d', hd'⟩).mpr (h ⟨src, d', hd'⟩) src d' hd'

theorem reads_back_home :
    (∃ d', blankReader.writeFile homeDisk [68, 47, 66] (fun _ => 7) 1 = some (true, d')) ∧
    ∀ src d', blankReader.writeFile homeDisk [68, 47, 66] src 1 = some (true, d') →
      blankReader.readFile d' [68, 47, 66] = some (some (slice src 0 1)) := by
  constructor
  · have hrun : (blankReader.writeFile homeDisk [68, 47, 66] (fun _ => 7) 1).map Prod.fst =
        some true := by
      decide +kernel
    obtain ⟨⟨_, d'⟩, heq, rfl⟩ := Option.map_eq_some_iff.mp hrun
    exact ⟨d', heq⟩
  refine (reads_back_iff home_wellFormed (by decide) 1).mpr fun _ P t D hP ht _ => ?_
  have hparent : blankReader.getParentDirectoryCluster homeDisk [68, 47, 66] = some (some 4) :=
    by decide +kernel
  have hname : toShortName (finalComponent [68, 47, 66]) = some (66 :: List.replicate 10 32) :=
    by decide +kernel
  cases hparent.symm.trans hP
  cases hname.symm.trans ht
  exact ⟨by decide, .inl ⟨fun h => absurd (h 2 (by decide)) (by decide +kernel), by decide +kernel, by decide⟩⟩

theorem long_file_lost : blankReader.WellFormed blankDisk ∧
    ∃ d', blankReader.writeFile blankDisk [65] (fun _ => 7) 513 = some (true, d') ∧
      blankReader.readFile d' [65] = some none := by
  refine ⟨blank_wellFormed, ?_⟩
  have hrun : (blankReader.writeFile blankDisk [65] (fun _ => 7) 513).map
      (fun x => (x.1, blankReader.readFile x.2 [65])) = some (true, some none) := by decide +kernel
  obtain ⟨⟨ok, d'⟩, heq, hres⟩ := Option.map_eq_some_iff.mp hrun
  obtain ⟨rfl, hread⟩ := Prod.mk.inj hres
  exact ⟨d', heq, hread⟩

end BlockOS.Fat32
