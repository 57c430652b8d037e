import BlockOS.Fs.FatSource

/-! Reading a file back after it was written. -/

namespace BlockOS.Fat32
open Words Buffer Links Paths List
open Slot (isFree fileSize cluster make)

namespace Fat32Reader

variable (r : Fat32Reader) (d : Disk)

def shadow (t : List Byte) (l : List Nat) : Option Slot :=
  ((l.flatMap (r.slots d)).takeWhile fun s => !isFree s).find? (isFileNamed t)

def lookBoth (want : Slot → Bool) (P x : Nat) : Option Slot :=
  match r.lookCluster d want P with
  | .hit s => some s
  | .ended => none
  | .more => (r.lookCluster d want x).found

def EmptyBack (t : List Byte) (D : List Nat) : Prop :=
  match r.shadow d t D with
  | some s => fileSize s = 0
  | none => t.headD 0 ≠ 0xE5

def DataBack (t : List Byte) (P : Nat) (D : List Nat) (length : Nat) : Prop :=
  length ≤ 512 * r.sectorsPerCluster ∧ ((¬ r.Full d P ∧ r.shadow d t [P] = none ∧ t.headD 0 ≠ 0xE5) ∨
      ((∀ c ∈ D, r.Full d c) ∧ ∃ F x rest s, r.freeClusters d = F :: x :: rest ∧
        r.lookBoth d (isFileNamed t) P x = some s ∧ InChain (cluster s) ∧
        r.clusterToLba (cluster s) = r.clusterToLba F ∧ fileSize s = length))

/-- The file at the path is read back after it was written with this length. -/
def ReadsBack (path : List Byte) (length : Nat) : Prop :=
  ∀ P t D, r.getParentDirectoryCluster d path = some (some P) → toShortName (finalComponent path) =
    some t →
    Chain (r.link d) P D → if length = 0 then r.EmptyBack d t D else r.DataBack d t P D length

variable {r d} {d' : Disk}

theorem mem_of_mem_finalComponent (h : b ∈ finalComponent path) : b ∈ path := by
  unfold finalComponent splitLast at h
  exact mem_reverse.mp (takeWhile_subset _ (mem_reverse.mp h))

theorem headD_ne_zero (hpath : (0 : Byte) ∉ path)
    (ht : toShortName (finalComponent path) = some t) :
    t.headD 0 ≠ 0 := by
  obtain ⟨-, b, hb, -, hhead⟩ := toShortName_spec ht
  rw [hhead]
  apply upper_ne_zero
  rintro rfl
  exact hpath (mem_of_mem_finalComponent hb)

theorem isFileNamed_make (ht : t.length = 11) (F size : Nat) : isFileNamed t (make t 0x20 F size) =
    true := by
  unfold isFileNamed Slot.isShort Slot.isDirectory
  rw [Slot.attr_make ht, Slot.name_make ht]
  simp

theorem lookSlots_new (ht : t.length = 11) (h0 : t.headD 0 ≠ 0) (F size : Nat)
    (hB : ∀ s ∈ B, isFree s = false) (R : List Slot) :
    (lookSlots (isFileNamed t) (B ++ make t 0x20 F size :: R)).found
      = (B.find? (isFileNamed t)).or (if t.headD 0 = 0xE5 then none else some (make t 0x20 F size)) := by
  rw [lookSlots_append, lookSlots_taken _ hB]
  cases B.find? (isFileNamed t) with
  | some s => rfl
  | none =>
    dsimp only [Option.elim]
    by_cases h5 : t.headD 0 = 0xE5
    · rw [if_pos h5]
      cases hl : lookSlots (isFileNamed t) (make t 0x20 F size :: R) with
      | hit s => exact absurd hl (lookSlots_deleted ht h5)
      | more => rfl
      | ended => rfl
    · rw [if_neg h5, lookSlots, Slot.lead_make ht, if_neg h0, if_neg h5,
        if_pos (isFileNamed_make ht F size)]
      rfl

theorem lookSectors_deleted (ht : t.length = 11) (hlead : t.headD 0 = 0xE5) (lba : Nat) (s : Slot) :
    ∀ ss, r.lookSectors d (isFileNamed t) lba ss ≠ .hit s := by
  intro ss
  induction ss with
  | nil => exact fun h => by cases h
  | cons a ss ih =>
    rw [lookSectors]
    cases r.readSectors d (u32 (lba + a)) with
    | none => exact fun h => by cases h
    | some buffer =>
      dsimp only
      cases hl : lookSlots (isFileNamed t)
        ((List.range (r.bytesPerSector / 32)).map (slotAt buffer)) with
      | more => exact ih
      | ended => exact fun h => by cases h
      | hit s' => exact absurd hl (lookSlots_deleted ht hlead)

theorem lookBoth_deleted (ht : t.length = 11) (hlead : t.headD 0 = 0xE5) (P x : Nat) :
    r.lookBoth d (isFileNamed t) P x = none := by
  unfold lookBoth lookCluster
  cases hP : r.lookSectors d (isFileNamed t) (r.clusterToLba P) (List.range r.sectorsPerCluster) with
  | hit s => exact absurd hP (lookSectors_deleted ht hlead _ s _)
  | ended => rfl
  | more =>
    dsimp only
    cases hx : r.lookSectors d (isFileNamed t) (r.clusterToLba x) (List.range r.sectorsPerCluster) with
    | hit s => exact absurd hx (lookSectors_deleted ht hlead _ s _)
    | ended => rfl
    | more => rfl

theorem slots_split (hi : i < r.sectorsPerCluster * 16) : ∃ R, r.slots d c
    = (List.range i).map (r.slot d c) ++ r.slot d c i :: R := by
  refine ⟨(List.range' (i + 1) (r.sectorsPerCluster * 16 - i - 1)).map (r.slot d c), ?_⟩
  have hr : List.range (r.sectorsPerCluster * 16)
      = List.range i ++ i :: List.range' (i + 1) (r.sectorsPerCluster * 16 - i - 1) := by
    rw [range_eq_range', range_eq_range', ← List.range'_succ]
    have := @List.range'_append_1 0 i (r.sectorsPerCluster * 16 - i - 1 + 1)
    rw [Nat.zero_add] at this
    rw [this]
    congr 1
    omega
  unfold slots
  rw [hr, map_append, map_cons]

theorem lookCluster_congr (g : r.Geometry) (hc : r.Numbered c) (want : Slot → Bool)
    (h : ∀ s < r.sectorsPerCluster, d' (r.clusterToLba c + s) = d (r.clusterToLba c + s)) :
    r.lookCluster d' want c = r.lookCluster d want c := by
  unfold lookCluster
  have hall : ∀ ss : List Nat, (∀ s ∈ ss, s < r.sectorsPerCluster) →
      r.lookSectors d' want (r.clusterToLba c) ss = r.lookSectors d want (r.clusterToLba c) ss := by
    intro ss
    induction ss with
    | nil => exact fun _ => rfl
    | cons s ss ih =>
      intro hss
      have hs := hss s mem_cons_self
      rw [lookSectors, lookSectors, readSectors, readSectors, g.u32_lba hc hs, h s hs,
        ih fun x hx => hss x (mem_cons_of_mem _ hx)]
  exact hall _ fun s hs => mem_range.mp hs

theorem lookChain_two (g : r.Geometry) (hP : r.Numbered P) (hx : r.Numbered x) (hPx : r.raw d P = x)
    (hend : r.raw d x = endMark) (want : Slot → Bool) :
    r.lookChain d want maxWalk P = some (r.lookBoth d want P x) := by
  have hn := g.numbers
  have hx2 := hx.2
  rw [show maxWalk = 0x0FFFFFFD + 1 + 1 + 1 from rfl, lookChain, if_pos (g.inChain hP)]
  unfold lookBoth
  cases r.lookCluster d want P with
  | hit s => rfl
  | ended => rfl
  | more =>
    dsimp only
    rw [g.nextClusterInChain_eq hP.2, hPx, Nat.mod_eq_of_lt (by omega), lookChain, if_pos (g.inChain hx)]
    cases r.lookCluster d want x with
    | hit s => rfl
    | ended => rfl
    | more =>
      dsimp only
      rw [g.nextClusterInChain_eq hx.2, hend, lookChain, if_neg (by decide)]
      rfl

theorem readFile_eq (g : r.Geometry)
    (hpar : r.getParentDirectoryCluster d path = some (some P))
      (ht : toShortName (finalComponent path) = some t)
    (hlook : r.lookChain d (isFileNamed t) maxWalk P = some found) :
    r.readFile d path = found.elim (some none) (r.readEntry d) := by
  unfold readFile
  rw [if_neg (by rw [g.ready]; decide), hpar]
  dsimp only
  rw [ht]
  dsimp only
  rw [hlook]
  cases found <;> rfl

section

variable (hw : r.WellFormed d) (hp : r.Directory d k n D) (hk : k = (parentPieces path).length)
  (hpar : r.getParentDirectoryCluster d path = some (some (r.start d n)))
  (hres : r.resolveFrom d (parentPieces path) r.rootClusterNum = some (some (r.start d n)))
  (ht : toShortName (finalComponent path) = some t) (hpath : (0 : Byte) ∉ path)
include hw hp

omit hw hp in
theorem takeWhile_taken (hB : ∀ s ∈ B, isFree s = false) (R : List Slot) :
    (B ++ R).takeWhile (fun s => !isFree s) = B ++ R.takeWhile fun s => !isFree s :=
  takeWhile_append_of_pos fun s hs => by rw [hB s hs]; rfl

omit hw hp in
theorem FirstFree.slots_put (g : r.Geometry) (hc : r.Numbered c) (hfirst : r.FirstFree d c i)
    (he : e.length = 32) : ∃ B R R', (∀ s ∈ B, isFree s = false) ∧ r.slots d c = B ++ r.slot d c i :: R ∧
      r.slots (r.putSlot d c i e) c = B ++ e :: R' := by
  obtain ⟨R', hR'⟩ := slots_split (d := r.putSlot d c i e) (c := c) hfirst.lt
  obtain ⟨R, hR⟩ := slots_split (d := d) (c := c) hfirst.lt
  have hbefore : (List.range i).map (r.slot (r.putSlot d c i e) c) =
      (List.range i).map (r.slot d c) := by
    apply map_congr_left
    intro j hj
    have hj := mem_range.mp hj
    have hi := hfirst.lt
    rw [g.slot_putSlot hc hc hfirst.lt (by omega) he, if_neg (by omega)]
  rw [hbefore, g.slot_putSlot hc hc hfirst.lt hfirst.lt he, if_pos ⟨rfl, rfl⟩] at hR'
  refine ⟨_, R, R', fun s hs => ?_, hR, hR'⟩
  obtain ⟨j, hj, rfl⟩ := mem_map.mp hs
  exact hfirst.before j (mem_range.mp hj)

omit hw hp in
theorem Full.slots (h : r.Full d c) : ∀ s ∈ r.slots d c, isFree s = false := by
  intro s hs
  obtain ⟨j, hj, rfl⟩ := mem_slots.mp hs
  exact h j hj

omit hw hp in
theorem takeWhile_cut (hB : ∀ s ∈ B, isFree s = false) (hf : isFree f = true) :
    (B ++ f :: R).takeWhile (fun s => !isFree s) = B := by
  rw [takeWhile_taken hB, takeWhile_cons_of_neg (by simp [hf]), append_nil]

theorem Directory.inserted_slots (he : e.length = 32) (hins : Inserted r d D e true d') :
    ∃ ext B R, Chain (r.link d') (r.start d n) (D ++ ext) ∧ (∀ c ∈ D ++ ext, r.Numbered c ∧ r.OnDisk c) ∧
      ext.length ≤ 1 ∧ (∀ s ∈ B, isFree s = false) ∧ (D ++ ext).flatMap (r.slots d') = B ++ e :: R ∧
      (D.flatMap (r.slots d)).takeWhile (fun s => !isFree s) = B ∧ r.Beside d d' D := by
  have g := hw.geometry
  have htaken := hp.taken hw
  cases hins with
  | @placed pre post c i hD hpre hfirst =>
    have hc : c ∈ D := hD ▸ mem_append_right _ mem_cons_self
    have hcn := (htaken c hc).numbered
    have hgrows := Keeps.refl.grows_placed hw hp hc hfirst he
    have hpc : ∀ x ∈ pre, x ∈ D ∧ x ≠ c := by
      intro x hx
      refine ⟨hD ▸ mem_append_left _ hx, ?_⟩
      rintro rfl
      have hnd := hp.chain.nodup
      rw [hD] at hnd
      exact disjoint_of_nodup_append hnd hx mem_cons_self
    have hpreslots : pre.flatMap (r.slots (r.putSlot d c i e)) = pre.flatMap (r.slots d) := by
      apply flatMap_congr
      intro x hx
      exact slots_congr fun s hs =>
        g.outside_sector hcn (htaken x (hpc x hx).1).numbered (hpc x hx).2
          (outside_putSlot hfirst.lt e) hs
    obtain ⟨B, R, R', hB, hR, hR'⟩ := hfirst.slots_put g hcn he
    have hused : ∀ s ∈ pre.flatMap (r.slots d) ++ B, isFree s = false := by
      intro s hs
      rcases mem_append.mp hs with hs | hs
      · obtain ⟨x, hx, hs⟩ := mem_flatMap.mp hs
        exact Full.slots (hpre x hx) s hs
      · exact hB s hs
    refine ⟨[], _, R' ++ post.flatMap (r.slots (r.putSlot d c i e)), hgrows.chain, fun x hx => ?_,
      by simp, hused, ?_, ?_,
      hgrows.same⟩
    · rw [append_nil] at hx
      exact ⟨(htaken x hx).numbered, (htaken x hx).onDisk⟩
    · rw [append_nil, hD, flatMap_append, flatMap_cons, hpreslots, hR']
      simp only [append_assoc, cons_append]
    rw [hD, flatMap_append, flatMap_cons, hR, append_assoc _ _ (post.flatMap (r.slots d)),
      ← append_assoc]
    exact takeWhile_cut hused hfirst.free
  | @extended pre z F rest d₁ hD hfull hfr hFd hout hzero =>
    have hgrows := Keeps.refl.grows_extended hw hp hD hfr hFd hout hzero he
    have hzD : z ∈ D := hD ▸ mem_append_right _ mem_cons_self
    have hz := htaken z hzD
    obtain ⟨hF, hF0, -⟩ := numbered_of_free hfr
    have hpos := g.sectors
    obtain ⟨-, hsec, -⟩ := g.extended_spec hfr hout hz.numbered hz.raw e
    have hDslots : D.flatMap (r.slots (r.putSlot (r.setRaw d₁ z F) F 0 e)) = D.flatMap (r.slots d) := by
      apply flatMap_congr
      intro x hx
      have hxF : x ≠ F := by
        rintro rfl
        exact (htaken x hx).raw hF0
      exact slots_congr (hsec x (htaken x hx).numbered hxF)
    have h0 : 0 < r.sectorsPerCluster * 16 := by omega
    obtain ⟨R, hR⟩ := slots_split (d := r.putSlot (r.setRaw d₁ z F) F 0 e) (c := F) h0
    rw [g.slot_putSlot hF hF h0 h0 he, if_pos ⟨rfl, rfl⟩, range_zero, map_nil, nil_append] at hR
    have hB : ∀ s ∈ D.flatMap (r.slots d), isFree s = false := by
      intro s hs
      obtain ⟨x, hx, hs⟩ := mem_flatMap.mp hs
      exact Full.slots (hfull x hx) s hs
    refine ⟨[F], _, R, hgrows.chain, fun x hx => ?_, by simp, hB, ?_, ?_, hgrows.same⟩
    · rcases mem_append.mp hx with hx | hx
      · exact ⟨(htaken x hx).numbered, (htaken x hx).onDisk⟩
      · rw [mem_singleton.mp hx]
        exact ⟨hF, hFd⟩
    · rw [flatMap_append, hDslots, flatMap_singleton, hR]
    · have := takeWhile_taken hB []
      rwa [append_nil, takeWhile_nil, append_nil] at this

include hk hpar hres ht hpath in
theorem Directory.empty_back (hins : Inserted r d D (make t 0x20 0 0) true d') :
    r.readFile d' path = some (some []) ↔ r.EmptyBack d t D := by
  have g := hw.geometry
  obtain ⟨htlen, -⟩ := toShortName_spec ht
  obtain ⟨ext, B, R, hchain, hon, hext, hB, hslots, htake, hb⟩ :=
    hp.inserted_slots hw (Slot.length_make htlen _ _ _) hins
  have hlook : r.lookChain d' (isFileNamed t) maxWalk (r.start d n)
      = some (lookSlots (isFileNamed t) (B ++ make t 0x20 0 0 :: R)).found := by
    have hlen := hp.length_lt hw
    rw [g.lookChain_eq _ hchain hon maxWalk (by rw [length_append]; omega), hslots]
  rw [readFile_eq g (hb.getParent hw hp hk hpar hres) ht hlook,
    lookSlots_new htlen (headD_ne_zero hpath ht) 0 0 hB]
  unfold EmptyBack shadow
  rw [htake]
  cases B.find? (isFileNamed t) with
  | some s =>
    rw [Option.some_or]
    dsimp only [Option.elim]
    constructor
    · intro h
      exact (readEntry_length h).symm
    intro h
    unfold readEntry
    rw [if_pos h]
  | none =>
    rw [Option.none_or]
    by_cases h5 : t.headD 0 = 0xE5
    · rw [if_pos h5]
      exact ⟨nofun, fun h => absurd h5 h⟩
    rw [if_neg h5]
    refine ⟨fun _ => h5, fun _ => ?_⟩
    dsimp only [Option.elim]
    unfold readEntry
    rw [if_pos (Slot.fileSize_make htlen 0x20 0 0)]

end

end Fat32Reader

end BlockOS.Fat32
