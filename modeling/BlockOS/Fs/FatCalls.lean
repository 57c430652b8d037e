import BlockOS.Fs.FatRounds

/-! What the calls that make files and directories leave of the others. -/

namespace BlockOS.Fat32
open Words Buffer Links List Option Nat
open Slot (make cluster length_make cluster_make)

inductive Call where
  | createDirectory (path : List Byte)
  | writeFile (path : List Byte) (src : Nat → Byte) (length : Nat)

namespace Call

variable (r : Fat32Reader) (d : Disk)

def run : Call → Option (Bool × Disk)
  | .createDirectory path => r.createDirectory d path
  | .writeFile path src length => r.writeFile d path src length

def path : Call → List Byte
  | .createDirectory path => path
  | .writeFile path _ _ => path

def parent (call : Call) : Option Nat := (r.getParentDirectoryCluster d call.path).join

def entry : Call → Option Slot
  | .createDirectory path =>
    (toShortName (finalComponent path)).bind fun t => (r.freeClusters d).head?.map fun F =>
      make t 0x10 F 0
  | .writeFile path _ length =>
    (toShortName (finalComponent path)).bind fun t =>
      if length = 0 then some (make t 0x20 0 0)
      else (r.freeClusters d).head?.map fun F => make t 0x20 F length

/-- A call makes a directory or an empty file, or nothing: it has no parent or no valid name, or no
cluster is free for the file. -/
def Harmless : Call → Prop
  | .createDirectory _ => True
  | .writeFile path src length =>
    length = 0 ∨ parent r d (.writeFile path src length) = none ∨
      entry r d (.writeFile path src length) = none

end Call

namespace Fat32Reader

variable {r : Fat32Reader} {d d' : Disk} {k : Nat} {n : Node} {D ext : List Nat} {e : Slot}

theorem chain_singleton (h : r.link d F = none) (hm : Chain (r.link d) F m) : m = [F] :=
  hm.unique (.last h)

theorem WellFormed.parent_cases (hw : r.WellFormed d) (path : List Byte) :
    r.getParentDirectoryCluster d path = some none ∨
    ∃ n D, r.getParentDirectoryCluster d path = some (some (r.start d n)) ∧
      r.Directory d (parentPieces path).length n D ∧
      r.resolveFrom d (parentPieces path) r.rootClusterNum = some (some (r.start d n)) := by
  obtain ⟨res, hres, hP⟩ := hw.getParent_spec path
  cases res with
  | none => exact .inl hres
  | some P =>
    obtain ⟨l, hroot⟩ := hw.root
    obtain ⟨res, hres', hdir⟩ := hw.resolveFrom_spec (parentPieces path) hroot
    have hPres := hP P rfl
    have : res = some P := Option.some.inj (hres'.symm.trans hPres)
    obtain ⟨n, D, hn, hst⟩ := hdir P this
    rw [zero_add] at hn
    subst hst
    exact .inr ⟨n, D, hres, hn, hPres⟩

theorem Preserved.parent_chain (h : r.Preserved d d' (some (r.start d n)) (some e))
    (hw : r.WellFormed d)
    (hp : r.Directory d k n D) (he : cluster e ≠ 0) :
    ∃ ext, Chain (r.link d') (r.start d n) (D ++ ext) ∧ (∀ c ∈ ext, r.Numbered c ∧ r.OnDisk c) ∧
      r.Gains d d' D ext (some e) ∧ ∀ m, Chain (r.link d') (cluster e) m → m.Disjoint (D ++ ext) := by
  obtain ⟨ext, hch, hon, hg⟩ := h.parent k n D hp.listed (hp.chainOf hw) rfl
  refine ⟨ext, ?_, hon, hg, fun m hm => h.fresh e k n (D ++ ext) m rfl he hm hp.listed hch⟩
  unfold ChainOf at hch
  rwa [start_congr (h.listed k n hp.listed).2, if_neg (hp.start_ne hw)] at hch

theorem not_preserved_of_link (hw : r.WellFormed d) (hp : r.Directory d k n D) (he : cluster e ≠ 0)
    (hz : z ∈ D) (hlink : r.link d' z = some (cluster e)) : ¬ r.Preserved d d' (some (r.start d n))
      (some e) := by
  intro h
  obtain ⟨ext, hch, -, -, hdis⟩ := h.parent_chain hw hp he
  obtain ⟨pre, post, rfl⟩ := append_of_mem hz
  rw [append_assoc, cons_append] at hch hdis
  have hm := hch.behind hlink
  exact hdis _ hm hm.start_mem (mem_append_right _ (mem_cons_of_mem _ hm.start_mem))

theorem Left.le_length {length q : Nat} (g : r.Geometry) (h : r.Left length 0 q) : q ≤ length := by
  by_cases hq : 0 < q
  · have h1 := h.least hq
    have h2 : q - 1 ≤ (q - 1) * (512 * r.sectorsPerCluster) :=
      Nat.le_mul_of_pos_right _ (Nat.mul_pos (by decide) g.sectors)
    omega
  · omega

section

variable (hw : r.WellFormed d)
include hw

theorem WellFormed.insert_directory (hp : r.Directory d k n D) (hk : r.Keeps d d₀) (e : Slot) :
    ∃ ok d', r.insertDirectoryEntry maxWalk d₀ (r.start d n) e = some (ok, d') ∧
      Inserted r d₀ D e ok d' :=
  hw.geometry.insert_inserted (hp.chain.congr fun c hc => link_congr (hk.raw c (hp.taken hw c hc)))
    (fun c hc => ⟨(hp.taken hw c hc).numbered, (hp.taken hw c hc).onDisk⟩) (hp.length_lt hw) e

theorem WellFormed.writeFile_empty (hp : r.Directory d k n D) (ht : t.length = 11) :
    ∃ ok d', r.insertDirectoryEntry maxWalk d (r.start d n) (make t 0x20 0 0) = some (ok, d') ∧
      r.Preserved d d' (some (r.start d n)) (some (make t 0x20 0 0)) := by
  obtain ⟨ok, d', heq, hins⟩ := hw.insert_directory hp .refl (make t 0x20 0 0)
  obtain ⟨ext, hgrows, -, -⟩ := Inserted.grows .refl hw hp hins (length_make ht _ _ _)
  refine ⟨ok, d', heq, hgrows.preserved hw hp fun s m hs h0 => ?_⟩
  cases hs
  exact absurd (cluster_make ht 0x20 0 0 (by decide)) h0

theorem WellFormed.entry_free {call : Call} (hs : call.entry r d = some s) (h0 : cluster s ≠ 0) :
    r.raw d (cluster s) = 0 := by
  have g := hw.geometry
  have hhead : ∀ {t attr size F}, t.length = 11 → (r.freeClusters d).head? = some F →
    s = make t attr F size →
      r.raw d (cluster s) = 0 := by
    rintro t attr size F ht hF rfl
    obtain ⟨-, h2, h3⟩ := mem_freeClusters.mp (mem_of_mem_head? hF)
    have hn := g.numbers
    rw [cluster_make ht _ _ _ (by omega)]
    exact h3
  cases call with
  | createDirectory path =>
    obtain ⟨t, ht, hmap⟩ := bind_eq_some_iff.mp hs
    obtain ⟨F, hF, rfl⟩ := map_eq_some_iff.mp hmap
    exact hhead (toShortName_spec ht).1 hF rfl
  | writeFile path src length =>
    obtain ⟨t, ht, hmap⟩ := bind_eq_some_iff.mp hs
    by_cases hlen : length = 0
    · rw [if_pos hlen] at hmap
      cases hmap
      exact absurd (cluster_make (toShortName_spec ht).1 0x20 0 0 (by decide)) h0
    rw [if_neg hlen] at hmap
    obtain ⟨F, hF, rfl⟩ := map_eq_some_iff.mp hmap
    exact hhead (toShortName_spec ht).1 hF rfl

theorem WellFormed.unchanged (call : Call) : r.Preserved d d (call.parent r d) (call.entry r d) :=
  hw.preserved_refl _ fun _ => hw.entry_free

omit hw in
theorem Call.parent_eq (call : Call) (h : r.getParentDirectoryCluster d call.path = some res) :
    call.parent r d = res := by
  unfold Call.parent
  rw [h]
  rfl

theorem WellFormed.createDirectory_preserved (path : List Byte) : ∃ ok d',
    r.createDirectory d path = some (ok, d') ∧
    r.Preserved d d' (Call.parent r d (.createDirectory path))
      (Call.entry r d (.createDirectory path)) := by
  have g := hw.geometry
  have hun := hw.unchanged (.createDirectory path)
  unfold createDirectory
  rw [if_neg (by rw [g.ready]; decide)]
  rcases hw.parent_cases path with hpar | ⟨n, D, hpar, hp, -⟩
  · rw [hpar]
    exact ⟨false, d, rfl, hun⟩
  have hparent : Call.parent r d (.createDirectory path) = some (r.start d n) :=
    Call.parent_eq (.createDirectory path) hpar
  rw [hpar]
  dsimp only
  cases hfr : r.freeClusters d with
  | nil =>
    rw [g.getFirstFreeCluster_eq, hfr]
    exact ⟨false, d, rfl, hun⟩
  | cons F rest =>
    obtain ⟨hF, hF0, hF256⟩ := numbered_of_free hfr
    have hF2 := hF.2
    have hn := g.numbers
    have hfirst : r.getFirstFreeCluster d = F := by
      rw [g.getFirstFreeCluster_eq, hfr]
      rfl
    rw [hfirst, if_neg (by omega)]
    cases ht : toShortName (finalComponent path) with
    | none => exact ⟨false, d, rfl, hun⟩
    | some t =>
      obtain ⟨htlen, -⟩ := toShortName_spec ht
      have hentry : Call.entry r d (.createDirectory path) = some (make t 0x10 F 0) := by
        dsimp only [Call.entry]
        rw [ht, hfr]
        rfl
      have hcl : cluster (make t 0x10 F 0) = F := cluster_make htlen _ _ _ (by omega)
      dsimp only
      rw [g.writeFatEntry_eq hF.2, hparent, hentry]
      dsimp only
      obtain ⟨ok, d₁, hclear, hout, -, -⟩ := g.clearCluster_eq hF (r.setRaw d F endMark)
      obtain ⟨hkeep, hraw, -⟩ := g.keeps_claim hfr hout
      rw [show (0x0FFFFFFF % 0x10000000 : Nat) = endMark from rfl, hclear]
      have hrawF : r.raw d₁ F = endMark := by rw [hraw F hF2, if_pos rfl]
      cases ok with
      | false =>
        refine ⟨false, d₁, rfl, (hkeep.grows hw hp _).preserved hw hp fun s m hs _ hm x hx => ?_⟩
        cases hs
        rw [hcl] at hm
        rw [chain_singleton (link_endMark hrawF) hm] at hx
        rw [mem_singleton.mp hx]
        exact ⟨hF0, nofun⟩
      | true =>
        obtain ⟨ok, d', heq, hins⟩ := hw.insert_directory hp hkeep (make t 0x10 F 0)
        obtain ⟨ext, hgrows, hext, hsame⟩ := Inserted.grows hkeep hw hp hins (length_make htlen _ _ _)
        have hFnot : F ∉ r.freeClusters d₁ := by
          intro hmem
          rw [(mem_freeClusters.mp hmem).2.2] at hrawF
          cases hrawF
        refine ⟨ok, d', heq, hgrows.preserved hw hp fun s m hs _ hm x hx => ?_⟩
        cases hs
        have hFD : F ∉ D := fun hmem => (hp.taken hw F hmem).raw hF0
        rw [hcl] at hm
        rw [chain_singleton (link_endMark ((hsame F hF2 hFnot hFD).trans hrawF)) hm] at hx
        rw [mem_singleton.mp hx]
        exact ⟨hF0, fun hmem => hFnot (hext F hmem)⟩

theorem WellFormed.writeFile_preserved (path : List Byte) (src : Nat → Byte) (length : Nat)
    (h : Call.Harmless r d (.writeFile path src length)) : ∃ ok d', r.writeFile d path src length =
      some (ok, d') ∧ r.Preserved d d' (Call.parent r d (.writeFile path src length))
        (Call.entry r d (.writeFile path src length)) := by
  have g := hw.geometry
  have hun := hw.unchanged (.writeFile path src length)
  unfold writeFile
  rw [if_neg (by rw [g.ready]; decide)]
  rcases hw.parent_cases path with hpar | ⟨n, D, hpar, hp, -⟩
  · rw [hpar]
    exact ⟨false, d, rfl, hun⟩
  have hparent : Call.parent r d (.writeFile path src length) = some (r.start d n) :=
    Call.parent_eq (.writeFile path src length) hpar
  rw [hpar]
  dsimp only
  cases ht : toShortName (finalComponent path) with
  | none => exact ⟨false, d, rfl, hun⟩
  | some t =>
    obtain ⟨htlen, -⟩ := toShortName_spec ht
    dsimp only
    by_cases hlen : length = 0
    · rw [if_pos hlen]
      obtain ⟨ok, d', heq, hpres⟩ := hw.writeFile_empty hp htlen
      have hentry : Call.entry r d (.writeFile path src length) = some (make t 0x20 0 0) := by
        dsimp only [Call.entry]
        rw [ht, bind_some, if_pos hlen]
      rw [hparent, hentry]
      exact ⟨ok, d', heq, hpres⟩
    rw [if_neg hlen]
    cases hfr : r.freeClusters d with
    | nil =>
      rw [g.getFirstFreeCluster_eq, hfr]
      exact ⟨false, d, rfl, hun⟩
    | cons F rest =>
      -- the file would get the cluster `F`
      have hentry : Call.entry r d (.writeFile path src length) = some (make t 0x20 F length) := by
        dsimp only [Call.entry]
        rw [ht, hfr, bind_some, if_neg hlen]
        rfl
      rcases h with h | h | h
      · exact absurd h hlen
      · rw [hparent] at h
        cases h
      · rw [hentry] at h
        cases h

end

end Fat32Reader

namespace Fat32Reader

theorem wellFormed_of_single {r : Fat32Reader} {d : Disk} (nodes : List (Node × Nat))
    (hmount : r.initializeReader d = (true, r)) (hlayout : r.Layout)
      (hroot : (none, r.rootClusterNum) ∈ nodes)
    (hentry : ∀ x ∈ nodes, r.isDir d x.1 = true → ∀ i < r.sectorsPerCluster * 16,
      Slot.isFree (r.slot d x.2 i) = false ∧ Slot.isShort (r.slot d x.2 i) = true ∧
        Slot.lead (r.slot d x.2 i) ≠ 46 → (some (x.2, i), cluster (r.slot d x.2 i)) ∈ nodes)
    (htaken : ∀ x ∈ nodes, r.link d x.2 = none ∧ r.Numbered x.2 ∧ r.OnDisk x.2 ∧ r.raw d x.2 ≠ 0)
    (hinj : ∀ x ∈ nodes, ∀ y ∈ nodes, x.2 = y.2 → x.1 = y.1) : r.WellFormed d := by
  have hchain : ∀ x ∈ nodes, ∀ l, Chain (r.link d) x.2 l ↔ l = [x.2] := by
    refine fun x hx l => ⟨fun h => h.unique (.last (htaken x hx).1), ?_⟩
    rintro rfl
    exact .last (htaken x hx).1
  have hlisted : ∀ k n, Listed r d k n → (n, r.start d n) ∈ nodes := by
    intro k n h
    induction h with
    | root => exact hroot
    | @entry k n l c i _ hdir hl hc hi hlive ih =>
      rw [(hchain _ ih l).mp hl] at hc
      rw [mem_singleton.mp hc] at hlive ⊢
      exact hentry _ ih hdir i hi hlive
  have hof : ∀ k n l, Listed r d k n → (r.ChainOf d n l ↔ l = [r.start d n]) := by
    intro k n l hn
    have h2 := (htaken _ (hlisted k n hn)).2.1.1
    rw [ChainOf, if_neg (Nat.ne_of_gt (Nat.lt_of_lt_of_le Nat.two_pos h2))]
    exact hchain _ (hlisted k n hn) l
  refine ⟨hmount, hlayout, fun k n hn => ⟨_, (hof k n _ hn).mpr rfl, fun _ => cons_ne_nil _ _,
    fun c hc => ?_⟩, ?_⟩
  · obtain ⟨-, h1, h2, h3⟩ := htaken _ (hlisted k n hn)
    rw [mem_singleton.mp hc]
    exact ⟨h1, h2, h3⟩
  · intro k n l k' n' l' hn hn' hl hl' hne
    rw [(hof k n l hn).mp hl, (hof k' n' l' hn').mp hl', disjoint_singleton, mem_singleton]
    exact fun h => hne (hinj _ (hlisted k n hn) _ (hlisted k' n' hn') h.symm)

end Fat32Reader

def blankReader : Fat32Reader where
  sectorsPerCluster := 1
  bytesPerSector := 512
  fatStartSector := 1
  dataStartSector := 4
  fatSize := 3
  rootClusterNum := 2
  isInitialized := true
  sectorCount := 300

def blankDisk : Disk := fun lba offset =>
  if lba = 0 then
    if offset = 12 then 2 else if offset = 13 then 1 else if offset = 14 then 1 else if offset =
      16 then 1
    else if offset = 36 then 3 else if offset = 44 then 2 else 0
  else if lba = 1 then
    if 8 ≤ offset ∧ offset < 11 then 0xFF else if offset = 11 then 0x0F else 0
  else 0

theorem blank_wellFormed : blankReader.WellFormed blankDisk :=
  Fat32Reader.wellFormed_of_single [(none, 2)] (by decide +kernel)
    ⟨by decide, by decide, by decide, by decide, by decide⟩ (by decide) (by decide +kernel)
      (by decide +kernel) (by decide)

def homeDisk : Disk := fun lba offset =>
  if lba = 1 then if offset < 8 ∨ 20 ≤ offset then 0 else if offset % 4 = 3 then 0x0F else 0xFF
  else if lba = 4 then (make (65 :: replicate 10 32) 0x20 3 5 ++ make (68 :: replicate 10 32) 0x10 4
    0).getD offset 0
  else if lba = 5 then 7
  else if lba = 6 then
    (make (46 :: replicate 10 32) 0x10 4 0 ++ make (46 :: 46 :: replicate 9 32) 0x10 2 0).getD offset 0
  else blankDisk lba offset

theorem home_wellFormed : blankReader.WellFormed homeDisk :=
  Fat32Reader.wellFormed_of_single [(none, 2), (some (2, 0), 3), (some (2, 1), 4)] (by decide +kernel)
    ⟨by decide, by decide, by decide, by decide, by decide⟩ (by decide) (by decide +kernel)
      (by decide +kernel) (by decide)

end BlockOS.Fat32
