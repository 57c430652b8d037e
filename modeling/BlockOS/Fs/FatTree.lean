import BlockOS.Fs.FatVolume

/-! The files and directories of a volume. -/

namespace BlockOS.Fat32
open Words Buffer Links List
open Slot (isFree cluster)

abbrev Node := Option (Nat × Nat)

def Slot.Live (s : Slot) : Prop := isFree s = false ∧ Slot.isShort s = true ∧ Slot.lead s ≠ 46

namespace Fat32Reader

variable (r : Fat32Reader) (d : Disk)

def entryOf : Node → Option Slot
  | none => none
  | some (c, i) => some (r.slot d c i)

def start : Node → Nat
  | none => r.rootClusterNum
  | some (c, i) => cluster (r.slot d c i)

def isDir : Node → Bool
  | none => true
  | some (c, i) => Slot.isDirectory (r.slot d c i)

inductive Listed (r : Fat32Reader) (d : Disk) : Nat → Node → Prop
  | root : Listed r d 0 none
  | entry {k : Nat} {n : Node} {l : List Nat} {c i : Nat} : Listed r d k n → r.isDir d n = true →
      Chain (r.link d) (r.start d n) l → c ∈ l → i < r.sectorsPerCluster * 16 →
        Slot.Live (r.slot d c i) → Listed r d (k + 1) (some (c, i))

def ChainOf (n : Node) (l : List Nat) : Prop :=
  if r.start d n = 0 then l = [] else Chain (r.link d) (r.start d n) l

structure Taken (c : Nat) : Prop where
  numbered : r.Numbered c
  onDisk : r.OnDisk c
  raw : r.raw d c ≠ 0

/-- Every file and directory of the mounted volume owns its chain, and the chains are disjoint. -/
structure WellFormed : Prop where
  mounted : r.initializeReader d = (true, r)
  layout : r.Layout
  owned : ∀ k n, Listed r d k n → ∃ l, r.ChainOf d n l ∧ (r.isDir d n = true → l ≠ []) ∧ ∀ c ∈ l,
    r.Taken d c
  apart : ∀ k n l k' n' l', Listed r d k n → Listed r d k' n' → r.ChainOf d n l →
    r.ChainOf d n' l' → n ≠ n' → l.Disjoint l'

def Gains (d' : Disk) (l ext : List Nat) (e : Option Slot) : Prop :=
  ∃ c₀ i₀, (∀ c ∈ l, ∀ i < r.sectorsPerCluster * 16, r.slot d' c i = r.slot d c i ∨
      (c = c₀ ∧ i = i₀ ∧ isFree (r.slot d c i) = true ∧ e = some (r.slot d' c i))) ∧
    (∀ c ∈ ext, ∀ i < r.sectorsPerCluster * 16, isFree (r.slot d' c i) = true ∨
      (c = c₀ ∧ i = i₀ ∧ e = some (r.slot d' c i)))

structure Preserved (d' : Disk) (parent : Option Nat) (e : Option Slot) : Prop where
  listed : ∀ k n, Listed r d k n → Listed r d' k n ∧ r.entryOf d' n = r.entryOf d n
  others : ∀ k n l, Listed r d k n → r.ChainOf d n l → parent ≠ some (r.start d n) → r.ChainOf d' n l ∧
    ∀ c ∈ l, ∀ s < r.sectorsPerCluster, d' (r.clusterToLba c + s) = d (r.clusterToLba c + s)
  parent : ∀ k n l, Listed r d k n → r.ChainOf d n l → parent = some (r.start d n) →
    ∃ ext, r.ChainOf d' n (l ++ ext) ∧ (∀ c ∈ ext, r.Numbered c ∧ r.OnDisk c) ∧ r.Gains d d' l ext e
  apart : ∀ k n l k' n' l', Listed r d k n → Listed r d k' n' → r.ChainOf d' n l →
    r.ChainOf d' n' l' → n ≠ n' → l.Disjoint l'
  fresh : ∀ s k n l m, e = some s → cluster s ≠ 0 → Chain (r.link d') (cluster s) m →
    Listed r d k n → r.ChainOf d' n l → m.Disjoint l

variable {r d}

theorem WellFormed.geometry (hw : r.WellFormed d) : r.Geometry :=
    geometry_of_mounted hw.mounted hw.layout

variable {n : Node} {d' : Disk}

theorem ChainOf.unique (h : r.ChainOf d n l) (h' : r.ChainOf d n m) : l = m := by
  unfold ChainOf at h h'
  by_cases h0 : r.start d n = 0
  · rw [if_pos h0] at h h'
    rw [h, h']
  · rw [if_neg h0] at h h'
    exact h.unique h'

structure Directory (r : Fat32Reader) (d : Disk) (k : Nat) (n : Node) (l : List Nat) : Prop where
  listed : Listed r d k n
  dir : r.isDir d n = true
  chain : Chain (r.link d) (r.start d n) l

theorem chainOf_of_chain (h0 : r.start d n ≠ 0) (h : Chain (r.link d) (r.start d n) l) :
    r.ChainOf d n l := by
  unfold ChainOf
  rw [if_neg h0]
  exact h

theorem WellFormed.directory (hw : r.WellFormed d) (hn : Listed r d k n)
    (hdir : r.isDir d n = true) : ∃ l, r.Directory d k n l := by
  obtain ⟨l, hl, hne, -⟩ := hw.owned k n hn
  unfold ChainOf at hl
  by_cases h0 : r.start d n = 0
  · rw [if_pos h0] at hl
    exact absurd hl (hne hdir)
  · rw [if_neg h0] at hl
    exact ⟨l, hn, hdir, hl⟩

namespace Directory

variable {k k' : Nat} {n n' : Node} {l l' : List Nat}

theorem start_ne (h : r.Directory d k n l) (hw : r.WellFormed d) : r.start d n ≠ 0 := by
  intro h0
  obtain ⟨m, hm, hne, -⟩ := hw.owned k n h.listed
  unfold ChainOf at hm
  rw [if_pos h0] at hm
  exact hne h.dir hm

theorem chainOf (h : r.Directory d k n l) (hw : r.WellFormed d) : r.ChainOf d n l :=
  chainOf_of_chain (h.start_ne hw) h.chain

theorem taken (h : r.Directory d k n l) (hw : r.WellFormed d) : ∀ c ∈ l, r.Taken d c := by
  obtain ⟨m, hm, -, ht⟩ := hw.owned k n h.listed
  rw [(h.chainOf hw).unique hm]
  exact ht

theorem eq_of_mem (h : r.Directory d k n l) (h' : r.Directory d k' n' l') (hw : r.WellFormed d)
    (hc : c ∈ l)
    (hc' : c ∈ l') : n = n' := by
  by_contra hne
  exact hw.apart k n l k' n' l' h.listed h'.listed (h.chainOf hw) (h'.chainOf hw) hne hc hc'

theorem not_mem (h : r.Directory d k n l) (hw : r.WellFormed d) (hn : Listed r d k' n')
    (hl : r.ChainOf d n' l')
    (hne : n' ≠ n) (hc : c ∈ l') : c ∉ l :=
  hw.apart k' n' l' k n l hn h.listed hl (h.chainOf hw) hne hc

end Directory

theorem WellFormed.depth_unique (hw : r.WellFormed d) (hn : Listed r d k n) : ∀ {k'},
    Listed r d k' n → k = k' := by
  induction hn with
  | root =>
    intro k' h
    cases h
    rfl
  | entry hn hdir hl hc hi _ ih =>
    intro k' h
    cases h with
    | entry hn' hdir' hl' hc' _ _ =>
      have := Directory.eq_of_mem ⟨hn, hdir, hl⟩ ⟨hn', hdir', hl'⟩ hw hc hc'
      subst this
      rw [ih hn']

theorem link_congr (h : r.raw d' c = r.raw d c) : r.link d' c = r.link d c := by
  unfold link
  rw [h]

theorem slot_congr (hi : i < r.sectorsPerCluster * 16)
    (h : ∀ s < r.sectorsPerCluster, d' (r.clusterToLba c + s) = d (r.clusterToLba c + s)) :
    r.slot d' c i = r.slot d c i := by
  unfold slot
  rw [h _ (by omega)]

theorem start_congr (h : r.entryOf d' n = r.entryOf d n) : r.start d' n = r.start d n := by
  cases n with
  | none => rfl
  | some p => exact congrArg cluster (Option.some.inj h)

theorem isDir_congr (h : r.entryOf d' n = r.entryOf d n) : r.isDir d' n = r.isDir d n := by
  cases n with
  | none => rfl
  | some p => exact congrArg Slot.isDirectory (Option.some.inj h)

theorem WellFormed.preserved_refl (hw : r.WellFormed d) (parent : Option Nat)
    (he : ∀ s, e = some s → cluster s ≠ 0 → r.raw d (cluster s) = 0) : r.Preserved d d parent e where
  listed _ _ h := ⟨h, rfl⟩
  others _ _ _ _ hl _ := ⟨hl, fun _ _ _ _ => rfl⟩
  parent _ _ l _ hl _ := ⟨[], by rwa [append_nil], nofun, 0, 0, fun _ _ _ _ => .inl rfl, nofun⟩
  apart := hw.apart
  fresh s k n l m hs h0 hm hn hl := by
    have hfree := he s hs h0
    have hm' : m = [cluster s] := by
      have hend : r.link d (cluster s) = none := by
        unfold link
        rw [hfree]
        rfl
      exact hm.unique (.last hend)
    obtain ⟨l', hl', -, htaken⟩ := hw.owned k n hn
    rw [hl.unique hl', hm']
    intro x hx hxl
    rw [mem_singleton.mp hx] at hxl
    exact (htaken _ hxl).raw hfree

structure Grows (r : Fat32Reader) (d d' : Disk) (n₀ : Node) (D ext : List Nat) (e : Option Slot) :
    Prop where
  same : ∀ c, r.Taken d c → c ∉ D → r.raw d' c = r.raw d c ∧
    ∀ s < r.sectorsPerCluster, d' (r.clusterToLba c + s) = d (r.clusterToLba c + s)
  chain : Chain (r.link d') (r.start d n₀) (D ++ ext)
  added : ∀ c ∈ ext, r.Numbered c ∧ r.OnDisk c ∧ r.raw d c = 0
  gains : r.Gains d d' D ext e

variable {d' : Disk} {D ext : List Nat}

section

variable (h : r.Grows d d' n₀ D ext e) (hw : r.WellFormed d) (hp : r.Directory d k₀ n₀ D)
include h hw hp

theorem Grows.entry (hn : Listed r d k n) : r.entryOf d' n = r.entryOf d n := by
  cases hn with
  | root => rfl
  | @entry k p l c i hn hd hl hc hi hlive =>
    by_cases hpn : p = n₀
    · subst hpn
      have hlD := hl.unique hp.chain
      subst hlD
      obtain ⟨c₀, i₀, hold, -⟩ := h.gains
      rcases hold c hc i hi with heq | ⟨-, -, hfree, -⟩
      · exact congrArg some heq
      · rw [hlive.1] at hfree
        cases hfree
    · have hdir : r.Directory d k p l := ⟨hn, hd, hl⟩
      have hnot := hp.not_mem hw hn (hdir.chainOf hw) hpn hc
      exact congrArg some (slot_congr hi (h.same c (hdir.taken hw c hc) hnot).2)

variable {l : List Nat}

theorem Grows.other (hn : Listed r d k n) (hl : r.ChainOf d n l) (hne : n ≠ n₀) :
    r.ChainOf d' n l ∧
      (∀ c ∈ l, ∀ s < r.sectorsPerCluster, d' (r.clusterToLba c + s) = d (r.clusterToLba c + s)) ∧
      ∀ c ∈ l, r.Taken d c ∧ c ∉ D := by
  obtain ⟨l', hl', -, htaken⟩ := hw.owned k n hn
  rw [← hl.unique hl'] at htaken
  have hnot : ∀ c ∈ l, c ∉ D := fun c hc => hp.not_mem hw hn hl hne hc
  refine ⟨?_, fun c hc => (h.same c (htaken c hc) (hnot c hc)).2, fun c hc => ⟨htaken c hc, hnot c hc⟩⟩
  unfold ChainOf at hl ⊢
  rw [start_congr (h.entry hw hp hn)]
  by_cases h0 : r.start d n = 0
  · rw [if_pos h0] at hl ⊢
    exact hl
  · rw [if_neg h0] at hl ⊢
    exact hl.congr fun c hc => link_congr (h.same c (htaken c hc) (hnot c hc)).1

theorem Grows.parent_chain : r.ChainOf d' n₀ (D ++ ext) := by
  have hs := start_congr (h.entry hw hp hp.listed)
  apply chainOf_of_chain
  · rw [hs]
    exact hp.start_ne hw
  · rw [hs]
    exact h.chain

theorem Grows.listed (hn : Listed r d k n) : Listed r d' k n := by
  induction hn with
  | root => exact .root
  | @entry k p l c i hn hd hl hc hi hlive ih =>
    have hent := Option.some.inj (h.entry hw hp (.entry hn hd hl hc hi hlive))
    have hpe := h.entry hw hp hn
    have hd' : r.isDir d' p = true := (isDir_congr hpe).trans hd
    have hlive' : Slot.Live (r.slot d' c i) := hent ▸ hlive
    by_cases hpn : p = n₀
    · subst hpn
      have hlD := hl.unique hp.chain
      subst hlD
      refine .entry ih hd' ?_ (mem_append_left ext hc) hi hlive'
      rw [start_congr hpe]
      exact h.chain
    · have hdir : r.Directory d k p l := ⟨hn, hd, hl⟩
      have hch := (h.other hw hp hn (hdir.chainOf hw) hpn).1
      unfold ChainOf at hch
      rw [start_congr hpe, if_neg (hdir.start_ne hw)] at hch
      exact .entry ih hd' (by rwa [start_congr hpe]) hc hi hlive'

theorem Grows.chains (hn : Listed r d k n) (hl : r.ChainOf d' n l) :
    (n = n₀ ∧ l = D ++ ext) ∨ (n ≠ n₀ ∧ r.ChainOf d n l ∧ ∀ c ∈ l, r.Taken d c ∧ c ∉ D) := by
  by_cases hnn : n = n₀
  · subst hnn
    exact .inl ⟨rfl, hl.unique (h.parent_chain hw hp)⟩
  obtain ⟨l', hl', -, -⟩ := hw.owned k n hn
  obtain ⟨hch, -, hmem⟩ := h.other hw hp hn hl' hnn
  have := hl.unique hch
  subst this
  exact .inr ⟨hnn, hl', hmem⟩

omit hw hp in
theorem Grows.disjoint (hl : ∀ c ∈ l, r.Taken d c ∧ c ∉ D) : l.Disjoint (D ++ ext) := by
  intro x hx hxe
  rcases mem_append.mp hxe with hxD | hxe
  · exact (hl x hx).2 hxD
  · exact (hl x hx).1.raw (h.added x hxe).2.2

theorem Grows.preserved (hfresh : ∀ s m, e = some s → cluster s ≠ 0 →
    Chain (r.link d') (cluster s) m →
    ∀ x ∈ m, r.raw d x = 0 ∧ x ∉ ext) : r.Preserved d d' (some (r.start d n₀)) e := by
  refine ⟨fun k n hn => ⟨h.listed hw hp hn, h.entry hw hp hn⟩, ?_, ?_, ?_, ?_⟩
  · intro k n l hn hl hne
    have hnn : n ≠ n₀ := by
      rintro rfl
      exact hne rfl
    obtain ⟨hch, hsec, -⟩ := h.other hw hp hn hl hnn
    exact ⟨hch, hsec⟩
  · intro k n l hn hl heq
    have hst := Option.some.inj heq
    have hnn : n = n₀ := by
      by_contra hnn
      have hlc := hl
      unfold ChainOf at hlc
      rw [← hst, if_neg (hp.start_ne hw)] at hlc
      exact hp.not_mem hw hn hl hnn hlc.start_mem hp.chain.start_mem
    subst hnn
    have := hl.unique (hp.chainOf hw)
    subst this
    exact ⟨ext, h.parent_chain hw hp, fun c hc => ⟨(h.added c hc).1, (h.added c hc).2.1⟩, h.gains⟩
  · intro k n l k' n' l' hn hn' hl hl' hne
    rcases h.chains hw hp hn hl with ⟨rfl, rfl⟩ | ⟨_, hld, hmem⟩
    · rcases h.chains hw hp hn' hl' with ⟨rfl, _⟩ | ⟨_, _, hmem'⟩
      · exact absurd rfl hne
      · exact (h.disjoint hmem').symm
    rcases h.chains hw hp hn' hl' with ⟨rfl, rfl⟩ | ⟨_, hld', _⟩
    · exact h.disjoint hmem
    · exact hw.apart k n l k' n' l' hn hn' hld hld' hne
  · intro s k n l m hs hs0 hm hn hl x hxm hxl
    obtain ⟨hfree, hxe⟩ := hfresh s m hs hs0 hm x hxm
    rcases h.chains hw hp hn hl with ⟨rfl, rfl⟩ | ⟨_, _, hmem⟩
    · rcases mem_append.mp hxl with hxD | hxe'
      · exact (hp.taken hw x hxD).raw hfree
      · exact hxe hxe'
    · exact (hmem x hxl).1.raw hfree

end

end Fat32Reader

end BlockOS.Fat32
