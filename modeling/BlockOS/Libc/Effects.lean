import BlockOS.Libc.Blocks

/-! What the functions of the heap do to the blocks in use. -/

namespace BlockOS.Libc
open Lib List
open Block (len addr)

variable {base : Nat} {h h' : Heap} {k : Kernel} {p q s t n : Nat} {b : Block}
  {pre post bs : List Block}

theorem trim_same (hl : Layout base h) (hb : h.blocks = pre ++ [b]) (hf : b.free = true) :
    SameUse base h { h with blocks := pre, brk := h.brk - (headerSize + b.size) } := by
  have ht := hl.tiles
  rw [hb] at ht
  obtain ⟨m, h1, h2, h3⟩ := tiles_append.mp ht
  have hend : b.addr + b.len = h.brk := by rw [h2]; exact h3
  have hbrk : h.brk - (headerSize + b.size) = m := by
    unfold len at hend
    omega
  rw [hbrk]
  refine ⟨⟨hl.start, h1, fun c hc => hl.sizes c (by rw [hb]; exact mem_append_left _ hc), ?_,
    hl.mapped, ?_, hl.apart⟩, fun q t => ?_, rfl⟩
  · have := hl.top
    dsimp only
    omega
  · intro c hc
    rcases hl.clear c hc with h0 | h0
    · exact .inl h0
    · exact .inr (by dsimp only; omega)
  · unfold Used
    rw [hb, usedIn_append, or_iff_left (not_usedIn_free hf)]

theorem freeListed_drops (hl : Layout base h) (hb : h.blocks = before.reverse ++ b :: rest)
    (hf : b.free = false) : Drops base h (freeListed k before b rest h) (b.addr + headerSize) := by
  obtain ⟨c, rest', hnext, hc, hdrop⟩ := mergeNext_drops hl hb hf
  obtain ⟨before', d, hprev, hd, hsame⟩ := mergePrev_same hdrop.layout rfl hc
  have hall := hdrop.trans_same hsame
  unfold freeListed
  rw [hnext]
  dsimp only
  rw [hprev]
  dsimp only
  by_cases htrim : rest' = [] ∧ h.brk = d.addr + headerSize + d.size ∧
    headerSize + d.size ≤ 0x7fffffff ∧ k.shrink = true
  · rw [if_pos htrim]
    have hlast := @trim_same _ _ d before'.reverse hsame.layout (by rw [htrim.1]) hd
    exact hall.trans_same hlast
  · rw [if_neg htrim]
    exact hall

theorem freePlain_drops (hl : Layout base h) (hu : Used h p s) : Drops base h (freePlain k p h) p := by
  have h48 : headerSize = 48 := rfl
  unfold freePlain
  cases hfind : h.mapped.find? fun m => m.addr + headerSize = p with
  | some m =>
    have hm := mem_of_find?_eq_some hfind
    have hp : m.addr + headerSize = p := by simpa using find?_some hfind
    dsimp only
    refine ⟨⟨hl.start, hl.tiles, hl.sizes, hl.top, fun m' h0 => hl.mapped m' (mem_of_mem_filter h0),
      fun m' h0 => hl.clear m' (mem_of_mem_filter h0),
      fun m' h0 m'' h1 => hl.apart m' (mem_of_mem_filter h0) m'' (mem_of_mem_filter h1)⟩,
        fun q t => ?_, rfl⟩
    constructor
    · rintro (⟨c, hc, hfree, rfl, rfl⟩ | ⟨m', hm', rfl, rfl⟩)
      · refine ⟨.inl ⟨c, hc, hfree, rfl, rfl⟩, fun heq => ?_⟩
        obtain ⟨h1, h2⟩ := hl.tiles.inside hc
        have := (hl.mapped m hm).2.2.1
        unfold len at h2
        rcases hl.clear m hm with h0 | h0 <;> omega
      · obtain ⟨h0, hne⟩ := mem_filter.mp hm'
        refine ⟨.inr ⟨m', h0, rfl, rfl⟩, fun heq => ?_⟩
        exact absurd (by omega : m'.addr = m.addr) (by simpa using hne)
    · rintro ⟨⟨c, hc, hfree, rfl, rfl⟩ | ⟨m', hm', rfl, rfl⟩, hne⟩
      · exact .inl ⟨c, hc, hfree, rfl, rfl⟩
      · refine .inr ⟨m', mem_filter.mpr ⟨hm', ?_⟩, rfl, rfl⟩
        have : m'.addr ≠ m.addr := fun h0 => hne (by omega)
        simpa using this
  | none =>
    rcases hu with ⟨c, hc, hfree, hp, -⟩ | ⟨m, hm, hp, -⟩
    · obtain ⟨r, hr⟩ := focus_found hc hp []
      obtain ⟨hsplit, haddr⟩ := focus_spec hr
      dsimp only
      rw [hr]
      dsimp only
      rw [reverse_nil, nil_append] at hsplit
      have hmem : r.2.1 ∈ h.blocks := by rw [hsplit]; simp
      have hsame : r.2.1 = c := by
        rcases hl.tiles.apart hmem hc with h0 | h0 | h0
        · exact h0
        · unfold len at h0
          omega
        · unfold len at h0
          omega
      rw [← haddr]
      exact freeListed_drops hl hsplit (by rw [hsame]; exact hfree)
    · have := find?_eq_none.mp hfind m hm
      simp [hp] at this

structure Kernel.Fresh (base : Nat) (k : Kernel) (h : Heap) (size : Nat) : Prop where
  grow : size < mmapThreshold → k.grow = true → h.brk + (headerSize + size) < two64 ∧
    ∀ m ∈ h.mapped, m.addr + m.mappingSize ≤ h.brk ∨ h.brk + (headerSize + size) ≤ m.addr
  mmap : ∀ mem, mmapThreshold ≤ size → k.mmap = some mem → 4096 ∣ mem ∧ 0 < mem ∧
    mem + mappingTotal size ≤ two64 ∧ (mem + mappingTotal size ≤ base ∨ h.brk ≤ mem) ∧
    ∀ m ∈ h.mapped, m.addr + m.mappingSize ≤ mem ∨ mem + mappingTotal size ≤ m.addr

def Wraps (n : Nat) : Prop := two64 - 48 < n ∧ n ≤ two64 - 16

instance (n : Nat) : Decidable (Wraps n) := inferInstanceAs (Decidable (_ ∧ _))

theorem mallocSize_eq : mallocSize n = if n = 0 then 16 else if n > two64 - 16 then
    0 else (n + 15) / 16 * 16 := by
  unfold mallocSize alignUp alignment two64
  by_cases h0 : n = 0
  · rw [if_pos h0, if_pos h0]
    decide
  · rw [if_neg h0, if_neg h0]

theorem mallocSize_spec : mallocSize n = 0 ∨
    n ≤ mallocSize n ∧ 16 ∣ mallocSize n ∧ 16 ≤ mallocSize n ∧ mallocSize n ≤ two64 - 16 := by
  rw [mallocSize_eq]
  unfold two64
  split
  · omega
  · split <;> omega

theorem mappingTotal_spec (h16 : 16 ∣ size) (hlow : mmapThreshold ≤ size)
    (hhigh : size ≤ two64 - 16) :
    mappingTotal size = 0 ∨ two64 - 48 < size ∧ mappingTotal size = 4096 ∨
      size < two64 - 48 ∧ headerSize + size ≤ mappingTotal size := by
  unfold mappingTotal pageUp alignUp headerSize two64 mmapThreshold at *
  split <;> omega

theorem wraps_iff : Wraps n ↔ two64 - 48 < mallocSize n := by
  rw [mallocSize_eq]
  unfold Wraps two64
  split
  · omega
  · split <;> omega

theorem malloc_cases (hl : Layout base h) (hk : k.Fresh base h (mallocSize n)) :
    malloc k n h = (0, h) ∨ (malloc k n h).1 ≠ 0 ∧ ∃ s,
      Takes base h (malloc k n h).2 (malloc k n h).1 s ∧
      (Wraps n → s = 4096 - headerSize) ∧ (¬ Wraps n → n ≤ s) := by
  have h48 : headerSize = 48 := rfl
  unfold malloc
  rcases mallocSize_spec (n := n) with h0 | ⟨hle, h16, hmin, hmax⟩
  · exact .inl (if_pos h0)
  rw [if_neg (by omega)]
  by_cases hsmall : mallocSize n < mmapThreshold
  · have hwrap : ¬ Wraps n := by
      rw [wraps_iff]
      unfold mmapThreshold two64 at *
      omega
    rw [if_pos hsmall]
    cases hfit : firstFit (mallocSize n) h.blocks with
    | some r =>
      obtain ⟨s, hs, htakes⟩ := firstFit_takes hl ⟨h16, hmin⟩ hfit
      have hpos := ((htakes.used r.1 s).mpr (.inr ⟨rfl, rfl⟩)).facts htakes.layout
      exact .inr ⟨by dsimp only; omega, s, htakes, fun h0 => absurd h0 hwrap, fun _ => by omega⟩
    | none =>
      dsimp only
      cases hg : k.grow with
      | false =>
        unfold extendHeap
        rw [if_neg (by rw [hg]; decide)]
        exact .inl rfl
      | true =>
        obtain ⟨htop, hclear⟩ := hk.grow hsmall hg
        have htakes := extendHeap_takes hl ⟨h16, hmin⟩ hg htop hclear
        have hpos := ((htakes.used _ _).mpr (.inr ⟨rfl, rfl⟩)).facts htakes.layout
        exact .inr ⟨by omega, _, htakes, fun h0 => absurd h0 hwrap, fun _ => hle⟩
  · rw [if_neg hsmall]
    have htotal := mappingTotal_spec h16 (Nat.le_of_not_lt hsmall) hmax
    cases hm : k.mmap with
    | none =>
      left
      unfold mapBlock
      rw [hm]
      dsimp only
      split <;> rfl
    | some mem =>
      obtain ⟨hpage, hpos, htop, hheap, hclear⟩ := hk.mmap mem (Nat.le_of_not_lt hsmall) hm
      rcases htotal with h0 | h0
      · left
        unfold mapBlock
        rw [h0]
        rfl
      · have hbig : 64 ≤ mappingTotal (mallocSize n) := by
          unfold mmapThreshold at hsmall
          omega
        have htakes := mapBlock_takes hl hm hpage hpos hbig htop hheap hclear
        have hp := ((htakes.used _ _).mpr (.inr ⟨rfl, rfl⟩)).facts htakes.layout
        refine .inr ⟨by omega, _, htakes, ?_⟩
        rw [wraps_iff]
        rcases h0 with ⟨hw, heq⟩ | ⟨hw, heq⟩
        · exact ⟨fun _ => by rw [heq], fun h0 => absurd hw h0⟩
        · exact ⟨fun h0 => absurd h0 (by omega), fun _ => by omega⟩

theorem replace_resizes {c : Block} {mid : List Block} {wanted : Nat} (hl : Layout base h)
    (hb : h.blocks = pre ++ (mid ++ post)) (hc : c.free = false) (hw : wanted ≤ c.size)
    (hw16 : 16 ∣ wanted ∧ 16 ≤ wanted) (hc16 : 16 ∣ c.size ∧ 16 ≤ c.size)
    (hmid : ∀ m m', Tiles addr len m mid m' → Tiles addr len m [c] m')
    (hused : ∀ q t, UsedIn mid q t → q = c.addr + headerSize) :
    ∃ s, wanted ≤ s ∧ Resizes base h { h with blocks := pre ++ (splitBlock c wanted ++ post) }
      (c.addr + headerSize) s := by
  obtain ⟨s, hs, -, hsplit⟩ := splitBlock_used hw hc
  have hlay : Layout base { h with blocks := pre ++ (splitBlock c wanted ++ post) } :=
    hl.replace hb (fun m m' ht => splitBlock_tiles hw (hmid m m' ht)) (splitBlock_sizes hw hc16 hw16)
  refine ⟨s, hs, hlay, fun q t => ?_, rfl⟩
  obtain ⟨R, h1, h2⟩ := @used_replace _ _ _ (splitBlock c wanted) _ _ hb rfl q t
  rw [hsplit] at h2
  constructor
  · intro hu
    by_cases hq : q = c.addr + headerSize
    · -- the block is in use once
      have hnew : Used { h with blocks := pre ++ (splitBlock c wanted ++ post) } q s := by
        obtain ⟨R', -, h3⟩ := @used_replace _ _ _ (splitBlock c wanted) _ _ hb rfl q s
        exact h3.mpr (.inl ((hsplit q s).mpr ⟨hq, rfl⟩))
      have hmin := (hu.facts hlay).2.2.1
      have hmin' := (hnew.facts hlay).2.2.1
      rcases hu.apart hlay hnew with ⟨-, h0⟩ | h0 | h0
      · exact .inr ⟨hq, h0⟩
      · omega
      · omega
    · exact .inl ⟨h1.mpr (.inr ((h2.mp hu).resolve_left fun h0 => hq h0.1)), hq⟩
  · rintro (⟨hu, hq⟩ | h0)
    · exact h2.mpr (.inr ((h1.mp hu).resolve_left fun h0 => hq (hused q t h0)))
    · exact h2.mpr (.inl h0)

theorem shrink_resizes {wanted : Nat} (hl : Layout base h) (hb : h.blocks = pre ++ ([b] ++ post))
    (hf : b.free = false)
    (hw : wanted ≤ b.size) (hw16 : 16 ∣ wanted ∧ 16 ≤ wanted) :
    ∃ s, wanted ≤ s ∧ Resizes base h { h with blocks := pre ++ (splitBlock b wanted ++ post) }
      (b.addr + headerSize) s := by
  have hmem : b ∈ h.blocks := by rw [hb]; simp
  refine replace_resizes hl hb hf hw hw16 (hl.sizes b hmem) (fun _ _ ht => ht) ?_
  rintro q t ⟨c, hc, -, rfl, -⟩
  rw [mem_singleton.mp hc]

theorem grow_resizes {wanted : Nat} {c : Block} (hl : Layout base h)
    (hb : h.blocks = pre ++ ([b, c] ++ post))
    (hf : b.free = false) (hc : c.free = true) (hw : wanted ≤ (b.size + headerSize + c.size) % two64)
    (hw16 : 16 ∣ wanted ∧ 16 ≤ wanted) :
    ∃ s, wanted ≤ s ∧ Resizes base h
      { h with blocks :=
        pre ++ (splitBlock { b with size := (b.size + (headerSize + c.size)) % two64 } wanted ++
          post) }
      (b.addr + headerSize) s := by
  have hmem : b ∈ h.blocks := by rw [hb]; simp
  have hmemc : c ∈ h.blocks := by rw [hb]; simp
  have hmod : (b.size + (headerSize + c.size)) % two64 = b.size + (headerSize + c.size) :=
    Nat.mod_eq_of_lt (hl.sum_lt hb).1
  refine @replace_resizes base h pre post { b with size :=
    (b.size + (headerSize + c.size)) % two64 } [b, c] wanted hl hb hf
    ?_ hw16 ?_ ?_ ?_
  · dsimp only
    rw [← Nat.add_assoc]
    exact hw
  · dsimp only
    rw [hmod]
    exact ⟨Nat.dvd_add (hl.sizes b hmem).1 (Nat.dvd_add (by decide) (hl.sizes c hmemc).1),
      le_trans (hl.sizes b hmem).2 (Nat.le_add_right _ _)⟩
  · rintro m m' ⟨h1, h2, h3⟩
    refine ⟨h1, ?_⟩
    dsimp only [len]
    rw [hmod, ← (h3 : _ = m')]
    unfold len
    show m + _ = _
    omega
  · rintro q t ⟨d, hd, hfree, rfl, -⟩
    rcases mem_cons.mp hd with rfl | hd
    · rfl
    · rw [mem_singleton.mp hd, hc] at hfree
      cases hfree

end BlockOS.Libc
