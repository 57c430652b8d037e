import BlockOS.Libc.Heap
import BlockOS.Lib.Tiles
import BlockOS.Lib.Words

/-! The layout of the heap: the blocks of the list lie back to back from the first break to the
present one, and the mappings lie apart from them and from each other. -/

namespace BlockOS.Libc
open Lib List

def Block.len (b : Block) : Nat := headerSize + b.size

open Block (len)

structure Layout (base : Nat) (h : Heap) : Prop where
  start : 16 ∣ base ∧ 0 < base
  tiles : Tiles Block.addr len base h.blocks h.brk
  sizes : ∀ b ∈ h.blocks, 16 ∣ b.size ∧ 16 ≤ b.size
  top : h.brk < two64
  mapped : ∀ m ∈ h.mapped, 4096 ∣ m.addr ∧ 0 < m.addr ∧ m.mappingSize = headerSize + m.size ∧
    16 ≤ m.size ∧ m.addr + m.mappingSize ≤ two64
  clear : ∀ m ∈ h.mapped, m.addr + m.mappingSize ≤ base ∨ h.brk ≤ m.addr
  apart : ∀ m ∈ h.mapped, ∀ m' ∈ h.mapped, m = m' ∨ m.addr + m.mappingSize ≤ m'.addr ∨
    m'.addr + m'.mappingSize ≤ m.addr

def UsedIn (bs : List Block) (p s : Nat) : Prop := ∃ b ∈ bs, b.free = false ∧
    b.addr + headerSize = p ∧ b.size = s

def Used (h : Heap) (p s : Nat) : Prop :=
  UsedIn h.blocks p s ∨ ∃ m ∈ h.mapped, m.addr + headerSize = p ∧ m.size = s

def Heap.cells (h : Heap) : List (Nat × Nat) :=
  h.blocks.map (fun b => (b.addr, b.len)) ++ h.mapped.map fun m => (m.addr, m.mappingSize)

variable {base : Nat} {h h' : Heap} {p q s t : Nat} {b : Block} {pre mid mid' post bs : List Block}

variable {c : Nat × Nat}

theorem mem_cells : c ∈ h.cells ↔
    (∃ b ∈ h.blocks, (b.addr, b.len) = c) ∨ ∃ m ∈ h.mapped, (m.addr, m.mappingSize) = c := by
  unfold Heap.cells
  rw [mem_append, mem_map, mem_map]

theorem Layout.aligned (hl : Layout base h) : 16 ∣ h.brk ∧ ∀ b ∈ h.blocks, 16 ∣ b.addr :=
  hl.tiles.dvd hl.start.1 fun b hb => Nat.dvd_add (by decide) (hl.sizes b hb).1

theorem Layout.cell (hl : Layout base h) (hc : c ∈ h.cells) : 16 ∣ c.1 ∧ 0 < c.1 ∧ 64 ≤ c.2 ∧
    c.1 + c.2 ≤ two64 := by
  rcases mem_cells.mp hc with ⟨b, hb, rfl⟩ | ⟨m, hm, rfl⟩
  · obtain ⟨h1, h2⟩ := hl.tiles.inside hb
    have h3 := (hl.sizes b hb).2
    have h4 := hl.top
    have h5 := hl.start.2
    refine ⟨hl.aligned.2 b hb, ?_, ?_, ?_⟩ <;> dsimp only
    · omega
    · unfold len headerSize
      omega
    · omega
  · obtain ⟨h1, h2, h3, h4, h5⟩ := hl.mapped m hm
    refine ⟨Nat.dvd_trans (by decide) h1, h2, ?_, h5⟩
    unfold headerSize at h3
    omega

theorem Layout.cells_apart (hl : Layout base h) (hc : c ∈ h.cells) (hd : d ∈ h.cells) :
    c = d ∨ c.1 + c.2 ≤ d.1 ∨ d.1 + d.2 ≤ c.1 := by
  have hmix : ∀ b ∈ h.blocks, ∀ m ∈ h.mapped, b.addr + b.len ≤ m.addr ∨
      m.addr + m.mappingSize ≤ b.addr := by
    intro b hb m hm
    obtain ⟨h1, h2⟩ := hl.tiles.inside hb
    rcases hl.clear m hm with h3 | h3
    · exact .inr (le_trans h3 h1)
    · exact .inl (le_trans h2 h3)
  rcases mem_cells.mp hc with ⟨b, hb, rfl⟩ | ⟨m, hm, rfl⟩
  · rcases mem_cells.mp hd with ⟨b', hb', rfl⟩ | ⟨m', hm', rfl⟩
    · rcases hl.tiles.apart hb hb' with rfl | h0
      · exact .inl rfl
      · exact .inr h0
    · exact .inr (hmix b hb m' hm')
  · rcases mem_cells.mp hd with ⟨b', hb', rfl⟩ | ⟨m', hm', rfl⟩
    · exact .inr (hmix b' hb' m hm).symm
    · rcases hl.apart m hm m' hm' with rfl | h0
      · exact .inl rfl
      · exact .inr h0

theorem Used.cell (hl : Layout base h) (hu : Used h p s) : ∃ a, p = a + headerSize ∧
    (a, headerSize + s) ∈ h.cells := by
  rcases hu with ⟨b, hb, -, rfl, rfl⟩ | ⟨m, hm, rfl, rfl⟩
  · exact ⟨b.addr, rfl, mem_cells.mpr (.inl ⟨b, hb, rfl⟩)⟩
  · exact ⟨m.addr, rfl, mem_cells.mpr (.inr ⟨m, hm, by rw [(hl.mapped m hm).2.2.1]⟩)⟩

theorem Used.facts (hl : Layout base h) (hu : Used h p s) : 16 ∣ p ∧ headerSize < p ∧ 16 ≤ s ∧
    p + s ≤ two64 := by
  obtain ⟨a, rfl, hc⟩ := hu.cell hl
  obtain ⟨h1, h2, h3, h4⟩ := hl.cell hc
  unfold headerSize at *
  exact ⟨Nat.dvd_add h1 (by decide), by omega, by omega, by omega⟩

theorem Used.apart (hl : Layout base h) (hp : Used h p s) (hq : Used h q t) :
    p = q ∧ s = t ∨ p + s + headerSize ≤ q ∨ q + t + headerSize ≤ p := by
  obtain ⟨a, rfl, ha⟩ := hp.cell hl
  obtain ⟨c, rfl, hc⟩ := hq.cell hl
  rcases hl.cells_apart ha hc with h0 | h0 | h0
  · obtain ⟨h1, h2⟩ := Prod.mk.injEq .. ▸ h0
    exact .inl ⟨by rw [h1], by omega⟩
  · dsimp only at h0
    exact .inr (.inl (by omega))
  · dsimp only at h0
    exact .inr (.inr (by omega))

theorem Used.off_headers (hl : Layout base h) (hp : Used h p s) (hc : c ∈ h.cells) :
    c.1 + headerSize ≤ p ∨ p + s ≤ c.1 := by
  obtain ⟨a, rfl, ha⟩ := hp.cell hl
  rcases hl.cells_apart ha hc with h0 | h0 | h0
  · rw [← h0]
    exact .inl le_rfl
  · dsimp only at h0
    exact .inr (by omega)
  · dsimp only at h0
    exact .inl (by omega)

theorem usedIn_append : UsedIn (pre ++ post) p s ↔ UsedIn pre p s ∨ UsedIn post p s := by
  constructor
  · rintro ⟨b, hb, hrest⟩
    rcases mem_append.mp hb with hb | hb
    · exact .inl ⟨b, hb, hrest⟩
    · exact .inr ⟨b, hb, hrest⟩
  · rintro (⟨b, hb, hrest⟩ | ⟨b, hb, hrest⟩)
    · exact ⟨b, mem_append_left _ hb, hrest⟩
    · exact ⟨b, mem_append_right _ hb, hrest⟩

theorem Layout.replace (hl : Layout base h) (hb : h.blocks = pre ++ (mid ++ post))
    (hmid : ∀ m m', Tiles Block.addr len m mid m' → Tiles Block.addr len m mid' m')
    (hsizes : ∀ b ∈ mid', 16 ∣ b.size ∧ 16 ≤ b.size) : Layout base { h with blocks :=
      pre ++ (mid' ++ post) } where
  start := hl.start
  tiles := (hb ▸ hl.tiles).replace hmid
  sizes b h0 := by
    have hold := hl.sizes
    rw [hb] at hold
    rcases mem_append.mp h0 with h0 | h0
    · exact hold b (mem_append_left _ h0)
    rcases mem_append.mp h0 with h0 | h0
    · exact hsizes b h0
    · exact hold b (mem_append_right _ (mem_append_right _ h0))
  top := hl.top
  mapped := hl.mapped
  clear := hl.clear
  apart := hl.apart

theorem Layout.free_apart (hl : Layout base h) (hb : b ∈ h.blocks) (hf : b.free = true)
    (hu : Used h q t) :
    b.addr + b.len + headerSize ≤ q ∨ q + t ≤ b.addr := by
  rcases hu with ⟨b', hb', hf', rfl, rfl⟩ | ⟨m, hm, rfl, rfl⟩
  · rcases hl.tiles.apart hb hb' with rfl | h0 | h0
    · rw [hf] at hf'
      cases hf'
    · exact .inl (by omega)
    · unfold len at h0
      exact .inr (by omega)
  · obtain ⟨h1, h2⟩ := hl.tiles.inside hb
    have := (hl.mapped m hm).2.2.1
    rcases hl.clear m hm with h0 | h0
    · exact .inr (by omega)
    · exact .inl (by omega)

theorem used_replace {blocks : List Block} (hb : h.blocks = pre ++ (mid ++ post))
    (hb' : blocks = pre ++ (mid' ++ post))
    (q t : Nat) :
    ∃ R : Prop, (Used h q t ↔ UsedIn mid q t ∨ R) ∧
      (Used { h with blocks := blocks } q t ↔ UsedIn mid' q t ∨ R) := by
  refine ⟨UsedIn pre q t ∨ UsedIn post q t ∨ ∃ m ∈ h.mapped, m.addr + headerSize = q ∧ m.size = t,
    ?_, ?_⟩
  · unfold Used
    rw [hb, usedIn_append, usedIn_append, or_left_comm, or_assoc, or_assoc]
  · unfold Used
    rw [hb', usedIn_append, usedIn_append, or_left_comm, or_assoc, or_assoc]

section
variable {w : Nat} (hw : w ≤ b.size)
include hw

theorem splitBlock_tiles {m m' : Nat} (ht : Tiles Block.addr len m [b] m') :
    Tiles Block.addr len m (splitBlock b w) m' := by
  unfold splitBlock
  split
  · exact ht
  split
  · exact ht
  obtain ⟨h1, h2⟩ := ht
  refine ⟨h1, ?_, ?_⟩
  · dsimp only [len]
    omega
  have h3 : m + b.len = m' := h2
  show m + (headerSize + w) + (headerSize + (b.size - w - headerSize)) = m'
  unfold len headerSize alignment at *
  omega

theorem splitBlock_sizes (hb : 16 ∣ b.size ∧ 16 ≤ b.size) (hw16 : 16 ∣ w ∧ 16 ≤ w) :
    ∀ c ∈ splitBlock b w, 16 ∣ c.size ∧ 16 ≤ c.size := by
  unfold splitBlock headerSize alignment
  intro c hc
  split at hc
  · rw [mem_singleton.mp hc]
    exact hb
  split at hc
  · rw [mem_singleton.mp hc]
    exact hb
  rcases mem_cons.mp hc with rfl | hc
  · exact hw16
  rw [mem_singleton.mp hc]
  dsimp only
  omega

theorem splitBlock_used (hf : b.free = false) :
    ∃ s, w ≤ s ∧ s ≤ b.size ∧ ∀ q t, UsedIn (splitBlock b w) q t ↔ q = b.addr + headerSize ∧ t = s := by
  have hone : ∀ q t, UsedIn [b] q t ↔ q = b.addr + headerSize ∧ t = b.size := by
    intro q t
    constructor
    · rintro ⟨c, hc, -, rfl, rfl⟩
      rw [mem_singleton.mp hc]
      exact ⟨rfl, rfl⟩
    · rintro ⟨rfl, rfl⟩
      exact ⟨b, mem_singleton_self b, hf, rfl, rfl⟩
  unfold splitBlock
  split
  · exact ⟨b.size, hw, le_rfl, hone⟩
  split
  · exact ⟨b.size, hw, le_rfl, hone⟩
  refine ⟨w, le_rfl, hw, fun q t => ⟨?_, ?_⟩⟩
  · rintro ⟨c, hc, hfree, rfl, rfl⟩
    rcases mem_cons.mp hc with rfl | hc
    · exact ⟨rfl, rfl⟩
    · rw [mem_singleton.mp hc] at hfree
      cases hfree
  · rintro ⟨rfl, rfl⟩
    exact ⟨_, mem_cons_self, hf, rfl, rfl⟩

end

structure Takes (base : Nat) (h h' : Heap) (p s : Nat) : Prop where
  layout : Layout base h'
  used : ∀ q t, Used h' q t ↔ Used h q t ∨ q = p ∧ t = s
  fresh : ∀ t, ¬ Used h p t
  aligns : h'.aligns = h.aligns

structure Drops (base : Nat) (h h' : Heap) (p : Nat) : Prop where
  layout : Layout base h'
  used : ∀ q t, Used h' q t ↔ Used h q t ∧ q ≠ p
  aligns : h'.aligns = h.aligns

structure Resizes (base : Nat) (h h' : Heap) (p s : Nat) : Prop where
  layout : Layout base h'
  used : ∀ q t, Used h' q t ↔ Used h q t ∧ q ≠ p ∨ q = p ∧ t = s
  aligns : h'.aligns = h.aligns

theorem firstFit_spec (hr : firstFit size bs = some r) :
    ∃ pre b post, bs = pre ++ ([b] ++ post) ∧ b.free = true ∧ size ≤ b.size ∧ r.1 = b.addr + headerSize ∧
      r.2 = pre ++ (splitBlock { b with free := false } size ++ post) := by
  induction bs generalizing r with
  | nil => cases hr
  | cons b rest ih =>
    unfold firstFit at hr
    by_cases hb : b.free = true ∧ size ≤ b.size
    · rw [if_pos hb] at hr
      cases hr
      exact ⟨[], b, rest, rfl, hb.1, hb.2, rfl, rfl⟩
    rw [if_neg hb] at hr
    obtain ⟨r', hr', rfl⟩ := Option.map_eq_some_iff.mp hr
    obtain ⟨pre, c, post, h1, h2, h3, h4, h5⟩ := ih hr'
    exact ⟨b :: pre, c, post, by rw [h1]; rfl, h2, h3, h4, by rw [h5]; rfl⟩

theorem firstFit_takes (hl : Layout base h) (hsize : 16 ∣ size ∧ 16 ≤ size)
    (hr : firstFit size h.blocks = some r) :
    ∃ s, size ≤ s ∧ Takes base h { h with blocks := r.2 } r.1 s := by
  obtain ⟨pre, b, post, hb, hfree, hle, hp, hbs⟩ := firstFit_spec hr
  have hmem : b ∈ h.blocks := by rw [hb]; simp
  obtain ⟨s, hs, -, hused⟩ := @splitBlock_used { b with free := false } size hle rfl
  have hlay : Layout base { h with blocks := r.2 } := by
    rw [hbs]
    exact hl.replace hb (fun m m' ht => @splitBlock_tiles { b with free := false } size hle m m' ht)
      (@splitBlock_sizes { b with free := false } size hle (hl.sizes b hmem) hsize)
  refine ⟨s, hs, hlay, fun q t => ?_, fun t hu => ?_, rfl⟩
  · obtain ⟨R, h1, h2⟩ := used_replace hb hbs q t
    have hnone : ¬ UsedIn [b] q t := by
      rintro ⟨c, hc, hf, -⟩
      rw [mem_singleton.mp hc, hfree] at hf
      cases hf
    rw [h2, h1, or_iff_right hnone, hused, hp, or_comm]
  · rw [hp] at hu
    have h48 : headerSize = 48 := rfl
    rcases hl.free_apart hmem hfree hu with h0 | h0
    · unfold len at h0
      omega
    · omega

theorem extendHeap_takes (hl : Layout base h) (hsize : 16 ∣ size ∧ 16 ≤ size)
    (hgrow : k.grow = true) (htop : h.brk + (headerSize + size) < two64)
    (hclear : ∀ m ∈ h.mapped, m.addr + m.mappingSize ≤ h.brk ∨ h.brk + (headerSize + size) ≤ m.addr) :
    Takes base h (extendHeap k size h).2 (extendHeap k size h).1 size := by
  have h48 : headerSize = 48 := rfl
  unfold extendHeap
  rw [if_pos hgrow]
  refine ⟨⟨hl.start, ?_, ?_, htop, hl.mapped, ?_, hl.apart⟩, fun q t => ?_, fun t hu => ?_, rfl⟩
  · exact tiles_append.mpr ⟨h.brk, hl.tiles, rfl, rfl⟩
  · intro b hb
    rcases mem_append.mp hb with hb | hb
    · exact hl.sizes b hb
    · rw [mem_singleton.mp hb]
      exact hsize
  · intro m hm
    have := (hl.mapped m hm).2.2.1
    rcases hl.clear m hm with h0 | h0
    · exact .inl h0
    rcases hclear m hm with h1 | h1
    · exfalso
      omega
    · exact .inr h1
  · unfold Used
    rw [usedIn_append, or_right_comm]
    refine or_congr_right ⟨?_, ?_⟩
    · rintro ⟨c, hc, -, rfl, rfl⟩
      rw [mem_singleton.mp hc]
      exact ⟨rfl, rfl⟩
    · rintro ⟨rfl, rfl⟩
      exact ⟨_, mem_singleton_self _, rfl, rfl, rfl⟩
  · rcases hu with ⟨b, hb, -, heq, -⟩ | ⟨m, hm, heq, -⟩
    · have := (hl.tiles.inside hb).2
      unfold len at this
      omega
    · have h2 := (hl.mapped m hm).2.2.1
      rcases hclear m hm with h1 | h1 <;> omega

theorem mapBlock_takes (hl : Layout base h) (hmmap : k.mmap = some mem)
    (hpage : 4096 ∣ mem) (hpos : 0 < mem) (htotal : 64 ≤ mappingTotal size)
    (htop : mem + mappingTotal size ≤ two64) (hheap : mem + mappingTotal size ≤ base ∨ h.brk ≤ mem)
    (hclear : ∀ m ∈ h.mapped, m.addr + m.mappingSize ≤ mem ∨ mem + mappingTotal size ≤ m.addr) :
    Takes base h (mapBlock k size h).2 (mapBlock k size h).1 (mappingTotal size - headerSize) := by
  have h48 : headerSize = 48 := rfl
  unfold mapBlock
  rw [hmmap]
  rw [if_neg (by omega)]
  refine ⟨⟨hl.start, hl.tiles, hl.sizes, hl.top, ?_, ?_, ?_⟩, fun q t => ?_, fun t hu => ?_, rfl⟩
  · intro m hm
    rcases mem_cons.mp hm with rfl | hm
    · exact ⟨hpage, hpos, by dsimp only; omega, by dsimp only; omega, htop⟩
    · exact hl.mapped m hm
  · intro m hm
    rcases mem_cons.mp hm with rfl | hm
    · exact hheap
    · exact hl.clear m hm
  · intro m hm m' hm'
    rcases mem_cons.mp hm with rfl | hm
    · rcases mem_cons.mp hm' with rfl | hm'
      · exact .inl rfl
      · exact .inr (hclear m' hm').symm
    rcases mem_cons.mp hm' with rfl | hm'
    · exact .inr (hclear m hm)
    · exact hl.apart m hm m' hm'
  · unfold Used
    dsimp only
    rw [or_assoc]
    refine or_congr_right ⟨?_, ?_⟩
    · rintro ⟨m, hm, rfl, rfl⟩
      rcases mem_cons.mp hm with rfl | hm
      · exact .inr ⟨rfl, rfl⟩
      · exact .inl ⟨m, hm, rfl, rfl⟩
    · rintro (⟨m, hm, rfl, rfl⟩ | ⟨rfl, rfl⟩)
      · exact ⟨m, mem_cons_of_mem _ hm, rfl, rfl⟩
      · exact ⟨_, mem_cons_self, rfl, rfl⟩
  · rcases hu with ⟨b, hb, -, heq, -⟩ | ⟨m, hm, heq, -⟩
    · obtain ⟨h1, h2⟩ := hl.tiles.inside hb
      unfold len at h2
      dsimp only at heq
      omega
    · have h2 := (hl.mapped m hm).2.2.1
      dsimp only at heq
      rcases hclear m hm with h1 | h1 <;> omega

theorem focus_spec (hr : focus ptr before bs = some r) :
    before.reverse ++ bs = r.1.reverse ++ r.2.1 :: r.2.2 ∧ r.2.1.addr + headerSize = ptr := by
  induction bs generalizing before with
  | nil => cases hr
  | cons b rest ih =>
    unfold focus at hr
    by_cases hb : b.addr + headerSize = ptr
    · rw [if_pos hb] at hr
      cases hr
      exact ⟨rfl, hb⟩
    rw [if_neg hb] at hr
    obtain ⟨h1, h2⟩ := ih hr
    rw [reverse_cons, append_assoc] at h1
    exact ⟨h1, h2⟩

theorem focus_found (hb : b ∈ bs) (hp : b.addr + headerSize = ptr) (before : List Block) :
    ∃ r, focus ptr before bs = some r := by
  induction bs generalizing before with
  | nil => cases hb
  | cons c rest ih =>
    unfold focus
    by_cases hc : c.addr + headerSize = ptr
    · exact ⟨_, if_pos hc⟩
    rw [if_neg hc]
    rcases mem_cons.mp hb with rfl | hb
    · exact absurd hp hc
    · exact ih hb _

theorem not_usedIn_free {c : Block} (hc : c.free = true) : ¬ UsedIn [c] q t := by
  rintro ⟨d, hd, hf, -⟩
  rw [mem_singleton.mp hd, hc] at hf
  cases hf

theorem usedIn_cons_free {c : Block} (hc : c.free = true) : UsedIn (c :: bs) q t ↔ UsedIn bs q t := by
  rw [← singleton_append, usedIn_append, or_iff_right (not_usedIn_free hc)]

theorem Layout.sum_lt (hl : Layout base h) {c : Block} (hb : h.blocks = pre ++ (b :: c :: post)) :
    b.size + (headerSize + c.size) < two64 ∧ b.addr + b.len = c.addr := by
  have ht := hl.tiles
  rw [hb] at ht
  obtain ⟨m, -, h1, h2, h3⟩ := tiles_append.mp ht
  have := h3.le
  have := hl.top
  unfold len at *
  omega

theorem mergeNext_drops (hl : Layout base h) (hb : h.blocks = pre ++ b :: post)
    (hf : b.free = false) :
    ∃ c rest, mergeNext { b with free := true } post = (c, rest) ∧ c.free = true ∧
      Drops base h { h with blocks := pre ++ c :: rest } (b.addr + headerSize) := by
  -- both cases exchange `mid` for one free block that covers `b`
  have hdrop : ∀ (c : Block) (mid rest : List Block), post = mid ++ rest →
    (∀ d ∈ mid, d.free = true) → c.free = true → c.addr = b.addr → b.len ≤ c.len → 16 ∣ c.size →
      (∀ m m', Tiles Block.addr len m (b :: mid) m' → Tiles Block.addr len m [c] m') →
      Drops base h { h with blocks := pre ++ c :: rest } (b.addr + headerSize) := by
    intro c mid rest hpost hmid hc haddr hlen hsize htiles
    have hbs : h.blocks = pre ++ ((b :: mid) ++ rest) := by rw [hb, hpost]; rfl
    have hmem : b ∈ h.blocks := by rw [hb]; simp
    have hmin := (hl.sizes b hmem).2
    have hlay : Layout base { h with blocks := pre ++ ([c] ++ rest) } := by
      refine hl.replace hbs htiles fun d hd => ?_
      rw [mem_singleton.mp hd]
      unfold len at hlen
      exact ⟨hsize, by omega⟩
    refine ⟨hlay, fun q t => ?_, rfl⟩
    obtain ⟨R, h1, h2⟩ := @used_replace _ _ _ [c] _ _ hbs rfl q t
    have hone : UsedIn (b :: mid) q t ↔ q = b.addr + headerSize ∧ t = b.size := by
      constructor
      · rintro ⟨d, hd, hfree, rfl, rfl⟩
        rcases mem_cons.mp hd with rfl | hd
        · exact ⟨rfl, rfl⟩
        · rw [hmid d hd] at hfree
          cases hfree
      · rintro ⟨rfl, rfl⟩
        exact ⟨b, mem_cons_self, hf, rfl, rfl⟩
    have hnot : ∀ t, ¬ Used { h with blocks := pre ++ ([c] ++ rest) } (b.addr + headerSize) t := by
      intro t hu
      have := (hu.facts hlay).2.2.1
      rcases hlay.free_apart (b := c) (by simp) hc hu with h0 | h0
      · unfold len at h0 hlen
        omega
      · omega
    show Used { h with blocks := pre ++ ([c] ++ rest) } q t ↔ _
    constructor
    · intro hu
      refine ⟨h1.mpr (.inr ((h2.mp hu).resolve_left (not_usedIn_free hc))), ?_⟩
      rintro rfl
      exact hnot t hu
    · rintro ⟨hu, hne⟩
      rcases h1.mp hu with h0 | h0
      · exact absurd (hone.mp h0).1 hne
      · exact h2.mpr (.inr h0)
  have hmem : b ∈ h.blocks := by rw [hb]; simp
  cases hpost : post with
  | nil => exact ⟨_, [], rfl, rfl, hdrop _ [] [] hpost (fun _ h0 => absurd h0 not_mem_nil) rfl rfl le_rfl
      (hl.sizes b hmem).1 fun _ _ ht => ht⟩
  | cons n rest =>
    unfold mergeNext
    cases hn : n.free with
    | false =>
      exact ⟨_, n :: rest, if_neg (by rw [hn]; decide), rfl,
        hdrop _ [] (n :: rest) hpost (fun _ h0 => absurd h0 not_mem_nil) rfl rfl
        le_rfl (hl.sizes b hmem).1 fun _ _ ht => ht⟩
    | true =>
      rw [hpost] at hb
      have hmemn : n ∈ h.blocks := by rw [hb]; simp
      have hlt := (hl.sum_lt hb).1
      have hmod : (b.size + (headerSize + n.size)) % two64 = b.size + (headerSize + n.size) :=
        Nat.mod_eq_of_lt hlt
      refine ⟨_, rest, if_pos hn, rfl, hdrop _ [n] rest hpost ?_ rfl rfl ?_ ?_ ?_⟩
      · intro d hd
        rw [mem_singleton.mp hd]
        exact hn
      · dsimp only [len]
        rw [hmod]
        omega
      · dsimp only
        rw [hmod]
        exact Nat.dvd_add (hl.sizes b hmem).1 (Nat.dvd_add (by decide) (hl.sizes n hmemn).1)
      rintro m m' ⟨h1, h2, h3⟩
      refine ⟨h1, ?_⟩
      dsimp only [len]
      rw [hmod, ← (h3 : _ = m')]
      unfold len
      show m + _ = _
      omega

structure SameUse (base : Nat) (h h' : Heap) : Prop where
  layout : Layout base h'
  used : ∀ q t, Used h' q t ↔ Used h q t
  aligns : h'.aligns = h.aligns

theorem Drops.trans_same (hd : Drops base h h' p) (hs : SameUse base h' h'') : Drops base h h'' p :=
  ⟨hs.layout, fun q t => (hs.used q t).trans (hd.used q t), hs.aligns.trans hd.aligns⟩

theorem mergePrev_same (hl : Layout base h) (hb : h.blocks = before.reverse ++ b :: rest)
    (hf : b.free = true) :
    ∃ before' c, mergePrev b before = (before', c) ∧ c.free = true ∧
      SameUse base h { h with blocks := before'.reverse ++ c :: rest } := by
  cases before with
  | nil =>
    refine ⟨[], b, rfl, hf, ?_⟩
    have : { h with blocks := [].reverse ++ b :: rest } = h := by rw [← hb]
    rw [this]
    exact ⟨hl, fun _ _ => Iff.rfl, rfl⟩
  | cons p before =>
    cases hp : p.free with
    | false =>
      refine ⟨p :: before, b, if_neg (by rw [hp]; decide), hf, ?_⟩
      have : { h with blocks := (p :: before).reverse ++ b :: rest } = h := by rw [← hb]
      rw [this]
      exact ⟨hl, fun _ _ => Iff.rfl, rfl⟩
    | true =>
      have hbs : h.blocks = before.reverse ++ ([p, b] ++ rest) := by
        rw [hb, reverse_cons, append_assoc]
        rfl
      have hlt := (hl.sum_lt hbs).1
      have hmod : (p.size + (headerSize + b.size)) % two64 = p.size + (headerSize + b.size) :=
        Nat.mod_eq_of_lt hlt
      have hmemp : p ∈ h.blocks := by rw [hbs]; simp
      have hmemb : b ∈ h.blocks := by rw [hbs]; simp
      refine ⟨before, _, if_pos hp, hp, ?_⟩
      refine ⟨?_, fun q t => ?_, rfl⟩
      · refine @Layout.replace _ _ _ _ [_] _ hl hbs ?_ fun d hd => ?_
        · rintro m m' ⟨h1, h2, h3⟩
          refine ⟨h1, ?_⟩
          dsimp only [len]
          rw [hmod, ← (h3 : _ = m')]
          unfold len
          show m + _ = _
          omega
        · rw [mem_singleton.mp hd]
          rw [hmod]
          exact ⟨Nat.dvd_add (hl.sizes p hmemp).1 (Nat.dvd_add (by decide) (hl.sizes b hmemb).1),
            le_trans (hl.sizes p hmemp).2 (Nat.le_add_right _ _)⟩
      · obtain ⟨R, h1, h2⟩ := @used_replace _ _ _ [_] _ _ hbs rfl q t
        rw [usedIn_cons_free hp, or_iff_right (not_usedIn_free hf)] at h1
        rw [h1]
        exact h2.trans (or_iff_right (not_usedIn_free hp))

end BlockOS.Libc
