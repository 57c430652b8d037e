import BlockOS.Libc.Live
import BlockOS.Lib.Runs

/-! Runs of the heap functions. -/

namespace BlockOS.Libc
open Lib Runs List

inductive HeapOp where
  | malloc (size : Nat)
  | calloc (nmemb size : Nat)
  | free (ptr : Nat)
  | realloc (ptr size : Nat)
  | alignedAlloc (al size : Nat)

def HeapOp.run (k : Kernel) (h : Heap) : HeapOp → Nat × Heap
  | .malloc size => Libc.malloc k size h
  | .calloc nmemb size => Libc.calloc k nmemb size h
  | .free ptr => (0, Libc.free k ptr h)
  | .realloc ptr size => Libc.realloc k ptr size h
  | .alignedAlloc al size => Libc.alignedAlloc k al size h

def HeapOp.bytes : HeapOp → Nat
  | .malloc size => size
  | .calloc nmemb size => nmemb * size
  | .free _ => 0
  | .realloc _ size => size
  | .alignedAlloc _ size => size

def HeapOp.givesUp (r : Nat) : HeapOp → Nat
  | .free ptr => ptr
  | .realloc ptr size => if size = 0 ∨ r ≠ 0 then ptr else 0
  | _ => 0

structure Program where
  heap : Heap
  live : List Live := []

def Heap.rawOf (h : Heap) (ptr : Nat) : Nat := (h.alignedHeader ptr).elim ptr AlignHeader.raw

def programStep (y : Program) (a : HeapOp × Kernel) : Program :=
  let r := a.1.run a.2 y.heap
  { heap := r.2
    live := (if r.1 = 0 then [] else [{ ptr := r.1, bytes := a.1.bytes, raw := r.2.rawOf r.1 }]) ++
      without y.live (a.1.givesUp r.1) }

def Heap.blockSize (h : Heap) (p : Nat) : Nat :=
  match h.mapped.find? fun m => m.addr + headerSize = p with
  | some m => m.size
  | none =>
    match h.blocks.find? fun b => b.addr + headerSize = p with
    | some b => b.size
    | none => 0

def Heap.usable (h : Heap) (ptr : Nat) : Nat := h.rawOf ptr + h.blockSize (h.rawOf ptr) - ptr

def Heap.headers (h : Heap) : List (Nat × Nat) :=
  h.blocks.map (fun b => (b.addr, headerSize)) ++ (h.mapped.map (fun m => (m.addr, headerSize)) ++
    h.aligns.map fun a => (a.addr, alignHeaderSize))

def Apart (a n b m : Nat) : Prop := a + n ≤ b ∨ b + m ≤ a

/-- What is promised of a result `r` in the state after the call. -/
structure Promised (y : Program) (r bytes : Nat) : Prop where
  aligned : 16 ∣ r
  usable : bytes ≤ y.heap.usable r
  once : (y.live.map Live.ptr).count r ≤ 1
  others : ∀ w ∈ y.live, w.ptr ≠ r → Apart r bytes w.ptr w.bytes
  headers : ∀ c ∈ y.heap.headers, Apart r bytes c.1 c.2

def ResultOk (y : Program) (a : HeapOp × Kernel) : Prop :=
  (a.1.run a.2 y.heap).1 ≠ 0 → Promised (programStep y a) (a.1.run a.2 y.heap).1 a.1.bytes

def alignedArg (al size : Nat) : Option Nat :=
  if !isPowerOfTwo al ∨ al < 8 then none
  else if size ≠ 0 ∧ size % al ≠ 0 then none
  else if (if size = 0 then al else size) + al + alignHeaderSize > two64 - 1 then none
  else some ((if size = 0 then al else size) + (al + alignHeaderSize))

def HeapOp.mallocArg (h : Heap) : HeapOp → Option Nat
  | .malloc size => some size
  | .calloc nmemb size =>
    if nmemb ≠ 0 ∧ size > (two64 - 1) / nmemb then none
    else some (if nmemb * size % two64 ≠ 0 then nmemb * size % two64 else 1)
  | .free _ => none
  | .realloc ptr size =>
    if ptr = 0 then some size
    else if size = 0 then none
    else
      match h.alignedHeader ptr with
      | some a => if size ≤ a.size then none else alignedArg a.alignment size
      | none => some size
  | .alignedAlloc al size => alignedArg al size

def HeapOp.ValidPointer (live : List Live) : HeapOp → Prop
  | .free ptr => ptr = 0 ∨ ∃ v ∈ live, v.ptr = ptr
  | .realloc ptr _ => ptr = 0 ∨ ∃ v ∈ live, v.ptr = ptr
  | _ => True

def Permitted (base : Nat) (y : Program) (a : HeapOp × Kernel) : Prop :=
  a.1.ValidPointer y.live ∧ ∀ n, a.1.mallocArg y.heap = some n → a.2.Fresh base y.heap (mallocSize n)

/-- No size wraps, or the kernel maps nothing for it. -/
def NoWrap (y : Program) (a : HeapOp × Kernel) : Prop :=
  ∀ n, a.1.mallocArg y.heap = some n → Wraps n → a.2.mmap = none

variable {base : Nat} {h h' : Heap} {k : Kernel} {live : List Live} {v : Live} {y : Program}
  {p s n : Nat}

theorem Holds.rawOf (hs : Holds h v s) : h.rawOf v.ptr = v.raw := by
  unfold Heap.rawOf
  rcases hs.header with ⟨h0, h1⟩ | ⟨a, h0, h1, -⟩
  · rw [h0]
    exact h1
  · rw [h0]
    exact h1

theorem Used.blockSize (hl : Layout base h) (hu : Used h p s) : h.blockSize p = s := by
  have h48 : headerSize = 48 := rfl
  unfold Heap.blockSize
  cases hm : h.mapped.find? fun m => m.addr + headerSize = p with
  | some m =>
    have hmem := mem_of_find?_eq_some hm
    have heq : m.addr + headerSize = p := by simpa using find?_some hm
    have hu' : Used h p m.size := .inr ⟨m, hmem, heq, rfl⟩
    rcases hu'.apart hl hu with h0 | h0 | h0
    · exact h0.2
    · omega
    · omega
  | none =>
    rcases hu with ⟨b, hb, -, hp, rfl⟩ | ⟨m, hmem, hp, -⟩
    · dsimp only
      cases hf : h.blocks.find? fun b => b.addr + headerSize = p with
      | none =>
        have := find?_eq_none.mp hf b hb
        simp [hp] at this
      | some c =>
        have hc := mem_of_find?_eq_some hf
        have heq : c.addr + headerSize = p := by simpa using find?_some hf
        rcases hl.tiles.apart hc hb with h0 | h0 | h0
        · rw [h0]
        · unfold Block.len at h0
          omega
        · unfold Block.len at h0
          omega
    · have := find?_eq_none.mp hm m hmem
      simp [hp] at this

theorem Inv.ptrs_nodup (hi : Inv base h live) : (live.map Live.ptr).Nodup := by
  refine .of_map h.rawOf ?_
  have hraw : live.map (h.rawOf ∘ Live.ptr) = live.map Live.raw :=
    map_congr_left fun v hv => (hi.holds v hv).elim fun _ hs => hs.rawOf
  rw [map_map, hraw]
  exact hi.raws

theorem Inv.promised (hi : Inv base h live) (hv : v ∈ live) :
    Promised { heap := h, live := live } v.ptr v.bytes := by
  obtain ⟨s, hs⟩ := hi.holds v hv
  have hlow := hs.low
  have hhigh := hs.high
  refine ⟨hs.aligned, ?_, nodup_iff_count_le_one.mp hi.ptrs_nodup _, fun w hw hne => ?_, fun c hc => ?_⟩
  · show v.bytes ≤ h.usable v.ptr
    unfold Heap.usable
    rw [hs.rawOf, hs.used.blockSize hi.layout]
    omega
  · obtain ⟨t, ht⟩ := hi.holds w hw
    have h1 := ht.low
    have h2 := ht.high
    rcases hi.apart hv hw (fun h0 => hne h0.symm) hs ht with h0 | h0
    · exact .inl (by omega)
    · exact .inr (by omega)
  · have hcell : ∀ d ∈ h.cells, Apart v.ptr v.bytes d.1 headerSize := by
      intro d hd
      rcases hs.used.off_headers hi.layout hd with h0 | h0
      · exact .inr (by omega)
      · exact .inl (by omega)
    rcases mem_append.mp hc with hc | hc
    · obtain ⟨b, hb, rfl⟩ := mem_map.mp hc
      exact hcell (b.addr, b.len) (mem_cells.mpr (.inl ⟨b, hb, rfl⟩))
    rcases mem_append.mp hc with hc | hc
    · obtain ⟨m, hm, rfl⟩ := mem_map.mp hc
      exact hcell (m.addr, m.mappingSize) (mem_cells.mpr (.inr ⟨m, hm, rfl⟩))
    obtain ⟨a, ha, rfl⟩ := mem_map.mp hc
    obtain ⟨w, hw, hptr, hle⟩ := hi.header_owner ha
    by_cases hne : v.ptr = w.ptr
    · exact .inr (by omega)
    obtain ⟨t, ht⟩ := hi.holds w hw
    have h1 := ht.inside
    rcases hi.apart hv hw hne hs ht with h0 | h0
    · exact .inl (by omega)
    · exact .inr (by omega)

def Leaves (base : Nat) (kept : List Live) (bytes : Nat) (r : Nat × Heap) : Prop :=
  r.1 = 0 ∧ Inv base r.2 kept ∨ r.1 ≠ 0 ∧ ∃ raw,
    Inv base r.2 ({ ptr := r.1, bytes := bytes, raw := raw } :: kept)

theorem without_zero (hi : Inv base h live) : without live 0 = live :=
  filter_eq_self.mpr fun v hv => by
    have := hi.pos hv
    simp
    omega

theorem malloc_none (hw : Wraps n) (hk : k.mmap = none) : malloc k n h = (0, h) := by
  have hbig := wraps_iff.mp hw
  unfold malloc
  rw [if_neg (by unfold two64 at hbig; omega), if_neg (by unfold mmapThreshold two64 at *; omega)]
  unfold mapBlock
  rw [hk]
  dsimp only
  split <;> rfl

theorem malloc_good (hi : Inv base h live) (hk : k.Fresh base h (mallocSize n))
    (hw : Wraps n → k.mmap = none) :
    malloc k n h = (0, h) ∨ (malloc k n h).1 ≠ 0 ∧ ∃ s, n ≤ s ∧
      Takes base h (malloc k n h).2 (malloc k n h).1 s := by
  by_cases hwrap : Wraps n
  · exact .inl (malloc_none hwrap (hw hwrap))
  rcases malloc_cases hi.layout hk with h0 | ⟨h0, s, htakes, -, hle⟩
  · exact .inl h0
  · exact .inr ⟨h0, s, hle hwrap, htakes⟩

theorem malloc_leaves (hi : Inv base h live) (hk : k.Fresh base h (mallocSize n))
    (hw : Wraps n → k.mmap = none)
    (hb : bytes ≤ n) : Leaves base live bytes (malloc k n h) := by
  rcases malloc_good hi hk hw with h0 | ⟨h0, s, hle, htakes⟩
  · rw [h0]
    exact .inl ⟨rfl, hi⟩
  · exact .inr ⟨h0, _, htakes.inv hi (by omega)⟩

theorem alignedAlloc_leaves (hi : Inv base h live)
    (hk : ∀ n, alignedArg al size = some n → k.Fresh base h (mallocSize n))
    (hw : ∀ n, alignedArg al size = some n → Wraps n → k.mmap = none) :
    Leaves base live size (alignedAlloc k al size h) ∧
      ((alignedAlloc k al size h).1 = 0 → (alignedAlloc k al size h).2 = h) := by
  unfold alignedAlloc
  unfold alignedArg at hk hw
  by_cases h1 : (!isPowerOfTwo al) = true ∨ al < 8
  · rw [if_pos h1]
    exact ⟨.inl ⟨rfl, hi⟩, fun _ => rfl⟩
  rw [if_neg h1] at hk hw ⊢
  by_cases h2 : size ≠ 0 ∧ size % al ≠ 0
  · rw [if_pos h2]
    exact ⟨.inl ⟨rfl, hi⟩, fun _ => rfl⟩
  rw [if_neg h2] at hk hw ⊢
  by_cases h3 : (if size = 0 then al else size) + al + alignHeaderSize > two64 - 1
  · rw [if_pos h3]
    exact ⟨.inl ⟨rfl, hi⟩, fun _ => rfl⟩
  rw [if_neg h3] at hk hw ⊢
  obtain ⟨hpow, hal⟩ := not_or.mp h1
  rcases malloc_good hi (hk _ rfl) (hw _ rfl) with h0 | ⟨h0, s, hle, htakes⟩
  · rw [h0]
    exact ⟨.inl ⟨rfl, hi⟩, fun _ => rfl⟩
  rw [if_neg h0]
  have hinv := htakes.inv_aligned (n := size) hi (by simpa using hpow) (Nat.le_of_not_lt hal) hle
    (by split <;> omega)
  have hpos := hinv.pos mem_cons_self
  exact ⟨.inr ⟨Nat.pos_iff_ne_zero.mp hpos, _, hinv⟩, fun h4 => absurd h4 (Nat.pos_iff_ne_zero.mp hpos)⟩

def Moves (base : Nat) (h : Heap) (live : List Live) (v : Live) (bytes : Nat) (r : Nat × Heap) :
    Prop :=
  r = (0, h) ∨ r.1 ≠ 0 ∧ ∃ raw,
    Inv base r.2 ({ ptr := r.1, bytes := bytes, raw := raw } :: without live v.ptr)

theorem Leaves.moved (hr : Leaves base live bytes r) (hzero : r.1 = 0 → r.2 = h)
    (hv : v ∈ live) : Moves base h live v bytes
      (if r.1 = 0 then r else (r.1, Libc.free k v.ptr r.2)) := by
  rcases hr with ⟨h0, -⟩ | ⟨h0, raw, hinv⟩
  · rw [if_pos h0]
    exact .inl (Prod.ext h0 (hzero h0))
  rw [if_neg h0]
  refine .inr ⟨h0, raw, ?_⟩
  have hfree := hinv.free (k := k) (mem_cons_of_mem _ hv)
  have hne : r.1 ≠ v.ptr := by
    intro heq
    obtain ⟨s, hs⟩ := hinv.holds v (mem_cons_of_mem _ hv)
    have hsame := hinv.eq_of_inside (mem_cons_of_mem _ hv) mem_cons_self hs
      (by dsimp only; rw [heq]; exact hs.low) (by dsimp only; rw [heq]; exact hs.inside)
    -- both would lie in one payload
    have := nodup_cons.mp hinv.raws
    exact this.1 (mem_map.mpr ⟨v, hv, by rw [← hsame]⟩)
  unfold without at hfree ⊢
  rwa [filter_cons_of_pos (by simpa using hne)] at hfree

theorem moveBlock_moves (hi : Inv base h live) (hv : v ∈ live) (hk : k.Fresh base h (mallocSize n))
    (hw : Wraps n → k.mmap = none) : Moves base h live v n (moveBlock k v.ptr n h) := by
  refine (malloc_leaves hi hk hw le_rfl).moved (fun h0 => ?_) hv
  rcases malloc_good hi hk hw with h1 | ⟨h1, -⟩
  · rw [h1]
  · exact absurd h0 h1

theorem Resizes.moves (hi : Inv base h live) (hv : v ∈ live) (hraw : v.ptr = v.raw)
    (hr : Resizes base h h' v.ptr s)
    (hn : n ≤ s) : Moves base h live v n (v.ptr, h') := by
  have hpos := hi.pos hv
  obtain ⟨s0, hs0⟩ := hi.holds v hv
  have hu : Used h' v.ptr s := (hr.used _ _).mpr (.inr ⟨rfl, rfl⟩)
  have hmin := (hu.facts hr.layout).2.2.1
  refine .inr ⟨Nat.pos_iff_ne_zero.mp hpos, v.raw, ?_⟩
  refine hi.resize hv hr.layout
    (fun q t h0 hne => (hr.used q t).mpr (.inl ⟨h0, by rw [hraw]; exact hne⟩)) hr.aligns
    ⟨hraw ▸ hu, hs0.low, by dsimp only; omega, by dsimp only; omega, hs0.aligned, .inl ⟨?_, hraw⟩⟩
  unfold Heap.alignedHeader
  rw [hr.aligns]
  exact hi.no_header (hraw ▸ hs0.used)

theorem reallocListed_moves (hi : Inv base h live) (hv : v ∈ live) (hraw : v.ptr = v.raw)
    (hn : n ≠ 0)
    (hk : k.Fresh base h (mallocSize n)) (hw : Wraps n → k.mmap = none)
    (hb : h.blocks = before.reverse ++ b :: rest) (hfree : b.free = false)
      (hptr : b.addr + headerSize = v.ptr) :
    Moves base h live v n (reallocListed k v.ptr n before b rest h) := by
  have hsize : alignUp n alignment = mallocSize n := by
    unfold mallocSize
    rw [if_neg hn]
  have hmove := moveBlock_moves hi hv hk hw
  unfold reallocListed
  rw [hsize]
  rcases mallocSize_spec (n := n) with h0 | ⟨hle, h16, hmin, -⟩
  · rw [if_pos (.inr h0)]
    exact .inl rfl
  rw [if_neg (not_or.mpr ⟨by rw [hfree]; decide, by omega⟩)]
  by_cases hfit : mallocSize n ≤ b.size
  · rw [if_pos hfit]
    obtain ⟨s, hs, hr⟩ := @shrink_resizes _ _ _ _ rest _ hi.layout hb hfree hfit ⟨h16, hmin⟩
    rw [hptr] at hr
    exact hr.moves hi hv hraw (by omega)
  · rw [if_neg hfit]
    cases rest with
    | nil => exact hmove
    | cons c rest =>
      dsimp only
      by_cases hgrow : c.free = true ∧ mallocSize n ≤ (b.size + headerSize + c.size) % two64
      · rw [if_pos hgrow]
        obtain ⟨s, hs, hr⟩ := @grow_resizes _ _ _ _ rest _ _ hi.layout hb hfree hgrow.1 hgrow.2
          ⟨h16, hmin⟩
        rw [hptr] at hr
        exact hr.moves hi hv hraw (by omega)
      · rw [if_neg hgrow]
        exact hmove

theorem resizes_self (hl : Layout base h) (hu : Used h p s) : Resizes base h h p s := by
  refine ⟨hl, fun q t => ⟨fun h0 => ?_, ?_⟩, rfl⟩
  · have h48 : headerSize = 48 := rfl
    by_cases hq : q = p
    · rw [hq] at h0
      rcases h0.apart hl hu with h1 | h1 | h1
      · exact .inr ⟨hq, h1.2⟩
      · omega
      · omega
    · exact .inl ⟨h0, hq⟩
  · rintro (⟨h0, -⟩ | ⟨rfl, rfl⟩)
    · exact h0
    · exact hu

theorem realloc_moves (hi : Inv base h live) (hv : v ∈ live) (hn : n ≠ 0)
    (hk : ∀ m, (HeapOp.realloc v.ptr n).mallocArg h = some m → k.Fresh base h (mallocSize m))
    (hw : ∀ m, (HeapOp.realloc v.ptr n).mallocArg h = some m → Wraps m → k.mmap = none) :
    Moves base h live v n (realloc k v.ptr n h) := by
  have hpos : v.ptr ≠ 0 := Nat.pos_iff_ne_zero.mp (hi.pos hv)
  obtain ⟨s, hs⟩ := hi.holds v hv
  unfold realloc
  unfold HeapOp.mallocArg at hk hw
  dsimp only at hk hw
  rw [if_neg hpos, if_neg hn] at hk hw ⊢
  rcases hs.header with ⟨hnone, hraw⟩ | ⟨a, ha, hrawa, hlow, hbytes, hhigh⟩
  · rw [hnone] at hk hw ⊢
    have hfresh := hk n rfl
    have hwrap := hw n rfl
    have hu : Used h v.ptr s := hraw ▸ hs.used
    have hsize : alignUp n alignment = mallocSize n := by
      unfold mallocSize
      rw [if_neg hn]
    cases hm : h.mapped.find? fun m => m.addr + headerSize = v.ptr with
    | some m =>
      have hmem := mem_of_find?_eq_some hm
      have heq : m.addr + headerSize = v.ptr := by simpa using find?_some hm
      dsimp only
      rw [hsize]
      rcases mallocSize_spec (n := n) with h0 | ⟨hle, -, hmin, -⟩
      · rw [if_pos h0]
        exact .inl rfl
      rw [if_neg (by omega)]
      by_cases hfit : mallocSize n ≤ m.size
      · rw [if_pos hfit]
        exact (resizes_self hi.layout (.inr ⟨m, hmem, heq, rfl⟩)).moves hi hv hraw (by omega)
      · rw [if_neg hfit]
        exact moveBlock_moves hi hv hfresh hwrap
    | none =>
      rcases hu with ⟨b, hb, hfree, hp, -⟩ | ⟨m, hmem, hp, -⟩
      · obtain ⟨r, hr⟩ := focus_found hb hp []
        obtain ⟨hsplit, haddr⟩ := focus_spec hr
        rw [reverse_nil, nil_append] at hsplit
        have hmem : r.2.1 ∈ h.blocks := by rw [hsplit]; simp
        have hsame : r.2.1 = b := by
          have h48 : headerSize = 48 := rfl
          rcases hi.layout.tiles.apart hmem hb with h0 | h0 | h0
          · exact h0
          · unfold Block.len at h0
            omega
          · unfold Block.len at h0
            omega
        rw [hr]
        exact reallocListed_moves hi hv hraw hn hfresh hwrap hsplit (by rw [hsame]; exact hfree) haddr
      · have := find?_eq_none.mp hm m hmem
        simp [hp] at this
  · rw [ha] at hk hw ⊢
    dsimp only at hk hw ⊢
    by_cases hfit : n ≤ a.size
    · rw [if_pos hfit]
      refine .inr ⟨hpos, v.raw, ?_⟩
      refine hi.resize hv hi.layout (fun _ _ h0 _ => h0) rfl
        ⟨hs.used, hs.low, hs.inside,
          by dsimp only; omega, hs.aligned, .inr ⟨a, ha, hrawa, hlow, hfit, hhigh⟩⟩
    · rw [if_neg hfit] at hk hw ⊢
      obtain ⟨hleaves, hzero⟩ := alignedAlloc_leaves hi hk hw
      exact hleaves.moved hzero hv

theorem calloc_leaves (hi : Inv base h live)
    (hk : ∀ q, (HeapOp.calloc m n).mallocArg h = some q → k.Fresh base h (mallocSize q))
    (hw : ∀ q, (HeapOp.calloc m n).mallocArg h = some q → Wraps q → k.mmap = none) :
    Leaves base live (m * n) (calloc k m n h) := by
  unfold calloc
  unfold HeapOp.mallocArg at hk hw
  dsimp only at hk hw
  by_cases hover : m ≠ 0 ∧ n > (two64 - 1) / m
  · rw [if_pos hover]
    exact .inl ⟨rfl, hi⟩
  rw [if_neg hover] at hk hw ⊢
  have hlt : m * n < two64 := by
    by_cases hm : m = 0
    · rw [hm, Nat.zero_mul]
      decide
    have hle : n ≤ (two64 - 1) / m := Nat.le_of_not_lt fun h0 => hover ⟨hm, h0⟩
    have := Nat.mul_le_mul_left m hle
    have := Nat.mul_div_le (two64 - 1) m
    unfold two64 at *
    omega
  refine malloc_leaves hi (hk _ rfl) (hw _ rfl) ?_
  rw [Nat.mod_eq_of_lt hlt]
  split <;> omega

theorem programStep_inv (hi : Inv base y.heap y.live) (hp : Permitted base y a) (hw : NoWrap y a) :
    Leaves base (without y.live (a.1.givesUp (a.1.run a.2 y.heap).1)) a.1.bytes
      (a.1.run a.2 y.heap) := by
  obtain ⟨op, k⟩ := a
  obtain ⟨hptr, hk⟩ := hp
  cases op with
  | malloc size =>
    show Leaves base (without y.live 0) size (malloc k size y.heap)
    rw [without_zero hi]
    exact malloc_leaves hi (hk _ rfl) (hw _ rfl) le_rfl
  | calloc nmemb size =>
    show Leaves base (without y.live 0) (nmemb * size) (calloc k nmemb size y.heap)
    rw [without_zero hi]
    exact calloc_leaves hi hk hw
  | free ptr =>
    refine .inl ⟨rfl, ?_⟩
    show Inv base (Libc.free k ptr y.heap) (without y.live ptr)
    rcases hptr with rfl | ⟨v, hv, rfl⟩
    · rw [without_zero hi]
      exact hi
    · exact hi.free hv
  | realloc ptr size =>
    show Leaves base
      (without y.live (if size = 0 ∨ (realloc k ptr size y.heap).1 ≠ 0 then ptr else 0)) size
      (realloc k ptr size y.heap)
    rcases hptr with rfl | ⟨v, hv, rfl⟩
    · rw [ite_self, without_zero hi]
      exact malloc_leaves hi (hk _ rfl) (hw _ rfl) le_rfl
    by_cases hsize : size = 0
    · have hrun : realloc k v.ptr size y.heap = (0, Libc.free k v.ptr y.heap) := by
        unfold realloc
        rw [if_neg (Nat.pos_iff_ne_zero.mp (hi.pos hv)), if_pos hsize]
      rw [if_pos (.inl hsize), hrun]
      exact .inl ⟨rfl, hi.free hv⟩
    · rcases realloc_moves hi hv hsize hk hw with h0 | ⟨h0, raw, hinv⟩
      · rw [h0, if_neg (by simp [hsize]), without_zero hi]
        exact .inl ⟨rfl, hi⟩
      · rw [if_pos (.inr h0)]
        exact .inr ⟨h0, raw, hinv⟩
  | alignedAlloc al size =>
    show Leaves base (without y.live 0) size (alignedAlloc k al size y.heap)
    rw [without_zero hi]
    exact (alignedAlloc_leaves hi hk hw).1

theorem Leaves.programStep
    (hl : Leaves base (without y.live (a.1.givesUp (a.1.run a.2 y.heap).1)) a.1.bytes
      (a.1.run a.2 y.heap)) :
    Inv base (programStep y a).heap (programStep y a).live ∧ ResultOk y a := by
  unfold ResultOk Libc.programStep
  dsimp only
  rcases hl with ⟨h0, hinv⟩ | ⟨h0, raw, hinv⟩
  · rw [if_pos h0]
    exact ⟨hinv, fun h1 => absurd h0 h1⟩
  rw [if_neg h0]
  obtain ⟨s, hs⟩ := hinv.holds _ mem_cons_self
  have hraw := hs.rawOf
  dsimp only at hraw
  rw [hraw]
  exact ⟨hinv, fun _ => hinv.promised mem_cons_self⟩

def start (base : Nat) : Program := { heap := { brk := base } }

theorem start_inv (hbase : 16 ∣ base ∧ 0 < base) (htop : base < two64) :
    Inv base (start base).heap (start base).live where
  layout := ⟨hbase, rfl, fun _ h => absurd h not_mem_nil, htop, fun _ h => absurd h not_mem_nil,
    fun _ h => absurd h not_mem_nil, fun _ h => absurd h not_mem_nil⟩
  holds _ h := absurd h not_mem_nil
  raws := nodup_nil
  headers _ h := absurd h not_mem_nil

theorem results_promised (base : Nat) (hbase : 16 ∣ base ∧ 0 < base) (htop : base < two64)
    (ops : List (HeapOp × Kernel))
    (hp : Along programStep (Permitted base) (start base) ops)
      (hw : Along programStep NoWrap (start base) ops) :
    Along programStep ResultOk (start base) ops :=
  Along.imp (I := fun y => Inv base y.heap y.live)
    (fun _ _ hi ha => (programStep_inv hi ha.1 ha.2).programStep.1)
    (fun _ _ hi ha => (programStep_inv hi ha.1 ha.2).programStep.2) (start_inv hbase htop)
      (Along.and_iff.mpr ⟨hp, hw⟩)

def plainKernel : Kernel := ⟨true, none, true⟩

theorem permitted_plain (hm : y.heap.mapped = [])
    (hbrk : y.heap.brk + (headerSize + mmapThreshold) < two64)
    (hv : op.ValidPointer y.live) : Permitted base y (op, plainKernel) := by
  refine ⟨hv, fun n _ => ⟨fun hlt _ => ⟨by omega, fun m h0 => ?_⟩, fun _ _ h0 => by cases h0⟩⟩
  rw [hm] at h0
  cases h0

def sampleOps : List (HeapOp × Kernel) :=
  [(.malloc 100, plainKernel), (.alignedAlloc 64 128, plainKernel),
    (.realloc 65584 300, plainKernel), (.free 65792, plainKernel)]

theorem results_promised_sample : Along programStep ResultOk (start 65536) sampleOps := by
  refine results_promised 65536 (by decide) (by decide) sampleOps ⟨?_, ?_, ?_, ?_, trivial⟩
    ⟨fun _ _ _ => rfl, fun _ _ _ => rfl, fun _ _ _ => rfl, fun _ _ _ => rfl, trivial⟩
  · exact permitted_plain rfl (by decide) trivial
  · exact permitted_plain rfl (by decide) trivial
  · exact permitted_plain rfl (by decide) (.inr ⟨_, mem_of_getElem? (i := 1) rfl, by decide⟩)
  · exact permitted_plain rfl (by decide) (.inr ⟨_, mem_of_getElem? (i := 1) rfl, by decide⟩)

def hugeOps : List (HeapOp × Kernel) :=
    [(.malloc 18446744073709551600, ⟨true, some 4294967296, true⟩)]

theorem huge_not_promised :
    Along programStep (Permitted 65536) (start 65536) hugeOps ∧
      ¬ Along programStep ResultOk (start 65536) hugeOps := by
  refine ⟨⟨⟨trivial, ?_⟩, trivial⟩, fun h => ?_⟩
  · intro n hn
    cases hn
    refine ⟨fun hlt => absurd hlt (by decide), fun mem _ h0 => ?_⟩
    cases h0
    exact ⟨by decide, by decide, by decide, by decide, fun _ h0 => absurd h0 not_mem_nil⟩
  · exact absurd (h.1 (by decide)).usable (by decide)

theorem live_promised (base : Nat) (hbase : 16 ∣ base ∧ 0 < base) (htop : base < two64)
    (ops : List (HeapOp × Kernel))
    (hp : Along programStep (Permitted base) (start base) ops)
      (hw : Along programStep NoWrap (start base) ops) :
    let y := runFrom programStep (start base) ops
    (y.live.map Live.ptr).Nodup ∧ ∀ v ∈ y.live, Promised y v.ptr v.bytes := by
  intro y
  have hi : Inv base y.heap y.live := Along.invariant (I := fun y => Inv base y.heap y.live)
    (fun _ _ hi ha => (programStep_inv hi ha.1 ha.2).programStep.1) (start_inv hbase htop)
      (Along.and_iff.mpr ⟨hp, hw⟩)
  exact ⟨hi.ptrs_nodup, fun v hv => hi.promised hv⟩

theorem live_promised_sample :
    let y := runFrom programStep (start 65536) [(.malloc 100, plainKernel),
      (.alignedAlloc 64 128, plainKernel)]
    (y.live.map Live.ptr).Nodup ∧ ∀ v ∈ y.live, Promised y v.ptr v.bytes :=
  live_promised 65536 (by decide) (by decide) _
    ⟨permitted_plain rfl (by decide) trivial, permitted_plain rfl (by decide) trivial, trivial⟩
    ⟨fun _ _ _ => rfl, fun _ _ _ => rfl, trivial⟩

end BlockOS.Libc
