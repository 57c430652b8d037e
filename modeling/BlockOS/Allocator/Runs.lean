import BlockOS.Allocator.Free
import BlockOS.Lib.Runs

/-! Whole runs of the heap: calls of `alloc`, `free` and `reset` and stores of the users of the
heap, from a successful `init`. -/

namespace BlockOS.Allocator
open Words Bytes Runs List
open BitVec (toNat_sub ofNat toNat toNat_add)

structure Session where
  heap : Heap
  live : List (Word × Word)

inductive Op where
  | alloc (size align : Word)
  | free (ptr : Word)
  | reset
  | write (addr : Word) (value : Byte)
  deriving DecidableEq, Repr

def Op.Legal (s : Session) : Op → Prop
  | .alloc _ _ => True
  | .free p => p = 0 ∨ p ∈ s.live.map Prod.fst
  | .reset => True
  | .write a _ => ∃ q ∈ s.live, (a - q.1).toNat < q.2.toNat

instance (s : Session) : (op : Op) → Decidable (op.Legal s)
  | .alloc _ _ => inferInstanceAs (Decidable True)
  | .free p => inferInstanceAs (Decidable (p = 0 ∨ p ∈ s.live.map Prod.fst))
  | .reset => inferInstanceAs (Decidable True)
  | .write a _ => inferInstanceAs (Decidable (∃ q ∈ s.live, (a - q.1).toNat < q.2.toNat))

namespace Session

def step (s : Session) : Op → Session
  | .alloc size align =>
    { heap := (alloc s.heap size align).2
      live := if (alloc s.heap size align).1 = 0 then s.live
        else ((alloc s.heap size align).1, size) :: s.live }
  | .free p => { heap := free s.heap p, live := s.live.filter (·.1 != p) }
  | .reset => { heap := reset s.heap, live := [] }
  | .write a v => { s with heap := { s.heap with mem := store8 s.heap.mem a v } }

def start (base size : Word) (h : Heap) : Session := ⟨init base size h, []⟩

end Session

def InitOk (base size : Word) : Prop := alignUp base arenaAlignment - base < size

instance (base size : Word) : Decidable (InitOk base size) :=
  inferInstanceAs (Decidable (_ < _))

/-- No allocation accepts a free block by a wrapped size sum. -/
def Op.NoWrap (s : Session) : Op → Prop
  | .alloc size align => sumOverflows s.heap size align = false
  | _ => True

instance (s : Session) : (op : Op) → Decidable (op.NoWrap s)
  | .alloc size align => inferInstanceAs (Decidable (sumOverflows s.heap size align = false))
  | .free _ | .reset | .write _ _ => inferInstanceAs (Decidable True)

def Coalesced (bs : List Block) : Prop :=
  bs.IsChain (fun a b => ¬ (a.free = true ∧ b.free = true)) ∧ ∀ b ∈ bs.getLast?, b.free = false

structure Consistent (s : Session) (bs : List Block) : Prop where
  tiled : Tiled s.heap bs
  lives : (s.live.map fun q => (q.1.toNat, q.2.toNat)).Perm (livesOf s.heap.heapBase.toNat 0 bs)
  coalesced : Coalesced bs
  base : s.live ≠ [] → s.heap.heapBase ≠ 0

variable {s : Session}

theorem AllocShape.lives (h : AllocShape base bs bs' p n) :
    (livesOf base 0 bs').Perm ((p, n) :: livesOf base 0 bs) := by
  obtain ⟨pre, old, post, d, l, r, rfl, rfl, rfl, hold⟩ := h
  rcases hold with rfl | ⟨rfl, rfl, rfl⟩
  · simp only [livesOf_append, livesOf_gap, span_gap, span_cons, span_nil, livesOf,
      nil_append, Nat.zero_add, Nat.add_zero, Nat.add_assoc]
    exact perm_middle
  simp only [livesOf_append, livesOf_gap, span_gap, livesOf, nil_append, append_nil, Nat.zero_add,
    Nat.add_assoc]
  exact perm_append_comm

theorem livesOf_free (h : ∀ b ∈ bs, b.free = true) : livesOf base o bs = [] := by
  induction bs generalizing o with
  | nil => rfl
  | cons b bs ih =>
    obtain ⟨s, r⟩ := b
    have hr : r = none := by simpa [Block.free] using h ⟨s, r⟩ (by simp)
    subst hr
    exact ih fun c hc => h c (by simp [hc])

theorem FreeShape.lives (h : FreeShape base bs bs' p n) :
    (livesOf base 0 bs).Perm ((p, n) :: livesOf base 0 bs') := by
  obtain ⟨pre, left, s, right, post, rfl, rfl, -, hl, hr, -, -, rfl⟩ := h
  have hbs : livesOf base 0 (pre ++ (left ++ ⟨s, some n⟩ :: (right ++ post))) =
      livesOf base 0 pre ++ (base + span (pre ++ left) + 16, n) ::
        livesOf base (span pre + (span left + (s + span right))) post := by
    simp [livesOf_append, livesOf_free hl, livesOf_free hr, livesOf, Nat.add_assoc]
  rw [hbs]
  split
  · subst post
    simp [livesOf]
  · rw [livesOf_append]
    simp [livesOf]

theorem coalesced_nil : Coalesced [] := by simp [Coalesced]

theorem Coalesced.eq_nil_of_free (h : Coalesced bs) (hf : ∀ b ∈ bs, b.free = true) : bs = [] := by
  cases hl : bs.getLast? with
  | none => simpa using hl
  | some b =>
    have h1 := h.2 b hl
    rw [hf b (mem_of_getLast? hl)] at h1
    cases h1

theorem isChain_append_free (hb : b.free = true) :
    (bs ++ [b]).IsChain (fun a b => ¬ (a.free = true ∧ b.free = true)) ↔ Coalesced bs := by
  simp [isChain_append, Coalesced, hb]

theorem coalesced_used (hb : b.free = false) : Coalesced (pre ++ b :: post) ↔
      pre.IsChain (fun a b => ¬ (a.free = true ∧ b.free = true)) ∧ Coalesced post := by
  cases post with
  | nil => simp [Coalesced, isChain_append, hb]
  | cons c post => simp [Coalesced, isChain_append, isChain_cons_cons, hb, and_assoc]

theorem coalesced_free (hb : b.free = true) : Coalesced (pre ++ b :: post) ↔
      Coalesced pre ∧ Coalesced post ∧ post ≠ [] ∧ ∀ c ∈ post.head?, c.free = false := by
  cases post with
  | nil => simp [Coalesced, hb]
  | cons c post =>
    simp [Coalesced, isChain_append, isChain_cons_cons, hb]
    tauto

theorem AllocShape.coalesced (h : AllocShape base bs bs' p n) (hc : Coalesced bs) : Coalesced bs' := by
  obtain ⟨pre, old, post, d, l, r, rfl, rfl, -, hold⟩ := h
  have hgap : ∀ qs : List Block, Coalesced qs →
      (qs ++ gap d).IsChain (fun a b => ¬ (a.free = true ∧ b.free = true)) := by
    intro qs hqs
    unfold gap
    split
    · simpa using hqs.1
    · exact (isChain_append_free rfl).mpr hqs
  rw [← append_assoc, coalesced_used rfl]
  rcases hold with rfl | ⟨rfl, rfl, rfl⟩
  · obtain ⟨hp, hq, hne, hh⟩ := (coalesced_free (b := ⟨d + l + r, none⟩) rfl).mp hc
    refine ⟨hgap pre hp, ?_⟩
    unfold gap
    split
    · exact hq
    · rw [← nil_append ([_] ++ post)]
      exact (coalesced_free rfl).mpr ⟨coalesced_nil, hq, hne, hh⟩
  · exact ⟨hgap pre (by simpa using hc), coalesced_nil⟩

theorem FreeShape.coalesced (h : FreeShape base bs bs' p n) (hc : Coalesced bs) : Coalesced bs' := by
  obtain ⟨pre, left, s, right, post, rfl, -, hlen, hl, -, hpre, hpost, rfl⟩ := h
  rw [← append_assoc, coalesced_used rfl] at hc
  have hp : Coalesced pre := by
    match left, hlen with
    | [], _ => exact ⟨by simpa using hc.1, hpre rfl⟩
    | [c], _ => exact (isChain_append_free (hl c (by simp))).mp hc.1
  have hq : Coalesced post := by
    refine ⟨(isChain_append.mp hc.2.1).2.1, fun b hb => hc.2.2 b ?_⟩
    rw [getLast?_append, Option.mem_def.mp hb]
    rfl
  split
  · exact hp
  · exact (coalesced_free rfl).mpr ⟨hp, hq, ‹_›, hpost⟩

theorem alloc_base_zero (hb : h.heapBase = 0) (size align : Word) : (alloc h size align).1 = 0 := by
  unfold alloc
  simp [hb]

theorem init_consistent {base : Word} (h : Heap) (hok : InitOk base size)
    (harena : base.toNat + size.toNat < 18446744073709551616) :
    Consistent (Session.start base size h) [] := by
  have hup : (alignUp base arenaAlignment).toNat = ceilTo 4096 base.toNat % 18446744073709551616 :=
    alignUp_toNat base arenaAlignment 12 (by decide) rfl
  have hle := le_ceilTo (a := 4096) (by decide) base.toNat
  have hlt := ceilTo_lt (a := 4096) (by decide) base.toNat
  have hsize := toNat_lt size
  simp only [InitOk, BitVec.lt_def, toNat_sub, hup] at hok
  -- an aligned base that wrapped to zero would have lost more than the arena
  have hup' : (alignUp base arenaAlignment).toNat = ceilTo 4096 base.toNat := by
    rw [hup]
    omega
  have hlost : (alignUp base arenaAlignment - base).toNat = ceilTo 4096 base.toNat - base.toNat := by
    rw [toNat_sub_of_le (by omega), hup']
  have hfit : ¬ alignUp base arenaAlignment - base ≥ size := by
    rw [ge_iff_le, BitVec.le_def, hlost]
    omega
  have hs : (size - (alignUp base arenaAlignment - base)).toNat =
      size.toNat - (ceilTo 4096 base.toNat - base.toNat) := by
    rw [toNat_sub_of_le (by omega), hlost]
  unfold Session.start init
  simp only [if_neg hfit]
  refine ⟨⟨trivial, rfl, by simp, Nat.zero_le _, ?_, ?_⟩, List.Perm.refl _, coalesced_nil,
    fun h => absurd rfl h⟩
  · simp only [hup', hs]
    omega
  · simp only [hup']
    exact dvd_ceilTo _ _

theorem Consistent.failed (hc : Consistent s bs)
    (he : Allocator.alloc s.heap size align = (0, allocFailure s.heap)) :
    Consistent (s.step (.alloc size align)) bs := by
  simp only [Session.step, he, if_true]
  exact ⟨hc.tiled.allocFailure, hc.lives, hc.coalesced, hc.base⟩

theorem Consistent.allocated (hc : Consistent s bs)
    (hbase : (Allocator.alloc s.heap size align).2.heapBase = s.heap.heapBase)
    (h0 : (Allocator.alloc s.heap size align).1 ≠ 0)
      (ht : Tiled (Allocator.alloc s.heap size align).2 bs')
    (hshape : AllocShape s.heap.heapBase.toNat bs bs' (Allocator.alloc s.heap size align).1.toNat
      size.toNat) :
    Consistent (s.step (.alloc size align)) bs' := by
  simp only [Session.step, if_neg h0]
  refine ⟨ht, ?_, hshape.coalesced hc.coalesced, fun _ hb => ?_⟩
  · rw [hbase]
    exact (List.Perm.cons _ hc.lives).trans hshape.lives.symm
  · exact h0 (alloc_base_zero (hbase ▸ hb) size align)

theorem Consistent.alloc (hc : Consistent s bs) (size align : Word)
    (hov : sumOverflows s.heap size align = false) :
    ∃ bs', Consistent (s.step (.alloc size align)) bs' := by
  obtain ⟨hbase, -, he | ⟨h0, -, bs', ht, hshape⟩⟩ := alloc_spec hc.tiled size align hov
  · exact ⟨bs, hc.failed he⟩
  · exact ⟨bs', hc.allocated hbase h0 ht hshape⟩

theorem Consistent.nodup (hc : Consistent s bs) : s.live.Pairwise fun q r => q.1 ≠ r.1 := by
  have h1 := (livesOf_pairwise s.heap.heapBase.toNat 0 bs hc.tiled.good).imp
    (S := fun q r => q.1 ≠ r.1) (fun h => by omega)
  have h2 := (hc.lives.pairwise_iff (R := fun q r => q.1 ≠ r.1) (fun h => h.symm)).mpr h1
  exact (pairwise_map.mp h2).imp fun h he => h (by rw [he])

theorem perm_cons_filter {l : List (Word × Word)} (hl : l.Pairwise fun q r => q.1 ≠ r.1)
    (hq : q ∈ l) :
    l.Perm (q :: l.filter (·.1 != q.1)) := by
  induction l with
  | nil => cases hq
  | cons a l ih =>
    obtain ⟨ha, hl⟩ := pairwise_cons.mp hl
    rcases mem_cons.mp hq with rfl | hq
    · rw [filter_cons_of_neg (by simp), filter_eq_self.mpr fun r hr => by
        simpa using (ha r hr).symm]
    · rw [filter_cons_of_pos (by simpa using ha q hq)]
      exact ((ih hl hq).cons a).trans (List.Perm.swap q a _)

theorem Consistent.mem_lives (hc : Consistent s bs)
    (hq : q ∈ s.live) : (q.1.toNat, q.2.toNat) ∈ livesOf s.heap.heapBase.toNat 0 bs :=
  hc.lives.mem_iff.mp (mem_map_of_mem (f := fun q => (q.1.toNat, q.2.toNat)) hq)

theorem Consistent.freed (hc : Consistent s bs) (hq : q ∈ s.live)
    (ht : Tiled (Allocator.free s.heap q.1) bs')
    (hshape : FreeShape s.heap.heapBase.toNat bs bs' q.1.toNat q.2.toNat) : Consistent
      (s.step (.free q.1)) bs' := by
  have hb := hc.base (ne_nil_of_mem hq)
  obtain ⟨f1, -⟩ := free_fields s.heap q.1
  refine ⟨ht, ?_, hshape.coalesced hc.coalesced, fun _ h => hb (f1 ▸ h)⟩
  have hrest := (perm_cons_filter hc.nodup hq).map fun q => (q.1.toNat, q.2.toNat)
  have hall := hrest.symm.trans (hc.lives.trans hshape.lives)
  simpa [Session.step, f1] using hall.cons_inv

theorem Session.step_free_null (h : (0 : Word) ∉ s.live.map Prod.fst) : s.step (.free 0) = s := by
  have hkeep : s.live.filter (·.1 != 0) = s.live := by
    refine filter_eq_self.mpr fun q hq => ?_
    rw [bne_iff_ne]
    exact fun he => h (mem_map.mpr ⟨q, hq, he⟩)
  simp only [Session.step, hkeep]
  rfl

theorem Consistent.free (hc : Consistent s bs)
    (hp : p = 0 ∨ p ∈ s.live.map Prod.fst) : ∃ bs', Consistent (s.step (.free p)) bs' := by
  by_cases hlive : p ∈ s.live.map Prod.fst
  · obtain ⟨q, hq, rfl⟩ := mem_map.mp hlive
    obtain ⟨bs', ht, hshape⟩ := free_spec hc.tiled (hc.base (ne_nil_of_mem hq)) (hc.mem_lives hq)
    exact ⟨bs', hc.freed hq ht hshape⟩
  obtain rfl : p = 0 := hp.resolve_right hlive
  rw [Session.step_free_null hlive]
  exact ⟨bs, hc⟩

theorem Consistent.reset (hc : Consistent s bs) : Consistent (s.step .reset) [] :=
  ⟨⟨trivial, rfl, by simp, Nat.zero_le _, hc.tiled.arena, hc.tiled.aligned⟩, List.Perm.refl _,
    coalesced_nil, fun h => absurd rfl h⟩

theorem header_store8 (h : Heap) (v : Byte) (ha : a.toNat = h.heapBase.toNat + y)
    (hxy : x + 16 ≤ y ∨ y < x)
    (hx : h.heapBase.toNat + x + 16 ≤ 18446744073709551616) :
    ({ h with mem := store8 h.mem a v } : Heap).header (ofNat 64 x) = h.header (ofNat 64 x) := by
  have hne : ∀ k ≤ 8, h.heapBase + ofNat 64 x + ofNat 64 k ≠ a := by
    intro k hk he
    have := congrArg toNat he
    rw [toNat_add, toNat_add, toNat_ofNat_of_lt (n := x) (by omega),
      toNat_ofNat_of_lt (n := k) (by omega)] at this
    omega
  have hl : load64 (store8 h.mem a v) (h.heapBase + ofNat 64 x) =
      load64 h.mem (h.heapBase + ofNat 64 x) :=
    load64_congr fun k hk => store8_other _ _ (hne k (by omega))
  have hb : store8 h.mem a v (h.heapBase + ofNat 64 x + 8) =
      h.mem (h.heapBase + ofNat 64 x + 8) := store8_other _ _ (hne 8 (by omega))
  simp only [Heap.header]
  rw [hl, hb]

theorem Consistent.write (hc : Consistent s bs) (v : Byte)
    (ha : ∃ q ∈ s.live, (a - q.1).toNat < q.2.toNat) :
    Consistent (s.step (.write a v)) bs := by
  obtain ⟨⟨p, n⟩, hq, hlt⟩ := ha
  have hmem := hc.mem_lives hq
  obtain ⟨pre, l, post, rfl, hp⟩ := mem_livesOf hmem
  simp only [Nat.zero_add] at hp
  have ht := hc.tiled
  have hfit := ht.good_at.2.2 n.toNat rfl
  have hoff := ht.offset_le
  have hbound := ht.bound
  have harena := ht.arena
  have htot := ht.total
  have hal := toNat_lt a
  simp only [span_append, span_cons, toNat_sub] at htot hfit hoff hlt
  have hay : a.toNat = s.heap.heapBase.toNat + (a.toNat - s.heap.heapBase.toNat) := by omega
  have hsame : ∀ x, x ≤ span pre ∨ span pre + l ≤ x → x + 16 ≤ s.heap.heapOff.toNat →
      (s.step (.write a v)).heap.header (ofNat 64 x) = s.heap.header (ofNat 64 x) := by
    intro x hx hx'
    refine header_store8 s.heap v hay ?_ (by omega)
    omega
  have hch := (chain_append s.heap 0 pre _).mp ht.chain
  have hgood := ht.good
  refine ⟨⟨?_, ht.total, ht.good, hbound, harena, ht.aligned⟩, hc.lives, hc.coalesced, hc.base⟩
  rw [chain_append]
  refine ⟨hch.1.congr_outside (fun c hc => hgood c (by simp [hc])) fun x _ hx => ?_, ?_, ?_⟩
  · exact hsame x (by omega) (by omega)
  · have hh := hch.2.1
    rw [Nat.zero_add] at hh ⊢
    unfold HeaderAt
    rw [hsame _ (by omega) (by omega)]
    exact hh
  · refine hch.2.2.congr_outside (fun c hc => hgood c (by simp [hc])) fun x hx hx' => ?_
    exact hsame x (by simp only at hx; omega) (by simp only at hx'; omega)

theorem consistent_step (s : Session) (op : Op) (hs : ∃ bs, Consistent s bs)
    (hop : op.Legal s ∧ op.NoWrap s) : ∃ bs, Consistent (s.step op) bs := by
  obtain ⟨bs, hc⟩ := hs
  cases op with
  | alloc size align => exact hc.alloc size align hop.2
  | free p => exact hc.free hop.1
  | reset => exact ⟨[], hc.reset⟩
  | write a v => exact ⟨bs, hc.write v hop.1⟩

theorem consistent_run {base : Word} (h : Heap) (hok : InitOk base size)
    (harena : base.toNat + size.toNat < 18446744073709551616)
    (hrun : Along Session.step (fun s op => op.Legal s ∧ op.NoWrap s) (Session.start base size h) ops) :
    ∃ bs, Consistent (runFrom Session.step (Session.start base size h) ops) bs :=
  hrun.invariant consistent_step ⟨[], init_consistent h hok harena⟩

end BlockOS.Allocator
