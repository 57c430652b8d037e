import BlockOS.Allocator.Runs

/-! The guarantees of the heap over whole runs. -/

namespace BlockOS.Allocator
open Words Bytes Runs List
open Session (step start)

def capacity (h : Heap) (p : Word) : Nat :=
  (h.header (p - headerSize - h.heapBase)).size.toNat - 16

/-- The representation invariant as the users of the heap rely on it. -/
structure WellFormed (s : Session) (bs : List Block) : Prop where
  chain : Chain s.heap 0 bs
  total : span bs = s.heap.heapOff.toNat
  bound : s.heap.heapOff.toNat ≤ s.heap.heapSize.toNat
  sizes : ∀ b ∈ bs, 0 < b.size ∧ 16 ∣ b.size
  payload : ∀ q ∈ s.live, ∃ pre b post, bs = pre ++ b :: post ∧ b.free = false ∧
    q.1.toNat = s.heap.heapBase.toNat + span pre + 16 ∧ b.size = capacity s.heap q.1 + 16 ∧
    q.2.toNat ≤ capacity s.heap q.1
  disjoint : s.live.Pairwise fun q r =>
    q.1.toNat + capacity s.heap q.1 < r.1.toNat ∨ r.1.toNat + capacity s.heap r.1 < q.1.toNat
  inside : ∀ q ∈ s.live, s.heap.heapBase.toNat ≤ q.1.toNat ∧
    q.1.toNat + capacity s.heap q.1 ≤ s.heap.heapBase.toNat + s.heap.heapSize.toNat

variable {s : Session} {bs : List Block}

theorem Consistent.payload (hc : Consistent s bs) (hq : q ∈ s.live) :
    ∃ pre b post, bs = pre ++ b :: post ∧ b.free = false ∧
      q.1.toNat = s.heap.heapBase.toNat + span pre + 16 ∧ b.size = capacity s.heap q.1 + 16 ∧
      q.2.toNat ≤ capacity s.heap q.1 := by
  have hmem := hc.mem_lives hq
  obtain ⟨pre, l, post, rfl, hp⟩ := mem_livesOf hmem
  rw [Nat.zero_add] at hp
  have ht := hc.tiled
  have hfit := ht.good_at.2.2 q.2.toNat rfl
  simp only at hfit
  have hcap : capacity s.heap q.1 = l - 16 := by
    unfold capacity
    rw [ht.offset_of_payload hp, ht.headerAt.1]
  exact ⟨pre, _, post, rfl, rfl, hp, by simp only; omega, by omega⟩

theorem span_disjoint (h : pre ++ b :: post = pre' ++ b' :: post') (hne : span pre ≠ span pre') :
    span pre + b.size ≤ span pre' ∨ span pre' + b'.size ≤ span pre := by
  rcases append_eq_append_iff.mp h with ⟨mid, rfl, hm⟩ | ⟨mid, rfl, hm⟩
  · cases mid with
    | nil => simp at hne
    | cons c mid =>
      obtain ⟨rfl, -⟩ := List.cons.inj hm
      left
      simp only [span_append, span_cons]
      omega
  · cases mid with
    | nil => simp at hne
    | cons c mid =>
      obtain ⟨rfl, -⟩ := List.cons.inj hm
      right
      simp only [span_append, span_cons]
      omega

theorem Consistent.wellFormed (hc : Consistent s bs) : WellFormed s bs := by
  have ht := hc.tiled
  refine ⟨ht.chain, ht.total, ht.bound, fun b hb => ⟨(ht.good b hb).1, (ht.good b hb).2.1⟩,
    fun q hq => hc.payload hq, ?_, ?_⟩
  · refine hc.nodup.imp_of_mem fun {q r} hq hr hne => ?_
    obtain ⟨pre, b, post, hb, -, hp, hs, -⟩ := hc.payload hq
    obtain ⟨pre', b', post', hb', -, hp', hs', -⟩ := hc.payload hr
    have hne' : span pre ≠ span pre' := fun he => hne (eq_of_toNat (by omega))
    have := span_disjoint (hb.symm.trans hb') hne'
    omega
  · intro q hq
    obtain ⟨pre, b, post, rfl, -, hp, hs, -⟩ := hc.payload hq
    have := ht.offset_le
    have := ht.bound
    omega

theorem heap_wellFormed (base size : Word) (h : Heap) (hok : InitOk base size)
    (harena : base.toNat + size.toNat < 2 ^ 64) (ops : List Op)
    (hrun : Along step (fun s op => op.Legal s ∧ op.NoWrap s) (start base size h) ops) :
    (∃ bs, WellFormed (runFrom step (start base size h) ops) bs) ∧ ∀ n align,
        Op.NoWrap (runFrom step (start base size h) ops) (.alloc n align) →
        max align.toNat 16 ∣ (alloc (runFrom step (start base size h) ops).heap n align).1.toNat := by
  obtain ⟨bs, hc⟩ := consistent_run h hok harena hrun
  refine ⟨⟨bs, hc.wellFormed⟩, fun n align hov => ?_⟩
  obtain ⟨-, -, he | ⟨-, hd, -⟩⟩ := alloc_spec hc.tiled n align hov
  · rw [he]
    exact Nat.dvd_zero _
  · exact hd

def blank : Heap := ⟨fun _ => 0, 0, 0, 0, {}⟩

def sampleOps : List Op :=
  [.alloc 24 16, .alloc 40 64, .free 4112, .write 4160 7, .alloc 8 16]

theorem heap_wellFormed_sample :
    (∃ bs, WellFormed (runFrom step (start 4096 8192 blank) sampleOps) bs) ∧
      128 ∣ (alloc (runFrom step (start 4096 8192 blank) sampleOps).heap 100 128).1.toNat := by
  have hs := heap_wellFormed 4096 8192 blank (by decide) (by decide) sampleOps (by decide)
  exact ⟨hs.1, hs.2 100 128 (by decide)⟩

theorem live_step_free (s : Session) (p : Word) :
    (s.step (.free p)).live.map Prod.fst = (s.live.map Prod.fst).filter (· != p) := by
  simp [step, filter_map, Function.comp_def]

theorem Consistent.heapOff_eq_zero (hc : Consistent s bs) (hl : s.live = []) :
    s.heap.heapOff.toNat = 0 := by
  have hlives := hc.lives
  rw [hl, map_nil] at hlives
  have hnil := hc.coalesced.eq_nil_of_free fun b hb => by
    obtain ⟨pre, post, rfl⟩ := append_of_mem hb
    obtain ⟨l, r⟩ := b
    cases r with
    | none => rfl
    | some n =>
      have := hlives.symm.eq_nil
      simp [livesOf_append, livesOf] at this
  rw [← hc.tiled.total, hnil, span_nil]

theorem heapOff_freeAll (order : List Word) (hs : ∃ bs, Consistent s bs)
    (ho : order.Perm (s.live.map Prod.fst)) : (order.foldl free s.heap).heapOff = 0 := by
  induction order generalizing s with
  | nil =>
    obtain ⟨bs, hc⟩ := hs
    exact eq_of_toNat (hc.heapOff_eq_zero (by simpa using ho.symm.eq_nil))
  | cons p order ih =>
    obtain ⟨bs, hc⟩ := hs
    have hmem : p ∈ s.live.map Prod.fst := ho.mem_iff.mp (by simp)
    have hnd : (p :: order).Nodup := ho.nodup_iff.mpr (pairwise_map.mpr hc.nodup)
    refine ih (s := s.step (.free p)) (hc.free (.inr hmem)) ?_
    rw [live_step_free]
    have hf := ho.filter (· != p)
    rwa [filter_cons_of_neg (by simp), filter_eq_self.mpr fun r hr => by
      simpa using fun h : r = p => (nodup_cons.mp hnd).1 (h ▸ hr)] at hf

theorem free_space_coalesced (base size : Word) (h : Heap) (hok : InitOk base size)
    (harena : base.toNat + size.toNat < 2 ^ 64) (ops : List Op)
    (hrun : Along step (fun s op => op.Legal s ∧ op.NoWrap s) (start base size h) ops) :
    (∃ bs, Chain (runFrom step (start base size h) ops).heap 0 bs ∧
        span bs = (runFrom step (start base size h) ops).heap.heapOff.toNat ∧
        (∀ b ∈ bs, 0 < b.size) ∧ Coalesced bs) ∧
      ∀ order : List Word, order.Perm ((runFrom step (start base size h) ops).live.map Prod.fst) →
        (order.foldl free (runFrom step (start base size h) ops).heap).heapOff = 0 := by
  obtain ⟨bs, hc⟩ := consistent_run h hok harena hrun
  exact ⟨⟨bs, hc.tiled.chain, hc.tiled.total, fun b hb => (hc.tiled.good b hb).1, hc.coalesced⟩,
    fun order ho => heapOff_freeAll order ⟨bs, hc⟩ ho⟩

theorem free_space_coalesced_sample : ([4160, 4112].foldl free
      (runFrom step (start 4096 8192 blank) sampleOps).heap).heapOff = 0 :=
  (free_space_coalesced 4096 8192 blank (by decide) (by decide) sampleOps (by decide)).2 [4160,
    4112] (by decide)

theorem slack_lt (h : Heap) (scan : Word) (ha : AlignOk a k) : (slack h scan a).toNat < 2 ^ 63 := by
  have hpow : 2 ^ k ≤ 2 ^ 63 := Nat.pow_le_pow_right (by decide) (by have := ha.lt; omega)
  have hp := toNat_lt (h.heapBase + scan + headerSize)
  have hle := le_ceilTo (Nat.two_pow_pos k) (h.heapBase + scan + headerSize).toNat
  have hlt := ceilTo_lt (Nat.two_pow_pos k) (h.heapBase + scan + headerSize).toNat
  simp only [slack]
  rw [BitVec.toNat_sub, alignUp_toNat _ _ k ha.lt ha.eq]
  omega

theorem noWrap_of_small (hs : s.heap.heapSize.toNat + 32 ≤ 2 ^ 63) (op : Op) : op.NoWrap s := by
  cases op with
  | alloc size align =>
    simp only [Op.NoWrap, sumOverflows, Bool.and_eq_false_imp, Bool.not_eq_true',
      Bool.or_eq_false_iff, decide_eq_false_iff_not, Bool.not_eq_false', gt_iff_lt, BitVec.lt_def,
      Nat.not_lt]
    rintro ⟨⟨-, hsz⟩, hpow⟩
    obtain ⟨k, ha⟩ := clampAlign_ok hpow
    have hl := blockLengthFor_toNat size (by omega)
    have hlt := ceilTo_lt (show 0 < 16 by decide) (size.toNat + 16)
    split
    · rename_i scan _
      have := slack_lt s.heap scan ha
      rw [decide_eq_false_iff_not, hl]
      omega
    · rfl
  | free _ | reset | write _ _ => trivial

theorem heapSize_step (s : Session) (op : Op) (hs : ∃ bs, Consistent s bs)
    (hop : op.NoWrap s) : (s.step op).heap.heapSize = s.heap.heapSize := by
  obtain ⟨bs, hc⟩ := hs
  cases op with
  | alloc size align => exact (alloc_spec hc.tiled size align hop).2.1
  | free p => exact (free_fields s.heap p).2
  | reset | write _ _ => rfl

def wrapOps : List Op :=
  [.alloc 0 16, .alloc 0 16, .free 4112, .alloc 0x8000000000001010 0x8000000000000000]

def wrapStart : Session := start 4096 0xffffffffffffe000 blank

theorem heap_not_wellFormed_wrapped :
    InitOk 4096 0xffffffffffffe000 ∧ (4096 : Word).toNat + (0xffffffffffffe000 : Word).toNat <
      2 ^ 64 ∧ Along step (fun s op => op.Legal s) wrapStart wrapOps ∧
      ¬ ∃ bs, WellFormed (runFrom step wrapStart wrapOps) bs := by
  refine ⟨by decide, by decide, by decide, ?_⟩
  rintro ⟨bs, hw⟩
  have hoff : (runFrom step wrapStart wrapOps).heap.heapOff.toNat = 32 := by decide
  have htotal := hw.total
  have hchain := hw.chain
  rw [hoff] at htotal
  -- the lead-in header at offset 0 now claims more bytes than lie below `heapOff`
  have hhead : ((runFrom step wrapStart wrapOps).heap.header
      (BitVec.ofNat 64 0)).size.toNat = 0x7fffffffffffeff0 := by decide
  cases bs with
  | nil => cases htotal
  | cons b bs =>
    have hb := hchain.1.1
    rw [hhead] at hb
    rw [span_cons] at htotal
    omega

theorem free_space_leaks_wrapped :
    InitOk 4096 0xffffffffffffe000 ∧ (4096 : Word).toNat + (0xffffffffffffe000 : Word).toNat <
      2 ^ 64 ∧ Along step (fun s op => op.Legal s) wrapStart wrapOps ∧
      (((runFrom step wrapStart wrapOps).live.map Prod.fst).foldl free
        (runFrom step wrapStart wrapOps).heap).heapOff ≠ 0 := by
  decide

end BlockOS.Allocator
