import BlockOS.Allocator.Safety

/-! The statistics of the heap against its blocks. -/

namespace BlockOS.Allocator
open Words Bytes Runs List

def usedBytes : List Block → Nat
  | [] => 0
  | b :: bs => (if b.free then 0 else b.size) + usedBytes bs

@[simp] theorem usedBytes_nil : usedBytes [] = 0 := rfl

@[simp] theorem usedBytes_used (l n : Nat) (bs : List Block) :
    usedBytes (⟨l, some n⟩ :: bs) = l + usedBytes bs := rfl

@[simp] theorem usedBytes_free (l : Nat) (bs : List Block) :
    usedBytes (⟨l, none⟩ :: bs) = usedBytes bs :=
  Nat.zero_add _

@[simp] theorem usedBytes_append (as bs : List Block) :
    usedBytes (as ++ bs) = usedBytes as + usedBytes bs := by
  induction as with
  | nil => simp
  | cons a as ih => simp [usedBytes, ih, Nat.add_assoc]

@[simp] theorem usedBytes_gap (d : Nat) : usedBytes (gap d) = 0 := by
  unfold gap
  split <;> simp

theorem usedBytes_of_free (h : ∀ b ∈ bs, b.free = true) : usedBytes bs = 0 := by
  induction bs with
  | nil => rfl
  | cons b bs ih => simp [usedBytes, h b (by simp), ih fun c hc => h c (by simp [hc])]

theorem usedBytes_le_span (bs : List Block) : usedBytes bs ≤ span bs := by
  induction bs with
  | nil => simp
  | cons b bs ih =>
    simp only [usedBytes, span_cons]
    split <;> omega

theorem length_livesOf (base o : Nat) (bs : List Block) :
    (livesOf base o bs).length = bs.countP fun b => !b.free := by
  induction bs generalizing o with
  | nil => rfl
  | cons b bs ih =>
    obtain ⟨s, r⟩ := b
    cases r with
    | none => simpa [livesOf, Block.free] using ih (o + s)
    | some n => simp [livesOf, Block.free, ih]

def headerOf (h : Heap) (p : Word) : Header := h.header (p - headerSize - h.heapBase)

def granted (g : Heap) (x size off : Word) : Word × Heap :=
  (g.heapBase + x + headerSize,
    { g.setHeader x size false with heapOff := off, record := recordAlloc g.record size })

theorem granted_header (g : Heap) (size off : Word) (hp : p - headerSize - g.heapBase = x) :
    headerOf (granted g x size off).2 p = ⟨size, false⟩ := by
  have hsame := g.setHeader_same x size false
  simp only [Heap.header, Heap.setHeader_heapBase] at hsame
  simp only [headerOf, granted, Heap.header, Heap.setHeader_heapBase, hp]
  exact hsame

theorem granted_record (g : Heap) (x size off : Word) : (granted g x size off).2.record =
      recordAlloc g.record (headerOf (granted g x size off).2 (granted g x size off).1).size := by
  have hx : (granted g x size off).1 - headerSize - g.heapBase = x := by
    unfold granted
    rw [BitVec.add_sub_cancel, BitVec.add_comm, BitVec.add_sub_cancel]
  rw [granted_header g size off hx]
  rfl

theorem carve_granted (h : Heap) (scan d l : Word) :
    ∃ g x size off, g.record = h.record ∧ carve h scan d l = granted g x size off := by
  unfold carve
  dsimp only
  generalize hg : (if (h.header scan).size - d - l ≥ headerSize then
      (if d > 0 then h.setHeader scan d true else h).setHeader (d + scan + l)
        ((h.header scan).size - d - l) true
    else if d > 0 then h.setHeader scan d true else h) = g
  generalize (if (h.header scan).size - d - l ≥ headerSize then l else l +
    ((h.header scan).size - d - l)) = size
  refine ⟨g, d + scan, size, g.heapOff, ?_, ?_⟩
  · subst hg
    split <;> split <;> simp only [Heap.setHeader_record]
  · cases g
    rfl

theorem bump_granted (h : Heap) (align l : Word) : bump h align l = (0, allocFailure h) ∨
      ∃ g x size off, g.record = h.record ∧ bump h align l = granted g x size off := by
  unfold bump
  dsimp only
  generalize alignUp (h.heapBase + h.heapOff + headerSize) align - h.heapBase - headerSize = x
  split
  · exact .inl rfl
  generalize hg : (if x > h.heapOff then h.setHeader h.heapOff (x - h.heapOff) true else h) = g
  refine .inr ⟨g, x, l, x + l, ?_, ?_⟩
  · subst hg
    split <;> simp only [Heap.setHeader_record]
  · cases g
    rfl

theorem alloc_record (h : Heap) (size align : Word) : alloc h size align = (0, allocFailure h) ∨
      (alloc h size align).2.record =
        recordAlloc h.record (headerOf (alloc h size align).2 (alloc h size align).1).size := by
  have hgranted : ∀ r : Word × Heap, (∃ g x size off, g.record = h.record ∧ r = granted g x size off) →
      r.2.record = recordAlloc h.record (headerOf r.2 r.1).size := by
    rintro r ⟨g, x, size, off, hg, rfl⟩
    rw [granted_record, hg]
  unfold alloc
  dsimp only
  split
  · exact .inl rfl
  split
  · exact .inr (hgranted _ (carve_granted h _ _ _))
  · exact (bump_granted h _ _).imp_right (hgranted _)

theorem absorb_record (fuel : Nat) (off : Word) (h : Heap) :
    (absorb fuel off h).record = h.record := by
  induction fuel generalizing h with
  | zero => rfl
  | succ fuel ih =>
    simp only [absorb]
    split
    · rfl
    split
    · exact ih (h.setSize off _)
    · rfl

theorem mergeBack_record (h : Heap) (off : Word) : (mergeBack h off).record = h.record := by
  have htrim : ∀ (g : Heap) x, (trimEnd g x).record = g.record := fun g x => by
    unfold trimEnd
    split <;> rfl
  unfold mergeBack
  dsimp only
  split <;> exact htrim _ _

theorem free_record (ht : Tiled h (pre ++ ⟨s, some n⟩ :: post)) (hb : h.heapBase ≠ 0)
    (hp : p.toNat = h.heapBase.toNat + span pre + 16) :
    (free h p).record = { h.record with
      freeCount := h.record.freeCount + 1
      used := if BitVec.ofNat 64 s ≤ h.record.used then h.record.used - BitVec.ofNat 64 s else 0 } := by
  rw [free_eq ht hb hp, mergeBack_record, absorb_record]
  have hs := toNat_eq_ofNat ht.headerAt.1
  unfold markFree
  rw [hs]

theorem AllocShape.used (h : AllocShape base bs bs' p n) :
    ∃ pre l post, bs' = pre ++ ⟨l, some n⟩ :: post ∧ p = base + span pre + 16 ∧
      usedBytes bs' = usedBytes bs + l := by
  obtain ⟨pre, old, post, d, l, r, rfl, rfl, hp, hold⟩ := h
  refine ⟨pre ++ gap d, l, gap r ++ post, by simp, by simp [hp, Nat.add_assoc], ?_⟩
  have hzero : usedBytes old = 0 := by
    rcases hold with rfl | ⟨rfl, -, -⟩
    · simp
    · rfl
  simp only [usedBytes_append, usedBytes_used, usedBytes_gap, hzero]
  omega

theorem FreeShape.used (h : FreeShape base bs bs' p n) :
    ∃ pre s post, bs = pre ++ ⟨s, some n⟩ :: post ∧ p = base + span pre + 16 ∧
      usedBytes bs = usedBytes bs' + s := by
  obtain ⟨pre, left, s, right, post, rfl, hp, -, hl, hr, -, -, rfl⟩ := h
  refine ⟨pre ++ left, s, right ++ post, by simp, hp, ?_⟩
  by_cases hpost : post = []
  · simp only [hpost, if_true, usedBytes_append, usedBytes_used, usedBytes_of_free hl,
      usedBytes_of_free hr, usedBytes_nil]
    omega
  simp only [hpost, if_false, usedBytes_append, usedBytes_used, usedBytes_free,
    usedBytes_of_free hl, usedBytes_of_free hr]
  omega

structure Accounted (s : Session) (bs : List Block) : Prop extends Consistent s bs where
  used : s.heap.record.used.toNat = usedBytes bs

theorem Accounted.alloc (ha : Accounted s bs) (size align : Word)
    (hov : sumOverflows s.heap size align = false) :
    (Allocator.alloc s.heap size align = (0, allocFailure s.heap) ∧
      Accounted (s.step (.alloc size align)) bs) ∨
      ∃ bs' l, (Allocator.alloc s.heap size align).1 ≠ 0 ∧ Accounted (s.step (.alloc size align)) bs' ∧
        (Allocator.alloc s.heap size align).2.record = recordAlloc s.heap.record l := by
  obtain ⟨hbase, -, he | ⟨h0, -, bs', ht, hshape⟩⟩ := alloc_spec ha.tiled size align hov
  · refine .inl ⟨he, ha.failed he, ?_⟩
    simp only [Session.step, he]
    exact ha.used
  rcases alloc_record s.heap size align with he | hrec
  · exact absurd (congrArg Prod.fst he) h0
  have hc := ha.allocated hbase h0 ht hshape
  refine .inr ⟨bs', _, h0, ⟨hc, ?_⟩, hrec⟩
  obtain ⟨pre, l, post, rfl, hp, hused⟩ := hshape.used
  rw [← hbase] at hp
  have hsize : (headerOf (Allocator.alloc s.heap size align).2
      (Allocator.alloc s.heap size align).1).size.toNat = l := by
    unfold headerOf
    rw [ht.offset_of_payload hp]
    exact ht.headerAt.1
  have hle := usedBytes_le_span (pre ++ ⟨l, some size.toNat⟩ :: post)
  have htot := ht.total
  have hoff := toNat_lt (Allocator.alloc s.heap size align).2.heapOff
  have hbefore := ha.used
  change (Allocator.alloc s.heap size align).2.record.used.toNat = _
  rw [hrec]
  simp only [recordAlloc]
  rw [toNat_add_of_lt (by rw [hsize]; omega), hsize, hused, hbefore]

theorem Accounted.free (ha : Accounted s bs) (hq : q ∈ s.live) :
    (∃ bs', Accounted (s.step (.free q.1)) bs') ∧ ∃ used, (Allocator.free s.heap q.1).record =
        { s.heap.record with freeCount := s.heap.record.freeCount + 1, used := used } ∧
          used ≤ s.heap.record.used := by
  have hb := ha.base (ne_nil_of_mem hq)
  obtain ⟨bs', ht, hshape⟩ := free_spec ha.tiled hb (ha.mem_lives hq)
  obtain ⟨pre, l, post, rfl, hp, hused⟩ := hshape.used
  have hrec := free_record ha.tiled hb hp
  have hle := usedBytes_le_span (pre ++ ⟨l, some q.2.toNat⟩ :: post)
  have htot := ha.tiled.total
  have hoff := toNat_lt s.heap.heapOff
  have hbefore := ha.used
  have hl : (BitVec.ofNat 64 l).toNat = l := toNat_ofNat_of_lt (by omega)
  have hfits : BitVec.ofNat 64 l ≤ s.heap.record.used := by
    rw [BitVec.le_def, hl]
    omega
  rw [if_pos hfits] at hrec
  refine ⟨⟨bs', ha.freed hq ht hshape, ?_⟩, _, hrec, ?_⟩
  · change (Allocator.free s.heap q.1).record.used.toNat = _
    rw [hrec]
    simp only
    rw [toNat_sub_of_le (by rw [hl]; omega), hl]
    omega
  · rw [BitVec.le_def, toNat_sub_of_le (by rw [hl]; omega)]
    omega

structure Tally where
  session : Session
  allocs : Nat
  frees : Nat

namespace Tally

def step (t : Tally) (op : Op) : Tally :=
  match op with
  | .alloc size align =>
    { t with
      session := t.session.step op
      allocs := if (alloc t.session.heap size align).1 = 0 then t.allocs else t.allocs + 1 }
  | .free p =>
    { t with
      session := t.session.step op
      frees := if (free t.session.heap p).record.freeCount = t.session.heap.record.freeCount then t.frees
        else t.frees + 1 }
  | .reset => ⟨t.session.step op, 0, 0⟩
  | .write _ _ => { t with session := t.session.step op }

def start (base size : Word) (h : Heap) : Tally := ⟨Session.start base size h, 0, 0⟩

def Right (t : Tally) : Prop :=
  ∃ bs, Chain t.session.heap 0 bs ∧ span bs = t.session.heap.heapOff.toNat ∧ (∀ b ∈ bs, 0 < b.size) ∧
    t.session.heap.record.used.toNat = usedBytes bs ∧ t.session.heap.record.used ≤
      t.session.heap.heapOff ∧ t.session.heap.heapOff ≤ t.session.heap.record.total ∧
    t.allocs = t.frees + bs.countP fun b => !b.free

structure Balanced (t : Tally) : Prop where
  accounted : ∃ bs, Accounted t.session bs
  total : t.session.heap.record.total = t.session.heap.heapSize
  balance : t.allocs = t.frees + t.session.live.length

theorem Balanced.right {t : Tally} (hb : t.Balanced) : t.Right := by
  obtain ⟨⟨bs, ha⟩, htotal, hbalance⟩ := hb
  have ht := ha.tiled
  have hlive := ha.lives.length_eq
  rw [length_map, length_livesOf] at hlive
  refine ⟨bs, ht.chain, ht.total, fun b hb => (ht.good b hb).1, ha.used, ?_, ?_, by rw [hbalance, hlive]⟩
  · rw [BitVec.le_def, ha.used, ← ht.total]
    exact usedBytes_le_span bs
  · rw [htotal]
    exact ht.bound

theorem Balanced.step {t : Tally} (hb : t.Balanced) (op : Op)
    (hop : op.Legal t.session ∧ op.NoWrap t.session) :
    (t.step op).Balanced := by
  obtain ⟨⟨bs, ha⟩, htotal, hbalance⟩ := hb
  have hsize := heapSize_step t.session op ⟨bs, ha.toConsistent⟩ hop.2
  cases op with
  | alloc size align =>
    rcases ha.alloc size align hop.2 with ⟨he, ha'⟩ | ⟨bs', l, h0, ha', hrec⟩
    · refine ⟨⟨bs, ha'⟩, ?_, ?_⟩
      · simpa [Tally.step, Session.step, he, allocFailure] using htotal
      · simpa [Tally.step, Session.step, he] using hbalance
    refine ⟨⟨bs', ha'⟩, ?_, ?_⟩
    · exact (congrArg AllocRecord.total hrec).trans (htotal.trans hsize.symm)
    · simp only [Tally.step, Session.step, if_neg h0, length_cons, hbalance]
      omega
  | free p =>
    by_cases hp : p ∈ t.session.live.map Prod.fst
    · obtain ⟨q, hq, rfl⟩ := mem_map.mp hp
      obtain ⟨ha', used, hrec, -⟩ := ha.free hq
      have hcount : (Allocator.free t.session.heap q.1).record.freeCount ≠
          t.session.heap.record.freeCount := by
        rw [hrec]
        simp
      have hlen := (perm_cons_filter ha.nodup hq).length_eq
      refine ⟨ha', ?_, ?_⟩
      · exact (congrArg AllocRecord.total hrec).trans (htotal.trans hsize.symm)
      · simp only [Tally.step, Session.step, if_neg hcount, hbalance, hlen, length_cons]
        omega
    · obtain rfl : p = 0 := hop.1.resolve_right hp
      have hsame : t.step (.free 0) = t := by
        simp only [Tally.step, Session.step_free_null hp]
        exact congrArg (fun n => (⟨t.session, t.allocs, n⟩ : Tally)) (if_pos rfl)
      rw [hsame]
      exact ⟨⟨bs, ha⟩, htotal, hbalance⟩
  | reset => exact ⟨⟨[], ha.reset, rfl⟩, htotal, rfl⟩
  | write a v => exact ⟨⟨bs, ha.write v hop.1, ha.used⟩, htotal, hbalance⟩

theorem balanced_start (h : Heap) (hok : InitOk base size)
    (harena : base.toNat + size.toNat < 18446744073709551616) : (start base size h).Balanced := by
  have hfit : ¬ alignUp base arenaAlignment - base ≥ size := by simpa [InitOk] using hok
  refine ⟨⟨[], init_consistent h hok harena, ?_⟩, ?_, rfl⟩ <;> simp [start, Session.start, init, hfit]

end Tally

theorem heap_accounting (base size : Word) (h : Heap) (hok : InitOk base size)
    (harena : base.toNat + size.toNat < 2 ^ 64) (ops : List Op)
    (hrun : Along Tally.step (fun t op => op.Legal t.session ∧ op.NoWrap t.session)
      (Tally.start base size h) ops) :
    (runFrom Tally.step (Tally.start base size h) ops).Right :=
  (hrun.invariant (fun _ op hb hop => hb.step op hop) (Tally.balanced_start h hok harena)).right

theorem heap_accounting_sample :
    (runFrom Tally.step (Tally.start 4096 8192 blank) sampleOps).Right :=
  heap_accounting 4096 8192 blank (by decide) (by decide) sampleOps (by decide)

theorem used_past_end_wrapped :
    InitOk 4096 0xffffffffffffe000 ∧ (4096 : Word).toNat + (0xffffffffffffe000 : Word).toNat < 2 ^ 64 ∧
      Along Tally.step (fun t op => op.Legal t.session) (Tally.start 4096 0xffffffffffffe000 blank)
        wrapOps ∧
      ¬ (runFrom Tally.step (Tally.start 4096 0xffffffffffffe000 blank) wrapOps).Right := by
  refine ⟨by decide, by decide, by decide, ?_⟩
  rintro ⟨bs, -, -, -, -, hle, -⟩
  exact absurd hle (by decide)

end BlockOS.Allocator
