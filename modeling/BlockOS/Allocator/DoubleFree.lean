import BlockOS.Allocator.Accounting

/-! A second `free` of one pointer. -/

namespace BlockOS.Allocator
open Words Bytes Runs List
open BitVec (ofNat)
open Session (step start)

def Aligned (o : Word) : Prop := 16 ∣ o.toNat

theorem Aligned.apart (hx : Aligned x) (ho : Aligned o) : o = x ∨ Apart o x := by
  have := toNat_lt x
  have := toNat_lt o
  unfold Aligned at hx ho
  by_cases h : o.toNat = x.toNat
  · exact .inl (eq_of_toNat h)
  right
  unfold Apart
  rw [BitVec.toNat_sub]
  omega

theorem setSize_isFree (h : Heap) (s : Word) (hx : Aligned x) (ho : Aligned o) :
    ((h.setSize x s).header o).isFree = (h.header o).isFree := by
  rcases hx.apart ho with rfl | ha
  · rw [Heap.setSize_same]
  · rw [Heap.setSize_apart h s ha]

theorem setFree_isFree (h : Heap) (hx : Aligned x) (ho : Aligned o)
    (hf : (h.header o).isFree = true) :
    ((h.setFree x true).header o).isFree = true := by
  rcases hx.apart ho with rfl | ha
  · rw [Heap.setFree_same]
  · rw [Heap.setFree_apart h true ha, hf]

theorem absorb_isFree (fuel : Nat) (h : Heap) (hx : Aligned x) (ho : Aligned o) :
    ((absorb fuel x h).header o).isFree = (h.header o).isFree := by
  induction fuel generalizing h with
  | zero => rfl
  | succ fuel ih =>
    simp only [absorb]
    split
    · rfl
    split
    · rw [ih, setSize_isFree h _ hx ho]
    · rfl

theorem header_congr {h h' : Heap} (hm : h'.mem = h.mem) (hb : h'.heapBase = h.heapBase)
    (o : Word) :
    h'.header o = h.header o := by
  simp only [Heap.header, hm, hb]

theorem trimEnd_header (h : Heap) (x o : Word) : (trimEnd h x).header o = h.header o := by
  unfold trimEnd
  split <;> rfl

theorem aligned_ofNat (h : 16 ∣ n) : Aligned (ofNat 64 n) := by
  unfold Aligned
  rw [BitVec.toNat_ofNat]
  exact (Nat.dvd_mod_iff (by decide)).mpr h

variable {h : Heap} {p : Word}

theorem findPrev_aligned (ht : Tiled h (pre ++ post)) :
    Aligned (findPrev h (ofNat 64 (span pre)) (ofNat 64 (span pre)).toNat
      (ofNat 64 (span pre)) 0).1 := by
  have hlt := toNat_lt h.heapOff
  have htot := ht.total
  simp only [span_append] at htot
  have hgood : ∀ b ∈ pre, b.Good := fun b hb => ht.good b (by simp [hb])
  have hwalk := findPrev_spec ht [] pre (ofNat 64 (span pre)) (span pre) rfl (length_le_span hgood)
  rw [span_nil, nil_append] at hwalk
  rw [toNat_ofNat_of_lt (by omega), show (0 : Word) = ofNat 64 0 from rfl, hwalk]
  dsimp only
  split
  · exact aligned_ofNat (dvd_span hgood)
  · exact aligned_ofNat (dvd_span fun b hb => hgood b (mem_of_mem_dropLast hb))

theorem mergeBack_isFree (hx : Aligned (findPrev h x x.toNat x 0).1) (ho : Aligned o) :
    ((mergeBack h x).header o).isFree = (h.header o).isFree := by
  unfold mergeBack
  dsimp only
  split
  · rw [trimEnd_header, setSize_isFree h _ hx ho]
  · rw [trimEnd_header]

theorem free_isFree (ht : Tiled h bs) (hb : h.heapBase ≠ 0)
    (hp : (p.toNat, n) ∈ livesOf h.heapBase.toNat 0 bs) (ho : Aligned o)
    (hf : o = p - headerSize - h.heapBase ∨ (h.header o).isFree = true) :
      ((free h p).header o).isFree = true := by
  obtain ⟨pre, s, post, rfl, hpn⟩ := mem_livesOf hp
  rw [Nat.zero_add] at hpn
  have hoff := ht.offset_of_payload hpn
  have hx : Aligned (ofNat 64 (span pre)) := aligned_ofNat ht.dvd_pre
  have hlen : post.length ≤ h.heapOff.toNat := by
    have htot := ht.total
    have := length_le_span fun b hb => ht.good b (mem_append_right pre (mem_cons_of_mem _ hb))
    simp only [span_append, span_cons] at htot
    omega
  have h1 : Tiled (markFree h (span pre)) (pre ++ ⟨s, none⟩ :: post) :=
    ht.setFree.of_record rfl rfl rfl rfl
  have hmarked : ((markFree h (span pre)).header o).isFree = true := by
    rw [@header_congr (h.setFree (ofNat 64 (span pre)) true) (markFree h (span pre)) rfl rfl]
    rcases hf with rfl | hf
    · rw [hoff, Heap.setFree_same]
    · exact setFree_isFree h hx ho hf
  rw [free_eq ht hb hpn, mergeBack_isFree (findPrev_aligned (absorb_spec h.heapOff.toNat h1 hlen))
    ho, absorb_isFree _ _ hx ho]
  exact hmarked

theorem free_flagged (hp : p ≠ 0) (hf : (headerOf h p).isFree = true) : free h p = rejectFree h := by
  unfold free
  rw [if_neg (by simpa using hp)]
  split
  · rfl
  · unfold headerOf at hf
    simp [hf]

structure Dead (p : Word) (s : Session) : Prop where
  consistent : ∃ bs, Consistent s bs
  offset : Aligned (p - headerSize - s.heap.heapBase)
  flagged : (headerOf s.heap p).isFree = true

theorem Dead.free (hd : Dead p s) (hr : r = 0 ∨ r ∈ s.live.map Prod.fst) :
    Dead p (s.step (.free r)) := by
  obtain ⟨⟨bs, hc⟩, hoff, hflag⟩ := hd
  obtain ⟨hbase, -⟩ := free_fields s.heap r
  have hbase' : (s.step (.free r)).heap.heapBase = s.heap.heapBase := hbase
  refine ⟨hc.free hr, by rw [hbase']; exact hoff, ?_⟩
  unfold headerOf
  rw [hbase']
  by_cases hlive : r ∈ s.live.map Prod.fst
  · obtain ⟨q, hq, rfl⟩ := mem_map.mp hlive
    exact free_isFree hc.tiled (hc.base (ne_nil_of_mem hq)) (hc.mem_lives hq) hoff (.inr hflag)
  · obtain rfl : r = 0 := hr.resolve_right hlive
    exact hflag

theorem Consistent.dead (hc : Consistent s bs) (hq : q ∈ s.live) : Dead q.1 (s.step (.free q.1)) := by
  obtain ⟨hbase, -⟩ := free_fields s.heap q.1
  have hbase' : (s.step (.free q.1)).heap.heapBase = s.heap.heapBase := hbase
  obtain ⟨pre, b, post, rfl, -, hp, -⟩ := hc.payload hq
  have hoff := hc.tiled.offset_of_payload hp
  have halign : Aligned (q.1 - headerSize - s.heap.heapBase) := hoff ▸ aligned_ofNat hc.tiled.dvd_pre
  refine ⟨hc.free (.inr (mem_map_of_mem hq)), by rw [hbase']; exact halign, ?_⟩
  unfold headerOf
  rw [hbase']
  exact free_isFree hc.tiled (hc.base (ne_nil_of_mem hq)) (hc.mem_lives hq) halign (.inl rfl)

theorem second_free_rejected (base size : Word) (h : Heap) (hok : InitOk base size)
    (harena : base.toNat + size.toNat < 2 ^ 64) (ops : List Op)
    (hrun : Along step (fun s op => op.Legal s ∧ op.NoWrap s) (start base size h) ops) (p : Word)
    (hp : p ∈ (runFrom step (start base size h) ops).live.map Prod.fst) (others : List Word)
    (hothers : Along step (fun s op => op.Legal s)
      ((runFrom step (start base size h) ops).step (.free p)) (others.map Op.free)) :
    free (others.foldl free (free (runFrom step (start base size h) ops).heap p)) p =
      rejectFree (others.foldl free (free (runFrom step (start base size h) ops).heap p)) := by
  obtain ⟨bs, hc⟩ := consistent_run h hok harena hrun
  obtain ⟨q, hq, rfl⟩ := mem_map.mp hp
  have hne : q.1 ≠ 0 := by
    obtain ⟨_, _, _, -, -, hpay, -⟩ := hc.payload hq
    intro h0
    rw [h0] at hpay
    simp at hpay
  have hdead : ∀ (l : List Word) (s : Session), Dead q.1 s →
      Along step (fun s op => op.Legal s) s (l.map Op.free) →
      Dead q.1 (runFrom step s (l.map Op.free)) ∧
        (runFrom step s (l.map Op.free)).heap = l.foldl free s.heap := by
    intro l
    induction l with
    | nil => exact fun s hd _ => ⟨hd, rfl⟩
    | cons r l ih => exact fun s hd hl => ih _ (hd.free hl.1) hl.2
  obtain ⟨hd, hheap⟩ := hdead others _ (hc.dead hq) hothers
  have hflag := hd.flagged
  rw [hheap] at hflag
  exact free_flagged hne hflag

theorem second_free_rejected_sample :
    free ([4160].foldl free (free (runFrom step (start 4096 8192 blank) sampleOps).heap 4112)) 4112
      = rejectFree ([4160].foldl free (free (runFrom step (start 4096 8192 blank) sampleOps).heap
        4112)) :=
  second_free_rejected 4096 8192 blank (by decide) (by decide) sampleOps (by decide) 4112
    (by decide) [4160] (by decide)

def overlapOps : List Op :=
  [.alloc 16 16, .alloc 256 16, .alloc 65264 16, .alloc 16 16, .alloc 16 16,
    .alloc 0x0ffffffffffffff0 16,
    .free 69728, .alloc 0x8000000000011070 0x8000000000000000, .write 4096 39, .write 4135 9,
      .write 4143 1]

theorem second_free_accepted_wrapped :
    InitOk 4096 0xffffffffffffe000 ∧ (4096 : Word).toNat + (0xffffffffffffe000 : Word).toNat < 2 ^ 64 ∧
      Along step (fun s op => op.Legal s) wrapStart (overlapOps ++ [.free 4144, .free 4416]) ∧
      (free (runFrom step wrapStart (overlapOps ++ [.free 4144, .free 4416])).heap
        4144).record.freeRejected = (runFrom step wrapStart
          (overlapOps ++ [.free 4144, .free 4416])).heap.record.freeRejected := by
  decide +kernel

end BlockOS.Allocator
