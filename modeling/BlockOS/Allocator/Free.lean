import BlockOS.Allocator.Alloc

/-! What `free` does to the list of blocks. -/

namespace BlockOS.Allocator
open Words Bytes List
open BitVec (ofNat le_def lt_def toNat toNat_sub)

theorem Tiled.setFree (ht : Tiled h (pre ++ b :: post)) :
    Tiled (h.setFree (ofNat 64 (span pre)) true) (pre ++ ⟨b.size, none⟩ :: post) := by
  have hc := (chain_append h 0 pre (b :: post)).mp ht.chain
  have hge := ht.good_at.le
  have hoff := ht.offset_le
  have hbound := ht.bound
  have harena := ht.arena
  have htot := ht.total
  simp only [span_append, span_cons] at htot
  have hf : ∀ x, x + 16 ≤ span pre ∨ span pre + b.size ≤ x → x + 16 ≤ 18446744073709551616 →
      (h.setFree (ofNat 64 (span pre)) true).header (ofNat 64 x) = h.header (ofNat 64 x) := by
    intro x hx hx'
    apply Heap.setFree_apart
    rcases hx with hx | hx
    · exact (apart_of_le hx (by omega)).1
    · exact (apart_of_le (show span pre + 16 ≤ x by omega) hx').2
  refine ⟨?_, ?_, ?_, hbound, harena, ht.aligned⟩
  · rw [chain_append]
    refine ⟨hc.1.congr_outside (fun c hc => ht.good c (by simp [hc])) fun x _ hx' =>
      hf x (by omega) (by omega), ?_, ?_⟩
    · have hs := hc.2.1.1
      rw [Nat.zero_add] at hs ⊢
      unfold HeaderAt
      rw [Heap.setFree_same]
      exact ⟨hs, rfl⟩
    · exact hc.2.2.congr_outside (fun c hc => ht.good c (by simp [hc])) fun x hx hx' =>
        hf x (by omega) (by omega)
  · simp only [span_append, span_cons]
    exact htot
  · intro c hc
    simp only [mem_append, mem_cons] at hc
    rcases hc with hc | hc | hc
    · exact ht.good c (by simp [hc])
    · subst hc
      exact ⟨ht.good_at.1, ht.good_at.2.1, by simp⟩
    · exact ht.good c (by simp [hc])

theorem Tiled.merge (ht : Tiled h (pre ++ b :: c :: post)) (hb : b.req = none)
    (hw : w.toNat = b.size + c.size) :
    Tiled (h.setSize (ofNat 64 (span pre)) w) (pre ++ ⟨b.size + c.size, none⟩ :: post) := by
  have hc := (chain_append h 0 pre (b :: c :: post)).mp ht.chain
  have hgb := ht.good_at
  have hgc : c.Good := ht.good c (by simp)
  have hge := hgb.le
  have hbound := ht.bound
  have harena := ht.arena
  have htot := ht.total
  simp only [span_append, span_cons] at htot
  have hf : ∀ x, x + 16 ≤ span pre ∨ span pre + b.size ≤ x → x + 16 ≤ 18446744073709551616 →
      (h.setSize (ofNat 64 (span pre)) w).header (ofNat 64 x) = h.header (ofNat 64 x) := by
    intro x hx hx'
    apply Heap.setSize_apart
    rcases hx with hx | hx
    · exact (apart_of_le hx (by omega)).1
    · exact (apart_of_le (show span pre + 16 ≤ x by omega) hx').2
  refine ⟨?_, ?_, ?_, hbound, harena, ht.aligned⟩
  · rw [chain_append]
    refine ⟨hc.1.congr_outside (fun c hc => ht.good c (by simp [hc])) fun x _ hx' =>
      hf x (by omega) (by omega), ?_, ?_⟩
    · have hfr := hc.2.1.2
      rw [Nat.zero_add] at hfr ⊢
      unfold HeaderAt
      rw [Heap.setSize_same]
      exact ⟨hw, hfr.trans (by simp [Block.free, hb])⟩
    · have := hc.2.2.2
      rw [Nat.add_assoc (0 + span pre)] at this
      exact this.congr_outside (fun c hc => ht.good c (by simp [hc])) fun x hx hx' =>
        hf x (by omega) (by omega)
  · simp only [span_append, span_cons]
    exact Eq.trans (by omega) htot
  · intro d hd
    simp only [mem_append, mem_cons] at hd
    rcases hd with hd | hd | hd
    · exact ht.good d (by simp [hd])
    · subst hd
      exact ⟨Nat.add_pos_left hgb.1 _, Nat.dvd_add hgb.2.1 hgc.2.1, by simp⟩
    · exact ht.good d (by simp [hd])

theorem header_at_end (ht : Tiled h (pre ++ b :: post)) :
    ofNat 64 (span pre) + (h.header (ofNat 64 (span pre))).size =
      ofNat 64 (span pre + b.size) := by
  rw [← ofNat_add_ofNat, toNat_eq_ofNat ht.headerAt.1]

theorem absorb_spec (fuel : Nat) (ht : Tiled h (pre ++ ⟨s, none⟩ :: post))
    (hf : post.length ≤ fuel) :
    Tiled (absorb fuel (ofNat 64 (span pre)) h)
      (pre ++ ⟨s + span (post.takeWhile Block.free), none⟩ :: post.dropWhile Block.free) := by
  induction post generalizing h s fuel with
  | nil =>
    cases fuel with
    | zero => simpa [absorb] using ht
    | succ fuel =>
      have htot := ht.total
      simp only [span_append, span_cons, span_nil] at htot
      have := toNat_lt h.heapOff
      have hend : ofNat 64 (span pre + s) ≥ h.heapOff := by
        rw [ge_iff_le, le_def, toNat_ofNat_of_lt (by omega)]
        omega
      have he := header_at_end ht
      simp only at he
      simp only [absorb, he, if_pos hend]
      simpa using ht
  | cons c post ih =>
    cases fuel with
    | zero => simp at hf
    | succ fuel =>
      have ht2 : Tiled h ((pre ++ [⟨s, none⟩]) ++ c :: post) := by simpa using ht
      have htot := ht.total
      simp only [span_append, span_cons] at htot
      have hgc := ht2.good_at.le
      have := toNat_lt h.heapOff
      have hend : ¬ ofNat 64 (span pre + s) ≥ h.heapOff := by
        rw [ge_iff_le, le_def, toNat_ofNat_of_lt (by omega)]
        omega
      have he := header_at_end ht
      simp only at he
      obtain ⟨hcs, hcf⟩ := ht2.headerAt
      simp only [span_append, span_cons, span_nil, Nat.add_zero] at hcs hcf
      simp only [absorb, he, if_neg hend, hcf]
      cases hfr : c.free with
      | false => simpa [hfr] using ht
      | true =>
        have hw : ((h.header (ofNat 64 (span pre))).size +
            (h.header (ofNat 64 (span pre + s))).size).toNat = s + c.size := by
          rw [toNat_add_of_lt] <;> rw [ht.headerAt.1, hcs]
          simp only
          omega
        have hm := ih fuel (ht.merge rfl hw) (by simpa using hf)
        simpa [hfr, Nat.add_assoc] using hm

theorem findPrev_spec (ht : Tiled h (pre ++ post))
    (p1 p2 : List Block) (prev : Word) (fuel : Nat) (hp : pre = p1 ++ p2)
    (hf : p2.length ≤ fuel) :
    findPrev h (ofNat 64 (span pre)) fuel prev (ofNat 64 (span p1)) =
      (if p2 = [] then prev else ofNat 64 (span (p1 ++ p2.dropLast)), ofNat 64 (span pre)) := by
  have htot := ht.total
  have hlt := toNat_lt h.heapOff
  simp only [span_append] at htot
  induction p2 generalizing p1 prev fuel with
  | nil =>
    simp only [append_nil] at hp
    subst hp
    cases fuel with
    | zero => simp [findPrev]
    | succ fuel => simp [findPrev]
  | cons c p2 ih =>
    cases fuel with
    | zero => simp at hf
    | succ fuel =>
      have ht2 : Tiled h (p1 ++ c :: (p2 ++ post)) := by simpa [hp] using ht
      have hgc := ht2.good_at.le
      have hspan : span pre = span p1 + c.size + span p2 := by
        simp [hp, Nat.add_assoc]
      have h1 : ofNat 64 (span p1) < ofNat 64 (span pre) := by
        rw [lt_def, toNat_ofNat_of_lt (by omega), toNat_ofNat_of_lt (by omega)]
        omega
      have hnz : ((h.header (ofNat 64 (span p1))).size == 0) = false := by
        rw [beq_eq_false_iff_ne]
        intro h0
        have := ht2.headerAt.1
        rw [h0] at this
        simp at this
        omega
      have h2 : ¬ ofNat 64 (span p1 + c.size) > ofNat 64 (span pre) := by
        rw [gt_iff_lt, lt_def, toNat_ofNat_of_lt (by omega), toNat_ofNat_of_lt (by omega)]
        omega
      have hih := ih (p1 ++ [c]) (ofNat 64 (span p1)) fuel (by simp [hp]) (by simpa using hf)
      simp only [span_append, span_cons, span_nil, Nat.add_zero] at hih
      simp only [findPrev, if_pos h1, header_at_end ht2, hnz, h2, decide_false, Bool.or_self,
        Bool.false_eq_true, if_false, hih]
      cases p2 with
      | nil => simp
      | cons e p2 => simp [Nat.add_assoc]

theorem trimEnd_spec (ht : Tiled h (pre ++ b :: post)) : Tiled (trimEnd h (ofNat 64 (span pre)))
      (if post = [] then pre else pre ++ b :: post) := by
  have htot := ht.total
  have hlt := toNat_lt h.heapOff
  have hbound := ht.bound
  simp only [span_append, span_cons] at htot
  unfold trimEnd
  rw [header_at_end ht]
  cases post with
  | nil =>
    have he : (ofNat 64 (span pre + b.size) == h.heapOff) = true := by
      rw [beq_iff_eq]
      apply eq_of_toNat
      rw [toNat_ofNat_of_lt (by omega)]
      simpa using htot
    rw [if_pos he, if_pos rfl]
    have hc := (chain_append h 0 pre [b]).mp ht.chain
    have hp : (ofNat 64 (span pre)).toNat = span pre := toNat_ofNat_of_lt (by omega)
    exact ⟨hc.1.of_mem rfl rfl, hp.symm, fun c hc => ht.good c (by simp [hc]),
      by simp only [hp]; omega, ht.arena, ht.aligned⟩
  | cons c post =>
    have hgc := (ht.good c (by simp)).le
    simp only [span_cons] at htot
    have hne : (ofNat 64 (span pre + b.size) == h.heapOff) = false := by
      rw [beq_eq_false_iff_ne]
      intro he
      have := congrArg toNat he
      rw [toNat_ofNat_of_lt (by omega)] at this
      omega
    rw [hne, if_neg (by simp), if_neg (by simp)]
    exact ht

theorem mergeBack_spec (ht : Tiled h (pre ++ ⟨s, none⟩ :: post)) :
    ∃ pre' left, pre = pre' ++ left ∧ left.length ≤ 1 ∧ (∀ b ∈ left, b.free = true) ∧
      (left = [] → ∀ b ∈ pre.getLast?, b.free = false) ∧
      Tiled (mergeBack h (ofNat 64 (span pre)))
        (if post = [] then pre' else pre' ++ ⟨span left + s, none⟩ :: post) := by
  have hoff := ht.offset_le
  have hbound := ht.bound
  have harena := ht.arena
  have hgpre : ∀ b ∈ pre, b.Good := fun b hb => ht.good b (by simp [hb])
  have hnat : (ofNat 64 (span pre)).toNat = span pre := toNat_ofNat_of_lt (by omega)
  have hwalk := findPrev_spec ht [] pre (ofNat 64 (span pre)) (span pre) rfl (length_le_span hgpre)
  rw [span_nil, show ofNat 64 0 = (0 : Word) from rfl, nil_append] at hwalk
  rcases eq_nil_or_concat pre with rfl | ⟨pre', c, rfl⟩
  · refine ⟨[], [], rfl, by simp, by simp, by simp, ?_⟩
    unfold mergeBack
    rw [hnat, hwalk]
    simpa using trimEnd_spec ht
  · rw [concat_eq_append] at *
    have ht2 : Tiled h (pre' ++ c :: ⟨s, none⟩ :: post) := by simpa using ht
    have hgc := ht2.good_at.le
    have htot := ht2.total
    have := toNat_lt h.heapOff
    simp only [span_append, span_cons] at htot
    rw [if_neg (by simp), dropLast_concat] at hwalk
    have hne : (ofNat 64 (span pre') != ofNat 64 (span (pre' ++ [c]))) = true := by
      rw [bne_iff_ne]
      intro he
      have := congrArg toNat he
      rw [hnat, toNat_ofNat_of_lt (by omega)] at this
      simp only [span_append, span_cons, span_nil] at this
      omega
    unfold mergeBack
    rw [hnat, hwalk]
    simp only [BEq.rfl, hne, Bool.true_and, ht2.headerAt.2]
    cases hfr : c.free with
    | false =>
      refine ⟨pre' ++ [c], [], by simp, by simp, by simp, by simpa using hfr, ?_⟩
      simpa using trimEnd_spec ht
    | true =>
      refine ⟨pre', [c], rfl, by simp, by simpa using hfr, by simp, ?_⟩
      have hw : ((h.header (ofNat 64 (span pre'))).size +
          (h.header (ofNat 64 (span (pre' ++ [c])))).size).toNat = c.size + s := by
        rw [toNat_add_of_lt] <;> rw [ht2.headerAt.1, ht.headerAt.1]
        simp only
        omega
      have hm := trimEnd_spec (ht2.merge (by simpa [Block.free] using hfr) hw)
      simpa using hm

theorem absorb_fields (fuel : Nat) (off : Word) (h : Heap) :
    (absorb fuel off h).heapBase = h.heapBase ∧ (absorb fuel off h).heapSize = h.heapSize := by
  induction fuel generalizing h with
  | zero => exact ⟨rfl, rfl⟩
  | succ fuel ih =>
    simp only [absorb]
    split
    · exact ⟨rfl, rfl⟩
    split
    · exact ih (h.setSize off _)
    · exact ⟨rfl, rfl⟩

theorem trimEnd_fields (h : Heap) (off : Word) :
    (trimEnd h off).heapBase = h.heapBase ∧ (trimEnd h off).heapSize = h.heapSize := by
  unfold trimEnd
  split <;> exact ⟨rfl, rfl⟩

theorem free_fields (h : Heap) (p : Word) : (free h p).heapBase = h.heapBase ∧
    (free h p).heapSize = h.heapSize := by
  have hm : ∀ (g : Heap) off, (mergeBack g off).heapBase = g.heapBase ∧ (mergeBack g off).heapSize =
      g.heapSize := by
    intro g off
    unfold mergeBack
    dsimp only
    split
    · exact trimEnd_fields (g.setSize _ _) _
    · exact trimEnd_fields g off
  unfold free
  dsimp only
  split
  · exact ⟨rfl, rfl⟩
  split
  · exact ⟨rfl, rfl⟩
  split
  · exact ⟨rfl, rfl⟩
  · rw [(hm _ _).1, (hm _ _).2, (absorb_fields _ _ _).1, (absorb_fields _ _ _).2]
    exact ⟨rfl, rfl⟩

def FreeShape (base : Nat) (bs bs' : List Block) (p n : Nat) : Prop :=
  ∃ pre left s right post, bs = pre ++ (left ++ ⟨s, some n⟩ :: (right ++ post)) ∧
    p = base + span (pre ++ left) + 16 ∧ left.length ≤ 1 ∧
    (∀ b ∈ left, b.free = true) ∧ (∀ b ∈ right, b.free = true) ∧
    (left = [] → ∀ b ∈ pre.getLast?, b.free = false) ∧ (∀ b ∈ post.head?, b.free = false) ∧
    bs' = if post = [] then pre else pre ++ ⟨span left + (s + span right), none⟩ :: post

theorem Tiled.offset_of_payload (ht : Tiled h (pre ++ b :: post))
    (hp : p.toNat = h.heapBase.toNat + span pre + 16) :
    p - headerSize - h.heapBase = ofNat 64 (span pre) := by
  have hoff := ht.offset_le
  have hbound := ht.bound
  have harena := ht.arena
  apply eq_of_toNat
  rw [toNat_ofNat_of_lt (by omega), toNat_sub, toNat_sub, hp,
    show headerSize.toNat = 16 from rfl]
  omega

def markFree (h : Heap) (o : Nat) : Heap :=
  { h.setFree (ofNat 64 o) true with
    record := { h.record with
      freeCount := h.record.freeCount + 1
      used := if (h.header (ofNat 64 o)).size ≤ h.record.used then
        h.record.used - (h.header (ofNat 64 o)).size else 0 } }

theorem free_eq (ht : Tiled h (pre ++ ⟨s, some n⟩ :: post)) (hb : h.heapBase ≠ 0)
    (hp : p.toNat = h.heapBase.toNat + span pre + 16) :
    free h p = mergeBack (absorb h.heapOff.toNat (ofNat 64 (span pre)) (markFree h (span pre)))
      (ofNat 64 (span pre)) := by
  have hoff := ht.offset_le
  have hbound := ht.bound
  have harena := ht.arena
  have hge := ht.good_at.le
  have hdvd := ht.dvd_pre
  have htot := ht.total
  simp only [span_append, span_cons] at htot hge hoff
  have ho := ht.offset_of_payload hp
  have hnat : (ofNat 64 (span pre)).toNat = span pre := toNat_ofNat_of_lt (by omega)
  obtain ⟨hs, hf⟩ := ht.headerAt
  have hchecks : (decide (ofNat 64 (span pre) ≥ h.heapOff) || ofNat 64 (span pre) % headerAlign != 0 ||
      (h.header (ofNat 64 (span pre))).size == 0 ||
      decide ((h.header (ofNat 64 (span pre))).size > h.heapOff - ofNat 64 (span pre)) ||
      (h.header (ofNat 64 (span pre))).isFree) = false := by
    simp only [Bool.or_eq_false_iff, decide_eq_false_iff_not, bne_eq_false_iff_eq,
      beq_eq_false_iff_ne, ge_iff_le, gt_iff_lt, le_def, lt_def, hnat, hs]
    refine ⟨⟨⟨⟨by omega, ?_⟩, ?_⟩, ?_⟩, hf⟩
    · apply eq_of_toNat
      rw [BitVec.toNat_umod, hnat]
      change span pre % 8 = 0
      omega
    · intro h0
      rw [h0] at hs
      simp at hs
      omega
    · rw [toNat_sub_of_le (by omega), hnat]
      omega
  have hp0 : (p == 0) = false := by
    rw [beq_eq_false_iff_ne]
    rintro rfl
    simp at hp
  have hb0 : (h.heapBase == 0) = false := by simpa using hb
  unfold free
  simp only [hp0, hb0, ho, hchecks, Bool.false_eq_true, if_false]
  rfl

theorem free_spec (ht : Tiled h bs) (hb : h.heapBase ≠ 0)
    (hp : (p.toNat, n) ∈ livesOf h.heapBase.toNat 0 bs) :
    ∃ bs', Tiled (free h p) bs' ∧ FreeShape h.heapBase.toNat bs bs' p.toNat n := by
  obtain ⟨pre, s, post, rfl, hpn⟩ := mem_livesOf hp
  rw [Nat.zero_add] at hpn
  have htot := ht.total
  simp only [span_append, span_cons] at htot
  have h1 : Tiled (markFree h (span pre)) (pre ++ ⟨s, none⟩ :: post) :=
    ht.setFree.of_record rfl rfl rfl rfl
  have hlen : post.length ≤ h.heapOff.toNat := by
    have := length_le_span fun b hb => ht.good b (mem_append_right pre (mem_cons_of_mem _ hb))
    omega
  obtain ⟨pre', left, rfl, hl1, hl2, hl3, hm⟩ := mergeBack_spec (absorb_spec h.heapOff.toNat h1 hlen)
  rw [free_eq ht hb hpn]
  refine ⟨_, hm, pre', left, s, post.takeWhile Block.free, post.dropWhile Block.free, ?_, hpn, hl1,
    hl2, ?_, ?_, ?_, rfl⟩
  · simp
  · exact all_eq_true.mp all_takeWhile
  · rintro rfl
    simpa using hl3 rfl
  intro b hb
  have hd := head?_dropWhile_not Block.free post
  rw [Option.mem_def.mp hb] at hd
  simpa using hd

end BlockOS.Allocator
