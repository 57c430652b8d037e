import BlockOS.Allocator.Blocks

/-! What `alloc` does to the list of blocks. -/

namespace BlockOS.Allocator
open Words Bytes List
open BitVec (toNat_add lt_def reduceToNat ofNat toNat_sub le_def)

theorem isPowerOf2_iff (a : Word) : isPowerOf2 a = true ↔ ∃ k, k < 64 ∧ a.toNat = 2 ^ k := by
  by_cases ha : a = 0
  · subst ha
    simp only [isPowerOf2, bne_self_eq_false, Bool.false_and, Bool.false_eq_true, false_iff]
    rintro ⟨k, _, hk⟩
    have := Nat.two_pow_pos k
    simp at hk
    omega
  · simp only [isPowerOf2, bne_iff_ne, ne_eq, ha, not_false_eq_true, Bool.and_eq_true, beq_iff_eq,
      true_and]
    exact and_sub_one_eq_zero_iff a ha

variable {k o d l n : Nat} {a align : Word} {h : Heap} {bs post : List Block}

theorem pow_dvd_two_pow_64 (hk : k < 64) : 2 ^ k ∣ 18446744073709551616 :=
  Nat.pow_dvd_pow 2 (show k ≤ 64 by omega)

theorem alignUp_toNat (v a : Word) (k : Nat) (hk : k < 64) (ha : a.toNat = 2 ^ k) :
    (alignUp v a).toNat = ceilTo (2 ^ k) v.toNat % 18446744073709551616 := by
  have hp : isPowerOf2 a = true := (isPowerOf2_iff a).mpr ⟨k, hk, ha⟩
  have hpos := Nat.two_pow_pos k
  have hs : (a - 1).toNat = 2 ^ k - 1 := by
    rw [toNat_sub_of_le (by simp [ha]; omega), ha]; rfl
  simp only [alignUp, hp, if_true]
  rw [toNat_and_not_mask _ a k hk ha, toNat_add, hs]
  unfold ceilTo
  by_cases h : v.toNat + (2 ^ k - 1) < 18446744073709551616
  · rw [Nat.mod_eq_of_lt (show _ < 2 ^ 64 from h)]
    have := Nat.div_mul_le_self (v.toNat + (2 ^ k - 1)) (2 ^ k)
    rw [Nat.mod_eq_of_lt (by omega)]
  obtain ⟨c, hc⟩ := pow_dvd_two_pow_64 hk
  -- past the top both sides are zero: the sum exceeds `2 ^ 64` by less than `2 ^ k`
  have hx : v.toNat + (2 ^ k - 1) = 2 ^ k * c + (v.toNat + (2 ^ k - 1) - 18446744073709551616) := by
    omega
  have hm : (v.toNat + (2 ^ k - 1)) % 2 ^ 64 = v.toNat + (2 ^ k - 1) - 18446744073709551616 := by
    omega
  rw [hm, Nat.div_eq_of_lt (by omega), hx, Nat.mul_add_div hpos, Nat.div_eq_of_lt (by omega)]
  rw [Nat.add_zero, Nat.mul_comm c, ← hc, Nat.zero_mul, Nat.mod_self]

theorem ceilTo_le_top (hk : k < 64) (hv : v ≤ 18446744073709551616) :
    ceilTo (2 ^ k) v ≤ 18446744073709551616 :=
  ceilTo_le_of_dvd (Nat.two_pow_pos k) (pow_dvd_two_pow_64 hk) hv

structure AlignOk (a : Word) (k : Nat) : Prop where
  lt : k < 64
  eq : a.toNat = 2 ^ k
  ge : 4 ≤ k

theorem AlignOk.dvd (h : AlignOk a k) : 16 ∣ 2 ^ k :=
  Nat.pow_dvd_pow 2 h.ge

theorem clampAlign_ok (h : isPowerOf2 (clampAlign a) = true) : ∃ k, AlignOk (clampAlign a) k := by
  obtain ⟨k, hk, he⟩ := (isPowerOf2_iff _).mp h
  refine ⟨k, hk, he, ?_⟩
  have hge : 16 ≤ (clampAlign a).toNat := by
    unfold clampAlign granularity headerSize
    split
    · decide
    · rename_i hlt
      simpa [lt_def] using hlt
  by_contra hlt
  have : 2 ^ k ≤ 2 ^ 3 := Nat.pow_le_pow_right (by decide) (by omega)
  omega

theorem max_dvd_clampAlign (a : Word) : max a.toNat 16 = (clampAlign a).toNat := by
  unfold clampAlign granularity headerSize
  split
  · rename_i h
    rw [lt_def] at h
    simp only [reduceToNat] at h ⊢
    omega
  · rename_i h
    rw [lt_def] at h
    simp only [reduceToNat] at h ⊢
    omega

def lead (base k o : Nat) : Nat := ceilTo (2 ^ k) (base + o + 16) - (base + o + 16)

theorem slack_toNat (ha : AlignOk a k) (ho : h.heapBase.toNat + o + 16 < 18446744073709551616) :
    (slack h (ofNat 64 o) a).toNat = lead h.heapBase.toNat k o := by
  have ho' : (ofNat 64 o).toNat = o := toNat_ofNat_of_lt (by omega)
  have hp : (h.heapBase + ofNat 64 o + headerSize).toNat = h.heapBase.toNat + o + 16 := by
    unfold headerSize
    rw [toNat_add_of_lt, toNat_add_of_lt, ho'] <;>
      simp only [ho', toNat_add, reduceToNat] <;> omega
  have hc := ceilTo_le_top ha.lt (Nat.le_of_lt ho)
  have hle := le_ceilTo (Nat.two_pow_pos k) (h.heapBase.toNat + o + 16)
  simp only [slack, lead]
  rw [toNat_sub, alignUp_toNat _ _ k ha.lt ha.eq, hp]
  omega

theorem dvd_lead (hk : 16 ∣ 2 ^ k) (hb : 16 ∣ base) (ho : 16 ∣ o) : 16 ∣ lead base k o :=
  Nat.dvd_sub (hk.trans (dvd_ceilTo _ _)) (Nat.dvd_add (Nat.dvd_add hb ho) (by decide))

theorem payload_lead {base k o : Nat} : base + o + lead base k o + 16 = ceilTo (2 ^ k)
    (base + o + 16) := by
  have := le_ceilTo (Nat.two_pow_pos k) (base + o + 16)
  unfold lead
  omega

theorem blockLengthFor_toNat (size : Word) (hs : size.toNat + 32 ≤ 18446744073709551616) :
    (blockLengthFor size).toNat = ceilTo 16 (size.toNat + 16) := by
  have ha : (headerSize + size).toNat = size.toNat + 16 := by
    unfold headerSize
    rw [toNat_add_of_lt] <;> simp only [reduceToNat] <;> omega
  unfold blockLengthFor
  rw [alignUp_toNat _ granularity 4 (by decide) rfl, ha, show 2 ^ 4 = 16 from rfl]
  have h1 := ceilTo_lt (show 0 < 16 by decide) (size.toNat + 16)
  omega

def fitIn (acc : Nat → Block → Bool) : Nat → List Block → Option Nat
  | _, [] => none
  | o, b :: bs => if acc o b then some o else fitIn acc (o + b.size) bs

theorem fitIn_some (h : fitIn acc o bs = some x) :
    ∃ pre b post, bs = pre ++ b :: post ∧ x = o + span pre ∧ acc x b = true := by
  induction bs generalizing o with
  | nil => simp [fitIn] at h
  | cons b bs ih =>
    simp only [fitIn] at h
    split at h
    · cases h
      exact ⟨[], b, bs, rfl, by simp, by assumption⟩
    · obtain ⟨pre, c, post, rfl, rfl, ha⟩ := ih h
      exact ⟨b :: pre, c, post, rfl, by simp; omega, ha⟩

def accepts (h : Heap) (align blockLength : Word) (o : Nat) (b : Block) : Bool :=
  b.free && decide ((slack h (ofNat 64 o) align + blockLength).toNat ≤ b.size)

theorem findFit_eq (len : Word)
    (ht : Tiled h bs) (ha : AlignOk align k) (pre : List Block) (hb : bs = pre ++ post) (fuel : Nat)
    (hf : post.length ≤ fuel) :
    findFit h align len fuel (ofNat 64 (span pre)) =
      (fitIn (accepts h align len) (span pre) post).map (ofNat 64) := by
  have htot := ht.total
  have hbound := ht.bound
  have harena := ht.arena
  induction post generalizing pre fuel with
  | nil =>
    have hn : ¬ ofNat 64 (span pre) < h.heapOff := by
      simp only [hb, span_append, span_nil, Nat.add_zero] at htot
      rw [lt_def, toNat_ofNat_of_lt (by omega)]
      omega
    cases fuel with
    | zero => rfl
    | succ fuel => simp [findFit, fitIn, hn]
  | cons b post ih =>
    cases fuel with
    | zero => simp at hf
    | succ fuel =>
      rw [hb] at ht
      obtain ⟨hs, hfr⟩ := ht.headerAt
      have hg := ht.good_at
      have hge := hg.le
      have hoff := ht.offset_le
      have hpre : (ofNat 64 (span pre)).toNat = span pre := toNat_ofNat_of_lt (by omega)
      have hlt : ofNat 64 (span pre) < h.heapOff := by
        rw [lt_def, hpre]; omega
      have hnz : ((h.header (ofNat 64 (span pre))).size != 0) = true := by
        rw [bne_iff_ne]
        intro h0
        rw [h0] at hs
        simp at hs
        omega
      have hnext : ofNat 64 (span pre) + (h.header (ofNat 64 (span pre))).size =
          ofNat 64 (span (pre ++ [b])) := by
        apply eq_of_toNat
        rw [toNat_add_of_lt] <;> rw [hpre, hs]
        · rw [toNat_ofNat_of_lt (by simp; omega)]
          simp
        · omega
      have hsl : (slack h (ofNat 64 (span pre)) align).toNat =
          lead h.heapBase.toNat k (span pre) := slack_toNat ha (by omega)
      have hd : 16 ∣ lead h.heapBase.toNat k (span pre) :=
        dvd_lead ha.dvd ((show 16 ∣ 4096 by decide).trans ht.aligned) ht.dvd_pre
      -- the slack is a multiple of 16, so the "too small for a header" case never occurs
      have hskip : (decide (slack h (ofNat 64 (span pre)) align > 0) &&
          decide (slack h (ofNat 64 (span pre)) align < headerSize)) = false := by
        rw [Bool.and_eq_false_iff, decide_eq_false_iff_not, decide_eq_false_iff_not]
        unfold headerSize
        rw [gt_iff_lt, lt_def, lt_def, hsl]
        simp only [reduceToNat]
        obtain ⟨c, hc⟩ := hd
        omega
      have hih := ih (pre ++ [b]) (by simp [hb]) fuel (by simpa using hf)
      have hacc : ((h.header (ofNat 64 (span pre))).isFree &&
          decide ((h.header (ofNat 64 (span pre))).size ≥ slack h (ofNat 64 (span pre)) align + len)) =
          accepts h align len (span pre) b := by
        simp only [accepts, hfr, ge_iff_le, le_def, hs]
      simp only [findFit, if_pos hlt, hskip, hnz, hnext, hih, fitIn, hacc]
      simp only [span_append, span_cons, span_nil, Nat.add_zero, Bool.false_eq_true, if_false, if_true]
      cases accepts h align len (span pre) b <;> simp

def gap (d : Nat) : List Block := if d = 0 then [] else [⟨d, none⟩]

@[simp] theorem span_gap (d : Nat) : span (gap d) = d := by
  unfold gap
  split
  · simp [*]
  · simp

@[simp] theorem livesOf_gap (base o d : Nat) : livesOf base o (gap d) = [] := by
  unfold gap
  split <;> simp [livesOf]

theorem good_gap (hd : 16 ∣ d) : ∀ b ∈ gap d, b.Good := by
  intro b hb
  unfold gap at hb
  split at hb
  · simp at hb
  simp only [mem_singleton] at hb
  subst hb
  exact ⟨Nat.pos_of_ne_zero ‹_›, hd, by simp⟩

theorem chain_gap (hh : d ≠ 0 → HeaderAt h o ⟨d, none⟩) : Chain h o (gap d) := by
  unfold gap
  split
  · trivial
  · exact ⟨hh ‹_›, trivial⟩

theorem setHeader_frame (h : Heap) (s : Word) (f : Bool)
    (hx : x + 16 ≤ 18446744073709551616) (hw : w + 16 ≤ 18446744073709551616)
    (ha : x + 16 ≤ w ∨ w + 16 ≤ x) :
    (h.setHeader (ofNat 64 w) s f).header (ofNat 64 x) = h.header (ofNat 64 x) := by
  apply Heap.setHeader_apart
  rcases ha with ha | ha
  · exact (apart_of_le ha hw).1
  · exact (apart_of_le ha hx).2

theorem headerAt_setHeader (h : Heap) (hw : w.toNat = s) (hs : b.size = s) (hf : b.free = f) :
    HeaderAt (h.setHeader (ofNat 64 o) w f) o b := by
  rw [HeaderAt, Heap.setHeader_same]
  exact ⟨hw.trans hs.symm, hf.symm⟩

theorem HeaderAt.frame (hb : HeaderAt h x b) (s : Word)
    (f : Bool) (hx : x + 16 ≤ 18446744073709551616) (hw : w + 16 ≤ 18446744073709551616)
    (ha : x + 16 ≤ w ∨ w + 16 ≤ x) :
    HeaderAt (h.setHeader (ofNat 64 w) s f) x b := by
  rw [HeaderAt, setHeader_frame h s f hx hw ha]
  exact hb

def writeGap (h : Heap) (o d : Nat) : Heap :=
  if d = 0 then h else h.setHeader (ofNat 64 o) (ofNat 64 d) true

theorem writeGap_frame (h : Heap) (hd : 16 ∣ d)
    (ho : o + d ≤ 18446744073709551616) (hx : x + 16 ≤ 18446744073709551616) (ha : x + 16 ≤ o ∨
      o + d ≤ x) :
    (writeGap h o d).header (ofNat 64 x) = h.header (ofNat 64 x) := by
  unfold writeGap
  split
  · rfl
  · have := Nat.le_of_dvd (Nat.pos_of_ne_zero ‹_›) hd
    exact setHeader_frame h _ _ hx (by omega) (by omega)

theorem writeGap_headerAt (h : Heap) (hd : d ≠ 0) (hlt : d < 18446744073709551616) :
    HeaderAt (writeGap h o d) o ⟨d, none⟩ := by
  unfold writeGap
  rw [if_neg hd]
  exact headerAt_setHeader h (toNat_ofNat_of_lt hlt) rfl rfl

theorem writeGap_fields (h : Heap) (o d : Nat) :
    (writeGap h o d).heapBase = h.heapBase ∧ (writeGap h o d).heapSize = h.heapSize ∧
      (writeGap h o d).heapOff = h.heapOff ∧ (writeGap h o d).record = h.record := by
  unfold writeGap
  split <;> exact ⟨rfl, rfl, rfl, rfl⟩

def place (h : Heap) (o d l r : Nat) : Heap :=
  (writeGap (writeGap h o d) (o + d + l) r).setHeader (ofNat 64 (o + d)) (ofNat 64 l) false

theorem place_fields (h : Heap) (o d l r : Nat) :
    (place h o d l r).heapBase = h.heapBase ∧ (place h o d l r).heapSize = h.heapSize ∧
      (place h o d l r).heapOff = h.heapOff ∧ (place h o d l r).record = h.record := by
  obtain ⟨a1, a2, a3, a4⟩ := writeGap_fields h o d
  obtain ⟨b1, b2, b3, b4⟩ := writeGap_fields (writeGap h o d) (o + d + l) r
  exact ⟨b1.trans a1, b2.trans a2, b3.trans a3, b4.trans a4⟩

section Place

variable {h : Heap} (hd : 16 ∣ d) (hl : 16 ∣ l) (hr : 16 ∣ r) (hl0 : 0 < l)
  (htop : o + d + l + r < 18446744073709551616)

include hd hl hr hl0 htop

theorem place_frame (hx : x + 16 ≤ 18446744073709551616) (ha : x + 16 ≤ o ∨ o + d + l + r ≤ x) :
    (place h o d l r).header (ofNat 64 x) = h.header (ofNat 64 x) := by
  unfold place
  rw [setHeader_frame _ _ _ hx (by omega) (by omega),
    writeGap_frame _ hr (by omega) hx (by omega), writeGap_frame _ hd (by omega) hx (by omega)]

theorem place_headers (n : Nat) (hn : n + 16 ≤ l) :
    Chain (place h o d l r) o (gap d ++ ⟨l, some n⟩ :: gap r) := by
  rw [chain_append, span_gap]
  refine ⟨chain_gap fun hz => ?_, ?_, chain_gap fun hz => ?_⟩
  · -- the lead-in header is written first and untouched by the other two writes
    refine HeaderAt.frame ?_ _ _ (by omega) (by omega) (by omega)
    unfold HeaderAt
    rw [writeGap_frame _ hr (by omega) (by omega) (by omega)]
    exact writeGap_headerAt h hz (by omega)
  · exact headerAt_setHeader _ (toNat_ofNat_of_lt (by omega)) rfl rfl
  · have := Nat.le_of_dvd (Nat.pos_of_ne_zero hz) hr
    exact (writeGap_headerAt _ hz (by omega)).frame _ _ (by omega) (by omega) (by omega)

end Place

theorem place_chain (hp : Chain h 0 pre) (hq : Chain h (span pre + d + l + r) post)
    (hgp : ∀ b ∈ pre, b.Good) (hgq : ∀ b ∈ post, b.Good)
    (hd : 16 ∣ d) (hl : 16 ∣ l) (hr : 16 ∣ r) (hn : n + 16 ≤ l)
    (htop : span pre + d + l + r + span post < 18446744073709551616) :
    Chain (place h (span pre) d l r) 0 (pre ++ (gap d ++ ⟨l, some n⟩ :: (gap r ++ post))) := by
  have hf := fun x => place_frame (h := h) (x := x) hd hl hr (by omega)
    (show span pre + d + l + r < _ by omega)
  rw [show gap d ++ (⟨l, some n⟩ : Block) :: (gap r ++ post) =
    (gap d ++ ⟨l, some n⟩ :: gap r) ++ post by simp, chain_append, chain_append]
  refine ⟨hp.congr_outside hgp fun x _ hx' => hf x (by omega) (by omega), ?_, ?_⟩
  · rw [Nat.zero_add]
    exact place_headers hd hl hr (by omega) (by omega) n hn
  have he : 0 + span pre + span (gap d ++ ⟨l, some n⟩ :: gap r) = span pre + d + l + r := by
    simp only [span_append, span_cons, span_gap]; omega
  rw [he]
  exact hq.congr_outside hgq fun x hx hx' => hf x (by omega) (by omega)

theorem good_place (hgp : ∀ b ∈ pre, b.Good)
    (hgq : ∀ b ∈ post, b.Good) (hd : 16 ∣ d) (hl : 16 ∣ l) (hr : 16 ∣ r) (hn : n + 16 ≤ l) :
    ∀ b ∈ pre ++ (gap d ++ ⟨l, some n⟩ :: (gap r ++ post)), b.Good := by
  intro c hc
  simp only [mem_append, mem_cons] at hc
  rcases hc with hc | hc | hc | hc | hc
  · exact hgp c hc
  · exact good_gap hd c hc
  · subst hc
    exact ⟨by simp only; omega, hl, by simp only [Option.mem_some_iff, forall_eq']; omega⟩
  · exact good_gap hr c hc
  · exact hgq c hc

theorem toNat_eq_ofNat {w : Word} (h : w.toNat = n) : w = ofNat 64 n := by
  rw [← h, BitVec.ofNat_toNat, BitVec.setWidth_eq]

theorem ofNat_add_ofNat (a b : Nat) :
    ofNat 64 a + ofNat 64 b = ofNat 64 (a + b) := (BitVec.ofNat_add a b).symm

theorem payload_toNat (base : Word) (o : Nat) (h : base.toNat + o + 16 < 18446744073709551616) :
    (base + ofNat 64 o + headerSize).toNat = base.toNat + o + 16 := by
  have ho : (ofNat 64 o).toNat = o := toNat_ofNat_of_lt (by omega)
  have h1 : (base + ofNat 64 o).toNat = base.toNat + o := by
    rw [toNat_add_of_lt (by omega), ho]
  have h16 : headerSize.toNat = 16 := rfl
  rw [toNat_add_of_lt (by omega), h1, h16]

theorem carve_eq (hs : (h.header (ofNat 64 o)).size.toNat = s) (hd : dw.toNat = d)
    (hl : lw.toNat = l)
    (hfit : d + l ≤ s) (h16 : 16 ∣ s - d - l) :
    carve h (ofNat 64 o) dw lw = (h.heapBase + ofNat 64 (o + d) + headerSize,
        { place h o d l (s - d - l) with record := recordAlloc h.record lw }) := by
  have hrem : ((h.header (ofNat 64 o)).size - dw - lw).toNat = s - d - l := by
    have h1 : ((h.header (ofNat 64 o)).size - dw).toNat = s - d := by
      rw [toNat_sub_of_le (by omega), hs, hd]
    rw [toNat_sub_of_le (by omega), h1, hl]
  obtain rfl := toNat_eq_ofNat hd
  obtain rfl := toNat_eq_ofNat hl
  have hrw := toNat_eq_ofNat hrem
  have hgt : ofNat 64 d > 0 ↔ d ≠ 0 := by
    rw [gt_iff_lt, lt_def, hd, show (0 : Word).toNat = 0 from rfl]
    omega
  have hlead : (if ofNat 64 d > 0 then h.setHeader (ofNat 64 o) (ofNat 64 d) true
      else h) = writeGap h o d := by
    unfold writeGap
    by_cases hz : d = 0
    · rw [if_neg (fun hc => hgt.mp hc hz), if_pos hz]
    · rw [if_pos (hgt.mpr hz), if_neg hz]
  have hge : ofNat 64 (s - d - l) ≥ headerSize ↔ s - d - l ≠ 0 := by
    rw [ge_iff_le, le_def, ← hrw, hrem, show headerSize.toNat = 16 from rfl]
    constructor
    · intro hc; omega
    · intro hc; exact Nat.le_of_dvd (Nat.pos_of_ne_zero hc) h16
  have hoff : ofNat 64 d + ofNat 64 o = ofNat 64 (o + d) := by
    rw [ofNat_add_ofNat, Nat.add_comm]
  have htrail : ∀ g : Heap, (if ofNat 64 (s - d - l) ≥ headerSize then
      g.setHeader (ofNat 64 (o + d + l)) (ofNat 64 (s - d - l)) true else g) =
      writeGap g (o + d + l) (s - d - l) := by
    intro g
    unfold writeGap
    by_cases hz : s - d - l = 0
    · rw [if_neg (fun hc => hge.mp hc hz), if_pos hz]
    · rw [if_pos (hge.mpr hz), if_neg hz]
  have hnew : (if ofNat 64 (s - d - l) ≥ headerSize then ofNat 64 l
      else ofNat 64 (l + (s - d - l))) = ofNat 64 l := by
    split
    · rfl
    · rename_i hz
      rw [show s - d - l = 0 by by_contra hc; exact hz (hge.mpr hc), Nat.add_zero]
  obtain ⟨h1, _, _, h4⟩ := place_fields h o d l (s - d - l)
  simp only [carve, hrw, hoff, hlead, ofNat_add_ofNat, htrail, hnew]
  exact congrArg₂ Prod.mk (by rw [← h1]; rfl) (by rw [← h4]; rfl)

def bumpPayload (h : Heap) (k : Nat) : Nat :=
  ceilTo (2 ^ k) (h.heapBase.toNat + h.heapOff.toNat + 16)

theorem bump_offset (ht : Tiled h bs) (hb : h.heapBase ≠ 0) (ha : AlignOk align k) :
    (alignUp (h.heapBase + h.heapOff + headerSize) align - h.heapBase - headerSize).toNat =
      bumpPayload h k - h.heapBase.toNat - 16 := by
  have hbound := ht.bound
  have harena := ht.arena
  have hdvd : 16 ∣ h.heapBase.toNat + h.heapOff.toNat :=
    Nat.dvd_add ((show 16 ∣ 4096 by decide).trans ht.aligned) (ht.total ▸ dvd_span ht.good)
  have hpos : h.heapBase.toNat ≠ 0 := fun h0 => hb (eq_of_toNat h0)
  have h16 : headerSize.toNat = 16 := rfl
  have hc := ceilTo_le_top (v := h.heapBase.toNat + h.heapOff.toNat + 16) ha.lt (by omega)
  have hle := le_ceilTo (Nat.two_pow_pos k) (h.heapBase.toNat + h.heapOff.toNat + 16)
  have hsum : (h.heapBase + h.heapOff).toNat = h.heapBase.toNat + h.heapOff.toNat :=
    toNat_add_of_lt (by omega)
  have hup : (alignUp (h.heapBase + h.heapOff + headerSize) align).toNat =
      bumpPayload h k % 18446744073709551616 := by
    rw [alignUp_toNat _ _ k ha.lt ha.eq, toNat_add, hsum, h16]
    unfold bumpPayload
    by_cases hlt : h.heapBase.toNat + h.heapOff.toNat + 16 < 18446744073709551616
    · rw [Nat.mod_eq_of_lt (show _ < 2 ^ 64 from hlt)]
    -- the address after the last possible header wraps to 0
    have he : h.heapBase.toNat + h.heapOff.toNat + 16 = 18446744073709551616 := by omega
    rw [he, show 18446744073709551616 % 2 ^ 64 = 0 from rfl,
      ceilTo_of_dvd (Nat.two_pow_pos k) (Nat.dvd_zero _),
      ceilTo_of_dvd (Nat.two_pow_pos k) (pow_dvd_two_pow_64 ha.lt)]
  unfold bumpPayload at hup ⊢
  rw [toNat_sub, toNat_sub, hup, h16]
  omega

def allocFailure (h : Heap) : Heap :=
  { h with record := { h.record with allocFailed := h.record.allocFailed + 1 } }

theorem Tiled.allocFailure (ht : Tiled h bs) : Tiled (allocFailure h) bs :=
  ht.of_record rfl rfl rfl rfl

theorem bump_eq (ht : Tiled h bs) (hb : h.heapBase ≠ 0) (ha : AlignOk align k) (hl : lw.toNat = l) :
    (h.heapBase.toNat + h.heapSize.toNat + 16 < bumpPayload h k + l ∧
      bump h align lw = (0, allocFailure h)) ∨
      (bumpPayload h k + l ≤ h.heapBase.toNat + h.heapSize.toNat + 16 ∧ bump h align lw =
          (h.heapBase + ofNat 64 (bumpPayload h k - h.heapBase.toNat - 16) + headerSize,
            { place h h.heapOff.toNat
                (bumpPayload h k - h.heapBase.toNat - 16 - h.heapOff.toNat) l 0 with
              heapOff := ofNat 64 (bumpPayload h k - h.heapBase.toNat - 16 + l)
              record := recordAlloc h.record lw })) := by
  have hoff := toNat_eq_ofNat (bump_offset ht hb ha)
  have hge : h.heapBase.toNat + h.heapOff.toNat + 16 ≤ bumpPayload h k :=
    le_ceilTo (Nat.two_pow_pos k) _
  set x := bumpPayload h k - h.heapBase.toNat - 16 with hx
  have hxw : (ofNat 64 x).toNat = x := hoff ▸ bump_offset ht hb ha
  by_cases hfit : lw > h.heapSize ∨ ofNat 64 x > h.heapSize - lw
  · left
    constructor
    · by_cases hle : lw.toNat ≤ h.heapSize.toNat
      · have hover := hfit.resolve_left (by rw [gt_iff_lt, lt_def]; omega)
        rw [gt_iff_lt, lt_def, hxw, toNat_sub_of_le hle] at hover
        omega
      · omega
    · simp only [bump, hoff]
      rw [if_pos (by simpa using hfit)]
      rfl
  · right
    obtain ⟨hf1, hf2⟩ := not_or.mp hfit
    have hle : lw.toNat ≤ h.heapSize.toNat := by simpa [lt_def] using hf1
    have hlx : x + l ≤ h.heapSize.toNat := by
      have : x ≤ (h.heapSize - lw).toNat := by
        rw [gt_iff_lt, lt_def, hxw] at hf2
        omega
      rw [toNat_sub_of_le hle] at this
      omega
    refine ⟨by omega, ?_⟩
    have hgap : (if ofNat 64 x > h.heapOff then
        h.setHeader h.heapOff (ofNat 64 x - h.heapOff) true else h) =
        writeGap h h.heapOff.toNat (x - h.heapOff.toNat) := by
      have hho : ofNat 64 h.heapOff.toNat = h.heapOff := (toNat_eq_ofNat rfl).symm
      unfold writeGap
      by_cases hz : x - h.heapOff.toNat = 0
      · rw [if_neg (by rw [gt_iff_lt, lt_def, hxw]; omega), if_pos hz]
      have hsub : (ofNat 64 x - h.heapOff).toNat = x - h.heapOff.toNat := by
        rw [toNat_sub_of_le (by omega), hxw]
      rw [if_pos (by rw [gt_iff_lt, lt_def, hxw]; omega), if_neg hz, hho, toNat_eq_ofNat hsub]
    obtain rfl := toNat_eq_ofNat hl
    have hplace : (writeGap h h.heapOff.toNat (x - h.heapOff.toNat)).setHeader (ofNat 64 x)
        (ofNat 64 l) false = place h h.heapOff.toNat (x - h.heapOff.toNat) l 0 := by
      unfold place
      rw [show h.heapOff.toNat + (x - h.heapOff.toNat) = x by omega, writeGap, writeGap, if_pos rfl]
    obtain ⟨h1, _, _, h4⟩ := place_fields h h.heapOff.toNat (x - h.heapOff.toNat) l 0
    have hcond : ¬ (decide (ofNat 64 l > h.heapSize) ||
        decide (ofNat 64 x > h.heapSize - ofNat 64 l)) = true := by
      simp [hf1, hf2]
    simp only [bump, hoff, hgap, if_neg hcond, hplace, ofNat_add_ofNat]
    exact congrArg₂ Prod.mk (by rw [h1]) (by rw [h4])

def sumOverflows (h : Heap) (size align : Word) : Bool :=
  !(h.heapBase == 0 || size > h.heapSize || !isPowerOf2 (clampAlign align)) &&
    match findFit h (clampAlign align) (blockLengthFor size) h.heapOff.toNat 0 with
    | some scan =>
      decide (2 ^ 64 ≤ (slack h scan (clampAlign align)).toNat + (blockLengthFor size).toNat)
    | none => false

def AllocShape (base : Nat) (bs bs' : List Block) (p n : Nat) : Prop :=
  ∃ pre old post d l r, bs = pre ++ (old ++ post) ∧
    bs' = pre ++ (gap d ++ ⟨l, some n⟩ :: (gap r ++ post)) ∧ p = base + span pre + d + 16 ∧
    (old = [⟨d + l + r, none⟩] ∨ (old = [] ∧ post = [] ∧ r = 0))

theorem carve_spec (ht : Tiled h (pre ++ b :: post)) (hd : dw.toNat = d) (hl : lw.toNat = l)
    (hfit : d + l ≤ b.size) (hd16 : 16 ∣ d) (hl16 : 16 ∣ l) (hn : n + 16 ≤ l) :
    (carve h (ofNat 64 (span pre)) dw lw).1.toNat = h.heapBase.toNat + span pre + d + 16 ∧
      Tiled (carve h (ofNat 64 (span pre)) dw lw).2
        (pre ++ (gap d ++ ⟨l, some n⟩ :: (gap (b.size - d - l) ++ post))) ∧
      (carve h (ofNat 64 (span pre)) dw lw).2.heapBase = h.heapBase ∧
      (carve h (ofNat 64 (span pre)) dw lw).2.heapSize = h.heapSize := by
  have hbound := ht.bound
  have harena := ht.arena
  have hr16 : 16 ∣ b.size - d - l := Nat.dvd_sub (Nat.dvd_sub ht.good_at.2.1 hd16) hl16
  have hc := (chain_append h 0 pre (b :: post)).mp ht.chain
  have hgp : ∀ c ∈ pre, c.Good := fun c hc => ht.good c (by simp [hc])
  have hgq : ∀ c ∈ post, c.Good := fun c hc => ht.good c (by simp [hc])
  have htot := ht.total
  simp only [span_append, span_cons] at htot
  have hq : Chain h (span pre + d + l + (b.size - d - l)) post := by
    have := hc.2.2
    rwa [Nat.zero_add, show span pre + b.size = span pre + d + l + (b.size - d - l) by omega] at this
  obtain ⟨f1, f2, f3, _⟩ := place_fields h (span pre) d l (b.size - d - l)
  rw [carve_eq ht.headerAt.1 hd hl hfit hr16]
  refine ⟨?_, Tiled.of_record (h := place h (span pre) d l (b.size - d - l)) ?_ rfl rfl rfl rfl, f1, f2⟩
  · rw [payload_toNat _ _ (by omega)]
    omega
  refine ⟨place_chain hc.1 hq hgp hgq hd16 hl16 hr16 hn (by omega), ?_,
    good_place hgp hgq hd16 hl16 hr16 hn, ?_, ?_, ?_⟩
  · simp only [span_append, span_cons, span_gap, f3]
    omega
  · rw [f2, f3]; exact hbound
  · rw [f1, f2]; exact harena
  · rw [f1]; exact ht.aligned

theorem bump_spec (ht : Tiled h bs)
    (hb : h.heapBase ≠ 0) (ha : AlignOk align k) (hl : lw.toNat = l) (hl16 : 16 ∣ l) (hn : n + 16 ≤ l) :
    bump h align lw = (0, allocFailure h) ∨ ∃ d, (bump h align lw).1.toNat = h.heapBase.toNat +
      span bs + d + 16 ∧ (bump h align lw).1.toNat = bumpPayload h k ∧
        Tiled (bump h align lw).2 (bs ++ (gap d ++ [⟨l, some n⟩])) ∧
        (bump h align lw).2.heapBase = h.heapBase ∧
        (bump h align lw).2.heapSize = h.heapSize := by
  rcases bump_eq ht hb ha hl with ⟨-, he⟩ | ⟨hfit, he⟩
  · exact .inl he
  right
  have harena := ht.arena
  have hge : h.heapBase.toNat + h.heapOff.toNat + 16 ≤ bumpPayload h k :=
    le_ceilTo (Nat.two_pow_pos k) _
  have hdvd : 16 ∣ bumpPayload h k := ha.dvd.trans (dvd_ceilTo _ _)
  have hbd : 16 ∣ h.heapBase.toNat := (show 16 ∣ 4096 by decide).trans ht.aligned
  have hod : 16 ∣ h.heapOff.toNat := ht.total ▸ dvd_span ht.good
  set x := bumpPayload h k - h.heapBase.toNat - 16 with hx
  have hd16 : 16 ∣ x - h.heapOff.toNat :=
    Nat.dvd_sub (Nat.dvd_sub (Nat.dvd_sub hdvd hbd) (by decide)) hod
  obtain ⟨f1, f2, f3, _⟩ := place_fields h h.heapOff.toNat (x - h.heapOff.toNat) l 0
  have htot := ht.total
  have hpay := payload_toNat h.heapBase x (by omega)
  have hchain := place_chain (n := n) ht.chain
    (show Chain h (span bs + (x - h.heapOff.toNat) + l + 0) [] from trivial) ht.good (by simp)
    hd16 hl16 (Nat.dvd_zero 16) hn (by simp; omega)
  have hgood := good_place ht.good (forall_mem_nil _) hd16 hl16 (Nat.dvd_zero 16) hn
  rw [htot] at hchain
  refine ⟨x - h.heapOff.toNat, ?_⟩
  rw [he]
  refine ⟨?_, ?_, ⟨?_, ?_, ?_, ?_, ?_, ?_⟩, f1, f2⟩
  · simp only [hpay, htot]; omega
  · simp only [hpay]; omega
  · exact (show gap 0 = [] from rfl) ▸ hchain.of_mem rfl rfl
  · simp only [span_append, span_cons, span_nil, span_gap, htot]
    rw [toNat_ofNat_of_lt (by omega)]
    omega
  · exact hgood
  · change (ofNat 64 (x + l)).toNat ≤ (place h _ _ l 0).heapSize.toNat
    rw [toNat_ofNat_of_lt (by omega), f2]
    omega
  · change (place h _ _ l 0).heapBase.toNat + (place h _ _ l 0).heapSize.toNat < _
    rw [f1, f2]
    exact harena
  rw [f1]
  exact ht.aligned

structure Request (h : Heap) (size align : Word) (k : Nat) : Prop where
  base : h.heapBase ≠ 0
  size_le : size.toNat ≤ h.heapSize.toNat
  align : AlignOk (clampAlign align) k

theorem Request.pow (hr : Request h size align k) :
    max align.toNat 16 = 2 ^ k := (max_dvd_clampAlign align).trans hr.align.eq

theorem Request.length (hr : Request h size align k)
    (ht : Tiled h bs) : (blockLengthFor size).toNat = ceilTo 16 (size.toNat + 16) := by
  have hpos : h.heapBase.toNat ≠ 0 := fun h0 => hr.base (eq_of_toNat h0)
  have hb4096 := Nat.le_of_dvd (Nat.pos_of_ne_zero hpos) ht.aligned
  have harena := ht.arena
  have hsize := hr.size_le
  exact blockLengthFor_toNat size (by omega)

theorem alloc_paths (ht : Tiled h bs) (size align : Word) :
    ((h.heapBase = 0 ∨ h.heapSize < size ∨ isPowerOf2 (clampAlign align) = false) ∧
        alloc h size align = (0, allocFailure h)) ∨
      ∃ k, Request h size align k ∧
        ((fitIn (accepts h (clampAlign align) (blockLengthFor size)) 0 bs = none ∧
            findFit h (clampAlign align) (blockLengthFor size) h.heapOff.toNat 0 = none ∧
            alloc h size align = bump h (clampAlign align) (blockLengthFor size)) ∨
          ∃ x, fitIn (accepts h (clampAlign align) (blockLengthFor size)) 0 bs = some x ∧
            findFit h (clampAlign align) (blockLengthFor size) h.heapOff.toNat 0 = some (ofNat 64 x) ∧
            alloc h size align = carve h (ofNat 64 x) (slack h (ofNat 64 x) (clampAlign align))
              (blockLengthFor size)) := by
  by_cases hrej : (h.heapBase == 0 || decide (size > h.heapSize) || !isPowerOf2 (clampAlign align))
    = true
  · refine .inl ⟨?_, ?_⟩
    · simpa [or_assoc] using hrej
    · unfold alloc
      exact if_pos hrej
  right
  have hpass := hrej
  simp only [Bool.or_eq_true, beq_iff_eq, decide_eq_true_eq, Bool.not_eq_true', not_or,
    Bool.not_eq_false] at hpass
  obtain ⟨⟨hb, hsz⟩, hpow⟩ := hpass
  obtain ⟨k, ha⟩ := clampAlign_ok hpow
  have hfind := findFit_eq (blockLengthFor size) ht ha [] rfl h.heapOff.toNat
    (ht.total ▸ length_le_span ht.good)
  rw [span_nil, show ofNat 64 0 = (0 : Word) from rfl] at hfind
  refine ⟨k, ⟨hb, by simpa [lt_def] using hsz, ha⟩, ?_⟩
  cases hfit : fitIn (accepts h (clampAlign align) (blockLengthFor size)) 0 bs with
  | none =>
    rw [hfit, Option.map_none] at hfind
    refine .inl ⟨rfl, hfind, ?_⟩
    simp only [alloc, if_neg hrej, hfind]
  | some x =>
    rw [hfit, Option.map_some] at hfind
    refine .inr ⟨x, rfl, hfind, ?_⟩
    simp only [alloc, if_neg hrej, hfind]

theorem fit_size (ht : Tiled h (pre ++ b :: post)) (hr : Request h size align k)
    (hfound : findFit h (clampAlign align) (blockLengthFor size) h.heapOff.toNat 0 =
      some (ofNat 64 (span pre)))
    (hacc : accepts h (clampAlign align) (blockLengthFor size) (span pre) b = true)
    (hov : sumOverflows h size align = false) :
    b.free = true ∧ lead h.heapBase.toNat k (span pre) + ceilTo 16 (size.toNat + 16) ≤ b.size := by
  have hl := hr.length ht
  have hoff := ht.offset_le
  have hbound := ht.bound
  have harena := ht.arena
  have hge := ht.good_at.le
  have hslack := slack_toNat (h := h) (o := span pre) hr.align (by omega)
  have hpow : isPowerOf2 (clampAlign align) = true :=
    (isPowerOf2_iff _).mpr ⟨k, hr.align.lt, hr.align.eq⟩
  have hsize : ¬ size > h.heapSize := by
    have := hr.size_le
    rw [gt_iff_lt, lt_def]
    omega
  simp only [accepts, Bool.and_eq_true, decide_eq_true_eq] at hacc
  have hno : lead h.heapBase.toNat k (span pre) + ceilTo 16 (size.toNat + 16) <
      18446744073709551616 := by
    simp only [sumOverflows, hfound, hslack, hl, hpow, hsize, decide_false, Bool.or_false, Bool.not_true,
      Bool.and_eq_false_imp, decide_eq_false_iff_not, Bool.not_eq_true', beq_eq_false_iff_ne] at hov
    have := hov hr.base
    omega
  refine ⟨hacc.1, ?_⟩
  have := hacc.2
  rwa [toNat_add_of_lt (by omega), hslack, hl] at this

theorem alloc_spec {h : Heap} {bs : List Block} (ht : Tiled h bs) (size align : Word)
    (hov : sumOverflows h size align = false) :
    (alloc h size align).2.heapBase = h.heapBase ∧ (alloc h size align).2.heapSize = h.heapSize ∧
    (alloc h size align = (0, allocFailure h) ∨
      ((alloc h size align).1 ≠ 0 ∧ max align.toNat 16 ∣ (alloc h size align).1.toNat ∧
        ∃ bs', Tiled (alloc h size align).2 bs' ∧
          AllocShape h.heapBase.toNat bs bs' (alloc h size align).1.toNat size.toNat)) := by
  rcases alloc_paths ht size align with ⟨-, he⟩ | ⟨k, hr, hpath⟩
  · rw [he]
    exact ⟨rfl, rfl, .inl rfl⟩
  have hl := hr.length ht
  have hl16 : 16 ∣ ceilTo 16 (size.toNat + 16) := dvd_ceilTo _ _
  have hn : size.toNat + 16 ≤ ceilTo 16 (size.toNat + 16) := le_ceilTo (by decide) _
  rw [hr.pow]
  rcases hpath with ⟨-, -, he⟩ | ⟨x, hfit, hfound, he⟩
  · rw [he]
    rcases bump_spec ht hr.base hr.align hl hl16 hn with hfail | ⟨d, h1, h2, h3, h4, h5⟩
    · rw [hfail]
      exact ⟨rfl, rfl, .inl rfl⟩
    refine ⟨h4, h5, .inr ⟨fun h0 => ?_, ?_, _, h3, ?_⟩⟩
    · rw [h0] at h1
      simp at h1
    · rw [h2]
      exact dvd_ceilTo _ _
    · exact ⟨bs, [], [], d, ceilTo 16 (size.toNat + 16), 0,
        by simp, by simp [gap], h1, .inr ⟨rfl, rfl, rfl⟩⟩
  · obtain ⟨pre, b, post, rfl, rfl, hacc⟩ := fitIn_some hfit
    rw [Nat.zero_add] at hacc hfound he
    obtain ⟨hfree, hle⟩ := fit_size ht hr hfound hacc hov
    have hoff := ht.offset_le
    have hbound := ht.bound
    have harena := ht.arena
    have hslack := slack_toNat (h := h) (o := span pre) hr.align (by omega)
    have hd16 : 16 ∣ lead h.heapBase.toNat k (span pre) :=
      dvd_lead hr.align.dvd ((show 16 ∣ 4096 by decide).trans ht.aligned) ht.dvd_pre
    obtain ⟨h1, h2, h3, h4⟩ := carve_spec ht hslack hl hle hd16 hl16 hn
    rw [he]
    refine ⟨h3, h4, .inr ⟨fun h0 => ?_, ?_, _, h2, ?_⟩⟩
    · rw [h0] at h1
      simp at h1
    · rw [h1, payload_lead]
      exact dvd_ceilTo _ _
    refine ⟨pre, [b], post, _, _, _, by simp, rfl, h1, .inl ?_⟩
    have hreq : b.req = none := by simpa [Block.free] using hfree
    rw [show lead h.heapBase.toNat k (span pre) + ceilTo 16 (size.toNat + 16) +
      (b.size - lead h.heapBase.toNat k (span pre) - ceilTo 16 (size.toNat + 16)) =
        b.size by omega, ← hreq]

end BlockOS.Allocator
