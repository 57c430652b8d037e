import BlockOS.Ldso.Load
import BlockOS.Lib.Buffer
import BlockOS.Lib.Bytes

/-! The initial thread-local storage, `setup_initial_tls`. -/

namespace BlockOS.Ldso.Tls
open Words Bytes Buffer List

def tcbBytes : Word := 64
def maxBytes : Word := 4194304

structure TlsObj where
  image : List Byte := []
  memsz : Word
  align : Word
  tpoff : Word := 0
  modid : Word := 0

structure Kernel where
  mmap : Word → Option Word
  setFs : Word → Bool
  aligned : ∀ len a, mmap len = some a → 4096 ∣ a.toNat
  fits : ∀ len a, mmap len = some a → a.toNat + len.toNat ≤ 2 ^ 63

structure Layout where
  base : Word
  size : Word
  tp : Word
  tableBytes : Nat
  objs : List TlsObj
  mem : Nat → Byte

def place (cursor : Word) (i : Nat) : List TlsObj → Option (Word × List TlsObj)
  | [] => some (cursor, [])
  | o :: os =>
    if o.memsz = 0 then (place cursor (i + 1) os).map fun r => (r.1, o :: r.2)
    else
      let a := if o.align > 0 then o.align else 1
      let next := cursor + o.memsz
      if next < cursor ∨ next > uint64Max - (a - 1) then none
      else
        let cursor := (next + a - 1) &&& ~~~(a - 1)
        (place cursor (i + 1) os).map fun r =>
          (r.1, { o with tpoff := -cursor, modid := BitVec.ofNat 64 (i + 1) } :: r.2)

def word (v : Word) : List Byte := (range 8).map (byteOf v)

def writeTcb (m : Nat → Byte) (tp tableOffset base size : Word) : Nat → Byte :=
  blit m tp.toNat (word tp ++ word tableOffset ++ word base ++ word size ++ word 1)

def fillOne (tp base : Word) (i : Nat) (o : TlsObj) (m : Nat → Byte) : Nat → Byte :=
  let m := blit m (base.toNat + 8 * (i + 1)) (word o.tpoff)
  if o.memsz = 0 then m else blit m (tp + o.tpoff).toNat o.image

def fill (tp base : Word) (i : Nat) : List TlsObj → (Nat → Byte) → Nat → Byte
  | [], m => m
  | o :: os, m => fill tp base (i + 1) os (fillOne tp base i o m)

def setupInitialTls (k : Kernel) (m : Nat → Byte) (objs : List TlsObj) : Option Layout :=
  if ∀ o ∈ objs, o.memsz = 0 then do
    let mem ← k.mmap tcbBytes
    if k.setFs mem then some ⟨mem, tcbBytes, mem, 0, objs, writeTcb m mem 0 mem tcbBytes⟩ else none
  else do
    let p ← place 0 0 objs
    let tableBytes := 8 * (objs.length + 1)
    let tlsBytes := p.1 + BitVec.ofNat 64 tableBytes
    if tlsBytes > maxBytes then none
    else
      let alloc := pageUp (tlsBytes + tcbBytes)
      if alloc = 0 then none
      else
        let base ← k.mmap alloc
        let tp := base + tlsBytes
        let m := writeTcb (blit m base.toNat (replicate alloc.toNat 0)) tp (-tlsBytes) base alloc
        if k.setFs tp then some ⟨base, alloc, tp, tableBytes, p.2, fill tp base 0 p.2 m⟩ else none

def Layout.blocks (r : Layout) : List TlsObj := r.objs.filter (·.memsz ≠ 0)

def Layout.block (r : Layout) (o : TlsObj) : Nat := (r.tp + o.tpoff).toNat

def Layout.areas (r : Layout) : List (Nat × Nat) :=
  (r.base.toNat, r.tableBytes) :: (r.tp.toNat, 64) :: r.blocks.map fun o => (r.block o, o.memsz.toNat)

structure LaidOut (r : Layout) : Prop where
  inside : ∀ a ∈ r.areas, r.base.toNat ≤ a.1 ∧ a.1 + a.2 ≤ r.base.toNat + r.size.toNat
  apart : r.areas.Pairwise fun a b => a.1 + a.2 ≤ b.1 ∨ b.1 + b.2 ≤ a.1
  aligned : ∀ o ∈ r.blocks, o.align.toNat ∣ r.block o
  image : ∀ o ∈ r.blocks, ∃ n, slice r.mem (r.block o) o.memsz.toNat = o.image ++ replicate n 0
  table : ∀ o ∈ r.blocks, ∃ v, slice r.mem (r.base.toNat + 8 * o.modid.toNat) 8 = word v ∧
    (r.tp + v).toNat = r.block o

def Aligned (objs : List TlsObj) : Prop := ∀ c os, place 0 0 objs = some (c, os) →
  c.toNat + 8 * (objs.length + 1) < 2 ^ 64 ∧
    ∀ o ∈ os, o.memsz ≠ 0 → o.align.toNat ∣ c.toNat + 8 * (objs.length + 1) ∧
      o.image.length ≤ o.memsz.toNat

def TlsObj.depth (o : TlsObj) : Nat := (-o.tpoff).toNat

structure Block (c i : Nat) (o : TlsObj) (c' : Nat) : Prop where
  room : c + o.memsz.toNat ≤ c'
  depth : o.depth = c'
  aligned : o.align.toNat ∣ c'
  page : o.align.toNat ∣ 4096
  modid : o.modid = BitVec.ofNat 64 (i + 1)

inductive Placed : Nat → Nat → List TlsObj → Nat → Prop
  | done (c i : Nat) : Placed c i [] c
  | step {c c' i e : Nat} {o : TlsObj} {os : List TlsObj} (hle : c ≤ c') (block : o.memsz ≠ 0 → Block c i o c')
      (rest : Placed c' (i + 1) os e) : Placed c i (o :: os) e

theorem round_spec {next a : Word} (hk : k ≤ 12) (ha : a.toNat = 2 ^ k)
    (h : ¬ next > uint64Max - (a - 1)) :
    next.toNat ≤ ((next + a - 1) &&& ~~~(a - 1)).toNat ∧ a.toNat ∣ ((next + a - 1) &&& ~~~(a - 1)).toNat := by
  have hpos := Nat.two_pow_pos k
  have hsum : (next + a - 1).toNat = next.toNat + (2 ^ k - 1) := by
    unfold uint64Max at h
    bv_omega
  rw [toNat_and_not_mask _ a k (by omega) ha, hsum, ha]
  exact ⟨le_ceilTo hpos _, dvd_ceilTo _ _⟩

variable {objs os : List TlsObj} {o : TlsObj} {c i e t n : Nat}

theorem place_placed {c e : Word} (hp : ∀ o ∈ objs, ∃ k ≤ 12, o.align.toNat = 2 ^ k)
    (h : place c i objs = some (e, os)) : Placed c.toNat i os e.toNat ∧ os.length = objs.length := by
  induction objs generalizing c i os with
  | nil =>
    cases h
    exact ⟨.done _ _, rfl⟩
  | cons o objs ih =>
    rw [forall_mem_cons] at hp
    obtain ⟨⟨k, hk, ha⟩, hp⟩ := hp
    simp only [place] at h
    split_ifs at h with hmem hpos hno hno
    · obtain ⟨⟨e', os'⟩, hr, h⟩ := Option.map_eq_some_iff.mp h
      cases h
      obtain ⟨h1, h2⟩ := ih hp hr
      exact ⟨.step le_rfl (absurd hmem) h1, congrArg (· + 1) h2⟩
    · obtain ⟨⟨e', os'⟩, hr, h⟩ := Option.map_eq_some_iff.mp h
      cases h
      rw [not_or] at hno
      obtain ⟨h1, h2⟩ := ih hp hr
      obtain ⟨h3, h4⟩ := round_spec hk ha hno.2
      have hnext : (c + o.memsz).toNat = c.toNat + o.memsz.toNat := by
        bv_omega
      refine ⟨.step (by omega) (fun _ => ⟨hnext ▸ h3, ?_, h4, ha ▸ Nat.pow_dvd_pow 2 hk, rfl⟩) h1,
        congrArg (· + 1) h2⟩
      simp only [TlsObj.depth, BitVec.neg_neg]
    · exact absurd (show o.align > 0 from BitVec.lt_def.mpr (ha ▸ Nat.two_pow_pos k)) hpos

theorem place_none {c : Word} (h : ∀ o ∈ objs, o.memsz = 0) : place c i objs = some (c, objs) := by
  induction objs generalizing i with
  | nil => rfl
  | cons o os ih =>
    rw [forall_mem_cons] at h
    rw [place, if_pos h.1, ih h.2]
    rfl

theorem Placed.le (h : Placed c i os e) : c ≤ e := by
  induction h with
  | done => exact le_rfl
  | step hle _ _ ih => exact hle.trans ih

theorem Placed.bounds (h : Placed c i os e) : ∀ o ∈ os, o.memsz ≠ 0 →
    c + o.memsz.toNat ≤ o.depth ∧ o.depth ≤ e ∧ o.align.toNat ∣ o.depth ∧ o.align.toNat ∣ 4096 := by
  induction h with
  | done => exact fun _ hm => absurd hm not_mem_nil
  | step hle block rest ih =>
    refine forall_mem_cons.mpr ⟨fun hmem => ?_, fun o ho hmem => ?_⟩
    · obtain ⟨h1, rfl, h2, h3, -⟩ := block hmem
      exact ⟨h1, rest.le, h2, h3⟩
    · obtain ⟨h1, h2⟩ := ih o ho hmem
      exact ⟨by omega, h2⟩

theorem Placed.pairwise (h : Placed c i os e) :
    (os.filter (·.memsz ≠ 0)).Pairwise fun a b => a.depth + b.memsz.toNat ≤ b.depth := by
  induction h with
  | done => exact .nil
  | step _ block rest ih =>
    rw [filter_cons]
    split_ifs with hmem
    · refine pairwise_cons.mpr ⟨fun b hb => ?_, ih⟩
      rw [mem_filter, decide_eq_true_eq] at hb
      rw [(block (of_decide_eq_true hmem)).depth]
      exact (rest.bounds b hb.1 hb.2).1
    · exact ih

@[simp] theorem length_word (v : Word) : (word v).length = 8 := by simp [word]

section
variable {tp base : Word} {m : Nat → Byte} {x l : Nat} (ht : t = e + 8 * (n + 1))
  (htp : tp.toNat = base.toNat + t)
include ht htp

theorem block_eq (h : o.depth ≤ t) : (tp + o.tpoff).toNat = base.toNat + (t - o.depth) := by
  unfold TlsObj.depth at *
  bv_omega

theorem fillOne_keeps (hi : i < n) (hd : o.memsz ≠ 0 → o.depth ≤ e ∧ o.image.length ≤ o.memsz.toNat)
    (hentry : x + l ≤ base.toNat + 8 * (i + 1) ∨ base.toNat + 8 * (i + 2) ≤ x)
    (hblock : o.memsz ≠ 0 → x + l ≤ base.toNat + (t - o.depth) ∨
      base.toNat + (t - o.depth) + o.memsz.toNat ≤ x) :
    slice (fillOne tp base i o m) x l = slice m x l := by
  have hfirst : slice (blit m (base.toNat + 8 * (i + 1)) (word o.tpoff)) x l = slice m x l := by
    rcases hentry with h | h
    · exact slice_blit_of_le m _ h
    · exact slice_blit_of_ge m _ (by rw [length_word]; omega)
  unfold fillOne
  split_ifs with hmem
  · exact hfirst
  · obtain ⟨h1, h2⟩ := hd hmem
    rw [block_eq ht htp (by omega)]
    rcases hblock hmem with h | h
    · rw [slice_blit_of_le _ _ h, hfirst]
    · rw [slice_blit_of_ge _ _ (by omega), hfirst]

theorem fill_keeps (h : Placed c i os e) (hn : i + os.length ≤ n)
    (himg : ∀ o ∈ os, o.memsz ≠ 0 → o.image.length ≤ o.memsz.toNat)
    (hout : x + l ≤ base.toNat + 8 * (i + 1) ∨ base.toNat + (t - c) ≤ x) :
    slice (fill tp base i os m) x l = slice m x l := by
  induction h generalizing m with
  | done => rfl
  | step hle block rest ih =>
    rw [forall_mem_cons] at himg
    rw [length_cons] at hn
    have hend := rest.le
    refine (ih ht (by omega) himg.2 (by omega)).trans
      (fillOne_keeps ht htp (by omega) (fun hmem => ⟨?_, himg.1 hmem⟩) (by omega) fun hmem => ?_)
    all_goals
      obtain ⟨h1, rfl, -⟩ := block hmem
      omega

theorem fill_filled (h : Placed c i os e) (hn : i + os.length ≤ n)
    (himg : ∀ o ∈ os, o.memsz ≠ 0 → o.image.length ≤ o.memsz.toNat)
    (hzero : ∀ x l, base.toNat + 8 * (n + 1) ≤ x → x + l ≤ base.toNat + (t - c) →
      slice m x l = replicate l 0) :
    ∀ o ∈ os, o.memsz ≠ 0 → slice (fill tp base i os m) (tp + o.tpoff).toNat o.memsz.toNat =
        o.image ++ replicate (o.memsz.toNat - o.image.length) 0 ∧
      slice (fill tp base i os m) (base.toNat + 8 * o.modid.toNat) 8 = word o.tpoff := by
  induction h generalizing m with
  | done => exact fun _ hm => absurd hm not_mem_nil
  | @step c c' i e o os hle block rest ih =>
    rw [forall_mem_cons] at himg
    rw [length_cons] at hn
    have hend := rest.le
    refine forall_mem_cons.mpr ⟨fun hmem => ?_, ih ht (by omega) himg.2 fun x l h1 h2 => ?_⟩
    · obtain ⟨hroom, hd, -, -, hid⟩ := block hmem
      have hblock := block_eq (o := o) ht htp (by omega)
      have hlen := himg.1 hmem
      have hid' : o.modid.toNat = i + 1 := hid ▸ toNat_ofNat_of_lt (by omega)
      rw [fill, fill_keeps ht htp rest (by omega) himg.2 (.inr (by omega)),
        fill_keeps ht htp rest (by omega) himg.2 (.inl (by omega)), fillOne, if_neg hmem, hid']
      constructor
      · rw [← Nat.add_sub_cancel' hlen, slice_add, slice_blit, slice_blit_of_ge _ _ le_rfl,
          slice_blit_of_ge _ _ (by rw [length_word]; omega), hzero _ _ (by omega) (by omega),
          Nat.add_sub_cancel_left]
      · rw [slice_blit_of_le _ _ (by omega)]
        exact length_word o.tpoff ▸ slice_blit ..
    · rw [fillOne_keeps ht htp (by omega) (fun hmem => ⟨?_, himg.1 hmem⟩) (by omega) fun hmem => ?_]
      · exact hzero x l h1 (by omega)
      all_goals
        obtain ⟨-, rfl, -⟩ := block hmem
        omega
end

variable {k : Kernel} {m : Nat → Byte} {r : Layout}

structure Mapped (r : Layout) (n t : Nat) : Prop where
  page : 4096 ∣ r.base.toNat
  size : t + 64 ≤ r.size.toNat
  tp : r.tp.toNat = r.base.toNat + t
  table : r.tableBytes = 8 * (n + 1)
  mem : ∃ m, r.mem = fill r.tp r.base 0 r.objs m ∧
    ∀ x l, r.base.toNat ≤ x → x + l ≤ r.base.toNat + t → slice m x l = replicate l 0

theorem slice_zeros (h1 : a ≤ x) (h2 : x + l ≤ a + b) : slice (blit m a (replicate b 0)) x l =
    replicate l 0 := by
  refine eq_replicate_iff.mpr ⟨length_slice .., fun y hy => ?_⟩
  obtain ⟨j, hj, rfl⟩ := mem_map.mp hy
  rw [mem_range] at hj
  simp only [blit, getElem?_replicate]
  rw [if_pos (by omega), if_pos (by omega)]
  rfl

theorem setup_cases (h : setupInitialTls k m objs = some r) :
    ((∀ o ∈ objs, o.memsz = 0) ∧ ∃ a mem, r = ⟨a, tcbBytes, a, 0, objs, mem⟩) ∨
    ∃ e, place 0 0 objs = some (e, r.objs) ∧
      Mapped r objs.length (e + BitVec.ofNat 64 (8 * (objs.length + 1))).toNat := by
  unfold setupInitialTls at h
  split_ifs at h with hno
  · obtain ⟨a, -, h⟩ := Option.bind_eq_some_iff.mp h
    split_ifs at h
    cases h
    exact .inl ⟨hno, a, _, rfl⟩
  · obtain ⟨⟨e, os⟩, hplace, h⟩ := Option.bind_eq_some_iff.mp h
    simp only at h
    generalize htls : e + BitVec.ofNat 64 (8 * (objs.length + 1)) = t at h
    split_ifs at h with hmax hz
    obtain ⟨base, hb, h⟩ := Option.bind_eq_some_iff.mp h
    split_ifs at h
    cases h
    have hmax' : t.toNat ≤ 4194304 := BitVec.not_lt.mp hmax
    have hfits := k.fits _ _ hb
    have hsize : t.toNat + 64 ≤ (pageUp (t + tcbBytes)).toNat := by
      have hsum : (t + tcbBytes).toNat = t.toNat + 64 := toNat_add_of_lt (by change _ + 64 < _; omega)
      rw [toNat_pageUp (by omega), hsum]
      exact le_ceilTo (by decide) _
    have htp : (base + t).toNat = base.toNat + t.toNat := toNat_add_of_lt (by omega)
    refine .inr ⟨e, hplace, ?_⟩
    rw [htls]
    refine ⟨k.aligned _ _ hb, hsize, htp, rfl, _, rfl, fun x l h1 h2 => ?_⟩
    rw [writeTcb, slice_blit_of_le _ _ (htp ▸ h2), slice_zeros h1 (by omega)]

theorem mem_blocks : o ∈ r.blocks ↔ o ∈ r.objs ∧ o.memsz ≠ 0 := by
  rw [Layout.blocks, mem_filter, decide_eq_true_eq]

theorem Mapped.laidOut (h : Mapped r n t) (ht : t = e + 8 * (n + 1)) (hpl : Placed 0 0 r.objs e)
    (hlen : r.objs.length = n)
    (hok : ∀ o ∈ r.objs, o.memsz ≠ 0 → o.align.toNat ∣ t ∧ o.image.length ≤ o.memsz.toNat) :
    LaidOut r := by
  obtain ⟨hpage, hsize, htp, htable, m, hmem, hzero⟩ := h
  have hblock : ∀ o ∈ r.blocks, o.memsz.toNat ≤ o.depth ∧ o.depth ≤ e ∧
      r.block o = r.base.toNat + (t - o.depth) := by
    intro o ho
    rw [mem_blocks] at ho
    obtain ⟨h1, h2, -⟩ := hpl.bounds o ho.1 ho.2
    exact ⟨by omega, h2, block_eq ht htp (by omega)⟩
  have hfilled : ∀ o ∈ r.blocks, _ := fun o ho => fill_filled ht htp hpl (by omega)
    (fun o ho hm => (hok o ho hm).2) (fun x l h1 h2 => hzero x l (by omega) h2) o
    (mem_blocks.mp ho).1 (mem_blocks.mp ho).2
  refine ⟨?_, ?_, fun o ho => ?_, fun o ho => ⟨_, hmem ▸ (hfilled o ho).1⟩,
    fun o ho => ⟨_, hmem ▸ (hfilled o ho).2, rfl⟩⟩
  · rw [Layout.areas, forall_mem_cons, forall_mem_cons, forall_mem_map]
    refine ⟨⟨le_rfl, by omega⟩, ⟨by omega, by omega⟩, fun o ho => ?_⟩
    have := hblock o ho
    omega
  · rw [Layout.areas, pairwise_cons, pairwise_cons, forall_mem_cons, forall_mem_map, forall_mem_map,
      pairwise_map]
    refine ⟨⟨.inl (by omega), fun o ho => .inl ?_⟩, fun o ho => .inr ?_, ?_⟩
    · have := hblock o ho
      omega
    · have := hblock o ho
      omega
    · refine hpl.pairwise.imp_of_mem fun {a b} ha hb hab => .inr ?_
      have := hblock a ha
      have := hblock b hb
      omega
  · rw [(hblock o ho).2.2]
    rw [mem_blocks] at ho
    obtain ⟨-, -, h1, h2⟩ := hpl.bounds o ho.1 ho.2
    exact Nat.dvd_add (h2.trans hpage) (Nat.dvd_sub (hok o ho.1 ho.2).1 h1)

theorem laidOut_none (hno : ∀ o ∈ objs, o.memsz = 0) : LaidOut ⟨a, tcbBytes, a, 0, objs, m⟩ := by
  have hnil : Layout.blocks ⟨a, tcbBytes, a, 0, objs, m⟩ = [] :=
    filter_eq_nil_iff.mpr fun o ho => by simp [hno o ho]
  have hsize : tcbBytes.toNat = 64 := rfl
  constructor <;> simp [Layout.areas, hnil, hsize]

theorem initial_tls_iff (k : Kernel) (m : Nat → Byte) (objs : List TlsObj)
    (hn : objs.length ≤ maxObjs)
    (hp : ∀ o ∈ objs, ∃ j ≤ 12, o.align.toNat = 2 ^ j) (r : Layout)
    (h : setupInitialTls k m objs = some r) : LaidOut r ↔ Aligned objs := by
  have hlen : objs.length ≤ 96 := hn
  obtain ⟨hno, a, mem, rfl⟩ | ⟨e, hplace, hM⟩ := setup_cases h
  · refine iff_of_true (laidOut_none hno) fun c os hc => ?_
    cases (place_none hno).symm.trans hc
    refine ⟨?_, fun o ho hm => absurd (hno o ho) hm⟩
    change 0 + _ < _
    omega
  · obtain ⟨hpl, hos⟩ := place_placed hp hplace
    rw [BitVec.toNat_add, toNat_ofNat_of_lt (by omega)] at hM
    constructor
    · intro L c os hc
      cases hplace.symm.trans hc
      have hwrap : e.toNat + 8 * (objs.length + 1) < 2 ^ 64 := by
        by_contra hw
        -- a wrapped offset puts the control block into the table
        have h1 := (pairwise_cons.mp L.apart).1 _ (mem_cons_self ..)
        have h2 := hM.tp
        have h3 := hM.table
        omega
      rw [Nat.mod_eq_of_lt hwrap] at hM
      refine ⟨hwrap, fun o ho hm => ⟨?_, ?_⟩⟩
      · obtain ⟨-, h2, h3, h4⟩ := hpl.bounds o ho hm
        have h5 := L.aligned o (mem_blocks.mpr ⟨ho, hm⟩)
        rw [Layout.block, block_eq rfl hM.tp (by omega), Nat.dvd_add_right (h4.trans hM.page)] at h5
        exact (Nat.dvd_sub_iff_left (by omega) h3).mp h5
      · obtain ⟨l, h1⟩ := L.image o (mem_blocks.mpr ⟨ho, hm⟩)
        have h2 := congrArg length h1
        simp only [length_slice, length_append] at h2
        omega
    · intro hA
      obtain ⟨hwrap, hok⟩ := hA e _ hplace
      rw [Nat.mod_eq_of_lt hwrap] at hM
      exact hM.laidOut rfl hpl hos hok

def sampleKernel : Kernel where
  mmap len := if len ≤ 0x100000 then some 0x10000 else none
  setFs _ := true
  aligned len a h := by
    split_ifs at h
    cases h
    decide
  fits len a h := by
    split_ifs at h with hl
    cases h
    exact (Nat.add_le_add_left hl _).trans (by decide)

theorem initial_tls_sixteen : ∃ r, setupInitialTls sampleKernel (fun _ => 7)
    [⟨[1, 2], 16, 16, 0, 0⟩] = some r ∧
    LaidOut r := by
  refine ⟨_, rfl, (initial_tls_iff sampleKernel _ [⟨[1, 2], 16, 16, 0, 0⟩] (by decide) ?_ _ rfl).mpr
    fun c os h => ?_⟩
  · exact forall_mem_singleton.mpr ⟨4, by decide, rfl⟩
  · cases h
    exact ⟨by decide, forall_mem_singleton.mpr fun _ => by decide⟩

theorem block_misaligned : ∃ r, setupInitialTls sampleKernel (fun _ => 7)
    [⟨[], 32, 32, 0, 0⟩] = some r ∧
    ¬ LaidOut r := by
  refine ⟨_, rfl, fun h => absurd (h.aligned _ (mem_cons_self ..)) ?_⟩
  decide

end BlockOS.Ldso.Tls
