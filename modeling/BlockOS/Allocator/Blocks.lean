import BlockOS.Allocator.Model

/-! The heap as a list of blocks. -/

namespace BlockOS.Allocator
open Words Bytes
open BitVec (ofNat toNat_sub toNat_add reduceToNat toNat)

structure Block where
  size : Nat
  req : Option Nat
  deriving DecidableEq, Repr

def Block.free (b : Block) : Bool := b.req.isNone

def span : List Block → Nat
  | [] => 0
  | b :: bs => b.size + span bs

@[simp] theorem span_nil : span [] = 0 := rfl
@[simp] theorem span_cons (b : Block) (bs : List Block) : span (b :: bs) = b.size + span bs := rfl
@[simp] theorem span_append (as bs : List Block) : span (as ++ bs) = span as + span bs := by
  induction as with
  | nil => simp
  | cons a as ih => simp [ih, Nat.add_assoc]

def HeaderAt (h : Heap) (o : Nat) (b : Block) : Prop :=
  (h.header (ofNat 64 o)).size.toNat = b.size ∧ (h.header (ofNat 64 o)).isFree = b.free

def Chain (h : Heap) : Nat → List Block → Prop
  | _, [] => True
  | o, b :: bs => HeaderAt h o b ∧ Chain h (o + b.size) bs

theorem chain_append (h : Heap) (o : Nat) (as bs : List Block) :
    Chain h o (as ++ bs) ↔ Chain h o as ∧ Chain h (o + span as) bs := by
  induction as generalizing o with
  | nil => simp [Chain]
  | cons a as ih => simp [Chain, ih, and_assoc, Nat.add_assoc]

def livesOf (base : Nat) : Nat → List Block → List (Nat × Nat)
  | _, [] => []
  | o, ⟨s, some n⟩ :: bs => (base + o + 16, n) :: livesOf base (o + s) bs
  | o, ⟨s, none⟩ :: bs => livesOf base (o + s) bs

theorem livesOf_append (base o : Nat) (as bs : List Block) :
    livesOf base o (as ++ bs) = livesOf base o as ++ livesOf base (o + span as) bs := by
  induction as generalizing o with
  | nil => simp [livesOf]
  | cons a as ih =>
    obtain ⟨s, r⟩ := a
    cases r <;> simp [livesOf, ih, Nat.add_assoc]

variable {b : Block} {h : Heap}

theorem mem_livesOf (h : (p, n) ∈ livesOf base o bs) :
    ∃ pre s post, bs = pre ++ ⟨s, some n⟩ :: post ∧ p = base + (o + span pre) + 16 := by
  induction bs generalizing o with
  | nil => simp [livesOf] at h
  | cons b bs ih =>
    obtain ⟨s, r⟩ := b
    cases r with
    | none =>
      obtain ⟨pre, s', post, rfl, rfl⟩ := ih (o := o + s) (by simpa [livesOf] using h)
      exact ⟨⟨s, none⟩ :: pre, s', post, rfl, by simp; omega⟩
    | some n' =>
      simp only [livesOf, List.mem_cons, Prod.mk.injEq] at h
      rcases h with ⟨rfl, rfl⟩ | h
      · exact ⟨[], s, bs, rfl, by simp⟩
      · obtain ⟨pre, s', post, rfl, rfl⟩ := ih h
        exact ⟨⟨s, some n'⟩ :: pre, s', post, rfl, by simp; omega⟩

theorem le_of_mem_livesOf (h : q ∈ livesOf base o bs) : base + o + 16 ≤ q.1 := by
  obtain ⟨pre, s, post, _, hp⟩ := mem_livesOf (p := q.1) (n := q.2) h
  omega

def Block.Good (b : Block) : Prop := 0 < b.size ∧ 16 ∣ b.size ∧ ∀ n ∈ b.req, n + 16 ≤ b.size

theorem Block.Good.le (h : b.Good) : 16 ≤ b.size := Nat.le_of_dvd h.1 h.2.1

theorem dvd_span (h : ∀ b ∈ bs, b.Good) : 16 ∣ span bs := by
  induction bs with
  | nil => simp
  | cons b bs ih =>
    exact Nat.dvd_add (h b (by simp)).2.1 (ih fun c hc => h c (by simp [hc]))

theorem length_le_span (h : ∀ b ∈ bs, b.Good) : bs.length ≤ span bs := by
  induction bs with
  | nil => simp
  | cons b bs ih =>
    have := (h b (by simp)).le
    have := ih fun c hc => h c (by simp [hc])
    simp only [List.length_cons, span_cons]
    omega

theorem livesOf_pairwise (base o : Nat) (bs : List Block) (hg : ∀ b ∈ bs, b.Good) :
    (livesOf base o bs).Pairwise fun q r => q.1 + q.2 + 16 ≤ r.1 := by
  induction bs generalizing o with
  | nil => simp [livesOf]
  | cons b bs ih =>
    obtain ⟨s, r⟩ := b
    have ht := ih (o + s) fun c hc => hg c (by simp [hc])
    cases r with
    | none => simpa [livesOf] using ht
    | some n =>
      refine List.pairwise_cons.mpr ⟨fun q hq => ?_, ht⟩
      have hn : n + 16 ≤ s := (hg ⟨s, some n⟩ (by simp)).2.2 n rfl
      have := le_of_mem_livesOf hq
      simp only
      omega

structure Tiled (h : Heap) (bs : List Block) : Prop where
  chain : Chain h 0 bs
  total : span bs = h.heapOff.toNat
  good : ∀ b ∈ bs, b.Good
  bound : h.heapOff.toNat ≤ h.heapSize.toNat
  arena : h.heapBase.toNat + h.heapSize.toNat < 18446744073709551616
  aligned : 4096 ∣ h.heapBase.toNat

theorem Tiled.offset_le (ht : Tiled h (pre ++ b :: post)) :
    h.heapBase.toNat + span pre + b.size ≤ h.heapBase.toNat + h.heapOff.toNat := by
  have := ht.total
  simp only [span_append, span_cons] at this
  omega

theorem Tiled.headerAt (ht : Tiled h (pre ++ b :: post)) : HeaderAt h (span pre) b := by
  have := ((chain_append h 0 pre (b :: post)).mp ht.chain).2
  simpa using this.1

theorem Tiled.good_at (ht : Tiled h (pre ++ b :: post)) : b.Good := ht.good b (by simp)

theorem Tiled.dvd_pre (ht : Tiled h (pre ++ post)) : 16 ∣ span pre :=
    dvd_span fun b hb => ht.good b (by simp [hb])

def Apart (p o : Word) : Prop :=
  16 ≤ (p - o).toNat ∧ (p - o).toNat ≤ 18446744073709551600

theorem apart_of_le {a b : Nat} (h : a + 16 ≤ b) (hb : b + 16 ≤ 18446744073709551616) :
    Apart (ofNat 64 a) (ofNat 64 b) ∧ Apart (ofNat 64 b) (ofNat 64 a) := by
  have ha : (ofNat 64 a).toNat = a := toNat_ofNat_of_lt (by omega)
  have hb' : (ofNat 64 b).toNat = b := toNat_ofNat_of_lt (by omega)
  simp only [Apart, toNat_sub, ha, hb']
  omega

theorem sub_base (base p o : Word) (k : Nat) (hk : k ≤ 8) (h : Apart p o) :
    9 ≤ (base + p + ofNat 64 k - (base + o)).toNat := by
  have hk' : (ofNat 64 k).toNat = k := toNat_ofNat_of_lt (by omega)
  obtain ⟨h1, h2⟩ := h
  simp only [toNat_sub, toNat_add, hk'] at *
  have := toNat_lt base
  have := toNat_lt p
  have := toNat_lt o
  omega

theorem flag_sub (base o : Word) : (base + o + 8 - (base + o)).toNat = 8 := by
  have := toNat_lt base
  have := toNat_lt o
  simp only [toNat_sub, toNat_add, reduceToNat]
  omega

namespace Heap

@[simp] theorem setHeader_heapBase (h : Heap) (o s : Word) (f : Bool) :
    (h.setHeader o s f).heapBase = h.heapBase := rfl
@[simp] theorem setHeader_heapSize (h : Heap) (o s : Word) (f : Bool) :
    (h.setHeader o s f).heapSize = h.heapSize := rfl
@[simp] theorem setHeader_heapOff (h : Heap) (o s : Word) (f : Bool) :
    (h.setHeader o s f).heapOff = h.heapOff := rfl

@[simp] theorem setHeader_record (h : Heap) (o s : Word) (f : Bool) :
    (h.setHeader o s f).record = h.record := rfl

theorem setFree_apart (h : Heap) {p o : Word} (f : Bool) (ha : Apart p o) :
    (h.setFree o f).header p = h.header p := by
  have hne : ∀ k ≤ 8, h.heapBase + p + ofNat 64 k ≠ h.heapBase + o + 8 := by
    intro k hk he
    have := sub_base h.heapBase p o k hk ha
    rw [he] at this
    have := flag_sub h.heapBase o
    omega
  have hl : load64 (h.setFree o f).mem (h.heapBase + p) = load64 h.mem (h.heapBase + p) :=
    load64_congr fun k hk => store8_other _ _ (hne k (by omega))
  have hb : (h.setFree o f).mem (h.heapBase + p + 8) = h.mem (h.heapBase + p + 8) :=
    store8_other _ _ (hne 8 (by omega))
  simp only [header]
  change Header.mk (load64 (h.setFree o f).mem (h.heapBase + p))
    ((h.setFree o f).mem (h.heapBase + p + 8) != 0) = _
  rw [hl, hb]

theorem setSize_apart (h : Heap) {p o : Word} (s : Word) (ha : Apart p o) :
    (h.setSize o s).header p = h.header p := by
  have hge : ∀ k ≤ 8, 8 ≤ (h.heapBase + p + ofNat 64 k - (h.heapBase + o)).toNat := by
    intro k hk
    have := sub_base h.heapBase p o k hk ha
    omega
  have hl : load64 (h.setSize o s).mem (h.heapBase + p) = load64 h.mem (h.heapBase + p) :=
    load64_congr fun k hk => store64_other _ _ (hge k (by omega))
  have hb : (h.setSize o s).mem (h.heapBase + p + 8) = h.mem (h.heapBase + p + 8) :=
    store64_other _ _ (hge 8 (by omega))
  simp only [header]
  change Header.mk (load64 (h.setSize o s).mem (h.heapBase + p))
    ((h.setSize o s).mem (h.heapBase + p + 8) != 0) = _
  rw [hl, hb]

theorem setHeader_apart (h : Heap) {p o : Word} (s : Word) (f : Bool) (ha : Apart p o) :
    (h.setHeader o s f).header p = h.header p := by
  rw [setHeader, setFree_apart _ _ ha, setSize_apart _ _ ha]

theorem setFree_same (h : Heap) (o : Word) (f : Bool) :
    (h.setFree o f).header o = ⟨(h.header o).size, f⟩ := by
  have hne : ∀ k < 8, h.heapBase + o + ofNat 64 k ≠ h.heapBase + o + 8 := by
    intro k hk he
    have h2 := congrArg toNat he
    have hk' : (ofNat 64 k).toNat = k := toNat_ofNat_of_lt (by omega)
    have := toNat_lt h.heapBase
    have := toNat_lt o
    simp only [toNat_add, hk', reduceToNat] at h2
    omega
  have hl : load64 (h.setFree o f).mem (h.heapBase + o) = load64 h.mem (h.heapBase + o) :=
    load64_congr fun k hk => store8_other _ _ (hne k hk)
  have hb : ((h.setFree o f).mem (h.heapBase + o + 8) != 0) = f := by
    simp only [setFree, store8_same]
    cases f <;> decide
  simp only [header]
  change Header.mk (load64 (h.setFree o f).mem (h.heapBase + o))
    ((h.setFree o f).mem (h.heapBase + o + 8) != 0) = _
  rw [hl, hb]

theorem setSize_same (h : Heap) (o s : Word) :
    (h.setSize o s).header o = ⟨s, (h.header o).isFree⟩ := by
  have hb : (h.setSize o s).mem (h.heapBase + o + 8) = h.mem (h.heapBase + o + 8) :=
    store64_other _ _ (flag_sub h.heapBase o).ge
  have hl : load64 (h.setSize o s).mem (h.heapBase + o) = s := load64_store64 _ _ _
  simp only [header]
  change Header.mk (load64 (h.setSize o s).mem (h.heapBase + o))
    ((h.setSize o s).mem (h.heapBase + o + 8) != 0) = _
  rw [hl, hb]

theorem setHeader_same (h : Heap) (o s : Word) (f : Bool) : (h.setHeader o s f).header o = ⟨s, f⟩ := by
  rw [setHeader, setFree_same, setSize_same]

end Heap

theorem Chain.congr (hc : Chain h o bs) (he : ∀ pre b post, bs = pre ++ b :: post →
      h'.header (ofNat 64 (o + span pre)) = h.header (ofNat 64 (o + span pre))) :
    Chain h' o bs := by
  induction bs generalizing o with
  | nil => trivial
  | cons b bs ih =>
    have h0 := he [] b bs rfl
    simp only [span_nil, Nat.add_zero] at h0
    refine ⟨?_, ih hc.2 fun pre c post hp => ?_⟩
    · unfold HeaderAt
      rw [h0]
      exact hc.1
    · have := he (b :: pre) c post (by simp [hp])
      simpa [Nat.add_assoc] using this

theorem Chain.of_mem (hc : Chain h o bs) (hm : h'.mem = h.mem) (hb : h'.heapBase = h.heapBase) :
    Chain h' o bs := by
  refine hc.congr fun pre b post _ => ?_
  simp only [Heap.header, hm, hb]

theorem Tiled.of_record (ht : Tiled h bs) (hm : h'.mem = h.mem)
    (hb : h'.heapBase = h.heapBase) (hs : h'.heapSize = h.heapSize)
    (ho : h'.heapOff = h.heapOff) : Tiled h' bs :=
  ⟨ht.chain.of_mem hm hb, ho ▸ ht.total, ht.good, ho ▸ hs ▸ ht.bound, hb ▸ hs ▸ ht.arena,
    hb ▸ ht.aligned⟩

theorem Chain.congr_outside (hc : Chain h o bs) (hg : ∀ b ∈ bs, b.Good)
    (he : ∀ x, o ≤ x → x + 16 ≤ o + span bs →
      h'.header (ofNat 64 x) = h.header (ofNat 64 x)) : Chain h' o bs := by
  refine hc.congr fun pre b post hb => he _ (by omega) ?_
  have := (hg b (by simp [hb])).le
  simp only [hb, span_append, span_cons]
  omega

end BlockOS.Allocator
