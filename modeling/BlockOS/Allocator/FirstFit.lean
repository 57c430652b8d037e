import BlockOS.Allocator.Safety

/-! `alloc` as a search: it takes the first free block of the chain that has room for the request,
and fails only when neither a free block nor the end of the arena has. -/

namespace BlockOS.Allocator
open Words Bytes Runs
open Session (step start)

def Holds (base a l o room : Nat) : Prop := ∃ q, a ∣ q ∧ base + o + 16 ≤ q ∧
    q + l ≤ base + o + room + 16

theorem holds_iff (base k l o room : Nat) : Holds base (2 ^ k) l o room ↔
    lead base k o + l ≤ room := by
  have hle := le_ceilTo (Nat.two_pow_pos k) (base + o + 16)
  unfold lead
  constructor
  · rintro ⟨q, hq, hlow, hhigh⟩
    have hmin := ceilTo_le_of_dvd (Nat.two_pow_pos k) hq hlow
    omega
  · intro h
    exact ⟨ceilTo (2 ^ k) (base + o + 16), dvd_ceilTo _ _, hle, by omega⟩

theorem lead_mono (base k : Nat) (h : o ≤ x) : o + lead base k o ≤ x + lead base k x := by
  have hx := le_ceilTo (Nat.two_pow_pos k) (base + x + 16)
  have hmin := ceilTo_le_of_dvd (Nat.two_pow_pos k) (dvd_ceilTo (2 ^ k) (base + x + 16))
    (show base + o + 16 ≤ ceilTo (2 ^ k) (base + x + 16) by omega)
  have h1 := @payload_lead base k o
  have h2 := @payload_lead base k x
  omega

def lengthOf (size : Word) : Nat := ceilTo 16 (size.toNat + 16)

def Fits (h : Heap) (size align : Word) (o : Nat) (b : Block) : Prop :=
  b.free = true ∧ Holds h.heapBase.toNat (max align.toNat 16) (lengthOf size) o b.size

def TailFits (h : Heap) (size align : Word) : Prop :=
  Holds h.heapBase.toNat (max align.toNat 16) (lengthOf size) h.heapOff.toNat
    (h.heapSize.toNat - h.heapOff.toNat)

structure FirstFit (h : Heap) (bs : List Block) (size align : Word) : Prop where
  complete : (alloc h size align).1 = 0 → size > h.heapSize ∨
    (∀ pre b post, bs = pre ++ b :: post → ¬ Fits h size align (span pre) b) ∧ ¬ TailFits h size align
  lowest : ∀ pre b post, bs = pre ++ b :: post → Fits h size align (span pre) b →
    (∀ pre' b' post', pre = pre' ++ b' :: post' → ¬ Fits h size align (span pre') b') →
    h.heapBase.toNat + span pre + 16 ≤ (alloc h size align).1.toNat ∧
      (alloc h size align).1.toNat + lengthOf size ≤ h.heapBase.toNat + span pre + b.size + 16

theorem fitIn_none (h : fitIn acc o bs = none) (hb : bs = pre ++ b :: post) :
    acc (o + span pre) b = false := by
  induction bs generalizing o pre with
  | nil => simp at hb
  | cons c bs ih =>
    simp only [fitIn] at h
    split at h
    · cases h
    rename_i hc
    cases pre with
    | nil =>
      obtain ⟨rfl, -⟩ := List.cons.inj hb
      simpa using hc
    | cons d pre =>
      obtain ⟨rfl, hrest⟩ := List.cons.inj hb
      simpa [Nat.add_assoc] using ih h hrest

theorem fitIn_first (h : fitIn acc o bs = some x) :
    ∃ pre b post, bs = pre ++ b :: post ∧ x = o + span pre ∧ acc x b = true ∧
      ∀ pre' b' post', pre = pre' ++ b' :: post' → acc (o + span pre') b' = false := by
  induction bs generalizing o with
  | nil => simp [fitIn] at h
  | cons c bs ih =>
    simp only [fitIn] at h
    split at h
    · rename_i hc
      cases h
      exact ⟨[], c, bs, rfl, by simp, hc, fun _ _ _ hp => by simp at hp⟩
    rename_i hc
    obtain ⟨pre, b, post, rfl, rfl, hb, hfirst⟩ := ih h
    refine ⟨c :: pre, b, post, rfl, by simp [Nat.add_assoc], hb, fun pre' b' post' hp => ?_⟩
    cases pre' with
    | nil =>
      obtain ⟨rfl, -⟩ := List.cons.inj hp
      simpa using hc
    | cons d pre' =>
      obtain ⟨rfl, hrest⟩ := List.cons.inj hp
      simpa [Nat.add_assoc] using hfirst pre' b' post' hrest

section

variable {h : Heap} {bs : List Block} {size align : Word} {k : Nat}

theorem Request.fits_iff (hr : Request h size align k) (o : Nat) (b : Block) :
    Fits h size align o b ↔ b.free = true ∧ lead h.heapBase.toNat k o + lengthOf size ≤ b.size := by
  unfold Fits
  rw [hr.pow, holds_iff]

theorem Request.tailFits_iff (hr : Request h size align k) : TailFits h size align ↔
      lead h.heapBase.toNat k h.heapOff.toNat + lengthOf size ≤ h.heapSize.toNat - h.heapOff.toNat := by
  unfold TailFits
  rw [hr.pow, holds_iff]

theorem Request.accepts_of_fits (hr : Request h size align k)
    (ht : Tiled h (pre ++ b :: post)) (hf : Fits h size align (span pre) b) :
    accepts h (clampAlign align) (blockLengthFor size) (span pre) b = true := by
  obtain ⟨hfree, hroom⟩ := (hr.fits_iff _ _).mp hf
  have hoff := ht.offset_le
  have hbound := ht.bound
  have harena := ht.arena
  have hge := ht.good_at.le
  have hslack := slack_toNat (h := h) (o := span pre) hr.align (by omega)
  have hl := hr.length ht
  unfold lengthOf at hroom
  simp only [accepts, hfree, Bool.true_and, decide_eq_true_eq]
  rw [toNat_add_of_lt (by omega), hslack, hl]
  exact hroom

theorem Request.no_room_after (hr : Request h size align k) (ht : Tiled h bs)
    (hwrap : 2 ^ 64 ≤ lead h.heapBase.toNat k o + lengthOf size) :
    (∀ pre b post, bs = pre ++ b :: post → o ≤ span pre → ¬ Fits h size align (span pre) b) ∧
      (o ≤ h.heapOff.toNat → ¬ TailFits h size align) := by
  have hsize := toNat_lt h.heapSize
  constructor
  · rintro pre b post rfl ho hf
    have hroom := ((hr.fits_iff _ _).mp hf).2
    have hmono := lead_mono h.heapBase.toNat k ho
    have hoff := ht.offset_le
    have hbound := ht.bound
    omega
  · intro ho hf
    have hroom := hr.tailFits_iff.mp hf
    have hmono := lead_mono h.heapBase.toNat k ho
    have hbound := ht.bound
    omega

theorem position_cases {α : Type} {pre pre' post post' : List α} {b b' : α}
    (h : pre ++ b :: post = pre' ++ b' :: post') :
    (∃ mid, pre' = pre ++ b :: mid) ∨ (pre = pre' ∧ b = b') ∨ ∃ mid, pre = pre' ++ b' :: mid := by
  rcases List.append_eq_append_iff.mp h with ⟨mid, rfl, hm⟩ | ⟨mid, rfl, hm⟩
  · cases mid with
    | nil => exact .inr (.inl ⟨by simp, (List.cons.inj hm).1⟩)
    | cons c mid => exact .inl ⟨mid, by rw [(List.cons.inj hm).1]⟩
  cases mid with
  | nil => exact .inr (.inl ⟨by simp, (List.cons.inj hm).1.symm⟩)
  | cons c mid => exact .inr (.inr ⟨mid, by rw [(List.cons.inj hm).1]⟩)

theorem clampAlign_pow (h : isPowerOf2 a = true) : isPowerOf2 (clampAlign a) = true := by
  unfold clampAlign
  split
  · decide
  · exact h

theorem Tiled.firstFit (ht : Tiled h bs) (hb : h.heapBase ≠ 0) (size align : Word)
    (hpow : isPowerOf2 align = true) :
    FirstFit h bs size align := by
  have hbound := ht.bound
  rcases alloc_paths ht size align with ⟨hcheck, he⟩ | ⟨k, hr, hpath⟩
  · -- only the size check can fail, and a block has at most the size of the arena
    have hlarge : size > h.heapSize := by
      rcases hcheck with h0 | hlt | hp
      · exact absurd h0 hb
      · exact hlt
      · rw [clampAlign_pow hpow] at hp
        cases hp
    refine ⟨fun _ => .inl hlarge, fun pre b post hbs hf _ => ?_⟩
    obtain ⟨-, q, -, hlow, hhigh⟩ := hf
    subst hbs
    have hoff := ht.offset_le
    have hlen : size.toNat + 16 ≤ lengthOf size := le_ceilTo (by decide) _
    rw [gt_iff_lt, BitVec.lt_def] at hlarge
    omega
  have hl := hr.length ht
  rcases hpath with ⟨hnone, -, he⟩ | ⟨x, hsome, -, he⟩
  · have hno : ∀ pre b post, bs = pre ++ b :: post → ¬ Fits h size align (span pre) b := by
      rintro pre b post rfl hf
      have hacc := fitIn_none hnone rfl
      rw [Nat.zero_add, hr.accepts_of_fits ht hf] at hacc
      cases hacc
    refine ⟨fun h0 => .inr ⟨hno, fun htail => ?_⟩, fun pre b post hbs hf =>
      absurd hf (hno pre b post hbs)⟩
    have hroom := hr.tailFits_iff.mp htail
    have hpay := @payload_lead h.heapBase.toNat k h.heapOff.toNat
    unfold lengthOf at hroom
    have hlen := le_ceilTo (show 0 < 16 by decide) (size.toNat + 16)
    rcases bump_eq ht hr.base hr.align hl with ⟨hover, -⟩ | ⟨hfit, hb'⟩
    · unfold bumpPayload at hover
      omega
    have harena := ht.arena
    have hge : h.heapBase.toNat + h.heapOff.toNat + 16 ≤ bumpPayload h k :=
      le_ceilTo (Nat.two_pow_pos k) _
    have hp := payload_toNat h.heapBase (bumpPayload h k - h.heapBase.toNat - 16) (by omega)
    rw [he, hb'] at h0
    dsimp only at h0
    rw [h0] at hp
    simp at hp
  · obtain ⟨pre₀, b₀, post₀, rfl, rfl, hacc, hfirst⟩ := fitIn_first hsome
    rw [Nat.zero_add] at hacc he
    have hbefore : ∀ pre b mid, pre₀ = pre ++ b :: mid → ¬ Fits h size align (span pre) b := by
      intro pre b mid hpre hf
      have hrej := hfirst pre b mid hpre
      have ht' : Tiled h (pre ++ b :: (mid ++ b₀ :: post₀)) := by simpa [hpre] using ht
      rw [Nat.zero_add, hr.accepts_of_fits ht' hf] at hrej
      cases hrej
    have hoff := ht.offset_le
    have harena := ht.arena
    have hge := ht.good_at.le
    have hslack := slack_toNat (h := h) (o := span pre₀) hr.align (by omega)
    by_cases hwrap : 2 ^ 64 ≤ lead h.heapBase.toNat k (span pre₀) + lengthOf size
    · obtain ⟨hafter, htail⟩ := hr.no_room_after ht hwrap
      have hno : ∀ pre b post, pre₀ ++ b₀ :: post₀ = pre ++ b :: post →
          ¬ Fits h size align (span pre) b := by
        intro pre b post hbs
        rcases position_cases hbs with ⟨mid, rfl⟩ | ⟨rfl, -⟩ | ⟨mid, rfl⟩
        · exact hafter _ b post hbs (by simp)
        · exact hafter _ b post hbs (Nat.le_refl _)
        · exact hbefore pre b mid rfl
      exact ⟨fun _ => .inr ⟨hno, htail (by omega)⟩, fun pre b post hbs hf =>
        absurd hf (hno pre b post hbs)⟩
    · simp only [accepts, Bool.and_eq_true, decide_eq_true_eq] at hacc
      unfold lengthOf at hwrap
      have hle : lead h.heapBase.toNat k (span pre₀) + ceilTo 16 (size.toNat + 16) ≤ b₀.size := by
        have := hacc.2
        rwa [toNat_add_of_lt (by omega), hslack, hl] at this
      have hd16 : 16 ∣ lead h.heapBase.toNat k (span pre₀) :=
        dvd_lead hr.align.dvd ((show 16 ∣ 4096 by decide).trans ht.aligned) ht.dvd_pre
      obtain ⟨hp, -⟩ :=
        carve_spec ht hslack hl hle hd16 (dvd_ceilTo _ _) (le_ceilTo (by decide) (size.toNat + 16))
      rw [← he] at hp
      have hfits : Fits h size align (span pre₀) b₀ := (hr.fits_iff _ _).mpr ⟨hacc.1, hle⟩
      refine ⟨fun h0 => ?_, fun pre b post hbs hf hlowest => ?_⟩
      · rw [h0] at hp
        simp at hp
      rcases position_cases hbs with ⟨mid, rfl⟩ | ⟨rfl, rfl⟩ | ⟨mid, hmid⟩
      · exact absurd hfits (hlowest pre₀ b₀ mid rfl)
      · unfold lengthOf
        omega
      · exact absurd hf (hbefore pre b mid hmid)

end

def HeaderChain (h : Heap) (bs : List Block) : Prop :=
  Chain h 0 bs ∧ span bs = h.heapOff.toNat ∧ ∀ b ∈ bs, 0 < b.size

theorem not_tailFits_of_small (hs : h.heapSize.toNat < 16) (size align : Word) :
    ¬ TailFits h size align := by
  rintro ⟨q, -, hlow, hhigh⟩
  have hlen : size.toNat + 16 ≤ lengthOf size := le_ceilTo (by decide) _
  omega

theorem first_fit_iff (base size : Word) (h : Heap) (hok : InitOk base size)
    (harena : base.toNat + size.toNat < 2 ^ 64) (ops : List Op)
    (hrun : Along step (fun s op => op.Legal s ∧ op.NoWrap s) (start base size h) ops) :
    (∃ bs, HeaderChain (runFrom step (start base size h) ops).heap bs ∧
      ∀ n align, isPowerOf2 align = true →
        FirstFit (runFrom step (start base size h) ops).heap bs n align) ↔
      (runFrom step (start base size h) ops).heap.heapBase ≠ 0 ∨
        (runFrom step (start base size h) ops).heap.heapSize.toNat < 16 := by
  obtain ⟨bs, hc⟩ := consistent_run h hok harena hrun
  generalize runFrom step (start base size h) ops = s at hc ⊢
  have ht := hc.tiled
  have hchain : HeaderChain s.heap bs := ⟨ht.chain, ht.total, fun b hb => (ht.good b hb).1⟩
  have hempty : s.heap.heapBase = 0 → s.heap.heapOff.toNat = 0 := fun h0 => by
    refine hc.heapOff_eq_zero ?_
    by_contra hne
    exact hc.base hne h0
  constructor
  · rintro ⟨bs', -, hff⟩
    by_contra hcon
    obtain ⟨hnull, hroom⟩ := not_or.mp hcon
    rw [not_not] at hnull
    have h0 := hempty hnull
    -- sixteen bytes at the start of the arena would do
    rcases (hff 0 16 (by decide)).complete (alloc_base_zero hnull 0 16) with hlarge | ⟨-, htail⟩
    · rw [gt_iff_lt, BitVec.lt_def] at hlarge
      simp at hlarge
    refine htail ⟨16, by decide, ?_, ?_⟩
    · rw [hnull, h0]
      decide
    have hl : lengthOf 0 = 16 := by decide
    rw [hnull, h0, hl]
    simp
    omega
  · intro hcond
    refine ⟨bs, hchain, fun n align hpow => ?_⟩
    by_cases hb : s.heap.heapBase = 0
    · have hsmall := hcond.resolve_left (not_not.mpr hb)
      have hnone : ∀ pre b post, bs ≠ pre ++ b :: post := by
        rintro pre b post rfl
        have := ht.good_at.le
        have := ht.offset_le
        have := hempty hb
        omega
      exact ⟨fun _ => .inr ⟨fun pre b post hbs => absurd hbs (hnone pre b post),
        not_tailFits_of_small hsmall n align⟩, fun pre b post hbs => absurd hbs (hnone pre b post)⟩
    · exact ht.firstFit hb n align hpow

theorem first_fit_sample :
    ∃ bs, HeaderChain (runFrom step (start 4096 8192 blank) sampleOps).heap bs ∧
      ∀ n align, isPowerOf2 align = true →
        FirstFit (runFrom step (start 4096 8192 blank) sampleOps).heap bs n align :=
  (first_fit_iff 4096 8192 blank (by decide) (by decide) sampleOps (by decide)).mpr (.inl (by decide))

theorem first_fit_null : InitOk 0 4096 ∧ (start 0 4096 blank).heap.record.total = 4096 ∧
      (alloc (start 0 4096 blank).heap 0 16).1 = 0 ∧ TailFits (start 0 4096 blank).heap 0 16 ∧
      ¬ (0 : Word) > (start 0 4096 blank).heap.heapSize := by
  refine ⟨by decide, by decide, by decide, ⟨16, by decide, by decide, by decide⟩, by decide⟩

end BlockOS.Allocator
