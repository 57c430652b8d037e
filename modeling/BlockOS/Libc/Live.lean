import BlockOS.Libc.Effects

/-! The pointers that the program holds. -/

namespace BlockOS.Libc
open Lib List

structure Live where
  ptr : Nat
  bytes : Nat
  raw : Nat

structure Holds (h : Heap) (v : Live) (s : Nat) : Prop where
  used : Used h v.raw s
  low : v.raw ≤ v.ptr
  inside : v.ptr < v.raw + s
  high : v.ptr + v.bytes ≤ v.raw + s
  aligned : 16 ∣ v.ptr
  header : h.alignedHeader v.ptr = none ∧ v.ptr = v.raw ∨
    ∃ a, h.alignedHeader v.ptr = some a ∧ a.raw = v.raw ∧ v.raw ≤ a.addr ∧ v.bytes ≤ a.size ∧
      v.ptr + a.size ≤ v.raw + s

structure Inv (base : Nat) (h : Heap) (live : List Live) : Prop where
  layout : Layout base h
  holds : ∀ v ∈ live, ∃ s, Holds h v s
  raws : (live.map Live.raw).Nodup
  headers : ∀ a ∈ h.aligns, ∃ v ∈ live, v.ptr = a.addr + alignHeaderSize ∧ v.raw = a.raw

variable {h h' : Heap} {p q s t n : Nat}

theorem alignedHeader_spec (ha : h.alignedHeader p = some a) : a ∈ h.aligns ∧
    a.addr + alignHeaderSize = p :=
  ⟨mem_of_find?_eq_some ha, by simpa using find?_some ha⟩

theorem alignedHeader_none (hnone : ∀ a ∈ h.aligns, a.addr + alignHeaderSize ≠ p) :
    h.alignedHeader p = none :=
  find?_eq_none.mpr fun a ha => by simpa using hnone a ha

theorem Inv.eq_of_raw (hi : Inv base h live) (hv : v ∈ live) (hw : w ∈ live)
    (hraw : v.raw = w.raw) : v = w :=
  inj_on_of_nodup_map hi.raws hv hw hraw

theorem Inv.apart (hi : Inv base h live) (hv : v ∈ live) (hw : w ∈ live) (hne : v.ptr ≠ w.ptr)
    (hs : Holds h v s) (ht : Holds h w t) :
    v.raw + s + headerSize ≤ w.raw ∨ w.raw + t + headerSize ≤ v.raw := by
  rcases hs.used.apart hi.layout ht.used with ⟨h0, -⟩ | h0
  · exact absurd (congrArg Live.ptr (hi.eq_of_raw hv hw h0)) hne
  · exact h0

theorem Inv.pos (hi : Inv base h live) (hv : v ∈ live) : 0 < v.ptr := by
  obtain ⟨s, hs⟩ := hi.holds v hv
  have := (hs.used.facts hi.layout).2.1
  have := hs.low
  omega

theorem Inv.eq_of_inside (hi : Inv base h live) (hv : v ∈ live) (hw : w ∈ live) (hs : Holds h v s)
    (h1 : v.raw ≤ w.ptr) (h2 : w.ptr < v.raw + s) : w = v := by
  obtain ⟨t, ht⟩ := hi.holds w hw
  have h3 := ht.low
  have h4 := ht.inside
  rcases ht.used.apart hi.layout hs.used with ⟨h0, -⟩ | h0 | h0
  · exact hi.eq_of_raw hw hv h0
  · omega
  · omega

theorem Inv.header_owner (hi : Inv base h live) (ha : a ∈ h.aligns) :
    ∃ v ∈ live, v.ptr = a.addr + alignHeaderSize ∧ v.raw ≤ a.addr := by
  obtain ⟨v, hv, hptr, hraw⟩ := hi.headers a ha
  obtain ⟨s, hs⟩ := hi.holds v hv
  refine ⟨v, hv, hptr, ?_⟩
  rcases hs.header with ⟨hnone, -⟩ | ⟨b, hb, -, hle, -⟩
  · have := find?_eq_none.mp hnone a ha
    simp [hptr] at this
  · have := (alignedHeader_spec hb).2
    omega

theorem Inv.no_header (hi : Inv base h live) (hu : Used h p s) : h.alignedHeader p = none := by
  have h48 : headerSize = 48 := rfl
  have h32 : alignHeaderSize = 32 := rfl
  refine alignedHeader_none fun a ha heq => ?_
  obtain ⟨w, hw, hptr, hlow⟩ := hi.header_owner ha
  obtain ⟨t, ht⟩ := hi.holds w hw
  have h1 := ht.inside
  have h2 := (hu.facts hi.layout).2.2.1
  rcases ht.used.apart hi.layout hu with ⟨h0, -⟩ | h0 | h0 <;> omega

theorem Holds.frame (hs : Holds h w s) (hu : Used h' w.raw s)
    (ha : h'.alignedHeader w.ptr = h.alignedHeader w.ptr) :
    Holds h' w s :=
  ⟨hu, hs.low, hs.inside, hs.high, hs.aligned, by rw [ha]; exact hs.header⟩

theorem Inv.take (hi : Inv base h live) (hl : Layout base h')
    (hused : ∀ q t, Used h q t → Used h' q t)
    (hfresh : ∀ t, ¬ Used h v.raw t) (hv : Holds h' v s)
    (hkept : ∀ w ∈ live, h'.alignedHeader w.ptr = h.alignedHeader w.ptr)
    (hheads : ∀ a ∈ h'.aligns, a ∈ h.aligns ∨ v.ptr = a.addr + alignHeaderSize ∧ v.raw = a.raw) :
    Inv base h' (v :: live) where
  layout := hl
  holds w hw := by
    rcases mem_cons.mp hw with rfl | hw
    · exact ⟨s, hv⟩
    · obtain ⟨t, ht⟩ := hi.holds w hw
      exact ⟨t, ht.frame (hused _ _ ht.used) (hkept w hw)⟩
  raws := by
    refine nodup_cons.mpr ⟨fun hmem => ?_, hi.raws⟩
    obtain ⟨w, hw, heq⟩ := mem_map.mp hmem
    obtain ⟨t, ht⟩ := hi.holds w hw
    exact hfresh t (heq ▸ ht.used)
  headers a ha := by
    rcases hheads a ha with h0 | h0
    · obtain ⟨w, hw, hrest⟩ := hi.headers a h0
      exact ⟨w, mem_cons_of_mem _ hw, hrest⟩
    · exact ⟨v, mem_cons_self, h0⟩

def without (live : List Live) (p : Nat) : List Live := live.filter fun v => v.ptr ≠ p

theorem mem_without : w ∈ without live p ↔ w ∈ live ∧ w.ptr ≠ p := by
  unfold without
  rw [mem_filter, decide_eq_true_eq]

theorem Inv.drop (hi : Inv base h live) (hv : v ∈ live) (hl : Layout base h')
    (hused : ∀ q t, Used h q t → q ≠ v.raw → Used h' q t)
    (hkept : ∀ w ∈ live, w.ptr ≠ v.ptr → h'.alignedHeader w.ptr = h.alignedHeader w.ptr)
    (hheads : ∀ a ∈ h'.aligns, a ∈ h.aligns ∧ a.addr + alignHeaderSize ≠ v.ptr) :
    Inv base h' (without live v.ptr) where
  layout := hl
  holds w hw := by
    obtain ⟨hw, hne⟩ := mem_without.mp hw
    obtain ⟨t, ht⟩ := hi.holds w hw
    exact ⟨t, ht.frame (hused _ _ ht.used fun h0 => hne (congrArg Live.ptr (hi.eq_of_raw hw hv h0)))
      (hkept w hw hne)⟩
  raws := hi.raws.sublist (filter_sublist.map _)
  headers a ha := by
    obtain ⟨h0, hne⟩ := hheads a ha
    obtain ⟨w, hw, hptr, hraw⟩ := hi.headers a h0
    exact ⟨w, mem_without.mpr ⟨hw, by rw [hptr]; exact hne⟩, hptr, hraw⟩

theorem Inv.resize (hi : Inv base h live) (hv : v ∈ live) (hl : Layout base h')
    (hused : ∀ q t, Used h q t → q ≠ v.raw → Used h' q t) (haligns : h'.aligns = h.aligns)
    (hnew : Holds h' { v with bytes := n } s) :
    Inv base h' ({ v with bytes := n } :: without live v.ptr) where
  layout := hl
  holds w hw := by
    rcases mem_cons.mp hw with rfl | hw
    · exact ⟨s, hnew⟩
    obtain ⟨hw, hne⟩ := mem_without.mp hw
    obtain ⟨t, ht⟩ := hi.holds w hw
    refine ⟨t, ht.frame (hused _ _ ht.used fun h0 => hne (congrArg Live.ptr (hi.eq_of_raw hw hv h0))) ?_⟩
    unfold Heap.alignedHeader
    rw [haligns]
  raws := by
    refine nodup_cons.mpr ⟨fun hmem => ?_, hi.raws.sublist (filter_sublist.map _)⟩
    obtain ⟨w, hw, heq⟩ := mem_map.mp hmem
    obtain ⟨hw, hne⟩ := mem_without.mp hw
    exact hne (congrArg Live.ptr (hi.eq_of_raw hw hv heq))
  headers a ha := by
    rw [haligns] at ha
    obtain ⟨w, hw, hptr, hraw⟩ := hi.headers a ha
    by_cases hne : w.ptr = v.ptr
    · refine ⟨_, mem_cons_self, hne ▸ hptr, ?_⟩
      obtain ⟨s', hs'⟩ := hi.holds v hv
      have : w = v :=
        hi.eq_of_inside hv hw hs' (by rw [hne]; exact hs'.low) (by rw [hne]; exact hs'.inside)
      exact this ▸ hraw
    · exact ⟨w, mem_cons_of_mem _ (mem_without.mpr ⟨hw, hne⟩), hptr, hraw⟩

theorem Takes.inv (hi : Inv base h live) (ht : Takes base h h' p s) (hn : n ≤ s) :
    Inv base h' ({ ptr := p, bytes := n, raw := p } :: live) := by
  have hu : Used h' p s := (ht.used p s).mpr (.inr ⟨rfl, rfl⟩)
  obtain ⟨h16, -, hmin, -⟩ := hu.facts ht.layout
  have hsame : ∀ q, h'.alignedHeader q = h.alignedHeader q :=
    fun q => by unfold Heap.alignedHeader; rw [ht.aligns]
  refine hi.take ht.layout (fun q t h0 => (ht.used q t).mpr (.inl h0)) ht.fresh ⟨hu, le_rfl, ?_, ?_,
    h16, .inl ⟨?_, rfl⟩⟩
    (fun w _ => hsame w.ptr) fun a ha => .inl (ht.aligns ▸ ha)
  · dsimp only
    omega
  · dsimp only
    omega
  -- a header that ends at `p` would lie in the payload of a pointer that was live before
  refine alignedHeader_none fun a ha heq => ?_
  rw [ht.aligns] at ha
  obtain ⟨w, hw, hptr, hlow⟩ := hi.header_owner ha
  obtain ⟨t, hold⟩ := hi.holds w hw
  have h1 := hold.inside
  have h48 : headerSize = 48 := rfl
  dsimp only at heq
  rcases (((ht.used _ _).mpr (.inl hold.used))).apart ht.layout hu with ⟨h0, -⟩ | h0 | h0
  · exact ht.fresh t (h0 ▸ hold.used)
  · omega
  · omega

theorem isPowerOfTwo_spec (h : isPowerOfTwo al = true) (hal : 8 ≤ al) : al = 8 ∨ 16 ∣ al := by
  unfold isPowerOfTwo at h
  rw [Bool.and_eq_true, bne_iff_ne, beq_iff_eq, Nat.and_sub_one_eq_zero_iff_isPowerOfTwo (by omega)] at h
  obtain ⟨-, k, rfl⟩ := h
  have hk : 3 ≤ k := by
    by_contra h0
    have : 2 ^ k ≤ 2 ^ 2 := Nat.pow_le_pow_right (by decide) (by omega)
    omega
  rcases Nat.lt_or_eq_of_le hk with h0 | rfl
  · exact .inr (pow_dvd_pow 2 h0)
  · exact .inl rfl

theorem aligned_spec (hpow : isPowerOfTwo al = true) (hal : 8 ≤ al) (hp : 16 ∣ p)
    (hlt : p + alignHeaderSize + al ≤ two64) :
    p + alignHeaderSize ≤ (p + alignHeaderSize + al - 1) % two64 / al * al ∧
      (p + alignHeaderSize + al - 1) % two64 / al * al < p + alignHeaderSize + al ∧
      16 ∣ (p + alignHeaderSize + al - 1) % two64 / al * al := by
  have h32 : alignHeaderSize = 32 := rfl
  rw [Nat.mod_eq_of_lt (by omega)]
  have hdm := Nat.div_add_mod (p + alignHeaderSize + al - 1) al
  have hmod := Nat.mod_lt (p + alignHeaderSize + al - 1) (by omega : 0 < al)
  rw [Nat.mul_comm] at hdm
  refine ⟨by omega, by omega, ?_⟩
  rcases isPowerOfTwo_spec hpow hal with rfl | h16
  · omega
  · exact Dvd.dvd.mul_left h16 _

theorem Takes.inv_aligned (hi : Inv base h live) (ht : Takes base h h' p s)
    (hpow : isPowerOfTwo al = true) (hal : 8 ≤ al) (hs : size + (al + alignHeaderSize) ≤ s)
      (hn : n ≤ size) :
    Inv base { h' with aligns :=
        { addr := (p + alignHeaderSize + al - 1) % two64 / al * al - alignHeaderSize, raw :=
          p, size := size, alignment := al } ::
          h'.aligns }
      ({ ptr := (p + alignHeaderSize + al - 1) % two64 / al * al, bytes := n, raw := p } :: live) := by
  have h32 : alignHeaderSize = 32 := rfl
  have hu : Used h' p s := (ht.used p s).mpr (.inr ⟨rfl, rfl⟩)
  obtain ⟨h16, -, -, htop⟩ := hu.facts ht.layout
  obtain ⟨h1, h2, h3⟩ := aligned_spec hpow hal h16 (by omega)
  generalize hA : (p + alignHeaderSize + al - 1) % two64 / al * al = A at h1 h2 h3
  have hlay : Layout base { h' with aligns :=
      { addr := A - alignHeaderSize, raw := p, size := size, alignment := al } :: h'.aligns } :=
    ⟨ht.layout.start, ht.layout.tiles, ht.layout.sizes, ht.layout.top, ht.layout.mapped,
      ht.layout.clear, ht.layout.apart⟩
  refine hi.take hlay (fun q t h0 => (ht.used q t).mpr (.inl h0)) ht.fresh
    ⟨hu, by dsimp only; omega, by dsimp only; omega, by dsimp only; omega, h3,
      .inr ⟨_, find?_cons_of_pos (by dsimp only; rw [decide_eq_true_eq]; omega), rfl,
        by dsimp only; omega, hn, by dsimp only; omega⟩⟩
    (fun w hw => ?_) fun a ha => ?_
  · obtain ⟨t, hold⟩ := hi.holds w hw
    have h4 := hold.low
    have h5 := hold.inside
    have hne : w.ptr ≠ A := by
      intro h0
      rcases (((ht.used _ _).mpr (.inl hold.used))).apart ht.layout hu with ⟨h6, -⟩ | h6 | h6
      · exact ht.fresh t (h6 ▸ hold.used)
      · omega
      · omega
    unfold Heap.alignedHeader
    rw [ht.aligns]
    exact find?_cons_of_neg (by dsimp only; rw [decide_eq_true_eq]; omega)
  · rcases mem_cons.mp ha with rfl | ha
    · exact .inr ⟨by dsimp only; omega, rfl⟩
    · exact .inl (ht.aligns ▸ ha)

theorem Inv.free (hi : Inv base h live) (hv : v ∈ live) : Inv base (Libc.free k v.ptr h)
    (without live v.ptr) := by
  have h32 : alignHeaderSize = 32 := rfl
  obtain ⟨s, hs⟩ := hi.holds v hv
  have hpos := hi.pos hv
  unfold Libc.free freeWithin
  rw [if_neg (by omega)]
  rcases hs.header with ⟨hnone, hraw⟩ | ⟨a, ha, hraw, hlow, -⟩
  · rw [hnone]
    dsimp only
    have hd := freePlain_drops (k := k) hi.layout (hraw ▸ hs.used)
    refine hi.drop hv hd.layout (fun q t h0 hne => (hd.used q t).mpr ⟨h0, by rw [hraw]; exact hne⟩)
      (fun w _ _ => ?_)
      fun a ha => ?_
    · unfold Heap.alignedHeader
      rw [hd.aligns]
    rw [hd.aligns] at ha
    refine ⟨ha, fun heq => ?_⟩
    have := find?_eq_none.mp hnone a ha
    simp [heq] at this
  · rw [ha]
    dsimp only
    obtain ⟨hmem, haddr⟩ := alignedHeader_spec ha
    have hlen : 0 < h.aligns.length := length_pos_of_mem hmem
    obtain ⟨fuel, hfuel⟩ : ∃ fuel, h.aligns.length = fuel + 1 := ⟨h.aligns.length - 1, by omega⟩
    have hrawpos := (hs.used.facts hi.layout).2.1
    rw [hfuel]
    unfold freeWithin
    rw [if_neg (by rw [hraw]; omega)]
    have hnone : Heap.alignedHeader { h with aligns := h.aligns.filter fun a' => a'.addr ≠ a.addr }
        a.raw = none :=
      alignedHeader_none fun a' ha' heq => by
        have := find?_eq_none.mp (hi.no_header hs.used) a' (mem_of_mem_filter ha')
        rw [hraw] at heq
        simp [heq] at this
    rw [hnone]
    dsimp only
    have hlay : Layout base { h with aligns := h.aligns.filter fun a' => a'.addr ≠ a.addr } :=
      ⟨hi.layout.start, hi.layout.tiles, hi.layout.sizes, hi.layout.top, hi.layout.mapped,
        hi.layout.clear, hi.layout.apart⟩
    have hd := freePlain_drops (k := k) (p := a.raw) hlay (show Used _ a.raw s from hraw ▸ hs.used)
    refine hi.drop hv hd.layout (fun q t h0 hne => (hd.used q t).mpr ⟨h0, by rw [hraw]; exact hne⟩)
      (fun w _ hne => ?_)
      fun a' ha' => ?_
    · unfold Heap.alignedHeader
      rw [hd.aligns]
      dsimp only
      rw [find?_filter]
      refine find?_congr fun c _ => ?_
      by_cases hc : c.addr + alignHeaderSize = w.ptr
      · have : c.addr ≠ a.addr := fun h0 => hne (by omega)
        simp [hc, this]
      · simp [hc]
    · rw [hd.aligns] at ha'
      obtain ⟨h0, hne⟩ := mem_filter.mp ha'
      refine ⟨h0, fun heq => ?_⟩
      exact absurd (by omega : a'.addr = a.addr) (by simpa using hne)

end BlockOS.Libc
