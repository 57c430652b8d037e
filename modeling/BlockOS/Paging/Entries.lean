import BlockOS.Paging.Model

/-! Page-table entries as words: what the flag tests and the address mask read from the entries the
code builds, and how entries of different tables sit in memory. -/

namespace BlockOS.Paging
open Words Bytes Lib List

theorem or_and (a b c : Word) : (a ||| b) &&& c = a &&& c ||| b &&& c := by
  rw [BitVec.and_comm, BitVec.and_or_distrib_left, BitVec.and_comm a, BitVec.and_comm b]

theorem has_or (a b f : Word) : has (a ||| b) f = (has a f || has b f) := by
  have h : (a ||| b) &&& f = 0 ↔ a &&& f = 0 ∧ b &&& f = 0 := by
    rw [or_and]
    exact BitVec.or_eq_zero_iff
  rw [Bool.eq_iff_iff]
  simp only [has, bne_iff_ne, ne_eq, h, Bool.or_eq_true]
  tauto

theorem has_and (a g f : Word) : has (a &&& g) f = has a (g &&& f) := by
  simp only [has, BitVec.and_assoc]

@[simp] theorem has_zero (a : Word) : has a 0#64 = false := by simp [has]

def IsFrame (p : Word) : Prop := p &&& addrMask = p

variable {p a t : Word}

theorem addr_or_flags (hp : IsFrame p) (hf : f &&& addrMask = 0) :
    (p &&& addrMask ||| f) &&& addrMask = p := by
  rw [or_and, hf, hp, hp]
  exact BitVec.or_zero

theorem has_frame (hp : IsFrame p) (hf : addrMask &&& f = 0) : has p f = false := by
  rw [← hp, has_and, hf]
  exact has_zero p

theorem isFrame_iff (p : Word) : IsFrame p ↔ 4096 ∣ p.toNat ∧ p.toNat < 2 ^ 52 := by
  have hmask : ∀ i, addrMask.getLsbD i = (decide (12 ≤ i) && decide (i < 52)) := by
    intro i
    by_cases hi : i < 64
    · revert i
      decide
    rw [BitVec.getLsbD_of_ge _ _ (by omega)]
    simp only [Bool.false_eq, Bool.and_eq_false_iff, decide_eq_false_iff_not]
    omega
  constructor
  · intro h
    have hb : ∀ i, p.toNat.testBit i = true → 12 ≤ i ∧ i < 52 := by
      intro i hi
      rw [BitVec.testBit_toNat, ← h, BitVec.getLsbD_and, hmask] at hi
      simpa using (Bool.and_eq_true_iff.mp hi).2
    constructor
    · rw [show 4096 = 2 ^ 12 from rfl, Nat.dvd_iff_mod_eq_zero]
      apply Nat.eq_of_testBit_eq
      intro i
      rw [Nat.testBit_mod_two_pow, Nat.zero_testBit]
      cases ht : p.toNat.testBit i with
      | false => simp
      | true => simp [(hb i ht).1]
    · apply Nat.lt_pow_two_of_testBit
      intro i hi
      cases ht : p.toNat.testBit i with
      | false => rfl
      | true => have := (hb i ht).2; omega
  · rintro ⟨⟨c, hc⟩, hlt⟩
    apply BitVec.eq_of_getLsbD_eq
    intro i hi
    rw [BitVec.getLsbD_and, hmask, ← BitVec.testBit_toNat]
    cases ht : p.toNat.testBit i with
    | false => rfl
    | true =>
      have h12 : 12 ≤ i := by
        by_contra hlt12
        rw [hc, show 4096 = 2 ^ 12 from rfl, Nat.testBit_two_pow_mul] at ht
        simp at ht
        omega
      have h52 : i < 52 := by
        by_contra hge
        rw [Nat.testBit_lt_two_pow
          (Nat.lt_of_lt_of_le hlt (Nat.pow_le_pow_right (by decide) (by omega)))] at ht
        cases ht
      simp [h12, h52]

theorem flag_defs : ptePresent = 0x1 ∧ pteWritable = 0x2 ∧ pteUser = 0x4 ∧ ptePwt = 0x8 ∧
    ptePcd = 0x10 ∧ ptePs = 0x80 ∧ pteNx = 0x8000000000000000 ∧ addrMask = 0x000ffffffffff000 :=
  ⟨rfl, rfl, rfl, rfl, rfl, rfl, rfl, rfl⟩

section Built

variable (hp : IsFrame p) (e flags : Word)
include hp

theorem newTable_flags :
    has (p &&& addrMask ||| (ptePresent ||| pteWritable ||| flags &&& pteUser)) ptePresent = true ∧
    has (p &&& addrMask ||| (ptePresent ||| pteWritable ||| flags &&& pteUser)) pteWritable = true ∧
    has (p &&& addrMask ||| (ptePresent ||| pteWritable ||| flags &&& pteUser)) pteUser =
      has flags pteUser ∧
    has (p &&& addrMask ||| (ptePresent ||| pteWritable ||| flags &&& pteUser)) ptePs = false ∧
    has (p &&& addrMask ||| (ptePresent ||| pteWritable ||| flags &&& pteUser)) pteNx = false ∧
    (p &&& addrMask ||| (ptePresent ||| pteWritable ||| flags &&& pteUser)) &&& addrMask = p := by
  refine ⟨?_, ?_, ?_, ?_, ?_, addr_or_flags hp ?_⟩ <;>
    simp +decide [has_or, has_and, or_and, BitVec.and_assoc, flag_defs]

theorem clone_flags : (∀ f ∈ [ptePresent, pteWritable, pteUser, ptePwt, ptePcd, ptePs, pteNx],
      has (p &&& addrMask ||| e &&& 0xfff ||| e &&& pteNx) f = has e f) ∧
    (p &&& addrMask ||| e &&& 0xfff ||| e &&& pteNx) &&& addrMask = p := by
  constructor
  · simp +decide [has_or, has_and, flag_defs]
  rw [BitVec.or_assoc]
  apply addr_or_flags hp
  simp +decide [or_and, BitVec.and_assoc, flag_defs]

theorem leafEntry_addr : leafEntry p flags &&& addrMask = p := by
  unfold leafEntry
  rw [BitVec.or_assoc]
  apply addr_or_flags hp
  simp +decide [or_and, BitVec.and_assoc, flag_defs]

end Built

theorem leafEntry_flags (p flags : Word) : has (leafEntry p flags) ptePresent = true ∧
    ∀ f ∈ [pteWritable, pteUser, ptePwt, ptePcd, pteNx], has (leafEntry p flags) f = has flags f := by
  unfold leafEntry
  constructor <;> simp +decide [has_or, has_and, flag_defs]

theorem raise_flags (e f : Word) (hf : f ∈ [pteUser, pteWritable]) :
    (e ||| f) &&& addrMask = e &&& addrMask ∧
    (∀ g ∈ [ptePresent, ptePwt, ptePcd, ptePs, pteNx], has (e ||| f) g = has e g) ∧
    (∀ g ∈ [pteUser, pteWritable], g ≠ f → has (e ||| f) g = has e g) ∧ has (e ||| f) f = true := by
  simp only [mem_cons, not_mem_nil, or_false] at hf
  rcases hf with rfl | rfl <;> simp +decide [has_or, or_and, flag_defs]

theorem protect_flags (old flags : Word) :
    has (old &&& addrMask ||| ptePresent ||| flags &&& leafFlags ||| pteUser) ptePresent = true ∧
    has (old &&& addrMask ||| ptePresent ||| flags &&& leafFlags ||| pteUser) pteUser = true ∧
    (∀ f ∈ [pteWritable, ptePwt, ptePcd, pteNx],
      has (old &&& addrMask ||| ptePresent ||| flags &&& leafFlags ||| pteUser) f = has flags f) ∧
    (old &&& addrMask ||| ptePresent ||| flags &&& leafFlags ||| pteUser) &&& addrMask =
      old &&& addrMask := by
  have hc : has 1#64 2#64 = false ∧ has 4#64 2#64 = false ∧ has 1#64 8#64 = false ∧
      has 4#64 8#64 = false ∧ has 1#64 16#64 = false ∧ has 4#64 16#64 = false ∧
      has 1#64 9223372036854775808#64 = false ∧ has 4#64 9223372036854775808#64 = false := by decide
  unfold leafFlags
  refine ⟨?_, ?_, ?_, ?_⟩ <;>
    simp +decide [has_or, has_and, or_and, BitVec.and_assoc, flag_defs, hc]

theorem IsFrame.dvd (h : IsFrame p) : 4096 ∣ p.toNat := ((isFrame_iff p).mp h).1

theorem IsFrame.lt (h : IsFrame p) : p.toNat < 2 ^ 52 := ((isFrame_iff p).mp h).2

def InPage (p a : Word) : Prop := (a - p).toNat < 4096

theorem not_inPage (hp : IsFrame p) (hu : IsFrame u) (hne : p ≠ u) (ha : InPage u a) :
    ¬ InPage p a := by
  intro h
  apply hne
  apply eq_of_toNat
  have h1 := hp.dvd
  have h2 := hu.dvd
  have h3 := hp.lt
  have h4 := hu.lt
  have h5 := toNat_lt a
  unfold InPage at *
  rw [BitVec.toNat_sub] at *
  omega

theorem slot_toNat (ht : IsFrame t) (i : Index) : (t + 8 * i.setWidth 64).toNat =
    t.toNat + 8 * i.toNat := by
  have h1 := ht.lt
  have h2 := i.isLt
  have h3 : (8 * i.setWidth 64 : Word).toNat = 8 * i.toNat := by
    rw [BitVec.toNat_mul, BitVec.toNat_setWidth, show (8 : Word).toNat = 8 from rfl]
    omega
  rw [toNat_add_of_lt (by omega), h3]

theorem slot_inPage (ht : IsFrame t) (i : Index) (hk : k < 8) :
    InPage t (t + 8 * i.setWidth 64 + BitVec.ofNat 64 k) := by
  have h1 := ht.lt
  have h2 := i.isLt
  have h3 := slot_toNat ht i
  have h4 : (BitVec.ofNat 64 k).toNat = k := toNat_ofNat_of_lt (by omega)
  unfold InPage
  rw [BitVec.toNat_sub, BitVec.toNat_add, h3, h4]
  omega

theorem entry_congr (ht : IsFrame t) (h : ∀ a, InPage t a → m' a = m a) (i : Index) :
    entry m' t i = entry m t i :=
  load64_congr fun _ hk => h _ (slot_inPage ht i hk)

@[simp] theorem entry_setEntry_same (m : Mem) (t : Word) (i : Index) (e : Word) :
    entry (setEntry m t i e) t i = e := load64_store64 _ _ _

theorem entry_setEntry_other (m : Mem) (ht : IsFrame t) (hu : IsFrame u)
    (e : Word) (h : ¬ (u = t ∧ j = i)) : entry (setEntry m t i e) u j = entry m u j := by
  refine load64_congr fun k hk => store64_other _ _ ?_
  have h1 := slot_toNat ht i
  have h2 := slot_toNat hu j
  have h3 := ht.dvd
  have h4 := hu.dvd
  have h5 := ht.lt
  have h6 := hu.lt
  have h7 := i.isLt
  have h8 := j.isLt
  have h9 : (BitVec.ofNat 64 k).toNat = k := toNat_ofNat_of_lt (by omega)
  have hne : t.toNat + 8 * i.toNat ≠ u.toNat + 8 * j.toNat := by
    intro he
    refine h ⟨eq_of_toNat (by omega), BitVec.eq_of_toNat_eq (by omega)⟩
  rw [BitVec.toNat_sub, h1, BitVec.toNat_add (u + _), h2, h9]
  omega

theorem setEntry_outside (m : Mem) (ht : IsFrame t) (i : Index) (e : Word)
    (ha : ¬ InPage t a) : setEntry m t i e a = m a := by
  apply store64_other
  have h1 := slot_toNat ht i
  have h2 := ht.lt
  have h3 := i.isLt
  have h4 := toNat_lt a
  unfold InPage at ha
  rw [BitVec.toNat_sub] at ha ⊢
  rw [h1]
  omega

theorem memset_page_outside (m : Mem) (h : ¬ InPage p a) :
    memset m p 0 4096 a = m a := memset_outside m 0 (by unfold InPage at h; omega)

theorem entry_memset_same (m : Mem) (hp : IsFrame p) (i : Index) : entry (memset m p 0 4096) p i =
    0 := by
  have hz : entry (memset m p 0 4096) p i = entry (fun _ => 0) p i :=
    entry_congr hp (fun _ ha => memset_inside m 0 ha) i
  rw [hz]
  simp [entry, load64]

theorem mem_indices (i : Index) : i ∈ indices := by
  refine mem_map.mpr ⟨i.toNat, mem_range.mpr i.isLt, ?_⟩
  simp

theorem entry_foldl_setEntry (ht : IsFrame t) (f : Index → Word) (l : List Index) (m : Mem)
    (i : Index) :
    entry (l.foldl (fun m j => setEntry m t j (f j)) m) t i =
      if i ∈ l then f i else entry m t i := by
  induction l generalizing m with
  | nil => simp
  | cons j l ih =>
    rw [foldl_cons, ih]
    by_cases hl : i ∈ l
    · simp [hl]
    by_cases hj : i = j
    · subst hj
      simp [hl]
    · rw [entry_setEntry_other m ht ht _ (by simp [hj])]
      simp [hl, hj]

theorem entry_fillTable_same (m : Mem) (ht : IsFrame t) (f : Index → Word) (i : Index) :
    entry (fillTable m t f) t i = f i := by
  unfold fillTable
  rw [entry_foldl_setEntry ht, if_pos (mem_indices i)]

theorem fillTable_outside (m : Mem) (ht : IsFrame t) (f : Index → Word)
    (ha : ¬ InPage t a) : fillTable m t f a = m a := by
  unfold fillTable
  generalize indices = l
  induction l generalizing m with
  | nil => rfl
  | cons j l ih => rw [foldl_cons, ih, setEntry_outside m ht j _ ha]

end BlockOS.Paging
