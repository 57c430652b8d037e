import BlockOS.Lib.Radix
import BlockOS.Paging.Entries

/-! What the processor reads from the tables. -/

namespace BlockOS.Paging
open Words Bytes Radix

structure Translation where
  frame : Word
  writable : Bool
  user : Bool
  pwt : Bool
  pcd : Bool
  nx : Bool
  deriving DecidableEq, Repr

def leafFrame (va : Word) (level : Nat) (e : Word) : Word :=
  if level = 1 then e &&& addrMask
  else if level = 2 then (e &&& largeMask) + (va &&& 0x1ff000)
  else (e &&& 0x000fffffc0000000) + (va &&& 0x3ffff000)

def leafTranslation (va : Word) (level : Nat) (e : Word) : Translation :=
  { frame := leafFrame va level e
    writable := has e pteWritable
    user := has e pteUser
    pwt := has e ptePwt
    pcd := has e ptePcd
    nx := has e pteNx }

def Translation.through (e : Word) (t : Translation) : Translation :=
  { t with
    writable := t.writable && has e pteWritable
    user := t.user && has e pteUser
    nx := t.nx || has e pteNx }

def nextTable (level : Nat) (e : Word) : Option Word :=
  if has e ptePresent && isTable level e then some (e &&& addrMask) else none

def scheme (va : Word) : Scheme Word Word (Option Translation) where
  next := nextTable
  leaf level e := if has e ptePresent then some (leafTranslation va level e) else none
  through e := Option.map (Translation.through e)
  bottom := none

def translate (m : Mem) (root va : Word) : Option Translation :=
  eval (scheme va) (entry m) (idx va) 4 (root &&& addrMask)

theorem slot_table {get : Word → Index → Word} (va : Word) {n : Nat} {e u : Word}
    (h : nextTable (n + 1) e = some u) :
    slot (scheme va) get path n e = (eval (scheme va) get path n u).map (Translation.through e) :=
  slot_some (S := scheme va) h

theorem slot_leaf {get : Word → Index → Word} (va : Word) {n : Nat} {e : Word}
    (h : nextTable (n + 1) e = none) :
    slot (scheme va) get path n e =
      if has e ptePresent then some (leafTranslation va (n + 1) e) else none :=
  slot_none (S := scheme va) h

def page (va : Word) : BitVec 36 := (va >>> 12).setWidth 36

theorem idx_getLsbD (va : Word) (level i : Nat) :
    (idx va level).getLsbD i = (decide (i < 9) && va.getLsbD (12 + (level - 1) * 9 + i)) := by
  simp [idx]

theorem page_eq (h : ∀ level, 1 ≤ level → level ≤ 4 → idx va level = idx va' level) :
    page va = page va' := by
  apply BitVec.eq_of_getLsbD_eq
  intro i hi
  have hb : ∀ v : Word, (page v).getLsbD i = (idx v (i / 9 + 1)).getLsbD (i % 9) := by
    intro v
    rw [idx_getLsbD]
    have : i % 9 < 9 := Nat.mod_lt _ (by decide)
    simp only [page, BitVec.getLsbD_setWidth, BitVec.getLsbD_ushiftRight, hi, this, decide_true,
      Bool.true_and]
    congr 1
    omega
  rw [hb, hb, h _ (by omega) (by omega)]

theorem page_of_prefixOf (h : prefixOf (idx va) 4 3 = prefixOf (idx va') 4 3)
    (h1 : idx va 1 = idx va' 1) : page va = page va' := by
  have h' : [idx va 4, idx va 3, idx va 2] = [idx va' 4, idx va' 3, idx va' 2] := h
  obtain ⟨h4, h⟩ := List.cons.inj h'
  obtain ⟨h3, h⟩ := List.cons.inj h
  obtain ⟨h2, -⟩ := List.cons.inj h
  apply page_eq
  intro level l1 l4
  obtain rfl | rfl | rfl | rfl : level = 1 ∨ level = 2 ∨ level = 3 ∨ level = 4 := by omega
  · exact h1
  · exact h2
  · exact h3
  · exact h4

theorem idx_of_page (h : page va = page va') (h1 : 1 ≤ level) (h4 : level ≤ 4) :
    idx va level = idx va' level := by
  apply BitVec.eq_of_getLsbD_eq
  intro i hi
  have hb : ∀ v : Word, (idx v level).getLsbD i = (page v).getLsbD ((level - 1) * 9 + i) := by
    intro v
    have hlt : (level - 1) * 9 + i < 36 := by omega
    rw [idx_getLsbD]
    simp only [page, BitVec.getLsbD_setWidth, BitVec.getLsbD_ushiftRight, hi, hlt, decide_true,
      Bool.true_and]
    congr 1
    omega
  rw [hb, hb, h]

theorem large_base (e : Word) : 2 ^ 21 ∣ (e &&& largeMask).toNat ∧
    (e &&& largeMask).toNat < 2 ^ 52 := by
  have hm : largeMask = 0x000fffffffffffff &&& ~~~(0x200000 - 1) := by decide
  rw [hm, ← BitVec.and_assoc]
  have h := toNat_and_not_mask (e &&& 0x000fffffffffffff) 0x200000 21 (by decide) rfl
  have hle : (e &&& 0x000fffffffffffff).toNat ≤ (0x000fffffffffffff : Word).toNat := by
    rw [BitVec.toNat_and]
    exact Nat.and_le_right
  rw [h]
  refine ⟨Nat.dvd_mul_left _ _, Nat.lt_of_le_of_lt (Nat.div_mul_le_self _ _) ?_⟩
  exact Nat.lt_of_le_of_lt hle (by decide)

theorem index_shift (j : Index) : (j.setWidth 64 <<< 12 : Word).toNat = 4096 * j.toNat := by
  have := j.isLt
  rw [BitVec.toNat_shiftLeft, BitVec.toNat_setWidth, Nat.shiftLeft_eq]
  omega

theorem isFrame_large_add (e : Word) (j : Index) :
    IsFrame ((e &&& largeMask) + (j.setWidth 64 <<< 12 : Word)) := by
  obtain ⟨⟨c, hc⟩, hlt⟩ := large_base e
  have hj := j.isLt
  have hs := index_shift j
  rw [isFrame_iff, toNat_add_of_lt (by omega), hs, hc]
  constructor
  · exact Nat.dvd_add (Dvd.dvd.mul_right (by decide) c) (Dvd.intro _ rfl)
  · omega

theorem splitEntry_flags (e : Word) (j : Index) : has (splitEntry e j) ptePresent = true ∧
    (∀ f ∈ [pteWritable, pteUser, ptePwt, ptePcd, pteNx], has (splitEntry e j) f = has e f) ∧
    splitEntry e j &&& addrMask = (e &&& largeMask) + (j.setWidth 64 <<< 12 : Word) := by
  have hf := isFrame_large_add e j
  unfold splitEntry
  rw [← hf]
  refine ⟨?_, ?_, ?_⟩
  · simp +decide [has_or, has_and, flag_defs]
  · simp +decide [has_or, has_and, flag_defs]
  rw [hf, ← hf, BitVec.or_assoc]
  refine (addr_or_flags hf ?_).trans hf.symm
  simp +decide [or_and, BitVec.and_assoc, flag_defs]

theorem idx_one_shift (va : Word) : ((idx va 1).setWidth 64 <<< 12 : Word) = va &&& 0x1ff000 := by
  have hmask : ∀ i < 64, (0x1ff000 : Word).getLsbD i = (decide (12 ≤ i) && decide (i < 21)) := by
    decide
  apply BitVec.eq_of_getLsbD_eq
  intro i hi
  rw [BitVec.getLsbD_and, hmask i hi, BitVec.getLsbD_shiftLeft, BitVec.getLsbD_setWidth, idx_getLsbD]
  by_cases h12 : i < 12
  · simp [h12]
  by_cases h21 : i < 21
  · simp [h12, h21, hi, show i - 12 < 9 by omega, show i - 12 < 64 by omega,
      show 12 + (i - 12) = i by omega, show 12 ≤ i by omega]
  · simp [h21, show ¬ i - 12 < 9 by omega]

theorem leafTranslation_split (va e : Word) :
    leafTranslation va 1 (splitEntry e (idx va 1)) = leafTranslation va 2 e := by
  obtain ⟨-, hf, ha⟩ := splitEntry_flags e (idx va 1)
  simp only [List.mem_cons, List.not_mem_nil, or_false, forall_eq_or_imp, forall_eq] at hf
  simp only [leafTranslation, leafFrame, hf, ha, if_true, idx_one_shift]
  simp

end BlockOS.Paging
