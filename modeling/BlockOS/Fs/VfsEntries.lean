import BlockOS.Fs.Tree

/-! What the calls of the file system do to each of its entries. -/

namespace BlockOS.Fs
open Words Paths Runs List

def Vfs.All (Q : Entry → Prop) (v : Vfs) : Prop := ∀ e ∈ v.entries, Q e

section

variable {Q : Entry → Prop} {v v' : Vfs}

theorem Vfs.All.add (h : v.All Q) (hq : Q e) : ∀ x ∈ v.entries ++ [e], Q x := by
  intro x hx
  rcases mem_append.mp hx with hx | hx
  · exact h x hx
  · rwa [mem_singleton.mp hx]

theorem Vfs.All.modify (h : v.All Q) (i : Nat) (hg : ∀ e, Q e → Q (g e)) : (v.modify i g).All Q := by
  intro x hx
  obtain ⟨j, hj⟩ := mem_iff_getElem?.mp hx
  rw [Vfs.modify, getElem?_modify] at hj
  obtain ⟨e, he, rfl⟩ := Option.map_eq_some_iff.mp hj
  have hq := h e (mem_of_getElem? he)
  split
  · exact hg e hq
  · exact hq

theorem Vfs.All.unlink (h : v.All Q) (i : Nat) : (v.unlink i).All Q := fun x hx =>
  h x (mem_of_mem_eraseIdx hx)

end

section

variable {Q : Entry → Prop}

theorem Edited.all {wraps : Prop} (he : Edited grants path wraps v v')
    (hr : EntryRule Q) (h : v.All Q) : v'.All Q := by
  have hedit := he.entries
  unfold Vfs.All
  generalize v'.entries = l at hedit
  cases hedit with
  | same => exact h
  | put i id src hmiss => exact h.modify i fun e => hr.put e id src hmiss
  | added p e _ _ hq => exact h.add (hq Q hr)

theorem removeNode_all (t : NodeType) (path : Option (List Byte)) (h : v.All Q) :
    (removeNode t path v).2.All Q := by
  rcases removeNode_cases (v := v) t path with h0 | ⟨i, n, -, h0⟩
  · rwa [h0]
  · rw [h0]
    exact h.unlink i

def Renaming (Q : Entry → Prop) (v : Vfs) : VfsOp → Prop
  | .renamePath oldPath newPath =>
    ∀ e, oldPath.bind v.lookup = some e → ∀ n, newPath.bind normalizePath = some n →
      v.find n = none → Q (e.rename n)
  | _ => True

theorem renamePath_succeeds (hl : v.lookup p = some e) (hn : normalizePath q = some n)
    (hfree : v.find n = none) : (renamePath (some p) (some q) v).1 = true := by
  obtain ⟨i, hi, he⟩ := Option.bind_eq_some_iff.mp hl
  have hnorm := normalised_of_normalizePath hn
  cases hp : normalizePath p with
  | none => simp [findEntry, hp] at hi
  | some o =>
    have hfind : findEntry o v = some i := by
      rw [findEntry_normalised (normalised_of_normalizePath hp)]
      simpa [findEntry, hp] using hi
    have hshort : ¬ n.length ≥ maxPath := Nat.not_le.mpr hnorm.2
    simp [renamePath, hp, hn, hfind, findEntry_normalised hnorm, hfree, hshort, he]

theorem renamePath_all (oldPath newPath : Option (List Byte)) (h : v.All Q) :
    (renamePath oldPath newPath v).2.All Q ↔ Renaming Q v (.renamePath oldPath newPath) := by
  rcases renamePath_cases (v := v) oldPath newPath with h0 | ⟨o, n, i, e, ho, hn, hfree, hi, he, h0⟩
  · refine iff_of_true (by rwa [h0]) fun e hl n hn hfree => ?_
    obtain ⟨p, rfl, hp⟩ := Option.bind_eq_some_iff.mp hl
    obtain ⟨q, rfl, hq⟩ := Option.bind_eq_some_iff.mp hn
    have hok := renamePath_succeeds hp hq hfree
    rw [h0] at hok
    cases hok
  · have hlookup : oldPath.bind v.lookup = some e := by
      obtain ⟨p, rfl, hp⟩ := Option.bind_eq_some_iff.mp ho
      simp [Vfs.lookup, findEntry, hp, hi, he]
    have hrename : Renaming Q v (.renamePath oldPath newPath) ↔ Q (e.rename n) := by
      refine ⟨fun h1 => h1 e hlookup n hn hfree, fun hq e' he' n' hn' _ => ?_⟩
      obtain rfl := Option.some.inj (hlookup.symm.trans he')
      obtain rfl := Option.some.inj (hn.symm.trans hn')
      exact hq
    rw [hrename, h0]
    refine ⟨fun hall => hall _ (mem_of_getElem? (i := i) ?_), fun hq x hx => ?_⟩
    · simp [Vfs.modify, he]
    obtain ⟨j, hj⟩ := mem_iff_getElem?.mp hx
    rw [Vfs.modify, getElem?_modify] at hj
    obtain ⟨e', he', rfl⟩ := Option.map_eq_some_iff.mp hj
    by_cases hij : i = j
    · rw [if_pos hij]
      subst hij
      rwa [Option.some.inj (he'.symm.trans he)]
    · rw [if_neg hij]
      exact h e' (mem_of_getElem? he')

theorem vfsStep_all (grants : Nat → Nat → Bool) (hr : EntryRule Q) (op : VfsOp) (h : v.All Q) :
    (vfsStep grants v op).All Q ↔ Renaming Q v op := by
  cases op with
  | createFile path src => exact iff_of_true ((createFile_edited path src).all hr h) trivial
  | createDirectory path => exact iff_of_true ((createDirectory_edited path).all hr h) trivial
  | createDeviceNode path info =>
    exact iff_of_true ((createDeviceNode_edited path info).all hr h) trivial
  | writeFile path src => exact iff_of_true ((writeFile_edited path src).all hr h) trivial
  | writeFileAt path offset src append =>
    exact iff_of_true ((writeFileAt_edited path offset src append).all hr h) trivial
  | truncateFile path size => exact iff_of_true ((truncateFile_edited path size).all hr h) trivial
  | removeFile path => exact iff_of_true (removeNode_all .file path h) trivial
  | removeDeviceNode path => exact iff_of_true (removeNode_all .device path h) trivial
  | renamePath oldPath newPath => exact renamePath_all oldPath newPath h

theorem all_along (grants : Nat → Nat → Bool) (hr : EntryRule Q) (ops : List VfsOp) (h : v.All Q) :
    Along (vfsStep grants) (fun v op => (vfsStep grants v op).All Q) v ops ↔
      Along (vfsStep grants) (Renaming Q) v ops :=
  Along.congr (I := Vfs.All Q) (fun _ op hv => vfsStep_all grants hr op hv) (fun _ _ _ hv => hv) ops h

end

section

variable (cap : Nat → Nat)

def NameFits (e : Entry) : Prop := e.name.length + 1 ≤ cap e.room

variable {cap}

theorem nameFits_rule (hcap : ∀ n, n ≤ cap n) : EntryRule (NameFits cap) where
  fresh n _ _ := hcap (n.length + 1)
  put _ _ _ _ h := h
  info _ _ h := h

instance : DecidablePred (NameFits cap) :=
    fun e => inferInstanceAs (Decidable (e.name.length + 1 ≤ cap e.room))

instance (v : Vfs) : Decidable (v.All (NameFits cap)) :=
    inferInstanceAs (Decidable (∀ e ∈ v.entries, _))

instance (v : Vfs) (op : VfsOp) : Decidable (Renaming (NameFits cap) v op) :=
  match op with
  | .renamePath oldPath newPath =>
    inferInstanceAs
      (Decidable (∀ e, oldPath.bind v.lookup = some e → ∀ n, newPath.bind normalizePath = some n →
      v.find n = none → NameFits cap (e.rename n)))
  | .createFile .. | .createDirectory _ | .createDeviceNode .. | .writeFile .. | .writeFileAt .. | .truncateFile ..
  | .removeFile _ | .removeDeviceNode _ => .isTrue trivial

end

def units16 (n : Nat) : Nat := (n + 15) / 16 * 16

def longerName : List VfsOp :=
  [.createDirectory (some [slash]), .createFile (some [slash, 0x61]) (.null 0),
    .renamePath (some [slash, 0x61]) (some (slash :: List.replicate 16 0x61))]

def blockName : List VfsOp :=
    longerName.take 2 ++ [.renamePath (some [slash, 0x61]) (some (slash :: List.replicate 14 0x61))]

end BlockOS.Fs
