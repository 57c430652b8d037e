import BlockOS.Fs.Edits

/-! The file system as a tree. -/

namespace BlockOS.Fs
open Words Paths Runs List
open NodeType (directory file)

abbrev Shape := List (List Byte × NodeType)

structure TreeShape (l : Shape) : Prop where
  normal : ∀ e ∈ l, Normalised e.1
  distinct : (l.map Prod.fst).Nodup
  parents : ∀ e ∈ l, e.1 ≠ [slash] → (parentOf e.1, directory) ∈ l

def Childless (l : Shape) (n : List Byte) : Prop := ∀ e ∈ l, e.1 ≠ [slash] → parentOf e.1 ≠ n

instance (l : Shape) (n : List Byte) : Decidable (Childless l n) :=
  inferInstanceAs (Decidable (∀ e ∈ l, _))

section

variable {n o : List Byte} {i : Nat}

theorem TreeShape.type_eq (h : TreeShape l) (ht : (n, t) ∈ l) (ht' : (n, t') ∈ l) : t = t' :=
  congrArg Prod.snd (inj_on_of_nodup_map h.distinct ht ht' rfl)

theorem TreeShape.childless (h : TreeShape l) (hn : (n, t) ∈ l) (ht : t ≠ .directory) :
    Childless l n := by
  rintro e he hroot rfl
  exact ht (h.type_eq hn (h.parents e he hroot))

theorem TreeShape.add (h : TreeShape l) (hn : Normalised n) (hnew : n ∉ l.map Prod.fst)
    (hp : n ≠ [slash] → (parentOf n, directory) ∈ l) : TreeShape (l ++ [(n, t)]) := by
  refine ⟨fun e he => ?_, ?_, fun e he hroot => ?_⟩
  · rcases mem_append.mp he with he | he
    · exact h.normal e he
    · exact mem_singleton.mp he ▸ hn
  · rw [map_append, nodup_append]
    refine ⟨h.distinct, nodup_singleton _, fun a ha b hb hab => hnew ?_⟩
    obtain rfl : b = n := mem_singleton.mp hb
    exact hab ▸ ha
  · rcases mem_append.mp he with he | he
    · exact mem_append_left _ (h.parents e he hroot)
    · obtain rfl := mem_singleton.mp he
      exact mem_append_left _ (hp hroot)

theorem TreeShape.erase (h : TreeShape l) (hi : l[i]? = some (n, t)) (hleaf : Childless l n) :
    TreeShape (l.eraseIdx i) := by
  have hsub := l.eraseIdx_sublist i
  refine ⟨fun e he => h.normal e (hsub.mem he), h.distinct.sublist (hsub.map _), fun e he hroot => ?_⟩
  obtain ⟨j, hj⟩ := getElem?_of_mem (h.parents e (hsub.mem he) hroot)
  refine mem_eraseIdx_iff_getElem?.mpr ⟨j, fun hij => ?_, hj⟩
  subst hij
  have h0 := congrArg Prod.fst (Option.some.inj (hj.symm.trans hi))
  exact hleaf e (hsub.mem he) hroot h0

theorem TreeShape.rename (h : TreeShape l) (hi : l[i]? = some (o, t)) (hleaf : Childless l o)
    (hn : Normalised n) (hnew : n ∉ l.map Prod.fst) (hp : (parentOf n, directory) ∈ l)
      (hpo : parentOf n ≠ o) :
    TreeShape (l.set i (n, t)) := by
  have hlt : i < l.length := (List.getElem?_eq_some_iff.mp hi).1
  -- all other entries stay
  have hstay : ∀ e ∈ l, e.1 ≠ o → e ∈ l.set i (n, t) := by
    intro e he heo
    obtain ⟨j, hj⟩ := List.getElem?_of_mem he
    refine List.mem_of_getElem? (i := j) ?_
    rw [List.getElem?_set_ne, hj]
    rintro rfl
    exact heo (congrArg Prod.fst (Option.some.inj (hj.symm.trans hi)))
  refine ⟨fun e he => ?_, ?_, fun e he hne => ?_⟩
  · rcases List.mem_or_eq_of_mem_set he with he | rfl
    · exact h.normal e he
    · exact hn
  · rw [List.map_set]
    exact h.distinct.set hnew
  rcases List.mem_or_eq_of_mem_set he with he | rfl
  · exact hstay _ (h.parents e he hne) (hleaf e he hne)
  · exact hstay _ hp hpo

end

def Vfs.shape (v : Vfs) : Shape := v.entries.map fun e => (e.name, e.type)

variable {v v' : Vfs} {n : List Byte} {i : Nat}

theorem find_eq_none : v.find n = none ↔ n ∉ v.shape.map Prod.fst := by
  unfold Vfs.find Vfs.shape
  rw [findIdx?_eq_none_iff]
  simp only [map_map, mem_map, decide_eq_false_iff_not, Function.comp]
  exact ⟨fun h ⟨e, he, hn⟩ => h e he hn, fun h e he hn => h ⟨e, he, hn⟩⟩

theorem shape_getElem? (h : v.entries[i]? = some e) : v.shape[i]? = some (e.name, e.type) := by
  unfold Vfs.shape
  rw [getElem?_map, h]
  rfl

theorem setData_shape (data : Option Buf) (size : BitVec 32) :
    (v.modify i (Entry.setData data size)).shape = v.shape := by
  unfold Vfs.modify Vfs.shape
  refine ext_getElem? fun j => ?_
  rw [getElem?_map, getElem?_map, getElem?_modify]
  cases v.entries[j]? with
  | none => rfl
  | some e =>
    by_cases hij : i = j
    · simp [hij, Entry.setData]
    · simp [hij]

theorem removeNode_cases (t : NodeType) (path : Option (List Byte)) :
    (removeNode t path v).2 = v ∨ ∃ i n, v.shape[i]? = some (n, t) ∧ (removeNode t path v).2 =
      v.unlink i := by
  unfold removeNode
  split
  · exact .inl rfl
  split
  · exact .inl rfl
  split
  · exact .inl rfl
  case h_2 i _ =>
    split
    · exact .inl rfl
    case h_2 e he =>
      split
      · exact .inl rfl
      case isFalse ht => exact .inr ⟨i, e.name, not_not.mp ht ▸ shape_getElem? he, rfl⟩

theorem unlink_shape : (v.unlink i).shape = v.shape.eraseIdx i := by
  unfold Vfs.unlink Vfs.shape
  exact (eraseIdx_map ..).symm

theorem rename_shape (he : v.entries[i]? = some e) :
    (v.modify i (Entry.rename n)).shape = v.shape.set i (n, e.type) := by
  obtain ⟨hlt, rfl⟩ := List.getElem?_eq_some_iff.mp he
  unfold Vfs.modify Vfs.shape
  refine List.ext_getElem? fun j => ?_
  rw [List.getElem?_map, List.getElem?_modify, List.getElem?_set, List.getElem?_map]
  by_cases hij : i = j
  · subst hij
    simp [hlt, Entry.rename]
  · cases v.entries[j]? <;> simp [hij]

theorem renamePath_cases (oldPath newPath : Option (List Byte)) :
    renamePath oldPath newPath v = (false, v) ∨ ∃ o n i e, oldPath.bind normalizePath = some o ∧
      newPath.bind normalizePath = some n ∧ v.find n = none ∧ v.find o = some i ∧
        v.entries[i]? = some e ∧
      renamePath oldPath newPath v = (true, { v.modify i (Entry.rename n) with
        overrun := v.overrun + (n.length + 1 - e.room) }) := by
  unfold renamePath
  split
  case h_1 p q =>
    split
    case h_1 o n ho hn =>
      have hno := normalised_of_normalizePath ho
      have hnn := normalised_of_normalizePath hn
      rw [findEntry_normalised hno, findEntry_normalised hnn]
      split
      · exact .inl rfl
      case h_2 i hi =>
        split
        · exact .inl rfl
        case isFalse hnew =>
          split
          · exact .inl rfl
          split
          · exact .inl rfl
          case h_2 e he =>
            exact .inr ⟨o, n, i, e, ho, hn, Option.not_isSome_iff_eq_none.mp hnew, hi, he, rfl⟩
    case h_2 => exact .inl rfl
  case h_2 => exact .inl rfl

/-- The file system is a tree, and all its names are what was written. -/
structure IsTree (v : Vfs) : Prop where
  intact : v.overrun = 0
  tree : TreeShape v.shape

def UnderDirectory (v : Vfs) (path : Option (List Byte)) : Prop :=
  ∀ n, path.bind normalizePath = some n → v.find n = none → ∀ e ∈ v.shape, e.1 = parentOf n →
    e.2 = .directory

structure Renames (v : Vfs) (o n : List Byte) : Prop where
  childless : Childless v.shape o
  parent : (parentOf n, directory) ∈ v.shape ∧ parentOf n ≠ o
  room : ∀ e ∈ v.entries, e.name = o → n.length + 1 ≤ e.room

/-- The call keeps the tree: an entry is created only in a directory, a write does not wrap, and
only leaves are renamed. -/
def TreeSafe (v : Vfs) : VfsOp → Prop
  | .createFile path _ | .createDirectory path | .createDeviceNode path _ | .writeFile path _ | .truncateFile path _ =>
    UnderDirectory v path
  | .writeFileAt path offset src append =>
    UnderDirectory v path ∧ (append = true ∨ offset.toNat + src.size.toNat < 2 ^ 64)
  | .removeFile _ | .removeDeviceNode _ => True
  | .renamePath oldPath newPath => ∀ o, oldPath.bind normalizePath = some o → (v.find o).isSome = true →
      ∀ n, newPath.bind normalizePath = some n → v.find n = none → Renames v o n

theorem Edited.tree {wraps : Prop} (he : Edited grants path wraps v v') (hw : ¬ wraps)
    (h : IsTree v) (hs : UnderDirectory v path) : IsTree v' := by
  refine ⟨(he.overrun.resolve_right hw).trans h.intact, ?_⟩
  have hedit := he.entries
  unfold Vfs.shape
  generalize v'.entries = l at hedit
  cases hedit with
  | same => exact h.tree
  | put i id src =>
    have hshape := setData_shape (v := v) (i := i) (src.buffer id) src.size
    exact Eq.subst (motive := TreeShape) hshape.symm h.tree
  | added p e hp hc =>
    have hnorm := normalised_of_normalizePath hc.norm
    rw [map_append]
    refine h.tree.add hnorm (find_eq_none.mp hc.absent) fun hroot => ?_
    have hparent := hc.parent.resolve_left hroot
    unfold parentExists at hparent
    rw [hnorm.normalizePath] at hparent
    dsimp only at hparent
    rw [if_neg hroot, findEntry_normalised hnorm.parent] at hparent
    obtain ⟨i, hi⟩ := Option.isSome_iff_exists.mp hparent
    obtain ⟨e', he', hname⟩ := find_spec hi
    have hmem := mem_of_getElem? (shape_getElem? he')
    subst hp
    have hdir : e'.type = .directory := hs _ hc.norm hc.absent _ hmem hname
    rwa [hname, hdir] at hmem

theorem removeNode_tree (ht : t ≠ .directory) (path : Option (List Byte)) (h : IsTree v) :
    IsTree (removeNode t path v).2 := by
  rcases removeNode_cases (v := v) t path with h0 | ⟨i, n, hi, h0⟩
  · rw [h0]
    exact h
  rw [h0]
  refine ⟨h.intact, ?_⟩
  rw [unlink_shape]
  exact h.tree.erase hi (h.tree.childless (mem_of_getElem? hi) ht)

theorem renamePath_tree (oldPath newPath : Option (List Byte)) (h : IsTree v)
    (hs : TreeSafe v (.renamePath oldPath newPath)) : IsTree (renamePath oldPath newPath v).2 := by
  rcases renamePath_cases (v := v) oldPath newPath with h0 | ⟨o, n, i, e, ho, hn, hnew, hi, he, h0⟩
  · rw [h0]
    exact h
  have hren := hs o ho (by rw [hi]; rfl) n hn hnew
  obtain ⟨e', he', hname⟩ := find_spec hi
  obtain rfl := Option.some.inj (he.symm.trans he')
  obtain ⟨q, -, hq⟩ := Option.bind_eq_some_iff.mp hn
  have hroom := hren.room e (mem_of_getElem? he) hname
  rw [h0]
  refine ⟨?_, ?_⟩
  · dsimp only
    rw [h.intact, Nat.sub_eq_zero_of_le hroom]
  · have hshape : TreeShape (v.modify i (Entry.rename n)).shape := by
      rw [rename_shape he]
      refine h.tree.rename (shape_getElem? he) ?_ (normalised_of_normalizePath hq) (find_eq_none.mp hnew)
        hren.parent.1 ?_
      · exact hname ▸ hren.childless
      · exact hname ▸ hren.parent.2
    exact hshape

variable (grants) in
theorem vfsStep_tree (op : VfsOp) (h : IsTree v) (hs : TreeSafe v op) :
    IsTree (vfsStep grants v op) := by
  cases op with
  | createFile path src => exact (createFile_edited path src).tree not_false h hs
  | createDirectory path => exact (createDirectory_edited path).tree not_false h hs
  | createDeviceNode path info => exact (createDeviceNode_edited path info).tree not_false h hs
  | writeFile path src => exact (writeFile_edited path src).tree not_false h hs
  | writeFileAt path offset src append =>
    exact (writeFileAt_edited path offset src append).tree (not_not.mpr hs.2) h hs.1
  | truncateFile path size => exact (truncateFile_edited path size).tree not_false h hs
  | removeFile path => exact removeNode_tree (t := .file) nofun path h
  | removeDeviceNode path => exact removeNode_tree (t := .device) nofun path h
  | renamePath oldPath newPath => exact renamePath_tree oldPath newPath h hs

theorem rootOnly_tree : IsTree rootOnly := by
  refine ⟨rfl, ⟨fun e he => ?_, by decide, fun e he hroot => ?_⟩⟩
  · obtain rfl := mem_singleton.mp he
    exact (by decide : Normalised [slash])
  · obtain rfl := mem_singleton.mp he
    exact absurd rfl hroot

variable (grants) in
theorem isTree_along (ops : List VfsOp) (hs : Along (vfsStep grants) TreeSafe rootOnly ops) :
    IsTree (runFrom (vfsStep grants) rootOnly ops) :=
  Along.invariant (I := IsTree) (fun _ op h hop => vfsStep_tree grants op h hop) rootOnly_tree hs

instance (v : Vfs) (path : Option (List Byte)) : Decidable (UnderDirectory v path) :=
  inferInstanceAs (Decidable (∀ n, path.bind normalizePath = some n → v.find n = none →
    ∀ e ∈ v.shape, _ → _))

instance (v : Vfs) (o n : List Byte) : Decidable (Renames v o n) :=
  decidable_of_iff (Childless v.shape o ∧ ((parentOf n, directory) ∈ v.shape ∧ parentOf n ≠ o) ∧
      ∀ e ∈ v.entries, e.name = o → n.length + 1 ≤ e.room)
    ⟨fun ⟨h1, h2, h3⟩ => ⟨h1, h2, h3⟩, fun h => ⟨h.childless, h.parent, h.room⟩⟩

instance (v : Vfs) (op : VfsOp) : Decidable (TreeSafe v op) :=
  match op with
  | .createFile path _ | .createDirectory path | .createDeviceNode path _ | .writeFile path _ | .truncateFile path _ =>
    inferInstanceAs (Decidable (UnderDirectory v path))
  | .writeFileAt path offset src append =>
    inferInstanceAs
      (Decidable (UnderDirectory v path ∧ (append = true ∨ offset.toNat + src.size.toNat < 2 ^ 64)))
  | .removeFile _ | .removeDeviceNode _ => .isTrue trivial
  | .renamePath oldPath newPath =>
    inferInstanceAs (Decidable (∀ o, oldPath.bind normalizePath = some o → (v.find o).isSome = true →
      ∀ n, newPath.bind normalizePath = some n → v.find n = none → Renames v o n))

def directoryInUse : List VfsOp :=
  [.createDirectory (some [0x2f, 0x61]), .writeFile (some [0x2f, 0x61, 0x2f, 0x62]) (.bytes [1, 2]),
    .renamePath (some [0x61, 0x2f, 0x62]) (some [0x61, 0x2f, 0x63]),
    .writeFileAt (some [0x2f, 0x61, 0x2f, 0x63]) 1 (.bytes [3, 4]) false,
    .createFile (some [0x2f, 0x64]) (.null 0), .removeFile (some [0x2f, 0x64])]

theorem isTree_directoryInUse :
    (runFrom (vfsStep fun _ _ => true) rootOnly directoryInUse).shape.length = 3 ∧
      IsTree (runFrom (vfsStep fun _ _ => true) rootOnly directoryInUse) :=
  ⟨by decide +kernel, isTree_along (fun _ _ => true) directoryInUse (by decide +kernel)⟩

def fileInFile : List VfsOp :=
  [.createFile (some [0x2f, 0x61]) (.null 0), .createFile (some [0x2f, 0x61, 0x2f, 0x62]) (.null 0)]

theorem file_below_file : ¬ IsTree (runFrom (vfsStep fun _ _ => true) rootOnly fileInFile) := by
  have hmem : ([0x2f, 0x61, 0x2f, 0x62], file) ∈
      (runFrom (vfsStep fun _ _ => true) rootOnly fileInFile).shape := by
    decide +kernel
  have hparent : (parentOf [0x2f, 0x61, 0x2f, 0x62], directory) ∉
      (runFrom (vfsStep fun _ _ => true) rootOnly fileInFile).shape := by
    decide +kernel
  generalize runFrom (vfsStep fun _ _ => true) rootOnly fileInFile = v at *
  exact fun h => hparent (h.tree.parents _ hmem (by decide))

end BlockOS.Fs
