import BlockOS.Fs.Vfs
import BlockOS.Lib.Runs

/-! What the calls of the file system do to its list of entries. -/

namespace BlockOS.Fs
open Words Paths Runs List

section

variable {v : Vfs} {n : List Byte} {i : Nat}

theorem find_spec (h : v.find n = some i) : ∃ e, v.entries[i]? = some e ∧ e.name = n := by
  unfold Vfs.find at h
  obtain ⟨hlt, hi, -⟩ := findIdx?_eq_some_iff_getElem.mp h
  exact ⟨v.entries[i], getElem?_eq_getElem hlt, of_decide_eq_true hi⟩

theorem findEntry_normalised (h : Normalised n) : findEntry n v = v.find n := by
  unfold findEntry
  rw [h.normalizePath]

theorem modify_concat {α : Type} (l : List α) (a : α) (g : α → α) :
    (l ++ [a]).modify l.length g = l ++ [g a] := by
  induction l with
  | nil => rfl
  | cons b l ih => exact congrArg (List.cons b) ih

theorem eraseIdx_concat {α : Type} (l : List α) (a : α) : (l ++ [a]).eraseIdx l.length = l := by
  rw [eraseIdx_append_of_length_le le_rfl, Nat.sub_self]
  simp

end

def Source.buffer (src : Source) (id : Nat) : Option Buf :=
    if src.size = 0 then none else some ⟨id, src.toList⟩

def bufferIds (data : Option Buf) : List Nat := (data.map Buf.id).toList

def newEntry (n : List Byte) (t : NodeType) (a : Nat) : Entry :=
  { name := n, room := n.length + 1, nameId := a, nodeId := a + 1, type := t }

def Vfs.added (v : Vfs) (e : Entry) : Vfs :=
  { v with allocs := v.allocs + 2, entries := v.entries ++ [e], live := (v.allocs + 1) :: v.allocs :: v.live }

structure EntryRule (Q : Entry → Prop) : Prop where
  fresh : ∀ n t a, Q (newEntry n t a)
  put : ∀ e id (src : Source), src.missing = false → Q e → Q (e.setData (src.buffer id) src.size)
  info : ∀ e i, Q e → Q (e.setInfo i)

structure Creatable (grants : Nat → Nat → Bool) (v : Vfs) (p n : List Byte) : Prop where
  norm : normalizePath p = some n
  absent : v.find n = none
  parent : n = [slash] ∨ parentExists n v = true
  name : grants v.allocs (n.length + 1) = true
  entry : grants (v.allocs + 1) entrySize = true

section

variable {grants : Nat → Nat → Bool} {v : Vfs}

theorem alloc_granted (h : grants v.allocs size = true) :
    alloc grants size v =
      (some v.allocs, { v with allocs := v.allocs + 1, live := v.allocs :: v.live }) := if_pos h

theorem alloc_refused (h : grants v.allocs size = false) :
    alloc grants size v = (none, { v with allocs := v.allocs + 1 }) := if_neg (Bool.eq_false_iff.mp h)

variable {p : List Byte}

theorem Creatable.isNew (h : Creatable grants v p n) : (findEntry n v).isSome = false := by
  rw [findEntry_normalised (normalised_of_normalizePath h.norm), h.absent]
  rfl

theorem Creatable.hasParent (h : Creatable grants v p n) :
    ¬ (n ≠ [slash] ∧ parentExists n v = false) := by
  rintro ⟨hne, hp⟩
  rw [h.parent.resolve_left hne] at hp
  cases hp

theorem Creatable.allocateEntry (h : Creatable grants v p n) (t : NodeType) :
    allocateEntry grants p t v = (some v.entries.length,
      v.added (newEntry n t v.allocs)) := by
  simp [Fs.allocateEntry, h.norm, h.isNew, h.hasParent, alloc, h.name, h.entry, Vfs.added, newEntry]

inductive Refused (grants : Nat → Nat → Bool) (v : Vfs) (p : List Byte) : Nat → Prop where
  | path (h : normalizePath p = none) : Refused grants v p v.allocs
  | found (n : List Byte) (hn : normalizePath p = some n) (h : (findEntry n v).isSome = true) : Refused grants v p v.allocs
  | parent (n : List Byte) (hn : normalizePath p = some n) (hnew : (findEntry n v).isSome = false)
      (h : n ≠ [slash] ∧ parentExists n v = false) : Refused grants v p v.allocs
  | name (n : List Byte) (hn : normalizePath p = some n) (hnew : (findEntry n v).isSome = false)
      (hparent : ¬ (n ≠ [slash] ∧ parentExists n v = false)) (h : grants v.allocs (n.length + 1) =
        false) :
      Refused grants v p (v.allocs + 1)
  | entry (n : List Byte) (hn : normalizePath p = some n) (hnew : (findEntry n v).isSome = false)
      (hparent : ¬ (n ≠ [slash] ∧ parentExists n v = false))
        (hname : grants v.allocs (n.length + 1) = true)
      (h : grants (v.allocs + 1) entrySize = false) : Refused grants v p (v.allocs + 2)

theorem refused_of_not_creatable (h : ∀ n, ¬ Creatable grants v p n) : ∃ k, Refused grants v p k := by
  cases hn : normalizePath p with
  | none => exact ⟨_, .path hn⟩
  | some n =>
    by_cases hnew : (findEntry n v).isSome = true
    · exact ⟨_, .found n hn hnew⟩
    rw [Bool.not_eq_true] at hnew
    by_cases hparent : n ≠ [slash] ∧ parentExists n v = false
    · exact ⟨_, .parent n hn hnew hparent⟩
    by_cases hname : grants v.allocs (n.length + 1) = true
    · refine ⟨_, .entry n hn hnew hparent hname (Bool.eq_false_iff.mpr fun hentry => h n ?_)⟩
      have hfind := findEntry_normalised (v := v) (normalised_of_normalizePath hn)
      rw [hfind, Option.isSome_eq_false_iff, Option.isNone_iff_eq_none] at hnew
      exact ⟨hn, hnew, by grind, hname, hentry⟩
    · exact ⟨_, .name n hn hnew hparent (Bool.eq_false_iff.mpr hname)⟩

theorem Refused.allocateEntry (h : Refused grants v p k) (t : NodeType) :
    allocateEntry grants p t v = (none, { v with allocs := k }) := by
  cases h with
  | path hn => simp [Fs.allocateEntry, hn]
  | found n hn h0 => simp [Fs.allocateEntry, hn, h0]
  | parent n hn hnew h0 => simp [Fs.allocateEntry, hn, hnew, h0]
  | name n hn hnew hparent h0 => simp [Fs.allocateEntry, hn, hnew, hparent, alloc, h0]
  | entry n hn hnew hparent hname h0 =>
    simp [Fs.allocateEntry, hn, hnew, hparent, alloc, hname, h0, Vfs.free]

def newFile (n : List Byte) (src : Source) (a : Nat) : Entry :=
  (newEntry n .file a).setData (src.buffer (a + 2)) src.size

theorem createFile_cases (path : Option (List Byte)) (src : Source) :
    (∃ k, createFile grants path src v = (false, { v with allocs := k })) ∨
      ∃ p n k, path = some p ∧ src.missing = false ∧ Creatable grants v p n ∧
        createFile grants path src v =
        (true, { v.added (newFile n src v.allocs) with
          allocs := k, live := bufferIds (src.buffer (v.allocs + 2)) ++
            (v.added (newFile n src v.allocs)).live }) := by
  cases path with
  | none => exact .inl ⟨v.allocs, rfl⟩
  | some p =>
    by_cases hmiss : src.missing = true
    · exact .inl ⟨v.allocs, by simp [createFile, hmiss]⟩
    by_cases hnew : (findEntry p v).isSome = true
    · exact .inl ⟨v.allocs, by simp [createFile, hmiss, hnew]⟩
    by_cases hc : ∃ n, Creatable grants v p n
    · obtain ⟨n, hc⟩ := hc
      have halloc := hc.allocateEntry .file
      by_cases hsize : src.size = 0#32
      · refine .inr ⟨p, n, v.allocs + 2, rfl, by simpa using hmiss, hc, ?_⟩
        simp [createFile, hmiss, hnew, halloc, hsize, Vfs.modify, Vfs.added, modify_concat, newFile,
          Source.buffer, bufferIds]
      by_cases hdata : grants (v.allocs + 2) src.size.toNat = true
      · refine .inr ⟨p, n, v.allocs + 3, rfl, by simpa using hmiss, hc, ?_⟩
        simp [createFile, hmiss, hnew, halloc, hsize, alloc, hdata, Vfs.modify, Vfs.added,
          modify_concat, newFile, Source.buffer, bufferIds]
      · refine .inl ⟨v.allocs + 3, ?_⟩
        simp [createFile, hmiss, hnew, halloc, hsize, alloc, hdata, Vfs.unlink, Vfs.added,
          eraseIdx_concat, freeEntry, freeData, newEntry]
    · obtain ⟨k, hr⟩ := refused_of_not_creatable (not_exists.mp hc)
      have halloc := hr.allocateEntry .file
      exact .inl ⟨k, by simp [createFile, hmiss, hnew, halloc]⟩

def Vfs.put (v : Vfs) (i : Nat) (src : Source) (id : Nat) : Vfs :=
    v.modify i (Entry.setData (src.buffer id) src.size)

theorem writeFile_found_cases {p : List Byte} {i : Nat} {e : Entry} (src : Source)
    (hmiss : src.missing = false)
    (hi : findEntry p v = some i) (he : v.entries[i]? = some e) :
    writeFile grants (some p) src v =
      if e.type ≠ .file then (false, v)
      else if src.size = 0 then (true, { v with live := freeData e.data v.live }.put i src 0)
      else if grants v.allocs src.size.toNat = true then
        (true, { v with allocs := v.allocs + 1, live := freeData e.data (v.allocs :: v.live) }.put i
          src v.allocs)
      else (false, { v with allocs := v.allocs + 1 }) := by
  by_cases ht : e.type = .file
  · by_cases hsize : src.size = 0#32
    · simp [writeFile, hmiss, hi, he, ht, hsize, Vfs.put, Source.buffer]
    · by_cases hg : grants v.allocs src.size.toNat = true
      · simp [writeFile, hmiss, hi, he, ht, hsize, alloc, hg, Vfs.put, Source.buffer]
      · simp [writeFile, hmiss, hi, he, ht, hsize, alloc, hg]
  · simp [writeFile, hmiss, hi, he, ht]

theorem writeFile_cases (path : Option (List Byte)) (src : Source) :
    (∃ k, writeFile grants path src v = (false, { v with allocs := k })) ∨
    writeFile grants path src v = createFile grants path src v ∨
    ∃ i id k, ∃ e : Entry, src.missing = false ∧ v.entries[i]? = some e ∧ writeFile grants path src v =
      (true, { v with allocs := k, live := freeData e.data (bufferIds (src.buffer id) ++ v.live) }.put i src id) := by
  cases path with
  | none => exact .inl ⟨v.allocs, rfl⟩
  | some p =>
    by_cases hmiss : src.missing = true
    · exact .inl ⟨v.allocs, by simp [writeFile, hmiss]⟩
    rw [Bool.not_eq_true] at hmiss
    cases hi : findEntry p v with
    | none => exact .inr (.inl (by simp [writeFile, hmiss, hi]))
    | some i =>
      cases he : v.entries[i]? with
      | none => exact .inl ⟨v.allocs, by simp [writeFile, hmiss, hi, he]⟩
      | some e =>
        rw [writeFile_found_cases src hmiss hi he]
        split
        · exact .inl ⟨v.allocs, rfl⟩
        split
        case isTrue hzero =>
          exact .inr (.inr ⟨i, 0, v.allocs, e, hmiss, he,
            by simp [Source.buffer, bufferIds, hzero]⟩)
        case isFalse hzero =>
          split
          · exact .inr (.inr ⟨i, v.allocs, v.allocs + 1, e, hmiss, he,
              by rw [Source.buffer, if_neg hzero]; rfl⟩)
          · exact .inl ⟨v.allocs + 1, rfl⟩

theorem allocateEntry_cases (p : List Byte) (t : NodeType) :
    (∃ k, allocateEntry grants p t v = (none, { v with allocs := k })) ∨
    ∃ n, Creatable grants v p n ∧
      allocateEntry grants p t v = (some v.entries.length, v.added (newEntry n t v.allocs)) := by
  by_cases hc : ∃ n, Creatable grants v p n
  · obtain ⟨n, hc⟩ := hc
    exact .inr ⟨n, hc, hc.allocateEntry t⟩
  · obtain ⟨k, hr⟩ := refused_of_not_creatable (not_exists.mp hc)
    exact .inl ⟨k, hr.allocateEntry t⟩

theorem createDirectory_cases (path : Option (List Byte)) :
    (∃ k, createDirectory grants path v = (false, { v with allocs := k })) ∨
    ∃ p n, path = some p ∧ Creatable grants v p n ∧
      createDirectory grants path v = (true, v.added (newEntry n .directory v.allocs)) := by
  cases path with
  | none => exact .inl ⟨v.allocs, rfl⟩
  | some p =>
    by_cases hnew : (findEntry p v).isSome = true
    · exact .inl ⟨v.allocs, by simp [createDirectory, hnew]⟩
    rcases @allocateEntry_cases grants v p .directory with ⟨k, h0⟩ | ⟨n, hc, h0⟩
    · exact .inl ⟨k, by simp [createDirectory, hnew, h0]⟩
    · exact .inr ⟨p, n, rfl, hc, by simp [createDirectory, hnew, h0]⟩

def startOf (append : Bool) (e : Entry) (offset : Word) : Word :=
    if append then e.size.setWidth 64 else offset

def finishOf (append : Bool) (e : Entry) (offset : Word) (src : Source) : Word :=
  startOf append e offset + src.size.setWidth 64

def newSizeOf (append : Bool) (e : Entry) (offset : Word) (src : Source) : Nat :=
  max (finishOf append e offset src).toNat e.size.toNat

def overlaid (append : Bool) (e : Entry) (offset : Word) (src : Source) : Source :=
  .bytes (overlay e.contents (startOf append e offset) src.toList (newSizeOf append e offset src))

def straysOf (append : Bool) (e : Entry) (offset : Word) (src : Source) : Nat :=
  strayStores (startOf append e offset) src.size.toNat (newSizeOf append e offset src)

def Wraps (append : Bool) (e : Entry) (offset : Word) (src : Source) : Prop :=
  2 ^ 64 ≤ (startOf append e offset).toNat + src.size.toNat

theorem length_overlay (old : List Byte) (base : Word) (data : List Byte) (size : Nat) :
    (overlay old base data size).length = size := by
  simp [overlay]

theorem size_overlaid (h : newSizeOf append e offset src < 2 ^ 32) :
    (overlaid append e offset src).size.toNat = newSizeOf append e offset src := by
  unfold overlaid Source.size
  dsimp only
  rw [length_overlay, BitVec.toNat_ofNat, Nat.mod_eq_of_lt h]

def Vfs.copied (v : Vfs) (append : Bool) (e : Entry) (offset : Word) (src : Source) : Vfs :=
  { v with allocs := v.allocs + 2, overrun := v.overrun + straysOf append e offset src }

theorem writeEntryAt_eq (hi : findEntry p v = some i)
    (he : v.entries[i]? = some e) (ht : e.type = .file) (offset : Word) (src : Source) (append : Bool) :
    writeEntryAt grants p offset src append e v =
      if (finishOf append e offset src).toNat > 0xffffffff then (none, v)
      else if newSizeOf append e offset src = 0 then
        (some (finishOf append e offset src),
          { v with live := freeData e.data v.live }.put i (.null 0) 0)
      else if grants v.allocs (newSizeOf append e offset src) = false then
        (none, { v with allocs := v.allocs + 1 })
      else if grants (v.allocs + 1) (newSizeOf append e offset src) = false then
        (none, v.copied append e offset src)
      else (some (finishOf append e offset src), { v.copied append e offset src with
          live := (freeData e.data ((v.allocs + 1) :: v.allocs :: v.live)).erase v.allocs
        }.put i (overlaid append e offset src) (v.allocs + 1)) := by
  have hesize := e.size.isLt
  unfold writeEntryAt
  change (if (finishOf append e offset src).toNat > 0xffffffff then (none, v) else _) = _
  by_cases hbig : (finishOf append e offset src).toNat > 0xffffffff
  · rw [if_pos hbig, if_pos hbig]
  rw [if_neg hbig, if_neg hbig]
  change (if newSizeOf append e offset src = 0 then _ else _) = _
  by_cases hzero : newSizeOf append e offset src = 0
  · rw [if_pos hzero, if_pos hzero]
    have hw := @writeFile_found_cases grants v p i e (.null 0) rfl hi he
    rw [if_neg (not_not.mpr ht), if_pos (show (Source.null 0).size = 0 from rfl)] at hw
    rw [hw]
    rfl
  rw [if_neg hzero, if_neg hzero]
  by_cases hbuf : grants v.allocs (newSizeOf append e offset src) = true
  · erw [alloc_granted hbuf]
    have hsize : (overlaid append e offset src).size.toNat = newSizeOf append e offset src :=
      size_overlaid (by unfold newSizeOf; omega)
    have hne : (overlaid append e offset src).size ≠ 0 := by
      intro h0
      rw [h0] at hsize
      exact hzero hsize.symm
    have hw := @writeFile_found_cases grants { v with
        allocs := v.allocs + 1, live := v.allocs :: v.live, overrun :=
          v.overrun + straysOf append e offset src } p i e
      (overlaid append e offset src) rfl hi he
    rw [if_neg (not_not.mpr ht), if_neg hne, hsize] at hw
    change (let r := writeFile grants (some p) (overlaid append e offset src) { v with
        allocs := v.allocs + 1, live := v.allocs :: v.live, overrun :=
          v.overrun + straysOf append e offset src };
      (if r.1 then some (finishOf append e offset src) else none, r.2.free v.allocs)) = _
    rw [if_neg (Bool.eq_false_iff.not_left.mpr hbuf)]
    by_cases hg : grants (v.allocs + 1) (newSizeOf append e offset src) = true
    · rw [hw.trans (if_pos hg), if_neg (Bool.eq_false_iff.not_left.mpr hg)]
      rfl
    · rw [hw.trans (if_neg hg), if_pos (Bool.eq_false_iff.mpr hg)]
      simp [Vfs.free, Vfs.copied]
  · rw [Bool.not_eq_true] at hbuf
    erw [alloc_refused hbuf]
    rw [if_pos hbuf]

def Vfs.withFile (v : Vfs) (n : List Byte) : Vfs :=
  v.added (newFile n (.null 0) v.allocs)

theorem Creatable.findEntry_none (h : Creatable grants v p n) : findEntry p v = none := by
  unfold findEntry
  rw [h.norm]
  exact h.absent

theorem Creatable.findEntry_withFile (h : Creatable grants v p n) :
    findEntry p (v.withFile n) = some v.entries.length := by
  have h0 := h.absent
  unfold Vfs.find at h0
  simp [findEntry, h.norm, Vfs.find, Vfs.withFile, Vfs.added, findIdx?_append, h0, newFile,
    newEntry, Entry.setData]

theorem withFile_last (n : List Byte) :
    (v.withFile n).entries[v.entries.length]? = some (newFile n (.null 0) v.allocs) := by
  simp [Vfs.withFile, Vfs.added]

theorem Creatable.createFile (h : Creatable grants v p n) :
    createFile grants (some p) (.null 0) v = (true, v.withFile n) := by
  simp [Fs.createFile, Source.missing, h.findEntry_none, h.allocateEntry .file, Source.size,
    Vfs.modify, modify_concat, Vfs.withFile, Vfs.added, newFile, Source.buffer]

theorem Creatable.writeFileAt (h : Creatable grants v p n) (hmiss : src.missing = false)
    (offset : Word) (append : Bool) :
    writeFileAt grants (some p) offset src append v =
      writeEntryAt grants p offset src append (newFile n (.null 0) v.allocs) (v.withFile n) := by
  have hensure : ensureFile grants p v = (true, v.withFile n) := by
    unfold ensureFile
    rw [h.findEntry_none]
    exact h.createFile
  simp [Fs.writeFileAt, hmiss, hensure, Vfs.lookup, h.findEntry_withFile, withFile_last, newFile,
    newEntry, Entry.setData]

theorem writeFileAt_found {p : List Byte} {i : Nat} {e : Entry} (hi : findEntry p v = some i)
    (he : v.entries[i]? = some e) (ht : e.type = .file) {src : Source} (hmiss : src.missing = false)
      (offset : Word)
    (append : Bool) :
    writeFileAt grants (some p) offset src append v = writeEntryAt grants p offset src append e v := by
  simp [writeFileAt, hmiss, ensureFile, Vfs.lookup, hi, he, ht]

theorem writeFileAt_cases (path : Option (List Byte)) (offset : Word) (src : Source)
    (append : Bool) :
    (∃ k, writeFileAt grants path offset src append v = (none, { v with allocs := k })) ∨
    (∃ p i e, path = some p ∧ src.missing = false ∧ findEntry p v = some i ∧
      v.entries[i]? = some e ∧ e.type = .file ∧
      writeFileAt grants path offset src append v = writeEntryAt grants p offset src append e v) ∨
    ∃ p n, path = some p ∧ src.missing = false ∧ Creatable grants v p n ∧
      writeFileAt grants path offset src append v =
        writeEntryAt grants p offset src append (newFile n (.null 0) v.allocs) (v.withFile n) := by
  cases path with
  | none => exact .inl ⟨v.allocs, rfl⟩
  | some p =>
    by_cases hmiss : src.missing = true
    · exact .inl ⟨v.allocs, by simp [writeFileAt, hmiss]⟩
    rw [Bool.not_eq_true] at hmiss
    cases hi : findEntry p v with
    | some i =>
      cases he : v.entries[i]? with
      | none => exact .inl ⟨v.allocs, by simp [writeFileAt, hmiss, ensureFile, Vfs.lookup, hi, he]⟩
      | some e =>
        by_cases ht : e.type = .file
        · exact .inr (.inl ⟨p, i, e, rfl, hmiss, hi, he, ht,
            writeFileAt_found hi he ht hmiss offset append⟩)
        · exact .inl ⟨v.allocs, by simp [writeFileAt, hmiss, ensureFile, Vfs.lookup, hi, he, ht]⟩
    | none =>
      by_cases hc : ∃ n, Creatable grants v p n
      · obtain ⟨n, hc⟩ := hc
        exact .inr (.inr ⟨p, n, rfl, hmiss, hc, hc.writeFileAt hmiss offset append⟩)
      obtain ⟨k, hr⟩ := refused_of_not_creatable (not_exists.mp hc)
      have hensure : ensureFile grants p v = (false, { v with allocs := k }) := by
        simp [ensureFile, hi, createFile, Source.missing, hr.allocateEntry]
      exact .inl ⟨k, by simp [writeFileAt, hmiss, hensure]⟩

end

inductive Edit (grants : Nat → Nat → Bool) (path : Option (List Byte)) (v : Vfs) : List Entry →
    Prop where
  | same : Edit grants path v v.entries
  | put (i id : Nat) (src : Source) (hmiss : src.missing = false) :
      Edit grants path v (v.entries.modify i (Entry.setData (src.buffer id) src.size))
  | added (p : List Byte) (e : Entry) (hp : path = some p) (hc : Creatable grants v p e.name)
      (he : ∀ Q, EntryRule Q → Q e) : Edit grants path v (v.entries ++ [e])

structure Edited (grants : Nat → Nat → Bool) (path : Option (List Byte)) (wraps : Prop)
    (v v' : Vfs) : Prop where
  entries : Edit grants path v v'.entries
  overrun : v'.overrun = v.overrun ∨ wraps

section

variable {Q : Entry → Prop} {grants : Nat → Nat → Bool} {v : Vfs}

theorem EntryRule.newFile (hr : EntryRule Q) (n : List Byte) (hmiss : src.missing = false)
    (a : Nat) :
    Q (newFile n src a) := hr.put _ (a + 2) src hmiss (hr.fresh n .file a)

theorem createFile_edited (path : Option (List Byte)) (src : Source) :
    Edited grants path False v (createFile grants path src v).2 := by
  rcases @createFile_cases grants v path src with ⟨k, h0⟩ | ⟨p, n, k, hp, hmiss, hc, h0⟩
  · rw [h0]
    exact ⟨.same, .inl rfl⟩
  · rw [h0]
    exact ⟨.added p _ hp hc fun Q hr => hr.newFile n hmiss _, .inl rfl⟩

theorem writeFile_edited (path : Option (List Byte)) (src : Source) :
    Edited grants path False v (writeFile grants path src v).2 := by
  rcases @writeFile_cases grants v path src with ⟨k, h0⟩ | h0 | ⟨i, id, k, e, hmiss, -, h0⟩
  · rw [h0]
    exact ⟨.same, .inl rfl⟩
  · rw [h0]
    exact createFile_edited path src
  · rw [h0]
    exact ⟨.put i id src hmiss, .inl rfl⟩

theorem truncateFile_edited (path : Option (List Byte)) (size : BitVec 32) :
    Edited grants path False v (truncateFile grants path size v).2 := by
  cases path with
  | none => exact ⟨.same, .inl rfl⟩
  | some p => exact writeFile_edited (some p) (.null size)

theorem createDirectory_edited (path : Option (List Byte)) :
    Edited grants path False v (createDirectory grants path v).2 := by
  rcases @createDirectory_cases grants v path with ⟨k, h0⟩ | ⟨p, n, hp, hc, h0⟩
  · rw [h0]
    exact ⟨.same, .inl rfl⟩
  · rw [h0]
    exact ⟨.added p _ hp hc fun Q hr => hr.fresh n _ _, .inl rfl⟩

theorem createDeviceNode_edited (path : Option (List Byte)) (info : DeviceNodeInfo) :
    Edited grants path False v (createDeviceNode grants path info v).2 := by
  cases path with
  | none => exact ⟨.same, .inl rfl⟩
  | some p =>
    unfold createDeviceNode
    dsimp only
    split
    · exact ⟨.same, .inl rfl⟩
    rcases @allocateEntry_cases grants v p .device with ⟨k, h0⟩ | ⟨n, hc, h0⟩
    · rw [h0]
      exact ⟨.same, .inl rfl⟩
    · rw [h0]
      refine ⟨?_, .inl rfl⟩
      dsimp only [Vfs.modify, Vfs.added]
      rw [modify_concat]
      exact .added p _ rfl hc fun Q hr => hr.info _ _ (hr.fresh n _ _)

theorem finishOf_toNat (append : Bool) (offset : Word)
    (hfit : (startOf append e offset).toNat + src.size.toNat < 2 ^ 64) :
    (finishOf append e offset src).toNat = (startOf append e offset).toNat + src.size.toNat := by
  have hs := src.size.isLt
  unfold finishOf
  rw [BitVec.toNat_add, BitVec.toNat_setWidth, Nat.mod_eq_of_lt (show src.size.toNat < 2 ^ 64 by omega),
    Nat.mod_eq_of_lt hfit]

theorem not_wraps (h : append = true ∨ offset.toNat + src.size.toNat < 2 ^ 64) :
    ¬ Wraps append e offset src := by
  have hs := src.size.isLt
  have he := e.size.isLt
  unfold Wraps startOf
  cases append with
  | true =>
    rw [if_pos rfl, BitVec.toNat_setWidth]
    omega
  | false => exact Nat.not_le.mpr (h.resolve_left nofun)

theorem straysOf_eq_zero (hfit : (finishOf append e offset src).toNat ≤ 0xffffffff) :
    straysOf append e offset src = 0 ↔ ¬ Wraps append e offset src := by
  have hs := src.size.isLt
  have he := e.size.isLt
  have hnew : newSizeOf append e offset src ≤ 0xffffffff := by
    unfold newSizeOf
    omega
  unfold straysOf strayStores
  rw [countP_eq_zero]
  constructor
  · -- a wrapped write begins above every buffer
    intro h hw
    unfold Wraps at hw
    have h0 := h 0 (mem_range.mpr (by omega))
    rw [BitVec.add_zero, decide_eq_true_iff] at h0
    omega
  · intro hw i hi
    have hi := mem_range.mp hi
    have hend := finishOf_toNat append offset (Nat.not_le.mp hw)
    have hle : (finishOf append e offset src).toNat ≤ newSizeOf append e offset src := Nat.le_max_left ..
    unfold Wraps at hw
    rw [decide_eq_true_iff, BitVec.toNat_add, BitVec.toNat_ofNat,
      Nat.mod_eq_of_lt (by omega : i < 2 ^ 64),
      Nat.mod_eq_of_lt (by omega)]
    omega

theorem writeEntryAt_edits {p : List Byte} {i : Nat} {e : Entry} (hi : findEntry p v = some i)
    (he : v.entries[i]? = some e) (ht : e.type = .file) (offset : Word) (src : Source) (append : Bool) :
    ((writeEntryAt grants p offset src append e v).2.entries = v.entries ∨ ∃ id src',
      Source.missing src' = false ∧ (writeEntryAt grants p offset src append e v).2.entries =
        v.entries.modify i (Entry.setData (src'.buffer id) src'.size)) ∧
    ((writeEntryAt grants p offset src append e v).2.overrun = v.overrun ∨
      Wraps append e offset src) := by
  rw [writeEntryAt_eq hi he ht]
  split
  · exact ⟨.inl rfl, .inl rfl⟩
  case isFalse hfit =>
    have hcopied : (v.copied append e offset src).overrun = v.overrun ∨ Wraps append e offset src := by
      by_cases hw : Wraps append e offset src
      · exact .inr hw
      · exact .inl (by rw [Vfs.copied, (straysOf_eq_zero (Nat.not_lt.mp hfit)).mpr hw]; rfl)
    split
    · exact ⟨.inr ⟨0, .null 0, rfl, rfl⟩, .inl rfl⟩
    split
    · exact ⟨.inl rfl, .inl rfl⟩
    split
    · exact ⟨.inl rfl, hcopied⟩
    · exact ⟨.inr ⟨_, overlaid append e offset src, rfl, rfl⟩, hcopied⟩

theorem writeFileAt_edited (path : Option (List Byte)) (offset : Word) (src : Source)
    (append : Bool) :
    Edited grants path (¬ (append = true ∨ offset.toNat + src.size.toNat < 2 ^ 64)) v
      (writeFileAt grants path offset src append v).2 := by
  rcases @writeFileAt_cases grants v path offset src append with
    ⟨k, h0⟩ | ⟨p, i, e, rfl, -, hi, he, ht, h0⟩ | ⟨p, n, hp, -, hc, h0⟩
  · rw [h0]
    exact ⟨.same, .inl rfl⟩
  · obtain ⟨hentries, hover⟩ := @writeEntryAt_edits grants v p i e hi he ht offset src append
    rw [h0]
    refine ⟨?_, hover.imp_right fun hout hfit => not_wraps hfit hout⟩
    rcases hentries with h1 | ⟨id, src', hmiss, h1⟩
    · exact h1 ▸ .same
    · exact h1 ▸ .put i id src' hmiss
  · obtain ⟨hentries, hover⟩ :=
      @writeEntryAt_edits grants (v.withFile n) p _ _ hc.findEntry_withFile (withFile_last n) rfl
      offset src append
    rw [h0]
    refine ⟨?_, hover.imp_right fun hout hfit => not_wraps hfit hout⟩
    rcases hentries with h1 | ⟨id, src', hmiss, h1⟩
    · exact h1 ▸ .added p _ hp hc fun Q hr => hr.newFile n rfl _
    · rw [h1]
      dsimp only [Vfs.withFile, Vfs.added]
      rw [modify_concat]
      exact .added p _ hp hc fun Q hr => hr.put _ id src' hmiss (hr.newFile n rfl _)

end

end BlockOS.Fs
