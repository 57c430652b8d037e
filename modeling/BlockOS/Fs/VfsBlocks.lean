import BlockOS.Fs.VfsEntries

/-! A call of the file system that returns false should leave everything as it was. -/

namespace BlockOS.Fs
open Words Paths Runs List

variable {grants : Nat → Nat → Bool} {v v' : Vfs}

/-- The entries are the same, no byte was stored outside of a block and no block was left or lost.
-/
structure Unchanged (v v' : Vfs) : Prop where
  entries : v'.entries = v.entries
  memory : v'.overrun = v.overrun
  live : v'.live = v.live

theorem Unchanged.of_allocs (h : ∃ k, v' = { v with allocs := k }) : Unchanged v v' := by
  obtain ⟨k, rfl⟩ := h
  exact ⟨rfl, rfl, rfl⟩

theorem createFile_failed (hfail : (createFile grants path src v).1 = false) :
    ∃ k, (createFile grants path src v).2 = { v with allocs := k } := by
  rcases @createFile_cases grants v path src with ⟨k, h0⟩ | ⟨p, n, k, -, -, -, h0⟩
  · exact ⟨k, by rw [h0]⟩
  · rw [h0] at hfail
    cases hfail

theorem createDirectory_failed (hfail : (createDirectory grants path v).1 = false) :
    ∃ k, (createDirectory grants path v).2 = { v with allocs := k } := by
  rcases @createDirectory_cases grants v path with ⟨k, h0⟩ | ⟨p, n, -, -, h0⟩
  · exact ⟨k, by rw [h0]⟩
  · rw [h0] at hfail
    cases hfail

theorem createDeviceNode_failed (hfail : (createDeviceNode grants path info v).1 = false) :
    ∃ k, (createDeviceNode grants path info v).2 = { v with allocs := k } := by
  cases path with
  | none => exact ⟨v.allocs, rfl⟩
  | some p =>
    unfold createDeviceNode at hfail ⊢
    dsimp only at hfail ⊢
    by_cases hnew : (findEntry p v).isSome = true
    · exact ⟨v.allocs, by rw [if_pos hnew]⟩
    rw [if_neg hnew] at hfail ⊢
    rcases @allocateEntry_cases grants v p .device with ⟨k, h0⟩ | ⟨n, -, h0⟩
    · exact ⟨k, by rw [h0]⟩
    · rw [h0] at hfail
      cases hfail

theorem writeFile_failed (hfail : (writeFile grants path src v).1 = false) :
    ∃ k, (writeFile grants path src v).2 = { v with allocs := k } := by
  rcases @writeFile_cases grants v path src with ⟨k, h0⟩ | h0 | ⟨i, id, k, e, -, -, h0⟩
  · exact ⟨k, by rw [h0]⟩
  · rw [h0] at hfail ⊢
    exact createFile_failed hfail
  · rw [h0] at hfail
    cases hfail

theorem removeNode_failed (hfail : (removeNode t path v).1 = false) : (removeNode t path v).2 = v := by
  revert hfail
  unfold removeNode
  split
  · exact fun _ => rfl
  split
  · exact fun _ => rfl
  split
  · exact fun _ => rfl
  split
  · exact fun _ => rfl
  split
  · exact fun _ => rfl
  · intro hfail
    cases hfail

theorem renamePath_failed (hfail : (renamePath oldPath newPath v).1 = false) :
    (renamePath oldPath newPath v).2 = v := by
  rcases renamePath_cases (v := v) oldPath newPath with h0 | ⟨o, n, i, e, -, -, -, -, -, h0⟩
  · rw [h0]
  · rw [h0] at hfail
    cases hfail

section

variable (grants)

def Falters (append : Bool) (e : Entry) (offset : Word) (src : Source) (v : Vfs) : Prop :=
  (finishOf append e offset src).toNat > 0xffffffff ∨ newSizeOf append e offset src ≠ 0 ∧
    (grants v.allocs (newSizeOf append e offset src) = false ∨
      grants (v.allocs + 1) (newSizeOf append e offset src) = false)

def Spills (append : Bool) (e : Entry) (offset : Word) (src : Source) (v : Vfs) : Prop :=
  (finishOf append e offset src).toNat ≤ 0xffffffff ∧ newSizeOf append e offset src ≠ 0 ∧
    grants v.allocs (newSizeOf append e offset src) = true ∧
    grants (v.allocs + 1) (newSizeOf append e offset src) = false ∧ Wraps append e offset src

/-- The calls that fail and leave something behind. -/
def Spoils (v : Vfs) : VfsOp → Prop
  | .writeFileAt path offset src append => src.missing = false ∧ ∃ p, path = some p ∧
      ((∃ n, Creatable grants v p n ∧
          Falters grants append (newFile n (.null 0) v.allocs) offset src (v.withFile n)) ∨
        ∃ e, v.lookup p = some e ∧ e.type = .file ∧ Spills grants append e offset src v)
  | _ => False

end

section

theorem writeEntryAt_none_iff (hi : findEntry p v = some i) (he : v.entries[i]? = some e)
    (ht : e.type = .file)
    (offset : Word) (src : Source) (append : Bool) :
    (writeEntryAt grants p offset src append e v).1 = none ↔ Falters grants append e offset src v := by
  rw [writeEntryAt_eq hi he ht]
  unfold Falters
  by_cases hbig : (finishOf append e offset src).toNat > 0xffffffff
  · simp [hbig]
  by_cases hzero : newSizeOf append e offset src = 0
  · simp [hbig, hzero]
  cases hbuf : grants v.allocs (newSizeOf append e offset src) with
  | false => simp [hbig, hzero]
  | true =>
    cases hdata : grants (v.allocs + 1) (newSizeOf append e offset src) <;> simp [hbig, hzero]

theorem writeEntryAt_failed (hi : findEntry p v = some i) (he : v.entries[i]? = some e)
    (ht : e.type = .file)
    (offset : Word) (src : Source) (append : Bool)
    (hfail : (writeEntryAt grants p offset src append e v).1 = none) :
    (writeEntryAt grants p offset src append e v).2.entries = v.entries ∧
      (writeEntryAt grants p offset src append e v).2.live = v.live ∧
      ((writeEntryAt grants p offset src append e v).2.overrun = v.overrun ↔
        ¬ Spills grants append e offset src v) := by
  rw [writeEntryAt_none_iff hi he ht] at hfail
  rw [writeEntryAt_eq hi he ht]
  unfold Spills
  by_cases hbig : (finishOf append e offset src).toNat > 0xffffffff
  · simp [hbig]
  have hzero : newSizeOf append e offset src ≠ 0 := fun h0 => by
    rcases hfail with h1 | ⟨h1, -⟩
    · exact hbig h1
    · exact h1 h0
  cases hbuf : grants v.allocs (newSizeOf append e offset src) with
  | false => simp [hbig, hzero]
  | true =>
    cases hdata : grants (v.allocs + 1) (newSizeOf append e offset src) with
    | false =>
      have hstrays := straysOf_eq_zero (Nat.not_lt.mp hbig)
      simp [hbig, hzero, Vfs.copied, hstrays, Nat.not_lt.mp hbig]
    | true => simp [Falters, hbig, hbuf, hdata] at hfail

end

theorem writeFileAt_failed_iff (path : Option (List Byte)) (offset : Word) (src : Source)
    (append : Bool) :
    ((writeFileAt grants path offset src append v).1 = none →
        Unchanged v (writeFileAt grants path offset src append v).2) ↔
      ¬ Spoils grants v (.writeFileAt path offset src append) := by
  rcases @writeFileAt_cases grants v path offset src append with
    ⟨k, h0⟩ | ⟨p, i, e, rfl, hmiss, hi, he, ht, h0⟩ | ⟨p, n, rfl, hmiss, hc, h0⟩
  · refine iff_of_true (fun _ => .of_allocs ⟨k, by rw [h0]⟩) ?_
    rintro ⟨hmiss, p, rfl, ⟨n, hc, -⟩ | ⟨e, hl, ht, hspills⟩⟩
    · -- a file that can be created is there after the call
      have hlen :=
        congrArg (fun r => r.2.entries.length) (h0.symm.trans (hc.writeFileAt hmiss offset append))
      obtain ⟨hsame | ⟨id, src', -, hsame⟩, -⟩ :=
        @writeEntryAt_edits grants _ p _ _ hc.findEntry_withFile
        (withFile_last n) rfl offset src append
      · dsimp only at hlen
        rw [hsame] at hlen
        simp [Vfs.withFile, Vfs.added] at hlen
      · dsimp only at hlen
        rw [hsame] at hlen
        simp [Vfs.withFile, Vfs.added] at hlen
    · -- the copy outside of the buffer counts even where the state was spoilt before
      obtain ⟨i, hi, he⟩ := Option.bind_eq_some_iff.mp hl
      have hfound := @writeFileAt_found grants v p i e hi he ht src hmiss offset append
      have hfail := (writeEntryAt_none_iff hi he ht offset src append).mpr
        (.inr ⟨hspills.2.1, .inr hspills.2.2.2.1⟩)
      refine (writeEntryAt_failed hi he ht offset src append hfail).2.2.mp ?_ hspills
      rw [← hfound, h0]
  · rw [h0]
    have hnone : ¬ ∃ n, Creatable grants v p n := by
      rintro ⟨n, hc⟩
      rw [hc.findEntry_none] at hi
      cases hi
    have hl : v.lookup p = some e := by simp [Vfs.lookup, hi, he]
    constructor
    · rintro hkeep ⟨-, p', hp, ⟨n, hc, -⟩ | ⟨e', hl', -, hspills⟩⟩
      · cases hp
        exact hnone ⟨n, hc⟩
      · cases hp
        obtain rfl := Option.some.inj (hl.symm.trans hl')
        have hfail := (writeEntryAt_none_iff hi he ht offset src append).mpr
          (.inr ⟨hspills.2.1, .inr hspills.2.2.2.1⟩)
        exact (writeEntryAt_failed hi he ht offset src append hfail).2.2.mp (hkeep hfail).memory hspills
    · intro hspoils hfail
      obtain ⟨hentries, hlive, hover⟩ := writeEntryAt_failed hi he ht offset src append hfail
      exact ⟨hentries, hover.mpr fun hspills => hspoils ⟨hmiss, p, rfl, .inr ⟨e, hl, ht, hspills⟩⟩,
        hlive⟩
  · rw [h0]
    have hiff := @writeEntryAt_none_iff grants _ p _ _ hc.findEntry_withFile (withFile_last n) rfl
      offset src append
    constructor
    · intro hkeep hspoils
      have hfalters : Falters grants append (newFile n (.null 0) v.allocs) offset src
          (v.withFile n) := by
        obtain ⟨-, p', hp, ⟨n', hc', hfalters⟩ | ⟨e, hl, -, -⟩⟩ := hspoils
        · cases hp
          obtain rfl := Option.some.inj (hc.norm.symm.trans hc'.norm)
          exact hfalters
        · cases hp
          rw [Vfs.lookup, hc.findEntry_none] at hl
          cases hl
      have hfail := hiff.mpr hfalters
      have hsame :=
        (writeEntryAt_failed hc.findEntry_withFile (withFile_last n) rfl offset src append hfail).1
      have hentries := (hkeep hfail).entries
      rw [hsame] at hentries
      simp [Vfs.withFile, Vfs.added] at hentries
    · intro hspoils hfail
      exact absurd ⟨hmiss, p, rfl, .inl ⟨n, hc, hiff.mp hfail⟩⟩ hspoils

def farWrite : Bool × Vfs :=
  vfsCall (fun _ _ => true) rootOnly (.writeFileAt (some [slash, 0x61]) 0x100000000 (.bytes [1]) false)

def Entry.blocks (e : Entry) : List Nat := bufferIds e.data ++ [e.nameId, e.nodeId]

def Vfs.owned (v : Vfs) : List Nat := v.entries.flatMap Entry.blocks

/-- The blocks in use are those of the entries: none is lost, none is freed while an entry has it
and none is freed twice. -/
def Vfs.Accounted (v : Vfs) : Prop := v.live.Perm v.owned

variable {l rest : List Nat} {b i : Nat} {e : Entry}

theorem erase_perm (h : l.Perm (b :: rest)) : (l.erase b).Perm rest := by
  have h0 := h.erase b
  rwa [erase_cons_head] at h0

theorem freeData_perm (data : Option Buf) (h : l.Perm (bufferIds data ++ rest)) :
    (freeData data l).Perm rest := by
  cases data with
  | none => exact h
  | some b => exact erase_perm h

theorem freeEntry_perm (e : Entry) (h : l.Perm (e.blocks ++ rest)) : (freeEntry e l).Perm rest := by
  unfold Entry.blocks at h
  rw [append_assoc] at h
  exact erase_perm (erase_perm (freeData_perm e.data h))

theorem owned_perm (he : v.entries[i]? = some e) :
    v.owned.Perm (e.blocks ++ (v.entries.eraseIdx i).flatMap Entry.blocks) := by
  obtain ⟨hlt, rfl⟩ := List.getElem?_eq_some_iff.mp he
  exact ((getElem_cons_eraseIdx_perm hlt).symm.flatMap_right _)

theorem owned_modify_perm (he : v.entries[i]? = some e) (g : Entry → Entry) :
    (v.modify i g).owned.Perm ((g e).blocks ++ (v.entries.eraseIdx i).flatMap Entry.blocks) := by
  obtain ⟨hlt, rfl⟩ := List.getElem?_eq_some_iff.mp he
  have hset : v.entries.modify i g = v.entries.set i (g v.entries[i]) := by
    rw [modify_eq_set_getElem?, he]
    rfl
  unfold Vfs.owned Vfs.modify
  rw [hset]
  exact (set_perm_cons_eraseIdx hlt _).flatMap_right _

theorem Vfs.Accounted.added (h : v.Accounted) (e : Entry)
    (he : e.blocks.Perm (ids ++ [v.allocs + 1, v.allocs])) :
    (ids ++ (v.added e).live).Perm (v.added e).owned := by
  unfold Vfs.added Vfs.owned
  dsimp only
  rw [flatMap_append, flatMap_cons, flatMap_nil, append_nil]
  have h0 := (@perm_append_comm _ (v.entries.flatMap Entry.blocks) _).trans (he.append h.symm)
  rw [append_assoc] at h0
  exact h0.symm

theorem Vfs.Accounted.put (h : v.Accounted) (he : v.entries[i]? = some e) (k o : Nat) (src : Source)
    (id : Nat)
    (hl : l.Perm (bufferIds (src.buffer id) ++ v.live)) :
    ({ v with allocs := k, overrun := o, live := freeData e.data l }.put i src id).Accounted := by
  have hnew := @owned_modify_perm v i e he (Entry.setData (src.buffer id) src.size)
  have hold := hl.trans ((h.trans (owned_perm he)).append_left _)
  refine (freeData_perm e.data (hold.trans ?_)).trans hnew.symm
  unfold Entry.blocks Entry.setData
  simp only [append_assoc]
  exact perm_append_comm_assoc ..

section

theorem createFile_accounted (path : Option (List Byte)) (src : Source) (h : v.Accounted) :
    (createFile grants path src v).2.Accounted := by
  rcases @createFile_cases grants v path src with ⟨k, h0⟩ | ⟨p, n, k, -, -, -, h0⟩
  · rw [h0]
    exact h
  · rw [h0]
    exact h.added _ ((Perm.swap ..).append_left _)

theorem Vfs.Accounted.empty (h : v.Accounted) (e : Entry)
    (he : e.blocks = [v.allocs, v.allocs + 1]) :
    (v.added e).Accounted := by
  have hswap : e.blocks.Perm ([] ++ [v.allocs + 1, v.allocs]) := he ▸ Perm.swap ..
  exact h.added e hswap

theorem createDirectory_accounted (path : Option (List Byte)) (h : v.Accounted) :
    (createDirectory grants path v).2.Accounted := by
  rcases @createDirectory_cases grants v path with ⟨k, h0⟩ | ⟨p, n, -, -, h0⟩
  · rw [h0]
    exact h
  · rw [h0]
    exact h.empty _ rfl

theorem createDeviceNode_accounted (path : Option (List Byte)) (info : DeviceNodeInfo)
    (h : v.Accounted) :
    (createDeviceNode grants path info v).2.Accounted := by
  cases path with
  | none => exact h
  | some p =>
    unfold createDeviceNode
    dsimp only
    split
    · exact h
    rcases @allocateEntry_cases grants v p .device with ⟨k, h0⟩ | ⟨n, -, h0⟩
    · rw [h0]
      exact h
    · rw [h0]
      have hnew := h.empty ((newEntry n .device v.allocs).setInfo info) rfl
      dsimp only [Vfs.modify, Vfs.added] at hnew ⊢
      rwa [modify_concat]

theorem writeFile_accounted (path : Option (List Byte)) (src : Source) (h : v.Accounted) :
    (writeFile grants path src v).2.Accounted := by
  rcases @writeFile_cases grants v path src with ⟨k, h0⟩ | h0 | ⟨i, id, k, e, -, he, h0⟩
  · rw [h0]
    exact h
  · rw [h0]
    exact createFile_accounted path src h
  · rw [h0]
    exact h.put he k v.overrun src id (Perm.refl _)

theorem erase_freeData (data : Option Buf) (a : Nat) (live : List Nat) :
    (freeData data ((a + 1) :: a :: live)).erase a = freeData data ((a + 1) :: live) := by
  have h0 : ((a + 1) :: a :: live).erase a = (a + 1) :: live := by simp
  cases data with
  | none => exact h0
  | some b =>
    unfold freeData
    dsimp only
    rw [erase_comm, h0]

theorem writeEntryAt_accounted (hi : findEntry p v = some i) (he : v.entries[i]? = some e)
    (ht : e.type = .file)
    (offset : Word) (src : Source) (append : Bool) (h : v.Accounted) :
    (writeEntryAt grants p offset src append e v).2.Accounted := by
  rw [writeEntryAt_eq hi he ht]
  split
  · exact h
  case isFalse hfit =>
    split
    · exact h.put he v.allocs v.overrun (.null 0) 0 (Perm.refl _)
    case isFalse hzero =>
      split
      · exact h
      split
      · exact h
      · rw [erase_freeData]
        refine h.put he _ _ (overlaid append e offset src) (v.allocs + 1) ?_
        have hsize :=
          @size_overlaid append e offset src (by unfold newSizeOf; have := e.size.isLt; omega)
        have hne : (overlaid append e offset src).size ≠ 0 := fun h0 => hzero (by rw [← hsize, h0]; rfl)
        rw [Source.buffer, if_neg hne]
        exact Perm.refl _

theorem writeFileAt_accounted (path : Option (List Byte)) (offset : Word) (src : Source)
    (append : Bool)
    (h : v.Accounted) : (writeFileAt grants path offset src append v).2.Accounted := by
  rcases @writeFileAt_cases grants v path offset src append with
    ⟨k, h0⟩ | ⟨p, i, e, rfl, -, hi, he, ht, h0⟩ | ⟨p, n, rfl, -, hc, h0⟩
  · rw [h0]
    exact h
  · rw [h0]
    exact writeEntryAt_accounted hi he ht offset src append h
  · rw [h0]
    exact writeEntryAt_accounted hc.findEntry_withFile (withFile_last n) rfl offset src append
      (h.empty _ rfl)

theorem removeNode_accounted (t : NodeType) (path : Option (List Byte)) (h : v.Accounted) :
    (removeNode t path v).2.Accounted := by
  rcases removeNode_cases (v := v) t path with h0 | ⟨i, n, hi, h0⟩
  · rwa [h0]
  rw [h0]
  unfold Vfs.shape at hi
  rw [getElem?_map] at hi
  obtain ⟨e, he, -⟩ := Option.map_eq_some_iff.mp hi
  unfold Vfs.unlink Vfs.Accounted
  rw [he]
  exact freeEntry_perm e (h.trans (owned_perm he))

theorem renamePath_accounted (oldPath newPath : Option (List Byte)) (h : v.Accounted) :
    (renamePath oldPath newPath v).2.Accounted := by
  rcases renamePath_cases (v := v) oldPath newPath with h0 | ⟨o, n, i, e, -, -, -, -, he, h0⟩
  · rwa [h0]
  · rw [h0]
    exact h.trans ((owned_perm he).trans (owned_modify_perm he (Entry.rename n)).symm)

theorem vfsStep_accounted (op : VfsOp) (h : v.Accounted) : (vfsStep grants v op).Accounted := by
  cases op with
  | createFile path src => exact createFile_accounted path src h
  | createDirectory path => exact createDirectory_accounted path h
  | createDeviceNode path info => exact createDeviceNode_accounted path info h
  | writeFile path src => exact writeFile_accounted path src h
  | writeFileAt path offset src append => exact writeFileAt_accounted path offset src append h
  | truncateFile path size =>
    cases path with
    | none => exact h
    | some p => exact writeFile_accounted (some p) (.null size) h
  | removeFile path => exact removeNode_accounted .file path h
  | removeDeviceNode path => exact removeNode_accounted .device path h
  | renamePath oldPath newPath => exact renamePath_accounted oldPath newPath h

end

end BlockOS.Fs
