import BlockOS.Fs.VfsEntries

/-! Writes at an offset. -/

namespace BlockOS.Fs
open Words Paths Runs List

variable {grants : Nat → Nat → Bool} {v : Vfs}

def Entry.Sized (e : Entry) : Prop := e.contents.length = e.size.toNat

theorem length_toList {src : Source} (h : src.missing = false) :
    src.toList.length = src.size.toNat := by
  cases src with
  | null n =>
    have h0 : n = 0 := by simpa [Source.missing] using h
    rw [h0]
    rfl
  | bytes l =>
    simp only [Source.toList, Source.size, length_take, BitVec.toNat_ofNat]
    exact Nat.min_eq_left (Nat.mod_le _ _)

theorem contents_setData (e : Entry) {src : Source} (h : src.missing = false) (id : Nat) :
    (e.setData (src.buffer id) src.size).contents = src.toList := by
  have hlen := length_toList h
  by_cases h0 : src.size = 0
  · rw [h0] at hlen
    rw [eq_nil_of_length_eq_zero hlen]
    simp [Entry.contents, Entry.setData, Source.buffer, h0]
  · simp only [Entry.contents, Entry.setData, Source.buffer, if_neg h0]
    rfl

theorem sized_rule : EntryRule Entry.Sized where
  fresh _ _ _ := rfl
  put e id src h _ := by
    unfold Entry.Sized
    rw [contents_setData e h]
    exact length_toList h
  info _ _ h := h

theorem mem_of_lookup (h : v.lookup p = some e) : e ∈ v.entries := by
  obtain ⟨i, -, he⟩ := Option.bind_eq_some_iff.mp h
  exact mem_of_getElem? he

theorem sized_renaming (h : v.All Entry.Sized) (op : VfsOp) : Renaming Entry.Sized v op := by
  cases op with
  | renamePath oldPath newPath =>
    intro e he n _ _
    obtain ⟨p, -, hp⟩ := Option.bind_eq_some_iff.mp he
    exact h e (mem_of_lookup hp)
  | _ => trivial

theorem sized_run (grants : Nat → Nat → Bool) (ops : List VfsOp) :
    (runFrom (vfsStep grants) {} ops).All Entry.Sized :=
  Along.invariant (I := Vfs.All Entry.Sized) (P := fun _ _ => True)
    (fun _ op hv _ => (vfsStep_all grants sized_rule op hv).mpr (sized_renaming hv op))
    nofun (.of_forall (fun _ _ => trivial) _ ops)

theorem find_modify (i : Nat) (hg : ∀ e, (g e).name = e.name) : (v.modify i g).find n = v.find n := by
  unfold Vfs.find Vfs.modify
  generalize v.entries = l
  induction l generalizing i with
  | nil => simp
  | cons e l ih =>
    cases i with
    | zero => simp [findIdx?_cons, hg]
    | succ i => simp [findIdx?_cons, ih i]

theorem lookup_put (hi : findEntry p v = some i) (he : v.entries[i]? = some e)
    (src : Source) (id : Nat) : (v.put i src id).lookup p =
      some (e.setData (src.buffer id) src.size) := by
  have hfind : findEntry p (v.put i src id) = some i := by
    rw [← hi]
    unfold findEntry
    cases normalizePath p with
    | none => rfl
    | some n => exact find_modify i fun _ => rfl
  unfold Vfs.lookup
  rw [hfind]
  simp [Vfs.put, Vfs.modify, he]

structure WroteAt (old : List Byte) (base : Nat) (data new : List Byte) : Prop where
  length : new.length = max old.length (base + data.length)
  written : ∀ j, j < data.length → new[base + j]? = data[j]?
  keep : ∀ j, j < old.length → j < base ∨ base + data.length ≤ j → new[j]? = old[j]?
  gap : ∀ j, old.length ≤ j → j < base → new[j]? = some 0

theorem overlay_getElem? (old : List Byte) {base : Word} {data : List Byte}
    (hfit : base.toNat + data.length < 2 ^ 64)
    (h : j < size) (hsize : size < 2 ^ 64) :
    (overlay old base data size)[j]? =
      some (if base.toNat ≤ j ∧ j < base.toNat + data.length then data.getD (j - base.toNat) 0 else
        old.getD j 0) := by
  have hb := base.isLt
  have hi : (BitVec.ofNat 64 j - base).toNat = if base.toNat ≤ j then j - base.toNat else 2 ^
      64 - base.toNat + j := by
    rw [BitVec.toNat_sub, BitVec.toNat_ofNat]
    split <;> omega
  simp only [overlay, getElem?_map, getElem?_range h, Option.map_some, hi]
  by_cases hle : base.toNat ≤ j
  · simp only [hle, if_true, true_and, Nat.sub_lt_iff_lt_add' hle]
  · rw [if_neg hle, if_neg (by omega), if_neg fun h0 => hle h0.1]

theorem wroteAt_overlay {old data : List Byte} {base : Word}
    (hfit : base.toNat + data.length < 2 ^ 64)
    (hsize : max (base.toNat + data.length) old.length < 2 ^ 64) :
    WroteAt old base.toNat data (overlay old base data (max (base.toNat + data.length) old.length)) where
  length := by rw [length_overlay, Nat.max_comm]
  written j hj := by
    rw [overlay_getElem? _ hfit (by omega) hsize, if_pos (by omega), Nat.add_sub_cancel_left]
    simp [hj]
  keep j hj hout := by
    rw [overlay_getElem? _ hfit (by omega) hsize, if_neg (by omega)]
    simp [hj]
  gap j hj hbase := by
    rw [overlay_getElem? _ hfit (by omega) hsize, if_neg (by omega)]
    simp [hj]

structure PositionedWrite (v v' : Vfs) (path : Option (List Byte)) (old : List Byte) (base : Nat)
    (data : List Byte)
    (off : Word) : Prop where
  inside : v'.overrun = v.overrun
  file : ∃ e, path.bind v'.lookup = some e ∧ e.Sized ∧ WroteAt old base data e.contents
  offset : off.toNat = base + data.length

section

variable {p : List Byte} {i : Nat} {e : Entry} {src : Source}

theorem overlaid_spec (hs : e.Sized) (hmiss : src.missing = false) (append : Bool) (offset : Word)
    (hfit : (startOf append e offset).toNat + src.size.toNat < 2 ^ 64)
    (hsmall : newSizeOf append e offset src < 2 ^ 32) :
    WroteAt e.contents (startOf append e offset).toNat src.toList
      (overlaid append e offset src).toList := by
  have hsize : newSizeOf append e offset src =
      max ((startOf append e offset).toNat + src.toList.length) e.contents.length := by
    unfold newSizeOf
    rw [finishOf_toNat append offset hfit, length_toList hmiss, hs]
  have hlist : (overlaid append e offset src).toList =
      overlay e.contents (startOf append e offset) src.toList (newSizeOf append e offset src) := by
    unfold overlaid Source.toList
    dsimp only
    rw [length_overlay, BitVec.toNat_ofNat, Nat.mod_eq_of_lt hsmall]
    exact take_of_length_le (length_overlay ..).le
  rw [hlist, hsize]
  exact wroteAt_overlay (by rwa [length_toList hmiss]) (by omega)

theorem writeEntryAt_positioned (hi : findEntry p v = some i) (he : v.entries[i]? = some e)
    (ht : e.type = .file)
    (hs : e.Sized) (hmiss : src.missing = false) (offset : Word) (append : Bool)
    (h : writeEntryAt grants p offset src append e v = (some off, v')) :
    PositionedWrite v v' (some p) e.contents (startOf append e offset).toNat src.toList off ↔
      (startOf append e offset).toNat + src.size.toNat < 2 ^ 64 := by
  have hlen := length_toList hmiss
  refine ⟨fun hw => by have := hw.offset; omega, fun hfit => ?_⟩
  have hfinish := finishOf_toNat append offset hfit
  rw [writeEntryAt_eq hi he ht] at h
  by_cases hbig : (finishOf append e offset src).toNat > 0xffffffff
  · rw [if_pos hbig] at h
    cases h
  have hsmall : newSizeOf append e offset src < 2 ^ 32 := by
    unfold newSizeOf
    omega
  have hwrote := overlaid_spec hs hmiss append offset hfit hsmall
  rw [if_neg hbig] at h
  by_cases hzero : newSizeOf append e offset src = 0
  · rw [if_pos hzero] at h
    cases h
    have hnil : (overlaid append e offset src).toList = [] := by
      refine eq_nil_of_length_eq_zero ?_
      rw [@length_toList (overlaid append e offset src) rfl, size_overlaid hsmall, hzero]
    rw [hnil] at hwrote
    refine ⟨rfl, ⟨_, lookup_put (v := { v with live := _ }) hi he _ _, sized_rule.put e _ _ rfl hs,
      ?_⟩, by rw [hfinish, hlen]⟩
    rwa [contents_setData e rfl]
  rw [if_neg hzero] at h
  by_cases hbuf : grants v.allocs (newSizeOf append e offset src) = false
  · rw [if_pos hbuf] at h
    cases h
  rw [if_neg hbuf] at h
  by_cases hdata : grants (v.allocs + 1) (newSizeOf append e offset src) = false
  · rw [if_pos hdata] at h
    cases h
  rw [if_neg hdata] at h
  cases h
  refine ⟨?_, ⟨_, lookup_put (v := { v.copied append e offset src with live := _ }) hi he _ _, ?_,
    ?_⟩, ?_⟩
  · change v.overrun + straysOf append e offset src = v.overrun
    rw [(straysOf_eq_zero (Nat.not_lt.mp hbig)).mpr (Nat.not_le.mpr hfit), Nat.add_zero]
  · exact sized_rule.put e _ _ rfl hs
  · rw [contents_setData e rfl]
    exact hwrote
  · rw [hfinish, hlen]

end

def Vfs.contentsOf (v : Vfs) (path : Option (List Byte)) : List Byte :=
    ((path.bind v.lookup).map Entry.contents).getD []

def Vfs.baseOf (v : Vfs) (path : Option (List Byte)) (offset : Word) (append : Bool) : Nat :=
  if append then (v.contentsOf path).length else offset.toNat

theorem startOf_toNat (hs : e.Sized) (append : Bool) (offset : Word) :
    (startOf append e offset).toNat = if append then e.contents.length else offset.toNat := by
  have hlen : e.contents.length = e.size.toNat := hs
  cases append with
  | false => rfl
  | true =>
    simp only [startOf, if_true, BitVec.toNat_setWidth]
    omega

theorem write_file_at_iff (grants : Nat → Nat → Bool) (v : Vfs) (hv : v.All Entry.Sized)
    (path : Option (List Byte))
    (offset : Word) (src : Source) (append : Bool) {off : Word} {v' : Vfs}
    (h : writeFileAt grants path offset src append v = (some off, v')) :
    PositionedWrite v v' path (v.contentsOf path) (v.baseOf path offset append) src.toList off ↔
      v.baseOf path offset append + src.size.toNat < 2 ^ 64 := by
  unfold Vfs.baseOf
  rcases @writeFileAt_cases grants v path offset src append with
    ⟨k, h0⟩ | ⟨p, i, e, rfl, hmiss, hi, he, ht, h0⟩ | ⟨p, n, rfl, hmiss, hc, h0⟩
  · rw [h0] at h
    cases h
  · have hold : v.contentsOf (some p) = e.contents := by
      simp [Vfs.contentsOf, Vfs.lookup, hi, he]
    have hs := hv e (mem_of_getElem? he)
    rw [hold, ← startOf_toNat hs append offset]
    exact writeEntryAt_positioned hi he ht hs hmiss offset append (h0 ▸ h)
  · have hold : v.contentsOf (some p) = (newFile n (.null 0) v.allocs).contents := by
      simp [Vfs.contentsOf, Vfs.lookup, hc.findEntry_none]
      rfl
    have hs : (newFile n (.null 0) v.allocs).Sized := sized_rule.newFile n rfl _
    rw [hold, ← startOf_toNat hs append offset]
    have hw := writeEntryAt_positioned hc.findEntry_withFile (withFile_last n) rfl hs hmiss offset
      append (h0 ▸ h)
    refine Iff.trans ?_ hw
    exact ⟨fun hp => ⟨hp.inside, hp.file, hp.offset⟩, fun hp => ⟨hp.inside, hp.file, hp.offset⟩⟩

def threeBytes : Vfs :=
  runFrom (vfsStep fun _ _ => true) {} [.createDirectory (some [slash]),
    .writeFile (some [slash, 0x61]) (.bytes [1, 2, 3])]

theorem write_past_end :
    ∃ v', writeFileAt (fun _ _ => true) (some [slash, 0x61]) 5 (.bytes [9]) false threeBytes =
      (some 6, v') ∧ v'.contentsOf (some [slash, 0x61]) = [1, 2, 3, 0, 0, 9] ∧
      PositionedWrite threeBytes v' (some [slash, 0x61]) [1, 2, 3] 5 [9] 6 := by
  have h : writeFileAt (fun _ _ => true) (some [slash, 0x61]) 5 (.bytes [9]) false threeBytes =
      (some 6, (writeFileAt (fun _ _ => true) (some [slash, 0x61]) 5 (.bytes [9]) false threeBytes).2) :=
    Prod.ext (by decide +kernel) rfl
  have hw := (write_file_at_iff _ threeBytes (sized_run _ _) _ 5 (.bytes [9]) false h).mpr
    (by decide +kernel)
  have hold : threeBytes.contentsOf (some [slash, 0x61]) = [1, 2, 3] := by
    decide +kernel
  exact ⟨_, h, by decide +kernel, hw⟩

def wrappedWrite : Option Word × Vfs :=
  writeFileAt (fun _ _ => true) (some [slash, 0x61]) (-4) (.bytes [1, 2, 3, 4, 5, 6, 7, 8]) false
    threeBytes

theorem write_before_buffer : wrappedWrite.1 = some 4 ∧ wrappedWrite.2.overrun = 4 ∧
      wrappedWrite.2.contentsOf (some [slash, 0x61]) = [5, 6, 7, 8] ∧
      ¬ PositionedWrite threeBytes wrappedWrite.2 (some [slash, 0x61]) [1, 2, 3] (2 ^ 64 - 4) [1, 2,
        3, 4, 5, 6, 7, 8] 4 :=
  ⟨by decide +kernel, by decide +kernel, by decide +kernel, fun h => absurd h.inside (by decide +kernel)⟩

end BlockOS.Fs
