import BlockOS.Fs.Archiver
import BlockOS.Fs.Tree
import BlockOS.Fs.Unpack

/-! What the script packs is what the kernel unpacks. -/

namespace BlockOS.Fs
open Words Paths Loops List
open NodeType (directory)

section

variable {cs ds : List (List Byte)} {c : List Byte}

theorem takeWhile_piece (hc : slash ∉ c) (ds : List (List Byte)) :
    (c ++ spell slash ds).takeWhile (fun b => decide (b ≠ slash)) = c ∧
      (c ++ spell slash ds).dropWhile (fun b => decide (b ≠ slash)) = spell slash ds := by
  have hall : ∀ b ∈ c, decide (b ≠ slash) = true := fun b hb => decide_eq_true fun h => hc (h ▸ hb)
  rw [takeWhile_append_of_pos hall, dropWhile_append_of_pos hall]
  cases ds with
  | nil => exact ⟨by simp, by simp⟩
  | cons d ds =>
    have hshape : spell slash (d :: ds) = slash :: (d ++ spell slash ds) := rfl
    rw [hshape, takeWhile_cons_of_neg (by simp), dropWhile_cons_of_neg (by simp), append_nil]
    exact ⟨rfl, rfl⟩

theorem makePathLoop_spell {fuel : Nat} {name : List Byte} (hds : ∀ c ∈ ds, SafePiece c ∧ 0 ∉ c)
    (hcs : ∀ c ∈ cs, IsPiece slash c) (hfuel : ds.length < fuel)
    (hname : name.dropWhile (fun b => decide (b = slash)) = (spell slash ds).tail)
    (hlen : (pathOf slash (cs ++ ds)).length < maxPath) :
    makePathLoop fuel name (pathOf slash cs) = some (pathOf slash (cs ++ ds)) := by
  induction ds generalizing fuel name cs with
  | nil =>
    obtain ⟨fuel, rfl⟩ : ∃ n, fuel = n + 1 := ⟨fuel - 1, by omega⟩
    unfold makePathLoop
    rw [hname, append_nil]
    rfl
  | cons d ds ih =>
    obtain ⟨fuel, rfl⟩ : ∃ n, fuel = n + 1 := ⟨fuel - 1, by omega⟩
    obtain ⟨⟨hd, hdot, hdots⟩, hnul⟩ := hds d mem_cons_self
    have hrest : name.dropWhile (fun b => decide (b = slash)) = d ++ spell slash ds := hname
    obtain ⟨htake, hdrop⟩ := takeWhile_piece hd.2 ds
    have hne : d ++ spell slash ds ≠ [] := fun h => hd.1 (append_eq_nil_iff.mp h).1
    have hcs' : ∀ c ∈ cs ++ [d], IsPiece slash c := by
      intro c hc
      rcases mem_append.mp hc with hc | hc
      · exact hcs c hc
      · exact mem_singleton.mp hc ▸ hd
    have hsplit : cs ++ d :: ds = cs ++ [d] ++ ds := by rw [append_assoc]; rfl
    have hext := pathOf_extend hcs d
    -- the path so far is no longer than the whole one
    have hshort : (pathOf slash (cs ++ [d])).length < maxPath := by
      refine lt_of_le_of_lt ?_ hlen
      rw [hsplit]
      unfold pathOf
      rw [if_neg (by simp), if_neg (by simp), spell_append (cs ++ [d]) ds, length_append]
      omega
    have hnext : makePathLoop fuel (spell slash ds) (pathOf slash (cs ++ [d])) =
        some (pathOf slash (cs ++ [d] ++ ds)) := by
      refine ih (fun c hc => hds c (mem_cons_of_mem d hc)) hcs' ?_ ?_ (hsplit ▸ hlen)
      · rw [length_cons] at hfuel
        omega
      cases ds with
      | nil => rfl
      | cons e ds =>
        have he := (hds e (by simp)).1.1
        have hshape : spell slash (e :: ds) = slash :: (e ++ spell slash ds) := rfl
        obtain ⟨b, l, rfl⟩ := exists_cons_of_ne_nil he.1
        have hb : b ≠ slash := fun h => he.2 (h ▸ mem_cons_self)
        rw [hshape, dropWhile_cons_of_pos (by simp), cons_append,
          dropWhile_cons_of_neg (by simpa using hb)]
        rfl
    unfold makePathLoop
    rw [hrest, if_neg hne, htake, hdrop, if_neg hnul, if_neg hdot, if_neg hdots, hsplit, ← hnext, ← hext]
    rw [← hext, length_append] at hshort
    have hroom : ¬ ((pathOf slash cs).length > 1 ∧ (pathOf slash cs).length + 1 ≥ maxPath) := by
      rintro ⟨h1, h2⟩
      rw [if_pos h1, length_append, length_singleton] at hshort
      omega
    rw [if_neg hroom, if_neg (by omega)]

theorem skipDots_of_ne (h : ∀ rest, name ≠ dot :: slash :: rest) : skipDots name = name := by
  cases name with
  | nil => rfl
  | cons b name =>
    cases name with
    | nil => rfl
    | cons b' name =>
      unfold skipDots
      rw [if_neg]
      rintro ⟨rfl, rfl⟩
      exact h name rfl

theorem makePath_relative (hne : cs ≠ []) (hcs : ∀ c ∈ cs, SafePiece c ∧ 0 ∉ c)
    (hlen : (pathOf slash cs).length < maxPath) : makePath (spell slash cs).tail =
      some (pathOf slash cs) := by
  obtain ⟨c, ds, rfl⟩ := exists_cons_of_ne_nil hne
  have htail : (spell slash (c :: ds)).tail = c ++ spell slash ds := rfl
  obtain ⟨⟨hc, hdot, -⟩, -⟩ := hcs c mem_cons_self
  obtain ⟨b, l, rfl⟩ := exists_cons_of_ne_nil hc.1
  have hb : b ≠ slash := fun h => hc.2 (h ▸ mem_cons_self)
  have hskip : skipDots (b :: l ++ spell slash ds) = b :: l ++ spell slash ds := by
    refine skipDots_of_ne fun rest h => ?_
    obtain ⟨hbd, h⟩ := List.cons.inj h
    cases l with
    | nil => exact hdot (hbd ▸ rfl)
    | cons b' l =>
      obtain ⟨rfl, -⟩ := List.cons.inj (show b' :: (l ++ spell slash ds) = slash :: rest from h)
      exact hc.2 (by simp)
  have hroot : ¬ (b :: l ++ spell slash ds = [] ∨ b :: l ++ spell slash ds = [dot]) := by
    rintro (h | h)
    · cases h
    · obtain ⟨hbd, hl⟩ := List.cons.inj (show b :: (l ++ spell slash ds) = [dot] from h)
      exact hdot (by rw [hbd, (append_eq_nil_iff.mp hl).1])
  unfold makePath
  rw [htail, if_neg (by simp), hskip]
  rw [if_neg hroot, if_neg (by simpa using hb)]
  have hloop := @makePathLoop_spell [] _ ((b :: l ++ spell slash ds).length + 1)
    (b :: l ++ spell slash ds) hcs (by simp) ?_ ?_ hlen
  · exact hloop
  · -- every component has a byte of its own
    have hcount : ∀ es : List (List Byte), es.length ≤ (spell slash es).length := by
      intro es
      induction es with
      | nil => exact le_rfl
      | cons e es ih =>
        have hshape : spell slash (e :: es) = slash :: (e ++ spell slash es) := rfl
        rw [hshape, length_cons, length_cons, length_append]
        omega
    have := hcount ds
    rw [length_cons, length_append, length_cons]
    omega
  · rw [cons_append, dropWhile_cons_of_neg (by simpa using hb)]
    rfl

end

abbrev Node := List Byte × NodeType × List Byte

def Vfs.listing (v : Vfs) : List Node := v.entries.map fun e => (e.name, e.type, e.contents)

def grantAll : Nat → Nat → Bool := fun _ _ => true

section

variable {v : Vfs} {t : NodeType}

theorem shape_eq_listing : v.shape = v.listing.map fun x => (x.1, x.2.1) := by
  unfold Vfs.shape Vfs.listing
  rw [map_map]
  rfl

theorem lookup_of_mem (h : TreeShape v.shape) (hn : (n, t) ∈ v.shape) :
    vfsExists n v = true ∧ ∃ e, v.lookup n = some e ∧ e.type = t := by
  have hfind : (v.find n).isSome = true := by
    rw [Option.isSome_iff_ne_none]
    exact fun h0 => find_eq_none.mp h0 (mem_map_of_mem hn)
  obtain ⟨i, hi⟩ := Option.isSome_iff_exists.mp hfind
  obtain ⟨e, he, hname⟩ := find_spec hi
  have hentry := findEntry_normalised (v := v) (h.normal _ hn)
  refine ⟨?_, e, ?_, ?_⟩
  · unfold vfsExists
    rw [hentry]
    exact hfind
  · unfold Vfs.lookup
    rw [hentry, hi]
    exact he
  have hmem := mem_of_getElem? (shape_getElem? he)
  rw [hname] at hmem
  exact h.type_eq hmem hn

theorem isDirectory_of_mem (h : TreeShape v.shape) (hn : (n, directory) ∈ v.shape) :
    isDirectory n v = true := by
  obtain ⟨-, e, he, ht⟩ := lookup_of_mem h hn
  unfold isDirectory
  rw [he]
  exact decide_eq_true ht

structure Fresh (v : Vfs) (n : List Byte) : Prop where
  normal : Normalised n
  root : n ≠ [slash]
  new : n ∉ v.shape.map Prod.fst
  parent : (parentOf n, directory) ∈ v.shape

theorem Fresh.find (h : Fresh v n) : findEntry n v = none := by
  rw [findEntry_normalised h.normal]
  exact find_eq_none.mpr h.new

theorem Fresh.allocateEntry (h : Fresh v n) (t : NodeType) :
    Fs.allocateEntry grantAll n t v = (some v.entries.length, v.added (newEntry n t v.allocs)) := by
  have hparent : parentExists n v = true := by
    unfold parentExists
    rw [h.normal.normalizePath]
    dsimp only
    rw [if_neg h.root, findEntry_normalised h.normal.parent, Option.isSome_iff_ne_none]
    exact fun h0 => find_eq_none.mp h0 (mem_map_of_mem h.parent)
  unfold Fs.allocateEntry
  rw [h.normal.normalizePath]
  dsimp only
  rw [h.find, hparent, if_neg nofun, if_neg nofun]
  rfl

theorem Fresh.createDirectory (h : Fresh v n) : (createDirectory grantAll (some n) v).1 = true ∧
      (createDirectory grantAll (some n) v).2.listing = v.listing ++ [(n, .directory, [])] := by
  unfold Fs.createDirectory
  dsimp only
  rw [h.find, h.allocateEntry]
  refine ⟨rfl, ?_⟩
  unfold Vfs.listing
  exact map_append

theorem Fresh.createFile (h : Fresh v n) (hdata : data.length < 2 ^ 32) :
    (createFile grantAll (some n) (.bytes data) v).1 = true ∧
      (createFile grantAll (some n) (.bytes data) v).2.listing = v.listing ++ [(n, .file, data)] := by
  have hsize : (BitVec.ofNat 32 data.length).toNat = data.length := by
    rw [BitVec.toNat_ofNat, Nat.mod_eq_of_lt hdata]
  have hbytes : (Source.bytes data).toList = data := by
    simp only [Source.toList, hsize, take_length]
  unfold Fs.createFile
  dsimp only
  rw [h.find, h.allocateEntry, hbytes, if_neg nofun, if_neg nofun]
  unfold Vfs.listing Vfs.modify Vfs.added
  dsimp only
  split
  · refine ⟨rfl, ?_⟩
    rw [show alloc grantAll (Source.bytes data).size.toNat _ = (some _, _) from rfl]
    dsimp only
    rw [modify_concat]
    exact map_append
  case isFalse hzero =>
    have hempty : data = [] := by
      rw [← length_eq_zero_iff, ← hsize]
      exact congrArg BitVec.toNat (not_not.mp hzero)
    subst hempty
    refine ⟨rfl, ?_⟩
    rw [modify_concat]
    exact map_append

end

def ArchiveEntry.path (e : ArchiveEntry) : List Byte := slash :: e.name

def ArchiveEntry.type (e : ArchiveEntry) : NodeType :=
  if e.mode &&& 0o170000 = 0o040000 then .directory else .file

def ArchiveEntry.node (e : ArchiveEntry) : Node := (e.path, e.type, e.data)

def deviceNodes : List Node := (initializeDevices grantAll {}).listing

structure Collected (es : List ArchiveEntry) : Prop where
  relative : ∀ e ∈ es, ∃ cs, cs ≠ [] ∧ (∀ c ∈ cs, SafePiece c) ∧ e.name = (spell slash cs).tail
  short : ∀ e ∈ es, e.path.length ≤ 255
  kinds : ∀ e ∈ es, ∃ perm < 0o1000, e.mode = 0o100000 ||| perm ∨
    (e.mode = 0o040000 ||| perm ∧ e.data = [])
  distinct : (es.map ArchiveEntry.name).Nodup
  parents : ∀ before e after, es = before ++ e :: after → parentOf e.path = [slash] ∨
    ∃ d ∈ before, d.path = parentOf e.path ∧ d.type = .directory
  trailer : ∀ e ∈ es, e.name ≠ trailerName
  devices : ∀ e ∈ es, ∀ x ∈ deviceNodes, x.1 = e.path → x.2.1 = e.type

theorem file_mode : ∀ perm < 0o1000, (0o100000 ||| perm) &&& 0o170000 = 0o100000 ∧
    BitVec.ofNat 32 (0o100000 ||| perm) &&& ifmt = ifreg := by decide +kernel

theorem directory_mode : ∀ perm < 0o1000, (0o040000 ||| perm) &&& 0o170000 = 0o040000 ∧
    BitVec.ofNat 32 (0o040000 ||| perm) &&& ifmt = ifdir := by decide +kernel

section

variable {μ : Type} {setMode : List Byte → BitVec 32 → μ → μ} {m : Mount μ}
  {cs ds : List (List Byte)}

theorem TreeShape.above (h : TreeShape l) (ds es : List (List Byte))
    (hp : ∀ c ∈ ds ++ es, IsPiece slash c) (hd : (pathOf slash (ds ++ es), directory) ∈ l) :
    (pathOf slash ds, directory) ∈ l := by
  induction es using List.reverseRecOn with
  | nil => rwa [append_nil] at hd
  | append_singleton es e ih =>
    rw [← append_assoc] at hd hp
    have he := hp e (by simp)
    have hroot : pathOf slash (ds ++ es ++ [e]) ≠ [slash] := fun h0 => by
      simpa using (pathOf_eq_single hp).mp h0
    have hup := h.parents _ hd hroot
    rw [parentOf_pathOf _ he.2] at hup
    exact ih (fun c hc => hp c (mem_append_left _ hc)) hup

theorem ensureDirectory_ok (h : TreeShape m.vfs.shape) (hds : ∀ c ∈ ds, IsPiece slash c)
    (hne : ds ≠ [])
    (hd : (pathOf slash ds, directory) ∈ m.vfs.shape) :
    (ensureDirectory grantAll (pathOf slash ds) m).1 = true ∧
      (ensureDirectory grantAll (pathOf slash ds) m).2.vfs = m.vfs := by
  have hnorm := h.normal _ hd
  have hshape : pathOf slash ds = spell slash ds := if_neg hne
  have hfront : ∀ i (s : Mount μ), 0 < i → s.vfs = m.vfs →
    (ensureFront grantAll (pathOf slash ds) i s).1 = true ∧
      (ensureFront grantAll (pathOf slash ds) i s).2.vfs = m.vfs := by
    intro i s hi hs
    unfold ensureFront
    split
    · exact ⟨rfl, hs⟩
    case isFalse hcut =>
      rw [not_and_or, not_not, not_not, hshape] at hcut
      obtain ⟨k, hk⟩ := take_spell (fun c hc => (hds c hc).2) hcut
      have htake : ds.take k ≠ [] := by
        intro h0
        rw [h0, spell_nil, take_eq_nil_iff, spell_eq_nil] at hk
        exact hk.elim (by omega) hne
      have hmem : (pathOf slash (ds.take k), directory) ∈ m.vfs.shape := by
        refine h.above (ds.take k) (ds.drop k) ?_ ?_
        · rwa [take_append_drop]
        · rwa [take_append_drop]
      have hpath : pathOf slash (ds.take k) = spell slash (ds.take k) := if_neg htake
      rw [hpath] at hmem
      dsimp only
      rw [hshape, hk, hs, (lookup_of_mem h hmem).1, isDirectory_of_mem h hmem]
      exact ⟨rfl, hs⟩
  unfold ensureDirectory
  have hhead : (pathOf slash ds).head? = some slash := by
    obtain ⟨d, es, rfl⟩ := exists_cons_of_ne_nil hne
    rfl
  have hlen := (pathOf_length_gt hds).mpr hne
  have hshort : (pathOf slash ds).length < maxPath := hnorm.2
  rw [if_neg (not_not.mpr hhead), if_neg (by omega), if_neg (by omega)]
  have hloop := @tryEach_spec _ _ (ensureFront grantAll (pathOf slash ds))
    (fun _ s => s.vfs = m.vfs) (fun _ => False) (List.range' 1 (pathOf slash ds).length) m rfl
    (fun before i after s hl hs _ => ?_) (fun before i after s hl hs hfail => ?_)
  · exact hloop.resolve_right And.right
  all_goals
    have hi : 0 < i := by
      have hmem : i ∈ List.range' 1 (pathOf slash ds).length := by
        rw [hl]
        exact mem_append_right _ mem_cons_self
      exact (mem_range'_1.mp hmem).1
  · exact (hfront i s hi hs).2
  · rw [(hfront i s hi hs).1] at hfail
    cases hfail

structure Filled (v : Vfs) (ns : Node → Prop) : Prop where
  tree : TreeShape v.shape
  root : ([slash], directory) ∈ v.shape
  nodes : ∀ x, x ∈ v.listing ↔ ns x

variable {ns : Node → Prop}

theorem Filled.add (h : Filled v ns) (hf : Fresh v n)
    (hl : v'.listing = v.listing ++ [(n, t, data)]) : Filled v' fun x => ns x ∨ x = (n, t, data) := by
  have hshape : v'.shape = v.shape ++ [(n, t)] := by
    rw [shape_eq_listing, hl, map_append, ← shape_eq_listing]
    rfl
  refine ⟨?_, ?_, fun x => ?_⟩
  · rw [hshape]
    exact h.tree.add hf.normal hf.new fun _ => hf.parent
  · rw [hshape]
    exact mem_append_left _ h.root
  · rw [hl, mem_append, h.nodes, mem_singleton]

theorem mem_names {v : Vfs} (h : n ∈ v.shape.map Prod.fst) : ∃ x ∈ v.listing, x.1 = n := by
  rw [shape_eq_listing, map_map] at h
  obtain ⟨x, hx, rfl⟩ := mem_map.mp h
  exact ⟨x, hx, rfl⟩

theorem installNode_fills (h : Filled m.vfs ns)
    (hn : Normalised p) (hroot : p ≠ [slash]) (hparent : (parentOf p, directory) ∈ m.vfs.shape)
    (hdata : data.length < 2 ^ 32)
    (hmode : (t = .file ∧ mode &&& ifmt = ifreg) ∨ (t = .directory ∧ mode &&& ifmt = ifdir ∧ data = []))
    (hold : ∀ x, ns x → x.1 = p → x = (p, t, data) ∧ t = .directory) :
    ∃ m', installNode grantAll setMode p mode data m = (true, m') ∧
      Filled m'.vfs fun x => ns x ∨ x = (p, t, data) := by
  unfold installNode
  by_cases hnew : p ∈ m.vfs.shape.map Prod.fst
  · -- a directory that is there already
    obtain ⟨x, hx, hxp⟩ := mem_names hnew
    have hns := (h.nodes x).mp hx
    obtain ⟨rfl, rfl⟩ := hold x hns hxp
    have hmem : (p, directory) ∈ m.vfs.shape := by
      rw [shape_eq_listing]
      exact mem_map_of_mem (f := fun x : Node => (x.1, x.2.1)) hx
    obtain ⟨-, hdir, -⟩ := hmode.resolve_left fun h0 => nomatch h0.1
    rw [if_pos hdir, (lookup_of_mem h.tree hmem).1, if_pos rfl, isDirectory_of_mem h.tree hmem]
    refine ⟨_, rfl, h.tree, h.root, fun y => ⟨fun hy => .inl ((h.nodes y).mp hy), ?_⟩⟩
    rintro (hy | rfl)
    · exact (h.nodes y).mpr hy
    · exact hx
  · have hf : Fresh m.vfs p := ⟨hn, hroot, hnew, hparent⟩
    have hexists : vfsExists p m.vfs = false := by
      unfold vfsExists
      rw [hf.find]
      rfl
    rw [hexists]
    rcases hmode with ⟨rfl, hreg⟩ | ⟨rfl, hdir, rfl⟩
    · have hne : mode &&& ifmt ≠ ifdir := by
        rw [hreg]
        decide
      obtain ⟨hok, hlist⟩ := hf.createFile hdata
      rw [if_neg hne, if_neg (not_not.mpr hreg), if_neg Bool.false_ne_true]
      unfold Mount.createFile
      dsimp only [Mount.pass]
      rw [hok]
      exact ⟨_, rfl, h.add hf hlist⟩
    · obtain ⟨hok, hlist⟩ := hf.createDirectory
      rw [if_pos hdir, if_neg Bool.false_ne_true]
      unfold Mount.createDirectory
      dsimp only [Mount.pass]
      rw [hok]
      exact ⟨_, rfl, h.add hf hlist⟩

theorem Filled.of_vfs (h : Filled v ns) (hv : v' = v) : Filled v' ns := hv ▸ h

theorem installEntry_fills {data : List Byte} {t : NodeType} {mode : BitVec 32}
    (h : Filled m.vfs ns) (hne : cs ≠ [])
    (hcs : ∀ c ∈ cs, IsPiece slash c) (hlen : (pathOf slash cs).length < maxPath)
    (hparent : (parentOf (pathOf slash cs), directory) ∈ m.vfs.shape) (hdata : data.length < 2 ^ 32)
    (hmode : (t = .file ∧ mode &&& ifmt = ifreg) ∨ (t = .directory ∧ mode &&& ifmt = ifdir ∧ data = []))
    (hold : ∀ x, ns x → x.1 = pathOf slash cs → x = (pathOf slash cs, t, data) ∧ t = .directory) :
    ∃ m', installEntry grantAll setMode (pathOf slash cs) mode data m = (true, m') ∧
      Filled m'.vfs fun x => ns x ∨ x = (pathOf slash cs, t, data) := by
  have hroot : pathOf slash cs ≠ [slash] := fun h0 => hne ((pathOf_eq_single hcs).mp h0)
  have hnorm : Normalised (pathOf slash cs) := ⟨⟨cs, hcs, rfl⟩, hlen⟩
  have hup : ∃ m1, (if lastSlash (pathOf slash cs) (pathOf slash cs).length = 0 then (true, m)
      else ensureDirectory grantAll
        ((pathOf slash cs).take (lastSlash (pathOf slash cs) (pathOf slash cs).length)) m) =
        (true, m1) ∧ m1.vfs = m.vfs := by
    split
    · exact ⟨m, rfl, rfl⟩
    case isFalse hi =>
      have htake : (pathOf slash cs).take (lastSlash (pathOf slash cs) (pathOf slash cs).length) =
          parentOf (pathOf slash cs) := (if_neg hi).symm
      rcases eq_nil_or_concat cs with rfl | ⟨ds, d, rfl⟩
      · exact absurd rfl hne
      rw [concat_eq_append] at hcs htake hparent ⊢
      rw [parentOf_pathOf ds (hcs d (by simp)).2] at htake hparent
      have hds : ds ≠ [] := by
        rintro rfl
        have hd := (hcs d (by simp)).2
        have h0 := lastSlash_append (l := []) hd
        rw [concat_eq_append, nil_append, show pathOf slash [d] = slash :: d from append_nil _] at hi
        exact hi h0
      obtain ⟨h1, h2⟩ := ensureDirectory_ok (m := m) h.tree (fun c hc => hcs c (by simp [hc])) hds
        hparent
      rw [htake]
      exact ⟨_, Prod.ext h1 rfl, h2⟩
  obtain ⟨m1, hm1, hv⟩ := hup
  unfold installEntry
  dsimp only
  rw [if_neg hroot, if_neg (by omega), hm1]
  exact installNode_fills (h.of_vfs hv) hnorm hroot (hv ▸ hparent) hdata hmode hold

def made (es : List ArchiveEntry) (x : Node) : Prop := x ∈ deviceNodes ∨ ∃ e ∈ es, x = e.node

theorem deviceNodes_type : ∀ x ∈ deviceNodes, x.2.1 ≠ .file ∧ (x.2.1 = .directory → x.2.2 = []) := by
  decide +kernel

theorem deviceNodes_filled : Filled (initializeDevices grantAll {}) (made []) := by
  refine ⟨?_, by decide +kernel, fun x => ?_⟩
  · exact ⟨by decide +kernel, by decide +kernel, by decide +kernel⟩
  · simp [made, deviceNodes]

section

variable {es before after : List ArchiveEntry} {e : ArchiveEntry}

theorem Collected.kind (hc : Collected es) (he : e ∈ es) :
    (e.type = .file ∧ BitVec.ofNat 32 e.mode &&& ifmt = ifreg) ∨
      (e.type = .directory ∧ BitVec.ofNat 32 e.mode &&& ifmt = ifdir ∧ e.data = []) := by
  obtain ⟨perm, hperm, hmode | ⟨hmode, hdata⟩⟩ := hc.kinds e he
  · obtain ⟨h1, h2⟩ := file_mode perm hperm
    refine .inl ⟨?_, hmode ▸ h2⟩
    unfold ArchiveEntry.type
    rw [hmode, h1]
    rfl
  · obtain ⟨h1, h2⟩ := directory_mode perm hperm
    refine .inr ⟨?_, hmode ▸ h2, hdata⟩
    unfold ArchiveEntry.type
    rw [hmode, h1]
    rfl

theorem Collected.old (hc : Collected es) (hes : es = before ++ e :: after) (x : Node)
    (hx : made before x)
    (hp : x.1 = e.path) : x = e.node ∧ e.type = .directory := by
  have he : e ∈ es := by
    rw [hes]
    exact mem_append_right _ mem_cons_self
  rcases hx with hx | ⟨d, hd, rfl⟩
  · have htype := hc.devices e he x hx hp
    obtain ⟨h1, h2⟩ := deviceNodes_type x hx
    rcases hc.kind he with ⟨hfile, -⟩ | ⟨hdir, -, hdata⟩
    · exact absurd (htype.trans hfile) h1
    refine ⟨?_, hdir⟩
    have hempty := h2 (htype.trans hdir)
    exact Prod.ext hp (Prod.ext htype (hempty.trans hdata.symm))
  · have hname : d.name = e.name := tail_eq_of_cons_eq hp
    have hdist := hc.distinct
    rw [hes, map_append, map_cons] at hdist
    exact absurd hname ((nodup_append.mp hdist).2.2 d.name (mem_map_of_mem hd) e.name mem_cons_self)

theorem Collected.parent (hc : Collected es) (hes : es = before ++ e :: after)
    (h : Filled v (made before)) :
    (parentOf e.path, directory) ∈ v.shape := by
  rcases hc.parents before e after hes with hroot | ⟨d, hd, hpath, htype⟩
  · rw [hroot]
    exact h.root
  have hmem := (h.nodes d.node).mpr (.inr ⟨d, hd, rfl⟩)
  rw [shape_eq_listing, mem_map]
  exact ⟨d.node, hmem, Prod.ext hpath htype⟩

theorem Collected.name_ne (hc : Collected es) (he : e ∈ es) : e.name ≠ [] := by
  obtain ⟨cs, hne, hcs, hname⟩ := hc.relative e he
  obtain ⟨c, cs, rfl⟩ := exists_cons_of_ne_nil hne
  rw [hname]
  exact fun h0 => (hcs c mem_cons_self).1.1 (append_eq_nil_iff.mp h0).1

theorem Collected.install (hc : Collected es) (hes : es = before ++ e :: after)
    (hclean : 0 ∉ e.name)
    (hdata : e.data.length < 2 ^ 32) (h : Filled m.vfs (made before)) :
    makePath e.name = some e.path ∧ ∃ m',
      installEntry grantAll setMode e.path (BitVec.ofNat 32 e.mode) e.data m = (true, m') ∧
      Filled m'.vfs (made (before ++ [e])) := by
  have he : e ∈ es := by
    rw [hes]
    exact mem_append_right _ mem_cons_self
  obtain ⟨cs, hne, hcs, hname⟩ := hc.relative e he
  have hpath : e.path = pathOf slash cs := by
    unfold ArchiveEntry.path pathOf
    rw [if_neg hne, hname]
    obtain ⟨c, cs, rfl⟩ := exists_cons_of_ne_nil hne
    rfl
  have hshort : (pathOf slash cs).length < maxPath := hpath ▸ Nat.lt_succ_of_le (hc.short e he)
  have hnul : ∀ c ∈ cs, SafePiece c ∧ 0 ∉ c := by
    intro c hmem
    refine ⟨hcs c hmem, fun h0 => hclean ?_⟩
    have hin : (0 : Byte) ∈ e.path := by
      rw [hpath, pathOf, if_neg hne]
      exact mem_flatMap.mpr ⟨c, hmem, mem_cons_of_mem _ h0⟩
    exact (mem_cons.mp hin).resolve_left (by decide)
  have hparent := hc.parent hes h
  have hold := hc.old hes
  rw [hpath] at hparent
  simp only [ArchiveEntry.node, hpath] at hold
  obtain ⟨m', hm, hfill⟩ :=
    @installEntry_fills _ setMode _ _ _ _ _ _ h hne (fun c hmem => (hcs c hmem).1) hshort
    hparent hdata (hc.kind he) hold
  refine ⟨?_, m', hpath ▸ hm, hfill.tree, hfill.root, fun x => ?_⟩
  · rw [hname, hpath]
    exact makePath_relative hne hnul hshort
  rw [hfill.nodes]
  simp only [made, mem_append, mem_singleton, or_and_right, exists_or, exists_eq_left,
    ArchiveEntry.node, hpath, or_assoc]

theorem appendEntry_extends (h : appendEntry out e ino = some out') : ∃ post, out' = out ++ post ∧
    post ≠ [] := by
  obtain ⟨header, pad, pad', -, hw⟩ := appendEntry_written h
  exact ⟨_, hw.bytes, by simp⟩

theorem appendEntries_extends (h : appendEntries out es ino = some out') :
    ∃ post, out' = out ++ post ∧ es.length ≤ post.length := by
  induction es generalizing out ino with
  | nil =>
    cases h
    exact ⟨[], (append_nil _).symm, Nat.le_refl _⟩
  | cons e es ih =>
    unfold appendEntries at h
    split at h
    · cases h
    case h_2 mid hmid =>
      obtain ⟨p, rfl, hp⟩ := appendEntry_extends hmid
      obtain ⟨q, rfl, hq⟩ := ih h
      have hpos := length_pos_iff.mpr hp
      refine ⟨p ++ q, append_assoc .., ?_⟩
      rw [length_append, length_cons]
      omega

theorem walk_collected {a : Archive} {out out' : List Byte} {ino last fuel : Nat}
    (hc : Collected es)
    (hes : es = before ++ after) (h : appendEntries out after ino = some out')
    (hlast : appendEntry out' { name := trailerName, mode := 0, mtime := 0, data := [] } last =
      some a.bytes)
    (hfuel : after.length < fuel) (hm : Filled m.vfs (made before)) :
    ∃ m', walk grantAll setMode a fuel out.length m = .trailer m' ∧ Filled m'.vfs (made es) := by
  induction after generalizing before out ino fuel m with
  | nil =>
    obtain ⟨fuel, rfl⟩ : ∃ n, fuel = n + 1 := ⟨fuel - 1, by omega⟩
    obtain rfl : out = out' := Option.some.inj h
    obtain ⟨post, hpost, hne⟩ := appendEntry_extends hlast
    have hpos := length_pos_iff.mpr hne
    have hlt : out.length < a.bytes.length := by
      rw [hpost, length_append]
      omega
    have hturn := @walkEntry_append _ grantAll setMode _ _ _ _ _ _ hlast (append_nil _).symm
      (by decide) m
    unfold walk
    rw [if_pos hlt, hturn]
    rw [append_nil] at hes
    exact ⟨m, rfl, hes ▸ hm⟩
  | cons e after ih =>
    obtain ⟨fuel, rfl⟩ : ∃ n, fuel = n + 1 := ⟨fuel - 1, by omega⟩
    unfold appendEntries at h
    split at h
    · cases h
    case h_2 mid hmid =>
      obtain ⟨p, hp, hpne⟩ := appendEntry_extends hmid
      obtain ⟨q, hq, -⟩ := appendEntries_extends h
      obtain ⟨r, hr, -⟩ := appendEntry_extends hlast
      have ha : a.bytes = mid ++ (q ++ r) := by rw [hr, hq, append_assoc]
      have hpos := length_pos_iff.mpr hpne
      have hlt : out.length < a.bytes.length := by
        rw [ha, hp]
        simp only [length_append]
        omega
      have he : e ∈ es := by
        rw [hes]
        exact mem_append_right _ mem_cons_self
      obtain ⟨header, pad, pad', hheader, hw⟩ := appendEntry_written hmid
      obtain ⟨-, -, -, -, -, -, hfile, -⟩ := encodeHeader_spec hheader
      obtain ⟨hpath, m1, hinstall, hm1⟩ :=
        @Collected.install _ setMode _ _ _ _ _ hc hes hw.clean hfile hm
      have hturn := @walkEntry_append _ grantAll setMode _ _ _ _ _ _ hmid ha (hc.name_ne he) m
      rw [if_neg (hc.trailer e he), hpath] at hturn
      dsimp only at hturn
      rw [hinstall] at hturn
      unfold walk
      rw [if_pos hlt, hturn]
      refine ih ?_ h ?_ hm1
      · rw [hes, append_assoc]
        rfl
      · rw [length_cons] at hfuel
        omega

end

theorem mountWalk_buildArchive {μ : Type} (setMode : List Byte → BitVec 32 → μ → μ) (modes : μ)
    (es : List ArchiveEntry) (a : Archive) (hc : Collected es) (hb : buildArchive es = some a.bytes) :
    ∃ m, mountWalk grantAll setMode a {} modes = .trailer m ∧ (m.vfs.listing.map Prod.fst).Nodup ∧
      ∀ x, x ∈ m.vfs.listing ↔ x ∈ deviceNodes ∨ ∃ e ∈ es, x = e.node := by
  unfold buildArchive at hb
  split at hb
  · cases hb
  case h_2 out hout =>
    obtain ⟨p, hp, hlen⟩ := appendEntries_extends hout
    obtain ⟨q, hq, -⟩ := appendEntry_extends hb
    have hfuel : es.length < a.bytes.length + 1 := by
      rw [hq, hp, nil_append, length_append]
      omega
    obtain ⟨m, hwalk, hm⟩ := @walk_collected _ setMode ⟨initializeDevices grantAll {}, modes, []⟩
      _ _ _ _ _ _ _ _ _
      hc (nil_append es).symm hout hb hfuel deviceNodes_filled
    refine ⟨m, hwalk, ?_, hm.nodes⟩
    have hdist := hm.tree.distinct
    rwa [shape_eq_listing, map_map] at hdist

def smallTree : List ArchiveEntry :=
  [{ name := ascii "etc", mode := 0o040755, mtime := 1, data := [] },
    { name := ascii "etc/motd", mode := 0o100644, mtime := 2, data := ascii "hello" }]

def smallArchive : Archive := ⟨(buildArchive smallTree).getD [], by decide +kernel⟩

theorem smallTree_collected : Collected smallTree where
  relative := by
    intro e he
    rcases mem_pair.mp he with rfl | rfl
    · exact ⟨[ascii "etc"], by decide, by simp only [SafePiece, IsPiece]; decide, rfl⟩
    · exact ⟨[ascii "etc", ascii "motd"], by decide, by simp only [SafePiece, IsPiece]; decide, rfl⟩
  short := by decide
  kinds := by
    intro e he
    rcases mem_pair.mp he with rfl | rfl
    · exact ⟨0o755, by decide, .inr ⟨rfl, rfl⟩⟩
    · exact ⟨0o644, by decide, .inl rfl⟩
  distinct := by decide
  parents := by
    rintro before e after h
    match before, h with
    | [], h =>
      cases h
      exact .inl (by decide)
    | [d], h =>
      cases h
      exact .inr ⟨_, mem_cons_self, by decide, by decide⟩
    | _ :: _ :: before, h => simp [smallTree] at h
  trailer := by decide
  devices := by decide +kernel

theorem mountWalk_smallTree : ∃ m : Mount Unit, mountWalk grantAll (fun _ _ u => u) smallArchive {}
    () = .trailer m ∧
    (m.vfs.listing.map Prod.fst).Nodup ∧ ∀ x, x ∈ m.vfs.listing ↔ x ∈ deviceNodes ∨ ∃ e ∈ smallTree,
      x = e.node :=
  mountWalk_buildArchive _ () smallTree smallArchive smallTree_collected (by decide +kernel)

end

end BlockOS.Fs
