import BlockOS.Ldso.Image
import BlockOS.Lib.Traversal
import Mathlib.Order.CompletePartialOrder

/-! Loading the libraries that the main object needs. -/

namespace BlockOS.Ldso
open BlockOS.Words BlockOS.Traversal Relation
open List (length_append map_append map_singleton append_nil mem_cons not_mem_nil append_assoc
  mem_append mem_singleton mem_cons_self mem_map)

structure Env where
  files : Name → Option ElfFile
  mmap : Word → Word → Option Word

structure Loader where
  objs : List Obj
  nextBase : Word := libBase

def maxObjs : Nat := 96
def slash : Byte := 47

def dirs : List Name :=
    [text "/system/lib/", text "/System/lib/", text "/lib/", text "/System/usr/lib/"]

def joinPath (dir name : Name) : Name := (scopy dir maxPath ++ name).take (maxPath - 1)

abbrev Loaded := Except Stop (Option Nat × Loader)

variable (env : Env)

def loadAll (loadNeeded : Name → Loader → Loaded) (names : List Name) (l : Loader) :
    Except Stop Loader :=
  names.foldlM (fun l name =>
    (loadNeeded name l).bind fun r => if r.1 = none then .error .died else .ok r.2) l

def loadOneLibraryPath (loadNeeded : Name → Loader → Loaded) (name path : Name) (l : Loader) :
    Loaded :=
  if maxObjs ≤ l.objs.length then .error .died
  else
    match findObjName l.objs name with
    | some i => .ok (some i, l)
    | none =>
      match env.files path with
      | none => .ok (none, l)
      | some f =>
        match mapImage env.mmap f name path false 0 l.nextBase with
        | none => .ok (none, l)
        | some (o, nextBase) =>
          (loadAll loadNeeded o.needed { objs := l.objs ++ [o], nextBase := nextBase }).bind fun l' =>
            .ok (some l.objs.length, l')

def loadFromDirs (loadNeeded : Name → Loader → Loaded) (name : Name) : List Name → Loader → Loaded
  | [], l => .ok (none, l)
  | dir :: rest, l =>
    (loadOneLibraryPath env loadNeeded name (joinPath dir name) l).bind fun r =>
      if r.1 = none then loadFromDirs loadNeeded name rest r.2 else .ok r

def loadNeeded : Nat → Name → Loader → Loaded
  | 0, _, _ => .error .tooDeep
  | fuel + 1, name, l =>
    match findObjName l.objs name with
    | some i => .ok (some i, l)
    | none =>
      if name = [] then .ok (none, l)
      else if name.head? = some slash then loadOneLibraryPath env (loadNeeded fuel) name
        (scopy name maxPath) l
      else loadFromDirs env (loadNeeded fuel) name dirs l

def loadMain (fuel : Nat) (main : Obj) : Except Stop Loader :=
  loadAll (loadNeeded env fuel) main.needed { objs := [main] }

def Env.locate (name : Name) : Option (Name × ElfFile) :=
  if name = [] then none
  else if name.head? = some slash then (env.files (scopy name maxPath)).map fun f =>
    (scopy name maxPath, f)
  else dirs.findSome? fun dir => (env.files (joinPath dir name)).map fun f => (joinPath dir name, f)

def Env.needs (name : Name) : List Name :=
  match env.locate name with
  | none => []
  | some (_, f) => f.neededNames

def Env.span (name : Name) : Nat :=
  match env.locate name with
  | none => 0
  | some (_, f) => f.span

def Env.Needed (main : Obj) (name : Name) : Prop := ∃ r ∈ main.needed,
    ReflTransGen (Leads env.needs) r name

structure Libraries (main : Obj) : Prop where
  finite : {n | env.Needed main n}.Finite
  table : finite.toFinset.card < maxObjs
  short : ∀ n, env.Needed main n → n.length < nameCapacity
  file : ∀ n, env.Needed main n → ∃ path f, env.locate n = some (path, f) ∧ f.WellFormed ∧
    (f.sonameText = [] ∨ f.sonameText = n)
  single : ∀ n m path f g, env.Needed main n → env.Needed main m → env.locate n = some (path, f) →
    env.locate m = some (path, g) → n = m
  space : libBase.toNat + ∑ n ∈ finite.toFinset, (env.span n + libGap.toNat) ≤ userMax.toNat +
    libGap.toNat
  mmap : ∀ addr len, libBase.toNat ≤ addr.toNat → addr.toNat + len.toNat ≤ userMax.toNat →
    env.mmap addr len = some addr

def Obj.range (o : Obj) : Set Nat := Set.Ico (o.minVaddr + o.base).toNat (o.maxVaddr + o.base).toNat

/-- The loop ends, every library that is needed is in the table once, and the libraries have
disjoint address ranges. -/
def LoadedOnce (main : Obj) : Prop :=
  ∃ fuel l libs, loadMain env fuel main = .ok l ∧ l.objs = main :: libs ∧ (libs.map Obj.path).Nodup ∧
    (∀ path, path ∈ libs.map Obj.path ↔ ∃ n f, env.Needed main n ∧ env.locate n = some (path, f)) ∧
    libs.Pairwise fun a b => Disjoint a.range b.range

variable {env} {main : Obj} {ns : List Name} {l : Loader} {n : Name}

inductive Table (env : Env) (main : Obj) : List Name → Loader → Prop
  | main : Table env main [] { objs := [main] }
  | load {ns : List Name} {l : Loader} {n path : Name} {f : ElfFile} {o : Obj} {next : Word} (before : Table env main ns l)
      (located : env.locate n = some (path, f)) (wellFormed : f.WellFormed)
      (soname : f.sonameText = [] ∨ f.sonameText = n) (name : o.name = n)
      (image : o.Image f n path l.nextBase.toNat)
      (base : next.toNat = l.nextBase.toNat + f.span + libGap.toNat) :
      Table env main (ns ++ [n]) { objs := l.objs ++ [o], nextBase := next }

theorem span_of_locate (h : env.locate n = some (path, f)) : env.span n = f.span := by
  unfold Env.span
  rw [h]

theorem needs_of_locate (h : env.locate n = some (path, f)) : env.needs n = f.neededNames := by
  unfold Env.needs
  rw [h]

theorem Table.length (h : Table env main ns l) : l.objs.length = ns.length + 1 := by
  induction h with
  | main => rfl
  | load _ _ _ _ _ _ _ ih => rw [length_append, length_append, ih]; rfl

theorem Table.nextBase (h : Table env main ns l) :
    l.nextBase.toNat = libBase.toNat + (ns.map fun n => env.span n + libGap.toNat).sum ∧
      4096 ∣ l.nextBase.toNat := by
  induction h with
  | main => exact ⟨rfl, by show 4096 ∣ libBase.toNat; decide⟩
  | load _ located wf _ _ _ base ih =>
    obtain ⟨s, hs, hc⟩ := scan_covers wf
    obtain ⟨-, -, -, hdvd, -⟩ := scan_pages wf hs hc
    rw [map_append, List.sum_append, base]
    refine ⟨?_, Nat.dvd_add (Nat.dvd_add ih.2 hdvd) (by decide)⟩
    rw [ih.1, map_singleton, List.sum_singleton, span_of_locate located]
    omega

theorem Table.found (h : Table env main ns l) (hn : n ≠ []) :
    findObjName l.objs n = none ↔ n ∉ [main.name, main.soname] ++ ns := by
  have hall : ∀ {o : Obj} {m : Name}, (o.soname = [] ∨ o.soname = m) → o.name = m →
      ((o.name == n || o.soname == n) = true ↔ n = m) := by
    intro o m hs hm
    rw [Bool.or_eq_true, beq_iff_eq, beq_iff_eq, hm]
    refine ⟨?_, fun h => .inl h.symm⟩
    rintro (h | h)
    · exact h.symm
    rcases hs with hs | hs
    · exact absurd (h.symm.trans hs) hn
    · exact h.symm.trans hs
  unfold findObjName
  rw [List.findIdx?_eq_none_iff]
  induction h with
  | main =>
    simp only [forall_eq, append_nil, mem_cons, not_mem_nil, or_false, not_or,
      Bool.or_eq_false_iff, beq_eq_false_iff_ne, ne_eq]
    exact ⟨fun h => ⟨fun h0 => h.1 h0.symm, fun h0 => h.2 h0.symm⟩,
      fun h => ⟨fun h0 => h.1 h0.symm, fun h0 => h.2 h0.symm⟩⟩
  | @load ns l m path f o next _ _ _ soname name image _ ih =>
    have ho := @hall o m (by rw [image.soname]; exact soname) name
    refine ⟨fun h hmem => ?_, fun h o' ho' => ?_⟩
    · rw [← append_assoc, mem_append, mem_singleton] at hmem
      rcases hmem with hmem | hmem
      · exact ih.mp (fun o' ho' => h o' (List.mem_append_left _ ho')) hmem
      have := h o (List.mem_append_right _ mem_cons_self)
      rw [ho.mpr hmem] at this
      exact absurd this (by decide)
    · rw [← append_assoc, mem_append, mem_singleton, not_or] at h
      rcases mem_append.mp ho' with ho' | ho'
      · exact ih.mpr h.1 o' ho'
      · rw [mem_singleton.mp ho']
        exact Bool.eq_false_iff.mpr fun h0 => h.2 (ho.mp h0)

structure Reached (env : Env) (main : Obj) (ns : List Name) (l : Loader) : Prop where
  table : Table env main ns l
  nodup : ns.Nodup
  needed : ∀ m ∈ ns, env.Needed main m

theorem Reached.snoc (h : Reached env main ns l) (hn : env.Needed main n) (hfresh : n ∉ ns)
    (ht : Table env main (ns ++ [n]) { objs := l.objs ++ [o], nextBase := next }) :
    Reached env main (ns ++ [n]) { objs := l.objs ++ [o], nextBase := next } where
  table := ht
  nodup := List.nodup_append.mpr ⟨h.nodup, List.nodup_singleton n, fun a ha b hb hab => by
    rw [mem_singleton.mp hb] at hab
    exact hfresh (hab ▸ ha)⟩
  needed m hm := by
    rcases mem_append.mp hm with hm | hm
    · exact h.needed m hm
    · rw [mem_singleton.mp hm]
      exact hn

theorem Needed.nonempty (hl : Libraries env main) (hn : env.Needed main n) : n ≠ [] := by
  rintro rfl
  obtain ⟨path, f, hloc, -⟩ := hl.file [] hn
  exact absurd hloc (by unfold Env.locate; simp)

theorem Reached.room (hl : Libraries env main) (h : Reached env main ns l) (hn : env.Needed main n)
    (hfresh : n ∉ ns) :
    l.objs.length < maxObjs ∧ l.nextBase.toNat + env.span n ≤ userMax.toNat := by
  have hnodup : (ns ++ [n]).Nodup := by
    rw [List.nodup_append]
    exact ⟨h.nodup, List.nodup_singleton n, fun a ha b hb hab => by
      rw [mem_singleton.mp hb] at hab
      exact hfresh (hab ▸ ha)⟩
  have hsub : (ns ++ [n]).toFinset ⊆ hl.finite.toFinset := by
    intro m hm
    rw [hl.finite.mem_toFinset]
    rcases mem_append.mp (List.mem_toFinset.mp hm) with hm | hm
    · exact h.needed m hm
    · rw [mem_singleton.mp hm]
      exact hn
  refine ⟨?_, ?_⟩
  · have hcard := Finset.card_le_card hsub
    rw [List.toFinset_card_of_nodup hnodup, length_append, List.length_singleton] at hcard
    have := hl.table
    rw [h.table.length]
    omega
  · have hsum : ((ns ++ [n]).map fun n => env.span n + libGap.toNat).sum ≤
        ∑ n ∈ hl.finite.toFinset, (env.span n + libGap.toNat) := by
      rw [← List.sum_toFinset _ hnodup]
      exact Finset.sum_le_sum_of_subset hsub
    rw [map_append, List.sum_append, map_singleton, List.sum_singleton] at hsum
    have := hl.space
    have := h.table.nextBase.1
    omega

theorem loadOne_missing (hlen : l.objs.length < maxObjs)
    (hnone : findObjName l.objs n = none) (hfile : env.files path = none) :
    loadOneLibraryPath env load n path l = .ok (none, l) := by
  unfold loadOneLibraryPath
  rw [if_neg (Nat.not_le.mpr hlen), hnone, hfile]

theorem loadOne_loads (hl : Libraries env main) (h : Reached env main ns l) (hn : env.Needed main n)
    (hfresh : n ∉ [main.name, main.soname] ++ ns) (hloc : env.locate n = some (path, f))
    (hfile : env.files path = some f) (load : Name → Loader → Loaded) :
    ∃ l', Reached env main (ns ++ [n]) l' ∧ loadOneLibraryPath env load n path l =
      (loadAll load (env.needs n) l').bind fun l' => .ok (some l.objs.length, l') := by
  have hns : n ∉ ns := fun h0 => hfresh (List.mem_append_right _ h0)
  obtain ⟨hlen, hspace⟩ := h.room hl hn hns
  obtain ⟨path', f', hloc', hwf, hso⟩ := hl.file n hn
  rw [hloc] at hloc'
  cases hloc'
  obtain ⟨hbase, haligned⟩ := h.table.nextBase
  rw [span_of_locate hloc] at hspace
  have hlow : libBase.toNat ≤ l.nextBase.toNat := by omega
  have hword : (BitVec.ofNat 64 f.span).toNat = f.span := by
    have : userMax.toNat = 0x7ffff0000000 := rfl
    exact toNat_ofNat_of_lt (by omega)
  obtain ⟨o, next, hmap, hnext, himage⟩ :=
    mapImage_ok hwf n path (hl.mmap _ _ hlow (by rw [hword]; exact hspace)) haligned hlow hspace
  have hname : o.name = n := by
    rw [himage.name]
    have := hl.short n hn
    exact List.take_of_length_le (by unfold nameCapacity at *; omega)
  refine ⟨_, h.snoc hn hns (h.table.load hloc hwf hso hname himage hnext), ?_⟩
  unfold loadOneLibraryPath
  rw [if_neg (Nat.not_le.mpr hlen), (h.table.found (Needed.nonempty hl hn)).mpr hfresh, hfile]
  dsimp only
  rw [hmap, needs_of_locate hloc, ← himage.needed]

theorem loadFromDirs_eq {ds : List Name} {i : Nat}
    {x : Except Stop Loader} (hlen : l.objs.length < maxObjs) (hnone : findObjName l.objs n = none)
    (hfind : (ds.findSome? fun dir => (env.files (joinPath dir n)).map fun f => (joinPath dir n, f))
      = some (path, f))
    (hload : loadOneLibraryPath env load n path l = x.bind fun l' => .ok (some i, l')) :
    loadFromDirs env load n ds l = x.bind fun l' => .ok (some i, l') := by
  induction ds with
  | nil => cases hfind
  | cons d ds ih =>
    unfold loadFromDirs
    rw [List.findSome?_cons] at hfind
    cases hfile : env.files (joinPath d n) with
    | none =>
      rw [hfile] at hfind
      rw [loadOne_missing hlen hnone hfile]
      exact ih hfind
    | some g =>
      rw [hfile] at hfind
      cases hfind
      rw [hload]
      cases x <;> rfl

theorem files_of_locate (h : env.locate n = some (path, f)) :
    env.files path = some f ∧ scopy path maxPath = path := by
  unfold Env.locate at h
  by_cases h0 : n = []
  · rw [if_pos h0] at h
    cases h
  rw [if_neg h0] at h
  by_cases h1 : n.head? = some slash
  · rw [if_pos h1] at h
    obtain ⟨g, hg, heq⟩ := Option.map_eq_some_iff.mp h
    cases heq
    exact ⟨hg, by unfold scopy; rw [List.take_take, min_self]⟩
  · rw [if_neg h1] at h
    obtain ⟨d, -, hd⟩ := List.exists_of_findSome?_eq_some h
    obtain ⟨g, hg, heq⟩ := Option.map_eq_some_iff.mp hd
    cases heq
    exact ⟨hg, by unfold scopy joinPath; rw [List.take_take, min_self]⟩

def finish (r : Loaded) : Except Stop Loader :=
    r.bind fun r => if r.1 = none then .error .died else .ok r.2

theorem finish_found (x : Except Stop Loader) (i : Nat) : finish (x.bind fun l => .ok (some i, l)) =
    x := by
  cases x <;> rfl

def LoadAgree (env : Env) (main : Obj) : Except Stop Loader → Option (List Name) → Prop
  | .ok l, some done => ∃ ns, done = [main.name, main.soname] ++ ns ∧ Reached env main ns l
  | .error _, none => True
  | _, _ => False

theorem loadAll_agree {fuel : Nat} {names : List Name}
    (hcall : ∀ {n ns l}, env.Needed main n → Reached env main ns l →
      LoadAgree env main (finish (loadNeeded env fuel n l))
        (explore env.needs fuel n ([main.name, main.soname] ++ ns)))
    (hnames : ∀ n ∈ names, env.Needed main n) (h : Reached env main ns l) :
    LoadAgree env main (loadAll (loadNeeded env fuel) names l)
      (names.foldlM (fun d j => explore env.needs fuel j d) ([main.name, main.soname] ++ ns)) := by
  induction names generalizing ns l with
  | nil => exact ⟨ns, rfl, h⟩
  | cons a names ih =>
    have ha := hcall (hnames a mem_cons_self) h
    unfold loadAll
    rw [List.foldlM_cons, List.foldlM_cons]
    unfold finish at ha
    revert ha
    generalize (loadNeeded env fuel a l).bind
      (fun r => if r.1 = none then Except.error Stop.died else Except.ok r.2) = x
    generalize explore env.needs fuel a ([main.name, main.soname] ++ ns) = v
    intro ha
    cases x with
    | error e =>
      cases v with
      | none => trivial
      | some done => exact ha.elim
    | ok l' =>
      cases v with
      | none => exact ha.elim
      | some done =>
        obtain ⟨ns', rfl, h'⟩ := ha
        exact ih (fun m hm => hnames m (List.mem_cons_of_mem _ hm)) h'

theorem Needed.step (hn : env.Needed main n) (hm : m ∈ env.needs n) : env.Needed main m := by
  obtain ⟨r, hr, hrn⟩ := hn
  exact ⟨r, hr, hrn.tail hm⟩

theorem loadNeeded_agree (hl : Libraries env main) (hn : env.Needed main n)
    (h : Reached env main ns l) :
    LoadAgree env main (finish (loadNeeded env fuel n l))
      (explore env.needs fuel n ([main.name, main.soname] ++ ns)) := by
  induction fuel generalizing n ns l with
  | zero => trivial
  | succ fuel ih =>
    have hne := Needed.nonempty hl hn
    unfold loadNeeded explore
    by_cases hfound : n ∈ [main.name, main.soname] ++ ns
    · rw [if_pos hfound]
      cases hf : findObjName l.objs n with
      | none => exact absurd hfound ((h.table.found hne).mp hf)
      | some i => exact ⟨ns, rfl, h⟩
    · have hnone := (h.table.found hne).mpr hfound
      obtain ⟨path, f, hloc, -, -⟩ := hl.file n hn
      obtain ⟨hfile, -⟩ := files_of_locate hloc
      obtain ⟨l', hl', hload⟩ := loadOne_loads hl h hn hfound hloc hfile (loadNeeded env fuel)
      obtain ⟨hlen, -⟩ := h.room hl hn fun h0 => hfound (List.mem_append_right _ h0)
      have hnext := loadAll_agree ih (fun m hm => Needed.step hn hm) hl'
      rw [if_neg hfound, hnone, append_assoc]
      dsimp only
      rw [if_neg hne]
      unfold Env.locate at hloc
      rw [if_neg hne] at hloc
      by_cases hslash : n.head? = some slash
      · rw [if_pos hslash] at hloc
        obtain ⟨g, -, heq⟩ := Option.map_eq_some_iff.mp hloc
        cases heq
        rw [if_pos hslash, hload, finish_found]
        exact hnext
      · rw [if_neg hslash] at hloc
        rw [if_neg hslash, loadFromDirs_eq hlen hnone hloc hload, finish_found]
        exact hnext

def Env.pathOf (env : Env) (name : Name) : Name :=
  match env.locate name with
  | none => []
  | some (path, _) => path

theorem pathOf_of_locate (h : env.locate n = some (path, f)) : env.pathOf n = path := by
  unfold Env.pathOf
  rw [h]

theorem Table.libs (h : Table env main ns l) : ∃ libs, l.objs = main :: libs ∧
    libs.map Obj.path = ns.map env.pathOf ∧ (libs.Pairwise fun a b => Disjoint a.range b.range) ∧
      ∀ o ∈ libs, (o.maxVaddr + o.base).toNat ≤ l.nextBase.toNat := by
  induction h with
  | main => exact ⟨[], rfl, rfl, .nil, fun _ h => absurd h not_mem_nil⟩
  | @load ns l n path f o next _ located _ _ _ image base ih =>
    obtain ⟨libs, hobjs, hpaths, hdisj, hupper⟩ := ih
    refine ⟨libs ++ [o], by rw [hobjs]; rfl, ?_, ?_, ?_⟩
    · rw [map_append, map_append, hpaths, map_singleton, map_singleton, image.path,
        (files_of_locate located).2, pathOf_of_locate located]
    · refine List.pairwise_append.mpr ⟨hdisj, List.pairwise_singleton _ _, fun a ha b hb => ?_⟩
      rw [mem_singleton.mp hb]
      refine Set.disjoint_left.mpr fun x hx hx' => ?_
      have h1 : x < (a.maxVaddr + a.base).toNat := hx.2
      have h2 : (o.minVaddr + o.base).toNat ≤ x := hx'.1
      have := hupper a ha
      have := image.lower
      omega
    · intro a ha
      dsimp only
      rcases mem_append.mp ha with ha | ha
      · have := hupper a ha
        omega
      · rw [mem_singleton.mp ha, image.upper]
        omega

theorem reached_start : Reached env main [] { objs := [main] } :=
  ⟨.main, List.nodup_nil, fun _ h => absurd h not_mem_nil⟩

theorem needed_root (hn : n ∈ main.needed) : env.Needed main n := ⟨n, hn, .refl⟩

theorem loadMain_grown (hl : Libraries env main) (h : loadMain env fuel main = .ok l) :
    ∃ ns, Reached env main ns l ∧ Grown env.needs main.needed [main.name, main.soname] ns := by
  have hagree := @loadAll_agree _ _ _ _ fuel _ (fun hn h => loadNeeded_agree hl hn h)
    (fun n hn => needed_root hn)
    (@reached_start env main)
  rw [append_nil] at hagree
  unfold loadMain at h
  rw [h] at hagree
  cases hv : main.needed.foldlM (fun d j => explore env.needs fuel j d) [main.name, main.soname] with
  | none =>
    rw [hv] at hagree
    exact hagree.elim
  | some done =>
    rw [hv] at hagree
    obtain ⟨ns, rfl, hreach⟩ := hagree
    obtain ⟨new, heq, hgrown⟩ := explore_fold_grown (fun h => explore_grown h) hv
    rw [List.append_cancel_left heq] at hreach
    exact ⟨new, hreach, hgrown⟩

theorem loadMain_ends (hl : Libraries env main) : ∃ fuel l, loadMain env fuel main = .ok l := by
  have hclosed : ∀ n ∈ hl.finite.toFinset, ∀ m ∈ env.needs n, m ∈ hl.finite.toFinset := by
    intro n hn m hm
    rw [hl.finite.mem_toFinset] at hn ⊢
    exact Needed.step hn hm
  have hfuel : ∀ done : List Name, (hl.finite.toFinset \ done.toFinset).card <
      hl.finite.toFinset.card + 1 :=
    fun done => Nat.lt_succ_of_le (Finset.card_le_card Finset.sdiff_subset)
  obtain ⟨done, hdone⟩ :=
    explore_fold_ends (l := main.needed) (fun n hn => hl.finite.mem_toFinset.mpr (needed_root hn))
    (fun n hn done _ => explore_ends hclosed hn (hfuel done)) (hfuel [main.name, main.soname])
  have hagree :=
    @loadAll_agree _ _ _ _ (hl.finite.toFinset.card + 1) _ (fun hn h => loadNeeded_agree hl hn h)
    (fun n hn => needed_root hn) (@reached_start env main)
  rw [append_nil, hdone] at hagree
  refine ⟨hl.finite.toFinset.card + 1, ?_⟩
  unfold loadMain
  revert hagree
  generalize loadAll (loadNeeded env (hl.finite.toFinset.card + 1)) main.needed { objs := [main] } = x
  intro hagree
  cases x with
  | error e => exact hagree.elim
  | ok l => exact ⟨l, rfl⟩

theorem locate_pathOf (hl : Libraries env main) (hn : env.Needed main n) : ∃ f,
    env.locate n = some (env.pathOf n, f) := by
  obtain ⟨path, f, hloc, -⟩ := hl.file n hn
  exact ⟨f, by rw [pathOf_of_locate hloc, hloc]⟩

theorem pathOf_injective (hl : Libraries env main) (hn : env.Needed main n) (hm : env.Needed main m)
    (h : env.pathOf n = env.pathOf m) : n = m := by
  obtain ⟨f, hf⟩ := locate_pathOf hl hn
  obtain ⟨g, hg⟩ := locate_pathOf hl hm
  rw [← h] at hg
  exact hl.single n m _ f g hn hm hf hg

theorem LoadedOnce.names (hl : Libraries env main) (h : LoadedOnce env main)
    (hn : env.Needed main n) :
    n ≠ main.name ∧ n ≠ main.soname := by
  obtain ⟨fuel, l, libs, hload, hobjs, -, hpaths, -⟩ := h
  obtain ⟨ns, hreach, hgrown⟩ := loadMain_grown hl hload
  obtain ⟨libs', hobjs', hmap, -⟩ := hreach.table.libs
  rw [hobjs, List.cons_inj_right] at hobjs'
  obtain ⟨f, hf⟩ := locate_pathOf hl hn
  have hmem := (hpaths (env.pathOf n)).mpr ⟨n, f, hn, hf⟩
  rw [hobjs', hmap] at hmem
  obtain ⟨m, hm, hpath⟩ := mem_map.mp hmem
  rw [← pathOf_injective hl (hreach.needed m hm) hn hpath]
  have hfresh := hgrown.fresh m hm
  rw [mem_cons, mem_singleton, not_or] at hfresh
  exact hfresh

theorem Grown.covers (hgrown : Grown env.needs main.needed [main.name, main.soname] ns)
    (hnames : ∀ n, env.Needed main n → n ≠ main.name ∧ n ≠ main.soname) (hn : env.Needed main n) :
      n ∈ ns := by
  have hin : ∀ n, env.Needed main n → n ∈ [main.name, main.soname] ++ ns → n ∈ ns := by
    intro n hn hmem
    rcases mem_append.mp hmem with hmem | hmem
    · rw [mem_cons, mem_singleton] at hmem
      rcases hmem with h0 | h0
      · exact absurd h0 (hnames n hn).1
      · exact absurd h0 (hnames n hn).2
    · exact hmem
  obtain ⟨r, hr, hrn⟩ := hn
  induction hrn with
  | refl => exact hin r (needed_root hr) (hgrown.marked r hr)
  | @tail m n hrm hmn ih => exact hin n ⟨r, hr, hrm.tail hmn⟩ (hgrown.closed m ih n hmn)

theorem loaded_once_iff (env : Env) (main : Obj) (hl : Libraries env main) :
    LoadedOnce env main ↔ ∀ n, env.Needed main n → n ≠ main.name ∧ n ≠ main.soname := by
  refine ⟨fun h n hn => h.names hl hn, fun hnames => ?_⟩
  obtain ⟨fuel, l, hload⟩ := loadMain_ends hl
  obtain ⟨ns, hreach, hgrown⟩ := loadMain_grown hl hload
  obtain ⟨libs, hobjs, hmap, hdisj, -⟩ := hreach.table.libs
  refine ⟨fuel, l, libs, hload, hobjs, ?_, fun path => ?_, hdisj⟩
  · rw [hmap]
    exact hreach.nodup.map_on fun a ha b hb h => pathOf_injective hl (hreach.needed a ha)
      (hreach.needed b hb) h
  rw [hmap, mem_map]
  refine ⟨?_, ?_⟩
  · rintro ⟨n, hn, rfl⟩
    obtain ⟨f, hf⟩ := locate_pathOf hl (hreach.needed n hn)
    exact ⟨n, f, hreach.needed n hn, hf⟩
  · rintro ⟨n, f, hn, hf⟩
    exact ⟨n, Grown.covers hgrown hnames hn, pathOf_of_locate hf⟩

def libFile (needed : Name) : ElfFile where
  size := 4096
  ehdr := {
    magic := [0x7f, 0x45, 0x4c, 0x46]
    class_ := 2
    data := 1
    type := etDyn
    machine := 62
    version := 1
    phoff := 64
    ehsize := 64
    phentsize := 56
    phnum := 2 }
  phdrs := [{ type := .load, offset := 0, vaddr := 0, filesz := 4096, memsz := 4096, align := 4096 },
    { type := .dynamic, offset := 0x400, vaddr := 0x400, filesz := 96, memsz := 96, align := 8 }]
  dyn := [(.needed, 1), (.strtab, 0x500), (.strsz, 0x40), (.symtab, 0x600), (.hash, 0x700)]
  strtab i := (0 :: needed).getD i 0
  hashSyms := 1

def Spelled (n : Name) : Prop := (libFile n).strValid 1 = true ∧ (libFile n).strAt 1 = n ∧
    n.length < nameCapacity

instance (n : Name) : Decidable (Spelled n) := inferInstanceAs (Decidable (_ ∧ _))

theorem libFile_dt (n : Name) (tag : DynTag) : (libFile n).dt tag = (libFile []).dt tag := rfl

theorem libFile_inside (n : Name) (h : a.toNat + k ≤ 4096) : (libFile n).Inside a k :=
  ⟨_, mem_cons_self, rfl, Nat.zero_le _,
    by rwa [show (0 : Word).toNat + (4096 : Word).toNat = 4096 from rfl]⟩

theorem libFile_dynamicOk (h : Spelled n) : (libFile n).DynamicOk := by
  refine ⟨show (libFile []).dyn.length ≤ maxDyn by decide, rfl, rfl, ?_, ?_, fun h0 => absurd rfl h0,
    fun h0 => absurd rfl h0, .inl ?_, show ((libFile []).dyn.filter _).length ≤
      maxNeeded by decide, ?_, ?_⟩
  · rw [libFile_dt n .strtab, libFile_dt n .strsz]
    exact ⟨by decide, by decide, libFile_inside n (by decide)⟩
  · rw [libFile_dt]
    exact ⟨by decide, libFile_inside n (by decide)⟩
  · rw [libFile_dt]
    exact ⟨by decide, libFile_inside n (by decide), show (libFile []).hashSyms ≠ 0 by decide⟩
  · intro e he hneeded
    have hone : ∀ e ∈ (libFile []).dyn, e.1 = .needed → e.2 = 1 := by decide
    rw [hone e he hneeded]
    exact ⟨h.1, by rw [h.2.1]; exact h.2.2⟩
  · have hnone : ∀ e ∈ (libFile []).dyn, e.1 ≠ .soname := by decide
    exact fun e he hsoname => absurd hsoname (hnone e he)

theorem libFile_wellFormed (h : Spelled n) : (libFile n).WellFormed where
  header := show (libFile []).ehdr.Shared (libFile []).size from
    ⟨rfl, rfl, rfl, rfl, rfl, rfl, by decide, rfl, by decide, by decide, by decide⟩
  segments p hp ht := by
    rcases mem_cons.mp hp with rfl | hp
    · exact ⟨by decide, show (0 : Word).toNat + (4096 : Word).toNat ≤ (4096 : Word).toNat by decide, by decide,
        .inr ⟨12, by decide, by decide⟩⟩
    · cases mem_singleton.mp hp
      cases ht
  nonempty := ⟨_, mem_cons_self, rfl, by decide⟩
  templates p hp ht := by
    have hnone : ∀ p ∈ (libFile []).phdrs, p.type ≠ .tls := by decide
    exact absurd ht (hnone p hp)
  dynamicAt p hp ht := by
    have hat : ∀ p ∈ (libFile []).phdrs, p.type = .dynamic → p.vaddr = 0x400 := by decide
    rw [hat p hp ht]
    exact libFile_inside n (by decide)
  dynamicOk _ := libFile_dynamicOk h

def pairEnv (a b : Name) : Env where
  files path := if path = joinPath (text "/system/lib/") a then some (libFile b)
    else if path = joinPath (text "/system/lib/") b then some (libFile a) else none
  mmap addr _ := some addr

def pairMain (a : Name) : Obj := { name := text "(main)", needed := [a], isMain := true }

def Paired (a b : Name) : Prop :=
  (∀ n ∈ [a, b], Spelled n ∧ n ≠ [] ∧ n.head? ≠ some slash) ∧ a ≠ b ∧
    joinPath (text "/system/lib/") b ≠ joinPath (text "/system/lib/") a

instance (a b : Name) : Decidable (Paired a b) := inferInstanceAs (Decidable (_ ∧ _))

section
variable {a b : Name} (h : Paired a b)
include h

theorem pair_locate : (pairEnv a b).locate a = some (joinPath (text "/system/lib/") a, libFile b) ∧
    (pairEnv a b).locate b = some (joinPath (text "/system/lib/") b, libFile a) := by
  obtain ⟨-, ha, ha'⟩ := h.1 a (by simp)
  obtain ⟨-, hb, hb'⟩ := h.1 b (by simp)
  have hfound : ∀ n f, n ≠ [] → n.head? ≠ some slash →
    (pairEnv a b).files (joinPath (text "/system/lib/") n) = some f →
      (pairEnv a b).locate n = some (joinPath (text "/system/lib/") n, f) := by
    intro n f h0 hs hf
    rw [Env.locate, if_neg h0, if_neg hs, dirs, List.findSome?_cons, hf, Option.map_some]
  exact ⟨hfound a _ ha ha' (if_pos rfl), hfound b _ hb hb' ((if_neg h.2.2).trans (if_pos rfl))⟩

theorem pair_needs : (pairEnv a b).needs a = [b] ∧ (pairEnv a b).needs b = [a] := by
  have hnames : ∀ n ∈ [a, b], (libFile n).neededNames = [n] := by
    intro n hn
    have hdyn : (libFile n).HasDynamic := show (libFile []).HasDynamic by decide
    rw [ElfFile.neededNames, if_pos hdyn]
    exact congrArg (fun x => [x]) (h.1 n hn).1.2.1
  obtain ⟨ha, hb⟩ := pair_locate h
  exact ⟨(needs_of_locate ha).trans (hnames b (by simp)),
    (needs_of_locate hb).trans (hnames a (by simp))⟩

theorem pair_needed (n : Name) : (pairEnv a b).Needed (pairMain a) n ↔ n = a ∨ n = b := by
  obtain ⟨ha, hb⟩ := pair_needs h
  refine ⟨?_, ?_⟩
  · rintro ⟨r, hr, hrn⟩
    rw [mem_singleton.mp hr] at hrn
    induction hrn with
    | refl => exact .inl rfl
    | tail _ hstep ih =>
      rcases ih with rfl | rfl
      · rw [Leads, ha] at hstep
        exact .inr (mem_singleton.mp hstep)
      · rw [Leads, hb] at hstep
        exact .inl (mem_singleton.mp hstep)
  · rintro (rfl | rfl)
    · exact needed_root mem_cons_self
    · refine ⟨a, mem_cons_self, .single ?_⟩
      rw [Leads, ha]
      exact mem_cons_self

theorem pair_libraries : Libraries (pairEnv a b) (pairMain a) := by
  obtain ⟨ha, hb⟩ := pair_locate h
  have hset : {n | (pairEnv a b).Needed (pairMain a) n} = {a, b} := Set.ext fun n => pair_needed h n
  have hfin : {n | (pairEnv a b).Needed (pairMain a) n}.Finite := hset ▸ Set.toFinite {a, b}
  have hto : hfin.toFinset = {a, b} := by
    ext n
    rw [hfin.mem_toFinset, Finset.mem_insert, Finset.mem_singleton]
    exact pair_needed h n
  have hspan : ∀ n, (libFile n).span = 4096 := fun n => show (libFile []).span = 4096 by decide
  have hsoname : ∀ n, (libFile n).sonameText = [] := fun n => rfl
  refine ⟨hfin, ?_, fun n hn => ?_, fun n hn => ?_, fun n m path f g hn hm hf hg => ?_, ?_,
    fun _ _ _ _ => rfl⟩
  · rw [hto, Finset.card_pair h.2.1]
    decide
  · rcases (pair_needed h n).mp hn with rfl | rfl
    · exact (h.1 n (by simp)).1.2.2
    · exact (h.1 n (by simp)).1.2.2
  · rcases (pair_needed h n).mp hn with rfl | rfl
    · exact ⟨_, _, ha, libFile_wellFormed (h.1 b (by simp)).1, .inl (hsoname b)⟩
    · exact ⟨_, _, hb, libFile_wellFormed (h.1 a (by simp)).1, .inl (hsoname a)⟩
  · rcases (pair_needed h n).mp hn with rfl | rfl <;> rcases (pair_needed h m).mp hm with rfl | rfl
    · rfl
    · cases hf.symm.trans ha
      exact absurd (congrArg Prod.fst (Option.some.inj (hb.symm.trans hg))) h.2.2
    · cases hf.symm.trans hb
      exact absurd (congrArg Prod.fst (Option.some.inj (hg.symm.trans ha))) h.2.2
    · rfl
  · rw [hto, Finset.sum_pair h.2.1, span_of_locate ha, span_of_locate hb, hspan, hspan]
    decide

end

theorem loaded_once_pair : LoadedOnce (pairEnv (text "liba.so") (text "libb.so"))
    (pairMain (text "liba.so")) := by
  have h : Paired (text "liba.so") (text "libb.so") := by decide
  refine (loaded_once_iff _ _ (pair_libraries h)).mpr fun n hn => ?_
  rcases (pair_needed h n).mp hn with rfl | rfl
  · exact ⟨by decide, by decide⟩
  · exact ⟨by decide, by decide⟩

theorem library_not_loaded : Libraries (pairEnv (text "liba.so") (text "(main)"))
    (pairMain (text "liba.so")) ∧
    ¬ LoadedOnce (pairEnv (text "liba.so") (text "(main)")) (pairMain (text "liba.so")) := by
  have h : Paired (text "liba.so") (text "(main)") := by decide
  exact ⟨pair_libraries h,
    fun h0 => (h0.names (pair_libraries h) ((pair_needed h _).mpr (.inr rfl))).1 rfl⟩

end BlockOS.Ldso
