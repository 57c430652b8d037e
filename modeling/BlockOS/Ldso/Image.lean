import BlockOS.Ldso.Objects

/-! Mapping a shared object: `validate_ehdr`, `map_image` and `parse_dynamic`. -/

namespace BlockOS.Ldso
open Words List
open BitVec (lt_def le_def ofNat not_lt)

def uint64Max : Word := 0xffffffffffffffff
def page : Word := 0x1000
def userMin : Word := 0x10000
def userMax : Word := 0x7ffff0000000
def libBase : Word := 0x600000000000
def libGap : Word := 0x10000000
def maxNeeded : Nat := 32
def maxDyn : Nat := 4096
def nameCapacity : Nat := 64
def maxPath : Nat := 256
def symSize : Word := 24
def relaSize : Word := 24

def pageDown (x : Word) : Word := x &&& ~~~(page - 1)

def pageUp (x : Word) : Word :=
  if x > uint64Max - (page - 1) then 0 else (x + page - 1) &&& ~~~(page - 1)

def rangeOk (base size : Word) : Bool :=
  !(size == 0 || base + size < base) && userMin ≤ base && base + size ≤ userMax

def scopy (src : Name) (cap : Nat) : Name := src.take (cap - 1)

structure Ehdr where
  magic : List Byte
  class_ : Byte
  data : Byte
  type : BitVec 16
  machine : BitVec 16
  version : BitVec 32
  phoff : Word
  ehsize : BitVec 16
  phentsize : BitVec 16
  phnum : BitVec 16

def etExec : BitVec 16 := 2
def etDyn : BitVec 16 := 3
def ehdrSize : Word := 64
def phdrSize : Word := 56

inductive SegType where
  | load
  | dynamic
  | tls
  | other
  deriving DecidableEq

structure Phdr where
  type : SegType
  offset : Word
  vaddr : Word
  filesz : Word
  memsz : Word
  align : Word

inductive DynTag where
  | needed
  | pltrelsz
  | hash
  | strtab
  | symtab
  | rela
  | relasz
  | relaent
  | strsz
  | syment
  | init
  | soname
  | jmprel
  | initArray
  | initArraySz
  | gnuHash
  | other
  deriving DecidableEq

structure ElfFile where
  size : Word
  ehdr : Ehdr
  phdrs : List Phdr
  dyn : List (DynTag × Word) := []
  strtab : Nat → Byte := fun _ => 0
  hashSyms : Word := 0
  gnuSyms : Word := 0

def validateEhdr (e : Ehdr) (size : Word) : Bool :=
  let phEnd := e.phoff + e.phnum.setWidth 64 * phdrSize
  !(size < ehdrSize) && e.magic == [0x7f, 0x45, 0x4c, 0x46] && e.class_ == 2 && e.data == 1 &&
    e.machine == 62 &&
    e.version == 1 && (e.type == etExec || e.type == etDyn) &&
      !(e.ehsize < 64 || e.phentsize != 56 || e.phnum == 0) &&
    !(phEnd < e.phoff || phEnd > size || e.phnum > 128)

structure Dynamics where
  val : DynTag → Option Word := fun _ => none
  neededOffsets : List Word := []

def Dynamics.read (d : Dynamics) (entry : DynTag × Word) : Dynamics :=
  if entry.1 = .needed then
    if d.neededOffsets.length < maxNeeded then
      { d with neededOffsets := d.neededOffsets ++ [entry.2] } else d
  else { d with val := Function.update d.val entry.1 (some entry.2) }

def ElfFile.dynamics (f : ElfFile) : Dynamics := (f.dyn.take maxDyn).foldl Dynamics.read {}

def ElfFile.dt (f : ElfFile) (tag : DynTag) : Word :=
  (f.dynamics.val tag).getD (if tag = .syment then symSize else if tag = .relaent then relaSize else 0)

def ElfFile.stringBytes (f : ElfFile) (off : Word) : List Byte :=
  (List.range ((f.dt .strsz).toNat - off.toNat)).map fun i => f.strtab (off.toNat + i)

def ElfFile.strValid (f : ElfFile) (off : Word) : Bool :=
  off < f.dt .strsz && (f.stringBytes off).contains 0

def ElfFile.strAt (f : ElfFile) (off : Word) : Name := (f.stringBytes off).takeWhile (· != 0)

def ElfFile.parseSoname (f : ElfFile) : Option Name :=
  ((f.dyn.take maxDyn).find? fun e => e.1 == .soname && e.2 < f.dt .strsz && f.strValid e.2).map fun e =>
    scopy (f.strAt e.2) nameCapacity

def Obj.tableAddr (o : Obj) (link : Word) : Word := if link ≠ 0 then o.base + link else 0

def ElfFile.countSymbols (f : ElfFile) (o : Obj) : Word :=
  if o.tableAddr (f.dt .hash) ≠ 0 then f.hashSyms
  else if o.tableAddr (f.dt .gnuHash) ≠ 0 then f.gnuSyms
  else 0

def parseDynamic (f : ElfFile) (o : Obj) : Option Obj :=
  if f.dt .syment ≠ symSize ∨ f.dt .relaent ≠ relaSize then none
  else if f.dt .strtab = 0 ∨ f.dt .strsz = 0 ∨ f.dt .symtab = 0 then none
  else
    let strtab := o.base + f.dt .strtab
    let symtab := o.base + f.dt .symtab
    let rela := o.tableAddr (f.dt .rela)
    let relaCount := f.dt .relasz / relaSize
    let jmprel := o.tableAddr (f.dt .jmprel)
    let jmprelCount := f.dt .pltrelsz / relaSize
    let o := { o with
      init := (f.dynamics.val .init).elim o.init (o.base + ·)
      initArray := (f.dynamics.val .initArray).elim o.initArray (o.base + ·)
      initArraySz := (f.dynamics.val .initArraySz).getD o.initArraySz
      soname := if o.contains strtab (f.dt .strsz) then f.parseSoname.getD o.soname else o.soname }
    if !o.contains strtab (f.dt .strsz) || !o.contains symtab symSize then none
    else if rela ≠ 0 ∧ !o.contains rela (relaCount * relaSize) then none
    else if jmprel ≠ 0 ∧ !o.contains jmprel (jmprelCount * relaSize) then none
    else if f.countSymbols o = 0 then none
    else if f.dynamics.neededOffsets.all f.strValid then
      some { o with needed := f.dynamics.neededOffsets.map fun off => scopy (f.strAt off) nameCapacity }
    else none

structure Scan where
  minV : Word := uint64Max
  maxV : Word := 0
  dynp : Option Phdr := none
  tlsp : Option Phdr := none

def Phdr.loadable (p : Phdr) (size : Word) : Bool :=
  !(p.memsz < p.filesz) && !(p.offset + p.filesz < p.offset || p.offset + p.filesz > size) &&
    !(p.vaddr + p.memsz < p.vaddr) && !(p.align != 0 && p.align &&& (p.align - 1) != 0)

def Scan.read (size : Word) (s : Scan) (p : Phdr) : Option Scan :=
  match p.type with
  | .dynamic => some { s with dynp := some p }
  | .tls => some { s with tlsp := some p }
  | .other => some s
  | .load =>
    if p.loadable size then
      some { s with
        minV := if p.vaddr < s.minV then p.vaddr else s.minV
        maxV := if p.vaddr + p.memsz > s.maxV then p.vaddr + p.memsz else s.maxV }
    else none

def ElfFile.scan (f : ElfFile) : Option Scan := f.phdrs.foldlM (Scan.read f.size) {}

def Phdr.tlsOk (p : Phdr) : Bool :=
  let align := if p.align ≠ 0 then p.align else 1
  !(p.filesz > p.memsz || p.vaddr + p.memsz < p.vaddr || align &&& (align - 1) != 0)

def Phdr.copyOk (p : Phdr) (image : Obj) (chosen span : Word) : Bool :=
  let dst := image.base + p.vaddr
  p.type != .load || image.contains dst p.memsz ||
    !(dst < chosen || dst + p.memsz < dst || dst + p.memsz > chosen + span)

def mapImage (mmap : Word → Word → Option Word) (f : ElfFile) (name path : Name) (isMain : Bool)
    (requestedBase nextBase : Word) : Option (Obj × Word) :=
  let e := f.ehdr
  if !validateEhdr e f.size then none
  else if e.type = etExec ∧ !isMain then none
  else
    match f.scan with
    | none => none
    | some s =>
      if s.minV = uint64Max ∨ s.maxV ≤ s.minV then none
      else
        let vbase := pageDown s.minV
        let vend := pageUp s.maxV
        if vend = 0 ∨ vend < vbase then none
        else
          let span := vend - vbase
          let chosen := if e.type = etExec then vbase
            else if requestedBase ≠ 0 then pageDown requestedBase else pageDown nextBase
          if span = 0 then none
          else if e.type ≠ etExec ∧
            (chosen < userMin ∨ chosen + span < chosen ∨ chosen + span > userMax) then none
          else if mmap chosen span ≠ some chosen then none
          else if !rangeOk chosen span then none
          else
            let bias := if e.type = etDyn then chosen - vbase else 0
            let o : Obj := {
              name := scopy name nameCapacity
              path := scopy path maxPath
              base := bias
              minVaddr := vbase
              maxVaddr := vend
              isMain := isMain }
            if !f.phdrs.all (fun p => p.copyOk o chosen span) then none
            else if !s.tlsp.all Phdr.tlsOk then none
            else
              let parsed := match s.dynp with
                | none => some o
                | some p => if bias + p.vaddr ≠ 0 then parseDynamic f o else some o
              parsed.map fun o =>
                let next := pageUp (chosen + span + libGap)
                (o, if e.type = etDyn ∧ next > nextBase then next else nextBase)

def ElfFile.Inside (f : ElfFile) (addr : Word) (n : Nat) : Prop :=
  ∃ p ∈ f.phdrs, p.type = .load ∧ p.vaddr.toNat ≤ addr.toNat ∧
    addr.toNat + n ≤ p.vaddr.toNat + p.memsz.toNat

def ElfFile.HasDynamic (f : ElfFile) : Prop := ∃ p ∈ f.phdrs, p.type = .dynamic

instance (f : ElfFile) : Decidable f.HasDynamic :=
    inferInstanceAs (Decidable (∃ p ∈ f.phdrs, p.type = .dynamic))

structure Ehdr.Shared (e : Ehdr) (size : Word) : Prop where
  magic : e.magic = [0x7f, 0x45, 0x4c, 0x46]
  class_ : e.class_ = 2
  data : e.data = 1
  machine : e.machine = 62
  version : e.version = 1
  type : e.type = etDyn
  ehsize : 64 ≤ e.ehsize.toNat
  phentsize : e.phentsize = 56
  phnum : 0 < e.phnum.toNat ∧ e.phnum.toNat ≤ 128
  headers : e.phoff.toNat + e.phnum.toNat * 56 ≤ size.toNat
  size : 64 ≤ size.toNat

structure Phdr.Loadable (p : Phdr) (size : Word) : Prop where
  file : p.filesz.toNat ≤ p.memsz.toNat
  inFile : p.offset.toNat + p.filesz.toNat ≤ size.toNat
  inSpace : p.vaddr.toNat + p.memsz.toNat + 4096 ≤ 2 ^ 64
  align : p.align = 0 ∨ ∃ k < 64, p.align.toNat = 2 ^ k

structure Phdr.Template (p : Phdr) : Prop where
  file : p.filesz.toNat ≤ p.memsz.toNat
  inSpace : p.vaddr.toNat + p.memsz.toNat < 2 ^ 64
  align : p.align = 0 ∨ ∃ k < 64, p.align.toNat = 2 ^ k

def ElfFile.Text (f : ElfFile) (off : Word) : Prop := f.strValid off = true ∧
    (f.strAt off).length < nameCapacity

structure ElfFile.DynamicOk (f : ElfFile) : Prop where
  short : f.dyn.length ≤ maxDyn
  syment : f.dt .syment = symSize
  relaent : f.dt .relaent = relaSize
  strtab : f.dt .strtab ≠ 0 ∧ f.dt .strsz ≠ 0 ∧ f.Inside (f.dt .strtab) (f.dt .strsz).toNat
  symtab : f.dt .symtab ≠ 0 ∧ f.Inside (f.dt .symtab) symSize.toNat
  rela : f.dt .rela ≠ 0 → f.Inside (f.dt .rela) (f.dt .relasz).toNat
  jmprel : f.dt .jmprel ≠ 0 → f.Inside (f.dt .jmprel) (f.dt .pltrelsz).toNat
  symbols : f.dt .hash ≠ 0 ∧ f.Inside (f.dt .hash) 1 ∧ f.hashSyms ≠ 0 ∨
    f.dt .hash = 0 ∧ f.dt .gnuHash ≠ 0 ∧ f.Inside (f.dt .gnuHash) 1 ∧ f.gnuSyms ≠ 0
  few : (f.dyn.filter fun e => e.1 = .needed).length ≤ maxNeeded
  needed : ∀ e ∈ f.dyn, e.1 = .needed → f.Text e.2
  soname : ∀ e ∈ f.dyn, e.1 = .soname → f.Text e.2

structure ElfFile.WellFormed (f : ElfFile) : Prop where
  header : f.ehdr.Shared f.size
  segments : ∀ p ∈ f.phdrs, p.type = .load → p.Loadable f.size
  nonempty : ∃ p ∈ f.phdrs, p.type = .load ∧ p.memsz ≠ 0
  templates : ∀ p ∈ f.phdrs, p.type = .tls → p.Template
  dynamicAt : ∀ p ∈ f.phdrs, p.type = .dynamic → f.Inside p.vaddr 1
  dynamicOk : f.HasDynamic → f.DynamicOk

def ElfFile.neededNames (f : ElfFile) : List Name :=
  if f.HasDynamic then (f.dyn.filter fun e => e.1 = .needed).map fun e => f.strAt e.2 else []

def ElfFile.sonameText (f : ElfFile) : Name :=
  if f.HasDynamic then ((f.dyn.find? fun e => e.1 == .soname).map fun e => f.strAt e.2).getD [] else []

def ElfFile.span (f : ElfFile) : Nat :=
  match f.scan with
  | none => 0
  | some s => (pageUp s.maxV).toNat - (pageDown s.minV).toNat

variable {f : ElfFile}

theorem toNat_pageDown (x : Word) : (pageDown x).toNat = x.toNat / 4096 * 4096 :=
  toNat_and_not_mask x page 12 (by decide) rfl

theorem toNat_pageUp (h : x.toNat + 4096 ≤ 2 ^ 64) : (pageUp x).toNat = ceilTo 4096 x.toNat := by
  unfold pageUp
  rw [if_neg]
  · rw [toNat_and_not_mask _ page 12 (by decide) rfl]
    have hsum : (x + page - 1).toNat = x.toNat + 4095 := by
      unfold page
      bv_omega
    rw [hsum]
    rfl
  · unfold page uint64Max
    bv_omega

theorem validateEhdr_shared (h : f.ehdr.Shared f.size) : validateEhdr f.ehdr f.size = true := by
  have hsize : ¬ f.size < ehdrSize := by
    have := h.size
    unfold ehdrSize
    bv_omega
  have hnum := h.phnum
  have hend := h.headers
  have htab : (f.ehdr.phoff + f.ehdr.phnum.setWidth 64 * phdrSize).toNat = f.ehdr.phoff.toNat +
      f.ehdr.phnum.toNat * 56 := by
    rw [BitVec.toNat_add, BitVec.toNat_mul, BitVec.toNat_setWidth]
    rw [Nat.mod_eq_of_lt (by omega : f.ehdr.phnum.toNat < 2 ^ 64)]
    show (_ + f.ehdr.phnum.toNat * 56 % 2 ^ 64) % 2 ^ 64 = _
    rw [Nat.mod_eq_of_lt (by omega : f.ehdr.phnum.toNat * 56 < 2 ^ 64), Nat.mod_eq_of_lt (by omega)]
  have h1 : ¬ f.ehdr.phoff + f.ehdr.phnum.setWidth 64 * phdrSize < f.ehdr.phoff := by
    rw [lt_def, htab]
    omega
  have h2 : ¬ f.ehdr.phoff + f.ehdr.phnum.setWidth 64 * phdrSize > f.size := by
    rw [gt_iff_lt, lt_def, htab]
    omega
  have h3 : f.ehdr.phnum ≤ 128#16 := by bv_omega
  have h4 : 64#16 ≤ f.ehdr.ehsize := by
    have := h.ehsize
    bv_omega
  have h5 : f.ehdr.phnum ≠ 0#16 := by bv_omega
  simp [validateEhdr, hsize, h.magic, h.class_, h.data, h.machine, h.version, h.type, h.phentsize,
    h1, h2, h3, h4, h5]

theorem pow2_and_pred {x : Word} (h : x = 0 ∨ ∃ k < 64, x.toNat = 2 ^ k) :
    x = 0 ∨ x &&& (x - 1) = 0 := by
  by_cases hx : x = 0
  · exact .inl hx
  · exact .inr ((and_sub_one_eq_zero_iff x hx).mpr (h.resolve_left hx))

theorem loadable_of_wellFormed {p : Phdr} (h : p.Loadable size) : p.loadable size = true := by
  have h1 := h.file
  have h2 := h.inFile
  have h3 := h.inSpace
  have hfile : ¬ p.memsz < p.filesz := by bv_omega
  have hoff : ¬ p.offset + p.filesz < p.offset := by bv_omega
  have hsize : ¬ p.offset + p.filesz > size := by bv_omega
  have hwrap : ¬ p.vaddr + p.memsz < p.vaddr := by bv_omega
  have halign := pow2_and_pred h.align
  unfold Phdr.loadable
  simp only [hfile, hoff, hsize, hwrap, decide_false, Bool.or_false, Bool.not_false, Bool.true_and,
    Bool.not_eq_true', Bool.and_eq_false_iff, bne_eq_false_iff_eq]
  exact halign

theorem tlsOk_of_template {p : Phdr} (h : p.Template) : p.tlsOk = true := by
  have h1 := h.file
  have h2 := h.inSpace
  have hfile : ¬ p.filesz > p.memsz := by bv_omega
  have hwrap : ¬ p.vaddr + p.memsz < p.vaddr := by bv_omega
  have halign : (if p.align ≠ 0 then p.align else 1) &&& ((if p.align ≠ 0 then p.align else 1) - 1)
      = 0 := by
    by_cases h0 : p.align = 0
    · rw [if_neg (not_not.mpr h0)]
      rfl
    · rw [if_pos h0]
      exact (pow2_and_pred h.align).resolve_left h0
  unfold Phdr.tlsOk
  simp only [hfile, hwrap, halign, decide_false, Bool.or_false, bne_self_eq_false, Bool.not_false]

structure Scan.Covers (seen : List Phdr) (s : Scan) : Prop where
  low : ∀ p ∈ seen, p.type = .load → s.minV.toNat ≤ p.vaddr.toNat
  high : ∀ p ∈ seen, p.type = .load → p.vaddr.toNat + p.memsz.toNat ≤ s.maxV.toNat
  top : s.maxV.toNat + 4096 ≤ 2 ^ 64
  dynp : ∀ p, s.dynp = some p → p ∈ seen ∧ p.type = .dynamic
  found : (∃ p ∈ seen, p.type = .dynamic) → s.dynp ≠ none
  tlsp : ∀ p, s.tlsp = some p → p ∈ seen ∧ p.type = .tls

theorem Scan.Covers.read {s : Scan} {p : Phdr} {size : Word} (h : s.Covers seen)
    (hp : p.type = .load → p.Loadable size) : ∃ s', s.read size p = some s' ∧
      s'.Covers (seen ++ [p]) := by
  -- a header that is not loadable leaves the bounds as they are
  have hold : ∀ {P : Phdr → Prop}, p.type ≠ .load → (∀ q ∈ seen, q.type = .load → P q) →
      ∀ q ∈ seen ++ [p], q.type = .load → P q := by
    intro P hne hall q hq hload
    rcases mem_append.mp hq with hq | hq
    · exact hall q hq hload
    · rw [mem_singleton.mp hq] at hload
      exact absurd hload hne
  have hmore : ∀ {q : Phdr} {t : SegType}, q ∈ seen ∧ q.type = t → q ∈ seen ++ [p] ∧ q.type = t :=
    fun hq => ⟨mem_append_left _ hq.1, hq.2⟩
  have hnone : p.type ≠ .dynamic → (∃ q ∈ seen ++ [p], q.type = .dynamic) → s.dynp ≠ none := by
    rintro hne ⟨q, hq, hdyn⟩
    rcases mem_append.mp hq with hq | hq
    · exact h.found ⟨q, hq, hdyn⟩
    · rw [mem_singleton.mp hq] at hdyn
      exact absurd hdyn hne
  have hself : p ∈ seen ++ [p] := mem_append_right _ (mem_singleton_self p)
  unfold Scan.read
  cases ht : p.type with
  | dynamic =>
    refine ⟨_, rfl, hold (by simp [ht]) h.low, hold (by simp [ht]) h.high, h.top, ?_,
      fun _ => Option.some_ne_none _, fun q hq => hmore (h.tlsp q hq)⟩
    rintro q hq
    cases hq
    exact ⟨hself, ht⟩
  | tls =>
    refine ⟨_, rfl, hold (by simp [ht]) h.low, hold (by simp [ht]) h.high, h.top,
      fun q hq => hmore (h.dynp q hq),
      hnone (by simp [ht]), ?_⟩
    rintro q hq
    cases hq
    exact ⟨hself, ht⟩
  | other =>
    exact ⟨s, rfl, hold (by simp [ht]) h.low, hold (by simp [ht]) h.high, h.top,
      fun q hq => hmore (h.dynp q hq),
      hnone (by simp [ht]), fun q hq => hmore (h.tlsp q hq)⟩
  | load =>
    have hspace := (hp ht).inSpace
    have hend : (p.vaddr + p.memsz).toNat = p.vaddr.toNat + p.memsz.toNat := toNat_add_of_lt (by omega)
    rw [if_pos (loadable_of_wellFormed (hp ht))]
    refine ⟨_, rfl, ?_, ?_, ?_, fun q hq => hmore (h.dynp q hq), hnone (by simp [ht]),
      fun q hq => hmore (h.tlsp q hq)⟩
    · intro q hq hload
      rcases mem_append.mp hq with hq | hq
      · have := h.low q hq hload
        split <;> bv_omega
      · rw [mem_singleton.mp hq]
        split <;> bv_omega
    · intro q hq hload
      dsimp only
      rcases mem_append.mp hq with hq | hq
      · have := h.high q hq hload
        split <;> bv_omega
      · rw [mem_singleton.mp hq]
        split <;> bv_omega
    · dsimp only
      have := h.top
      split <;> omega

theorem scan_covers (hf : f.WellFormed) : ∃ s, f.scan = some s ∧ s.Covers f.phdrs := by
  have hfold : ∀ (l seen : List Phdr) (s : Scan), (∀ p ∈ l, p.type = .load → p.Loadable f.size) →
    s.Covers seen →
      ∃ s', l.foldlM (Scan.read f.size) s = some s' ∧ s'.Covers (seen ++ l) := by
    intro l
    induction l with
    | nil => exact fun seen s _ h => ⟨s, rfl, by rwa [append_nil]⟩
    | cons p l ih =>
      intro seen s hl h
      obtain ⟨s1, hs1, hc1⟩ := h.read (hl p mem_cons_self)
      obtain ⟨s2, hs2, hc2⟩ := ih (seen ++ [p]) s1 (fun q hq => hl q (mem_cons_of_mem _ hq)) hc1
      exact ⟨s2, by rw [foldlM_cons, hs1]; exact hs2, by rwa [append_assoc] at hc2⟩
  exact hfold f.phdrs [] {} hf.segments
    ⟨fun _ h => absurd h not_mem_nil, fun _ h => absurd h not_mem_nil, by decide, nofun,
      fun ⟨_, h, _⟩ => absurd h not_mem_nil, nofun⟩

theorem contains_inside {o : Obj} {chosen a n : Word} (hbase : o.base = chosen - o.minVaddr)
    (hlo : o.minVaddr.toNat ≤ a.toNat) (hhi : a.toNat + n.toNat ≤ o.maxVaddr.toNat)
    (hfit : chosen.toNat + (o.maxVaddr.toNat - o.minVaddr.toNat) < 2 ^ 64) :
    (o.base + a).toNat = chosen.toNat + (a.toNat - o.minVaddr.toNat) ∧ o.contains (o.base + a) n =
      true := by
  have haddr : (o.base + a).toNat = chosen.toNat + (a.toNat - o.minVaddr.toNat) := by
    bv_omega
  refine ⟨haddr, ?_⟩
  have hend : (o.base + a + n).toNat = chosen.toNat + (a.toNat - o.minVaddr.toNat) + n.toNat :=
    by bv_omega
  have hmin : (o.minVaddr + o.base).toNat = chosen.toNat := by
    bv_omega
  have hmax : (o.maxVaddr + o.base).toNat = chosen.toNat + (o.maxVaddr.toNat - o.minVaddr.toNat) := by
    bv_omega
  unfold Obj.contains
  simp only [Bool.and_eq_true, Bool.not_eq_true', decide_eq_false_iff_not, decide_eq_true_eq,
    lt_def, le_def, haddr, hend, hmin, hmax]
  omega

theorem foldl_read_needed (l : List (DynTag × Word)) (d : Dynamics)
    (h : d.neededOffsets.length + (l.filter fun e => e.1 = .needed).length ≤ maxNeeded) :
    (l.foldl Dynamics.read d).neededOffsets =
      d.neededOffsets ++ (l.filter fun e => e.1 = .needed).map fun e => e.2 := by
  induction l generalizing d with
  | nil => exact (append_nil _).symm
  | cons e l ih =>
    rw [foldl_cons]
    by_cases he : e.1 = .needed
    · rw [filter_cons_of_pos (by simpa using he)] at h ⊢
      rw [length_cons] at h
      have hread : d.read e = { d with neededOffsets := d.neededOffsets ++ [e.2] } := by
        unfold Dynamics.read
        rw [if_pos he, if_pos (by omega)]
      rw [hread, ih _ (by rw [length_append, length_singleton]; omega), append_assoc]
      rfl
    · rw [filter_cons_of_neg (by simpa using he)] at h ⊢
      have hread : (d.read e).neededOffsets = d.neededOffsets := by
        unfold Dynamics.read
        rw [if_neg he]
      rw [ih _ (by rw [hread]; exact h), hread]

theorem dynamics_needed (hd : f.DynamicOk) :
    f.dynamics.neededOffsets = (f.dyn.filter fun e => e.1 = .needed).map fun e => e.2 := by
  unfold ElfFile.dynamics
  rw [take_of_length_le hd.short]
  exact foldl_read_needed f.dyn {} (by rw [length_nil, Nat.zero_add]; exact hd.few)

theorem scopy_text (h : f.Text off) : scopy (f.strAt off) nameCapacity = f.strAt off :=
  take_of_length_le (by have := h.2; unfold nameCapacity at this ⊢; omega)

theorem parseSoname_eq (hd : f.DynamicOk) (hdyn : f.HasDynamic) :
    f.parseSoname.getD [] = f.sonameText := by
  unfold ElfFile.parseSoname ElfFile.sonameText
  rw [take_of_length_le hd.short, if_pos hdyn]
  have hfind : (f.dyn.find? fun e => e.1 == .soname && e.2 < f.dt .strsz && f.strValid e.2) =
      f.dyn.find? fun e => e.1 == .soname := by
    refine find?_congr fun e he => ?_
    by_cases hs : e.1 = .soname
    · have hv := (hd.soname e he hs).1
      have hlt : e.2 < f.dt .strsz := by
        unfold ElfFile.strValid at hv
        rw [Bool.and_eq_true, decide_eq_true_eq] at hv
        exact hv.1
      simp [hs, hv, hlt]
    · rw [beq_eq_false_iff_ne.mpr hs]
      rfl
  rw [hfind]
  cases hfound : f.dyn.find? fun e => e.1 == .soname with
  | none => rfl
  | some e =>
    have hs : e.1 = .soname := by simpa using find?_some hfound
    exact scopy_text (hd.soname e (mem_of_find?_eq_some hfound) hs)

structure Obj.Named (o o' : Obj) (needed : List Name) (soname : Name) : Prop where
  name : o'.name = o.name
  path : o'.path = o.path
  base : o'.base = o.base
  minVaddr : o'.minVaddr = o.minVaddr
  maxVaddr : o'.maxVaddr = o.maxVaddr
  needed : o'.needed = needed
  soname : o'.soname = soname

theorem parseDynamic_ok (hd : f.DynamicOk) (hdyn : f.HasDynamic) {o : Obj} (hs : o.soname = [])
    (hbase : o.base = chosen - o.minVaddr) (hpos : 0 < chosen.toNat)
    (hfit : chosen.toNat + (o.maxVaddr.toNat - o.minVaddr.toNat) < 2 ^ 64)
    (himage : ∀ a n, f.Inside a n → o.minVaddr.toNat ≤ a.toNat ∧ a.toNat + n ≤ o.maxVaddr.toNat) :
    ∃ o', parseDynamic f o = some o' ∧ o.Named o' f.neededNames f.sonameText := by
  have hin : ∀ {a n : Word}, f.Inside a n.toNat →
      (o.base + a).toNat = chosen.toNat + (a.toNat - o.minVaddr.toNat) ∧ o.contains (o.base + a) n =
        true :=
    fun h => contains_inside hbase (himage _ _ h).1 (himage _ _ h).2 hfit
  have htable : ∀ {link size : Word}, (link ≠ 0 → f.Inside link size.toNat) →
      ¬ (o.tableAddr link ≠ 0 ∧ (!o.contains (o.tableAddr link) (size / relaSize * relaSize)) =
        true) := by
    rintro link size hlink ⟨hne, hout⟩
    unfold Obj.tableAddr at hne hout
    by_cases h0 : link = 0
    · rw [if_neg (not_not.mpr h0)] at hne
      exact hne rfl
    rw [if_pos h0] at hout
    obtain ⟨hlo, hhi⟩ := himage _ _ (hlink h0)
    have hsize : (size / relaSize * relaSize).toNat ≤ size.toNat := by
      have : (size / relaSize * relaSize).toNat = size.toNat / 24 * 24 := by
        exact Nat.mod_eq_of_lt (lt_of_le_of_lt (Nat.div_mul_le_self _ _) size.isLt)
      rw [this]
      exact Nat.div_mul_le_self _ _
    rw [(contains_inside hbase hlo (by omega) hfit).2] at hout
    exact absurd hout (by decide)
  have hptr : ∀ {link : Word}, link ≠ 0 → f.Inside link 1 → o.tableAddr link ≠ 0 := by
    intro link h0 hlink heq
    unfold Obj.tableAddr at heq
    rw [if_pos h0] at heq
    have haddr := (@hin link 1 hlink).1
    rw [heq] at haddr
    have : (0 : Word).toNat = 0 := rfl
    omega
  have hsyms : f.countSymbols o ≠ 0 := by
    unfold ElfFile.countSymbols
    rcases hd.symbols with ⟨h0, hlink, hcount⟩ | ⟨h0, h1, hlink, hcount⟩
    · rwa [if_pos (hptr h0 hlink)]
    · have hzero : o.tableAddr (f.dt .hash) = 0 := if_neg (not_not.mpr h0)
      rwa [if_neg (not_not.mpr hzero), if_pos (hptr h1 hlink)]
  have hall : f.dynamics.neededOffsets.all f.strValid = true := by
    rw [dynamics_needed hd, all_eq_true]
    intro off hoff
    obtain ⟨e, he, rfl⟩ := mem_map.mp hoff
    obtain ⟨hmem, hneeded⟩ := mem_filter.mp he
    exact (hd.needed e hmem (by simpa using hneeded)).1
  have hnames : f.dynamics.neededOffsets.map (fun off => scopy (f.strAt off) nameCapacity) =
      f.neededNames := by
    unfold ElfFile.neededNames
    rw [dynamics_needed hd, if_pos hdyn, map_map]
    refine map_congr_left fun e he => ?_
    obtain ⟨hmem, hneeded⟩ := mem_filter.mp he
    exact scopy_text (hd.needed e hmem (by simpa using hneeded))
  have hstr := (hin hd.strtab.2.2).2
  have hsym := (hin hd.symtab.2).2
  unfold parseDynamic
  rw [if_neg (not_or.mpr ⟨not_not.mpr hd.syment, not_not.mpr hd.relaent⟩),
    if_neg (not_or.mpr ⟨hd.strtab.1, not_or.mpr ⟨hd.strtab.2.1, hd.symtab.1⟩⟩)]
  refine ⟨_, (if_neg ?_).trans ((if_neg (htable hd.rela)).trans ((if_neg (htable hd.jmprel)).trans
    ((if_neg hsyms).trans (if_pos hall)))), ⟨rfl, rfl, rfl, rfl, rfl, hnames, ?_⟩⟩
  · show ¬ ((!o.contains (o.base + f.dt .strtab) (f.dt .strsz)) ||
      (!o.contains (o.base + f.dt .symtab) symSize)) = true
    rw [hstr, hsym]
    decide
  rw [if_pos hstr, hs]
  exact parseSoname_eq hd hdyn

structure Obj.Image (o : Obj) (f : ElfFile) (name path : Name) (start : Nat) : Prop where
  name : o.name = scopy name nameCapacity
  path : o.path = scopy path maxPath
  needed : o.needed = f.neededNames
  soname : o.soname = f.sonameText
  lower : (o.minVaddr + o.base).toNat = start
  upper : (o.maxVaddr + o.base).toNat = start + f.span

theorem scan_pages (hf : f.WellFormed) (hs : f.scan = some s) (hc : s.Covers f.phdrs) :
    (pageDown s.minV).toNat ≤ s.minV.toNat ∧ s.maxV.toNat ≤ (pageUp s.maxV).toNat ∧
      s.minV.toNat < s.maxV.toNat ∧
      4096 ∣ f.span ∧ f.span = (pageUp s.maxV).toNat - (pageDown s.minV).toNat := by
  obtain ⟨p, hp, hload, hsize⟩ := hf.nonempty
  have hlow := hc.low p hp hload
  have hhigh := hc.high p hp hload
  have hpos : p.memsz.toNat ≠ 0 := fun h0 => hsize (eq_of_toNat h0)
  have hup := toNat_pageUp hc.top
  have hdown := toNat_pageDown s.minV
  have hle := le_ceilTo (a := 4096) (by decide) s.maxV.toNat
  have hspan : f.span = (pageUp s.maxV).toNat - (pageDown s.minV).toNat := by
    unfold ElfFile.span
    rw [hs]
  refine ⟨by rw [hdown]; exact Nat.div_mul_le_self _ _, by rw [hup]; exact hle, by omega, ?_, hspan⟩
  rw [hspan, hup, hdown]
  exact Nat.dvd_sub (dvd_ceilTo _ _) (Dvd.intro_left _ rfl)

theorem mapImage_ok (hf : f.WellFormed) (name path : Name)
    (hmmap : mmap nextBase (ofNat 64 f.span) = some nextBase) (haligned : 4096 ∣ nextBase.toNat)
    (hlow : libBase.toNat ≤ nextBase.toNat) (hfit : nextBase.toNat + f.span ≤ userMax.toNat) :
    ∃ o next, mapImage mmap f name path false 0 nextBase = some (o, next) ∧
      next.toNat = nextBase.toNat + f.span + libGap.toNat ∧ o.Image f name path nextBase.toNat := by
  obtain ⟨s, hs, hc⟩ := scan_covers hf
  obtain ⟨h1, h2, h3, hdvd, hspan⟩ := scan_pages hf hs hc
  have hmax : userMax.toNat = 0x7ffff0000000 := rfl
  have hbase : libBase.toNat = 0x600000000000 := rfl
  have hgap : libGap.toNat = 0x10000000 := rfl
  have hdown : pageDown nextBase = nextBase := by
    refine eq_of_toNat ?_
    rw [toNat_pageDown, Nat.div_mul_cancel haligned]
  have hsub : (pageUp s.maxV - pageDown s.minV).toNat = f.span := by
    rw [toNat_sub_of_le (by omega), hspan]
  have hword : pageUp s.maxV - pageDown s.minV = ofNat 64 f.span := by
    rw [← hsub, BitVec.ofNat_toNat, BitVec.setWidth_eq]
  have hsum : (nextBase + ofNat 64 f.span).toNat = nextBase.toNat + f.span := by
    rw [← hword, toNat_add_of_lt (by omega), hsub]
  have hpos : f.span ≠ 0 := by omega
  have hne : f.ehdr.type ≠ etExec := by rw [hf.header.type]; decide
  let o : Obj := {
    name := scopy name nameCapacity
    path := scopy path maxPath
    base := nextBase - pageDown s.minV
    minVaddr := pageDown s.minV
    maxVaddr := pageUp s.maxV
    isMain := false }
  have hroom : nextBase.toNat + (o.maxVaddr.toNat - o.minVaddr.toNat) < 2 ^ 64 := by
    show nextBase.toNat + ((pageUp s.maxV).toNat - (pageDown s.minV).toNat) < 2 ^ 64
    omega
  have himage : ∀ a n, f.Inside a n → o.minVaddr.toNat ≤ a.toNat ∧ a.toNat + n ≤ o.maxVaddr.toNat := by
    rintro a n ⟨p, hp, hload, ha, hn⟩
    have := hc.low p hp hload
    have := hc.high p hp hload
    exact ⟨by show (pageDown s.minV).toNat ≤ _; omega, by show _ ≤ (pageUp s.maxV).toNat; omega⟩
  have hcopy : f.phdrs.all (fun p => p.copyOk o nextBase (ofNat 64 f.span)) = true := by
    rw [all_eq_true]
    intro p hp
    unfold Phdr.copyOk
    by_cases hload : p.type = .load
    · obtain ⟨hlo, hhi⟩ := himage p.vaddr p.memsz.toNat ⟨p, hp, hload, le_rfl, le_rfl⟩
      have hin := (@contains_inside o nextBase p.vaddr p.memsz rfl hlo hhi hroom).2
      simp only [hin, Bool.or_true, Bool.true_or]
    · simp only [bne_iff_ne.mpr hload, Bool.true_or]
  have htls : s.tlsp.all Phdr.tlsOk = true := by
    cases ht : s.tlsp with
    | none => rfl
    | some p =>
      obtain ⟨hp, htype⟩ := hc.tlsp p ht
      exact tlsOk_of_template (hf.templates p hp htype)
  have hparsed : ∃ o', (match s.dynp with
      | none => some o
      | some p => if o.base + p.vaddr ≠ 0 then parseDynamic f o else some o) = some o' ∧
      o.Named o' f.neededNames f.sonameText := by
    cases hd : s.dynp with
    | none =>
      have hno : ¬ f.HasDynamic := fun h => hc.found h hd
      exact ⟨o, rfl, rfl, rfl, rfl, rfl, rfl, (if_neg hno).symm, (if_neg hno).symm⟩
    | some p =>
      obtain ⟨hp, htype⟩ := hc.dynp p hd
      have hdyn : f.HasDynamic := ⟨p, hp, htype⟩
      obtain ⟨hlo, hhi⟩ := himage _ _ (hf.dynamicAt p hp htype)
      have haddr := (@contains_inside o nextBase p.vaddr 1 rfl hlo hhi hroom).1
      have hnz : o.base + p.vaddr ≠ 0 := by
        intro h0
        rw [h0] at haddr
        have : (0 : Word).toNat = 0 := rfl
        omega
      dsimp only
      rw [if_pos hnz]
      exact parseDynamic_ok (hf.dynamicOk hdyn) hdyn rfl rfl (by omega) hroom himage
  obtain ⟨o', ho', hnamed⟩ := hparsed
  have hnext : (pageUp (nextBase + ofNat 64 f.span + libGap)).toNat = nextBase.toNat + f.span +
      libGap.toNat := by
    have hadd : (nextBase + ofNat 64 f.span + libGap).toNat = nextBase.toNat + f.span +
        libGap.toNat := by
      rw [toNat_add_of_lt (by omega), hsum]
    rw [toNat_pageUp (by omega), hadd]
    exact ceilTo_of_dvd (by decide) (Nat.dvd_add (Nat.dvd_add haligned hdvd) (by decide))
  refine ⟨o', _, ?_, hnext, ?_⟩
  · have hmin : s.minV ≠ uint64Max := by
      intro h0
      have : uint64Max.toNat = 0xffffffffffffffff := rfl
      rw [h0] at h3
      omega
    have hle : ¬ s.maxV ≤ s.minV := by rw [le_def]; omega
    have hvend : pageUp s.maxV ≠ 0 := by
      intro h0
      have : (0 : Word).toNat = 0 := rfl
      rw [h0] at h2
      omega
    have hvlt : ¬ pageUp s.maxV < pageDown s.minV := by rw [lt_def]; omega
    have hspan0 : ofNat 64 f.span ≠ 0 := by
      intro h0
      rw [← hword] at h0
      rw [h0] at hsub
      exact hpos hsub.symm
    have hmin' : ¬ nextBase < userMin := by
      have : userMin.toNat = 0x10000 := rfl
      rw [lt_def]
      omega
    have hwrap : ¬ nextBase + ofNat 64 f.span < nextBase := by rw [lt_def, hsum]; omega
    have htop : ¬ nextBase + ofNat 64 f.span > userMax := by rw [gt_iff_lt, lt_def, hsum]; omega
    have hrange : rangeOk nextBase (ofNat 64 f.span) = true := by
      unfold rangeOk
      rw [beq_eq_false_iff_ne.mpr hspan0, decide_eq_false hwrap, decide_eq_true (not_lt.mp hmin'),
        decide_eq_true (not_lt.mp htop)]
      rfl
    have hnewer : pageUp (nextBase + ofNat 64 f.span + libGap) > nextBase := by
      rw [gt_iff_lt, lt_def, hnext]
      omega
    unfold mapImage
    rw [if_neg (by rw [validateEhdr_shared hf.header]; decide), if_neg (fun h => hne h.1), hs]
    dsimp only
    rw [if_neg (not_or.mpr ⟨hmin, hle⟩), if_neg (not_or.mpr ⟨hvend, hvlt⟩), hword, if_neg hspan0,
      if_neg hne,
      if_neg (not_not.mpr rfl), hdown, if_neg (fun h => h.2.elim hmin' fun h => h.elim hwrap htop),
      if_neg (not_not.mpr hmmap), if_neg (Bool.eq_false_iff.mp (congrArg not hrange)),
        if_pos hf.header.type, if_neg (Bool.eq_false_iff.mp (congrArg not hcopy)),
        if_neg (Bool.eq_false_iff.mp (congrArg not htls)), ho',
      Option.map_some, if_pos ⟨hf.header.type, hnewer⟩]
  · refine ⟨hnamed.name, hnamed.path, hnamed.needed, hnamed.soname, ?_, ?_⟩
    · rw [hnamed.minVaddr, hnamed.base]
      show (pageDown s.minV + (nextBase - pageDown s.minV)).toNat = _
      bv_omega
    · rw [hnamed.maxVaddr, hnamed.base, hspan]
      show (pageUp s.maxV + (nextBase - pageDown s.minV)).toNat = _
      bv_omega

end BlockOS.Ldso
