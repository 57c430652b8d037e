import BlockOS.Lib.Bytes
import BlockOS.Lib.BlockHeap
import BlockOS.Lib.Loops

/-! The page tables of `arch/86_64x/paging.cpp`. -/

namespace BlockOS.Paging
open Words Bytes Lib Loops

def ptePresent : Word := 0x1
def pteWritable : Word := 0x2
def pteUser : Word := 0x4
def ptePwt : Word := 0x8
def ptePcd : Word := 0x10
def ptePs : Word := 0x80
def pteNx : Word := 0x8000000000000000
def addrMask : Word := 0x000ffffffffff000
def pageMask : Word := 0xfffffffffffff000
def largeMask : Word := 0x000fffffffe00000
def leafFlags : Word := pteWritable ||| pteUser ||| ptePwt ||| ptePcd ||| pteNx

def has (e flag : Word) : Bool := e &&& flag != 0

abbrev Index := BitVec 9

def idx (v : Word) (level : Nat) : Index := (v >>> (12 + (level - 1) * 9)).setWidth 9

def indices : List Index := (List.range 512).map (BitVec.ofNat 9)

def entry (m : Mem) (t : Word) (i : Index) : Word := load64 m (t + 8 * i.setWidth 64)

def setEntry (m : Mem) (t : Word) (i : Index) (e : Word) : Mem :=
    store64 m (t + 8 * i.setWidth 64) e

structure Phys (σ : Type) where
  mem : Mem
  heap : σ
  cr3 : Word
  pageRefs : Option (Word → BitVec 16)

def Phys.write {σ : Type} (s : Phys σ) (t : Word) (i : Index) (e : Word) : Phys σ :=
  { s with mem := setEntry s.mem t i e }

variable {σ : Type} (H : BlockHeap σ)

def allocPage (s : Phys σ) : Word × Phys σ :=
  if (H.alloc s.heap 4096 4096).1 = 0 then (0, { s with heap := (H.alloc s.heap 4096 4096).2 })
  else ((H.alloc s.heap 4096 4096).1,
    { s with
      heap := (H.alloc s.heap 4096 4096).2
      mem := memset s.mem (H.alloc s.heap 4096 4096).1 0 4096 })

def isTable (level : Nat) (e : Word) : Bool := decide (level > 1) && (level == 4 || !has e ptePs)

inductive LeafCopy where
  | fail
  | skip
  | fill (e : Word)
  deriving DecidableEq, Repr

def cloneEntry (child : Word → Phys σ → Word × Phys σ)
    (copyLeaf : Nat → Word → Phys σ → LeafCopy × Phys σ) (level : Nat) (src dst : Word)
    (i : Index) (s : Phys σ) : Bool × Phys σ :=
  let e := entry s.mem src i
  if !has e ptePresent then (true, s)
  else if isTable level e then
    let c := child (e &&& addrMask) s
    if c.1 = 0 then (false, c.2)
    else (true, c.2.write dst i (c.1 &&& addrMask ||| e &&& 0xfff ||| e &&& pteNx))
  else
    let c := copyLeaf level e s
    match c.1 with
    | .fail => (false, c.2)
    | .skip => (true, c.2)
    | .fill e' => (true, c.2.write dst i e')

def cloneTable (copyLeaf : Nat → Word → Phys σ → LeafCopy × Phys σ) : Nat → Word → Phys σ →
    Word × Phys σ
  | 0, _, s => (0, s)
  | level + 1, src, s =>
    let np := (allocPage H s).1
    if np = 0 then (0, (allocPage H s).2)
    else
      let r := tryEach (cloneEntry (cloneTable copyLeaf level) copyLeaf (level + 1) src np) indices
        (allocPage H s).2
      (if r.1 then np else 0, r.2)

def copyLevelLeaf (_ : Nat) (e : Word) (s : Phys σ) : LeafCopy × Phys σ :=
  if has e pteUser then (.skip, s) else (.fill e, s)

def cloneTableLevel : Nat → Word → Phys σ → Word × Phys σ := cloneTable H copyLevelLeaf

def readCr3 (s : Phys σ) : Word := s.cr3 &&& addrMask

def switchPml4 (s : Phys σ) (pml4 : Word) : Phys σ := { s with cr3 := pml4 &&& addrMask }

def cloneCurrentPml4 (s : Phys σ) : Word × Phys σ :=
  let cur := readCr3 s &&& addrMask
  if cur = 0 then (0, s) else cloneTableLevel H 4 cur s

def createUserPml4 (s : Phys σ) : Word × Phys σ := cloneCurrentPml4 H s

def refsBase : Word := H.heapBegin
def refsPages : Word := H.heapBytes / 4096

def refsReady (s : Phys σ) : Bool × Phys σ :=
  if s.pageRefs.isSome then (true, s)
  else if H.heapBegin = 0 || refsPages H = 0 then (false, s)
  else
    let r := H.alloc s.heap (refsPages H * 2) 8
    if r.1 = 0 then (false, { s with heap := r.2 })
    else (true, { s with heap := r.2, pageRefs := some fun _ => 0 })

def refIndex (pa : Word) (s : Phys σ) : Option Word × Phys σ :=
  let r := refsReady H s
  if !r.1 || pa < refsBase H then (none, r.2)
  else if pa - refsBase H ≥ refsPages H * 4096 then (none, r.2)
  else (some ((pa - refsBase H) >>> 12), r.2)

def refAt (s : Phys σ) (i : Word) : BitVec 16 := (s.pageRefs.getD fun _ => 0) i

def setRef (s : Phys σ) (i : Word) (v : BitVec 16) : Phys σ :=
  { s with pageRefs := s.pageRefs.map fun f => Function.update f i v }

def refShare (pa : Word) (s : Phys σ) : Phys σ :=
  match (refIndex H pa s).1 with
  | none => (refIndex H pa s).2
  | some i =>
    let s := (refIndex H pa s).2
    if refAt s i < 0xffff then setRef s i (refAt s i + 1) else s

def copyForkLeaf (level : Nat) (e : Word) (s : Phys σ) : LeafCopy × Phys σ :=
  if level == 1 && has e pteUser && !has e pteWritable && H.owns (e &&& addrMask) then
    (.fill e, refShare H (e &&& addrMask) s)
  else if level == 1 && has e pteUser && has e pteWritable && H.owns (e &&& addrMask) then
    let pg := (allocPage H s).1
    if pg = 0 then (.fail, (allocPage H s).2)
    else (.fill (pg &&& addrMask ||| e &&& 0xfff ||| e &&& pteNx),
      { (allocPage H s).2 with mem := memcpy (allocPage H s).2.mem pg (e &&& addrMask) 4096 })
  else (.fill e, s)

def cloneTableFork : Nat → Word → Phys σ → Word × Phys σ := cloneTable H (copyForkLeaf H)

def cloneForFork (src : Word) (s : Phys σ) : Word × Phys σ :=
  if src = 0 then (0, s) else cloneTableFork H 4 (src &&& addrMask) s

def splitEntry (e : Word) (j : Index) : Word :=
  (e &&& largeMask) + (j.setWidth 64 <<< 12 : Word) |||
    e &&& (pteWritable ||| pteUser ||| ptePwt ||| ptePcd ||| pteNx) ||| ptePresent

def fillTable (m : Mem) (t : Word) (f : Index → Word) : Mem :=
  indices.foldl (fun m j => setEntry m t j (f j)) m

def splitLarge (s : Phys σ) (t : Word) (i : Index) : Bool × Phys σ :=
  let e := entry s.mem t i
  if has e ptePresent && has e ptePs then
    let np := (allocPage H s).1
    if np = 0 then (false, (allocPage H s).2)
    else
      let s := { (allocPage H s).2 with mem := fillTable (allocPage H s).2.mem np (splitEntry e) }
      (true, s.write t i (np &&& addrMask ||| ptePresent ||| pteWritable ||| e &&& pteUser))
  else (true, s)

def raise (s : Phys σ) (t : Word) (i : Index) (flags flag : Word) : Phys σ :=
  if has flags flag then s.write t i (entry s.mem t i ||| flag) else s

def table (s : Phys σ) (t : Word) (i : Index) (flags : Word) : Option Word × Phys σ :=
  let r := splitLarge H s t i
  if !r.1 then (none, r.2)
  else
    let s := r.2
    let e := entry s.mem t i
    if !has e ptePresent then
      let p := (allocPage H s).1
      if p = 0 then (none, (allocPage H s).2)
      else (some p, (allocPage H s).2.write t i
        (p &&& addrMask ||| (ptePresent ||| pteWritable ||| flags &&& pteUser)))
    else
      (some (e &&& addrMask), raise (raise s t i flags pteUser) t i flags pteWritable)

def leafEntry (paddr flags : Word) : Word :=
  paddr &&& addrMask ||| flags &&& (pteWritable ||| pteUser ||| ptePwt ||| ptePcd ||| pteNx) |||
    ptePresent

def onTable (a : Option Word × Phys σ) (k : Word → Phys σ → Bool × Phys σ) : Bool × Phys σ :=
  match a.1 with
  | none => (false, a.2)
  | some t => k t a.2

def map4k (s : Phys σ) (pml4 vaddr paddr flags : Word) : Bool × Phys σ :=
  if pml4 = 0 || vaddr &&& 0xfff ≠ 0 || paddr &&& 0xfff ≠ 0 then (false, s)
  else
    let a := table H s pml4 (idx vaddr 4) flags
    match a.1 with
    | none => (false, a.2)
    | some pdpt =>
      let b := table H a.2 pdpt (idx vaddr 3) flags
      match b.1 with
      | none => (false, b.2)
      | some pd =>
        let c := table H b.2 pd (idx vaddr 2) flags
        match c.1 with
        | none => (false, c.2)
        | some pt => (true, c.2.write pt (idx vaddr 1) (leafEntry paddr flags))

theorem onTable_steps (f : Phys σ → Word → Index → Word → Option Word × Phys σ) (s : Phys σ)
    (r va pa flags : Word) :
    (let a := f s r (idx va 4) flags
    match a.1 with
    | none => (false, a.2)
    | some pdpt =>
      let b := f a.2 pdpt (idx va 3) flags
      match b.1 with
      | none => (false, b.2)
      | some pd =>
        let c := f b.2 pd (idx va 2) flags
        match c.1 with
        | none => (false, c.2)
        | some pt => (true, c.2.write pt (idx va 1) (leafEntry pa flags))) =
      onTable (f s r (idx va 4) flags) fun t s => onTable (f s t (idx va 3) flags) fun t s =>
        onTable (f s t (idx va 2) flags) fun t s =>
          (true, s.write t (idx va 1) (leafEntry pa flags)) := rfl

theorem map4k_eq (s : Phys σ) (r va pa flags : Word) : map4k H s r va pa flags =
      if r = 0 || va &&& 0xfff ≠ 0 || pa &&& 0xfff ≠ 0 then (false, s)
      else onTable (table H s r (idx va 4) flags) fun t s =>
        onTable (table H s t (idx va 3) flags) fun t s =>
        onTable (table H s t (idx va 2) flags) fun t s =>
          (true, s.write t (idx va 1) (leafEntry pa flags)) := by
  rw [← onTable_steps (table H)]
  unfold map4k
  exact Eq.refl _

def unmap4k (s : Phys σ) (pml4 vaddr : Word) : Bool × Phys σ :=
  if pml4 = 0 || vaddr &&& 0xfff ≠ 0 then (false, s)
  else
    let e4 := entry s.mem pml4 (idx vaddr 4)
    if !has e4 ptePresent then (false, s)
    else
      let e3 := entry s.mem (e4 &&& addrMask) (idx vaddr 3)
      if !has e3 ptePresent then (false, s)
      else
        let e2 := entry s.mem (e3 &&& addrMask) (idx vaddr 2)
        if !has e2 ptePresent then (false, s)
        else (true, s.write (e2 &&& addrMask) (idx vaddr 1) 0)

def walkLeaf (m : Mem) (pml4 vaddr : Word) : Option (Word × Index) :=
  let ok := fun e => has e ptePresent && has e pteUser
  if pml4 = 0 || vaddr &&& ~~~0x00007fffffffffff ≠ 0 then none
  else
    let e4 := entry m (pml4 &&& addrMask) (idx vaddr 4)
    if !ok e4 then none
    else
      let e3 := entry m (e4 &&& addrMask) (idx vaddr 3)
      if !ok e3 then none
      else
        let e2 := entry m (e3 &&& addrMask) (idx vaddr 2)
        if !ok e2 then none
        else
          let e1 := entry m (e2 &&& addrMask) (idx vaddr 1)
          if !ok e1 then none else some (e2 &&& addrMask, idx vaddr 1)

def eachPage (body : Word → Phys σ → Bool × Phys σ) (last : Word) : Nat → Word → Phys σ →
    Bool × Phys σ
  | 0, _, s => (false, s)
  | fuel + 1, page, s =>
    let r := body page s
    if !r.1 then (false, r.2)
    else if page = last then (true, r.2)
    else if page > last - 0x1000 then (false, r.2)
    else eachPage body last fuel (page + 0x1000) r.2

def checkPage (pml4 page : Word) (s : Phys σ) : Bool × Phys σ :=
  ((walkLeaf s.mem pml4 page).isSome, s)

def protectPage (pml4 flags page : Word) (s : Phys σ) : Bool × Phys σ :=
  match walkLeaf s.mem pml4 page with
  | none => (false, s)
  | some (t, i) =>
    let old := entry s.mem t i
    (true, s.write t i (old &&& addrMask ||| ptePresent ||| flags &&& leafFlags ||| pteUser))

def protectUserRange (s : Phys σ) (pml4 base len flags : Word) : Bool × Phys σ :=
  let endAddr := base + len
  if pml4 = 0 || len = 0 || base > 0x00007fffffffffff || endAddr < base ||
      endAddr > 0x0000800000000000 then (false, s)
  else
    let first := base &&& pageMask
    let last := endAddr - 1 &&& pageMask
    let fuel := (last - first).toNat / 0x1000 + 1
    let r := eachPage (checkPage pml4) last fuel first s
    if !r.1 then (false, r.2) else eachPage (protectPage pml4 flags) last fuel first r.2

def largeEntry (phys : Word) : Word :=
  phys ||| (if phys ≥ 0xc0000000 then ptePresent ||| pteWritable ||| ptePs ||| (ptePwt ||| ptePcd)
    else ptePresent ||| pteWritable ||| ptePs)

def identityEntry (g : Nat) (i : Index) : Word :=
  largeEntry (BitVec.ofNat 64 (g * 0x40000000) + i.setWidth 64 * 0x200000)

def identityGig (pdpt : Word) (g : Nat) (s : Phys σ) : Bool × Phys σ :=
  let pd := (allocPage H s).1
  if pd = 0 then (false, (allocPage H s).2)
  else
    let s := (allocPage H s).2.write pdpt (BitVec.ofNat 9 g)
      (pd &&& addrMask ||| ptePresent ||| pteWritable)
    (true, { s with mem := fillTable s.mem pd (identityEntry g) })

def installKernelIdentityMap (maxPhys : Word) (s : Phys σ) : Bool × Phys σ :=
  let gigs := if (maxPhys + 0x40000000 - 1) / 0x40000000 = 0 then 1
    else (maxPhys + 0x40000000 - 1) / 0x40000000
  if gigs > 64 then (false, s)
  else
    let pml4 := (allocPage H s).1
    let pdpt := (allocPage H (allocPage H s).2).1
    let s := (allocPage H (allocPage H s).2).2
    if pml4 = 0 || pdpt = 0 then (false, s)
    else
      let s := s.write pml4 0 (pdpt &&& addrMask ||| ptePresent ||| pteWritable)
      let r := tryEach (identityGig H pdpt) (List.range gigs.toNat) s
      if r.1 then (true, switchPml4 r.2 pml4) else (false, r.2)

end BlockOS.Paging
