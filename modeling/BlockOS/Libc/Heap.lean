import Mathlib.Tactic

/-! The heap of the C library, `stdlib.c`: `malloc`, `calloc`, `free`, `realloc` and
`aligned_alloc`. -/

namespace BlockOS.Libc

def two64 : Nat := 18446744073709551616
def headerSize : Nat := 48
def alignHeaderSize : Nat := 32
def alignment : Nat := 16
def mmapThreshold : Nat := 128 * 1024

structure Block where
  addr : Nat
  size : Nat
  free : Bool
  deriving DecidableEq

structure Mapped where
  addr : Nat
  size : Nat
  mappingSize : Nat
  deriving DecidableEq

structure AlignHeader where
  addr : Nat
  raw : Nat
  size : Nat
  alignment : Nat
  deriving DecidableEq

structure Heap where
  blocks : List Block := []
  mapped : List Mapped := []
  aligns : List AlignHeader := []
  brk : Nat

structure Kernel where
  grow : Bool
  mmap : Option Nat
  shrink : Bool

def alignUp (n a : Nat) : Nat := if n > two64 - 1 - (a - 1) then 0 else (n + (a - 1)) / a * a

def pageUp (n : Nat) : Nat := alignUp n 4096

def isPowerOfTwo (n : Nat) : Bool := n != 0 && n &&& (n - 1) == 0

def splitBlock (b : Block) (wanted : Nat) : List Block :=
  if b.free ∨ b.size < wanted then [b]
  else if b.size - wanted < headerSize + alignment then [b]
  else [{ b with size := wanted },
    { addr := b.addr + headerSize + wanted, size := b.size - wanted - headerSize, free := true }]

def firstFit (size : Nat) : List Block → Option (Nat × List Block)
  | [] => none
  | b :: rest =>
    if b.free ∧ size ≤ b.size then some (b.addr + headerSize,
      splitBlock { b with free := false } size ++ rest)
    else (firstFit size rest).map fun r => (r.1, b :: r.2)

def extendHeap (k : Kernel) (size : Nat) (h : Heap) : Nat × Heap :=
  if k.grow then
    (h.brk + headerSize, { h with
      blocks := h.blocks ++ [{ addr := h.brk, size := size, free := false }]
      brk := h.brk + (headerSize + size) })
  else (0, h)

def mappingTotal (size : Nat) : Nat := pageUp ((headerSize + size) % two64)

def mapBlock (k : Kernel) (size : Nat) (h : Heap) : Nat × Heap :=
  let total := mappingTotal size
  if total = 0 then (0, h)
  else
    match k.mmap with
    | none => (0, h)
    | some mem =>
      (mem + headerSize,
        { h with mapped := { addr := mem, size := total - headerSize, mappingSize := total } ::
          h.mapped })

def mallocSize (size : Nat) : Nat := alignUp (if size = 0 then 1 else size) alignment

def malloc (k : Kernel) (size : Nat) (h : Heap) : Nat × Heap :=
  let size := mallocSize size
  if size = 0 then (0, h)
  else if size < mmapThreshold then
    match firstFit size h.blocks with
    | some (p, blocks) => (p, { h with blocks := blocks })
    | none => extendHeap k size h
  else mapBlock k size h

def Heap.alignedHeader (h : Heap) (ptr : Nat) : Option AlignHeader :=
  h.aligns.find? fun a => a.addr + alignHeaderSize = ptr

def focus (ptr : Nat) : List Block → List Block → Option (List Block × Block × List Block)
  | _, [] => none
  | before, b :: rest =>
    if b.addr + headerSize = ptr then some (before, b, rest) else focus ptr (b :: before) rest

def mergeNext (b : Block) : List Block → Block × List Block
  | [] => (b, [])
  | n :: rest =>
    if n.free then ({ b with size := (b.size + (headerSize + n.size)) % two64 }, rest) else
      (b, n :: rest)

def mergePrev (b : Block) : List Block → List Block × Block
  | [] => ([], b)
  | p :: before =>
    if p.free then (before, { p with size := (p.size + (headerSize + b.size)) % two64 }) else
      (p :: before, b)

def freeListed (k : Kernel) (before : List Block) (b : Block) (rest : List Block) (h : Heap) :
    Heap :=
  let next := mergeNext { b with free := true } rest
  let prev := mergePrev next.1 before
  let b := prev.2
  let total := headerSize + b.size
  if next.2 = [] ∧ h.brk = b.addr + headerSize + b.size ∧ total ≤ 0x7fffffff ∧ k.shrink then
    { h with blocks := prev.1.reverse, brk := h.brk - total }
  else { h with blocks := prev.1.reverse ++ b :: next.2 }

def freePlain (k : Kernel) (ptr : Nat) (h : Heap) : Heap :=
  match h.mapped.find? fun m => m.addr + headerSize = ptr with
  | some m => { h with mapped := h.mapped.filter fun m' => m'.addr ≠ m.addr }
  | none =>
    match focus ptr [] h.blocks with
    | none => h
    | some (before, b, rest) => freeListed k before b rest h

def freeWithin (k : Kernel) : Nat → Nat → Heap → Heap
  | 0, _, h => h
  | fuel + 1, ptr, h =>
    if ptr = 0 then h
    else
      match h.alignedHeader ptr with
      | none => freePlain k ptr h
      | some a => freeWithin k fuel a.raw { h with aligns := h.aligns.filter fun a' => a'.addr ≠ a.addr }

def free (k : Kernel) (ptr : Nat) (h : Heap) : Heap := freeWithin k (h.aligns.length + 1) ptr h

def calloc (k : Kernel) (nmemb size : Nat) (h : Heap) : Nat × Heap :=
  if nmemb ≠ 0 ∧ size > (two64 - 1) / nmemb then (0, h)
  else
    let total := nmemb * size % two64
    malloc k (if total ≠ 0 then total else 1) h

def alignedAlloc (k : Kernel) (al size : Nat) (h : Heap) : Nat × Heap :=
  if !isPowerOfTwo al ∨ al < 8 then (0, h)
  else if size ≠ 0 ∧ size % al ≠ 0 then (0, h)
  else
    let size := if size = 0 then al else size
    if size + al + alignHeaderSize > two64 - 1 then (0, h)
    else
      let raw := malloc k (size + (al + alignHeaderSize)) h
      if raw.1 = 0 then raw
      else
        let start := raw.1 + alignHeaderSize
        let aligned := (start + al - 1) % two64 / al * al
        (aligned, { raw.2 with
          aligns := { addr := aligned - alignHeaderSize, raw := raw.1, size := size, alignment :=
            al } :: raw.2.aligns })

def moveBlock (k : Kernel) (ptr size : Nat) (h : Heap) : Nat × Heap :=
  let np := malloc k size h
  if np.1 = 0 then np else (np.1, free k ptr np.2)

def reallocListed (k : Kernel) (ptr size : Nat) (before : List Block) (b : Block)
    (rest : List Block) (h : Heap) :
    Nat × Heap :=
  let wanted := alignUp size alignment
  if b.free ∨ wanted = 0 then (0, h)
  else if wanted ≤ b.size then
    (ptr, { h with blocks := before.reverse ++ (splitBlock b wanted ++ rest) })
  else
    match rest with
    | n :: rest' =>
      if n.free ∧ wanted ≤ (b.size + headerSize + n.size) % two64 then
        (ptr, { h with blocks := before.reverse ++
          (splitBlock { b with size := (b.size + (headerSize + n.size)) % two64 } wanted ++ rest') })
      else moveBlock k ptr size h
    | [] => moveBlock k ptr size h

def realloc (k : Kernel) (ptr size : Nat) (h : Heap) : Nat × Heap :=
  if ptr = 0 then malloc k size h
  else if size = 0 then (0, free k ptr h)
  else
    match h.alignedHeader ptr with
    | some a =>
      if size ≤ a.size then (ptr, h)
      else
        let np := alignedAlloc k a.alignment size h
        if np.1 = 0 then np else (np.1, free k ptr np.2)
    | none =>
      match h.mapped.find? fun m => m.addr + headerSize = ptr with
      | some m =>
        if alignUp size alignment = 0 then (0, h)
        else if alignUp size alignment ≤ m.size then (ptr, h)
        else moveBlock k ptr size h
      | none =>
        match focus ptr [] h.blocks with
        | none => (0, h)
        | some (before, b, rest) => reallocListed k ptr size before b rest h

end BlockOS.Libc
