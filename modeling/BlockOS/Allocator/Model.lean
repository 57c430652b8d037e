import BlockOS.Lib.Bytes

/-! The kernel heap of `kernel/allocator.cpp`. -/

namespace BlockOS.Allocator
open Words Bytes

structure AllocRecord where
  total : Word := 0
  used : Word := 0
  offset : Word := 0
  peak : Word := 0
  allocCount : Word := 0
  freeCount : Word := 0
  allocFailed : Word := 0
  freeRejected : Word := 0
  resetCount : Word := 0
  deriving DecidableEq, Repr

structure Heap where
  mem : Mem
  heapBase : Word
  heapSize : Word
  heapOff : Word
  record : AllocRecord

structure Header where
  size : Word
  isFree : Bool
  deriving DecidableEq, Repr

def headerSize : Word := 16
def granularity : Word := headerSize
def headerAlign : Word := 8
def arenaAlignment : Word := 4 * 1024

def recordAlloc (r : AllocRecord) (bytes : Word) : AllocRecord :=
  let used := r.used + bytes
  { r with
    allocCount := r.allocCount + 1
    used := used
    peak := if used > r.peak then used else r.peak }

def isPowerOf2 (x : Word) : Bool := x != 0 && x &&& (x - 1) == 0

def alignUp (v a : Word) : Word :=
  if isPowerOf2 a then (v + (a - 1)) &&& ~~~(a - 1) else 0

namespace Heap

def header (h : Heap) (off : Word) : Header :=
  ⟨load64 h.mem (h.heapBase + off), h.mem (h.heapBase + off + 8) != 0⟩

def setSize (h : Heap) (off size : Word) : Heap :=
  { h with mem := store64 h.mem (h.heapBase + off) size }

def setFree (h : Heap) (off : Word) (free : Bool) : Heap :=
  { h with mem := store8 h.mem (h.heapBase + off + 8) (if free then 1 else 0) }

def setHeader (h : Heap) (off size : Word) (free : Bool) : Heap :=
  (h.setSize off size).setFree off free

end Heap

def init (base size : Word) (h : Heap) : Heap :=
  let alignedAddr := alignUp base arenaAlignment
  let lost := alignedAddr - base
  if lost ≥ size then
    { h with heapBase := 0, record := {} }
  else
    { h with
      heapBase := alignedAddr
      heapSize := size - lost
      heapOff := 0
      record := { total := size - lost } }

def slack (h : Heap) (scan align : Word) : Word :=
  let payload := h.heapBase + scan + headerSize
  alignUp payload align - payload

def carve (h : Heap) (scan difference blockLength : Word) : Word × Heap :=
  let leadInOffset := difference + scan
  let remainder := (h.header scan).size - difference - blockLength
  let h := if difference > 0 then h.setHeader scan difference true else h
  let h := if remainder ≥ headerSize then
      h.setHeader (leadInOffset + blockLength) remainder true
    else h
  let newBlockSize := if remainder ≥ headerSize then blockLength else blockLength + remainder
  let h := h.setHeader leadInOffset newBlockSize false
  (h.heapBase + leadInOffset + headerSize, { h with record := recordAlloc h.record newBlockSize })

def findFit (h : Heap) (align blockLength : Word) : Nat → Word → Option Word
  | 0, _ => none
  | fuel + 1, scan =>
    if scan < h.heapOff then
      let b := h.header scan
      let difference := slack h scan align
      if b.isFree && b.size ≥ difference + blockLength then
        if difference > 0 && difference < headerSize then
          findFit h align blockLength fuel (scan + b.size)
        else some scan
      else if b.size != 0 then findFit h align blockLength fuel (scan + b.size)
      else none
    else none

def bump (h : Heap) (align blockLength : Word) : Word × Heap :=
  let payload := alignUp (h.heapBase + h.heapOff + headerSize) align
  let off := payload - h.heapBase - headerSize
  if blockLength > h.heapSize || off > h.heapSize - blockLength then
    (0, { h with record := { h.record with allocFailed := h.record.allocFailed + 1 } })
  else
    let h := if off > h.heapOff then h.setHeader h.heapOff (off - h.heapOff) true else h
    let h := h.setHeader off blockLength false
    (h.heapBase + off + headerSize,
      { h with heapOff := off + blockLength, record := recordAlloc h.record blockLength })

def clampAlign (align : Word) : Word := if align < granularity then granularity else align

def blockLengthFor (size : Word) : Word := alignUp (headerSize + size) granularity

def alloc (h : Heap) (size align : Word) : Word × Heap :=
  let align := clampAlign align
  if h.heapBase == 0 || size > h.heapSize || !isPowerOf2 align then
    (0, { h with record := { h.record with allocFailed := h.record.allocFailed + 1 } })
  else
    let blockLength := blockLengthFor size
    match findFit h align blockLength h.heapOff.toNat 0 with
    | some scan => carve h scan (slack h scan align) blockLength
    | none => bump h align blockLength

def absorb : Nat → Word → Heap → Heap
  | 0, _, h => h
  | fuel + 1, off, h =>
    let b := h.header off
    let totalOff := off + b.size
    if totalOff ≥ h.heapOff then h
    else
      let next := h.header totalOff
      if next.isFree then absorb fuel off (h.setSize off (b.size + next.size)) else h

def findPrev (h : Heap) (target : Word) : Nat → Word → Word → Word × Word
  | 0, prev, scan => (prev, scan)
  | fuel + 1, prev, scan =>
    if scan < target then
      let b := h.header scan
      if b.size == 0 || scan + b.size > target then (prev, scan)
      else findPrev h target fuel scan (scan + b.size)
    else (prev, scan)

def trimEnd (h : Heap) (off : Word) : Heap :=
  if off + (h.header off).size == h.heapOff then { h with heapOff := off } else h

def mergeBack (h : Heap) (off : Word) : Heap :=
  let walk := findPrev h off off.toNat off 0
  let prevOff := walk.1
  if walk.2 == off && prevOff != off && (h.header prevOff).isFree then
    trimEnd (h.setSize prevOff ((h.header prevOff).size + (h.header off).size)) prevOff
  else trimEnd h off

def rejectFree (h : Heap) : Heap :=
  { h with record := { h.record with freeRejected := h.record.freeRejected + 1 } }

def free (h : Heap) (ptr : Word) : Heap :=
  if ptr == 0 then h
  else if h.heapBase == 0 then rejectFree h
  else
    let off := ptr - headerSize - h.heapBase
    let b := h.header off
    if off ≥ h.heapOff || off % headerAlign != 0 || b.size == 0 ||
        b.size > h.heapOff - off || b.isFree then rejectFree h
    else
      let h := h.setFree off true
      let h := { h with record := { h.record with
        freeCount := h.record.freeCount + 1
        used := if b.size ≤ h.record.used then h.record.used - b.size else 0 } }
      mergeBack (absorb h.heapOff.toNat off h) off

def reset (h : Heap) : Heap :=
  { h with
    heapOff := 0
    record := { h.record with used := 0, resetCount := h.record.resetCount + 1 } }

def getRecord (h : Heap) : Heap := { h with record := { h.record with offset := h.heapOff } }

end BlockOS.Allocator
