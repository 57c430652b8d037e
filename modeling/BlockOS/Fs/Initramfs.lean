import BlockOS.Fs.Vfs
import BlockOS.Lib.Loops

/-! The archive that is unpacked at boot (`initramfs.cpp`). -/

namespace BlockOS.Fs
open Words Paths Loops

def dot : Byte := 0x2e

def hexDigit (c : Byte) : Option (BitVec 32) :=
  if 0x30 ≤ c ∧ c ≤ 0x39 then some (c.setWidth 32 - 0x30)
  else if 0x61 ≤ c ∧ c ≤ 0x66 then some (c.setWidth 32 - 0x61 + 10)
  else if 0x41 ≤ c ∧ c ≤ 0x46 then some (c.setWidth 32 - 0x41 + 10)
  else none

def hexLoop : List Byte → BitVec 32 → Option (BitVec 32)
  | [], value => some value
  | c :: field, value =>
    match hexDigit c with
    | none => none
    | some digit => hexLoop field (value <<< 4 ||| digit)

def hexField (field : List Byte) : Option (BitVec 32) := hexLoop field 0

def wrap (n : Nat) : Nat := n % 2 ^ 64

def align4 (value : Nat) : Nat := wrap (value + 3) / 4 * 4

def skipDots : List Byte → List Byte
  | c :: d :: name => if c = dot ∧ d = slash then skipDots name else c :: d :: name
  | name => name

def makePathLoop : Nat → List Byte → List Byte → Option (List Byte)
  | 0, _, _ => none
  | fuel + 1, name, out =>
    let name := name.dropWhile fun c => decide (c = slash)
    if name = [] then some out
    else
      let component := name.takeWhile fun c => decide (c ≠ slash)
      let name := name.dropWhile fun c => decide (c ≠ slash)
      if 0 ∈ component then none
      else if component = [dot] then makePathLoop fuel name out
      else if component = [dot, dot] then none
      else if out.length > 1 ∧ out.length + 1 ≥ maxPath then none
      else
        let out := if out.length > 1 then out ++ [slash] else out
        if component.length ≥ maxPath - out.length then none
        else makePathLoop fuel name (out ++ component)

def makePath (name : List Byte) : Option (List Byte) :=
  if name = [] then none
  else
    let rest := skipDots name
    if rest = [] ∨ rest = [dot] then some [slash]
    else if rest.head? = some slash then none
    else makePathLoop (rest.length + 1) rest [slash]

structure Mount (μ : Type) where
  vfs : Vfs
  modes : μ
  passed : List (List Byte) := []

section

variable {μ : Type} (grants : Nat → Nat → Bool) (setMode : List Byte → BitVec 32 → μ → μ)

def Mount.pass (path : List Byte) (m : Mount μ) : Mount μ := { m with passed := m.passed ++ [path] }

def Mount.createDirectory (path : List Byte) (m : Mount μ) : Bool × Mount μ :=
  let r := Fs.createDirectory grants (some path) m.vfs
  (r.1, { m.pass path with vfs := r.2 })

def Mount.createFile (path data : List Byte) (m : Mount μ) : Bool × Mount μ :=
  let r := Fs.createFile grants (some path) (.bytes data) m.vfs
  (r.1, { m.pass path with vfs := r.2 })

def Mount.changeMode (path : List Byte) (mode : BitVec 32) (m : Mount μ) : Mount μ :=
  { m.pass path with modes := setMode path mode m.modes }

def ensureFront (path : List Byte) (i : Nat) (m : Mount μ) : Bool × Mount μ :=
  if path[i]? ≠ some slash ∧ i ≠ path.length then (true, m)
  else
    let front := path.take i
    if vfsExists front m.vfs = false then (m.pass front).createDirectory grants front
    else (isDirectory front m.vfs, (m.pass front).pass front)

def ensureDirectory (path : List Byte) (m : Mount μ) : Bool × Mount μ :=
  if path.head? ≠ some slash then (false, m)
  else if path.length = 1 then (true, m)
  else if path.length ≥ maxPath then (false, m)
  else tryEach (ensureFront grants path) (List.range' 1 path.length) m

def ifmt : BitVec 32 := 0o170000

def ifreg : BitVec 32 := 0o100000

def ifdir : BitVec 32 := 0o040000

def installNode (path : List Byte) (mode : BitVec 32) (data : List Byte) (m : Mount μ) :
    Bool × Mount μ :=
  if mode &&& ifmt = ifdir then
    if vfsExists path m.vfs then (isDirectory path m.vfs, (m.pass path).pass path)
    else (m.pass path).createDirectory grants path
  else if mode &&& ifmt ≠ ifreg then (false, m)
  else if vfsExists path m.vfs then (false, m.pass path)
  else
    match (m.pass path).createFile grants path data with
    | (false, m) => (false, m)
    | (true, m) => (true, m.changeMode setMode path (mode &&& 0o7777))

def installEntry (path : List Byte) (mode : BitVec 32) (data : List Byte) (m : Mount μ) :
    Bool × Mount μ :=
  if path = [slash] then (decide (mode &&& ifmt = ifdir), m)
  else if path.length ≥ maxPath then (false, m)
  else
    let i := lastSlash path path.length
    match (if i = 0 then (true, m) else ensureDirectory grants (path.take i) m) with
    | (false, m) => (false, m)
    | (true, m) => installNode grants setMode path mode data m

end

structure Archive where
  bytes : List Byte
  fits : bytes.length < 2 ^ 64

def Archive.read (a : Archive) (offset n : Nat) : Option (List Byte) :=
  if offset + n ≤ a.bytes.length then some ((a.bytes.drop offset).take n) else none

def cpioHeaderSize : Nat := 110

def cpioMagic : List Byte := ascii "070701"

def trailerName : List Byte := ascii "TRAILER!!!"

inductive Outcome (μ : Type) where
  | fault
  | failed (m : Mount μ)
  | ended (m : Mount μ)
  | trailer (m : Mount μ)
  | more (offset : Nat) (m : Mount μ)

section

variable {μ : Type} (grants : Nat → Nat → Bool) (setMode : List Byte → BitVec 32 → μ → μ)
  (a : Archive)

def walkNamed (offset : Nat) (mode : BitVec 32) (fileSize nameSize : Nat) (m : Mount μ) :
    Outcome μ :=
  let size := a.bytes.length
  if nameSize < 2 ∨ nameSize > size - offset - cpioHeaderSize then .failed m
  else
    let nameOffset := wrap (offset + cpioHeaderSize)
    match a.read nameOffset nameSize with
    | none => .fault
    | some name =>
      if name.getLast? ≠ some 0 then .failed m
      else if 0 ∈ name.dropLast then .failed m
      else
        let dataOffset := align4 (wrap (nameOffset + nameSize))
        if dataOffset < nameOffset ∨ dataOffset > size ∨ fileSize > size - dataOffset then .failed m
        else
          let nextOffset := align4 (wrap (dataOffset + fileSize))
          if nextOffset < dataOffset ∨ nextOffset > size then .failed m
          else if nameSize = trailerName.length + 1 ∧ name.take 10 = trailerName then .trailer m
          else
            match makePath name.dropLast with
            | none => .failed m
            | some path =>
              match a.read dataOffset fileSize with
              | none => .fault
              | some data =>
                match installEntry grants setMode path mode data m with
                | (false, m) => .failed m
                | (true, m) => .more nextOffset m

def walkEntry (offset : Nat) (m : Mount μ) : Outcome μ :=
  let size := a.bytes.length
  if size - offset < cpioHeaderSize then .failed m
  else
    match a.read offset cpioHeaderSize with
    | none => .fault
    | some header =>
      if header.take 6 ≠ cpioMagic then .failed m
      else
        match hexField ((header.drop 14).take 8), hexField ((header.drop 54).take 8),
            hexField ((header.drop 94).take 8) with
        | some mode, some fileSize, some nameSize =>
          walkNamed grants setMode a offset mode fileSize.toNat nameSize.toNat m
        | _, _, _ => .failed m

def walk : Nat → Nat → Mount μ → Outcome μ
  | 0, offset, m => .more offset m
  | fuel + 1, offset, m =>
    if offset < a.bytes.length then
      match walkEntry grants setMode a offset m with
      | .more next m => walk fuel next m
      | o => o
    else .ended m

def mountWalk (v : Vfs) (modes : μ) : Outcome μ :=
  walk grants setMode a (a.bytes.length + 1) 0 { vfs := initializeDevices grants v, modes := modes }

def validShell (v : Vfs) : Bool :=
  match readFile (ascii "/bin/sh") v with
  | (none, _) => false
  | (some data, size) => decide (size.toNat ≥ 5 ∧ data.bytes.take 5 = [0x7f, 0x45, 0x4c, 0x46, 2])

def mount (v : Vfs) (modes : μ) : Bool :=
  if a.bytes = [] then false
  else
    match mountWalk grants setMode a v modes with
    | .trailer m => validShell m.vfs
    | _ => false

end

end BlockOS.Fs
