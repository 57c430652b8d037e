import BlockOS.Fs.Names

/-! The file system in memory (`vfs.cpp`): one list of entries with full paths for names. -/

namespace BlockOS.Fs
open Words Paths

inductive NodeType where
  | file
  | directory
  | device
  deriving DecidableEq

inductive DeviceType where
  | generic
  | disk
  | network
  | usb
  | gpu
  | input
  | audio
  | console
  deriving DecidableEq

structure DeviceNodeInfo where
  type : DeviceType
  deviceId : BitVec 32
  base : Word
  size : Word
  irq : Byte
  bus : Byte
  slot : Byte
  function : Byte
  vendor : BitVec 16
  device : BitVec 16
  deriving DecidableEq

structure Buf where
  id : Nat
  bytes : List Byte
  deriving DecidableEq

structure Entry where
  name : List Byte
  room : Nat
  nameId : Nat := 0
  nodeId : Nat := 0
  data : Option Buf := none
  size : BitVec 32 := 0
  type : NodeType
  info : Option DeviceNodeInfo := none
  deriving DecidableEq

structure Vfs where
  entries : List Entry := []
  allocs : Nat := 0
  live : List Nat := []
  overrun : Nat := 0

inductive Source where
  | null (size : BitVec 32)
  | bytes (l : List Byte)

def Source.size : Source → BitVec 32
  | .null n => n
  | .bytes l => BitVec.ofNat 32 l.length

def Source.missing : Source → Bool
  | .null n => decide (n ≠ 0)
  | .bytes _ => false

def Source.toList : Source → List Byte
  | .null _ => []
  | .bytes l => l.take (BitVec.ofNat 32 l.length).toNat

def entrySize : Nat := 72

variable (grants : Nat → Nat → Bool)

def alloc (size : Nat) (v : Vfs) : Option Nat × Vfs :=
  if grants v.allocs size then
    (some v.allocs, { v with allocs := v.allocs + 1, live := v.allocs :: v.live })
  else (none, { v with allocs := v.allocs + 1 })

def Vfs.free (id : Nat) (v : Vfs) : Vfs := { v with live := v.live.erase id }

def freeData (data : Option Buf) (live : List Nat) : List Nat :=
  match data with
  | none => live
  | some b => live.erase b.id

def freeEntry (e : Entry) (live : List Nat) : List Nat :=
  ((freeData e.data live).erase e.nameId).erase e.nodeId

def Vfs.find (name : List Byte) (v : Vfs) : Option Nat := v.entries.findIdx? fun e =>
    decide (e.name = name)

def findEntry (path : List Byte) (v : Vfs) : Option Nat :=
  match normalizePath path with
  | none => none
  | some normalized => v.find normalized

def parentExists (path : List Byte) (v : Vfs) : Bool :=
  match normalizePath path with
  | none => false
  | some normalized =>
    if normalized = [slash] then true else (findEntry (parentOf normalized) v).isSome

def allocateEntry (path : List Byte) (type : NodeType) (v : Vfs) : Option Nat × Vfs :=
  match normalizePath path with
  | none => (none, v)
  | some normalized =>
    if (findEntry normalized v).isSome then (none, v)
    else if normalized ≠ [slash] ∧ parentExists normalized v = false then (none, v)
    else
      match alloc grants (normalized.length + 1) v with
      | (none, v) => (none, v)
      | (some name, v) =>
        match alloc grants entrySize v with
        | (none, v) => (none, v.free name)
        | (some node, v) =>
          let entry : Entry :=
            { name := normalized
              room := normalized.length + 1
              nameId := name
              nodeId := node
              type := type }
          (some v.entries.length, { v with entries := v.entries ++ [entry] })

def Vfs.modify (v : Vfs) (i : Nat) (g : Entry → Entry) : Vfs :=
    { v with entries := v.entries.modify i g }

def Vfs.unlink (v : Vfs) (i : Nat) : Vfs :=
  { v with entries := v.entries.eraseIdx i, live := (v.entries[i]?).elim v.live (freeEntry · v.live) }

def Vfs.lookup (path : List Byte) (v : Vfs) : Option Entry :=
    (findEntry path v).bind (v.entries[·]?)

def Entry.setData (data : Option Buf) (size : BitVec 32) (e : Entry) : Entry :=
    { e with data := data, size := size }

def Entry.contents (e : Entry) : List Byte := (e.data.map Buf.bytes).getD []

def createFile (name : Option (List Byte)) (src : Source) (v : Vfs) : Bool × Vfs :=
  match name with
  | none => (false, v)
  | some name =>
    if src.missing then (false, v)
    else if (findEntry name v).isSome then (false, v)
    else
      match allocateEntry grants name .file v with
      | (none, v) => (false, v)
      | (some i, v) =>
        if src.size ≠ 0 then
          match alloc grants src.size.toNat v with
          | (none, v) => (false, v.unlink i)
          | (some id, v) => (true, v.modify i (Entry.setData (some ⟨id, src.toList⟩) src.size))
        else (true, v.modify i (Entry.setData none src.size))

def writeFile (name : Option (List Byte)) (src : Source) (v : Vfs) : Bool × Vfs :=
  match name with
  | none => (false, v)
  | some path =>
    if src.missing then (false, v)
    else
      match findEntry path v with
      | none => createFile grants name src v
      | some i =>
        match v.entries[i]? with
        | none => (false, v)
        | some e =>
          if e.type ≠ .file then (false, v)
          else if src.size ≠ 0 then
            match alloc grants src.size.toNat v with
            | (none, v) => (false, v)
            | (some id, v) => (true, { v with live := freeData e.data v.live }.modify i
                (Entry.setData (some ⟨id, src.toList⟩) src.size))
          else (true, { v with live := freeData e.data v.live }.modify i (Entry.setData none src.size))

def overlay (old : List Byte) (base : Word) (data : List Byte) (size : Nat) : List Byte :=
  (List.range size).map fun j =>
    let i := (BitVec.ofNat 64 j - base).toNat
    if i < data.length then data.getD i 0 else old.getD j 0

def strayStores (base : Word) (count size : Nat) : Nat :=
  (List.range count).countP fun i => decide (size ≤ (base + BitVec.ofNat 64 i).toNat)

def writeEntryAt (path : List Byte) (offset : Word) (src : Source) (append : Bool) (e : Entry)
    (v : Vfs) :
    Option Word × Vfs :=
  let base : Word := if append then e.size.setWidth 64 else offset
  let finish := base + src.size.setWidth 64
  if finish.toNat > 0xffffffff then (none, v)
  else
    let newSize := max finish.toNat e.size.toNat
    if newSize = 0 then
      let r := writeFile grants (some path) (.null 0) v
      (if r.1 then some finish else none, r.2)
    else
      match alloc grants newSize v with
      | (none, v) => (none, v)
      | (some buf, v) =>
        -- the sum of base and size can wrap, and then the copy begins outside of the buffer
        let overrun := v.overrun + strayStores base src.size.toNat newSize
        let old := (e.data.map Buf.bytes).getD []
        let r := writeFile grants (some path) (.bytes (overlay old base src.toList newSize))
          { v with overrun := overrun }
        (if r.1 then some finish else none, r.2.free buf)

def ensureFile (path : List Byte) (v : Vfs) : Bool × Vfs :=
  match findEntry path v with
  | none => createFile grants (some path) (.null 0) v
  | some _ => (true, v)

def writeFileAt (name : Option (List Byte)) (offset : Word) (src : Source) (append : Bool)
    (v : Vfs) :
    Option Word × Vfs :=
  match name with
  | none => (none, v)
  | some path =>
    if src.missing then (none, v)
    else
      match ensureFile grants path v with
      | (false, v) => (none, v)
      | (true, v) =>
        match v.lookup path with
        | none => (none, v)
        | some e => if e.type ≠ .file then (none, v) else writeEntryAt grants path offset src append e v

def truncateFile (name : Option (List Byte)) (size : BitVec 32) (v : Vfs) : Bool × Vfs :=
  match name with
  | none => (false, v)
  | some _ => writeFile grants name (.null size) v

def vfsExists (path : List Byte) (v : Vfs) : Bool := (findEntry path v).isSome

def isDirectory (path : List Byte) (v : Vfs) : Bool :=
  match v.lookup path with
  | none => false
  | some e => decide (e.type = .directory)

def isDevice (path : List Byte) (v : Vfs) : Bool :=
  match v.lookup path with
  | none => false
  | some e => decide (e.type = .device)

def readFile (path : List Byte) (v : Vfs) : Option Buf × BitVec 32 :=
  match v.lookup path with
  | none => (none, 0)
  | some e => if e.type ≠ .file then (none, 0) else (e.data, e.size)

def createDirectory (path : Option (List Byte)) (v : Vfs) : Bool × Vfs :=
  match path with
  | none => (false, v)
  | some path =>
    if (findEntry path v).isSome then (false, v)
    else
      let r := allocateEntry grants path .directory v
      (r.1.isSome, r.2)

def removeNode (type : NodeType) (path : Option (List Byte)) (v : Vfs) : Bool × Vfs :=
  match path with
  | none => (false, v)
  | some path =>
    match normalizePath path with
    | none => (false, v)
    | some normalized =>
      match v.find normalized with
      | none => (false, v)
      | some i =>
        match v.entries[i]? with
        | none => (false, v)
        | some e => if e.type ≠ type then (false, v) else (true, v.unlink i)

def removeFile : Option (List Byte) → Vfs → Bool × Vfs := removeNode .file

def removeDeviceNode : Option (List Byte) → Vfs → Bool × Vfs := removeNode .device

def Entry.rename (name : List Byte) (e : Entry) : Entry := { e with name := name }

def renamePath (oldPath newPath : Option (List Byte)) (v : Vfs) : Bool × Vfs :=
  match oldPath, newPath with
  | some oldPath, some newPath =>
    match normalizePath oldPath, normalizePath newPath with
    | some oldn, some newn =>
      match findEntry oldn v with
      | none => (false, v)
      | some i =>
        if (findEntry newn v).isSome then (false, v)
        else if newn.length ≥ maxPath then (false, v)
        else
          match v.entries[i]? with
          | none => (false, v)
          | some e =>
            (true, { v.modify i (Entry.rename newn) with
              overrun := v.overrun + (newn.length + 1 - e.room) })
    | _, _ => (false, v)
  | _, _ => (false, v)

def Entry.setInfo (info : DeviceNodeInfo) (e : Entry) : Entry := { e with info := some info }

def createDeviceNode (path : Option (List Byte)) (info : DeviceNodeInfo) (v : Vfs) : Bool × Vfs :=
  match path with
  | none => (false, v)
  | some path =>
    if (findEntry path v).isSome then (false, v)
    else
      match allocateEntry grants path .device v with
      | (none, v) => (false, v)
      | (some i, v) => (true, v.modify i (Entry.setInfo info))

def ensureNode (path : List Byte) (v : Vfs) : Vfs :=
  if (findEntry path v).isSome then v else (createDirectory grants (some path) v).2

def devicePaths : List (List Byte) :=
  [ascii "/devices", ascii "/system", ascii "/boot", ascii "/tmp", ascii "/mnt", ascii "/process",
    ascii "/devices/disk", ascii "/devices/net", ascii "/devices/usb", ascii "/devices/gpu",
    ascii "/devices/input", ascii "/devices/audio", ascii "/devices/console"]

def initializeDevices (v : Vfs) : Vfs :=
  let v := if (findEntry [slash] v).isSome then v else (allocateEntry grants [slash] .directory v).2
  devicePaths.foldl (fun v path => ensureNode grants path v) v

inductive VfsOp where
  | createFile (name : Option (List Byte)) (src : Source)
  | createDirectory (path : Option (List Byte))
  | createDeviceNode (path : Option (List Byte)) (info : DeviceNodeInfo)
  | writeFile (name : Option (List Byte)) (src : Source)
  | writeFileAt (name : Option (List Byte)) (offset : Word) (src : Source) (append : Bool)
  | truncateFile (name : Option (List Byte)) (size : BitVec 32)
  | removeFile (path : Option (List Byte))
  | removeDeviceNode (path : Option (List Byte))
  | renamePath (oldPath newPath : Option (List Byte))

def vfsCall (v : Vfs) : VfsOp → Bool × Vfs
  | .createFile name src => createFile grants name src v
  | .createDirectory path => createDirectory grants path v
  | .createDeviceNode path info => createDeviceNode grants path info v
  | .writeFile name src => writeFile grants name src v
  | .writeFileAt name offset src append =>
    let r := writeFileAt grants name offset src append v
    (r.1.isSome, r.2)
  | .truncateFile name size => truncateFile grants name size v
  | .removeFile path => removeFile path v
  | .removeDeviceNode path => removeDeviceNode path v
  | .renamePath oldPath newPath => renamePath oldPath newPath v

def vfsStep (v : Vfs) (op : VfsOp) : Vfs := (vfsCall grants v op).2

def rootOnly : Vfs := { entries := [{ name := [slash], room := 2, type := .directory }] }

end BlockOS.Fs
