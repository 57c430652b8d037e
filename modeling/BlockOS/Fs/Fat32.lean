import BlockOS.Lib.Words
import BlockOS.Lib.Buffer
import BlockOS.Lib.Paths

/-! The FAT32 driver. -/

namespace BlockOS.Fat32
open Words Buffer Paths
open List (range replicate)

abbrev Sector := Nat → Byte

abbrev Disk := Nat → Sector

abbrev Slot := List Byte

def u32 (x : Nat) : Nat := x % 4294967296

def le : List Byte → Nat
  | [] => 0
  | b :: bs => b.toNat + 256 * le bs

def bytesOf : Nat → Nat → List Byte
  | 0, _ => []
  | n + 1, x => BitVec.ofNat 8 x :: bytesOf n (x / 256)

structure Fat32Reader where
  sectorsPerCluster : Nat
  bytesPerSector : Nat
  fatStartSector : Nat
  dataStartSector : Nat
  fatSize : Nat
  rootClusterNum : Nat
  isInitialized : Bool
  sectorCount : Nat
deriving DecidableEq

namespace Fat32Reader

variable (r : Fat32Reader)

def Addresses (lba : Nat) : Prop := lba ≤ 0x0FFFFFFF ∧ lba < r.sectorCount

instance (lba : Nat) : Decidable (r.Addresses lba) := inferInstanceAs (Decidable (_ ∧ _))

def readSectors (d : Disk) (lba : Nat) : Option Sector :=
    if r.Addresses lba then some (d lba) else none

def writeSectors (d : Disk) (lba : Nat) (buffer : Sector) : Option Disk :=
  if r.Addresses lba then some (Function.update d lba buffer) else none

def initializeReader (d : Disk) : Bool × Fat32Reader :=
  let r := { r with isInitialized := false }
  match r.readSectors d 0 with
  | none => (false, r)
  | some boot =>
    let bytesPerSector := le (slice boot 11 2)
    let sectorsPerCluster := le (slice boot 13 1)
    let reservedSectors := le (slice boot 14 2)
    let numFats := le (slice boot 16 1)
    let fatSize := le (slice boot 36 4)
    if bytesPerSector ≠ 512 then (false, r)
    else if fatSize = 0 then (false, r)
    else if sectorsPerCluster = 0 then (false, r)
    else (true, { r with
      sectorsPerCluster, bytesPerSector, fatSize
      fatStartSector := reservedSectors
      dataStartSector := u32 (reservedSectors + numFats * fatSize)
      rootClusterNum := le (slice boot 44 4)
      isInitialized := true })

def readFatTable (d : Disk) (sector : Nat) : Option Sector :=
    r.readSectors d (u32 (r.fatStartSector + sector))

def writeFatTable (d : Disk) (sector : Nat) (buffer : Sector) : Option Disk :=
  r.writeSectors d (u32 (r.fatStartSector + sector)) buffer

def clusterToLba (cluster : Nat) : Nat :=
  u32 (r.dataStartSector + u32 (cluster + 4294967294) * r.sectorsPerCluster)

def nextClusterInChain (d : Disk) (cluster : Nat) : Nat :=
  let fatEntry := u32 (cluster * 4)
  match r.readFatTable d (fatEntry / r.bytesPerSector) with
  | none => 0x0FFFFFFF
  | some buffer => le (slice buffer (fatEntry % r.bytesPerSector) 4) &&& 0x0FFFFFFF

def zeroEntry (buffer : Sector) : Option Nat := (range 128).find? fun i =>
    le (slice buffer (4 * i) 4) == 0

def scanFat (d : Disk) : List Nat → Nat
  | [] => 0xFFFFFFFF
  | sector :: rest =>
    match r.readFatTable d sector with
    | none => 0xFFFFFFFF
    | some buffer =>
      match zeroEntry buffer with
      | some i => u32 (sector * 128 + i)
      | none => scanFat d rest

def getFirstFreeCluster (d : Disk) : Nat := r.scanFat d (List.range' 2 (r.fatSize - 2))

def writeFatEntry (d : Disk) (cluster value : Nat) : Option Disk :=
  let fatEntry := u32 (cluster * 4)
  match r.readFatTable d (fatEntry / r.bytesPerSector) with
  | none => none
  | some buffer =>
    let oldValue := le (slice buffer (fatEntry % r.bytesPerSector) 4)
    -- the top bits are kept in a `uint8_t`, so nothing of them is left
    let preservedTopBits := (oldValue &&& 0xF0000000) % 256
    let newValue := (value &&& 0x0FFFFFFF) ||| preservedTopBits
    r.writeFatTable d (fatEntry / r.bytesPerSector)
      (blit buffer (fatEntry % r.bytesPerSector) (bytesOf 4 newValue))

end Fat32Reader

def slotAt (buffer : Sector) (e : Nat) : Slot := slice buffer (32 * e) 32

namespace Slot

def lead (s : Slot) : Byte := s.headD 0

def name (s : Slot) : List Byte := s.take 11

def attr (s : Slot) : Byte := s.getD 11 0

def fileSize (s : Slot) : Nat := le ((s.drop 28).take 4)

def cluster (s : Slot) : Nat := le ((s.drop 26).take 2) ||| (le ((s.drop 20).take 2) <<< 16)

def isFree (s : Slot) : Bool := lead s == 0x00 || lead s == 0xE5

def isDirectory (s : Slot) : Bool := attr s &&& 0x10 != 0

def isShort (s : Slot) : Bool := attr s != 0x0F && attr s &&& 0x08 == 0

def make (name : List Byte) (attr : Byte) (cluster size : Nat) : Slot :=
  name ++ attr :: replicate 8 (0 : Byte) ++ bytesOf 2 ((cluster >>> 16) &&& 0xFFFF) ++ replicate 4
    (0 : Byte) ++ bytesOf 2 (cluster &&& 0xFFFF) ++ bytesOf 4 size

end Slot

def InChain (cluster : Nat) : Prop := 2 ≤ cluster ∧ cluster < 0x0FFFFFF8

instance (cluster : Nat) : Decidable (InChain cluster) := inferInstanceAs (Decidable (_ ∧ _))

def maxWalk : Nat := 0x10000000

namespace Fat32Reader

variable (r : Fat32Reader)

inductive Placing where
  | readError
  | full
  | written (d : Option Disk)

def placeEntry (d : Disk) (lba : Nat) (entry : Slot) : List Nat → Placing
  | [] => .full
  | s :: rest =>
    match r.readSectors d (u32 (lba + s)) with
    | none => .readError
    | some buffer =>
      match (range (r.bytesPerSector / 32)).find? fun e => Slot.isFree (slotAt buffer e) with
      | some e => .written (r.writeSectors d (u32 (lba + s)) (blit buffer (32 * e) entry))
      | none => placeEntry d lba entry rest

def clearCluster (lba : Nat) : List Nat → Disk → Bool × Disk
  | [], d => (true, d)
  | s :: rest, d =>
    match r.writeSectors d (u32 (lba + s)) fun _ => 0 with
    | none => (false, d)
    | some d => clearCluster lba rest d

def insertDirectoryEntry : Nat → Disk → Nat → Slot → Option (Bool × Disk)
  | 0, _, _, _ => none
  | fuel + 1, d, cluster, entry =>
    if InChain cluster then
      match r.placeEntry d (r.clusterToLba cluster) entry (range r.sectorsPerCluster) with
      | .readError => some (false, d)
      | .written none => some (false, d)
      | .written (some d) => some (true, d)
      | .full =>
        let nextCluster := r.nextClusterInChain d cluster
        if InChain nextCluster then insertDirectoryEntry fuel d nextCluster entry
        else
          let newCluster := r.getFirstFreeCluster d
          if newCluster = 0xFFFFFFFF then some (false, d)
          else
            match r.writeFatEntry d newCluster 0x0FFFFFFF with
            | none => some (false, d)
            | some d =>
              match r.clearCluster (r.clusterToLba newCluster) (range r.sectorsPerCluster) d with
              | (false, d) => some (false, d)
              | (true, d) =>
                match r.writeFatEntry d cluster newCluster with
                | none => some (false, d)
                | some d => insertDirectoryEntry fuel d newCluster entry
    else some (false, d)

end Fat32Reader

def upper (c : Byte) : Byte := if 97 ≤ c.toNat ∧ c.toNat ≤ 122 then c - 32 else c

def padTo (n : Nat) (s : List Byte) : List Byte := s ++ replicate (n - s.length) 32

def toShortName (name : List Byte) : Option (List Byte) :=
  let base := name.takeWhile fun c => c != 46
  if 8 < base.length then none
  else if base.length = 0 then none
  else
    match name.drop base.length with
    | [] => some (padTo 11 (base.map upper))
    | _ :: ext =>
      if 3 < ext.length then none else some (padTo 8 (base.map upper) ++ padTo 3 (ext.map upper))

def splitLast (path : List Byte) : Option (List Byte) × List Byte :=
  let last := path.reverse.takeWhile fun c => c != 47
  (if last.length = path.length then none else some (path.take (path.length - last.length - 1)),
    last.reverse)

def finalComponent (path : List Byte) : List Byte := (splitLast path).2

inductive Look where
  | more
  | ended
  | hit (s : Slot)

def lookSlots (want : Slot → Bool) : List Slot → Look
  | [] => .more
  | s :: rest =>
    if Slot.lead s = 0x00 then .ended
    else if Slot.lead s = 0xE5 then lookSlots want rest
    else if want s then .hit s
    else lookSlots want rest

namespace Fat32Reader

variable (r : Fat32Reader)

def lookSectors (d : Disk) (want : Slot → Bool) (lba : Nat) : List Nat → Look
  | [] => .more
  | s :: rest =>
    match r.readSectors d (u32 (lba + s)) with
    | none => .ended
    | some buffer =>
      match lookSlots want ((range (r.bytesPerSector / 32)).map (slotAt buffer)) with
      | .more => lookSectors d want lba rest
      | found => found

def lookCluster (d : Disk) (want : Slot → Bool) (cluster : Nat) : Look :=
  r.lookSectors d want (r.clusterToLba cluster) (range r.sectorsPerCluster)

def lookChain (d : Disk) (want : Slot → Bool) : Nat → Nat → Option (Option Slot)
  | 0, _ => none
  | fuel + 1, cluster =>
    if InChain cluster then
      match r.lookCluster d want cluster with
      | .hit s => some (some s)
      | .ended => some none
      | .more => lookChain d want fuel (r.nextClusterInChain d cluster)
    else some none

def findEntryInDirectory (d : Disk) (dirCluster : Nat) (shortName : List Byte) :
    Option (Option Slot) :=
  r.lookChain d (fun s => Slot.isShort s && Slot.name s == shortName) maxWalk dirCluster

def resolveFrom (d : Disk) : List (List Byte) → Nat → Option (Option Nat)
  | [], current => some (some current)
  | component :: rest, current =>
    if 16 ≤ component.length then some none
    else
      match toShortName component with
      | none => some none
      | some shortName =>
        match r.findEntryInDirectory d current shortName with
        | none => none
        | some none => some none
        | some (some entry) =>
          if !Slot.isDirectory entry then some none
          else resolveFrom d rest (if Slot.cluster entry = 0 then r.rootClusterNum else Slot.cluster
            entry)

def resolvePath (d : Disk) (path : List Byte) : Option (Option Nat) :=
  if !r.isInitialized then some none else r.resolveFrom d (pieces 47 path) r.rootClusterNum

def getParentDirectoryCluster (d : Disk) (path : List Byte) : Option (Option Nat) :=
  if !r.isInitialized then some none
  else
    match (splitLast path).1 with
    | none => some (some r.rootClusterNum)
    | some parentPath =>
      if parentPath = [] then some (some r.rootClusterNum)
      else if 256 ≤ parentPath.length then some none
      else r.resolvePath d parentPath

inductive Reading where
  | failed
  | done (dest : List Byte)
  | more (dest : List Byte) (bytesRemaining : Nat)

def readCluster (d : Disk) (lba : Nat) : List Nat → Nat → List Byte → Reading
  | [], bytesRemaining, dest => .more dest bytesRemaining
  | s :: rest, bytesRemaining, dest =>
    match r.readSectors d (u32 (lba + s)) with
    | none => .failed
    | some buffer =>
      let bytesToCopy := min bytesRemaining 512
      let dest := dest ++ slice buffer 0 bytesToCopy
      if bytesRemaining - bytesToCopy = 0 then .done dest
      else readCluster d lba rest (bytesRemaining - bytesToCopy) dest

def readChain (d : Disk) : Nat → Nat → Nat → List Byte → Option (Option (List Byte))
  | 0, _, _, _ => none
  | fuel + 1, cluster, bytesRemaining, dest =>
    if InChain cluster then
      match r.readCluster d (r.clusterToLba cluster) (range r.sectorsPerCluster) bytesRemaining dest with
      | .failed => some none
      | .done dest => some (some dest)
      | .more dest bytesRemaining =>
        readChain d fuel (r.nextClusterInChain d cluster) bytesRemaining dest
    else some none

def readEntry (d : Disk) (entry : Slot) : Option (Option (List Byte)) :=
  if Slot.fileSize entry = 0 then some (some [])
  else r.readChain d (Slot.fileSize entry + 1) (Slot.cluster entry) (Slot.fileSize entry) []

def isFileNamed (targetName : List Byte) (s : Slot) : Bool :=
  Slot.isShort s && !Slot.isDirectory s && Slot.name s == targetName

def readFile (d : Disk) (path : List Byte) : Option (Option (List Byte)) :=
  if !r.isInitialized then some none
  else
    match r.getParentDirectoryCluster d path with
    | none => none
    | some none => some none
    | some (some parent) =>
      match toShortName (finalComponent path) with
      | none => some none
      | some targetName =>
        match r.lookChain d (isFileNamed targetName) maxWalk parent with
        | none => none
        | some none => some none
        | some (some entry) => r.readEntry d entry

def createDirectory (d : Disk) (path : List Byte) : Option (Bool × Disk) :=
  if !r.isInitialized then some (false, d)
  else
    match r.getParentDirectoryCluster d path with
    | none => none
    | some none => some (false, d)
    | some (some parent) =>
      let firstFreeCluster := r.getFirstFreeCluster d
      if firstFreeCluster = 0xFFFFFFFF then some (false, d)
      else
        match toShortName (finalComponent path) with
        | none => some (false, d)
        | some targetName =>
          match r.writeFatEntry d firstFreeCluster 0x0FFFFFFF with
          | none => some (false, d)
          | some d =>
            match r.clearCluster (r.clusterToLba firstFreeCluster) (range r.sectorsPerCluster) d with
            | (false, d) => some (false, d)
            | (true, d) =>
              r.insertDirectoryEntry maxWalk d parent (Slot.make targetName 0x10 firstFreeCluster 0)

def writeCluster (src : Nat → Byte) (length lba : Nat) : List Nat → Disk → Nat → Bool × Disk × Nat
  | [], d, written => (true, d, written)
  | s :: rest, d, written =>
    if length ≤ written then (true, d, written)
    else
      match r.writeSectors d (u32 (lba + s)) fun i => src (written + i) with
      | none => (false, d, written)
      | some d => writeCluster src length lba rest d (written + min (length - written) 512)

def writeLoop (src : Nat → Byte) (length firstFreeCluster : Nat) : Nat → Disk → Nat → Nat →
    Option (Bool × Disk × Nat)
  | 0, _, _, _ => none
  | fuel + 1, d, current, written =>
    if written < length then
      match r.writeCluster src length (r.clusterToLba firstFreeCluster) (range r.sectorsPerCluster)
        d written with
      | (false, d, _) => some (false, d, current)
      | (true, d, written) =>
        let nextFreeCluster := r.getFirstFreeCluster d
        if nextFreeCluster = 0xFFFFFFFF then some (false, d, current)
        else
          match r.writeFatEntry d current nextFreeCluster with
          | none => some (false, d, current)
          | some d => writeLoop src length firstFreeCluster fuel d nextFreeCluster written
    else some (true, d, current)

def writeData (src : Nat → Byte) (length firstFreeCluster : Nat) (d : Disk) (current : Nat) :
    Option (Bool × Disk) :=
  match r.writeLoop src length firstFreeCluster (length + 1) d current 0 with
  | none => none
  | some (false, d, _) => some (false, d)
  | some (true, d, current) =>
    match r.writeFatEntry d current 0x0FFFFFFF with
    | none => some (false, d)
    | some d => some (true, d)

def writeFile (d : Disk) (path : List Byte) (src : Nat → Byte) (length : Nat) :
    Option (Bool × Disk) :=
  if !r.isInitialized then some (false, d)
  else
    match r.getParentDirectoryCluster d path with
    | none => none
    | some none => some (false, d)
    | some (some parent) =>
      match toShortName (finalComponent path) with
      | none => some (false, d)
      | some targetName =>
        if length = 0 then r.insertDirectoryEntry maxWalk d parent (Slot.make targetName 0x20 0 0)
        else
          let firstFreeCluster := r.getFirstFreeCluster d
          if firstFreeCluster = 0xFFFFFFFF then some (false, d)
          else
            match r.insertDirectoryEntry maxWalk d parent
              (Slot.make targetName 0x20 firstFreeCluster length) with
            | none => none
            | some (false, d) => some (false, d)
            | some (true, d) => r.writeData src length firstFreeCluster d parent

end Fat32Reader

end BlockOS.Fat32
