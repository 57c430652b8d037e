import BlockOS.Kernel.Preempt
import BlockOS.Kernel.Sockets

/-! The state that the system calls of `kernel/user_syscall.cpp` work on, and their helpers. -/

namespace BlockOS.Kernel
open Words Function

structure FutexWaiter where
  used : Bool := false
  addr : Word := 0
  pid : Word := 0
  deriving DecidableEq

def futexCount : Nat := 128

structure Destroy where
  root : Word
  self : Nat
  tasks : Tasks

structure System (σ : Type) where
  tasks : Tasks
  socks : Nat → UnixSocket
  futexes : Nat → FutexWaiter
  mem : σ
  destroys : List Destroy := []

structure ExecImage where
  pml4 : Word
  entry : Word
  rsp : Word

inductive PlainKind where
  | tty | file | directory | device | null | random
  deriving DecidableEq

def PlainKind.toKind : PlainKind → FdKind
  | .tty => .tty
  | .file => .file
  | .directory => .directory
  | .device => .device
  | .null => .null
  | .random => .random

inductive FdEdit where
  | opened (fd : Nat) (kind : PlainKind) (flags object : BitVec 32) (data size off : Word) (path : List Byte)
  | moved (fd : Nat) (data size off : Word)

def FdEdit.apply (fds : Nat → RuntimeFd) : FdEdit → Nat → RuntimeFd
  | .opened fd kind flags object data size off path =>
    if fd < maxRuntimeFds ∧ (fds fd).used = false then
      update fds fd
        { used := true, kind := kind.toKind, flags := flags, object := object, data := data
          size := size, off := off, path := path }
    else fds
  | .moved fd data size off =>
    if (fds fd).used = true ∧ ((fds fd).kind = .file ∨ (fds fd).kind = .directory) then
      update fds fd { fds fd with data := data, size := size, off := off }
    else fds

structure RestEffect (σ : Type) where
  mem : σ
  fds : List FdEdit
  brkCurrent : Word
  brkMapped : Word
  mmapNext : Word
  cwd : List Byte
  rax : Word

structure Env (σ : Type) where
  uptimeMs : σ → Word
  isUserRange : σ → Word → Word → Nat → Bool → Bool
  load : σ → Word → Word → Byte
  store : σ → Word → Word → List Byte → σ
  cloneForFork : σ → Word → Word × σ
  destroyUserSpace : σ → Word → σ
  execImage : System σ → SyscallFrame → Option ExecImage × σ
  execFile : System σ → SyscallFrame → Bool
  rest : System σ → SyscallFrame → RestEffect σ
  userReturn : Word
  savedRsp : σ → Word

section

variable {σ : Type} (env : Env σ)

def Tasks.get (t : Tasks) (pid : Word) : Option Nat :=
  if pid = 0 then none
  else (List.range slotCount).find? fun i =>
    decide ((t.procs i).state ≠ .empty) && decide ((t.procs i).pid = pid)

def Tasks.count (t : Tasks) : Nat :=
  ((List.range slotCount).filter fun i => decide ((t.procs i).state ≠ .empty)).length

def Tasks.freeSlot (t : Tasks) : Option Nat :=
  (List.range slotCount).find? fun i => decide ((t.procs i).state = .empty)

def Tasks.fdOwner (t : Tasks) (i : Nat) : Nat := (t.procs i).fdOwner.getD i

def System.modify (k : System σ) (i : Nat) (g : Process → Process) : System σ :=
  { k with tasks := k.tasks.modify i g }

@[simp] theorem System.modify_tasks (k : System σ) (i : Nat) (g : Process → Process) :
    (k.modify i g).tasks = k.tasks.modify i g := rfl

def System.userRange (k : System σ) (addr : Word) (len : Nat) (write : Bool) : Bool :=
  decide (len ≠ 0) && env.isUserRange k.mem k.tasks.cr3 addr len write

def System.store (k : System σ) (addr : Word) (data : List Byte) : System σ :=
  { k with mem := env.store k.mem k.tasks.cr3 addr data }

def System.load (k : System σ) (addr : Word) (len : Nat) : List Byte :=
  (List.range len).map fun i => env.load k.mem k.tasks.cr3 (addr + BitVec.ofNat 64 i)

def fromBytes (l : List Byte) : Nat := l.foldr (fun b n => b.toNat + 256 * n) 0

def bytesOf (n : Nat) (x : Word) : List Byte :=
  (List.range n).map fun i => (x >>> (8 * i)).setWidth 8

def readMark (idx : Int) : BitVec 32 := BitVec.ofInt 32 idx + 1
def writeMark (idx : Int) : BitVec 32 := (BitVec.ofInt 32 idx + 1) ||| 0x80000000

def Process.awake (p : Process) : Process :=
  if p.state = .blocked then { p with state := .ready } else p

def Process.awakeFor (mark : BitVec 32) (p : Process) : Process :=
  if p.state = .blocked ∧ p.waitSockPlus1 = mark then
    { p with waitSockPlus1 := 0, state := .ready }
  else p

def wakeSocket (mark : BitVec 32) (t : Tasks) : Tasks :=
  { t with procs := fun i => if i < slotCount then (t.procs i).awakeFor mark else t.procs i }

def wakeSocketReaders (idx : Int) (t : Tasks) : Tasks :=
  if idx < 0 then t else wakeSocket (readMark idx) t

def wakeSocketWriters (idx : Int) (t : Tasks) : Tasks :=
  if idx < 0 then t else wakeSocket (writeMark idx) t

def Tasks.wakePid (t : Tasks) (pid : Word) : Tasks :=
  match t.get pid with
  | some i => t.modify i Process.awake
  | none => t

def System.setWaiter (k : System σ) (j : Nat) (w : FutexWaiter) : System σ :=
  { k with futexes := update k.futexes j w }

def wakeFutexFrom (addr : Word) (count : Nat) : Nat → Nat → Nat → System σ → System σ
  | 0, _, _, k => k
  | fuel + 1, j, woken, k =>
    let w := k.futexes j
    if !w.used || w.addr != addr then wakeFutexFrom addr count fuel (j + 1) woken k
    else
      let k := k.setWaiter j { w with used := false }
      match k.tasks.get w.pid with
      | none => wakeFutexFrom addr count fuel (j + 1) woken k
      | some i =>
        if (k.tasks.procs i).state = .blocked then
          let k := k.modify i Process.awake
          if woken + 1 ≥ count then k else wakeFutexFrom addr count fuel (j + 1) (woken + 1) k
        else wakeFutexFrom addr count fuel (j + 1) woken k

def wakeFutex (addr : Word) (count : Nat) (k : System σ) : System σ :=
  wakeFutexFrom addr count futexCount 0 0 k

def System.setFd (k : System σ) (owner fd : Nat) (d : RuntimeFd) : System σ :=
  k.modify owner fun p => { p with fds := update p.fds fd d }

def System.fdtable (k : System σ) (self : Nat) : Nat → RuntimeFd :=
  (k.tasks.procs (k.tasks.fdOwner self)).fds

def System.fd? (k : System σ) (self : Nat) (fd : Word) : Option RuntimeFd :=
  if fd.toNat ≥ maxRuntimeFds then none
  else if (k.fdtable self fd.toNat).used then some (k.fdtable self fd.toNat) else none

def allocFd (self start : Nat) (k : System σ) : Option Nat × System σ :=
  match (List.range maxRuntimeFds).find? fun i =>
      decide (start ≤ i) && !(k.fdtable self i).used with
  | some i => (some i, k.setFd (k.tasks.fdOwner self) i { used := true })
  | none => (none, k)

def socketFd (si : Int) (flags : BitVec 32) : RuntimeFd :=
  { used := true, kind := .unixSocket, flags := flags, object := BitVec.ofInt 32 (si + 1) }

def RuntimeFd.socket (d : RuntimeFd) : Int := d.object.toInt - 1

def RuntimeFd.refers (d : RuntimeFd) (si : Int) : Bool :=
  d.used && decide (d.kind = .unixSocket) && decide (d.socket = si)

def System.socketOf (k : System σ) (self : Nat) (fd : Word) : Option Int :=
  match k.fd? self ((fd.setWidth 32).signExtend 64) with
  | none => none
  | some d => if d.kind = .unixSocket ∧ 0 ≤ d.socket then some d.socket else none

def socketOtherRefs (t : Tasks) (si : Int) (except : Option (Nat × Nat)) : Nat :=
  ((List.range slotCount).map fun i =>
    if (t.procs i).state = .empty then 0
    else ((List.range maxRuntimeFds).filter fun fd =>
      decide (except ≠ some (i, fd)) && ((t.procs i).fds fd).refers si).length).sum

def socketReleaseFd (si : Int) (except : Option (Nat × Nat)) (k : System σ) : System σ :=
  if si < 0 then k
  else if socketOtherRefs k.tasks si except ≠ 0 then k
  else
    let pe := (sockAt k.socks si).peer
    let k := if 0 ≤ pe ∧ pe < socketCount then
        { k with
          socks := setSock k.socks pe { sockAt k.socks pe with closed := true }
          tasks := wakeSocketReaders pe k.tasks }
      else k
    { k with socks := socketFree si k.socks }

def releaseFd (i : Nat) (k : System σ) (fd : Nat) : System σ :=
  let d := (k.tasks.procs i).fds fd
  if d.used = true ∧ d.kind = .unixSocket then socketReleaseFd d.socket none (k.setFd i fd {})
  else k

def releaseProcessFds (i : Nat) (k : System σ) : System σ :=
  (List.range maxRuntimeFds).foldl (releaseFd i) k

def System.writeAll (k : System σ) (idx : Int) (src : List Byte) : Bool × System σ :=
  let r := socketWriteIdx idx src k.socks
  (r.1, { k with
    socks := r.2
    tasks := if r.1 then wakeSocketReaders (sockAt k.socks idx).peer k.tasks else k.tasks })

def System.writeSome (k : System σ) (idx : Int) (src : List Byte) : Nat × System σ :=
  let r := socketWritePartial idx src k.socks
  (r.1, { k with
    socks := r.2
    tasks := if r.1 ≠ 0 then wakeSocketReaders (sockAt k.socks idx).peer k.tasks else k.tasks })

def System.readInto (k : System σ) (idx : Int) (dst : Word) (n : Nat) : Nat × System σ :=
  let r := socketReadIdx idx n k.socks
  (r.1.length, { k with
    socks := r.2
    mem := env.store k.mem k.tasks.cr3 dst r.1
    tasks := if r.1.length ≠ 0 then wakeSocketWriters idx k.tasks else k.tasks })

end

end BlockOS.Kernel
