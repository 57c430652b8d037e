import BlockOS.Kernel.System

/-! The dispatcher of `kernel/user_syscall.cpp`. -/

namespace BlockOS.Kernel
open Words
open BitVec (ofInt ofNat)

section

variable {σ : Type} (env : Env σ)

variable (self : Nat) (f : SyscallFrame) (k : System σ)

def errno (n : Nat) : Word := ofInt 64 (-(n : Int))

def eperm : Word := errno 1
def enoent : Word := errno 2
def esrch : Word := errno 3
def enoexec : Word := errno 8
def ebadf : Word := errno 9
def echild : Word := errno 10
def eagain : Word := errno 11
def enomem : Word := errno 12
def efault : Word := errno 14
def einval : Word := errno 22
def emfile : Word := errno 24
def enosys : Word := errno 38
def enotsock : Word := errno 88
def eaddrinuse : Word := errno 98
def enotconn : Word := errno 107

inductive Sys where
  | read | write | close | setuid | setgid | seteuid | setegid | socket | bind | listen | accept
  | accept4 | connect | sendto | recvfrom | futex | clone | wait4 | exit | exitGroup | schedYield
  | nanosleep | execve | setTidAddress | fcntl | dup | dup2 | pipe2 | archPrctl | socketpair
  | sendmsg | recvmsg | setpgid | setsid | fork | vfork | dup3 | rest
  deriving DecidableEq

def sysNumbers : List (Nat × Sys) :=
  [(0, .read), (1, .write), (3, .close), (9, .setuid), (10, .setgid), (11, .seteuid), (12, .setegid),
    (25, .socket), (26, .bind), (27, .listen), (28, .accept), (29, .accept4), (30, .connect),
    (31, .sendto), (32, .recvfrom), (41, .futex), (42, .clone), (43, .wait4), (44, .exit),
    (45, .exitGroup), (46, .schedYield), (47, .nanosleep), (48, .execve), (55, .setTidAddress),
    (65, .fcntl), (66, .dup), (67, .dup2), (68, .pipe2), (83, .archPrctl), (84, .socketpair),
    (85, .sendmsg), (86, .recvmsg), (88, .setpgid), (90, .setsid), (91, .fork), (92, .vfork),
    (93, .dup3)]

def decode (rax : Word) : Sys := (sysNumbers.lookup rax.toNat).getD .rest

def sysRead : Word := 0
def sysWrite : Word := 1

def fdCloexec : BitVec 32 := 1
def fdNonblock : BitVec 32 := 0o4000
def oCloexec : Word := 0o2000000
def oNonblock : Word := 0o4000
def wnohang : Word := 1
def futexWait : BitVec 32 := 0
def futexWake : BitVec 32 := 1
def archSetFs : Word := 0x1002
def archGetFs : Word := 0x1003
def afUnix : BitVec 32 := 1
def sockStream : BitVec 32 := 1

inductive Ret where
  | value (rax : Word)
  | frame (f : SyscallFrame)

def System.switching (k : System σ) (r : Bool × SyscallFrame × Tasks)
    (fail : System σ → Ret × System σ) : Ret × System σ :=
  let k := { k with tasks := r.2.2 }
  if r.1 then (.frame r.2.1, k) else fail k

def Process.keepBooks (e : RestEffect σ) (p : Process) : Process :=
  { p with
    brkCurrent := e.brkCurrent, brkMapped := e.brkMapped, mmapNext := e.mmapNext, cwd := e.cwd }

def Process.editFds (edits : List FdEdit) (p : Process) : Process :=
  { p with fds := edits.foldl FdEdit.apply p.fds }

def runRest : Ret × System σ :=
  let e := env.rest k f
  let k := k.modify self (Process.keepBooks e)
  let k := k.modify (k.tasks.fdOwner self) (Process.editFds e.fds)
  (.value e.rax, { k with mem := e.mem })

def Process.markSock (mark : BitVec 32) (p : Process) : Process := { p with waitSockPlus1 := mark }

def waitOnSocket (self : Nat) (mark : BitVec 32) (number : Word) (f : SyscallFrame) (k : System σ) :
    Ret × System σ :=
  let again := { f with rax := number, rip := f.rip - 2 }
  let k := k.modify self (Process.markSock mark)
  k.switching (blockFromSyscall again k.tasks) fun k =>
    let k := k.modify self (Process.markSock 0)
    k.switching (yieldFromSyscall again k.tasks) fun k => (.value eagain, k)

def writeMustWait (d : RuntimeFd) (len : Nat) (socks : Nat → UnixSocket) : Bool :=
  let peer := (sockAt socks d.socket).peer
  let free := if 0 ≤ peer ∧ peer < 256 then room (sockAt socks peer) else 0
  decide (d.flags &&& fdNonblock = 0) && decide (0 ≤ peer) && decide (free < min len socketBuffer)

def doWrite : Ret × System σ :=
  match k.fd? self f.rdi with
  | none => (.value ebadf, k)
  | some d =>
    if f.rdx = 0 then (.value 0, k)
    else if !k.userRange env f.rsi f.rdx.toNat false then (.value efault, k)
    else if d.kind ≠ .unixSocket then runRest env self f k
    else if d.socket < 0 then (.value enotconn, k)
    else if writeMustWait d f.rdx.toNat k.socks then
      waitOnSocket self (writeMark (sockAt k.socks d.socket).peer) sysWrite f k
    else
      let r := k.writeSome d.socket (k.load env f.rsi f.rdx.toNat)
      (.value (if r.1 = 0 then eagain else ofNat 64 r.1), r.2)

def doRead : Ret × System σ :=
  match k.fd? self f.rdi with
  | none => (.value ebadf, k)
  | some d =>
    if f.rdx = 0 then (.value 0, k)
    else if !k.userRange env f.rsi f.rdx.toNat true then (.value efault, k)
    else if d.kind ≠ .unixSocket then runRest env self f k
    else if d.socket < 0 then (.value enotconn, k)
    else if socketDry (sockAt k.socks d.socket) then
      if d.flags &&& fdNonblock = 0 then waitOnSocket self (readMark d.socket) sysRead f k
      else (.value eagain, k)
    else
      let r := k.readInto env d.socket f.rsi f.rdx.toNat
      (.value (ofNat 64 r.1), r.2)

def dropFd (self fd : Nat) (d : RuntimeFd) (k : System σ) : System σ :=
  let k := k.setFd (k.tasks.fdOwner self) fd {}
  if d.kind = .unixSocket then socketReleaseFd d.socket (some (self, fd)) k else k

def doClose : Ret × System σ :=
  match k.fd? self f.rdi with
  | none => (.value ebadf, k)
  | some d => (.value 0, dropFd self f.rdi.toNat d k)

def doDup : Ret × System σ :=
  match k.fd? self f.rdi with
  | none => (.value ebadf, k)
  | some d =>
    match allocFd self 0 k with
    | (none, k) => (.value enomem, k)
    | (some n, k) => (.value (ofNat 64 n), k.setFd (k.tasks.fdOwner self) n d)

def replaceFd (self : Nat) (d : RuntimeFd) (target : Nat) (flags : BitVec 32 → BitVec 32)
    (k : System σ) : System σ :=
  let old := k.fdtable self target
  let k := if old.used = true ∧ old.kind = .unixSocket then dropFd self target old k else k
  k.setFd (k.tasks.fdOwner self) target { d with flags := flags d.flags }

def doDup2 : Ret × System σ :=
  match k.fd? self f.rdi with
  | none => (.value ebadf, k)
  | some d =>
    if f.rsi.toNat ≥ maxRuntimeFds then (.value ebadf, k)
    else if f.rdi = f.rsi then (.value f.rsi, k)
    else (.value f.rsi, replaceFd self d f.rsi.toNat id k)

def doDup3 : Ret × System σ :=
  match k.fd? self f.rdi with
  | none => (.value ebadf, k)
  | some d =>
    if f.rsi.toNat ≥ maxRuntimeFds then (.value ebadf, k)
    else if f.rdi = f.rsi then (.value einval, k)
    else (.value f.rsi, replaceFd self d f.rsi.toNat
      (fun fl => (fl &&& ~~~fdCloexec) ||| if f.rdx &&& oCloexec ≠ 0 then fdCloexec else 0) k)

def low16 (x : Word) : BitVec 32 := x.setWidth 32 &&& 0xffff

def dupFrom (self start : Nat) (d : RuntimeFd) (k : System σ) : Ret × System σ :=
  match allocFd self start k with
  | (none, k) => (.value emfile, k)
  | (some n, k) => (.value (ofNat 64 n), k.setFd (k.tasks.fdOwner self) n d)

def doFcntl : Ret × System σ :=
  match k.fd? self f.rdi with
  | none => (.value ebadf, k)
  | some d =>
    let set := fun fl => k.setFd (k.tasks.fdOwner self) f.rdi.toNat { d with flags := fl }
    if f.rsi = 0 then dupFrom self (low16 f.rdx).toNat d k
    else if f.rsi = 1 then (.value (if d.flags &&& fdCloexec ≠ 0 then 1 else 0), k)
    else if f.rsi = 2 then
      (.value 0, set (((d.flags &&& ~~~fdCloexec) ||| (low16 f.rdx &&& fdCloexec)) &&& 0xffff))
    else if f.rsi = 3 then (.value (d.flags.setWidth 64), k)
    else if f.rsi = 4 then (.value 0, set (low16 f.rdx))
    else if f.rsi = 1030 then
      dupFrom self (low16 f.rdx).toNat { d with flags := (d.flags ||| fdCloexec) &&& 0xffff } k
    else (.value einval, k)

def doSocket : Ret × System σ :=
  if f.rdi.setWidth 32 ≠ afUnix ∨ f.rsi.setWidth 32 &&& 0xf ≠ sockStream then (.value enosys, k)
  else
    let r := socketObjAlloc k.socks
    if r.1 < 0 then (.value enomem, k)
    else
      match allocFd self 0 { k with socks := r.2 } with
      | (none, k) => (.value enomem, { k with socks := socketFree r.1 k.socks })
      | (some fd, k) => (.value (ofNat 64 fd), k.setFd (k.tasks.fdOwner self) fd (socketFd r.1 0))

def unixKeyFromAddr (addr : Word) (len : Nat) (k : System σ) : Option (List Byte) :=
  if len < 3 then none
  else
    let n := len - 2
    let b := k.load env (addr + 2) n
    if b.head? = some 0 then
      if n > 107 then none
      else if n - 1 = 0 then none
      else some (0x40 :: (b.drop 1).takeWhile (· ≠ 0))
    else
      let m := b.takeWhile (· ≠ 0)
      if m.length + 1 > 108 then none else some m

def listenerAt (socks : Nat → UnixSocket) (key : List Byte) : Option Nat :=
  (List.range socketCount).find? fun i =>
    (socks i).used && (socks i).listener && decide ((socks i).path = key)

def doBind : Ret × System σ :=
  match k.socketOf self f.rdi with
  | none => (.value enotsock, k)
  | some si =>
    if f.rdx < 3 ∨ k.userRange env f.rsi f.rdx.toNat false = false then (.value efault, k)
    else
      match unixKeyFromAddr env f.rsi f.rdx.toNat k with
      | none => (.value einval, k)
      | some key =>
        if (listenerAt k.socks key).isSome then (.value eaddrinuse, k)
        else (.value 0, { k with socks := setSock k.socks si { sockAt k.socks si with path := key } })

def doListen : Ret × System σ :=
  match k.socketOf self f.rdi with
  | none => (.value enotsock, k)
  | some si =>
    (.value 0, { k with socks := setSock k.socks si { sockAt k.socks si with listener := true } })

def connectTo (si li : Int) (socks : Nat → UnixSocket) : Bool × (Nat → UnixSocket) :=
  let r := socketObjAlloc socks
  let peer := r.1
  let socks := r.2
  if peer < 0 ∨ (sockAt socks li).pending.length ≥ pendingMax then (false, socks)
  else
    let socks := setSock socks si { sockAt socks si with peer := peer, connected := true }
    let socks := setSock socks peer { sockAt socks peer with peer := si, connected := true }
    (true, setSock socks li { sockAt socks li with pending := (sockAt socks li).pending ++ [peer] })

def doConnect : Ret × System σ :=
  match k.socketOf self f.rdi with
  | none => (.value enotsock, k)
  | some si =>
    if k.userRange env f.rsi f.rdx.toNat false = false ∨ f.rdx < 3 then (.value efault, k)
    else
      match unixKeyFromAddr env f.rsi f.rdx.toNat k with
      | none => (.value einval, k)
      | some key =>
        match listenerAt k.socks key with
        | none => (.value enoent, k)
        | some li =>
          let r := connectTo si li k.socks
          (.value (if r.1 then 0 else enomem), { k with socks := r.2 })

def doAccept : Ret × System σ :=
  match k.socketOf self f.rdi with
  | none => (.value enotsock, k)
  | some li =>
    if !(sockAt k.socks li).listener then (.value enotsock, k)
    else
      match (sockAt k.socks li).pending with
      | [] => (.value eagain, k)
      | si :: rest =>
        let k := { k with socks := setSock k.socks li { sockAt k.socks li with pending := rest } }
        match allocFd self 0 k with
        | (none, k) => (.value enomem, k)
        | (some fd, k) =>
          (.value (ofNat 64 fd), k.setFd (k.tasks.fdOwner self) fd (socketFd si (low16 f.r10)))

def allocPair (socks : Nat → UnixSocket) : Option (Int × Int) × (Nat → UnixSocket) :=
  let a := socketObjAlloc socks
  let b := socketObjAlloc a.2
  if a.1 < 0 ∨ b.1 < 0 then
    let socks := if a.1 ≥ 0 then socketFree a.1 b.2 else b.2
    (none, if b.1 ≥ 0 then socketFree b.1 socks else socks)
  else
    let socks := setSock b.2 a.1 { sockAt b.2 a.1 with peer := b.1 }
    (some (a.1, b.1), setSock socks b.1 { sockAt socks b.1 with peer := a.1 })

def placePair (self : Nat) (a b : Int) (fda fdb : Nat) (flags : BitVec 32) (dst : Word)
    (k : System σ) : System σ :=
  let k := k.setFd (k.tasks.fdOwner self) fda (socketFd a flags)
  let k := k.setFd (k.tasks.fdOwner self) fdb (socketFd b flags)
  k.store env dst (bytesOf 4 (ofNat 64 fda) ++ bytesOf 4 (ofNat 64 fdb))

def doSocketpair : Ret × System σ :=
  if f.rdi.setWidth 32 ≠ afUnix ∨ low16 f.rsi ≠ sockStream ∨ k.userRange env f.r9 8 true = false then
    (.value enosys, k)
  else
    match allocPair k.socks with
    | (none, socks) => (.value enomem, { k with socks := socks })
    | (some (a, b), socks) =>
      let socks := setSock socks a { sockAt socks a with connected := true }
      let socks := setSock socks b { sockAt socks b with connected := true }
      let ra := allocFd self 0 { k with socks := socks }
      let rb := allocFd self 0 ra.2
      match ra.1, rb.1 with
      | some fda, some fdb => (.value 0, placePair env self a b fda fdb 0 f.r9 rb.2)
      | _, _ => (.value enomem, rb.2)

def doPipe2 : Ret × System σ :=
  if !k.userRange env f.rdi 8 true then (.value efault, k)
  else
    match allocPair k.socks with
    | (none, socks) => (.value enomem, { k with socks := socks })
    | (some (sa, sb), socks) =>
      let ra := allocFd self 0 { k with socks := socks }
      let rb := allocFd self 0 ra.2
      match ra.1, rb.1 with
      | some a, some b =>
        let pf := (if f.rsi &&& oCloexec ≠ 0 then fdCloexec else 0) |||
          (if f.rsi &&& oNonblock ≠ 0 then fdNonblock else 0)
        (.value 0, placePair env self sa sb a b pf f.rdi rb.2)
      | some a, none =>
        let k := rb.2.setFd (k.tasks.fdOwner self) a {}
        (.value emfile, { k with socks := socketFree sb (socketFree sa k.socks) })
      | none, _ =>
        (.value emfile, { rb.2 with socks := socketFree sb (socketFree sa rb.2.socks) })

def doSendto : Ret × System σ :=
  match k.socketOf self f.rdi with
  | none => (.value enotsock, k)
  | some si =>
    if !k.userRange env f.rsi f.rdx.toNat false then (.value efault, k)
    else
      let r := k.writeAll si (k.load env f.rsi f.rdx.toNat)
      (.value (if r.1 then f.rdx else eagain), r.2)

def doRecvfrom : Ret × System σ :=
  match k.socketOf self f.rdi with
  | none => (.value enotsock, k)
  | some si =>
    if !k.userRange env f.rsi f.rdx.toNat true then (.value efault, k)
    else if socketDry (sockAt k.socks si) = true ∧ f.rdx ≠ 0 then (.value eagain, k)
    else
      let r := k.readInto env si f.rsi f.rdx.toNat
      (.value (ofNat 64 r.1), r.2)

def System.loadWord (k : System σ) (addr : Word) : Word :=
  ofNat 64 (fromBytes (k.load env addr 8))

def iovlen (msg : Word) (k : System σ) : Nat := (k.loadWord env (msg + 24)).toNat

def iovec (msg : Word) (i : Nat) (k : System σ) : Word × Nat :=
  let iov := k.loadWord env (msg + 16) + ofNat 64 (16 * i)
  (k.loadWord env iov, (k.loadWord env (iov + 8)).toNat)

def iovMax : Nat := 64

def sendBuffers (si : Int) (msg : Word) : Nat → Nat → Nat → System σ → Ret × System σ
  | 0, _, total, k => (.value (ofNat 64 total), k)
  | fuel + 1, i, total, k =>
    if i ≥ iovlen env msg k then (.value (ofNat 64 total), k)
    else
      let b := iovec env msg i k
      if !k.userRange env b.1 b.2 false then (.value efault, k)
      else
        let r := k.writeAll si (k.load env b.1 b.2)
        if r.1 then sendBuffers si msg fuel (i + 1) (total + b.2) r.2 else (.value eagain, r.2)

def doSendmsg : Ret × System σ :=
  match k.socketOf self f.rdi with
  | none => (.value enotsock, k)
  | some si =>
    if !k.userRange env f.rsi 56 false then (.value enotsock, k)
    else sendBuffers env si f.rsi iovMax 0 0 k

def recvBuffers (si : Int) (msg : Word) : Nat → Nat → Nat → System σ → Ret × System σ
  | 0, _, total, k => (.value (ofNat 64 total), k)
  | fuel + 1, i, total, k =>
    if i ≥ iovlen env msg k then (.value (ofNat 64 total), k)
    else
      let b := iovec env msg i k
      if !k.userRange env b.1 b.2 true then (.value efault, k)
      else
        let r := k.readInto env si b.1 b.2
        -- the length is read again after the bytes are stored
        if r.1 < (iovec env msg i r.2).2 then (.value (ofNat 64 (total + r.1)), r.2)
        else recvBuffers si msg fuel (i + 1) (total + r.1) r.2

def doRecvmsg : Ret × System σ :=
  match k.socketOf self f.rdi with
  | none => (.value enotsock, k)
  | some si =>
    if !k.userRange env f.rsi 56 true then (.value enotsock, k)
    else
      let k := (k.store env (f.rsi + 40) (bytesOf 8 0)).store env (f.rsi + 48) (bytesOf 4 0)
      if socketDry (sockAt k.socks si) = true ∧ iovlen env f.rsi k > 0 then (.value eagain, k)
      else recvBuffers env si f.rsi iovMax 0 0 k

def setProc (self : Nat) (g : Process → Process) (rax : Word) (k : System σ) : Ret × System σ :=
  (.value rax, k.modify self g)

def Process.withIds (uid euid gid egid : BitVec 32) (p : Process) : Process :=
  { p with uid := uid, euid := euid, gid := gid, egid := egid }

def doSetuid : Ret × System σ :=
  let p := k.tasks.procs self
  let v := f.rdi.setWidth 32
  if p.euid = 0 then setProc self (Process.withIds v v p.gid p.egid) 0 k
  else if v = p.uid then setProc self (Process.withIds p.uid v p.gid p.egid) 0 k
  else (.value eperm, k)

def doSeteuid : Ret × System σ :=
  let p := k.tasks.procs self
  let v := f.rdi.setWidth 32
  if p.euid = 0 ∨ v = p.uid ∨ v = p.euid then
    setProc self (Process.withIds p.uid v p.gid p.egid) 0 k
  else (.value eperm, k)

def doSetgid : Ret × System σ :=
  let p := k.tasks.procs self
  let v := f.rdi.setWidth 32
  if p.euid = 0 then setProc self (Process.withIds p.uid p.euid v v) 0 k
  else if v = p.gid then setProc self (Process.withIds p.uid p.euid p.gid v) 0 k
  else (.value eperm, k)

def doSetegid : Ret × System σ :=
  let p := k.tasks.procs self
  let v := f.rdi.setWidth 32
  if p.euid = 0 ∨ v = p.gid ∨ v = p.egid then
    setProc self (Process.withIds p.uid p.euid p.gid v) 0 k
  else (.value eperm, k)

def doSetTidAddress : Ret × System σ :=
  if !k.userRange env f.rdi 4 true then (.value efault, k)
  else setProc self (fun p => { p with clearTid := f.rdi }) (k.tasks.procs self).tid k

def doArchPrctl : Ret × System σ :=
  if f.rdi = archSetFs then
    if f.rsi > 0x00007ffffffff000 then (.value einval, k)
    else
      let k := k.modify self fun p => { p with fsBase := f.rsi }
      (.value 0, { k with tasks := { k.tasks with fsBase := f.rsi } })
  else if f.rdi = archGetFs then
    if !k.userRange env f.rsi 8 true then (.value efault, k)
    else (.value 0, k.store env f.rsi (bytesOf 8 (k.tasks.procs self).fsBase))
  else (.value einval, k)

def doSetpgid : Ret × System σ :=
  let pid := if f.rdi ≠ 0 then f.rdi else (k.tasks.procs self).pid
  let pgid := if f.rsi ≠ 0 then f.rsi else pid
  match k.tasks.get pid with
  | none => (.value esrch, k)
  | some x => setProc x (fun p => { p with pgid := pgid }) 0 k

def doSetsid (self : Nat) (k : System σ) : Ret × System σ :=
  setProc self (fun p => { p with sid := p.pid, pgid := p.pid }) (k.tasks.procs self).pid k

def doNanosleep (f : SyscallFrame) (k : System σ) : Ret × System σ :=
  if !k.userRange env f.rdi 16 false then (.value efault, k)
  else
    let sec := ofNat 64 (fromBytes (k.load env f.rdi 8))
    let nsec := ofNat 64 (fromBytes (k.load env (f.rdi + 8) 8))
    if sec.toInt < 0 ∨ nsec.toInt < 0 ∨ nsec.toInt ≥ 1000000000 then (.value einval, k)
    else
      let deadline := env.uptimeMs k.mem + sec * 1000 + nsec / 1000000
      k.switching (blockUntilFromSyscall f deadline k.tasks) fun k => (.value 0, k)

def doSchedYield (f : SyscallFrame) (k : System σ) : Ret × System σ :=
  k.switching (yieldFromSyscall { f with rax := 0 } k.tasks) fun k => (.value 0, k)

def freeWaiter (k : System σ) : Option Nat :=
  (List.range futexCount).find? fun j => !(k.futexes j).used

def doFutex : Ret × System σ :=
  let op := f.rsi.setWidth 32 &&& 0x7f
  let val := f.rdx.setWidth 32
  if !k.userRange env f.rdi 4 (decide (op = futexWait)) then (.value efault, k)
  else if op = futexWake then
    (.value 0, wakeFutex f.rdi (if val ≠ 0 then val.toNat else 0xffffffff) k)
  else if op = futexWait then
    if ofNat 32 (fromBytes (k.load env f.rdi 4)) ≠ val then (.value eagain, k)
    else
      match freeWaiter k with
      | none => (.value enomem, k)
      | some j =>
        if f.r10 ≠ 0 then (.value eagain, k)
        else
          let k := k.setWaiter j { used := true, addr := f.rdi, pid := (k.tasks.procs self).tid }
          k.switching (blockFromSyscall f k.tasks) fun k =>
            (.value eagain, k.setWaiter j { k.futexes j with used := false })
  else (.value enosys, k)

def forkChild (parent : Process) (frame : TrapFrame) (vfork : Bool) (pid pml4 : Word) (slot : Nat) :
    Process :=
  { pid := pid
    pml4 := pml4
    fdOwner := some slot
    parentPid := parent.pid
    pgid := parent.pgid
    sid := parent.sid
    tid := pid
    fsBase := parent.fsBase
    brkBase := parent.brkBase
    brkCurrent := parent.brkCurrent
    brkMapped := parent.brkMapped
    mmapNext := parent.mmapNext
    wakeDeadlineMs := 0
    exitCode := 0
    clearTid := 0
    isThread := false
    vforkChild := vfork
    vforkParentPid := parent.pid
    cwd := parent.cwd
    fds := parent.fds
    savedFrame := { frame with rax := 0 }
    frameValid := true
    state := .ready }

def forkLike (self : Nat) (frame : TrapFrame) (vfork : Bool) (k : System σ) :
    Option Nat × System σ :=
  match k.tasks.freeSlot with
  | none => (none, k)
  | some slot =>
    let parent := k.tasks.procs self
    let pid := k.tasks.nextPid
    let k := { k with tasks := { k.tasks with nextPid := pid + 1 } }
    if vfork then
      (some slot, k.modify slot fun _ => forkChild parent frame vfork pid parent.pml4 slot)
    else
      let r := env.cloneForFork k.mem parent.pml4
      let k := { k with mem := r.2 }
      if r.1 = 0 then (none, k.modify slot fun _ => { pid := pid })
      else (some slot, k.modify slot fun _ => forkChild parent frame vfork pid r.1 slot)

def doFork : Ret × System σ :=
  match forkLike env self f.toTrap false k with
  | (none, k) => (.value enomem, k)
  | (some child, k) => (.frame { f with rax := (k.tasks.procs child).pid }, k)

def doVfork : Ret × System σ :=
  match forkLike env self f.toTrap true k with
  | (none, k) => (.value enomem, k)
  | (some child, k) =>
    let f := { f with rax := (k.tasks.procs child).pid }
    let k := k.modify self Process.block
    k.switching (blockFromSyscall f k.tasks) fun k => (.frame f, k)

def unusedPid (t : Tasks) : Nat → Word → Word
  | 0, pid => pid
  | fuel + 1, pid => if (t.get pid).isSome then unusedPid t fuel (pid + 1) else pid

def cloneChild (self : Nat) (p : Process) (f : SyscallFrame) (pid tid sp : Word) : Process :=
  { pid := pid
    tid := tid
    pml4 := p.pml4
    pml4Owned := false
    fdOwner := some (p.fdOwner.getD self)
    parentPid := p.tid
    isThread := true
    fsBase := if f.r8 ≠ 0 then f.r8 else p.fsBase
    brkBase := p.brkBase
    brkCurrent := p.brkCurrent
    brkMapped := p.brkMapped
    mmapNext := p.mmapNext
    savedFrame := { f.toTrap with rax := 0, rdi := f.rdx, rsp := sp }
    state := .ready
    frameValid := true }

def Process.disown (p : Process) : Process := { p with pml4Owned := false }

def cloneStack (f : SyscallFrame) : Word :=
  if f.rsi ≠ 0 ∧ f.rsi &&& 0xf ≠ 0 then f.rsi - 8 else f.rsi

def cloneTid (t : Tasks) : Word := ofNat 64 (t.count + 1000)

def cloneInto (self slot : Nat) (f : SyscallFrame) (t : Tasks) : Tasks :=
  let t := t.modify slot fun _ => {}
  let tid := cloneTid t
  let pid := unusedPid t (slotCount + 1) tid
  let t := t.modify self Process.disown
  t.modify slot fun _ => cloneChild self (t.procs self) f pid tid (cloneStack f)

def doClone : Ret × System σ :=
  if cloneStack f = 0 ∨ k.userRange env (cloneStack f - 8) 8 true = false then (.value efault, k)
  else
    match k.tasks.freeSlot with
    | none => (.value enomem, k)
    | some slot =>
      let t := cloneInto self slot f k.tasks
      (.value (t.procs slot).tid, { k with tasks := t })

def Process.endVfork (p : Process) : Process := { p with vforkChild := false, vforkParentPid := 0 }

def releaseVforkParent (self : Nat) (t : Tasks) : Tasks :=
  if (t.procs self).vforkChild then
    (t.wakePid (t.procs self).vforkParentPid).modify self Process.endVfork
  else t

def dropCloexec (fds : Nat → RuntimeFd) : Nat → RuntimeFd := fun i =>
  if 3 ≤ i ∧ i < maxRuntimeFds ∧ (fds i).used = true ∧ (fds i).flags &&& 1 ≠ 0 then {} else fds i

def Process.closeOnExec (p : Process) : Process := { p with fds := dropCloexec p.fds }

def Process.exec (image : ExecImage) (p : Process) : Process :=
  { p with
    pml4PendingFree :=
      if p.pml4Owned = true ∧ p.pml4 ≠ 0 ∧ p.pml4 ≠ image.pml4 ∧ p.pml4PendingFree = 0 then p.pml4
      else p.pml4PendingFree
    pml4 := image.pml4
    pml4Owned := true
    fsBase := 0
    brkCurrent := p.brkBase
    brkMapped := 0
    mmapNext := 0x0000000100000000 }

def execFrame (image : ExecImage) (f : SyscallFrame) : SyscallFrame :=
  { f with
    rax := 0, rip := image.entry, rsp := image.rsp, cs := 0x1b, ss := 0x23, rflags := 0x202 }

def doExecve : Ret × System σ :=
  match env.execImage k f with
  | (none, m) =>
    let k := { k with mem := m }
    (.value (if env.execFile k f then enoexec else enoent), k)
  | (some image, m) =>
    let t := k.tasks.modify (k.tasks.fdOwner self) Process.closeOnExec
    let t := t.modify self (Process.exec image)
    let t := releaseVforkParent self t
    let t := { t with cr3 := image.pml4 &&& addrMask }
    (.frame (execFrame image f), { k with tasks := t, mem := m })

def Process.handOver (pid : Word) (p : Process) : Process :=
  { p with
    savedFrame := { p.savedFrame with rax := pid }
    waitTargetPid := 0
    waitStatusPtr := 0
    state := .ready }

def waitsFor (p : Process) (pid : Word) : Prop :=
  p.state = .blocked ∧ (p.waitTargetPid = 0 ∨ p.waitTargetPid = pid)

instance (p : Process) (pid : Word) : Decidable (waitsFor p pid) :=
  inferInstanceAs (Decidable (_ ∧ _))

def exitStatus (code : Word) : List Byte := bytesOf 4 (code <<< 8)

def storeStatus (parent : Process) (code : Word) (m : σ) : σ :=
  let root := parent.pml4 &&& addrMask
  if parent.waitStatusPtr ≠ 0 ∧ parent.pml4 ≠ 0 ∧ env.isUserRange m root parent.waitStatusPtr 4 true
    = true then
    env.store m root parent.waitStatusPtr (exitStatus code)
  else m

def notifyParent (self : Nat) (k : System σ) : System σ :=
  let p := k.tasks.procs self
  match k.tasks.get p.parentPid with
  | none => k
  | some i =>
    let parent := k.tasks.procs i
    if waitsFor parent p.pid then
      { k.modify i (Process.handOver p.pid) with mem := storeStatus env parent p.exitCode k.mem }
    else k

def clearTidWord (self : Nat) (k : System σ) : System σ :=
  let a := (k.tasks.procs self).clearTid
  if a ≠ 0 ∧ k.userRange env a 4 true = true then wakeFutex a 1 (k.store env a (bytesOf 4 0)) else k

def Process.exitWith (code : Word) (p : Process) : Process := { p with exitCode := code }

def leave : System σ :=
  let k := releaseProcessFds self k
  let k := { k with tasks := releaseVforkParent self k.tasks }
  let k := k.modify self (Process.exitWith f.rdi)
  let k := clearTidWord env self (notifyParent env self k)
  k.modify self Process.terminate

def kernelFrame (m : σ) (f : SyscallFrame) : SyscallFrame :=
  { f with
    rax := 0, rip := env.userReturn, cs := 0x08, ss := 0x10, rsp := env.savedRsp m,
    rflags := f.rflags ||| 0x200 }

def doExit : Ret × System σ :=
  let k := leave env self f k
  k.switching (onExit f k.tasks) fun k => (.frame (kernelFrame env k.mem f), k)

def pml4UsedElsewhere (t : Tasks) (root : Word) (self : Nat) : Bool :=
  (List.range slotCount).any fun i =>
    decide (i ≠ self) && decide ((t.procs i).state ≠ .empty) &&
      decide ((t.procs i).pml4 &&& addrMask = root &&& addrMask)

def destroyUnused (root : Word) (self : Nat) (k : System σ) : System σ :=
  if pml4UsedElsewhere k.tasks root self then k
  else { k with
    mem := env.destroyUserSpace k.mem root
    destroys := { root := root, self := self, tasks := k.tasks } :: k.destroys }

def isChild (t : Tasks) (self i : Nat) : Bool :=
  decide ((t.procs i).state ≠ .empty) && decide ((t.procs i).parentPid = (t.procs self).tid)

def findTerminated (t : Tasks) (self : Nat) (wanted : Word) : Option Nat :=
  (List.range slotCount).find? fun i =>
    isChild t self i && decide ((t.procs i).state = .terminated) &&
      (decide (wanted = 0) || decide ((t.procs i).pid = wanted))

def handBackOffsets (child parent : Nat → RuntimeFd) : Nat → RuntimeFd := fun fd =>
  if fd < maxRuntimeFds ∧ (child fd).used = true ∧ (parent fd).used = true ∧
      (child fd).kind = .file ∧ (parent fd).kind = .file ∧ (child fd).path = (parent fd).path then
    { parent fd with off := (child fd).off }
  else parent fd

def Process.takeOffsets (child : Nat → RuntimeFd) (p : Process) : Process :=
  { p with fds := handBackOffsets child p.fds }

def Process.freed (p : Process) : Process := { p with pml4Owned := false, pml4 := 0 }

def Process.vacate (p : Process) : Process := { p with state := .empty }

def reap (self x : Nat) (f : SyscallFrame) (k : System σ) : System σ :=
  let childFds := (k.tasks.procs (k.tasks.fdOwner x)).fds
  let k := k.modify (k.tasks.fdOwner self) (Process.takeOffsets childFds)
  let c := k.tasks.procs x
  let k := if c.pml4Owned = true ∧ c.pml4 ≠ 0 ∧ c.pml4 ≠ k.tasks.cr3 &&& addrMask then
      (destroyUnused env c.pml4 x k).modify x Process.freed
    else k
  let k := if f.rdx ≠ 0 ∧ k.userRange env f.rdx 4 true = true then
      k.store env f.rdx (exitStatus c.exitCode)
    else k
  k.modify x Process.vacate

def wantedPid (f : SyscallFrame) : Word := if f.rdi.toInt ≤ 0 then 0 else f.rdi

def scanChildren : Word × System σ :=
  match findTerminated k.tasks self (wantedPid f) with
  | some x => ((k.tasks.procs x).pid, reap env self x f k)
  | none => (echild, k)

def Process.awaitChild (f : SyscallFrame) (p : Process) : Process :=
  { p with waitTargetPid := wantedPid f, waitStatusPtr := f.rdx }

def waitForChild : Ret × System σ :=
  let k := (k.modify self (Process.awaitChild f)).modify self Process.block
  let f := { f with rax := 0 }
  k.switching (blockFromSyscall f k.tasks) fun k => (.frame f, k)

def doWait4 : Ret × System σ :=
  let haveChild := (List.range slotCount).any (isChild k.tasks self)
  let r := scanChildren env self f k
  if r.1 ≠ echild then (.value r.1, r.2)
  else if !haveChild then (.value echild, r.2)
  else if f.r10 &&& wnohang ≠ 0 then (.value 0, r.2)
  else waitForChild self f r.2

def Process.clearPending (p : Process) : Process := { p with pml4PendingFree := 0 }

def freePending (self : Nat) (k : System σ) : System σ :=
  let root := (k.tasks.procs self).pml4PendingFree
  if root = 0 then k
  else (destroyUnused env root self k).modify self Process.clearPending

def handle : Ret × System σ :=
  match decode f.rax with
  | .read => doRead env self f k
  | .write => doWrite env self f k
  | .close => doClose self f k
  | .setuid => doSetuid self f k
  | .setgid => doSetgid self f k
  | .seteuid => doSeteuid self f k
  | .setegid => doSetegid self f k
  | .socket => doSocket self f k
  | .bind => doBind env self f k
  | .listen => doListen self f k
  | .accept | .accept4 => doAccept self f k
  | .connect => doConnect env self f k
  | .sendto => doSendto env self f k
  | .recvfrom => doRecvfrom env self f k
  | .futex => doFutex env self f k
  | .clone => doClone env self f k
  | .wait4 => doWait4 env self f k
  | .exit | .exitGroup => doExit env self f k
  | .schedYield => doSchedYield f k
  | .nanosleep => doNanosleep env f k
  | .execve => doExecve env self f k
  | .setTidAddress => doSetTidAddress env self f k
  | .fcntl => doFcntl self f k
  | .dup => doDup self f k
  | .dup2 => doDup2 self f k
  | .pipe2 => doPipe2 env self f k
  | .archPrctl => doArchPrctl env self f k
  | .socketpair => doSocketpair env self f k
  | .sendmsg => doSendmsg env self f k
  | .recvmsg => doRecvmsg env self f k
  | .setpgid => doSetpgid self f k
  | .setsid => doSetsid self k
  | .fork => doFork env self f k
  | .vfork => doVfork env self f k
  | .dup3 => doDup3 self f k
  | .rest => runRest env self f k

def Ret.apply (f : SyscallFrame) : Ret → SyscallFrame
  | .value rax => { f with rax := rax }
  | .frame g => g

def dispatch (f : SyscallFrame) (k : System σ) : SyscallFrame × System σ :=
  match k.tasks.current with
  | none => (f, k)
  | some self =>
    let r := handle env self f (freePending env self k)
    (r.1.apply f, r.2)

end

end BlockOS.Kernel
