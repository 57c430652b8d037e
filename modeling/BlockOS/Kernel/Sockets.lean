import BlockOS.Lib.Ring
import BlockOS.Lib.Words

/-! The table of unix sockets of `kernel/user_syscall.cpp` and the functions that work on it alone.
-/

namespace BlockOS.Kernel
open Words

structure UnixSocket where
  used : Bool := false
  listener : Bool := false
  connected : Bool := false
  closed : Bool := false
  path : List Byte := []
  peer : Int := 0
  pending : List Int := []
  rx : Ring Byte := { cells := fun _ => 0 }

def socketCount : Nat := 256
def socketBuffer : Nat := 65536
def pendingMax : Nat := 16

def sockAt (socks : Nat → UnixSocket) (idx : Int) : UnixSocket := socks idx.toNat

def setSock (socks : Nat → UnixSocket) (idx : Int) (s : UnixSocket) : Nat → UnixSocket :=
  Function.update socks idx.toNat s

def freeSocket? (socks : Nat → UnixSocket) : Option Nat :=
  (List.range socketCount).find? fun i => !(socks i).used

def socketObjAlloc (socks : Nat → UnixSocket) : Int × (Nat → UnixSocket) :=
  match freeSocket? socks with
  | some i => (i, setSock socks i { used := true, peer := -1 })
  | none => (-1, socks)

def socketFree (idx : Int) (socks : Nat → UnixSocket) : Nat → UnixSocket :=
  if idx < 0 ∨ idx ≥ socketCount then socks
  else
    let pe := (sockAt socks idx).peer
    let socks := if 0 ≤ pe ∧ pe < socketCount ∧ (sockAt socks pe).used = true ∧
      (sockAt socks pe).peer = idx then
        setSock socks pe { sockAt socks pe with peer := -1 }
      else socks
    setSock socks idx {}

def canWrite (socks : Nat → UnixSocket) (idx : Int) : Bool :=
  decide (0 ≤ idx ∧ idx < 256) && (sockAt socks idx).used &&
    decide (0 ≤ (sockAt socks idx).peer) && (sockAt socks (sockAt socks idx).peer).used

def room (s : UnixSocket) : Nat := socketBuffer - s.rx.size

def deliver (socks : Nat → UnixSocket) (j : Int) (src : List Byte) : Nat → UnixSocket :=
  setSock socks j { sockAt socks j with rx := (sockAt socks j).rx.push socketBuffer src }

def socketWriteIdx (idx : Int) (src : List Byte) (socks : Nat → UnixSocket) :
    Bool × (Nat → UnixSocket) :=
  if !canWrite socks idx then (false, socks)
  else
    let pe := (sockAt socks idx).peer
    if src.length > room (sockAt socks pe) then (false, socks) else (true, deliver socks pe src)

def socketWritePartial (idx : Int) (src : List Byte) (socks : Nat → UnixSocket) :
    Nat × (Nat → UnixSocket) :=
  if !canWrite socks idx then (0, socks)
  else
    let pe := (sockAt socks idx).peer
    let src := src.take (room (sockAt socks pe))
    if src.length = 0 then (0, socks) else (src.length, deliver socks pe src)

def socketReadIdx (idx : Int) (n : Nat) (socks : Nat → UnixSocket) :
    List Byte × (Nat → UnixSocket) :=
  if !(decide (0 ≤ idx ∧ idx < 256) && (sockAt socks idx).used) then ([], socks)
  else
    let s := sockAt socks idx
    let k := min n s.rx.size
    (s.rx.front socketBuffer k, setSock socks idx { s with rx := s.rx.drop socketBuffer k })

def socketDry (s : UnixSocket) : Bool := decide (s.rx.size = 0) && !s.closed && decide (0 ≤ s.peer)

end BlockOS.Kernel
