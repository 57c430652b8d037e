import BlockOS.Lib.Words

/-! The process table of `kernel/process.cpp` and the frames of `kernel/preempt.hpp`. -/

namespace BlockOS.Kernel
open Words Function

structure TrapFrame where
  rax : Word := 0
  rbx : Word := 0
  rcx : Word := 0
  rdx : Word := 0
  rsi : Word := 0
  rdi : Word := 0
  rbp : Word := 0
  r8 : Word := 0
  r9 : Word := 0
  r10 : Word := 0
  r11 : Word := 0
  r12 : Word := 0
  r13 : Word := 0
  r14 : Word := 0
  r15 : Word := 0
  rip : Word := 0
  cs : Word := 0
  rflags : Word := 0
  rsp : Word := 0
  ss : Word := 0
  deriving DecidableEq

structure InterruptFrame where
  rax : Word
  rbx : Word
  rcx : Word
  rdx : Word
  rsi : Word
  rdi : Word
  rbp : Word
  r8 : Word
  r9 : Word
  r10 : Word
  r11 : Word
  r12 : Word
  r13 : Word
  r14 : Word
  r15 : Word
  vector : Word
  errorCode : Word
  rip : Word
  cs : Word
  rflags : Word
  rsp : Word
  ss : Word
  deriving DecidableEq

structure SyscallFrame where
  rax : Word := 0
  rbx : Word := 0
  rcx : Word := 0
  rdx : Word := 0
  rsi : Word := 0
  rdi : Word := 0
  rbp : Word := 0
  r8 : Word := 0
  r9 : Word := 0
  r10 : Word := 0
  r11 : Word := 0
  r12 : Word := 0
  r13 : Word := 0
  r14 : Word := 0
  r15 : Word := 0
  rip : Word := 0
  cs : Word := 0
  rflags : Word := 0
  rsp : Word := 0
  ss : Word := 0
  deriving DecidableEq

def InterruptFrame.toTrap (s : InterruptFrame) : TrapFrame :=
  { rax := s.rax, rbx := s.rbx, rcx := s.rcx, rdx := s.rdx, rsi := s.rsi, rdi := s.rdi,
    rbp := s.rbp, r8 := s.r8, r9 := s.r9, r10 := s.r10, r11 := s.r11, r12 := s.r12, r13 := s.r13,
    r14 := s.r14, r15 := s.r15, rip := s.rip, cs := s.cs, rflags := s.rflags, rsp := s.rsp,
    ss := s.ss }

def InterruptFrame.fromTrap (d : InterruptFrame) (s : TrapFrame) : InterruptFrame :=
  { d with
    rax := s.rax, rbx := s.rbx, rcx := s.rcx, rdx := s.rdx, rsi := s.rsi, rdi := s.rdi,
    rbp := s.rbp, r8 := s.r8, r9 := s.r9, r10 := s.r10, r11 := s.r11, r12 := s.r12, r13 := s.r13,
    r14 := s.r14, r15 := s.r15, rip := s.rip, cs := s.cs, rflags := s.rflags, rsp := s.rsp,
    ss := s.ss }

def SyscallFrame.toTrap : SyscallFrame → TrapFrame
  | ⟨a0, a1, a2, a3, a4, a5, a6, a7, a8, a9, b0, b1, b2, b3, b4, b5, b6, b7, b8, b9⟩ =>
    ⟨a0, a1, a2, a3, a4, a5, a6, a7, a8, a9, b0, b1, b2, b3, b4, b5, b6, b7, b8, b9⟩

def SyscallFrame.fromTrap : TrapFrame → SyscallFrame
  | ⟨a0, a1, a2, a3, a4, a5, a6, a7, a8, a9, b0, b1, b2, b3, b4, b5, b6, b7, b8, b9⟩ =>
    ⟨a0, a1, a2, a3, a4, a5, a6, a7, a8, a9, b0, b1, b2, b3, b4, b5, b6, b7, b8, b9⟩

inductive ProcState where
  | empty | ready | running | blocked | terminated
  deriving DecidableEq, Repr

inductive FdKind where
  | none | tty | file | directory | device | unixSocket | null | random
  deriving DecidableEq, Repr

structure RuntimeFd where
  used : Bool := false
  kind : FdKind := .none
  flags : BitVec 32 := 0
  object : BitVec 32 := 0
  data : Word := 0
  size : Word := 0
  off : Word := 0
  path : List Byte := []
  deriving DecidableEq

def maxRuntimeFds : Nat := 128

structure Process where
  pid : Word := 0
  pml4 : Word := 0
  brkBase : Word := 0
  brkCurrent : Word := 0
  brkMapped : Word := 0
  mmapNext : Word := 0
  state : ProcState := .empty
  fdOwner : Option Nat := none
  parentPid : Word := 0
  pml4Owned : Bool := false
  pml4PendingFree : Word := 0
  pgid : Word := 0
  sid : Word := 0
  uid : BitVec 32 := 0
  euid : BitVec 32 := 0
  gid : BitVec 32 := 0
  egid : BitVec 32 := 0
  waitSockPlus1 : BitVec 32 := 0
  tid : Word := 0
  fsBase : Word := 0
  wakeDeadlineMs : Word := 0
  exitCode : Word := 0
  clearTid : Word := 0
  isThread : Bool := false
  vforkChild : Bool := false
  vforkParentPid : Word := 0
  waitTargetPid : Word := 0
  waitStatusPtr : Word := 0
  cwd : List Byte := []
  fds : Nat → RuntimeFd := fun _ => {}
  savedFrame : TrapFrame := {}
  frameValid : Bool := false

def slotCount : Nat := 128

structure Tasks where
  procs : Nat → Process
  current : Option Nat
  nextPid : Word
  rrCursor : Nat
  cr3 : Word
  fsBase : Word

def Tasks.modify (t : Tasks) (i : Nat) (f : Process → Process) : Tasks :=
  { t with procs := update t.procs i (f (t.procs i)) }

namespace Tasks

variable (t : Tasks) (i j : Nat) (f : Process → Process)

@[simp] theorem modify_same : (t.modify i f).procs i = f (t.procs i) := update_self ..

@[simp] theorem modify_other {i j : Nat} (h : j ≠ i) : (t.modify i f).procs j = t.procs j :=
  update_of_ne h ..

@[simp] theorem modify_current : (t.modify i f).current = t.current := rfl

theorem modify_procs : (t.modify i f).procs j = if j = i then f (t.procs i) else t.procs j :=
  update_apply ..

end Tasks

end BlockOS.Kernel
