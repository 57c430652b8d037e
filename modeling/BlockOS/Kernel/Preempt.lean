import BlockOS.Kernel.Process

/-! The scheduler of `kernel/preempt.cpp`: the timer, the calls that give up the processor and the
exit of a process. -/

namespace BlockOS.Kernel
open Words

def addrMask : Word := 0x000ffffffffff000

def wakeTimedTasks (now : Word) (t : Tasks) : Tasks :=
  { t with procs := fun i =>
      let p := t.procs i
      if i < slotCount ∧ p.state = .blocked ∧ p.wakeDeadlineMs ≠ 0 ∧ now ≥ p.wakeDeadlineMs then
        { p with state := .ready }
      else p }

def rrOrder (cursor : Nat) : List Nat :=
  (List.range slotCount).map fun i => (cursor + 1 + i) % slotCount

def pickNext (skip : Option Nat) (t : Tasks) : Option Nat :=
  (rrOrder t.rrCursor).find? fun i => decide (some i ≠ skip) && decide ((t.procs i).state = .ready)

def isolationOk (p : Process) : Bool :=
  p.pml4 != 0 && p.frameValid && p.savedFrame.cs == 0x1b && p.savedFrame.ss == 0x23 &&
    p.savedFrame.rip != 0 && p.savedFrame.rsp != 0 && p.savedFrame.rsp < 0x0000800000000000 &&
    p.savedFrame.rip < 0x0000800000000000

def Process.run (p : Process) : Process := { p with state := .running }

def Tasks.enter (t : Tasks) (i : Nat) : Tasks :=
  { t.modify i Process.run with
    current := some i
    cr3 := (t.procs i).pml4 &&& addrMask
    fsBase := (t.procs i).fsBase }

@[simp] theorem Tasks.enter_same (t : Tasks) (i : Nat) : (t.enter i).procs i = (t.procs i).run :=
  t.modify_same i _

@[simp] theorem Tasks.enter_other (t : Tasks) (h : j ≠ i) : (t.enter i).procs j = t.procs j :=
    t.modify_other _ h

def Process.terminate (p : Process) : Process := { p with state := .terminated }

def Process.block (p : Process) : Process := { p with state := .blocked }

def Process.wakeEarly (p : Process) : Process := { p with state := .ready, wakeDeadlineMs := 0 }

def Process.save (p : Process) (frame : TrapFrame) : Process :=
  { p with savedFrame := frame, frameValid := true }

def saveOutgoing (prev : Option Nat) (state : TrapFrame) (t : Tasks) : Tasks :=
  match prev with
  | none => t
  | some i =>
    if (t.procs i).state = .running then t.modify i fun p => { p.save state with state := .ready }
    else t

def switchTo (prev : Option Nat) (prevState : TrapFrame) (next : Nat) (t : Tasks) :
    Option TrapFrame × Tasks :=
  if !isolationOk (t.procs next) then
    (none, t.modify next fun p => { p.terminate with frameValid := false })
  else
    let t := saveOutgoing prev prevState t
    let t := t.modify next fun p => { p with wakeDeadlineMs := 0 }
    (some (t.procs next).savedFrame, t.enter next)

def switchAway (state : TrapFrame) (t : Tasks) : Option TrapFrame × Tasks :=
  match pickNext t.current t with
  | none => (none, t)
  | some next =>
    let t := { t with rrCursor := next }
    if !isolationOk (t.procs next) then (none, t.modify next Process.terminate)
    else
      let r := switchTo t.current state next t
      if (r.2.procs next).state ≠ .running then (none, r.2) else r

def onTimer (now : Word) (f : InterruptFrame) (t : Tasks) : Bool × InterruptFrame × Tasks :=
  let t := wakeTimedTasks now t
  if f.cs &&& 3 ≠ 3 then (false, f, t)
  else
    let r := switchAway f.toTrap t
    match r.1 with
    | none => (false, f, r.2)
    | some out => (true, f.fromTrap out, r.2)

def yieldFromSyscall (f : SyscallFrame) (t : Tasks) : Bool × SyscallFrame × Tasks :=
  let r := switchAway f.toTrap t
  match r.1 with
  | none => (false, f, r.2)
  | some out => (true, .fromTrap out, r.2)

def blockWith (leave arrive : Process → Process) (f : SyscallFrame) (t : Tasks) :
    Bool × SyscallFrame × Tasks :=
  match t.current with
  | none => (false, f, t)
  | some cur =>
    match pickNext t.current t with
    | none => (false, f, t)
    | some next =>
      let t := { t with rrCursor := next }
      if !isolationOk (t.procs next) then (false, f, t.modify next Process.terminate)
      else
        let t := t.modify cur fun p => (leave (p.save f.toTrap)).block
        let t := t.modify next arrive
        (true, .fromTrap (t.procs next).savedFrame, t.enter next)

def blockFromSyscall (f : SyscallFrame) (t : Tasks) : Bool × SyscallFrame × Tasks :=
  blockWith id id f t

def blockUntilFromSyscall (f : SyscallFrame) (deadline : Word) (t : Tasks) :
    Bool × SyscallFrame × Tasks :=
  blockWith (fun p => { p with wakeDeadlineMs := deadline })
    (fun p => { p with wakeDeadlineMs := 0 }) f t

def earlierSleeper (cur : Option Nat) (t : Tasks) (best : Option Nat) (i : Nat) : Option Nat :=
  let p := t.procs i
  if some i = cur ∨ p.state ≠ .blocked ∨ p.wakeDeadlineMs = 0 then best
  else
    match best with
    | none => some i
    | some b => if p.wakeDeadlineMs < (t.procs b).wakeDeadlineMs then some i else best

def earliestSleeper (cur : Option Nat) (t : Tasks) : Option Nat :=
  (List.range slotCount).foldl (earlierSleeper cur t) none

def nextAfterExit (cur : Option Nat) (t : Tasks) : Option Nat × Tasks :=
  match pickNext cur t with
  | some next => (some next, { t with rrCursor := next })
  | none =>
    match earliestSleeper cur t with
    | some i => (some i, t.modify i Process.wakeEarly)
    | none => (none, t)

def endCurrent (t : Tasks) : Tasks :=
  match t.current with
  | some i => t.modify i fun p => { p.terminate with frameValid := false }
  | none => t

def onExit (f : SyscallFrame) (t : Tasks) : Bool × SyscallFrame × Tasks :=
  let r := nextAfterExit t.current (endCurrent t)
  match r.1 with
  | none => (false, f, { r.2 with current := none })
  | some next =>
    if !isolationOk (r.2.procs next) then
      (false, f, { r.2.modify next Process.terminate with current := none })
    else (true, .fromTrap (r.2.procs next).savedFrame, r.2.enter next)

end BlockOS.Kernel
