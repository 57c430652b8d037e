import BlockOS.Kernel.Syscall

/-! The kernel as a machine that takes one step after another. -/

namespace BlockOS.Kernel
open Words

inductive SpawnResult where
  | early
  | late (pml4 : Word)
  | loaded (image : ExecImage)

def stdFds : Nat → RuntimeFd := fun fd => if fd < 3 then { used := true, kind := .tty } else {}

def spawnProcess (slot : Nat) (pid pml4 : Word) : Process :=
  { pid := pid
    pml4 := pml4
    fdOwner := some slot
    pgid := pid
    sid := pid
    tid := pid
    cwd := [0x2f]
    brkBase := 0x0000000200000000
    brkCurrent := 0x0000000200000000
    mmapNext := 0x0000000100000000
    fds := stdFds }

def spawnFrame (image : ExecImage) : TrapFrame :=
  { rip := image.entry, rsp := image.rsp, cs := 0x1b, ss := 0x23, rflags := 0x202 }

def spawn (r : SpawnResult) (t : Tasks) : Tasks :=
  match t.freeSlot with
  | none => t
  | some slot =>
    let pid := t.nextPid
    match r with
    | .early => t
    | .late pml4 => { t.modify slot fun _ => spawnProcess slot pid pml4 with nextPid := pid + 1 }
    | .loaded image =>
      { t.modify slot fun _ =>
          { spawnProcess slot pid image.pml4 with
            savedFrame := spawnFrame image, frameValid := true, state := .ready } with
        nextPid := pid + 1 }

def start (i : Nat) (t : Tasks) : Tasks :=
  if t.current = none ∧ i < slotCount ∧ (t.procs i).state = .ready then t.enter i else t

inductive KernelOp (σ : Type) where
  | call (f : SyscallFrame)
  | timer (f : InterruptFrame)
  | spawn (r : SpawnResult)
  | start (i : Nat)
  | machine (m : σ)

variable {σ : Type} (env : Env σ)

def kernelStep (k : System σ) : KernelOp σ → System σ
  | .call f => (dispatch env f k).2
  | .timer f => { k with tasks := (onTimer (env.uptimeMs k.mem) f k.tasks).2.2 }
  | .spawn r => { k with tasks := spawn r k.tasks }
  | .start i => { k with tasks := start i k.tasks }
  | .machine m => { k with mem := m }

theorem kernelStep_call_none (hc : k.tasks.current = none) (f : SyscallFrame) :
    kernelStep env k (.call f) = k := by
  simp only [kernelStep, dispatch, hc]

theorem kernelStep_call (hc : k.tasks.current = some self) (f : SyscallFrame) :
    kernelStep env k (.call f) = (handle env self f (freePending env self k)).2 := by
  simp only [kernelStep, dispatch, hc]

def bootTasks : Tasks :=
  { procs := fun i => { fdOwner := some i }
    current := none
    nextPid := 1
    rrCursor := 0
    cr3 := 0
    fsBase := 0 }

def bootSystem (m : σ) : System σ :=
  { tasks := bootTasks, socks := fun _ => {}, futexes := fun _ => {}, mem := m }

end BlockOS.Kernel
