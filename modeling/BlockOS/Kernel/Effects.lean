import BlockOS.Kernel.Context
import BlockOS.Kernel.Rules

/-! What the system calls can do to the process table, said once. -/

namespace BlockOS.Kernel
open Words

structure Tame (marks : BitVec 32 → Prop) (p p' : Process) : Prop where
  core : p'.core = p.core
  waiting : p'.waiting = p.waiting
  state : (p'.state = p.state ∧ p'.waitSockPlus1 = p.waitSockPlus1) ∨
    (marks p.waitSockPlus1 ∧ p.state = .blocked ∧ p'.state = .ready)

variable {marks marks' : BitVec 32 → Prop}

theorem Tame.refl (p : Process) : Tame marks p p := ⟨rfl, rfl, .inl ⟨rfl, rfl⟩⟩

theorem Tame.trans (h : Tame marks p p') (h' : Tame marks p' p'') : Tame marks p p'' := by
  refine ⟨h'.core.trans h.core, h'.waiting.trans h.waiting, ?_⟩
  rcases h.state with ⟨hs, hw⟩ | ⟨hm, hb, hr⟩
  · rcases h'.state with ⟨hs', hw'⟩ | ⟨hm', hb', hr'⟩
    · exact .inl ⟨hs'.trans hs, hw'.trans hw⟩
    · exact .inr ⟨hw ▸ hm', hs ▸ hb', hr'⟩
  rcases h'.state with ⟨hs', _⟩ | ⟨_, hb', _⟩
  · exact .inr ⟨hm, hb, hs'.trans hr⟩
  · rw [hr] at hb'
    cases hb'

theorem Tame.mono (h : Tame marks p p') (hm : ∀ m, marks m → marks' m) : Tame marks' p p' :=
  ⟨h.core, h.waiting, h.state.imp_right fun h0 => ⟨hm _ h0.1, h0.2⟩⟩

structure Tamed (marks : BitVec 32 → Prop) (t t' : Tasks) : Prop where
  procs : ∀ i, Tame marks (t.procs i) (t'.procs i)
  current : t'.current = t.current
  cr3 : t'.cr3 = t.cr3
  nextPid : t'.nextPid = t.nextPid
  rrCursor : t'.rrCursor = t.rrCursor

theorem Tamed.refl (t : Tasks) : Tamed marks t t := ⟨fun _ => .refl _, rfl, rfl, rfl, rfl⟩

theorem Tamed.trans (h : Tamed marks t t') (h' : Tamed marks t' t'') : Tamed marks t t'' :=
  ⟨fun i => (h.procs i).trans (h'.procs i), h'.current.trans h.current, h'.cr3.trans h.cr3,
    h'.nextPid.trans h.nextPid, h'.rrCursor.trans h.rrCursor⟩

theorem Tamed.mono (h : Tamed marks t t') (hm : ∀ m, marks m → marks' m) : Tamed marks' t t' :=
  ⟨fun i => (h.procs i).mono hm, h.current, h.cr3, h.nextPid, h.rrCursor⟩

theorem Tamed.modify (t : Tasks) (i : Nat)
    (h : Tame marks (t.procs i) (g (t.procs i))) : Tamed marks t (t.modify i g) := by
  refine ⟨fun j => ?_, rfl, rfl, rfl, rfl⟩
  by_cases hj : j = i
  · subst hj
    rwa [Tasks.modify_same]
  · rw [Tasks.modify_other t g hj]
    exact .refl _

theorem wakeSocket_tamed (mark : BitVec 32) (t : Tasks) : Tamed (· = mark) t (wakeSocket mark t) := by
  refine ⟨fun i => ?_, rfl, rfl, rfl, rfl⟩
  unfold wakeSocket
  dsimp only
  split
  · unfold Process.awakeFor
    split
    case isTrue h => exact ⟨rfl, rfl, .inr ⟨h.2, h.1, rfl⟩⟩
    case isFalse => exact .refl _
  · exact .refl _

theorem wakeSocketReaders_tamed (idx : Int) (t : Tasks) :
    Tamed (fun m => 0 ≤ idx ∧ m = readMark idx) t (wakeSocketReaders idx t) := by
  unfold wakeSocketReaders
  split
  · exact .refl _
  case isFalse h => exact (wakeSocket_tamed _ t).mono fun m hm => ⟨by omega, hm⟩

theorem wakeSocketWriters_tamed (idx : Int) (t : Tasks) :
    Tamed (fun m => 0 ≤ idx ∧ m = writeMark idx) t (wakeSocketWriters idx t) := by
  unfold wakeSocketWriters
  split
  · exact .refl _
  case isFalse h => exact (wakeSocket_tamed _ t).mono fun m hm => ⟨by omega, hm⟩

section

variable {σ : Type} (env : Env σ) (self : Nat) (f : SyscallFrame) (k : System σ)

theorem Tamed.sockRule : SockRule fun k k' : System σ => Tamed marks k.tasks k'.tasks where
  refl _ := .refl _
  trans h h' := h.trans h'
  mem _ _ := .refl _
  setFd k i fd d :=
    Tamed.modify k.tasks i (g := fun p => { p with fds := Function.update p.fds fd d }) ⟨rfl, rfl,
      .inl ⟨rfl, rfl⟩⟩
  socks _ := .refl _

theorem Tamed.minorRule : MinorRule fun k k' : System σ => Tamed marks k.tasks k'.tasks :=
  { Tamed.sockRule.toRule with
    minor := fun _ _ _ hg => .modify _ _ ⟨(hg _).core, (hg _).waiting, .inl ⟨(hg _).state, (hg _).mark⟩⟩
    files := fun _ _ _ => .modify _ _ ⟨rfl, rfl, .inl ⟨rfl, rfl⟩⟩
    fsBase := fun _ _ => ⟨fun _ => .refl _, rfl, rfl, rfl, rfl⟩ }

theorem Tamed.closeRule : CloseRule fun k k' : System σ => Tamed (fun _ => True) k.tasks k'.tasks :=
  { Tamed.sockRule with wake := fun _ mark => (wakeSocket_tamed mark _).mono fun _ _ => trivial }

theorem doConnect_tasks : (doConnect env self f k).2.tasks = k.tasks := by
  fun_cases doConnect env self f k <;> rfl

end

end BlockOS.Kernel
