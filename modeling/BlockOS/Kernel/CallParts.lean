import BlockOS.Kernel.Boundary

/-! A system call as a sequence of changes of one part of the system at a time. -/

namespace BlockOS.Kernel
open Words Relation

section

variable {σ : Type}

inductive Part (k : System σ) : System σ → Prop where
  | tasks (t : Tasks) : Part k { k with tasks := t }
  | mem (m : σ) : Part k { k with mem := m }
  | futexes (w : Nat → FutexWaiter) : Part k { k with futexes := w }
  | socks {s : Nat → UnixSocket} (h : SockStep k.socks s) : Part k { k with socks := s }

def Parts : System σ → System σ → Prop := ReflTransGen Part

variable (env : Env σ)

theorem Parts.refl (k : System σ) : Parts k k := ReflTransGen.refl

theorem Parts.trans (h : Parts k k') (h' : Parts k' k'') : Parts k k'' :=
  ReflTransGen.trans h h'

theorem Part.parts (h : Part k k') : Parts k k' := .single h

theorem Parts.eq_of {α : Type} {g : System σ → α} (hg : ∀ k k', Part k k' → g k' = g k)
    (h : Parts k k') : g k' = g k := by
  induction h with
  | refl => rfl
  | tail _ hp ih => exact (hg _ _ hp).trans ih

theorem Parts.keeps {P : System σ → Prop} (hP : ∀ k k', Part k k' → P k → P k') (h : Parts k k')
    (hk : P k) : P k' := by
  induction h with
  | refl => exact hk
  | tail _ hp ih => exact hP _ _ hp ih

theorem Parts.rule : FullRule (@Parts σ) where
  refl := .refl
  trans h h' := h.trans h'
  mem _ m := (Part.mem m).parts
  setFd _ _ _ _ := (Part.tasks _).parts
  socks h := (Part.socks h).parts
  tasks _ t := (Part.tasks t).parts
  waiter _ _ _ := (Part.futexes _).parts

theorem handle_parts (hc : decode f.rax ≠ .connect) (hw : decode f.rax ≠ .wait4) :
    Parts k (handle env self f k).2 := handle_rel env Parts.rule.toTaskRule (fun _ => Parts.rule) hc hw

theorem freePending_socks (self : Nat) (k : System σ) : (freePending env self k).socks = k.socks := by
  unfold freePending destroyUnused
  dsimp only
  split
  · rfl
  · split <;> rfl

theorem reap_socks (self x : Nat) (f : SyscallFrame) (k : System σ) :
    (reap env self x f k).socks = k.socks := by
  have hd : ∀ (root : Word) (k : System σ), (destroyUnused env root x k).socks = k.socks := by
    intro root k
    unfold destroyUnused
    split <;> rfl
  unfold reap
  dsimp only
  split <;> split <;> first | rfl | exact hd _ _

theorem doWait4_socks : (doWait4 env self f k).2.socks = k.socks := by
  have hscan : (scanChildren env self f k).2.socks = k.socks := by
    unfold scanChildren
    split
    · exact reap_socks ..
    · rfl
  unfold doWait4
  dsimp only
  split
  · exact hscan
  split
  · exact hscan
  split
  · exact hscan
  unfold waitForChild System.switching
  dsimp only
  split <;> exact hscan

end

end BlockOS.Kernel
