import Mathlib.Tactic

/-! Runs of a deterministic system as lists of actions. -/

namespace BlockOS.Runs

variable {σ α : Type*} {step : σ → α → σ} {P : σ → α → Prop} {I : σ → Prop}

def runFrom (step : σ → α → σ) (s : σ) (as : List α) : σ := as.foldl step s

def Along (step : σ → α → σ) (P : σ → α → Prop) : σ → List α → Prop
  | _, [] => True
  | s, a :: as => P s a ∧ Along step P (step s a) as

instance Along.decidable [∀ s a, Decidable (P s a)] : ∀ (s : σ) (as : List α),
    Decidable (Along step P s as)
  | _, [] => .isTrue trivial
  | s, a :: as => @instDecidableAnd _ _ _ (Along.decidable (step s a) as)

theorem Along.of_forall (h : ∀ s a, P s a) (s : σ) (as : List α) : Along step P s as := by
  induction as generalizing s with
  | nil => trivial
  | cons a as ih => exact ⟨h s a, ih (step s a)⟩

variable {Q : σ → α → Prop}

theorem Along.and_iff : Along step (fun s a => P s a ∧ Q s a) s as ↔ Along step P s as ∧
    Along step Q s as := by
  induction as generalizing s with
  | nil => exact (and_self_iff).symm
  | cons a as ih =>
    simp only [Along, ih]
    exact and_and_and_comm

theorem Along.append_iff : Along step P s (as ++ bs) ↔ Along step P s as ∧
    Along step P (runFrom step s as) bs := by
  induction as generalizing s with
  | nil => simp [Along, runFrom]
  | cons a as ih => exact (and_congr_right fun _ => ih).trans and_assoc.symm

theorem Along.invariant (hstep : ∀ s a, I s → P s a → I (step s a))
    (hs : I s) (hp : Along step P s as) : I (runFrom step s as) := by
  induction as generalizing s with
  | nil => exact hs
  | cons a as ih => exact ih (hstep s a hs hp.1) hp.2

theorem Along.of_invariant (hstep : ∀ s a, I s → I (step s a)) (hp : ∀ s a, I s → P s a)
    (as : List α) (hs : I s) : Along step P s as := by
  induction as generalizing s with
  | nil => trivial
  | cons a as ih => exact ⟨hp s a hs, ih (hstep s a hs)⟩

theorem Along.imp (hstep : ∀ s a, I s → P s a → I (step s a))
    (hq : ∀ s a, I s → P s a → Q s a) (hs : I s) (hp : Along step P s as) :
    Along step Q s as := by
  induction as generalizing s with
  | nil => trivial
  | cons a as ih => exact ⟨hq s a hs hp.1, ih (hstep s a hs hp.1) hp.2⟩

theorem Along.congr (hiff : ∀ s a, I s → (P s a ↔ Q s a))
    (hstep : ∀ s a, I s → P s a → I (step s a)) (as : List α) (hs : I s) :
    Along step P s as ↔ Along step Q s as := by
  induction as generalizing s with
  | nil => exact Iff.rfl
  | cons a as ih =>
    have hpq := hiff s a hs
    exact ⟨fun h => ⟨hpq.mp h.1, (ih (hstep s a hs h.1)).mp h.2⟩,
      fun h => ⟨hpq.mpr h.1, (ih (hstep s a hs (hpq.mpr h.1))).mpr h.2⟩⟩

end BlockOS.Runs
