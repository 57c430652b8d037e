import BlockOS.Kernel.Context
import BlockOS.Lib.Rotation

/-! The order in which the scheduler picks processes. -/

namespace BlockOS.Kernel
open Words Rotation

def candidate (skip : Option Nat) (t : Tasks) (i : Nat) : Bool :=
  decide (some i ≠ skip) && decide ((t.procs i).state = .ready)

theorem pickNext_eq (skip : Option Nat) (t : Tasks) :
    pickNext skip t = pick slotCount t.rrCursor (candidate skip t) := rfl

def SchedCall.candidates (t : Tasks) : SchedCall → Option (Nat → Bool)
  | .timer now f => if f.cs &&& 3 ≠ 3 then none else some (candidate t.current (wakeTimedTasks now t))
  | .yield _ => some (candidate t.current t)
  | .block _ | .blockUntil _ _ => t.current.map fun i => candidate (some i) t
  | .exit _ => some (candidate t.current (endCurrent t))
  | .wake _ => none

def SchedCall.picked (t : Tasks) (a : SchedCall) : Option Nat :=
  (a.candidates t).bind (pick slotCount t.rrCursor)

theorem switchAway_rrCursor (f : TrapFrame) (t : Tasks) :
    (switchAway f t).2.rrCursor = (pickNext t.current t).getD t.rrCursor := by
  unfold switchAway
  split
  case h_1 h => rw [h]; rfl
  case h_2 next h =>
    rw [h]
    dsimp only
    have hsave : (saveOutgoing t.current f { t with rrCursor := next }).rrCursor = next := by
      unfold saveOutgoing
      split
      · rfl
      · split <;> rfl
    split
    · rfl
    case isFalse hok =>
      rw [switchTo, if_neg hok]
      dsimp only
      split
      · exact hsave
      · exact hsave

theorem blockWith_rrCursor (f : SyscallFrame) (t : Tasks) :
    (blockWith leave arrive f t).2.2.rrCursor =
      (t.current.bind fun i => pickNext (some i) t).getD t.rrCursor := by
  unfold blockWith
  split
  case h_1 h => rw [h]; rfl
  case h_2 cur h =>
    rw [h, Option.bind_some]
    split
    case h_1 h0 => rw [h0]; rfl
    case h_2 next h0 =>
      rw [h0]
      dsimp only
      split <;> rfl

theorem endCurrent_rrCursor (t : Tasks) : (endCurrent t).rrCursor = t.rrCursor := by
  unfold endCurrent
  split <;> rfl

theorem onExit_rrCursor (f : SyscallFrame) (t : Tasks) :
    (onExit f t).2.2.rrCursor = (pickNext t.current (endCurrent t)).getD t.rrCursor := by
  have hnext : (nextAfterExit t.current (endCurrent t)).2.rrCursor =
      (pickNext t.current (endCurrent t)).getD t.rrCursor := by
    unfold nextAfterExit
    split
    case h_1 h => rw [h]; rfl
    case h_2 h =>
      rw [h]
      split <;> exact endCurrent_rrCursor t
  unfold onExit
  dsimp only
  split
  · exact hnext
  · split <;> exact hnext

theorem SchedCall.rrCursor (t : Tasks) (a : SchedCall) :
    (a.result t).2.2.rrCursor = (a.picked t).getD t.rrCursor := by
  cases a with
  | timer now f =>
    unfold result picked candidates onTimer
    dsimp only
    split
    · rfl
    · have h := switchAway_rrCursor f.toTrap (wakeTimedTasks now t)
      split <;> exact h
  | yield f =>
    have h := switchAway_rrCursor f.toTrap t
    unfold result picked candidates yieldFromSyscall
    dsimp only
    split <;> exact h
  | block f =>
    refine (blockWith_rrCursor f t).trans ?_
    unfold picked candidates
    cases t.current <;> rfl
  | blockUntil f d =>
    refine (blockWith_rrCursor f t).trans ?_
    unfold picked candidates
    cases t.current <;> rfl
  | exit f =>
    refine (onExit_rrCursor f t).trans ?_
    rw [pickNext_eq, endCurrent_rrCursor]
    rfl
  | wake i =>
    unfold result
    dsimp only
    split <;> rfl

inductive SchedEvent where
  | call (a : SchedCall)
  | other (t : Tasks)

def eventStep (t : Tasks) : SchedEvent → Tasks
  | .call a => (a.result t).2.2
  | .other u => { u with rrCursor := t.rrCursor }

def SchedEvent.candidates (t : Tasks) : SchedEvent → Option (Nat → Bool)
  | .call a => a.candidates t
  | .other _ => none

def SchedEvent.picked (t : Tasks) : SchedEvent → Option Nat
  | .call a => a.picked t
  | .other _ => none

def selections : Tasks → List SchedEvent → List Nat
  | _, [] => []
  | t, e :: es => (e.picked t).toList ++ selections (eventStep t e) es

def StaysReady (p : Nat) : Tasks → List SchedEvent → Prop
  | _, [] => True
  | t, e :: es => (∀ asks, e.candidates t = some asks → asks p = true) ∧
      (e.picked t = some p ∨ StaysReady p (eventStep t e) es)

def asked : Tasks → List SchedEvent → List (Nat → Bool)
  | _, [] => []
  | t, e :: es => (e.candidates t).toList ++ asked (eventStep t e) es

theorem SchedEvent.picked_eq (t : Tasks) (e : SchedEvent) :
    e.picked t = (e.candidates t).bind (pick slotCount t.rrCursor) := by
  cases e <;> rfl

theorem eventStep_rrCursor (t : Tasks) (e : SchedEvent) :
    (eventStep t e).rrCursor = (e.picked t).getD t.rrCursor := by
  cases e with
  | call a => exact a.rrCursor t
  | other u => rfl

theorem selections_eq_picks (t : Tasks) (es : List SchedEvent) :
    selections t es = picks slotCount t.rrCursor (asked t es) := by
  induction es generalizing t with
  | nil => rfl
  | cons e es ih =>
    have hc := eventStep_rrCursor t e
    have hp := e.picked_eq t
    rw [selections, asked, ih, hc]
    cases ha : e.candidates t with
    | none =>
      rw [ha] at hp
      rw [hp]
      rfl
    | some asks =>
      rw [ha, Option.bind_some] at hp
      rw [hp]
      cases hk : pick slotCount t.rrCursor asks with
      | none => simp [picks, hk]
      | some j => simp [picks, hk]

theorem StaysReady.asks (h : StaysReady p t es) : Asks slotCount p t.rrCursor (asked t es) := by
  induction es generalizing t with
  | nil => trivial
  | cons e es ih =>
    have hc := eventStep_rrCursor t e
    have hp := e.picked_eq t
    obtain ⟨hready, hrest⟩ := h
    rw [asked]
    cases ha : e.candidates t with
    | none =>
      rw [ha] at hp
      rw [hp] at hc hrest
      have h0 := ih (hrest.resolve_left nofun)
      rw [hc] at h0
      exact h0
    | some asks =>
      rw [ha, Option.bind_some] at hp
      rw [hp] at hc hrest
      refine ⟨hready asks ha, hrest.imp id fun h0 j hj => ?_⟩
      have h1 := ih h0
      rw [hc, hj] at h1
      exact h1

theorem round_robin (p : Nat) (hp : p < slotCount) :
    (∀ (t : Tasks) (first : SchedCall) (q : Nat) (es : List SchedEvent), first.picked t = some q →
      StaysReady p (eventStep t (.call first)) es →
      ∀ l l', selections (eventStep t (.call first)) es = l ++ q :: l' → p = q ∨ p ∈ l) ∧
    ∀ (t : Tasks) (es : List SchedEvent), StaysReady p t es → slotCount ≤ (selections t es).length →
      p ∈ (selections t es).take slotCount := by
  constructor
  · intro t first q es hq hready l l' hl
    have hc : (eventStep t (.call first)).rrCursor = q := by
      rw [eventStep_rrCursor]
      exact congrArg (fun o : Option Nat => o.getD t.rrCursor) hq
    have hqn : q < slotCount := by
      obtain ⟨asks, _, hpick⟩ := Option.bind_eq_some_iff.mp hq
      exact (pick_spec hpick).1
    by_cases hpq : p = q
    · exact .inl hpq
    right
    have hasks := hready.asks
    rw [selections_eq_picks] at hl
    rw [hc] at hl hasks
    -- seen from `q`, the process `q` itself is the last
    have hlast := ahead_self hqn
    have hne : ahead slotCount q p ≠ ahead slotCount q q := fun h0 => hpq (ahead_inj hp hqn h0)
    have hlt : ahead slotCount q p < slotCount := ahead_lt (by omega)
    exact picked_before hp hqn (by omega) hasks hl
  · intro t es hready hlen
    have hasks := hready.asks
    rw [selections_eq_picks] at hlen ⊢
    have hlt : ahead slotCount t.rrCursor p < slotCount := ahead_lt (by omega)
    exact List.take_subset_take_left _ (by omega) (picked_soon hp hasks (by omega))

def threeReady : Tasks :=
  { procs := fun i =>
      if i < 3 then
        { pid := BitVec.ofNat 64 (i + 1), pml4 := 0x100000, frameValid := true
          state := if i = 0 then .running else .ready
          savedFrame := { rip := 0x400000, rsp := 0x8000, cs := 0x1b, ss := 0x23 } }
      else {}
    current := some 0
    nextPid := 4
    rrCursor := 0
    cr3 := 0x100000
    fsBase := 0 }

def yieldCall : SchedCall := .yield { rip := 0x400000, rsp := 0x8000, cs := 0x1b, ss := 0x23 }

theorem round_robin_three :
    selections (eventStep threeReady (.call yieldCall)) [.call yieldCall, .call yieldCall,
      .call yieldCall] =
      [2, 0] ++ 1 :: [] ∧ ((0 : Nat) = 1 ∨ 0 ∈ [2, 0]) := by
  have hready : StaysReady 0 (eventStep threeReady (.call yieldCall)) [.call yieldCall, .call yieldCall,
      .call yieldCall] := by
    refine ⟨fun asks h => ?_, .inr ⟨fun asks h => ?_, .inl (by decide +kernel)⟩⟩
    · cases h
      decide +kernel
    · cases h
      decide +kernel
  have hsel : selections (eventStep threeReady (.call yieldCall)) [.call yieldCall, .call yieldCall,
      .call yieldCall] = [2, 0] ++ 1 :: [] := by decide +kernel
  exact ⟨hsel, (round_robin 0 (by decide)).1 threeReady yieldCall 1 _ (by decide +kernel) hready
    _ _ hsel⟩

end BlockOS.Kernel
