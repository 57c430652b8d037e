import BlockOS.Lib.Counters
import BlockOS.Lib.Runs

/-! The submission and completion rings of `kernel/io_uring.cpp`, and what their calls do to the
requests that are under way. -/

namespace BlockOS.Kernel
open Runs Counters List Function

structure Sqe where
  opcode : BitVec 8
  fd : BitVec 32
  addr : BitVec 64
  len : BitVec 32
  userData : BitVec 64
  deriving DecidableEq

structure Cqe where
  userData : BitVec 64
  res : BitVec 32
  deriving DecidableEq

structure Uring where
  queueDepth : BitVec 32
  sqes : Nat → Sqe := fun _ => ⟨0, 0, 0, 0, 0⟩
  cqes : Nat → Cqe := fun _ => ⟨0, 0⟩
  sqHead : BitVec 32 := 0
  sqTail : BitVec 32 := 0
  cqHead : BitVec 32 := 0
  cqTail : BitVec 32 := 0

def Uring.nextIndex (u : Uring) (index : BitVec 32) : Nat :=
  if u.queueDepth = 0 then 0 else index.toNat % u.queueDepth.toNat

def processSqe (sqe : Sqe) : BitVec 32 :=
  if sqe.opcode = 0 ∨ sqe.opcode = 1 ∨ sqe.opcode = 2 then 0 else -1

def Uring.submit (u : Uring) (sqe : Sqe) : Bool × Uring :=
  if u.sqTail - u.sqHead ≥ u.queueDepth then (false, u)
  else
    (true, { u with
      sqes := update u.sqes (u.nextIndex u.sqTail) sqe
      sqTail := u.sqTail + 1 })

def Uring.pollTurn (u : Uring) : Bool × Uring :=
  if u.sqHead = u.sqTail then (false, u)
  else
    let sqe := u.sqes (u.nextIndex u.sqHead)
    let u := { u with sqHead := u.sqHead + 1 }
    let result := processSqe sqe
    if u.cqTail - u.cqHead ≥ u.queueDepth then (false, u)
    else
      (true, { u with
        cqes := update u.cqes (u.nextIndex u.cqTail) ⟨sqe.userData, result⟩
        cqTail := u.cqTail + 1 })

def Uring.pollLoop : Nat → Uring → Uring
  | 0, u => u
  | n + 1, u =>
    let r := u.pollTurn
    if r.1 then pollLoop n r.2 else r.2

def Uring.poll (u : Uring) : Uring := u.pollLoop ((u.sqTail - u.sqHead).toNat + 1)

def Uring.getCompletion (u : Uring) : Option Cqe × Uring :=
  if u.cqHead = u.cqTail then (none, u)
  else (some (u.cqes (u.nextIndex u.cqHead)), { u with cqHead := u.cqHead + 1 })

inductive UringOp where
  | submit (sqe : Sqe)
  | poll
  | getCompletion

structure Tally where
  ring : Uring
  accepted : List Sqe := []
  delivered : List Cqe := []

def tallyStep (t : Tally) : UringOp → Tally
  | .submit sqe =>
    let r := t.ring.submit sqe
    { t with ring := r.2, accepted := if r.1 then t.accepted ++ [sqe] else t.accepted }
  | .poll => { t with ring := t.ring.poll }
  | .getCompletion =>
    let r := t.ring.getCompletion
    { t with ring := r.2, delivered := t.delivered ++ r.1.toList }

def tallyInit (depth : BitVec 32) : Tally := { ring := { queueDepth := depth } }

def due (sqe : Sqe) : Cqe := ⟨sqe.userData, processSqe sqe⟩

def Uring.submitted (u : Uring) : List Sqe := waiting u.queueDepth.toNat u.sqes u.sqHead u.sqTail

def Uring.completed (u : Uring) : List Cqe := waiting u.queueDepth.toNat u.cqes u.cqHead u.cqTail

def Tally.track (t : Tally) : List Cqe :=
    t.delivered ++ t.ring.completed ++ t.ring.submitted.map due

def Tally.Conserved (t : Tally) : Prop := t.track = t.accepted.map due

instance (t : Tally) : Decidable t.Conserved := inferInstanceAs (Decidable (_ = _))

/-- The entries of a ring do not lie on both sides of the place where its counter wraps, unless the
depth divides `2 ^ 32`. -/
def Unwrapped (t : Tally) : UringOp → Prop
  | .submit sqe => (t.ring.submit sqe).1 = true →
    Straight t.ring.queueDepth.toNat t.ring.sqHead (t.ring.submitted.length + 1)
  | .poll =>
    Straight t.ring.queueDepth.toNat t.ring.cqHead (t.ring.completed.length + t.ring.submitted.length)
  | .getCompletion => True

/-- `poll` is called when the completion ring has room for all that was submitted. -/
def Roomy (t : Tally) : UringOp → Prop
  | .poll => t.ring.completed.length + t.ring.submitted.length ≤ t.ring.queueDepth.toNat
  | _ => True

instance : ∀ (t : Tally) (op : UringOp), Decidable (Unwrapped t op)
  | _, .submit _ => inferInstanceAs (Decidable (_ → Straight ..))
  | _, .poll => inferInstanceAs (Decidable (Straight ..))
  | _, .getCompletion => .isTrue trivial

variable {u : Uring}

theorem length_submitted : u.submitted.length = (u.sqTail - u.sqHead).toNat := length_waiting

theorem length_completed : u.completed.length = (u.cqTail - u.cqHead).toNat := length_waiting

theorem nextIndex_eq (hd : u.queueDepth ≠ 0) (p : BitVec 32) :
    u.nextIndex p = place u.queueDepth.toNat p :=
  if_neg hd

theorem submit_spec (hd : u.queueDepth ≠ 0) (sqe : Sqe)
    (hs : (u.submit sqe).1 = true → Straight u.queueDepth.toNat u.sqHead (u.submitted.length + 1)) :
    (u.submit sqe).2.submitted = u.submitted ++ (if (u.submit sqe).1 then [sqe] else []) ∧
      (u.submit sqe).2.completed = u.completed ∧ (u.submit sqe).2.queueDepth = u.queueDepth := by
  revert hs
  unfold Uring.submit
  split
  case isTrue => exact fun _ => ⟨(append_nil _).symm, rfl, rfl⟩
  case isFalse hroom =>
    intro hs
    rw [ge_iff_le, BitVec.not_le, BitVec.lt_def] at hroom
    have hs := hs rfl
    rw [length_submitted] at hs
    refine ⟨?_, rfl, rfl⟩
    rw [if_pos rfl, nextIndex_eq hd]
    exact waiting_push hroom u.queueDepth.isLt hs sqe

theorem getCompletion_spec (hd : u.queueDepth ≠ 0) :
    u.getCompletion.1.toList ++ u.getCompletion.2.completed = u.completed ∧
      u.getCompletion.2.submitted = u.submitted ∧ u.getCompletion.2.queueDepth = u.queueDepth := by
  unfold Uring.getCompletion
  split
  · exact ⟨rfl, rfl, rfl⟩
  case isFalse hne =>
    refine ⟨?_, rfl, rfl⟩
    rw [nextIndex_eq hd]
    exact (waiting_pop hne).symm

theorem pollTurn_spec (hd : u.queueDepth ≠ 0) (hne : u.sqHead ≠ u.sqTail)
    (hroom : u.completed.length < u.queueDepth.toNat)
    (hs : Straight u.queueDepth.toNat u.cqHead (u.completed.length + 1)) :
    ∃ sqe, u.submitted = sqe :: u.pollTurn.2.submitted ∧
      u.pollTurn.2.completed = u.completed ++ [due sqe] ∧ u.pollTurn.1 = true ∧
      u.pollTurn.2.queueDepth = u.queueDepth ∧ u.pollTurn.2.cqHead = u.cqHead := by
  rw [length_completed] at hroom hs
  have hlt : ¬ u.cqTail - u.cqHead ≥ u.queueDepth := by
    rw [ge_iff_le, BitVec.not_le, BitVec.lt_def]
    exact hroom
  have hturn : u.pollTurn = (true, { u with
      sqHead := u.sqHead + 1
      cqes := update u.cqes (u.nextIndex u.cqTail) (due (u.sqes (u.nextIndex u.sqHead)))
      cqTail := u.cqTail + 1 }) := by
    unfold Uring.pollTurn
    rw [if_neg hne]
    exact if_neg hlt
  rw [hturn]
  refine ⟨u.sqes (u.nextIndex u.sqHead), ?_, ?_, rfl, rfl, rfl⟩
  · rw [nextIndex_eq hd]
    exact waiting_pop hne
  · rw [nextIndex_eq hd]
    exact waiting_push hroom u.queueDepth.isLt hs _

theorem pollLoop_spec (hd : u.queueDepth ≠ 0) (hn : u.submitted.length < n)
    (hroom : u.completed.length + u.submitted.length ≤ u.queueDepth.toNat)
    (hs : Straight u.queueDepth.toNat u.cqHead (u.completed.length + u.submitted.length)) :
    (u.pollLoop n).submitted = [] ∧ (u.pollLoop n).completed = u.completed ++ u.submitted.map due ∧
      (u.pollLoop n).queueDepth = u.queueDepth := by
  induction n generalizing u with
  | zero => omega
  | succ n ih =>
    by_cases he : u.sqHead = u.sqTail
    · have hnil : u.submitted = [] := by rw [Uring.submitted, he, waiting_self]
      have hstop : u.pollLoop (n + 1) = u := by simp [Uring.pollLoop, Uring.pollTurn, he]
      rw [hstop, hnil]
      exact ⟨rfl, (append_nil _).symm, rfl⟩
    · have hpos : 0 < u.submitted.length := by
        rw [Uring.submitted, waiting_pop he]
        exact Nat.succ_pos _
      obtain ⟨sqe, hsub, hcomp, hgo, hdepth, hhead⟩ :=
        pollTurn_spec hd he (by omega) (hs.mono (by omega))
      have hlen := congrArg List.length hsub
      have hclen := congrArg List.length hcomp
      rw [length_cons] at hlen
      rw [length_append, length_singleton] at hclen
      have hrest := @ih u.pollTurn.2 (by rw [hdepth]; exact hd) (by omega) (by rw [hdepth]; omega)
        (by rw [hdepth, hhead]; exact hs.mono (by omega))
      rw [Uring.pollLoop, hgo, if_pos rfl]
      refine ⟨hrest.1, ?_, hrest.2.2.trans hdepth⟩
      rw [hrest.2.1, hcomp, hsub, map_cons, append_assoc]
      rfl

theorem length_pollLoop (hn : u.submitted.length < n) (hc : u.completed.length ≤ u.queueDepth.toNat)
    (hfull : u.queueDepth.toNat < u.completed.length + u.submitted.length) :
    (u.pollLoop n).completed.length + (u.pollLoop n).submitted.length + 1 =
      u.completed.length + u.submitted.length := by
  induction n generalizing u with
  | zero => omega
  | succ n ih =>
    have he : u.sqHead ≠ u.sqTail := by
      intro h0
      rw [show u.submitted = [] by rw [Uring.submitted, h0, waiting_self], length_nil] at hfull
      omega
    have hsub : u.submitted.length =
        (waiting u.queueDepth.toNat u.sqes (u.sqHead + 1) u.sqTail).length + 1 := by
      rw [Uring.submitted, waiting_pop he]
      rfl
    unfold Uring.pollLoop Uring.pollTurn
    rw [if_neg he]
    dsimp only
    split
    case isTrue =>
      rw [if_neg Bool.false_ne_true, hsub]
      rfl
    case isFalse hroom =>
      rw [ge_iff_le, BitVec.not_le, BitVec.lt_def, ← length_completed] at hroom
      rw [if_pos rfl]
      dsimp only
      generalize hv : ({ u with
        sqHead := u.sqHead + 1
        cqes := _
        cqTail := u.cqTail + 1 } : Uring) = v
      have hvc : v.completed.length = u.completed.length + 1 := by
        have hlt := u.queueDepth.isLt
        rw [length_completed] at hroom
        rw [length_completed, length_completed, ← hv]
        exact @toNat_succ_sub 32 u.cqHead u.cqTail (by omega)
      have hvs : v.submitted.length + 1 = u.submitted.length := by
        rw [hsub, ← hv]
        simp only [Uring.submitted, length_waiting]
      have hvd : v.queueDepth = u.queueDepth := by rw [← hv]
      have hrest := @ih v (by omega) (by rw [hvd]; omega) (by rw [hvd]; omega)
      omega

structure Tally.Sound (t : Tally) : Prop where
  conserved : t.Conserved
  bounded : t.ring.completed.length ≤ t.ring.queueDepth.toNat
  depth : t.ring.queueDepth ≠ 0

theorem tallyStep_sound (h : t.Sound) (hop : Unwrapped t op) (hroom : Roomy t op) :
    (tallyStep t op).Sound := by
  obtain ⟨hc, hb, hd⟩ := h
  unfold Tally.Conserved Tally.track at hc
  cases op with
  | submit sqe =>
    obtain ⟨hsub, hcomp, hdepth⟩ := submit_spec hd sqe hop
    refine ⟨?_, ?_, fun h0 => hd (hdepth ▸ h0)⟩
    · simp only [Tally.Conserved, Tally.track, tallyStep]
      rw [hsub, hcomp, map_append, ← append_assoc, hc]
      cases (t.ring.submit sqe).1 <;> simp
    simp only [tallyStep]
    rw [hcomp, hdepth]
    exact hb
  | poll =>
    obtain ⟨hsub, hcomp, hdepth⟩ := pollLoop_spec hd (Nat.lt_succ_self _) hroom hop
    rw [length_submitted] at hsub hcomp hdepth
    refine ⟨?_, ?_, fun h0 => hd (hdepth ▸ h0)⟩
    · simp only [Tally.Conserved, Tally.track, tallyStep, Uring.poll]
      rw [hsub, hcomp, map_nil, append_nil, ← append_assoc, hc]
    simp only [tallyStep, Uring.poll]
    rw [hcomp, hdepth, length_append, length_map]
    exact hroom
  | getCompletion =>
    obtain ⟨hcomp, hsub, hdepth⟩ := getCompletion_spec hd
    refine ⟨?_, ?_, fun h0 => hd (hdepth ▸ h0)⟩
    · simp only [Tally.Conserved, Tally.track, tallyStep]
      rw [hsub, append_assoc t.delivered, hcomp, hc]
    have hlen := congrArg List.length hcomp
    rw [length_append] at hlen
    simp only [tallyStep]
    rw [hdepth]
    omega

theorem poll_without_room (h : t.Sound) (hroom : ¬ Roomy t .poll) :
    ¬ (tallyStep t .poll).Conserved := by
  intro hc
  have hlost := length_pollLoop (n := t.ring.submitted.length + 1) (by omega) h.bounded
    (Nat.lt_of_not_le hroom)
  have h0 := congrArg List.length h.conserved
  have h1 := congrArg List.length hc
  rw [length_submitted] at hlost
  simp only [Tally.track, length_append, length_map, tallyStep, Uring.poll] at h0 h1
  rw [length_submitted (u := t.ring)] at h0
  omega

theorem step_conserved_iff (h : t.Sound) (hop : Unwrapped t op) : (tallyStep t op).Conserved ↔
    Roomy t op := by
  refine ⟨fun hc => ?_, fun hroom => (tallyStep_sound h hop hroom).conserved⟩
  cases op with
  | submit sqe => trivial
  | poll => exact not_not.mp fun hroom => poll_without_room h hroom hc
  | getCompletion => trivial

theorem tallyInit_sound (hd : depth ≠ 0) : (tallyInit depth).Sound := by
  refine ⟨?_, ?_, hd⟩
  · simp [Tally.Conserved, Tally.track, tallyInit, Uring.completed, Uring.submitted]
  · simp [tallyInit, Uring.completed]

theorem completions_conserved_iff {depth : BitVec 32} (hd : depth ≠ 0) {ops : List UringOp}
    (hu : Along tallyStep Unwrapped (tallyInit depth) ops) :
    Along tallyStep (fun t op => (tallyStep t op).Conserved) (tallyInit depth) ops ↔
      Along tallyStep Roomy (tallyInit depth) ops := by
  have hiff : Along tallyStep (fun t op => Unwrapped t op ∧ (tallyStep t op).Conserved)
    (tallyInit depth) ops ↔
      Along tallyStep (fun t op => Unwrapped t op ∧ Roomy t op) (tallyInit depth) ops := by
    refine Along.congr (I := Tally.Sound) (fun t op h => and_congr_right fun hop =>
      step_conserved_iff h hop)
      (fun t op h hop => ?_) ops (tallyInit_sound hd)
    exact tallyStep_sound h hop.1 ((step_conserved_iff h hop.1).mp hop.2)
  rw [Along.and_iff, Along.and_iff] at hiff
  exact ⟨fun h => (hiff.mp ⟨hu, h⟩).2, fun h => (hiff.mpr ⟨hu, h⟩).2⟩

def sampleSqe (userData : BitVec 64) : Sqe := ⟨0, 0, 0, 0, userData⟩

def sampleCalls : List UringOp :=
  [.submit (sampleSqe 1), .submit (sampleSqe 2), .poll, .getCompletion, .getCompletion]

theorem completions_conserved_sample : Along tallyStep Unwrapped (tallyInit 2) sampleCalls ∧
      Along tallyStep (fun t op => (tallyStep t op).Conserved) (tallyInit 2) sampleCalls := by
  have hu : Along tallyStep Unwrapped (tallyInit 2) sampleCalls := by decide +kernel
  refine ⟨hu, (completions_conserved_iff (by decide) hu).mpr ?_⟩
  simp only [sampleCalls, Along, Roomy]
  decide +kernel

theorem completion_lost : ¬ Along tallyStep (fun t op => (tallyStep t op).Conserved) (tallyInit 1)
      [.submit (sampleSqe 1), .poll, .submit (sampleSqe 2), .poll] := by
  decide +kernel

example :
    let t : Tally :=
      { ring := { queueDepth := 3, sqHead := -1, sqTail := -1, cqHead := -1, cqTail := -1 } }
    (tallyStep t (.submit (sampleSqe 1))).Conserved ∧
      ¬ (tallyStep (tallyStep t (.submit (sampleSqe 1))) (.submit (sampleSqe 2))).Conserved := by
  decide +kernel

end BlockOS.Kernel
