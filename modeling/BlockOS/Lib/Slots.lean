import Mathlib.Tactic

/-! Handles to the slots of a table. -/

namespace BlockOS.Slots
open Function

structure Opener where
  owner : Nat
  held : Bool
  deriving DecidableEq

structure Board where
  holds : Nat → Option (Option Nat)
  slot : Nat → Option Bool
  number : Nat → Nat
  opener : Nat → Option Opener
  next : Nat

structure Sane (b : Board) : Prop where
  numbers : ∀ p, b.holds p ≠ none → b.number p < b.next
  distinct : ∀ p q, b.holds p ≠ none → b.holds q ≠ none → b.number p = b.number q → p = q
  opened : ∀ i, b.slot i ≠ none → ∃ o, b.opener i = some o ∧ o.owner < b.next

structure Apart (b : Board) : Prop where
  own : ∀ p i, b.holds p = some (some i) → b.slot i ≠ none → b.opener i = some ⟨b.number p, true⟩
  single : ∀ p q i, b.holds p = some (some i) → b.holds q = some (some i) → b.slot i ≠ none → p = q
  gone : ∀ i o, b.slot i = some false → b.opener i = some o → ∃ p, b.holds p ≠ none ∧
    b.number p = o.owner

def Fades (slot slot' : Nat → Option Bool) : Prop :=
  ∀ i, slot' i ≠ none → slot i ≠ none ∧ (slot' i = some false → slot i = some false)

theorem fades_refl : Fades slot slot := fun _ h => ⟨h, id⟩

variable {b : Board} {slot' : Nat → Option Bool} {p j : Nat}

theorem Sane.apart (h : Sane b) (hown : ∀ p i, b.holds p = some (some i) → b.slot i ≠ none →
      b.opener i = some ⟨b.number p, true⟩)
    (hgone : ∀ i o, b.slot i = some false → b.opener i = some o → ∃ p, b.holds p ≠ none ∧
      b.number p = o.owner) :
    Apart b where
  own := hown
  single p q i hp hq hi := by
    have heq := (hown p i hp hi).symm.trans (hown q i hq hi)
    exact h.distinct p q (by rw [hp]; nofun) (by rw [hq]; nofun)
      (congrArg Opener.owner (Option.some.inj heq))
  gone := hgone

theorem Sane.fade (h : Sane b) (hf : Fades b.slot slot') : Sane { b with slot := slot' } where
  numbers := h.numbers
  distinct := h.distinct
  opened i hi := h.opened i (hf i hi).1

theorem Apart.fade (h : Apart b) (hf : Fades b.slot slot') : Apart { b with slot := slot' } where
  own p i hp hi := h.own p i hp (hf i hi).1
  single p q i hp hq hi := h.single p q i hp hq (hf i hi).1
  gone i o hi ho := by
    have hi' : slot' i ≠ none := by
      rw [show slot' i = some false from hi]
      nofun
    exact h.gone i o ((hf i hi').2 hi) ho

def Board.enter (b : Board) (p : Nat) : Board :=
  { b with
    holds := update b.holds p (some none)
    number := update b.number p b.next
    next := b.next + 1 }

theorem Sane.enter (h : Sane b) (hp : b.holds p = none) : Sane (b.enter p) := by
  have hold : ∀ q, q ≠ p → (b.enter p).holds q = b.holds q ∧ (b.enter p).number q = b.number q :=
    fun q hq => ⟨update_of_ne hq .., update_of_ne hq ..⟩
  have hnew : (b.enter p).number p = b.next := update_self ..
  refine ⟨fun q hq => ?_, fun q r hq hr he => ?_, fun i hi => ?_⟩
  · by_cases hqp : q = p
    · subst hqp
      rw [hnew]
      exact Nat.lt_succ_self _
    · rw [(hold q hqp).1] at hq
      rw [(hold q hqp).2]
      exact Nat.lt_succ_of_lt (h.numbers q hq)
  · by_cases hqp : q = p <;> by_cases hrp : r = p
    · exact hqp.trans hrp.symm
    · subst hqp
      rw [hnew, (hold r hrp).2] at he
      rw [(hold r hrp).1] at hr
      have := h.numbers r hr
      omega
    · subst hrp
      rw [hnew, (hold q hqp).2] at he
      rw [(hold q hqp).1] at hq
      have := h.numbers q hq
      omega
    · rw [(hold q hqp).1] at hq
      rw [(hold r hrp).1] at hr
      rw [(hold q hqp).2, (hold r hrp).2] at he
      exact h.distinct q r hq hr he
  · obtain ⟨o, ho, hlt⟩ := h.opened i hi
    exact ⟨o, ho, Nat.lt_succ_of_lt hlt⟩

theorem Apart.enter (h : Apart b) (hs : Sane b) (hp : b.holds p = none) : Apart (b.enter p) := by
  have hold : ∀ q, q ≠ p → (b.enter p).holds q = b.holds q ∧ (b.enter p).number q = b.number q :=
    fun q hq => ⟨update_of_ne hq .., update_of_ne hq ..⟩
  have hself : (b.enter p).holds p = some none := update_self ..
  refine (hs.enter hp).apart (fun q i hq hi => ?_) fun i o hi ho => ?_
  · have hqp : q ≠ p := by
      rintro rfl
      rw [hself] at hq
      cases hq
    rw [(hold q hqp).1] at hq
    rw [(hold q hqp).2]
    exact h.own q i hq hi
  · obtain ⟨q, hq, hn⟩ := h.gone i o hi ho
    have hqp : q ≠ p := by
      rintro rfl
      exact hq hp
    exact ⟨q, by rwa [(hold q hqp).1], by rwa [(hold q hqp).2]⟩

def Board.open (b : Board) (p j : Nat) (held : Bool) : Board :=
  { b with
    holds := if held then update b.holds p (some (some j)) else b.holds
    slot := update b.slot j (some false)
    opener := update b.opener j (some ⟨b.number p, held⟩) }

theorem Board.open_holds (hq : b.holds q ≠ none ∨ (b.open p j held).holds q ≠ none)
    (hp : b.holds p ≠ none) : b.holds q ≠ none ∧ (b.open p j held).holds q ≠ none := by
  cases held with
  | false => exact ⟨hq.elim id id, hq.elim id id⟩
  | true =>
    by_cases hqp : q = p
    · subst hqp
      refine ⟨hp, ?_⟩
      rw [show (b.open q j true).holds q = some (some j) from update_self ..]
      nofun
    · have heq : (b.open p j true).holds q = b.holds q := update_of_ne hqp ..
      rw [heq] at hq ⊢
      exact ⟨hq.elim id id, hq.elim id id⟩

theorem Sane.open (h : Sane b) (hp : b.holds p ≠ none) : Sane (b.open p j held) where
  numbers q hq := h.numbers q (Board.open_holds (.inr hq) hp).1
  distinct q r hq hr he :=
    h.distinct q r (Board.open_holds (.inr hq) hp).1 (Board.open_holds (.inr hr) hp).1 he
  opened i hi := by
    by_cases hij : i = j
    · subst hij
      exact ⟨⟨b.number p, held⟩, update_self .., h.numbers p hp⟩
    have hslot : (b.open p j held).slot i = b.slot i := update_of_ne hij ..
    rw [hslot] at hi
    obtain ⟨o, ho, hlt⟩ := h.opened i hi
    exact ⟨o, (update_of_ne hij ..).trans ho, hlt⟩

theorem Apart.open (h : Apart b) (hs : Sane b) (hp : b.holds p ≠ none) :
    Apart (b.open p j held) ↔ ∀ q, b.holds q = some (some j) → held = true ∧ q = p := by
  have hslot : (b.open p j held).slot j ≠ none := by
    rw [show (b.open p j held).slot j = some false from update_self ..]
    nofun
  have hopener : (b.open p j held).opener j = some ⟨b.number p, held⟩ := update_self ..
  have hother : ∀ q, ¬(held = true ∧ q = p) → (b.open p j held).holds q = b.holds q := by
    intro q hq
    cases held with
    | false => rfl
    | true => exact update_of_ne (fun h0 => hq ⟨rfl, h0⟩) ..
  constructor
  · intro ha q hq
    by_contra hne
    have hown := ha.own q j ((hother q hne).trans hq) hslot
    rw [hopener] at hown
    have heq := Option.some.inj hown
    refine hne ⟨congrArg Opener.held heq, ?_⟩
    exact (hs.distinct p q hp (by rw [hq]; nofun) (congrArg Opener.owner heq)).symm
  · intro hfree
    refine (hs.open hp).apart (fun q i hq hi => ?_) fun i o hi ho => ?_
    · by_cases hij : i = j
      · subst hij
        by_cases hqp : held = true ∧ q = p
        · rw [hopener, hqp.1, hqp.2]
          rfl
        · rw [hother q hqp] at hq
          exact absurd (hfree q hq) hqp
      · have hsame : (b.open p j held).slot i = b.slot i := update_of_ne hij ..
        have hsame' : (b.open p j held).opener i = b.opener i := update_of_ne hij ..
        rw [hsame] at hi
        rw [hsame']
        by_cases hqp : held = true ∧ q = p
        · obtain ⟨rfl, rfl⟩ := hqp
          rw [show (b.open q j true).holds q = some (some j) from update_self ..] at hq
          exact absurd (Option.some.inj (Option.some.inj hq)).symm hij
        · rw [hother q hqp] at hq
          exact h.own q i hq hi
    · by_cases hij : i = j
      · subst hij
        rw [hopener] at ho
        refine ⟨p, (Board.open_holds (.inl hp) hp).2, ?_⟩
        rw [← Option.some.inj ho]
        rfl
      · have hsame : (b.open p j held).slot i = b.slot i := update_of_ne hij ..
        have hsame' : (b.open p j held).opener i = b.opener i := update_of_ne hij ..
        rw [hsame] at hi
        rw [hsame'] at ho
        obtain ⟨q, hq, hn⟩ := h.gone i o hi ho
        exact ⟨q, (Board.open_holds (.inl hq) hp).2, hn⟩

def Board.leave (b : Board) (p : Nat) (slot' : Nat → Option Bool) : Board :=
  { b with holds := update b.holds p none, slot := slot' }

theorem Board.leave_holds {q : Nat} (hq : (b.leave p slot').holds q ≠ none) :
    q ≠ p ∧ (b.leave p slot').holds q = b.holds q := by
  have hne : q ≠ p := by
    rintro rfl
    exact hq (update_self ..)
  exact ⟨hne, update_of_ne hne ..⟩

theorem Sane.leave (h : Sane b) (hf : Fades b.slot slot') : Sane (b.leave p slot') where
  numbers q hq := h.numbers q ((Board.leave_holds hq).2 ▸ hq)
  distinct q r hq hr he :=
    h.distinct q r ((Board.leave_holds hq).2 ▸ hq) ((Board.leave_holds hr).2 ▸ hr) he
  opened i hi := h.opened i (hf i hi).1

theorem Apart.leave (h : Apart b) (hs : Sane b) (hp : b.holds p ≠ none) (hf : Fades b.slot slot') :
    Apart (b.leave p slot') ↔ ∀ i o, b.opener i = some o → o.owner = b.number p →
      slot' i ≠ some false := by
  constructor
  · intro ha i o ho hn hi
    obtain ⟨q, hq, heq⟩ := ha.gone i o hi ho
    obtain ⟨hne, hsame⟩ := Board.leave_holds hq
    exact hne (hs.distinct q p (hsame ▸ hq) hp (heq.trans hn))
  · intro hout
    refine (hs.leave hf).apart (fun q i hq hi => ?_) fun i o hi ho => ?_
    · have hsame := (@Board.leave_holds b slot' p q (by rw [hq]; nofun)).2
      exact h.own q i (hsame.symm.trans hq) (hf i hi).1
    have hi' : slot' i ≠ none := by
      rw [show slot' i = some false from hi]
      nofun
    obtain ⟨q, hq, heq⟩ := h.gone i o ((hf i hi').2 hi) ho
    have hne : q ≠ p := by
      rintro rfl
      exact hout i o ho heq.symm hi
    exact ⟨q, by rwa [show (b.leave p slot').holds q = b.holds q from update_of_ne hne ..], heq⟩

end BlockOS.Slots
