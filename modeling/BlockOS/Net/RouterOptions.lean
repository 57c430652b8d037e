import BlockOS.Net.Delivery
import BlockOS.Net.Ipv6

/-! The options of a router advertisement. -/

namespace BlockOS.Net
open Words List

def optionsWalk (size : Byte → Nat) (p : List Byte) : Nat → Nat → List (Nat × Bool)
  | 0, _ => []
  | fuel + 1, off =>
    let n := size (p.getD (off + 1) 0)
    if off + 2 > p.length then []
    else if n < 8 ∨ off + n > p.length then [(off, false)]
    else (off, true) :: optionsWalk size p fuel (off + n)

def trueSize (units : Byte) : Nat := units.toNat * 8

def codeSize (units : Byte) : Nat := (units * 8).toNat

def usePrefix {η : Type} (p : List Byte) (h : Host6 η) (off : Nat) : Host6 η :=
  if p.getD off 0 = 3 ∧ codeSize (p.getD (off + 1) 0) ≥ 32 ∧ p.getD (off + 2) 0 = 64 ∧
    p.getD (off + 3) 0 &&& 0x40 ≠ 0 then
    let net := address6 p (off + 16)
    { h with prefixAddr := net, prefixLen := 64, localAddr := autoAddress net h.mac }
  else h

def found (walk : List (Nat × Bool)) : List Nat := (walk.filter Prod.snd).map Prod.fst

variable {η : Type} {p : List Byte} {size : Byte → Nat} {fuel off : Nat}

theorem routerOptions_eq (h : Host6 η) :
    Host6.routerOptions p fuel off h = (found (optionsWalk codeSize p fuel off)).foldl (usePrefix p)
      h := by
  induction fuel generalizing off h with
  | zero => rfl
  | succ fuel ih =>
    unfold Host6.routerOptions optionsWalk
    dsimp only
    rw [show (p.getD (off + 1) 0 * 8).toNat = codeSize (p.getD (off + 1) 0) from rfl]
    split
    · rfl
    split
    · rfl
    have hcons : ∀ walk, (found ((off, true) :: walk)).foldl (usePrefix p) h =
        (found walk).foldl (usePrefix p) (usePrefix p h off) := fun _ => rfl
    rw [hcons, usePrefix]
    split <;> rw [ih]

theorem optionsWalk_fuel (extra : Nat) (hf : p.length ≤ off + fuel) :
    optionsWalk size p (fuel + extra) off = optionsWalk size p fuel off := by
  induction fuel generalizing off with
  | zero =>
    cases extra with
    | zero => rfl
    | succ extra =>
      unfold optionsWalk
      rw [if_pos (by omega)]
  | succ fuel ih =>
    rw [Nat.add_right_comm, optionsWalk, optionsWalk]
    split
    · rfl
    split
    · rfl
    case isFalse h1 h2 => rw [ih (by omega)]

theorem optionsWalk_inside : ∀ x ∈ optionsWalk size p fuel off, x.1 + 2 ≤ p.length := by
  induction fuel generalizing off with
  | zero => nofun
  | succ fuel ih =>
    unfold optionsWalk
    dsimp only
    split
    · nofun
    case isFalse h1 =>
      split
      · simpa using h1
      · exact forall_mem_cons.mpr ⟨by omega, ih⟩

def ShortOption (p : List Byte) (off : Nat) : Prop :=
  (p.getD (off + 1) 0).toNat < 32 ∨ p.length < off + trueSize (p.getD (off + 1) 0) ∧
    (codeSize (p.getD (off + 1) 0) = 0 ∨ p.length < off + codeSize (p.getD (off + 1) 0))

instance (p : List Byte) (off : Nat) : Decidable (ShortOption p off) :=
    inferInstanceAs (Decidable (_ ∨ _ ∧ _))

theorem codeSize_eq (units : Byte) : codeSize units = units.toNat * 8 % 256 := by
  rfl

theorem optionsWalk_eq_iff (hf : p.length ≤ off + fuel) :
    optionsWalk codeSize p fuel off = optionsWalk trueSize p fuel off ↔
      ∀ x ∈ optionsWalk trueSize p fuel off, ShortOption p x.1 := by
  induction fuel generalizing off with
  | zero => exact iff_of_true rfl nofun
  | succ fuel ih =>
    have hcode := codeSize_eq (p.getD (off + 1) 0)
    have hlt := (p.getD (off + 1) 0).isLt
    unfold optionsWalk
    by_cases hend : off + 2 > p.length
    · rw [if_pos hend, if_pos hend]
      exact iff_of_true rfl nofun
    rw [if_neg hend, if_neg hend]
    unfold ShortOption at ih ⊢
    generalize hc : codeSize (p.getD (off + 1) 0) = c at hcode
    generalize hu : p.getD (off + 1) 0 = u at hcode hlt hc
    have hsize : trueSize u = u.toNat * 8 := rfl
    by_cases hbad : trueSize u < 8 ∨ off + trueSize u > p.length
    · rw [if_pos hbad, forall_mem_singleton, hu, hc]
      by_cases hbadc : c < 8 ∨ off + c > p.length
      · rw [if_pos hbadc]
        exact iff_of_true rfl (by omega)
      · rw [if_neg hbadc]
        exact iff_of_false (by simp) (by omega)
    rw [if_neg hbad, forall_mem_cons, hu, hc]
    by_cases hshort : u.toNat < 32
    · have hsame : c = trueSize u := by omega
      rw [hsame, if_neg hbad, cons_inj_right, ih (by omega), and_iff_right (.inl hshort)]
    -- the code finds no option here, or it goes on before the next one
    refine iff_of_false (fun heq => ?_) fun h => by omega
    split at heq
    · simp at heq
    case isFalse hbadc =>
      have htail := tail_eq_of_cons_eq heq
      have hhead : ∃ ok, (optionsWalk codeSize p fuel (off + c)).head? = some (off + c, ok) := by
        cases fuel with
        | zero => omega
        | succ fuel =>
          unfold optionsWalk
          rw [if_neg (by omega)]
          split <;> exact ⟨_, rfl⟩
      obtain ⟨ok, hok⟩ := hhead
      rw [htail] at hok
      cases fuel with
      | zero => cases hok
      | succ fuel =>
        unfold optionsWalk at hok
        dsimp only at hok
        split at hok
        · cases hok
        split at hok
        all_goals
          have hfst := congrArg Prod.fst (Option.some.inj hok)
          omega

theorem router_options_walk_iff (h : Host6 η) (up : Nat → Bool) (src : IPv6Address) (p : List Byte)
    (ht : p.getD 0 0 = 134) (hl : 16 ≤ p.length) :
    ((∀ extra, optionsWalk codeSize p (p.length + extra) 16 = optionsWalk trueSize p p.length 16) ∧
      (∀ x ∈ optionsWalk codeSize p p.length 16, x.1 + 2 ≤ p.length) ∧
      h.ndpReceive up src p =
        (found (optionsWalk trueSize p p.length 16)).foldl (usePrefix p) { h with ndpRouter := src }) ↔
      ∀ x ∈ optionsWalk trueSize p p.length 16, ShortOption p x.1 := by
  rw [← optionsWalk_eq_iff (by omega)]
  refine ⟨fun h0 => h0.1 0, fun heq => ⟨fun extra => ?_, optionsWalk_inside, ?_⟩⟩
  · rw [optionsWalk_fuel extra (by omega), heq]
  · unfold Host6.ndpReceive
    rw [if_neg (by omega), if_neg (by rw [ht]; exact fun h0 => absurd h0.1 (by decide)),
      if_neg (by rw [ht]; exact fun h0 => absurd h0.1 (by decide)), if_pos ⟨ht, hl⟩,
        routerOptions_eq, heq]

def sampleRouter (units : Byte) : List Byte :=
  134 :: List.replicate 15 0 ++ [1, units, 0, 0, 0, 0, 0, 0] ++ [3, 4, 64, 0x40] ++ List.replicate
    12 0 ++ 0x80 :: List.replicate 15 0 ++ List.replicate 224 0

def sampleHost6 : Host6 Nat :=
  { sampleReceiver with
    localAddr := unspecified
    router := unspecified
    prefixAddr := unspecified
    prefixLen := 0
    ready := true
    neighbours := []
    ndpRouter := unspecified
    age := 0
    bindings6 := [] }

theorem router_options_walk_iff_sample : optionsWalk codeSize (sampleRouter 1)
    ((sampleRouter 1).length + 1) 16 =
      optionsWalk trueSize (sampleRouter 1) (sampleRouter 1).length 16 :=
  ((router_options_walk_iff sampleHost6 (fun _ => true) unspecified (sampleRouter 1) rfl
    (by decide +kernel)).mpr
    (by decide +kernel)).1 1

theorem address_from_payload : optionsWalk trueSize (sampleRouter 33) (sampleRouter 33).length 16 =
    [(16, true)] ∧
      (sampleHost6.ndpReceive (fun _ => true) unspecified (sampleRouter 33)).prefixAddr =
        address6 (sampleRouter 33) 40 := by
  decide +kernel

end BlockOS.Net
