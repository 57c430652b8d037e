import BlockOS.Drivers.HidReport
import BlockOS.Lib.Presses

/-! Replaying the events of a keyboard. -/

namespace BlockOS.Hid
open Words Runs Presses

abbrev Code := BitVec 16

def press? (e : InputEvent) : Option (Press Code) :=
  match e.type with
  | .keyDown => some (.down e.code)
  | .keyUp => some (.up e.code)
  | _ => none

def presses (events : List InputEvent) : List (Press Code) := events.filterMap press?

structure Keyboard where
  state : KeyboardState
  held : Finset Code

structure Call where
  report : Option (List Byte)
  events : EventBuffer

def Keyboard.decoded (s : Keyboard) (c : Call) : Decoded :=
    decodeBootKeyboard c.report s.state c.events

def Keyboard.step (s : Keyboard) (c : Call) : Keyboard :=
  ⟨(s.decoded c).state, runFrom play s.held (presses (s.decoded c).events)⟩

def Keyboard.start : Keyboard := ⟨⟨0, Vector.replicate 6 0⟩, ∅⟩

open Keyboard (step start)

def IsModifier (code : Code) : Prop := 0xE0 ≤ code.toNat ∧ code.toNat ≤ 0xE7

instance (code : Code) : Decidable (IsModifier code) := inferInstanceAs (Decidable (_ ∧ _))

def KeyIn (s : KeyboardState) (code : Code) : Prop := ∃ k ∈ s.keys.toList, k ≠ 0 ∧
    k.setWidth 16 = code

instance (s : KeyboardState) (code : Code) : Decidable (KeyIn s code) :=
  inferInstanceAs (Decidable (∃ k ∈ s.keys.toList, _))

structure Shows (held : Finset Code) (s : KeyboardState) : Prop where
  modifiers : ∀ bit < 8, modifierCode bit ∈ held ↔ bitSet s.modifiers bit = true
  keys : ∀ code, (code ∈ held ∧ ¬ IsModifier code) ↔ KeyIn s code

structure Faithful (s : Keyboard) (c : Call) : Prop where
  fresh : Along play Fresh s.held (presses (s.decoded c).events)
  accepted : (s.decoded c).ok = true → ∃ report, c.report = some report ∧
    (s.decoded c).state = reported report ∧ Shows (s.step c).held (reported report)
  rejected : (s.decoded c).ok = false → (s.decoded c).events = [] ∧ (s.decoded c).state = s.state
  room : (s.decoded c).events.length ≤ c.events.capacity

/-- A report that is accepted has no modifier's usage in its key slots. -/
def Clean (s : Keyboard) (c : Call) : Prop :=
  (s.decoded c).ok = true → ∀ code, KeyIn (s.decoded c).state code → ¬ IsModifier code

theorem toNat_modifierCode (h : bit < 8) : (modifierCode bit).toNat = 0xE0 + bit := by
  unfold modifierCode
  rw [BitVec.toNat_ofNat, Nat.mod_eq_of_lt (by omega)]

theorem isModifier_modifierCode (h : bit < 8) : IsModifier (modifierCode bit) := by
  unfold IsModifier
  rw [toNat_modifierCode h]
  omega

theorem modifierCode_inj (ha : a < 8) (hb : b < 8) (h : modifierCode a = modifierCode b) : a = b := by
  have := congrArg BitVec.toNat h
  rw [toNat_modifierCode ha, toNat_modifierCode hb] at this
  omega

theorem setWidth_inj {j k : Byte} (h : j.setWidth 16 = k.setWidth 16) : j = k := by
  apply BitVec.eq_of_toNat_eq
  have := congrArg BitVec.toNat h
  have := j.isLt
  have := k.isLt
  simp only [BitVec.toNat_setWidth] at *
  omega

theorem contains_iff : contains keys usage = true ↔ usage ∈ keys.toList := by
  unfold contains
  rw [List.any_eq_true]
  constructor
  · rintro ⟨k, hk, h⟩
    exact beq_iff_eq.mp h ▸ hk
  · exact fun h => ⟨usage, h, BEq.rfl⟩

theorem hasDuplicate_iff (keys : List Byte) : hasDuplicate keys = false ↔
    (keys.filter (· != 0)).Nodup := by
  induction keys with
  | nil => simp [hasDuplicate]
  | cons k keys ih =>
    rw [hasDuplicate, Bool.or_eq_false_iff, ih]
    by_cases h0 : k = 0
    · simp [h0]
    have hmem : (k != 0 && keys.any fun j => k == j) = false ↔ k ∉ keys.filter (· != 0) := by
      rw [← Bool.not_eq_true, not_iff_not, Bool.and_eq_true, List.any_eq_true, List.mem_filter,
        bne_iff_ne]
      simp [and_comm]
    rw [List.filter_cons_of_pos (by simpa using h0), List.nodup_cons, hmem]

structure Distinct (s : KeyboardState) : Prop where
  nodup : (s.keys.toList.filter (· != 0)).Nodup
  clean : ∀ code, KeyIn s code → ¬ IsModifier code

section

variable {old new : KeyboardState}

theorem mem_releases {code : Code} : code ∈ releases old new ↔
    (∃ bit < 8, (bitSet old.modifiers bit = true ∧ bitSet new.modifiers bit = false) ∧
      modifierCode bit = code) ∨
      ∃ k ∈ old.keys.toList, (k ≠ 0 ∧ k ∉ new.keys.toList) ∧ k.setWidth 16 = code := by
  unfold releases
  simp only [List.mem_append, List.mem_map, List.mem_filter, List.mem_range, Bool.and_eq_true,
    Bool.not_eq_true', bne_iff_ne, ← Bool.not_eq_true, contains_iff, and_assoc]

theorem mem_releases_modifier (hold : Distinct old) (hbit : bit < 8) :
    modifierCode bit ∈ releases old new ↔ bitSet old.modifiers bit = true ∧
      bitSet new.modifiers bit = false := by
  rw [mem_releases]
  constructor
  · rintro (⟨b, hb, h, heq⟩ | ⟨k, hk, h, heq⟩)
    · rwa [← modifierCode_inj hb hbit heq]
    · exact absurd (isModifier_modifierCode hbit) (hold.clean _ ⟨k, hk, h.1, heq⟩)
  · exact fun h => .inl ⟨bit, hbit, h, rfl⟩

theorem mem_releases_key (hcode : ¬ IsModifier code) :
    code ∈ releases old new ↔ KeyIn old code ∧ ¬ KeyIn new code := by
  rw [mem_releases]
  constructor
  · rintro (⟨b, hb, -, rfl⟩ | ⟨k, hk, h, rfl⟩)
    · exact absurd (isModifier_modifierCode hb) hcode
    · refine ⟨⟨k, hk, h.1, rfl⟩, ?_⟩
      rintro ⟨j, hj, -, heq⟩
      exact h.2 (setWidth_inj heq ▸ hj)
  · rintro ⟨⟨k, hk, h0, rfl⟩, hnew⟩
    exact .inr ⟨k, hk, ⟨h0, fun h => hnew ⟨k, h, h0, rfl⟩⟩, rfl⟩

theorem nodup_releases (hold : Distinct old) : (releases old new).Nodup := by
  unfold releases
  rw [List.nodup_append]
  refine ⟨?_, ?_, ?_⟩
  · refine List.Nodup.map_on (fun a ha b hb h => ?_) (List.nodup_range.filter _)
    have ha := List.mem_range.mp (List.mem_of_mem_filter ha)
    have hb := List.mem_range.mp (List.mem_of_mem_filter hb)
    exact modifierCode_inj ha hb h
  · refine List.Nodup.map (fun a b h => setWidth_inj h) ?_
    have hsub := hold.nodup.filter fun k => !contains new.keys k
    rw [List.filter_filter] at hsub
    simpa only [Bool.and_comm] using hsub
  · intro a ha b hb hab
    obtain ⟨bit, hbit, rfl⟩ := List.mem_map.mp ha
    obtain ⟨k, hk, rfl⟩ := List.mem_map.mp hb
    simp only [List.mem_filter, List.mem_range, Bool.and_eq_true, bne_iff_ne] at hbit hk
    exact hold.clean _ ⟨k, hk.1, hk.2.1, hab.symm⟩ (isModifier_modifierCode hbit.1)

theorem change_shows (hs : Shows held old) (hold : Distinct old) (hnew : Distinct new) :
    Along play Fresh held ((releases old new).map .up ++ (pressed old new).map .down) ∧
      Shows (runFrom play held ((releases old new).map .up ++ (pressed old new).map .down)) new := by
  unfold pressed
  have hkey : ∀ {code}, ¬ IsModifier code → (code ∈ held ↔ KeyIn old code) := by
    intro code hc
    rw [← hs.keys]
    exact ⟨fun h => ⟨h, hc⟩, fun h => h.1⟩
  have hup : ∀ code ∈ releases old new, code ∈ held := by
    intro code hc
    rcases mem_releases.mp hc with ⟨bit, hbit, h, rfl⟩ | ⟨k, hk, h, rfl⟩
    · exact (hs.modifiers bit hbit).mpr h.1
    · exact ((hs.keys _).mpr ⟨k, hk, h.1, rfl⟩).1
  have hdown : ∀ code ∈ releases new old, code ∉ held := by
    intro code hc hheld
    rcases mem_releases.mp hc with ⟨bit, hbit, h, rfl⟩ | ⟨k, hk, h, rfl⟩
    · rw [hs.modifiers bit hbit, h.2] at hheld
      cases hheld
    · obtain ⟨j, hj, -, heq⟩ := (hkey (hnew.clean _ ⟨k, hk, h.1, rfl⟩)).mp hheld
      exact h.2 (setWidth_inj heq ▸ hj)
  obtain ⟨hfresh, hmem⟩ := play_change (nodup_releases hold) (nodup_releases hnew) hup hdown
  refine ⟨hfresh, ⟨fun bit hbit => ?_, fun code => ?_⟩⟩
  · rw [hmem, hs.modifiers bit hbit, mem_releases_modifier hold hbit, mem_releases_modifier hnew hbit]
    cases bitSet old.modifiers bit <;> cases bitSet new.modifiers bit <;> simp
  by_cases hc : IsModifier code
  · simp only [hc, not_true, and_false, false_iff]
    exact fun h => hnew.clean code h hc
  · rw [hmem, hkey hc, mem_releases_key hc, mem_releases_key hc]
    tauto

end

theorem presses_events (ups downs : List Code) (modifiers : Byte) :
    presses (ups.map (keyEvent .keyUp · modifiers) ++ downs.map (keyEvent .keyDown · modifiers))
      = ups.map .up ++ downs.map .down := by
  unfold presses
  rw [List.filterMap_append, List.filterMap_map, List.filterMap_map]
  simp [Function.comp_def, press?, keyEvent]

theorem decode_cases (report : Option (List Byte)) (state : KeyboardState) (events : EventBuffer) :
    (∃ count, decodeBootKeyboard report state events = ⟨false, count, [], state⟩) ∨
      ∃ bytes pending, report = some bytes ∧ (((reported bytes).keys.toList.filter (· != 0)).Nodup)
        ∧ transitions state (reported bytes) = some pending ∧ pending.length ≤ events.capacity ∧
        decodeBootKeyboard report state events = ⟨true, pending.length, pending, reported bytes⟩ := by
  cases report with
  | none => exact .inl ⟨0, rfl⟩
  | some bytes =>
    unfold decodeBootKeyboard
    dsimp only
    by_cases hlen : bytes.length < 8
    · rw [if_pos hlen]
      exact .inl ⟨0, rfl⟩
    by_cases herr : (reported bytes).keys.toList.any isError = true
    · rw [if_neg hlen, if_pos herr]
      exact .inl ⟨0, rfl⟩
    by_cases hdup : hasDuplicate (reported bytes).keys.toList = true
    · rw [if_neg hlen, if_neg herr, if_pos hdup]
      exact .inl ⟨0, rfl⟩
    obtain ⟨pending, hpending⟩ : ∃ pending, transitions state (reported bytes) = some pending :=
      ⟨_, transitions_eq _ _⟩
    rw [if_neg hlen, if_neg herr, if_neg hdup, hpending]
    dsimp only
    by_cases hroom : pending.length > events.capacity ∨ (pending.length ≠ 0 ∧ events.null = true)
    · rw [if_pos hroom]
      exact .inl ⟨_, rfl⟩
    rw [if_neg hroom]
    have hnodup := (hasDuplicate_iff _).mp (Bool.eq_false_iff.mpr hdup)
    exact .inr ⟨bytes, pending, rfl, hnodup, hpending, Nat.le_of_not_lt fun h => hroom (.inl h), rfl⟩

structure Replayed (s : Keyboard) : Prop where
  shows : Shows s.held s.state
  distinct : Distinct s.state

theorem replayed_start : Replayed start := by
  have hno : ∀ code, ¬ KeyIn start.state code := by
    rintro code ⟨k, hk, h0, -⟩
    simp [start] at hk
    exact h0 hk
  refine ⟨⟨fun bit hbit => ?_, fun code => ?_⟩, ?_, fun code h => absurd h (hno code)⟩
  · have hbits : ∀ bit < 8, bitSet 0#8 bit = false := by decide
    simp [start, hbits bit hbit]
  · simp only [start, Finset.notMem_empty, false_and, false_iff]
    exact hno code
  · decide

theorem Replayed.call (h : Replayed s) (c : Call) :
    (Faithful s c ↔ Clean s c) ∧ (Clean s c → Replayed (s.step c)) := by
  rcases decode_cases c.report s.state c.events with ⟨count, hd⟩ | ⟨bytes, pending, hr, hnodup, ht,
    hroom, hd⟩
  · have hdec : s.decoded c = ⟨false, count, [], s.state⟩ := hd
    have hstep : s.step c = s := by
      unfold step
      rw [hdec]
      rfl
    refine ⟨iff_of_true ⟨?_, ?_, ?_, ?_⟩ ?_, fun _ => by rwa [hstep]⟩
    · rw [hdec]
      trivial
    · rw [hdec]
      nofun
    · rw [hdec]
      exact fun _ => ⟨rfl, rfl⟩
    · rw [hdec]
      exact Nat.zero_le _
    intro hok
    rw [hdec] at hok
    cases hok
  · have hdec : s.decoded c = ⟨true, pending.length, pending, reported bytes⟩ := hd
    rw [transitions_eq] at ht
    have hclean : Clean s c → Faithful s c ∧ Replayed (s.step c) := by
      intro hcl
      have hnew : Distinct (reported bytes) := by
        refine ⟨hnodup, ?_⟩
        have := hcl (by rw [hdec])
        rwa [hdec] at this
      obtain ⟨hfresh, hshows⟩ := change_shows h.shows h.distinct hnew
      rw [← presses_events _ _ (reported bytes).modifiers, Option.some.inj ht] at hfresh hshows
      have hheld : (s.step c).held = runFrom play s.held (presses pending) := by
        unfold step
        rw [hdec]
      have hstate : (s.step c).state = reported bytes := by
        unfold step
        rw [hdec]
      refine ⟨⟨?_, fun _ => ⟨bytes, hr, ?_, ?_⟩, ?_, ?_⟩, ⟨?_, ?_⟩⟩
      · rwa [hdec]
      · rw [hdec]
      · rwa [hheld]
      · rw [hdec]
        nofun
      · rw [hdec]
        exact hroom
      · rwa [hheld, hstate]
      · rwa [hstate]
    refine ⟨⟨fun hf hok code hcode => ?_, fun hcl => (hclean hcl).1⟩, fun hcl => (hclean hcl).2⟩
    obtain ⟨report, -, hstate, hshows⟩ := hf.accepted hok
    rw [hstate] at hcode
    exact ((hshows.keys code).mpr hcode).2

theorem keys_replayed_iff (calls : List Call) :
    Along step Faithful start calls ↔ Along step Clean start calls :=
  Along.congr (fun _ c h => (h.call c).1) (fun _ c h hf => (h.call c).2 ((h.call c).1.mp hf)) calls
    replayed_start

theorem control_pressed_twice :
    let c : Call := ⟨some [1, 0, 0xE0, 0, 0, 0, 0, 0], ⟨false, 20⟩⟩
    (start.decoded c).ok = true ∧ presses (start.decoded c).events = [.down 0xE0, .down 0xE0] ∧
      ¬ Along step Faithful start [c] := by
  refine ⟨by decide, by decide, fun h => ?_⟩
  have hfresh := h.1.fresh
  revert hfresh
  decide

end BlockOS.Hid
