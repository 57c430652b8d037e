import BlockOS.Lib.Words

/-! Boot keyboard reports, `decode_boot_keyboard` of `drivers/usb_hid_report.cpp`. -/

namespace BlockOS.Hid
open Words

inductive EventType where
  | keyDown
  | keyUp
  | pointerMove
  | buttonDown
  | buttonUp
  | wheel
  deriving DecidableEq, Repr

structure InputEvent where
  type : EventType
  code : BitVec 16
  dx : BitVec 16
  dy : BitVec 16
  wheel : Byte
  modifiers : Byte
  deriving DecidableEq, Repr

structure KeyboardState where
  modifiers : Byte
  keys : Vector Byte 6
  deriving DecidableEq, Repr

structure EventBuffer where
  null : Bool
  capacity : Nat
  deriving DecidableEq, Repr

structure Decoded where
  ok : Bool
  count : Nat
  events : List InputEvent
  state : KeyboardState
  deriving DecidableEq

def contains (keys : Vector Byte 6) (usage : Byte) : Bool := keys.toList.any fun k => k == usage

def append (list : List InputEvent) (event : InputEvent) : Option (List InputEvent) :=
  if list.length ≥ 20 then none else some (list ++ [event])

def bitSet (modifiers : Byte) (bit : Nat) : Bool := modifiers &&& 1#8 <<< bit != 0

def modifierCode (bit : Nat) : BitVec 16 := BitVec.ofNat 16 (0xE0 + bit)

def isError (usage : Byte) : Bool := decide (usage ≥ 1) && decide (usage ≤ 3)

def hasDuplicate : List Byte → Bool
  | [] => false
  | k :: keys => (k != 0 && keys.any fun j => k == j) || hasDuplicate keys

def appendEach {α : Type} (xs : List α) (p : α → Bool) (event : α → InputEvent)
    (pending : List InputEvent) :
    Option (List InputEvent) :=
  xs.foldlM (fun pending x => if p x then append pending (event x) else some pending) pending

def keyEvent (type : EventType) (code : BitVec 16) (modifiers : Byte) : InputEvent :=
    ⟨type, code, 0, 0, 0, modifiers⟩

def releaseModifiers (state next : KeyboardState) : List InputEvent → Option (List InputEvent) :=
  appendEach (List.range 8) (fun bit => bitSet state.modifiers bit && !bitSet next.modifiers bit)
    fun bit => keyEvent .keyUp (modifierCode bit) next.modifiers

def releaseKeys (state next : KeyboardState) : List InputEvent → Option (List InputEvent) :=
  appendEach state.keys.toList (fun oldKey => oldKey != 0 && !contains next.keys oldKey)
    fun oldKey => keyEvent .keyUp (oldKey.setWidth 16) next.modifiers

def pressModifiers (state next : KeyboardState) : List InputEvent → Option (List InputEvent) :=
  appendEach (List.range 8) (fun bit => !bitSet state.modifiers bit && bitSet next.modifiers bit)
    fun bit => keyEvent .keyDown (modifierCode bit) next.modifiers

def pressKeys (state next : KeyboardState) : List InputEvent → Option (List InputEvent) :=
  appendEach next.keys.toList (fun newKey => newKey != 0 && !contains state.keys newKey)
    fun newKey => keyEvent .keyDown (newKey.setWidth 16) next.modifiers

def transitions (state next : KeyboardState) : Option (List InputEvent) :=
  releaseModifiers state next [] >>= releaseKeys state next >>= pressModifiers state next >>=
    pressKeys state next

def reported (report : List Byte) : KeyboardState :=
  ⟨report.getD 0 0, Vector.ofFn fun i => report.getD (2 + i) 0⟩

def decodeBootKeyboard (report : Option (List Byte)) (state : KeyboardState)
    (events : EventBuffer) : Decoded :=
  let rejected (count : Nat) : Decoded := ⟨false, count, [], state⟩
  match report with
  | none => rejected 0
  | some report =>
    if report.length < 8 then rejected 0
    else
      let next := reported report
      if next.keys.toList.any isError then rejected 0
      else if hasDuplicate next.keys.toList then rejected 0
      else
        match transitions state next with
        | none => rejected 0
        | some pending =>
          if pending.length > events.capacity ∨ (pending.length ≠ 0 ∧ events.null = true) then
            rejected pending.length
          else ⟨true, pending.length, pending, next⟩

theorem appendEach_eq {α : Type} (xs : List α) (p : α → Bool) (event : α → InputEvent)
    (h : pending.length + xs.countP p ≤ 20) :
    appendEach xs p event pending = some (pending ++ (xs.filter p).map event) := by
  induction xs generalizing pending with
  | nil => simp [appendEach]
  | cons x xs ih =>
    unfold appendEach at ih ⊢
    rw [List.foldlM_cons]
    cases hp : p x with
    | false =>
      rw [List.countP_cons_of_neg (by simp [hp])] at h
      simpa [hp] using ih h
    | true =>
      rw [List.countP_cons_of_pos hp] at h
      have happ : append pending (event x) = some (pending ++ [event x]) := if_neg (by omega)
      have hroom : (pending ++ [event x]).length + xs.countP p ≤ 20 := by
        simp only [List.length_append, List.length_singleton]
        omega
      have hrest := ih hroom
      simpa [hp, happ] using hrest

def releases (state next : KeyboardState) : List (BitVec 16) :=
  ((List.range 8).filter fun bit => bitSet state.modifiers bit && !bitSet next.modifiers bit).map
    modifierCode ++
    (state.keys.toList.filter fun k => k != 0 && !contains next.keys k).map (BitVec.setWidth 16)

def pressed (state next : KeyboardState) : List (BitVec 16) := releases next state

theorem countP_changes (old new : Nat → Bool) (bits : List Nat) :
    bits.countP (fun b => old b && !new b) + bits.countP (fun b => !old b && new b) ≤ bits.length := by
  induction bits with
  | nil => simp
  | cons b bits ih =>
    simp only [List.countP_cons, List.length_cons]
    cases old b <;> cases new b <;> simp <;> omega

theorem transitions_eq (state next : KeyboardState) :
    transitions state next = some ((releases state next).map (keyEvent .keyUp · next.modifiers) ++
      (pressed state next).map (keyEvent .keyDown · next.modifiers)) := by
  have hbits := countP_changes (bitSet state.modifiers) (bitSet next.modifiers) (List.range 8)
  have hups : state.keys.toList.countP (fun k => k != 0 && !contains next.keys k) ≤ 6 :=
    Nat.le_trans List.countP_le_length (by simp)
  have hdowns : next.keys.toList.countP (fun k => k != 0 && !contains state.keys k) ≤ 6 :=
    Nat.le_trans List.countP_le_length (by simp)
  rw [List.length_range] at hbits
  have hlen : ∀ {α : Type} (xs : List α) (p : α → Bool) (event : α → InputEvent),
      ((xs.filter p).map event).length = xs.countP p := by
    intros
    rw [List.length_map, List.countP_eq_length_filter]
  unfold transitions releaseModifiers releaseKeys pressModifiers pressKeys
  rw [appendEach_eq _ _ _ (by rw [List.length_nil]; omega), Option.bind_eq_bind, Option.bind_some,
    appendEach_eq _ _ _ (by rw [List.nil_append, hlen]; omega), Option.bind_some,
    appendEach_eq _ _ _ (by rw [List.length_append, List.nil_append, hlen, hlen]; omega),
      Option.bind_some,
    appendEach_eq _ _ _ (by simp only [List.length_append, List.nil_append, hlen]; omega)]
  simp [releases, pressed, Bool.and_comm, Function.comp_def]

end BlockOS.Hid
