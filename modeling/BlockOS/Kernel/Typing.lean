import BlockOS.Kernel.Tty
import BlockOS.Lib.Runs

/-! What a reader of the console gets. -/

namespace BlockOS.Kernel
open Words Runs List Function
open List (length replicate)

structure Typing where
  tty : Tty
  completed : List (List Byte) := []
  delivered : List Byte := []

inductive TtyOp where
  | input (c : Byte)
  | read (len : Nat)

def Typing.Completes (y : Typing) (c : Byte) : Prop :=
  y.tty.lineReady = false ∧ (y.tty.pushCanonical c).1 = true ∧ (y.tty.pushCanonical c).2.lineReady = true

instance (y : Typing) (c : Byte) : Decidable (y.Completes c) :=
    inferInstanceAs (Decidable (_ ∧ _ ∧ _))

def typingStep (y : Typing) : TtyOp → Typing
  | .input c =>
    { y with
      tty := y.tty.inputChar c
      completed := if y.Completes c then y.completed ++ [(y.tty.pushCanonical c).2.typed] else
        y.completed }
  | .read len =>
    let r := y.tty.read len
    { y with tty := r.2, delivered := y.delivered ++ r.1.2 }

def Typing.stream (y : Typing) : List Byte := y.delivered ++ y.tty.input.contents

def Typing.Whole (y : Typing) : Prop := y.stream = y.completed.flatten

def Typing.InOrder (y : Typing) : Prop :=
  y.Whole ∨ y.tty.input.count = inputCapacity ∧
    ∃ front last pre, y.completed = front ++ [last] ∧ pre <+: last ∧ y.stream = front.flatten ++ pre

def Unhurried (y : Typing) : TtyOp → Prop
  | .input c => y.Whole ∨ ¬ y.Completes c
  | .read len => y.Whole ∨ len = 0

variable {y : Typing} {t : Tty}

def Typing.Cut (y : Typing) : Prop :=
  y.tty.input.count = inputCapacity ∧ ∃ front pre rest, y.completed = front ++ [pre ++ rest] ∧
    rest ≠ [] ∧ y.stream = front.flatten ++ pre

structure Typing.Sound (y : Typing) : Prop where
  canonical : flag y.tty.termios.lflag lflagIcanon = true
  bounded : y.tty.input.count ≤ inputCapacity
  lines : y.tty.lineReady = false ∧ y.Whole ∨ y.Cut

open Typing (stream Whole Sound)

theorem Typing.Cut.not_whole (h : y.Cut) : ¬ y.Whole := by
  obtain ⟨-, front, pre, rest, hlines, hne, hstream⟩ := h
  intro hw
  rw [Whole, hlines, hstream] at hw
  simp at hw
  exact hne hw

theorem Typing.Cut.not_inOrder (h : y.Cut) {z : Typing} (hs : z.stream = y.stream)
    (hc : z.completed = y.completed ++ [line]) : ¬ z.InOrder := by
  obtain ⟨-, front, pre, rest, hlines, hne, hstream⟩ := h
  have hpos := length_pos_iff.mpr hne
  have hlen := congrArg length hstream
  rw [← hs] at hlen
  rintro (hw | ⟨-, front', last, pre', hc', -, hs'⟩)
  · have := congrArg length hw
    simp [hc, hlines] at this hlen
    omega
  obtain ⟨hfront, -⟩ := append_inj' (hc.symm.trans hc') rfl
  have := congrArg length hs'
  simp [← hfront, hlines] at this hlen
  omega

theorem Typing.Sound.inOrder (h : y.Sound) : y.InOrder := by
  rcases h.lines with ⟨-, hw⟩ | ⟨hfull, front, pre, rest, hlines, -, hstream⟩
  · exact .inl hw
  · exact .inr ⟨hfull, front, _, pre, hlines, prefix_append .., hstream⟩

theorem publishLine_full (h : t.input.count = inputCapacity) :
    t.publishLine.2.input.contents = t.input.contents ∧ t.publishLine.2.input.count = inputCapacity ∧
      t.publishLine.2.termios = t.termios := by
  unfold Tty.publishLine
  split
  · exact ⟨rfl, h, rfl⟩
  obtain ⟨pre, rest, -, hcont, hcount, hle, -⟩ := pushAll_spec t.typed h.le
  have hpre : pre = [] := length_eq_zero_iff.mp (by omega)
  rw [hpre, append_nil] at hcont
  rw [hpre, length_nil, h] at hcount
  dsimp only
  split <;> exact ⟨hcont, hcount, rfl⟩

theorem publishLine_idle (h : t.lineReady = false) : t.publishLine.2 = t := by
  simp [Tty.publishLine, h]

theorem publishLine_spec (h : t.lineReady = true) (hr : t.input.count ≤ inputCapacity) :
    ∃ pre rest, t.typed = pre ++ rest ∧ t.publishLine.2.input.contents = t.input.contents ++ pre ∧
      t.publishLine.2.input.count ≤ inputCapacity ∧ t.publishLine.2.termios = t.termios ∧
      (rest = [] ∧ t.publishLine.2.lineReady = false ∨ rest ≠ [] ∧ t.publishLine.2.input.count =
        inputCapacity) := by
  obtain ⟨pre, rest, htyped, hcont, -, hle, hend⟩ := pushAll_spec t.typed hr
  refine ⟨pre, rest, htyped, ?_⟩
  unfold Tty.publishLine
  rw [if_neg (by rw [h]; decide)]
  dsimp only
  rcases hend with ⟨hok, hrest⟩ | ⟨hfail, hrest, hfull⟩
  · rw [if_pos hok]
    exact ⟨hcont, hle, rfl, .inl ⟨hrest, rfl⟩⟩
  · rw [if_neg (by rw [hfail]; decide)]
    exact ⟨hcont, hle, rfl, .inr ⟨hrest, hfull⟩⟩

theorem inputChar_canonical (h : flag t.termios.lflag lflagIcanon = true) (c : Byte) :
    t.inputChar c = if (t.pushCanonical c).1 = true ∧ (t.pushCanonical c).2.lineReady = true then
        (t.pushCanonical c).2.publishLine.2
      else (t.pushCanonical c).2 := by
  unfold Tty.inputChar
  rw [if_pos h]
  dsimp only
  cases (t.pushCanonical c).1 <;> cases (t.pushCanonical c).2.lineReady <;> rfl

theorem input_sound_of_whole (h : y.Sound) (hr : y.tty.lineReady = false) (hw : y.Whole)
    (c : Byte) :
    (typingStep y (.input c)).Sound := by
  have hed := pushCanonical_edited y.tty c
  have hcan : flag (y.tty.pushCanonical c).2.termios.lflag lflagIcanon = true :=
    by rw [hed.termios]; exact h.canonical
  have hstep : (typingStep y (.input c)).tty = y.tty.inputChar c := rfl
  rw [inputChar_canonical h.canonical] at hstep
  by_cases hcomp : (y.tty.pushCanonical c).1 = true ∧ (y.tty.pushCanonical c).2.lineReady = true
  · rw [if_pos hcomp] at hstep
    have hlines : (typingStep y (.input c)).completed = y.completed ++
        [(y.tty.pushCanonical c).2.typed] :=
      if_pos ⟨hr, hcomp⟩
    obtain ⟨pre, rest, htyped, hcont, hle, hterm, hend⟩ :=
      publishLine_spec hcomp.2 (by rw [hed.input]; exact h.bounded)
    have hstream : (typingStep y (.input c)).stream = y.completed.flatten ++ pre := by
      unfold Whole stream at hw
      unfold stream
      rw [hstep, hcont, hed.input, ← append_assoc, ← hw]
      rfl
    refine ⟨by rw [hstep, hterm]; exact hcan, by rw [hstep]; exact hle, ?_⟩
    rcases hend with ⟨hrest, hready⟩ | ⟨hrest, hfull⟩
    · refine .inl ⟨by rw [hstep]; exact hready, ?_⟩
      rw [Whole, hstream, hlines, htyped, hrest]
      simp
    · exact .inr ⟨by
        rw [hstep]; exact hfull, y.completed, pre, rest, by rw [hlines, htyped], hrest, hstream⟩
  · rw [if_neg hcomp] at hstep
    have hlines : (typingStep y (.input c)).completed = y.completed := if_neg fun h0 => hcomp h0.2
    have hready : (y.tty.pushCanonical c).2.lineReady = false := by
      cases hok : (y.tty.pushCanonical c).1 with
      | false => rw [pushCanonical_refused hok]; exact hr
      | true => exact Bool.eq_false_of_not_eq_true fun h0 => hcomp ⟨hok, h0⟩
    refine ⟨by rw [hstep]; exact hcan, by rw [hstep, hed.input]; exact h.bounded, .inl ⟨by rw [hstep]; exact hready, ?_⟩⟩
    unfold Whole stream at *
    rw [hstep, hed.input, hlines]
    exact hw

theorem input_of_cut (h : y.Sound) (hc : y.Cut) (c : Byte) :
    (typingStep y (.input c)).tty.input.count = inputCapacity ∧ (typingStep y (.input c)).stream =
      y.stream ∧
      (typingStep y (.input c)).tty.termios = y.tty.termios := by
  have hed := pushCanonical_edited y.tty c
  have hfull : (y.tty.pushCanonical c).2.input.count = inputCapacity := by rw [hed.input]; exact hc.1
  have hstep : (typingStep y (.input c)).tty = y.tty.inputChar c := rfl
  rw [inputChar_canonical h.canonical] at hstep
  unfold stream
  rw [hstep]
  split
  · obtain ⟨h1, h2, h3⟩ := publishLine_full hfull
    exact ⟨h2, by rw [h1, hed.input]; rfl, h3.trans hed.termios⟩
  · exact ⟨hfull, by rw [hed.input]; rfl, hed.termios⟩

theorem read_idle (hcan : flag y.tty.termios.lflag lflagIcanon = true)
    (hr : y.tty.lineReady = false) (len : Nat) :
    ∃ bytes input,
      typingStep y (.read len) = { y with tty := { y.tty with input := input }, delivered :=
        y.delivered ++ bytes } ∧
      bytes ++ input.contents = y.tty.input.contents ∧ input.count ≤ y.tty.input.count := by
  have hread : ∃ bytes input, (y.tty.read len).1.2 = bytes ∧
    (y.tty.read len).2 = { y.tty with input := input } ∧
      bytes ++ input.contents = y.tty.input.contents ∧ input.count ≤ y.tty.input.count := by
    unfold Tty.read
    rw [if_pos hcan, publishLine_idle hr]
    dsimp only
    split
    · exact ⟨[], y.tty.input, rfl, rfl, rfl, le_rfl⟩
    split
    · exact ⟨[], y.tty.input, rfl, rfl, rfl, le_rfl⟩
    · obtain ⟨h1, h2, -⟩ := @drain_spec y.tty.input len
      exact ⟨_, _, rfl, rfl, h1, by omega⟩
  obtain ⟨bytes, input, hbytes, htty, hrest⟩ := hread
  refine ⟨bytes, input, ?_, hrest⟩
  simp only [typingStep, hbytes, htty]

theorem read_sound_of_whole (h : y.Sound) (hr : y.tty.lineReady = false) (hw : y.Whole)
    (len : Nat) :
    (typingStep y (.read len)).Sound := by
  obtain ⟨bytes, input, hstep, hcont, hcount⟩ := read_idle h.canonical hr len
  rw [hstep]
  refine ⟨h.canonical, hcount.trans h.bounded, .inl ⟨hr, ?_⟩⟩
  unfold Whole stream at *
  dsimp only
  rw [append_assoc, hcont]
  exact hw

theorem read_of_cut (h : y.Sound) (hc : y.Cut) (hlen : len ≠ 0) :
    ¬ (typingStep y (.read len)).InOrder := by
  obtain ⟨h1, h2, -⟩ := publishLine_full hc.1
  obtain ⟨h3, h4, h5⟩ := @drain_spec y.tty.publishLine.2.input len
  have hne : y.tty.publishLine.2.input.count ≠ 0 := by rw [h2]; decide
  have hread : y.tty.read len = ((((y.tty.publishLine.2.input.drain len).1.length : Int),
      (y.tty.publishLine.2.input.drain len).1),
      { y.tty.publishLine.2 with input := (y.tty.publishLine.2.input.drain len).2 }) := by
    unfold Tty.read
    rw [if_neg hlen, if_pos h.canonical]
    exact if_neg hne
  have hstream : (typingStep y (.read len)).stream = y.stream := by
    unfold stream
    simp only [typingStep, hread]
    rw [append_assoc, h3, h1]
  have hbytes := length_pos_iff.mpr (h5 hlen hne)
  rintro (hw | ⟨hfull, -⟩)
  · exact hc.not_whole (hstream.symm.trans hw)
  · simp only [typingStep, hread] at hfull
    omega

theorem typingStep_iff (h : y.Sound) (op : TtyOp) : (typingStep y op).InOrder ↔ Unhurried y op := by
  rcases h.lines with ⟨hr, hw⟩ | hc
  · cases op with
    | input c => exact iff_of_true (input_sound_of_whole h hr hw c).inOrder (.inl hw)
    | read len => exact iff_of_true (read_sound_of_whole h hr hw len).inOrder (.inl hw)
  cases op with
  | input c =>
    obtain ⟨hfull, hstream, -⟩ := input_of_cut h hc c
    by_cases hcomp : y.Completes c
    · refine iff_of_false (hc.not_inOrder hstream (if_pos hcomp)) ?_
      rintro (hw | hn)
      · exact hc.not_whole hw
      · exact hn hcomp
    · obtain ⟨-, front, pre, rest, hlines, hne, hcut⟩ := hc
      refine iff_of_true (.inr ⟨hfull, front, _, pre, (if_neg hcomp).trans hlines, prefix_append ..,
        ?_⟩) (.inr hcomp)
      exact hstream.trans hcut
  | read len =>
    by_cases hlen : len = 0
    · have hsame : typingStep y (.read len) = y := by
        simp [typingStep, Tty.read, hlen]
      rw [hsame]
      exact iff_of_true h.inOrder (.inr hlen)
    · refine iff_of_false (read_of_cut h hc hlen) ?_
      rintro (hw | h0)
      · exact hc.not_whole hw
      · exact hlen h0

theorem typingStep_sound (h : y.Sound) (hop : Unhurried y op) : (typingStep y op).Sound := by
  rcases h.lines with ⟨hr, hw⟩ | hc
  · cases op with
    | input c => exact input_sound_of_whole h hr hw c
    | read len => exact read_sound_of_whole h hr hw len
  cases op with
  | input c =>
    have hcomp : ¬ y.Completes c := hop.resolve_left hc.not_whole
    obtain ⟨hfull, hstream, hterm⟩ := input_of_cut h hc c
    refine ⟨by rw [hterm]; exact h.canonical, hfull.le, .inr ⟨hfull, ?_⟩⟩
    obtain ⟨-, front, pre, rest, hlines, hne, hcut⟩ := hc
    exact ⟨front, pre, rest, (if_neg hcomp).trans hlines, hne, hstream.trans hcut⟩
  | read len =>
    have hlen : len = 0 := hop.resolve_left hc.not_whole
    have hsame : typingStep y (.read len) = y := by
      simp [typingStep, Tty.read, hlen]
    rw [hsame]
    exact h

structure Tty.Idle (t : Tty) : Prop where
  canonical : flag t.termios.lflag lflagIcanon = true
  empty : t.input.count = 0
  notReady : t.lineReady = false

theorem Tty.Idle.sound (h : t.Idle) : Sound { tty := t } where
  canonical := h.canonical
  bounded := by rw [h.empty]; exact Nat.zero_le _
  lines := .inl ⟨h.notReady, length_eq_zero_iff.mp (length_contents_ring.trans h.empty)⟩

theorem lines_delivered_iff (t : Tty) (ht : t.Idle) (ops : List TtyOp) :
    Along typingStep (fun y op => (typingStep y op).InOrder) { tty := t } ops ↔
      Along typingStep Unhurried { tty := t } ops :=
  Along.congr (I := Sound) (fun _ op h => typingStep_iff h op)
    (fun _ op h hop => typingStep_sound h ((typingStep_iff h op).mp hop)) ops ht.sound

theorem ttyInit_idle : ttyInit.Idle := ⟨by decide, rfl, rfl⟩

theorem lines_delivered_init :
    Along typingStep (fun y op => (typingStep y op).InOrder) { tty := ttyInit } [.input newline,
      .read 1] ↔
      Along typingStep Unhurried { tty := ttyInit } [.input newline, .read 1] :=
  lines_delivered_iff ttyInit ttyInit_idle _

structure Editor where
  line : List Byte := []
  published : List (List Byte) := []

def Editor.key (e : Editor) (c : Byte) : Editor :=
  if c = 3 ∨ c = 26 ∨ c = 17 ∨ c = 19 then e
  else if c = 4 then { line := [], published := e.published ++ [e.line] }
  else if c = 127 then { e with line := e.line.dropLast }
  else if c = 21 then { e with line := [] }
  else if c = newline then { line := [], published := e.published ++ [e.line ++ [c]] }
  else if e.line.length + 1 < lineCapacity then { e with line := e.line ++ [c] }
  else e

def Editor.type (e : Editor) (c : Byte) : Editor :=
    e.key (if c = carriageReturn then newline else c)

def editStep (x : Typing × Editor) (op : TtyOp) : Typing × Editor :=
  (typingStep x.1 op,
    match op with
    | .input c => x.2.type c
    | .read _ => x.2)

/-- The ring is not full after the step. -/
def LeavesRoom (x : Typing × Editor) (op : TtyOp) : Prop :=
    (typingStep x.1 op).tty.input.count < inputCapacity

def Agree (x : Typing × Editor) : Prop :=
    x.2 = { line := x.1.tty.typed, published := x.1.completed }

def Editable (x : Typing × Editor) : TtyOp → Prop
  | .input c =>
    x.1.tty.verase = 127 ∧ (c = newline ∨ c = carriageReturn → x.1.tty.lineLen + 1 < lineCapacity)
  | .read _ => True

variable {c : Byte} {e : Editor} {x : Typing × Editor}

structure Tty.Default (t : Tty) : Prop where
  termios : t.termios = ttyInit.termios
  winsz : t.winsz = ttyInit.winsz
  erase : t.line 77 = 127

theorem Tty.Default.keys (h : t.Default) : t.vintr = 3 ∧ t.vsusp = 26 ∧ t.veof = 4 ∧
    t.verase = 127 ∧ t.vkill = 21 ∧
    t.vstart = 17 ∧ t.vstop = 19 := by
  refine ⟨?_, ?_, ?_, h.erase, ?_, ?_, ?_⟩
  · exact congrArg (fun m => m.cc 3) h.termios
  · exact congrArg (fun w => w 6) h.winsz
  · exact congrArg (fun m => m.cc 4) h.termios
  · exact congrArg (fun w => w 1) h.winsz
  · exact congrArg (fun m => m.cc 17) h.termios
  · exact congrArg (fun m => m.cc 19) h.termios

theorem echoChar_fields (c : Byte) : (t.echoChar c).line = t.line ∧ (t.echoChar c).lineLen =
    t.lineLen ∧
    (t.echoChar c).lineReady = t.lineReady := by
  unfold Tty.echoChar Tty.outputChar Tty.outputRaw
  split
  · exact ⟨rfl, rfl, rfl⟩
  all_goals (repeat' split) <;> exact ⟨rfl, rfl, rfl⟩

theorem append_fields (h : t.lineLen + 1 < lineCapacity) (c : Byte) : (t.append c).1 = true ∧
      (t.append c).2.line = update (update t.line t.lineLen c) (t.lineLen + 1) 0 ∧
      (t.append c).2.lineLen = t.lineLen + 1 ∧ (t.append c).2.lineReady =
        (t.lineReady || c == newline) := by
  unfold Tty.append
  rw [if_neg (Nat.not_le.mpr h)]
  generalize hl : update (update t.line t.lineLen c) (t.lineLen + 1) 0 = line
  obtain ⟨h1, h2, h3⟩ := @echoChar_fields (t.setLine line (t.lineLen + 1)) c
  dsimp only
  by_cases hc : c = newline
  · rw [if_pos hc, hc, beq_self_eq_true, Bool.or_true]
    exact ⟨rfl, hc ▸ h1, hc ▸ h2, rfl⟩
  · rw [if_neg hc, beq_eq_false_iff_ne.mpr hc, Bool.or_false]
    exact ⟨rfl, h1, h2, h3⟩

theorem Tty.Default.pushCanonical_eq (h : t.Default) (c : Byte) :
    t.pushCanonical c = t.edit (if c = carriageReturn then newline else c) := by
  have htr : t.translate c = some (if c = carriageReturn then newline else c) := by
    unfold Tty.translate
    rw [h.termios]
    split
    · rfl
    · exact if_neg fun h0 => absurd h0.2 (by decide)
  rw [Tty.pushCanonical, htr]

theorem echoChar_typed (t : Tty) (c : Byte) : (t.echoChar c).typed = t.typed := by
  obtain ⟨hline, hlen, -⟩ := echoChar_fields (t := t) c
  rw [Tty.typed, hline, hlen, Tty.typed]

theorem eraseLast_typed (t : Tty) (c : Byte) :
    (t.eraseLast c).typed = t.typed.dropLast ∧ (t.eraseLast c).lineReady = t.lineReady := by
  unfold Tty.eraseLast
  split
  case isTrue hne =>
    refine ⟨(echoChar_typed ..).trans ?_, (echoChar_fields c).2.2⟩
    obtain ⟨n, hn⟩ := Nat.exists_eq_succ_of_ne_zero hne
    unfold Tty.typed
    rw [hn, range_succ, map_append, map_singleton, dropLast_concat]
    refine map_congr_left fun i hi => update_of_ne ?_ ..
    exact (mem_range.mp hi).ne
  case isFalse h0 =>
    refine ⟨?_, rfl⟩
    rw [Tty.typed, not_not.mp h0]
    rfl

theorem append_typed (h : t.lineLen + 1 < lineCapacity) (c : Byte) :
    (t.append c).2.typed = t.typed ++ [c] := by
  obtain ⟨-, hline, hlen, -⟩ := append_fields h c
  rw [Tty.typed, hline, hlen, range_succ, map_append, map_singleton,
    update_of_ne t.lineLen.lt_succ_self.ne, update_self, Tty.typed]
  congr 1
  refine map_congr_left fun i hi => ?_
  have hi := mem_range.mp hi
  rw [update_of_ne (by omega), update_of_ne (by omega)]

theorem Tty.Default.edit_spec (h : t.Default) (hr : t.lineReady = false)
    (hn : c = newline → t.lineLen + 1 < lineCapacity) (p : List (List Byte)) :
    Editor.key ⟨t.typed, p⟩ c =
      if (t.edit c).1 = true ∧ (t.edit c).2.lineReady = true then ⟨[], p ++ [(t.edit c).2.typed]⟩
      else ⟨(t.edit c).2.typed, p⟩ := by
  obtain ⟨hintr, hsusp, heof, herase, hkill, hstart, hstop⟩ := h.keys
  have hno : ∀ {b : Bool} {t' : Tty}, t'.lineReady = t.lineReady →
      ¬ (b = true ∧ t'.lineReady = true) := by
    intro b t' h' h0
    exact absurd (hr.symm.trans (h'.symm.trans h0.2)) (by decide)
  have hsig : ∀ n, (if flag t.termios.lflag lflagIsig then t.signal n else t).typed = t.typed ∧
      (if flag t.termios.lflag lflagIsig then t.signal n else t).lineReady = t.lineReady := by
    intro n
    split <;> exact ⟨rfl, rfl⟩
  unfold Tty.edit Editor.key
  rw [hintr, hsusp, heof, herase, hkill, hstart, hstop]
  by_cases h3 : c = 3
  · rw [if_pos (.inl h3), if_pos h3, if_neg (hno (hsig 2).2), (hsig 2).1]
  by_cases h26 : c = 26
  · rw [if_pos (.inr (.inl h26)), if_neg h3, if_pos h26, if_neg (hno (hsig 20).2), (hsig 20).1]
  by_cases hflow : c = 17 ∨ c = 19
  · rcases hflow with rfl | rfl <;> exact (if_neg (hno rfl)).symm
  have hkeep : ¬ (c = 3 ∨ c = 26 ∨ c = 17 ∨ c = 19) := by tauto
  rw [if_neg hkeep, if_neg h3, if_neg h26]
  by_cases h4 : c = 4
  · rw [if_pos h4, if_pos h4]
    rfl
  by_cases h127 : c = 127
  · obtain ⟨htyped, hready⟩ := eraseLast_typed t c
    rw [if_neg h4, if_pos h127, if_neg h4, if_pos h127, if_neg (hno hready), htyped]
  by_cases h21 : c = 21
  · have hkill : t.killLine.typed = [] ∧ t.killLine.lineReady = t.lineReady := by
      unfold Tty.killLine
      dsimp only
      split <;> exact ⟨rfl, rfl⟩
    rw [if_neg h4, if_neg h127, if_pos h21, if_neg h4, if_neg h127, if_pos h21,
      if_neg (hno hkill.2), hkill.1]
  have hstrip : flag t.termios.iflag iflagIstrip = false := by rw [h.termios]; decide
  rw [if_neg h4, if_neg h127, if_neg h21, if_neg h4, if_neg h127, if_neg h21, if_neg hflow, hstrip,
    if_neg Bool.false_ne_true]
  have hlen : t.typed.length = t.lineLen := by rw [Tty.typed, length_map, length_range]
  by_cases hfit : t.lineLen + 1 < lineCapacity
  · obtain ⟨hok, -, -, hready⟩ := append_fields hfit c
    rw [hok, hready, hr, append_typed hfit]
    by_cases hnl : c = newline
    · rw [if_pos hnl, if_pos ⟨rfl, by simpa using hnl⟩]
    · rw [if_neg hnl, hlen, if_pos hfit, if_neg (by simpa using hnl)]
  · rw [if_neg fun hnl => hfit (hn hnl), hlen, if_neg hfit, Tty.append, if_pos (Nat.not_lt.mp hfit),
      if_neg (hno rfl)]

theorem publishLine_done (h : t.lineReady = true) (hdone : t.publishLine.2.lineReady = false) :
    t.publishLine.2.typed = [] ∧ t.publishLine.2.winsz = t.winsz := by
  revert hdone
  unfold Tty.publishLine
  rw [if_neg (by rw [h]; decide)]
  dsimp only
  split
  · exact fun _ => ⟨rfl, rfl⟩
  · exact fun h0 => absurd (h.symm.trans h0) (by decide)

structure Editing (x : Typing × Editor) : Prop where
  agree : Agree x
  termios : x.1.tty.termios = ttyInit.termios
  winsz : x.1.tty.winsz = ttyInit.winsz
  idle : x.1.tty.lineReady = false
  bounded : x.1.tty.input.count ≤ inputCapacity

theorem Editing.type_eq (h : Editing x) (hedit : Editable x (.input c)) :
    x.2.type c = if (x.1.tty.pushCanonical c).1 = true ∧ (x.1.tty.pushCanonical c).2.lineReady =
      true then
        ⟨[], (typingStep x.1 (.input c)).completed⟩
      else ⟨(x.1.tty.pushCanonical c).2.typed, (typingStep x.1 (.input c)).completed⟩ := by
  have hd : x.1.tty.Default := ⟨h.termios, h.winsz, hedit.1⟩
  have hnl : (if c = carriageReturn then newline else c) = newline →
      x.1.tty.lineLen + 1 < lineCapacity := by
    intro h0
    split at h0
    case isTrue hc => exact hedit.2 (.inr hc)
    case isFalse => exact hedit.2 (.inl h0)
  have hkey := hd.edit_spec h.idle hnl x.1.completed
  rw [← hd.pushCanonical_eq] at hkey
  unfold Editor.type
  rw [h.agree, hkey]
  split
  case isTrue hdone => exact congrArg (Editor.mk _) (if_pos ⟨h.idle, hdone⟩).symm
  case isFalse hdone => exact congrArg (Editor.mk _) (if_neg fun h0 => hdone h0.2).symm

theorem Editing.input (h : Editing x) (hroom : LeavesRoom x (.input c))
    (hedit : Editable x (.input c)) :
    Editing (editStep x (.input c)) := by
  have htype := h.type_eq hedit
  have hed := pushCanonical_edited x.1.tty c
  have htty := inputChar_canonical (t := x.1.tty) (by rw [h.termios]; decide) c
  have hroom : (x.1.tty.inputChar c).input.count < inputCapacity := hroom
  by_cases hdone : (x.1.tty.pushCanonical c).1 = true ∧ (x.1.tty.pushCanonical c).2.lineReady = true
  · rw [if_pos hdone] at htty htype
    obtain ⟨_, _, -, -, hle, hterm, hend⟩ :=
      publishLine_spec hdone.2 (by rw [hed.input]; exact h.bounded)
    rw [← htty] at hle hterm hend
    have hready : (x.1.tty.inputChar c).lineReady = false := by
      rcases hend with ⟨-, hready⟩ | ⟨-, hfull⟩
      · exact hready
      · exact absurd hfull hroom.ne
    obtain ⟨htyped, hwinsz⟩ := publishLine_done hdone.2 (htty ▸ hready)
    rw [← htty] at htyped hwinsz
    exact ⟨htype.trans (congrArg (Editor.mk · _) htyped.symm), hterm.trans (hed.termios.trans h.termios),
      hwinsz.trans (hed.winsz.trans h.winsz), hready, hle⟩
  · rw [if_neg hdone] at htty htype
    have hready : (x.1.tty.inputChar c).lineReady = false := by
      rw [htty]
      cases hok : (x.1.tty.pushCanonical c).1 with
      | false => rw [pushCanonical_refused hok, h.idle]
      | true => exact Bool.eq_false_iff.mpr fun h0 => hdone ⟨hok, h0⟩
    rw [← htty] at htype hed
    exact ⟨htype, hed.termios.trans h.termios, hed.winsz.trans h.winsz, hready, hed.input ▸ h.bounded⟩

theorem Editing.step (h : Editing x) (hroom : LeavesRoom x op) (hedit : Editable x op) :
    Editing (editStep x op) := by
  cases op with
  | input c => exact h.input hroom hedit
  | read len =>
    obtain ⟨bytes, input, hstep, -, hcount⟩ :=
      read_idle (y := x.1) (by rw [h.termios]; decide) h.idle len
    unfold editStep
    rw [hstep]
    exact ⟨h.agree, h.termios, h.winsz, h.idle, hcount.trans h.bounded⟩

theorem editing_init : Editing ({ tty := ttyInit }, {}) := ⟨rfl, rfl, rfl, rfl, Nat.zero_le _⟩

instance (x : Typing × Editor) (op : TtyOp) : Decidable (LeavesRoom x op) := Nat.decLt ..

instance (x : Typing × Editor) : ∀ op, Decidable (Editable x op)
  | .input _ => inferInstanceAs (Decidable (_ ∧ (_ → _)))
  | .read _ => .isTrue trivial

theorem edit_erase (h : t.lineLen < 76) (c : Byte) : (t.edit c).2.line 77 = t.line 77 := by
  unfold Tty.edit
  split
  · split <;> rfl
  split
  · split <;> rfl
  split
  · rfl
  split
  · unfold Tty.eraseLast
    split
    · rw [(echoChar_fields c).1]
      exact update_of_ne (by omega) ..
    · rfl
  split
  · unfold Tty.killLine
    dsimp only
    split <;> rfl
  split
  · rfl
  · rw [(append_fields (by rw [lineCapacity]; omega) _).2.1, update_of_ne (by omega),
      update_of_ne (by omega)]

structure Typing.Unread (y : Typing) (e : Editor) : Prop where
  sound : y.Sound
  whole : y.Whole
  editing : Editing (y, e)
  erase : y.tty.line 77 = 127
  delivered : y.delivered = []

theorem Typing.Unread.short (h : y.Unread e) (hlen : e.line.length < 76) : y.tty.lineLen < 76 := by
  have hagree : e = ⟨y.tty.typed, y.completed⟩ := h.editing.agree
  rwa [hagree, Tty.typed, length_map, length_range] at hlen

theorem Typing.Unread.editable (h : y.Unread e) (hlen : e.line.length < 76) (c : Byte) :
    Editable (y, e) (.input c) :=
  ⟨h.erase, fun _ => (Nat.succ_lt_succ (h.short hlen)).trans (by decide)⟩

theorem Typing.Unread.published (h : y.Unread e) (hlen : e.line.length < 76) (c : Byte) :
    (e.type c).published = (typingStep y (.input c)).completed := by
  have htype : e.type c = _ := h.editing.type_eq (h.editable hlen c)
  rw [htype]
  split <;> rfl

theorem Typing.Unread.stream_length (h : y.Unread e) (c : Byte) :
    (typingStep y (.input c)).stream.length = (typingStep y (.input c)).tty.input.count := by
  have hdel : (typingStep y (.input c)).delivered = [] := h.delivered
  rw [stream, hdel, nil_append, length_contents_ring]

theorem Typing.Unread.input (h : y.Unread e) (c : Byte) (hlen : e.line.length < 76)
    (hfit : (e.type c).published.flatten.length < inputCapacity) : (typingStep y (.input c)).Unread
      (e.type c) := by
  have hsound := input_sound_of_whole h.sound h.editing.idle h.whole c
  have hcount := h.stream_length c
  have hd : y.tty.Default := ⟨h.editing.termios, h.editing.winsz, h.erase⟩
  have hed := h.editable hlen c
  rw [h.published hlen] at hfit
  have hwhole : (typingStep y (.input c)).Whole := by
    rcases hsound.lines with ⟨-, hw⟩ | ⟨hfull, front, pre, rest, hlines, hne, hstream⟩
    · exact hw
    · rw [hstream, hfull] at hcount
      rw [hlines] at hfit
      simp only [flatten_append, flatten_cons, flatten_nil, length_append] at hcount hfit
      omega
  rw [hwhole] at hcount
  refine ⟨hsound, hwhole, h.editing.step (hcount.ge.trans_lt hfit) hed, ?_, h.delivered⟩
  have herase : (y.tty.pushCanonical c).2.line 77 = 127 := by
    rw [hd.pushCanonical_eq]
    exact (edit_erase (h.short hlen) _).trans h.erase
  have htty : (typingStep y (.input c)).tty = _ := inputChar_canonical h.sound.canonical c
  rw [htty]
  split
  · unfold Tty.publishLine
    dsimp only
    split
    · exact herase
    · split <;> exact herase
  · exact herase

theorem Typing.Unread.not_whole (h : y.Unread e) (c : Byte) (hlen : e.line.length < 76)
    (hfit : inputCapacity < (e.type c).published.flatten.length) :
      ¬ (typingStep y (.input c)).Whole := by
  intro hw
  have hcount := h.stream_length c
  have hbound := (input_sound_of_whole h.sound h.editing.idle h.whole c).bounded
  rw [hw, ← h.published hlen] at hcount
  omega

theorem unread_newlines (hn : n < inputCapacity) :
    (runFrom typingStep { tty := ttyInit } (replicate n (.input newline))).Unread
      ⟨[], replicate n [newline]⟩ := by
  induction n with
  | zero => exact ⟨ttyInit_idle.sound, rfl, editing_init, rfl, rfl⟩
  | succ n ih =>
    have hrun : runFrom typingStep { tty := ttyInit } (replicate (n + 1) (.input newline)) =
        typingStep (runFrom typingStep { tty := ttyInit } (replicate n (.input newline)))
          (.input newline) := by
      unfold runFrom
      rw [replicate_succ', foldl_append]
      rfl
    have htype : Editor.type ⟨[], replicate n [newline]⟩ newline = ⟨[], replicate (n + 1) [newline]⟩ :=
      congrArg (Editor.mk []) replicate_succ'.symm
    rw [hrun, ← htype]
    refine (ih (by omega)).input newline (Nat.zero_lt_succ _) ?_
    rw [htype]
    simpa using hn

theorem line_delivered_twice : ¬ Along typingStep (fun y op => (typingStep y op).InOrder)
    { tty := ttyInit }
    (replicate 4095 (.input newline) ++ [.input 97, .input newline, .read 4096, .read 4096]) := by
  intro hrun
  obtain ⟨-, -, -, hread, -⟩ := Along.append_iff.mp hrun
  have hbytes : (replicate 4095 [newline]).flatten.length = 4095 :=
    by rw [flatten_replicate_singleton, length_replicate]
  have hchar := (unread_newlines (n := 4095) (by decide)).input 97 (Nat.zero_lt_succ _)
    (hbytes.trans_lt (by decide))
  have hsound := input_sound_of_whole hchar.sound hchar.editing.idle hchar.whole newline
  rcases (typingStep_iff hsound _).mp hread with hw | h0
  · refine hchar.not_whole newline (by decide) ?_ hw
    show inputCapacity < (replicate 4095 [newline] ++ [[97, newline]]).flatten.length
    rw [flatten_append, length_append, hbytes]
    decide
  · exact absurd h0 (by decide)

end BlockOS.Kernel
