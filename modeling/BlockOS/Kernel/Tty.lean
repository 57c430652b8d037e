import BlockOS.Lib.Ring
import BlockOS.Lib.Words

/-! The console of `kernel/tty.cpp`. -/

namespace BlockOS.Kernel
open Words List Function

def inputCapacity : Nat := 4096
def lineCapacity : Nat := 4096

structure RingBuffer where
  buffer : Nat → Byte := fun _ => 0
  head : Nat := 0
  tail : Nat := 0
  count : Nat := 0
  placed : head = (tail + count) % inputCapacity := by rfl
  inside : tail < inputCapacity := by decide

def RingBuffer.push (r : RingBuffer) (value : Byte) : Bool × RingBuffer :=
  if r.count ≥ inputCapacity then (false, r)
  else
    (true, {
      buffer := update r.buffer r.head value
      head := (r.head + 1) % inputCapacity
      tail := r.tail
      count := r.count + 1
      placed := by rw [r.placed, Nat.mod_add_mod, Nat.add_assoc]
      inside := r.inside })

def RingBuffer.pop (r : RingBuffer) : Option Byte × RingBuffer :=
  if h : r.count = 0 then (none, r)
  else
    (some (r.buffer r.tail), {
      buffer := r.buffer
      head := r.head
      tail := (r.tail + 1) % inputCapacity
      count := r.count - 1
      placed := by rw [r.placed, Nat.mod_add_mod]; congr 1; omega
      inside := Nat.mod_lt _ (by decide) })

def RingBuffer.contents (r : RingBuffer) : List Byte :=
  Ring.contents inputCapacity { cells := r.buffer, head := r.tail, size := r.count }

structure Termios where
  iflag : BitVec 32
  oflag : BitVec 32
  lflag : BitVec 32
  cc : Nat → Byte

structure Tty where
  input : RingBuffer := {}
  termios : Termios
  winsz : Nat → Byte
  nonblock : Bool := false
  line : Nat → Byte := fun _ => 0
  lineLen : Nat := 0
  lineReady : Bool := false
  output : List Byte := []
  signals : List Nat := []

def lflagEcho : BitVec 32 := 1
def lflagEchoe : BitVec 32 := 2
def lflagEchok : BitVec 32 := 4
def lflagIcanon : BitVec 32 := 8
def lflagIsig : BitVec 32 := 16
def lflagIexten : BitVec 32 := 32
def iflagIcrnl : BitVec 32 := 1
def iflagInlcr : BitVec 32 := 2
def iflagIgncr : BitVec 32 := 4
def iflagIstrip : BitVec 32 := 8
def oflagOpost : BitVec 32 := 1
def oflagOnlcr : BitVec 32 := 2

def newline : Byte := 10
def carriageReturn : Byte := 13

def flag (flags mask : BitVec 32) : Bool := flags &&& mask != 0

def Tty.cc (t : Tty) (i : Nat) : Byte :=
  if i < 20 then t.termios.cc i
  else if i < 28 then t.winsz (i - 20)
  else t.line (i - 50)

def Tty.vintr (t : Tty) : Byte := t.cc 3
def Tty.veof (t : Tty) : Byte := t.cc 4
def Tty.verase (t : Tty) : Byte := t.cc 127
def Tty.vkill (t : Tty) : Byte := t.cc 21
def Tty.vstart (t : Tty) : Byte := t.cc 17
def Tty.vstop (t : Tty) : Byte := t.cc 19
def Tty.vsusp (t : Tty) : Byte := t.cc 26

def Tty.outputRaw (t : Tty) (data : List Byte) : Tty := { t with output := t.output ++ data }

def Tty.outputChar (t : Tty) (c : Byte) : Tty :=
  if flag t.termios.oflag oflagOpost && flag t.termios.oflag oflagOnlcr && c == newline then
    t.outputRaw [carriageReturn, newline]
  else t.outputRaw [c]

def Tty.echoChar (t : Tty) (c : Byte) : Tty :=
  if !flag t.termios.lflag lflagEcho then t
  else if c = newline ∨ c = carriageReturn ∨ c = 9 then t.outputChar c
  else if c = 127 then
    if flag t.termios.lflag lflagEchoe then t.outputRaw [8, 32, 8] else t
  else if c < 0x20 then t.outputRaw [94, c + 64]
  else t.outputChar c

def Tty.signal (t : Tty) (n : Nat) : Tty := { t with signals := t.signals ++ [n] }

def Tty.translate (t : Tty) (c : Byte) : Option Byte :=
  if c = carriageReturn then
    if flag t.termios.iflag iflagIcrnl then some newline
    else if flag t.termios.iflag iflagIgncr then none
    else some c
  else if c = newline ∧ flag t.termios.iflag iflagInlcr then some carriageReturn
  else some c

def Tty.setLine (t : Tty) (line : Nat → Byte) (lineLen : Nat) : Tty :=
    { t with line := line, lineLen := lineLen }

def Tty.eraseLast (t : Tty) (c : Byte) : Tty :=
  if t.lineLen ≠ 0 then (t.setLine (update t.line (t.lineLen - 1) 0) (t.lineLen - 1)).echoChar c else t

def Tty.killLine (t : Tty) : Tty :=
  let t := t.setLine (update t.line 0 0) 0
  if flag t.termios.lflag lflagEchok then t.outputRaw [carriageReturn, newline] else t

def Tty.makeReady (t : Tty) : Tty := { t with lineReady := true }

def Tty.append (t : Tty) (c : Byte) : Bool × Tty :=
  if t.lineLen + 1 ≥ lineCapacity then (false, t)
  else
    let line := update (update t.line t.lineLen c) (t.lineLen + 1) 0
    let t := (t.setLine line (t.lineLen + 1)).echoChar c
    (true, if c = newline then t.makeReady else t)

def Tty.edit (t : Tty) (c : Byte) : Bool × Tty :=
  if c = t.vintr then (true, if flag t.termios.lflag lflagIsig then t.signal 2 else t)
  else if c = t.vsusp then (true, if flag t.termios.lflag lflagIsig then t.signal 20 else t)
  else if c = t.veof then (true, t.makeReady)
  else if c = t.verase then (true, t.eraseLast c)
  else if c = t.vkill then (true, t.killLine)
  else if c = t.vstart ∨ c = t.vstop then (true, t)
  else t.append (if flag t.termios.iflag iflagIstrip then c &&& 0x7f else c)

def Tty.pushCanonical (t : Tty) (c : Byte) : Bool × Tty :=
  match t.translate c with
  | none => (true, t)
  | some c => t.edit c

def Tty.typed (t : Tty) : List Byte := (List.range t.lineLen).map t.line

def RingBuffer.pushAll : RingBuffer → List Byte → Bool × RingBuffer
  | r, [] => (true, r)
  | r, c :: rest =>
    let p := r.push c
    if p.1 then p.2.pushAll rest else (false, p.2)

def Tty.publishLine (t : Tty) : Bool × Tty :=
  if !t.lineReady then (false, t)
  else
    let r := t.input.pushAll t.typed
    if r.1 then
      (true, { t with input := r.2, lineLen := 0, line := update t.line 0 0, lineReady := false })
    else (false, { t with input := r.2 })

def RingBuffer.drain : Nat → RingBuffer → List Byte × RingBuffer
  | 0, r => ([], r)
  | n + 1, r =>
    match r.pop with
    | (none, r) => ([], r)
    | (some c, r) =>
      let rest := drain n r
      (c :: rest.1, rest.2)

def Tty.eagain : Int := -11

def Tty.read (t : Tty) (len : Nat) : (Int × List Byte) × Tty :=
  if len = 0 then ((0, []), t)
  else
    let t := if flag t.termios.lflag lflagIcanon then t.publishLine.2 else t
    if t.input.count = 0 then ((if t.nonblock then Tty.eagain else 0, []), t)
    else
      let r := t.input.drain len
      ((r.1.length, r.1), { t with input := r.2 })

def Tty.inputRaw (t : Tty) (c : Byte) : Tty :=
  match t.translate c with
  | none => t
  | some c =>
    let c := if flag t.termios.iflag iflagIstrip then c &&& 0x7f else c
    if c = t.vintr ∧ flag t.termios.lflag lflagIsig then t.signal 2
    else
      let p := t.input.push c
      if p.1 then ({ t with input := p.2 }).echoChar c else t

def Tty.inputChar (t : Tty) (c : Byte) : Tty :=
  if flag t.termios.lflag lflagIcanon then
    let r := t.pushCanonical c
    if !r.1 then r.2
    else if r.2.lineReady then r.2.publishLine.2
    else r.2
  else t.inputRaw c

def ttyInit : Tty where
  termios := {
    iflag := iflagIcrnl
    oflag := oflagOpost ||| oflagOnlcr
    lflag := lflagEcho ||| lflagEchoe ||| lflagEchok ||| lflagIcanon ||| lflagIsig ||| lflagIexten
    cc := fun i => if i = 3 ∨ i = 4 ∨ i = 17 ∨ i = 19 then BitVec.ofNat 8 i else 0 }
  winsz := fun i => [25, 21, 80, 0, 0, 0, 26, 0].getD i 0
  line := update (fun _ => 0) 77 127

variable {r : RingBuffer} {t : Tty}

theorem length_contents_ring : r.contents.length = r.count := Ring.length_contents _

theorem push_spec (h : r.count < inputCapacity) (c : Byte) :
    (r.push c).1 = true ∧ (r.push c).2.contents = r.contents ++ [c] ∧
      (r.push c).2.count = r.count + 1 := by
  unfold RingBuffer.push
  rw [if_neg (Nat.not_le.mpr h)]
  refine ⟨rfl, ?_, rfl⟩
  show Ring.contents inputCapacity { cells := update r.buffer r.head c, head := r.tail, size :=
    r.count + 1 } = r.contents ++ [c]
  rw [r.placed]
  exact Ring.contents_push { cells := r.buffer, head := r.tail, size := r.count } [c] h

theorem push_full (h : r.count = inputCapacity) (c : Byte) : r.push c = (false, r) := if_pos h.ge

theorem pushAll_spec (l : List Byte) (hr : r.count ≤ inputCapacity) :
    ∃ pre rest, l = pre ++ rest ∧ (r.pushAll l).2.contents = r.contents ++ pre ∧
      (r.pushAll l).2.count = r.count + pre.length ∧ (r.pushAll l).2.count ≤ inputCapacity ∧
      ((r.pushAll l).1 = true ∧ rest = [] ∨
        (r.pushAll l).1 = false ∧ rest ≠ [] ∧ (r.pushAll l).2.count = inputCapacity) := by
  induction l generalizing r with
  | nil => exact ⟨[], [], rfl, (append_nil _).symm, rfl, hr, .inl ⟨rfl, rfl⟩⟩
  | cons c l ih =>
    unfold RingBuffer.pushAll
    rcases Nat.lt_or_eq_of_le hr with hlt | hfull
    · obtain ⟨h1, h2, h3⟩ := push_spec hlt c
      obtain ⟨pre, rest, hl, hc, hn, hle, hend⟩ := @ih (r.push c).2 (by omega)
      dsimp only
      rw [if_pos h1]
      refine ⟨c :: pre, rest, by rw [hl, cons_append], ?_, ?_, hle, hend⟩
      · rw [hc, h2, append_assoc, singleton_append]
      · rw [hn, h3, length_cons]
        omega
    · rw [push_full hfull]
      exact ⟨[], c :: l, rfl, (append_nil _).symm, rfl, hr, .inr ⟨rfl, cons_ne_nil _ _, hfull⟩⟩

theorem pop_spec (h : r.count ≠ 0) :
    r.pop.1 = some (r.buffer r.tail) ∧ r.contents = r.buffer r.tail :: r.pop.2.contents ∧
      r.pop.2.count + 1 = r.count := by
  have hpos := Nat.one_le_iff_ne_zero.mpr h
  unfold RingBuffer.pop
  rw [dif_neg h]
  refine ⟨rfl, ?_, Nat.sub_add_cancel hpos⟩
  have hdrop := Ring.contents_drop (n := inputCapacity) { cells := r.buffer, head := r.tail, size :=
    r.count } hpos
  have hfront : Ring.front inputCapacity { cells := r.buffer, head := r.tail, size := r.count } 1 =
      [r.buffer r.tail] := by
    simp [Ring.front, Nat.mod_eq_of_lt r.inside]
  rw [hfront] at hdrop
  exact hdrop.symm

theorem drain_spec (n : Nat) : (r.drain n).1 ++ (r.drain n).2.contents = r.contents ∧
      (r.drain n).2.count + (r.drain n).1.length = r.count ∧
        (n ≠ 0 → r.count ≠ 0 → (r.drain n).1 ≠ []) := by
  induction n generalizing r with
  | zero => exact ⟨rfl, rfl, fun h0 => absurd rfl h0⟩
  | succ n ih =>
    unfold RingBuffer.drain
    by_cases h : r.count = 0
    · have hpop : r.pop = (none, r) := dif_pos h
      rw [hpop]
      exact ⟨rfl, rfl, fun _ h0 => absurd h h0⟩
    obtain ⟨h1, h2, h3⟩ := pop_spec h
    obtain ⟨h4, h5, -⟩ := @ih r.pop.2
    rw [show r.pop = (some (r.buffer r.tail), r.pop.2) from Prod.ext h1 rfl]
    dsimp only
    refine ⟨?_, ?_, fun _ _ => cons_ne_nil _ _⟩
    · rw [h2, ← h4]
      rfl
    · rw [← h3, ← h5, length_cons]
      omega

structure Edited (t t' : Tty) : Prop where
  input : t'.input = t.input
  termios : t'.termios = t.termios
  winsz : t'.winsz = t.winsz
  ready : t.lineReady = true → t'.lineReady = true

theorem Edited.refl (t : Tty) : Edited t t := ⟨rfl, rfl, rfl, id⟩

theorem Edited.trans (h : Edited t t') (h' : Edited t' t'') : Edited t t'' :=
  ⟨h'.input.trans h.input, h'.termios.trans h.termios, h'.winsz.trans h.winsz,
    fun h0 => h'.ready (h.ready h0)⟩

theorem outputRaw_edited (t : Tty) (data : List Byte) : Edited t (t.outputRaw data) :=
    ⟨rfl, rfl, rfl, id⟩

theorem outputChar_edited (t : Tty) (c : Byte) : Edited t (t.outputChar c) := by
  unfold Tty.outputChar
  split <;> exact outputRaw_edited ..

theorem echoChar_edited (t : Tty) (c : Byte) : Edited t (t.echoChar c) := by
  unfold Tty.echoChar
  split
  · exact .refl t
  split
  · exact outputChar_edited t c
  split
  · split
    · exact outputRaw_edited ..
    · exact .refl t
  split
  · exact outputRaw_edited ..
  · exact outputChar_edited t c

theorem setLine_edited (t : Tty) (line : Nat → Byte) (lineLen : Nat) :
    Edited t (t.setLine line lineLen) :=
  ⟨rfl, rfl, rfl, id⟩

theorem makeReady_edited (t : Tty) : Edited t t.makeReady := ⟨rfl, rfl, rfl, fun _ => rfl⟩

theorem eraseLast_edited (t : Tty) (c : Byte) : Edited t (t.eraseLast c) := by
  unfold Tty.eraseLast
  split
  · exact (setLine_edited ..).trans (echoChar_edited ..)
  · exact .refl t

theorem killLine_edited (t : Tty) : Edited t t.killLine := by
  unfold Tty.killLine
  dsimp only
  split
  · exact (setLine_edited ..).trans (outputRaw_edited ..)
  · exact setLine_edited ..

theorem append_edited (t : Tty) (c : Byte) : Edited t (t.append c).2 := by
  unfold Tty.append
  split
  · exact .refl t
  dsimp only
  split
  · exact ((setLine_edited ..).trans (echoChar_edited ..)).trans (makeReady_edited _)
  · exact (setLine_edited ..).trans (echoChar_edited ..)

theorem edit_edited (t : Tty) (c : Byte) : Edited t (t.edit c).2 := by
  have hsignal : ∀ n, Edited t (if flag t.termios.lflag lflagIsig then t.signal n else t) := by
    intro n
    split
    · exact ⟨rfl, rfl, rfl, id⟩
    · exact .refl t
  unfold Tty.edit
  split
  · exact hsignal 2
  split
  · exact hsignal 20
  split
  · exact makeReady_edited t
  split
  · exact eraseLast_edited t c
  split
  · exact killLine_edited t
  split
  · exact .refl t
  · exact append_edited ..

theorem pushCanonical_edited (t : Tty) (c : Byte) : Edited t (t.pushCanonical c).2 := by
  unfold Tty.pushCanonical
  split
  · exact .refl t
  · exact edit_edited t _

theorem pushCanonical_refused (h : (t.pushCanonical c).1 = false) : (t.pushCanonical c).2 = t := by
  unfold Tty.pushCanonical Tty.edit Tty.append at *
  split at h
  · cases h
  · grind

end BlockOS.Kernel
