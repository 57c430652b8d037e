import BlockOS.Kernel.Sockets
import BlockOS.Lib.Runs

/-! The bytes that go from one socket of a pair to the other. -/

namespace BlockOS.Kernel
open Words Runs List Function

inductive SockOp where
  | write (idx : Int) (src : List Byte)
  | writePartial (idx : Int) (src : List Byte)
  | read (idx : Int) (n : Nat)

def SockOp.idx : SockOp → Int
  | .write idx _ | .writePartial idx _ | .read idx _ => idx

def sockStep (socks : Nat → UnixSocket) : SockOp → (Nat → UnixSocket)
  | .write idx src => (socketWriteIdx idx src socks).2
  | .writePartial idx src => (socketWritePartial idx src socks).2
  | .read idx n => (socketReadIdx idx n socks).2

def SockOp.accepted (a : Int) (socks : Nat → UnixSocket) : SockOp → List Byte
  | .write idx src => if idx = a ∧ (socketWriteIdx idx src socks).1 = true then src else []
  | .writePartial idx src => if idx = a then src.take (socketWritePartial idx src socks).1 else []
  | .read _ _ => []

def SockOp.returned (b : Int) (socks : Nat → UnixSocket) : SockOp → List Byte
  | .read idx n => if idx = b then (socketReadIdx idx n socks).1 else []
  | _ => []

def accepted (a : Int) : (Nat → UnixSocket) → List SockOp → List Byte
  | _, [] => []
  | socks, op :: ops => op.accepted a socks ++ accepted a (sockStep socks op) ops

def returned (b : Int) : (Nat → UnixSocket) → List SockOp → List Byte
  | _, [] => []
  | socks, op :: ops => op.returned b socks ++ returned b (sockStep socks op) ops

def buffered (socks : Nat → UnixSocket) (b : Int) : List Byte :=
  (sockAt socks b).rx.contents socketBuffer

def UnixSocket.Fits (s : UnixSocket) : Prop := s.rx.head < socketBuffer ∧ s.rx.size ≤ socketBuffer

structure Paired (a b : Int) (socks : Nat → UnixSocket) : Prop where
  inRange : (0 ≤ a ∧ a < 256) ∧ (0 ≤ b ∧ b < 256)
  used : (sockAt socks a).used = true ∧ (sockAt socks b).used = true
  peer : (sockAt socks a).peer = b ∧ (sockAt socks b).peer = a
  fits : (sockAt socks a).Fits ∧ (sockAt socks b).Fits

variable {a b : Int} {socks : Nat → UnixSocket} {op : SockOp}

theorem Paired.symm (h : Paired a b socks) : Paired b a socks :=
  ⟨h.inRange.symm, h.used.symm, h.peer.symm, h.fits.symm⟩

def withRx (socks : Nat → UnixSocket) (j : Int) (r : Ring Byte) : Nat → UnixSocket :=
  setSock socks j { sockAt socks j with rx := r }

theorem sockAt_withRx (socks : Nat → UnixSocket) (i j : Int) (r : Ring Byte) :
    sockAt (withRx socks j r) i =
      if i.toNat = j.toNat then { sockAt socks i with rx := r } else sockAt socks i := by
  unfold withRx sockAt setSock
  rw [update_apply]
  split
  case isTrue h => rw [h]
  case isFalse => rfl

theorem withRx_self (socks : Nat → UnixSocket) (j : Int) : withRx socks j (sockAt socks j).rx =
    socks :=
  update_eq_self ..

theorem Paired.keep (h : Paired a b socks) (j : Int)
    (hr : r.head < socketBuffer ∧ r.size ≤ socketBuffer) : Paired a b (withRx socks j r) := by
  have hone : ∀ i, (sockAt socks i).Fits → (sockAt (withRx socks j r) i).used =
    (sockAt socks i).used ∧ (sockAt (withRx socks j r) i).peer = (sockAt socks i).peer ∧
      (sockAt (withRx socks j r) i).Fits := by
    intro i hi
    rw [sockAt_withRx]
    split
    · exact ⟨rfl, rfl, hr⟩
    · exact ⟨rfl, rfl, hi⟩
  obtain ⟨hua, hpa, hfa⟩ := hone a h.fits.1
  obtain ⟨hub, hpb, hfb⟩ := hone b h.fits.2
  exact ⟨h.inRange, ⟨hua.trans h.used.1, hub.trans h.used.2⟩,
    ⟨hpa.trans h.peer.1, hpb.trans h.peer.2⟩, hfa, hfb⟩

theorem Paired.writable (h : Paired a b socks) : canWrite socks a = true := by
  unfold canWrite
  rw [h.peer.1, h.used.1, h.used.2]
  simp [h.inRange.1, h.inRange.2.1]

theorem Paired.write (h : Paired a b socks) (hop : op.idx = a) (hw : ∀ n, op ≠ .read a n) :
    sockStep socks op = withRx socks b ((sockAt socks b).rx.push socketBuffer (op.accepted a socks)) ∧
      (sockAt socks b).rx.size + (op.accepted a socks).length ≤ socketBuffer := by
  have hfit := h.fits.2.2
  have hnil : withRx socks b ((sockAt socks b).rx.push socketBuffer []) = socks := withRx_self socks b
  cases op with
  | write idx src =>
    obtain rfl : idx = a := hop
    simp only [sockStep, SockOp.accepted, socketWriteIdx, h.writable, h.peer.1, Bool.not_true,
      Bool.false_eq_true, if_false, true_and]
    by_cases hroom : src.length > room (sockAt socks b)
    · simp only [if_pos hroom, Bool.false_eq_true, if_false, hnil, length_nil]
      exact ⟨trivial, hfit⟩
    simp only [if_neg hroom, if_true]
    unfold room at hroom
    exact ⟨rfl, by omega⟩
  | writePartial idx src =>
    obtain rfl : idx = a := hop
    simp only [sockStep, SockOp.accepted, socketWritePartial, h.writable, h.peer.1, Bool.not_true,
      Bool.false_eq_true, if_false, if_true]
    have hlen : (src.take (room (sockAt socks b))).length ≤ room (sockAt socks b) := by simp
    by_cases hzero : (src.take (room (sockAt socks b))).length = 0
    · simp only [if_pos hzero, take_zero, hnil, length_nil]
      exact ⟨trivial, hfit⟩
    simp only [if_neg hzero]
    have htake : src.take (src.take (room (sockAt socks b))).length =
        src.take (room (sockAt socks b)) := by
      rw [length_take, take_eq_take_iff]
      omega
    rw [htake]
    unfold room at hlen ⊢
    exact ⟨rfl, by omega⟩
  | read idx n =>
    obtain rfl : idx = a := hop
    exact absurd rfl (hw n)

theorem Paired.read (h : Paired a b socks) (n : Nat) :
    sockStep socks (.read b n) = withRx socks b ((sockAt socks b).rx.drop socketBuffer
        (min n (sockAt socks b).rx.size)) ∧
      (SockOp.read b n).returned b socks =
        (sockAt socks b).rx.front socketBuffer (min n (sockAt socks b).rx.size) := by
  have hok : ¬ (!(decide (0 ≤ b ∧ b < 256) && (sockAt socks b).used)) = true := by
    simp [h.used.2, h.inRange.2]
  unfold sockStep SockOp.returned socketReadIdx
  simp only [if_neg hok, if_true]
  exact ⟨rfl, trivial⟩

theorem drop_fits {s : UnixSocket} (h : s.Fits) (k : Nat) :
    (s.rx.drop socketBuffer k).head < socketBuffer ∧ (s.rx.drop socketBuffer k).size ≤ socketBuffer := by
  have hsize : (s.rx.drop socketBuffer k).size ≤ s.rx.size := Nat.sub_le ..
  exact ⟨Nat.mod_lt _ (by decide), hsize.trans h.2⟩

theorem push_fits {s : UnixSocket} (h : s.Fits) (hs : s.rx.size + src.length ≤ socketBuffer) :
    (s.rx.push socketBuffer src).head < socketBuffer ∧ (s.rx.push socketBuffer src).size ≤
      socketBuffer :=
  ⟨h.1, hs⟩

theorem buffered_same (socks : Nat → UnixSocket) (b : Int) (r : Ring Byte) :
    buffered (withRx socks b r) b = r.contents socketBuffer := by
  unfold buffered
  rw [sockAt_withRx, if_pos rfl]

theorem Paired.buffered_other (h : Paired a b socks) (hne : a ≠ b) (r : Ring Byte) :
    buffered (withRx socks a r) b = buffered socks b := by
  obtain ⟨⟨ha, _⟩, hb, _⟩ := h.inRange
  unfold buffered
  rw [sockAt_withRx, if_neg (by omega)]

theorem Paired.step (h : Paired a b socks) (hop : op.idx = a ∨ op.idx = b) :
    Paired a b (sockStep socks op) ∧
      op.returned b socks ++ buffered (sockStep socks op) b = buffered socks b ++ op.accepted a
        socks := by
  by_cases hread : ∃ idx n, op = .read idx n
  · obtain ⟨idx, n, rfl⟩ := hread
    have hacc : (SockOp.read idx n).accepted a socks = [] := rfl
    rw [hacc, append_nil]
    by_cases hib : idx = b
    · subst hib
      obtain ⟨hstep, hret⟩ := h.read n
      rw [hstep, hret, buffered_same]
      exact ⟨h.keep _ (drop_fits h.fits.2 _), Ring.contents_drop _ (Nat.min_le_right ..)⟩
    · obtain rfl : idx = a := hop.resolve_right hib
      have hret : (SockOp.read idx n).returned b socks = [] := if_neg hib
      rw [(h.symm.read n).1, hret, nil_append]
      exact ⟨h.keep _ (drop_fits h.fits.1 _), h.buffered_other hib _⟩
  · have hret : op.returned b socks = [] := by
      cases op with
      | write | writePartial => rfl
      | read idx n => exact absurd ⟨idx, n, rfl⟩ hread
    rw [hret, nil_append]
    by_cases hia : op.idx = a
    · obtain ⟨hstep, hlen⟩ := h.write hia fun n h0 => hread ⟨a, n, h0⟩
      rw [hstep, buffered_same]
      exact ⟨h.keep _ (push_fits h.fits.2 hlen), Ring.contents_push _ _ hlen⟩
    have hib := hop.resolve_left hia
    have hacc : op.accepted a socks = [] := by
      cases op with
      | write idx src => exact if_neg fun h0 => hia h0.1
      | writePartial idx src => exact if_neg hia
      | read => rfl
    obtain ⟨hstep, hlen⟩ := h.symm.write hib fun n h0 => hread ⟨b, n, h0⟩
    rw [hstep, hacc, append_nil]
    exact ⟨h.keep _ (push_fits h.fits.1 hlen), h.buffered_other (fun h0 => hia (hib.trans h0.symm)) _⟩

theorem stream_oneway (a b : Int) (socks : Nat → UnixSocket) (h : Paired a b socks)
    (ops : List SockOp)
    (hops : ∀ op ∈ ops, op.idx = a ∨ op.idx = b) :
    returned b socks ops ++ buffered (runFrom sockStep socks ops) b = buffered socks b ++
      accepted a socks ops ∧
      (buffered (runFrom sockStep socks ops) b).length ≤ 65536 := by
  induction ops generalizing socks with
  | nil =>
    refine ⟨(append_nil _).symm, ?_⟩
    unfold buffered
    rw [Ring.length_contents]
    exact h.fits.2.2
  | cons op ops ih =>
    obtain ⟨h', hstep⟩ := h.step (hops op mem_cons_self)
    obtain ⟨hfifo, hlen⟩ := ih (sockStep socks op) h' fun o ho => hops o (mem_cons_of_mem _ ho)
    refine ⟨?_, hlen⟩
    calc returned b socks (op :: ops) ++ buffered (runFrom sockStep socks (op :: ops)) b
        = op.returned b socks ++ (returned b (sockStep socks op) ops ++
            buffered (runFrom sockStep (sockStep socks op) ops) b) := append_assoc ..
      _ = op.returned b socks ++ (buffered (sockStep socks op) b ++
            accepted a (sockStep socks op) ops) := by rw [hfifo]
      _ = buffered socks b ++ op.accepted a socks ++ accepted a (sockStep socks op) ops := by
          rw [← append_assoc, hstep]
      _ = buffered socks b ++ accepted a socks (op :: ops) := append_assoc ..

theorem stream_fifo (a b : Int) (socks : Nat → UnixSocket) (h : Paired a b socks)
    (ops : List SockOp)
    (hops : ∀ op ∈ ops, op.idx = a ∨ op.idx = b) :
    (returned b socks ops ++ buffered (runFrom sockStep socks ops) b = buffered socks b ++
      accepted a socks ops ∧ (buffered (runFrom sockStep socks ops) b).length ≤ 65536) ∧
    returned a socks ops ++ buffered (runFrom sockStep socks ops) a = buffered socks a ++
      accepted b socks ops ∧
      (buffered (runFrom sockStep socks ops) a).length ≤ 65536 :=
  ⟨stream_oneway a b socks h ops hops, stream_oneway b a socks h.symm ops fun o ho => (hops o ho).symm⟩

def freshPair : Nat → UnixSocket := fun i =>
  if i = 0 then { used := true, peer := 1 } else if i = 1 then { used := true, peer := 0 } else {}

theorem freshPair_paired : Paired 0 1 freshPair :=
  ⟨by decide, by decide, by decide, ⟨by decide, by decide⟩, by decide, by decide⟩

def smallTalk : List SockOp := [.write 0 [7, 8], .writePartial 1 [9], .read 1 1]

theorem stream_fifo_freshPair :
    (returned 1 freshPair smallTalk ++ buffered (runFrom sockStep freshPair smallTalk) 1 =
        buffered freshPair 1 ++ accepted 0 freshPair smallTalk ∧
      (buffered (runFrom sockStep freshPair smallTalk) 1).length ≤ 65536) ∧
    returned 0 freshPair smallTalk ++ buffered (runFrom sockStep freshPair smallTalk) 0 =
        buffered freshPair 0 ++ accepted 1 freshPair smallTalk ∧
      (buffered (runFrom sockStep freshPair smallTalk) 0).length ≤ 65536 :=
  stream_fifo 0 1 freshPair freshPair_paired smallTalk (by decide)

end BlockOS.Kernel
