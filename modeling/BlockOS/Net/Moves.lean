import BlockOS.Net.Tcp

/-! What one step of the TCP module does to the connection at one index. -/

namespace BlockOS.Net
open Words List

inductive Moves (up : Nat → Bool) (s : Tcp) (i : Nat) : TcpOp → Conn → Conn → Prop where
  | stay {op : TcpOp} {c : Conn} (h : i < maxConnections → ∀ n, op ≠ .read i n) : Moves up s i op c c
  | listen {c : Conn} (port : Port) (h : c.used = false) : Moves up s i (.listen port) c (listening port)
  | connect {c : Conn} (dst : IPv4Address) (localPort port : Port) (h : c.used = false) :
      Moves up s i (.connect dst port) c (startConnect up s.currentTick dst localPort port s.wire).2.1
  | reset {c : Conn} (src : IPv4Address) (bytes : List Byte) : Moves up s i (.packet src bytes) c clearConnection
  | segment {c : Conn} (src : IPv4Address) (bytes : List Byte) (seg : Segment)
      (hp : parse s.wire.ip src bytes = some seg) (hr : on seg.flags rst = false)
      (hc : s.conns.find? (fun d => d.accepts src seg) = some c) :
      Moves up s i (.packet src bytes) c (onSegment up s.currentTick c src seg s.wire).1
  | send {c : Conn} (handle : Int) (data : List Byte) :
      Moves up s i (.send handle data) c (c.send up s.currentTick data s.wire).2.1
  | read {c : Conn} (n : Nat) : Moves up s i (.read i n) c (c.read n).2.2
  | close {c : Conn} (handle : Int) : Moves up s i (.close handle) c (c.close up s.currentTick s.wire).2.1
  | tick {c : Conn} (w : Wire) : Moves up s i .tick c (c.onTick up (s.currentTick + 1) w).1

variable {up : Nat → Bool} {s : Tcp} {i : Nat} {c c' : Conn}

variable {w : Wire} {cs : List Conn}

theorem dispatch_get (h : (dispatch up tick src seg w cs).1[i]? = some c') : ∃ c, cs[i]? = some c ∧
    (c' = c ∨
      cs.find? (fun d => d.accepts src seg) = some c ∧ c' = (onSegment up tick c src seg w).1) := by
  induction cs generalizing i with
  | nil => simp [dispatch] at h
  | cons d cs ih =>
    rw [dispatch] at h
    split at h
    case isTrue hd =>
      cases i with
      | zero => exact ⟨d, rfl, .inr ⟨by simp [hd], by simpa using h.symm⟩⟩
      | succ i => exact ⟨c', by simpa using h, .inl rfl⟩
    case isFalse hd =>
      cases i with
      | zero => exact ⟨d, rfl, .inl (by simpa using h.symm)⟩
      | succ i =>
        obtain ⟨c, hc, hm⟩ := ih (by simpa using h)
        exact ⟨c, by simpa using hc, by simpa [hd] using hm⟩

theorem dispatch_mem {tick : Seq} {src : IPv4Address} {seg : Segment} {w : Wire} {cs : List Conn}
    (h : cs.find? (fun d => d.accepts src seg) = some c) :
    (onSegment up tick c src seg w).1 ∈ (dispatch up tick src seg w cs).1 := by
  induction cs with
  | nil => simp at h
  | cons d cs ih =>
    rw [dispatch]
    split
    case isTrue hd =>
      obtain rfl : d = c := by simpa [hd] using h
      exact mem_cons_self
    case isFalse hd => exact mem_cons_of_mem _ (ih (by simpa [hd] using h))

theorem tickAll_get (h : (tickAll up tick w cs).1[i]? = some c') :
    ∃ c w', cs[i]? = some c ∧ c' = (c.onTick up tick w').1 := by
  induction cs generalizing i w with
  | nil => simp [tickAll] at h
  | cons d cs ih =>
    rw [tickAll] at h
    cases i with
    | zero => exact ⟨d, w, rfl, by simpa using h.symm⟩
    | succ i =>
      obtain ⟨c, w', hc, hm⟩ := ih (by simpa using h)
      exact ⟨c, w', by simpa using hc, hm⟩

theorem set_get (h : (cs.set j d)[i]? = some c') : ∃ c, cs[i]? = some c ∧
    (j = i ∧ c' = d ∨ j ≠ i ∧ c' = c) := by
  rw [getElem?_set] at h
  split at h
  case isTrue hj =>
    split at h
    case isTrue hlt =>
      subst hj
      exact ⟨cs[j], getElem?_eq_getElem hlt, .inl ⟨rfl, by simpa using h.symm⟩⟩
    case isFalse => cases h
  case isFalse hj => exact ⟨c', h, .inr ⟨hj, rfl⟩⟩

theorem freeSlot_get (h : freeSlot cs = some i) (hc : cs[i]? = some c) : c.used = false := by
  obtain ⟨hi, hp, -⟩ := findIdx?_eq_some_iff_getElem.mp h
  rw [getElem?_eq_getElem hi] at hc
  cases hc
  simpa using hp

theorem conn_get (h : s.conn? handle = some c) : handle = handle.toNat ∧ s.conns[handle.toNat]? =
    some c := by
  unfold Tcp.conn? at h
  split at h
  case isTrue => cases h
  case isFalse h0 =>
    split at h
    case isTrue => cases h
    case isFalse => exact ⟨by omega, h⟩

theorem conn_of_lt (h : i < maxConnections) : s.conn? i = s.conns[i]? := by
  unfold Tcp.conn?
  rw [if_neg (by omega), if_neg (by omega), Int.toNat_natCast]

theorem setConn_get (hd : s.conn? handle = some d)
    (h : (s.setConn handle e w).conns[i]? = some c') :
    ∃ c, s.conns[i]? = some c ∧ (handle = i ∧ c = d ∧ c' = e ∨ handle ≠ i ∧ c' = c) := by
  obtain ⟨hh, hd⟩ := conn_get hd
  obtain ⟨c, hc, ⟨hj, rfl⟩ | ⟨hj, rfl⟩⟩ := set_get h
  · subst hj
    rw [hd] at hc
    cases hc
    exact ⟨d, hd, .inl ⟨hh, rfl, rfl⟩⟩
  · exact ⟨c', hc, .inr ⟨by omega, rfl⟩⟩

theorem packet_moves (h : (tcpReceivePacket up s src bytes).conns[i]? = some c') :
    ∃ c, s.conns[i]? = some c ∧ Moves up s i (.packet src bytes) c c' := by
  unfold tcpReceivePacket at h
  split at h
  case h_1 => exact ⟨c', h, .stay (fun _ _ => nofun)⟩
  case h_2 seg hp =>
    split at h
    case isTrue hr =>
      simp only [getElem?_map, Option.map_eq_some_iff] at h
      obtain ⟨c, hc, rfl⟩ := h
      refine ⟨c, hc, ?_⟩
      unfold Conn.reset
      split
      · exact .reset src bytes
      · exact .stay (fun _ _ => nofun)
    case isFalse hr =>
      obtain ⟨c, hc, rfl | ⟨hf, rfl⟩⟩ := dispatch_get h
      · exact ⟨c', hc, .stay (fun _ _ => nofun)⟩
      · exact ⟨c, hc, .segment src bytes seg hp (by simpa using hr) hf⟩

theorem step_moves (h : (step up s op).conns[i]? = some c') : ∃ c, s.conns[i]? = some c ∧
    Moves up s i op c c' := by
  cases op with
  | listen port =>
    have hstay : s.conns[i]? = some c' → ∃ c, s.conns[i]? = some c ∧ Moves up s i (.listen port) c c' :=
      fun h => ⟨c', h, .stay (fun _ _ => nofun)⟩
    simp only [step, tcpListen] at h
    split at h
    · exact hstay h
    split at h
    · exact hstay h
    split at h
    · exact hstay h
    rename_i j hj
    obtain ⟨c, hc, ⟨rfl, rfl⟩ | ⟨-, rfl⟩⟩ := set_get h
    · exact ⟨c, hc, .listen port (freeSlot_get hj hc)⟩
    · exact hstay hc
  | connect dst port =>
    have hstay : s.conns[i]? = some c' → ∃ c, s.conns[i]? = some c ∧
        Moves up s i (.connect dst port) c c' :=
      fun h => ⟨c', h, .stay (fun _ _ => nofun)⟩
    simp only [step, tcpConnect] at h
    split at h
    · exact hstay h
    split at h
    · exact hstay h
    split at h
    · exact hstay h
    rename_i j hj
    obtain ⟨c, hc, ⟨rfl, rfl⟩ | ⟨-, rfl⟩⟩ := set_get h
    · exact ⟨c, hc, .connect dst _ port (freeSlot_get hj hc)⟩
    · exact hstay hc
  | packet src bytes => exact packet_moves h
  | send handle data =>
    simp only [step, tcpSend] at h
    split at h
    · exact ⟨c', h, .stay (fun _ _ => nofun)⟩
    rename_i d hd
    obtain ⟨c, hc, ⟨-, rfl, rfl⟩ | ⟨-, rfl⟩⟩ := setConn_get hd h
    · exact ⟨c, hc, .send handle data⟩
    · exact ⟨c', hc, .stay (fun _ _ => nofun)⟩
  | read handle n =>
    simp only [step, tcpReceive] at h
    split at h
    · rename_i hd
      refine ⟨c', h, .stay fun hi m hm => ?_⟩
      cases hm
      -- a handle below the bound is refused only if the list has no such index
      rw [conn_of_lt hi] at hd
      rw [hd] at h
      cases h
    · rename_i d hd
      obtain ⟨c, hc, ⟨rfl, rfl, rfl⟩ | ⟨hj, rfl⟩⟩ := setConn_get hd h
      · exact ⟨c, hc, .read n⟩
      · exact ⟨c', hc, .stay fun _ m hm => hj (by cases hm; rfl)⟩
  | close handle =>
    simp only [step, tcpClose] at h
    split at h
    · exact ⟨c', h, .stay (fun _ _ => nofun)⟩
    rename_i d hd
    obtain ⟨c, hc, ⟨-, rfl, rfl⟩ | ⟨-, rfl⟩⟩ := setConn_get hd h
    · exact ⟨c, hc, .close handle⟩
    · exact ⟨c', hc, .stay (fun _ _ => nofun)⟩
  | tick =>
    obtain ⟨c, w, hc, rfl⟩ := tickAll_get h
    exact ⟨c, hc, .tick w⟩

theorem onSegment_cases (up : Nat → Bool) (tick : Seq) (c : Conn) (src : IPv4Address)
    (seg : Segment) (w : Wire) :
    (c.state = .timeWait ∧ (onSegment up tick c src seg w).1 = { c with timerTick := tick }) ∨
    (c.state = .listen ∧ onSegment up tick c src seg w = onListen up tick (c.withWindow seg.window)
      src seg w) ∨
    (c.state = .synSent ∧ onSegment up tick c src seg w = onSynSent up (c.withWindow seg.window) seg
      w) ∨ (c.state = .synReceived ∧ (onSegment up tick c src seg w).1 =
      onSynReceived (c.withWindow seg.window) seg) ∨
    (c.state ≠ .timeWait ∧ c.state ≠ .listen ∧ c.state ≠ .synSent ∧ c.state ≠ .synReceived ∧
      onSegment up tick c src seg w = onData up tick (c.withWindow seg.window) seg w) := by
  cases h : c.state <;> simp [onSegment, Conn.withWindow, h]

end BlockOS.Net
