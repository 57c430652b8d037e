import BlockOS.Net.FourTuple

/-! The ports of outgoing connections. -/

namespace BlockOS.Net
open Words Runs List

section

variable {up : Nat → Bool} {s : Tcp} {cs : List Conn}

def PortFree (cs : List Conn) (p : Port) : Prop := ∀ d ∈ cs, d.used = true → d.localPort ≠ p

instance (cs : List Conn) (p : Port) : Decidable (PortFree cs p) :=
    inferInstanceAs (Decidable (∀ d ∈ cs, _))

/-- A connection gets a port of the range that no other has, and only a range in use makes the
allocation fail. -/
def PortsRight (up : Nat → Bool) (s : Tcp) : TcpOp → Prop
  | .connect dst port =>
    (∀ i : Nat, (tcpConnect up s dst port).1 = i → ∃ c, (tcpConnect up s dst port).2.conns[i]? =
      some c ∧ ephemeralPortFirst ≤ c.localPort ∧ PortFree s.conns c.localPort) ∧
    (port ≠ 0 → (allocateEphemeralPort s.conns 16384 s.nextEphemeralPort).1 = 0 →
      ∀ p, ephemeralPortFirst ≤ p → ¬PortFree s.conns p)
  | _ => True

/-- The counter is in the range, and a port from it on is free. -/
def PortAhead (s : Tcp) : TcpOp → Prop
  | .connect _ _ =>
    ephemeralPortFirst ≤ s.nextEphemeralPort ∧ ∃ p, s.nextEphemeralPort ≤ p ∧ PortFree s.conns p
  | _ => True

theorem allocateEphemeralPort_ahead {next p : Port} (hn : p.toNat - next.toNat < n) (hle : next ≤ p)
    (hp : PortFree cs p) : next ≤ (allocateEphemeralPort cs n next).1 := by
  induction n generalizing next with
  | zero => cases hn
  | succ n ih =>
    rw [allocateEphemeralPort]
    split
    case isFalse => exact BitVec.le_refl _
    case isTrue hused =>
      have hne : next ≠ p := by
        rintro rfl
        obtain ⟨d, hd, hu⟩ := any_eq_true.mp hused
        rw [Bool.and_eq_true, beq_iff_eq] at hu
        exact hp d hd hu.1 hu.2
      -- the port is not the last one, so the counter does not wrap here
      have hlast : ¬next + 1 > ephemeralPortLast := by
        rw [ephemeralPortLast]
        bv_omega
      rw [if_neg hlast]
      exact BitVec.le_trans (by bv_omega) (ih (by bv_omega) (by bv_omega))

theorem portsRight_of_ahead (op : TcpOp) (h : PortAhead s op) : PortsRight up s op := by
  cases op with
  | connect dst port =>
    obtain ⟨hfirst, p, hle, hp⟩ := h
    have hq := allocateEphemeralPort_ahead (n := 16384)
      (by rw [ephemeralPortFirst] at hfirst; bv_omega) hle hp
    have hrange := BitVec.le_trans hfirst hq
    have hne : (allocateEphemeralPort s.conns 16384 s.nextEphemeralPort).1 ≠ 0 := by
      intro h0
      rw [h0] at hrange
      exact absurd hrange (by decide)
    refine ⟨fun i hi => ?_, fun _ h0 => absurd h0 hne⟩
    unfold tcpConnect at hi ⊢
    by_cases hport : port = 0
    · rw [if_pos hport] at hi
      cases hi
    rw [if_neg hport] at hi ⊢
    dsimp only at hi ⊢
    rw [if_neg hne] at hi ⊢
    cases hslot : freeSlot s.conns with
    | none =>
      rw [hslot] at hi
      cases hi
    | some j =>
      simp only [hslot] at hi ⊢
      have hlt : j < s.conns.length := (findIdx?_eq_some_iff_getElem.mp hslot).1
      obtain ⟨hfail, -⟩ | ⟨-, hends⟩ := @startConnect_cases up s.currentTick dst
        (allocateEphemeralPort s.conns 16384 s.nextEphemeralPort).1 port s.wire
      · rw [hfail] at hi
        cases hi
      · obtain rfl : j = i := by
          split at hi
          · exact Int.ofNat_inj.mp hi
          · cases hi
        have hlocal := congrArg Ends.localPort hends
        dsimp only [Conn.ends] at hlocal
        refine ⟨_, getElem?_set_self hlt, ?_, ?_⟩ <;> rw [hlocal]
        · exact hrange
        · exact fun d hd hu => allocateEphemeralPort_fresh hne hd hu
  | _ => trivial

theorem ports_right_along (up : Nat → Bool) (ip : IPv4Address) (ops : List TcpOp)
    (h : Along (step up) PortAhead (tcpInit ip) ops) : Along (step up) (PortsRight up) (tcpInit ip)
      ops :=
  Along.imp (I := fun _ => True) (fun _ _ _ _ => trivial) (fun _ op _ h => portsRight_of_ahead op h)
    trivial h

theorem ports_right_along_sample : Along (step fun _ => true) (PortsRight fun _ => true)
    (tcpInit sampleServer)
    [.listen 80, .connect sampleClient 80, .connect sampleClient 81] :=
  ports_right_along (fun _ => true) sampleServer _ ⟨trivial,
    ⟨by decide +kernel, 49152, by decide +kernel, by decide +kernel⟩,
    ⟨by decide +kernel, 49153, by decide +kernel, by decide +kernel⟩, trivial⟩

def oneRound : List TcpOp := [.connect sampleClient 80, .close 0]

theorem runFrom_oneRound (hc : s.conns = List.replicate 16 clearConnection)
    (hn : s.nextEphemeralPort ≠ 0) :
    (runFrom (step fun _ => true) s oneRound).conns = List.replicate 16 clearConnection ∧
      (runFrom (step fun _ => true) s oneRound).nextEphemeralPort = s.nextEphemeralPort + 1 := by
  obtain ⟨conns, next, tick, w⟩ := s
  obtain rfl : conns = List.replicate 16 clearConnection := hc
  have hlast : ¬next + 1 > ephemeralPortLast := by
    rw [ephemeralPortLast]
    bv_omega
  have hport : allocateEphemeralPort (List.replicate 16 clearConnection) 16384 next =
      (next, next + 1) := by
    rw [allocateEphemeralPort, if_neg hlast]
    rfl
  simp only [runFrom, oneRound, foldl_cons, foldl_nil, step, tcpConnect, hport]
  rw [if_neg (by decide), if_neg hn]
  exact ⟨rfl, rfl⟩

theorem runFrom_rounds (n : Nat) (hn : n ≤ 16384) :
    (runFrom (step fun _ => true) (tcpInit sampleServer) (List.replicate n oneRound).flatten).conns
      = List.replicate 16 clearConnection ∧
      (runFrom (step fun _ => true) (tcpInit sampleServer)
        (List.replicate n oneRound).flatten).nextEphemeralPort =
        49152 + BitVec.ofNat 16 n := by
  induction n with
  | zero => exact ⟨rfl, rfl⟩
  | succ n ih =>
    obtain ⟨h1, h2⟩ := ih (by omega)
    obtain ⟨h3, h4⟩ := runFrom_oneRound h1 (by rw [h2]; bv_omega)
    unfold runFrom at h3 h4 h2 ⊢
    rw [replicate_succ', flatten_append, flatten_singleton, foldl_append]
    exact ⟨h3, by rw [h4, h2]; bv_omega⟩

theorem ports_run_out :
    ¬PortsRight (fun _ => true)
      (runFrom (step fun _ => true) (tcpInit sampleServer) (List.replicate 16384 oneRound).flatten)
      (.connect sampleClient 80) := by
  obtain ⟨h1, h2⟩ := runFrom_rounds 16384 (Nat.le_refl _)
  rintro ⟨-, h⟩
  rw [h1, h2] at h
  refine h (by decide) rfl ephemeralPortFirst (BitVec.le_refl _) fun d hd hu => ?_
  rw [eq_of_mem_replicate hd] at hu
  cases hu

end

end BlockOS.Net
