import BlockOS.Kernel.Wakeups

/-! The reasons for which sleepers are woken. -/

namespace BlockOS.Kernel
open Words Runs Function

def Small (i : Int) : Prop := 0 ≤ i ∧ i < 2147483647

theorem readMark_toNat (h : Small i) : (readMark i).toNat = i.toNat + 1 := by
  obtain ⟨h0, h1⟩ := h
  have hone : BitVec.toNat (1 : BitVec 32) = 1 := rfl
  unfold readMark
  rw [BitVec.toNat_add, BitVec.toNat_ofInt, hone]
  omega

theorem writeMark_toNat (h : Small i) : (writeMark i).toNat = i.toNat + 1 + 2147483648 := by
  have hr := readMark_toNat h
  obtain ⟨h0, h1⟩ := h
  have hbit : BitVec.toNat (0x80000000 : BitVec 32) = 2 ^ 31 * 1 := rfl
  have hlt : i.toNat + 1 < 2 ^ 31 := by omega
  have hw : (writeMark i).toNat = (i.toNat + 1) ||| (2 ^ 31 * 1) := by
    rw [← hr, ← hbit]
    exact BitVec.toNat_or ..
  rw [hw, Nat.or_comm, ← Nat.two_pow_add_eq_or_of_lt hlt]
  omega

theorem readMark_inj (hi : Small i) (hj : Small j) (h : readMark i = readMark j) : i = j := by
  have h0 := congrArg BitVec.toNat h
  rw [readMark_toNat hi, readMark_toNat hj] at h0
  have := hi.1
  have := hj.1
  omega

theorem writeMark_inj (hi : Small i) (hj : Small j) (h : writeMark i = writeMark j) : i = j := by
  have h0 := congrArg BitVec.toNat h
  rw [writeMark_toNat hi, writeMark_toNat hj] at h0
  have := hi.1
  have := hj.1
  omega

theorem readMark_ne_writeMark (hi : Small i) (hj : Small j) : readMark i ≠ writeMark j := by
  intro h
  have h0 := congrArg BitVec.toNat h
  rw [readMark_toNat hi, writeMark_toNat hj] at h0
  unfold Small at hi
  omega

theorem readMark_ne_zero (hi : Small i) : readMark i ≠ 0 := by
  intro h
  have h0 := congrArg BitVec.toNat h
  rw [readMark_toNat hi] at h0
  exact absurd h0 (Nat.succ_ne_zero _)

theorem writeMark_ne_zero (hi : Small i) : writeMark i ≠ 0 := by
  intro h
  have h0 := congrArg BitVec.toNat h
  rw [writeMark_toNat hi, show BitVec.toNat (0 : BitVec 32) = 0 from rfl] at h0
  omega

theorem InTable.small (h : InTable socks) (hi : 0 ≤ i) (hu : (sockAt socks i).used = true) :
    Small i := by
  have hlt := h i.toNat hu
  unfold socketCount at hlt
  exact ⟨hi, by omega⟩

variable {σ : Type} {self i : Nat} {k k' k'' : System σ} {a : Act}

structure SleepsOn (i : Nat) (t t' : Tasks) : Prop where
  state : (t'.procs i).state = .blocked
  mark : (t'.procs i).waitSockPlus1 = (t.procs i).waitSockPlus1
  waiting : (t'.procs i).waiting = (t.procs i).waiting
  core : (t'.procs i).core = (t.procs i).core
  current : t.current ≠ some i → t'.current ≠ some i

section

theorem SleepsOn.refl (h : (t.procs i).state = .blocked) : SleepsOn i t t := ⟨h, rfl, rfl, rfl, id⟩

theorem SleepsOn.trans (h : SleepsOn i t t') (h' : SleepsOn i t' t'') : SleepsOn i t t'' :=
  ⟨h'.state, h'.mark.trans h.mark, h'.waiting.trans h.waiting, h'.core.trans h.core,
    fun h0 => h'.current (h.current h0)⟩

theorem SleepsOn.of_same (hb : (t.procs i).state = .blocked) (hp : t'.procs i = t.procs i)
    (hc : t'.current = t.current) : SleepsOn i t t' := by
  refine ⟨?_, ?_, ?_, ?_, fun h0 => hc ▸ h0⟩
  all_goals rw [hp]
  exact hb

theorem Minds.sleepsOn (h : Minds self t t') (hi : i ≠ self) (hb : (t.procs i).state = .blocked) :
    SleepsOn i t t' := by
  obtain ⟨h1, h2, h3, h4⟩ := (h.others i hi).asleep (.inl hb)
  refine ⟨h1.trans hb, h2, h3, h4, fun h0 hc => ?_⟩
  rcases h.current i hc with h5 | h5 | h5
  · exact h0 h5
  · exact hi h5
  · exact h5 (h1.trans hb)

end

def Act.Wakes (k : System σ) (i : Nat) : Act → Prop
  | .deliver pe _ => Small pe ∧ (k.tasks.procs i).waitSockPlus1 = readMark pe
  | .drain si => Small si ∧ (k.tasks.procs i).waitSockPlus1 = writeMark si
  | .close si => (0 ≤ (sockAt k.socks si).peer ∧ (sockAt k.socks si).peer < socketCount) ∧
      (k.tasks.procs i).waitSockPlus1 = readMark (sockAt k.socks si).peer
  | .wake j | .futex _ j | .hand j | .early j => i = j
  | _ => False

theorem wakeSocket_sleepsOn (mark : BitVec 32) (hlt : i < slotCount)
    (hb : (t.procs i).state = .blocked) :
    SleepsOn i t (wakeSocket mark t) ∨
      (((wakeSocket mark t).procs i).state ≠ .blocked ∧ (t.procs i).waitSockPlus1 = mark) := by
  have hproc : (wakeSocket mark t).procs i = (t.procs i).awakeFor mark := if_pos hlt
  unfold Process.awakeFor at hproc
  by_cases hm : (t.procs i).waitSockPlus1 = mark
  · rw [if_pos ⟨hb, hm⟩] at hproc
    rw [hproc]
    exact .inr ⟨nofun, hm⟩
  · rw [if_neg fun h => hm h.2] at hproc
    exact .inl (.of_same hb hproc rfl)

theorem modify_sleepsOn (hg : (g (t.procs j)).state ≠ .blocked)
    (hb : (t.procs i).state = .blocked) :
    SleepsOn i t (t.modify j g) ∨ (((t.modify j g).procs i).state ≠ .blocked ∧ i = j) := by
  by_cases hij : i = j
  · subst hij
    rw [Tasks.modify_same]
    exact .inr ⟨hg, rfl⟩
  · exact .inl (.of_same hb (Tasks.modify_other _ _ hij) rfl)

theorem awake_state (p : Process) : p.awake.state ≠ .blocked := by
  unfold Process.awake
  split
  · nofun
  case isFalse h => exact h

theorem Does.sleepsOn (hd : Does self k k' a) (hin : InTable k.socks) (hi : i ≠ self)
    (hlt : i < slotCount)
    (hb : (k.tasks.procs i).state = .blocked) :
    SleepsOn i k.tasks k'.tasks ∨ ((k'.tasks.procs i).state ≠ .blocked ∧ a.Wakes k i) := by
  cases hd with
  | mind _ ht | grow _ _ ht | rewire _ ht => exact .inl (ht.sleepsOn hi hb)
  | deliver pe src hp hu _ ht =>
    rw [ht, wakeSocketReaders, if_neg (by omega)]
    exact (wakeSocket_sleepsOn _ hlt hb).imp_right (And.imp_right fun hm => ⟨hin.small hp hu, hm⟩)
  | drain si n hp hu _ _ _ ht =>
    rw [ht, wakeSocketWriters, if_neg (by omega)]
    exact (wakeSocket_sleepsOn _ hlt hb).imp_right (And.imp_right fun hm => ⟨hin.small hp hu, hm⟩)
  | touch si _ ht =>
    rw [ht]
    exact .inl (.refl hb)
  | close si hp hk =>
    rw [hk]
    unfold closeSocket
    dsimp only
    split
    case isTrue hc =>
      dsimp only
      rw [wakeSocketReaders, if_neg (by omega)]
      exact (wakeSocket_sleepsOn _ hlt hb).imp_right (And.imp_right fun hm => ⟨hc, hm⟩)
    case isFalse => exact .inl (.refl hb)
  | wake j _ _ ht | futex _ j _ _ ht => exact ht ▸ modify_sleepsOn (awake_state _) hb
  | hand j pid _ _ ht => exact ht ▸ modify_sleepsOn (g := Process.handOver pid) nofun hb
  | early j _ _ ht => exact ht ▸ modify_sleepsOn (g := Process.wakeEarly) nofun hb
  | reap j hover _ ht =>
    refine .inl (ht ▸ (modify_sleepsOn (g := Process.vacate) nofun hb).resolve_right ?_)
    rintro ⟨-, rfl⟩
    exact absurd (hb.symm.trans hover) nofun

theorem Does.awake (hd : Does self k k' a) (hi : i ≠ self)
    (hn : (k.tasks.procs i).state ≠ .blocked) :
    (k'.tasks.procs i).state ≠ .blocked := by
  have hsock : ∀ mark : BitVec 32, ((wakeSocket mark k.tasks).procs i).state ≠ .blocked := by
    intro mark
    unfold wakeSocket
    dsimp only
    split
    · unfold Process.awakeFor
      rw [if_neg fun h => hn h.1]
      exact hn
    · exact hn
  have hmod : ∀ (j : Nat) {g : Process → Process}, (∀ p, (g p).state ≠ .blocked) →
      ((k.tasks.modify j g).procs i).state ≠ .blocked := by
    intro j g hg
    rw [Tasks.modify_procs]
    split
    · exact hg _
    · exact hn
  cases hd with
  | mind _ ht | grow _ _ ht | rewire _ ht =>
    exact fun h0 => hn (((ht.others i hi).asleep (.inr h0)).1 ▸ h0)
  | deliver pe src hp hu _ ht =>
    rw [ht, wakeSocketReaders, if_neg (by omega)]
    exact hsock _
  | drain si n hp hu _ _ _ ht =>
    rw [ht, wakeSocketWriters, if_neg (by omega)]
    exact hsock _
  | touch si _ ht => rwa [ht]
  | close si hp hk =>
    rw [hk]
    unfold closeSocket
    dsimp only
    split
    case isTrue hc =>
      dsimp only
      rw [wakeSocketReaders, if_neg (by omega)]
      exact hsock _
    case isFalse => exact hn
  | wake j _ _ ht | futex _ j _ _ ht => exact ht ▸ hmod j awake_state
  | hand j pid _ _ ht => exact ht ▸ hmod j (g := Process.handOver pid) fun _ => nofun
  | early j _ _ ht => exact ht ▸ hmod j (g := Process.wakeEarly) fun _ => nofun
  | reap j hover _ ht => exact ht ▸ hmod j (g := Process.vacate) fun _ => nofun

theorem Does.inTable (hd : Does self k k' a) (hin : InTable k.socks) : InTable k'.socks := by
  cases hd with
  | mind hs _ | wake _ _ hs _ | futex _ _ _ hs _ | hand _ _ _ hs _ | early _ _ hs _ | reap _ _ hs _ => exact hs ▸ hin
  | grow _ hi _ | rewire hi _ => exact hi hin
  | deliver pe src _ _ hs _ =>
    exact hs ▸ (SockStep.edit pe _ rfl rfl : SockStep _ (Kernel.deliver k.socks pe src)).inTable hin
  | drain si n _ _ _ _ hs _ | touch si hs _ => exact hs ▸ hin.set si id
  | close si hp hk =>
    rw [hk]
    unfold closeSocket
    dsimp only
    split
    · refine InTable.free (InTable.set hin _ ?_) si
      exact id
    · exact hin.free si

theorem Does.frame (hd : Does self k k' a) (hi : i ≠ self) (hand : a ≠ .hand i)
    (hreap : a ≠ .reap i)
    (he : (k.tasks.procs i).state ≠ .empty) :
    (k'.tasks.procs i).state ≠ .empty ∧ (k'.tasks.procs i).savedFrame =
      (k.tasks.procs i).savedFrame := by
  have hsock : ∀ (mark : BitVec 32), ((wakeSocket mark k.tasks).procs i).state ≠ .empty ∧
      ((wakeSocket mark k.tasks).procs i).savedFrame = (k.tasks.procs i).savedFrame := by
    intro mark
    unfold wakeSocket
    dsimp only
    split
    · unfold Process.awakeFor
      split
      · exact ⟨nofun, rfl⟩
      · exact ⟨he, rfl⟩
    · exact ⟨he, rfl⟩
  have hmod : ∀ (j : Nat) (g : Process → Process), (i = j → (g (k.tasks.procs i)).state ≠ .empty ∧
      (g (k.tasks.procs i)).savedFrame = (k.tasks.procs i).savedFrame) →
      ((k.tasks.modify j g).procs i).state ≠ .empty ∧
        ((k.tasks.modify j g).procs i).savedFrame = (k.tasks.procs i).savedFrame := by
    intro j g hg
    by_cases hij : i = j
    · subst hij
      rw [Tasks.modify_same]
      exact hg rfl
    · rw [Tasks.modify_other _ _ hij]
      exact ⟨he, rfl⟩
  cases hd with
  | mind _ ht | grow _ _ ht | rewire _ ht => exact (ht.others i hi).frame he
  | deliver pe src hp _ _ ht =>
    rw [ht, wakeSocketReaders, if_neg (by omega)]
    exact hsock _
  | drain si n hp _ _ _ _ ht =>
    rw [ht, wakeSocketWriters, if_neg (by omega)]
    exact hsock _
  | touch si _ ht =>
    rw [ht]
    exact ⟨he, rfl⟩
  | close si hp hk =>
    rw [hk]
    unfold closeSocket
    dsimp only
    split
    · dsimp only
      unfold wakeSocketReaders
      split
      · exact ⟨he, rfl⟩
      · exact hsock _
    · exact ⟨he, rfl⟩
  | wake j hb _ ht | futex _ j hb _ ht =>
    refine ht ▸ hmod j _ fun _ => ?_
    unfold Process.awake
    split
    · exact ⟨nofun, rfl⟩
    · exact ⟨he, rfl⟩
  | hand j pid _ _ ht => exact ht ▸ hmod j _ fun h0 => absurd (h0 ▸ rfl) hand
  | early j _ _ ht => exact ht ▸ hmod j _ fun _ => ⟨nofun, rfl⟩
  | reap j _ _ ht => exact ht ▸ hmod j _ fun h0 => absurd (h0 ▸ rfl) hreap

section

variable {S : Act → Prop}

theorem Doing.rouses {R : System σ → Prop} (h : Doing self S k k') (hin : InTable k.socks)
    (hi : i ≠ self)
    (hlt : i < slotCount) (hb : (k.tasks.procs i).state = .blocked)
    (hwake : ∀ k1 k2 a, S a → Does self k1 k2 a → a.Wakes k1 i →
      (k1.tasks.procs i).waitSockPlus1 = (k.tasks.procs i).waitSockPlus1 → R k2)
    (hstay : ∀ k1 k2 a, S a → Does self k1 k2 a → R k1 → R k2) :
    SleepsOn i k.tasks k'.tasks ∨ ((k'.tasks.procs i).state ≠ .blocked ∧ R k') := by
  refine (h.keeps (P := fun k1 => InTable k1.socks ∧
    (SleepsOn i k.tasks k1.tasks ∨ ((k1.tasks.procs i).state ≠ .blocked ∧ R k1))) ?_
      ⟨hin, .inl (.refl hb)⟩).2
  rintro k1 k2 a ha hd ⟨hin1, hs | ⟨hn, hr⟩⟩
  · refine ⟨hd.inTable hin1, ?_⟩
    rcases hd.sleepsOn hin1 hi hlt hs.state with h0 | ⟨hn, h0⟩
    · exact .inl (hs.trans h0)
    · exact .inr ⟨hn, hwake k1 k2 a ha hd h0 hs.mark⟩
  · exact ⟨hd.inTable hin1, .inr ⟨hd.awake hi hn, hstay k1 k2 a ha hd hr⟩⟩

theorem Doing.sleeps_on (h : Doing self S k k') (hin : InTable k.socks) (hi : i ≠ self)
    (hlt : i < slotCount) (hb : (k.tasks.procs i).state = .blocked) (hS : ∀ a (k : System σ), S a →
      ¬ a.Wakes k i) :
    SleepsOn i k.tasks k'.tasks := by
  refine (h.rouses (R := fun _ => False) hin hi hlt hb ?_ ?_).resolve_right And.right
  · exact fun k1 _ a ha _ hw _ => hS a k1 ha hw
  · exact fun _ _ _ _ _ h0 => h0

theorem Doing.sent (h : Doing self S k k') (hin : InTable k.socks) (hi : i ≠ self)
    (hlt : i < slotCount) (hb : (k.tasks.procs i).state = .blocked) (hS : ∀ a, S a → a = .mind ∨
      ∃ pe n, a = .deliver pe n) :
    SleepsOn i k.tasks k'.tasks ∨ ((k'.tasks.procs i).state ≠ .blocked ∧ ∃ pe, Small pe ∧
      (k.tasks.procs i).waitSockPlus1 = readMark pe ∧
        ((sockAt k'.socks pe).rx.size ≠ 0 ∨ S (.deliver pe 0))) := by
  have hgrow : ∀ (k1 k2 : System σ) a, S a → Does self k1 k2 a → ∀ pe,
      (sockAt k1.socks pe).rx.size ≤ (sockAt k2.socks pe).rx.size := by
    intro k1 k2 a ha hd pe
    rcases hS a ha with rfl | ⟨pj, n, rfl⟩
    · cases hd with | mind hs _ => exact hs ▸ le_rfl
    cases hd with
    | deliver _ src _ _ hs _ =>
      rw [hs]
      unfold Kernel.deliver setSock sockAt
      by_cases hpj : pe.toNat = pj.toNat
      · rw [hpj, update_self]
        exact Nat.le_add_right _ _
      · rw [update_of_ne hpj]
  refine h.rouses (R := fun k1 => ∃ pe, Small pe ∧ (k.tasks.procs i).waitSockPlus1 = readMark pe ∧
    ((sockAt k1.socks pe).rx.size ≠ 0 ∨ S (.deliver pe 0))) hin hi hlt hb ?_ ?_
  · intro k1 k2 a ha hd hw hm
    rcases hS a ha with rfl | ⟨pe, n, rfl⟩
    · exact hw.elim
    refine ⟨pe, hw.1, hm ▸ hw.2, ?_⟩
    cases hd with
    | deliver _ src _ _ hs _ =>
      cases src with
      | nil => exact .inr ha
      | cons b src =>
        left
        rw [hs]
        unfold Kernel.deliver
        rw [sockAt_setSock_self]
        exact Nat.succ_ne_zero _
  · rintro k1 k2 a ha hd ⟨pe, hpe, hm, h0⟩
    refine ⟨pe, hpe, hm, h0.imp_left fun h1 h2 => h1 ?_⟩
    have := hgrow k1 k2 a ha hd pe
    omega

theorem Doing.taken (h : Doing self S k k') (hin : InTable k.socks) (hi : i ≠ self)
    (hlt : i < slotCount) (hb : (k.tasks.procs i).state = .blocked)
    (hS : ∀ a, S a → a = .mind ∨ (∃ si, a = .touch si) ∨ ∃ si, a = .drain si) :
    SleepsOn i k.tasks k'.tasks ∨ ((k'.tasks.procs i).state ≠ .blocked ∧ ∃ si, Small si ∧
      (k.tasks.procs i).waitSockPlus1 = writeMark si ∧
        (sockAt k'.socks si).rx.size < (sockAt k.socks si).rx.size) := by
  have hset : ∀ (socks : Nat → UnixSocket) (si sj : Int) (n : Nat),
      (sockAt (setSock socks si
        { sockAt socks si with rx := (sockAt socks si).rx.drop socketBuffer n }) sj).rx.size ≤
        (sockAt socks sj).rx.size := by
    intro socks si sj n
    unfold setSock sockAt
    by_cases hj : sj.toNat = si.toNat
    · rw [hj, update_self]
      exact Nat.sub_le _ _
    · rw [update_of_ne hj]
  have hshrink : ∀ (k1 k2 : System σ) a, S a → Does self k1 k2 a → ∀ sj,
      (sockAt k2.socks sj).rx.size ≤ (sockAt k1.socks sj).rx.size := by
    intro k1 k2 a ha hd sj
    rcases hS a ha with rfl | ⟨si, rfl⟩ | ⟨si, rfl⟩
    · cases hd with | mind hs _ => exact hs ▸ le_rfl
    · cases hd with | touch _ hs _ => exact hs ▸ hset ..
    · cases hd with | drain _ n _ _ _ _ hs _ => exact hs ▸ hset ..
  -- the bounds hold along the whole sequence
  refine (h.keeps (P := fun k1 => InTable k1.socks ∧
    (∀ sj, (sockAt k1.socks sj).rx.size ≤ (sockAt k.socks sj).rx.size) ∧
    (SleepsOn i k.tasks k1.tasks ∨ ((k1.tasks.procs i).state ≠ .blocked ∧ ∃ si, Small si ∧
      (k.tasks.procs i).waitSockPlus1 = writeMark si ∧
        (sockAt k1.socks si).rx.size < (sockAt k.socks si).rx.size))) ?_ ⟨hin, fun _ => le_rfl,
          .inl (.refl hb)⟩).2.2
  rintro k1 k2 a ha hd ⟨hin1, hle, h1⟩
  have hle2 := hshrink k1 k2 a ha hd
  refine ⟨hd.inTable hin1, fun sj => (hle2 sj).trans (hle sj), ?_⟩
  rcases h1 with hs | ⟨hn, si, hsi, hm, hlt⟩
  · rcases hd.sleepsOn hin1 hi hlt hs.state with h0 | ⟨hn, h0⟩
    · exact .inl (hs.trans h0)
    · refine .inr ⟨hn, ?_⟩
      rcases hS a ha with rfl | ⟨si, rfl⟩ | ⟨si, rfl⟩
      · exact h0.elim
      · exact h0.elim
      refine ⟨si, h0.1, hs.mark ▸ h0.2, ?_⟩
      have := hle si
      cases hd with
      | drain _ n _ _ hn hle1 hs _ =>
        rw [hs, sockAt_setSock_self]
        have hsize : (((sockAt k1.socks si).rx.drop socketBuffer n)).size =
          (sockAt k1.socks si).rx.size - n := rfl
        dsimp only
        omega
  · exact .inr ⟨hd.awake hi hn, si, hsi, hm, lt_of_le_of_lt (hle2 si) hlt⟩

def Gone (socks : Nat → UnixSocket) (pe : Int) : Prop :=
  (sockAt socks pe).closed = true ∨ (sockAt socks pe).used = false

theorem Gone.free (h : Gone socks pe) (si : Int) : Gone (socketFree si socks) pe := by
  by_cases hp : pe.toNat = si.toNat
  · unfold socketFree
    split
    · exact h
    right
    unfold sockAt setSock
    rw [hp, update_self]
  · obtain ⟨h1, -, h3, -⟩ := free_other socks si hp
    exact h.imp (fun h0 => h3.trans h0) fun h0 => h1.trans h0

theorem Gone.mark (h : Gone socks pe) (j : Int) :
    Gone (setSock socks j { sockAt socks j with closed := true }) pe := by
  refine h.imp (fun h0 => ?_) fun h0 => ?_
  · unfold setSock sockAt at h0 ⊢
    rw [update_apply]
    split
    · rfl
    · exact h0
  · exact (setSock_part UnixSocket.used (by rfl) pe.toNat).trans h0

theorem Gone.close (h : Gone k.socks pe) : Gone (closeSocket si k).socks pe := by
  unfold closeSocket
  dsimp only
  split
  · exact (h.mark _).free si
  · exact h.free si

def Act.leaves : Act → Prop
  | .mind | .close _ | .wake _ | .futex _ _ | .hand _ | .early _ => True
  | _ => False

theorem departing_leaves (h : departing self k a) : a.leaves := by
  rcases h with (rfl | ⟨si, -, rfl⟩) | (rfl | ⟨j, -, rfl⟩) | (rfl | ⟨j, -, rfl⟩) <;> trivial

theorem Doing.left (h : Doing self S k k') (hin : InTable k.socks) (hi : i ≠ self)
    (hlt : i < slotCount) (hb : (k.tasks.procs i).state = .blocked) (hS : ∀ a, S a → a.leaves) :
    SleepsOn i k.tasks k'.tasks ∨ ((k'.tasks.procs i).state ≠ .blocked ∧
      ((∃ pe, Small pe ∧ (k.tasks.procs i).waitSockPlus1 = readMark pe ∧ Gone k'.socks pe) ∨
        S (.wake i) ∨ (∃ addr, S (.futex addr i)) ∨ S (.hand i) ∨ S (.early i))) := by
  refine h.rouses (R := fun k1 => (∃ pe, Small pe ∧ (k.tasks.procs i).waitSockPlus1 = readMark pe ∧
      Gone k1.socks pe) ∨ S (.wake i) ∨ (∃ addr, S (.futex addr i)) ∨ S (.hand i) ∨
        S (.early i)) hin hi hlt hb ?_ ?_
  · intro k1 k2 a ha hd hw hm
    cases a with
    | close si =>
      obtain ⟨hc, hmark⟩ := hw
      have hsmall : Small (sockAt k1.socks si).peer := by
        unfold socketCount at hc
        exact ⟨hc.1, by omega⟩
      refine .inl ⟨_, hsmall, hm ▸ hmark, ?_⟩
      cases hd with
      | close _ hp hk =>
        rw [hk]
        unfold closeSocket
        dsimp only
        rw [if_pos hc]
        refine Gone.free (.inl ?_) si
        rw [sockAt_setSock_self]
    | wake j => exact .inr (.inl (hw ▸ ha))
    | futex addr j => exact .inr (.inr (.inl ⟨addr, hw ▸ ha⟩))
    | hand j => exact .inr (.inr (.inr (.inl (hw ▸ ha))))
    | early j => exact .inr (.inr (.inr (.inr (hw ▸ ha))))
    | mind => exact hw.elim
    | grow | deliver | drain | touch | reap | rewire => exact (hS _ ha).elim
  · rintro k1 k2 a ha hd (⟨pe, hpe, hm, hgone⟩ | h0)
    · refine .inl ⟨pe, hpe, hm, ?_⟩
      have hleave := hS a ha
      cases hd with
      | close si _ hk => exact hk ▸ hgone.close
      | mind hs _ | wake _ _ hs _ | futex _ _ _ hs _ | hand _ _ _ hs _ | early _ _ hs _ =>
        exact hs ▸ hgone
      | grow | deliver | drain | touch | reap | rewire => exact hleave.elim
    · exact .inr h0

theorem Doing.frame (h : Doing self S k k') (hi : i ≠ self) (hand : ¬ S (.hand i))
    (hreap : ¬ S (.reap i))
    (he : (k.tasks.procs i).state ≠ .empty) :
    (k'.tasks.procs i).savedFrame = (k.tasks.procs i).savedFrame := by
  refine (h.keeps (P := fun k1 => (k1.tasks.procs i).state ≠ .empty ∧
    (k1.tasks.procs i).savedFrame = (k.tasks.procs i).savedFrame) ?_ ⟨he, rfl⟩).2
  intro k1 k2 a ha hd h1
  obtain ⟨h2, h3⟩ := hd.frame hi (fun h0 => hand (h0 ▸ ha)) (fun h0 => hreap (h0 ▸ ha)) h1.1
  exact ⟨h2, h3.trans h1.2⟩

inductive Roused (env : Env σ) (caller : Nat) (f : SyscallFrame) (k k' : System σ) (i : Nat) :
    Prop where
  | data (pe : Int) (hp : Small pe) (hm : (k.tasks.procs i).waitSockPlus1 = readMark pe)
      (h : (sockAt k'.socks pe).rx.size ≠ 0) : Roused env caller f k k' i
  | gone (pe : Int) (hp : Small pe) (hm : (k.tasks.procs i).waitSockPlus1 = readMark pe)
      (h : Gone k'.socks pe) : Roused env caller f k k' i
  | space (si : Int) (hp : Small si) (hm : (k.tasks.procs i).waitSockPlus1 = writeMark si)
      (h : (sockAt k'.socks si).rx.size < (sockAt k.socks si).rx.size) : Roused env caller f k k' i
  | vfork (h : endsVfork env caller f k i) : Roused env caller f k k' i
  | futex (addr : Word) (h : Allowed env caller f k (.futex addr i)) : Roused env caller f k k' i
  | hand (h : handsOver caller f k i) : Roused env caller f k k' i
  | early (h : hurries caller f k i) : Roused env caller f k k' i

variable (env : Env σ) {f : SyscallFrame}

theorem handle_rouses (hc : k.tasks.current = some self) (hin : InTable k.socks) (hi : i ≠ self)
    (hlt : i < slotCount) (hb : (k.tasks.procs i).state = .blocked) :
    SleepsOn i k.tasks (handle env self f k).2.tasks ∨
      (((handle env self f k).2.tasks.procs i).state ≠ .blocked ∧
        Roused env self f k (handle env self f k).2 i) := by
  have h := handle_does env (f := f) hc
  have hallow := fun a => @acts_allowed _ self k a env f
  generalize (handle env self f k).2 = k' at h
  -- closing, executing and exiting
  have hleft : (∀ a, acts env self f k a → a.leaves) →
      SleepsOn i k.tasks k'.tasks ∨
        ((k'.tasks.procs i).state ≠ .blocked ∧ Roused env self f k k' i) := by
    intro hS
    refine (h.left hin hi hlt hb hS).imp_right (And.imp_right ?_)
    rintro (⟨pe, hp, hm, hg⟩ | h0 | ⟨addr, h0⟩ | h0 | h0)
    · exact .gone pe hp hm hg
    · exact .vfork (hallow _ h0)
    · exact .futex addr (hallow _ h0)
    · exact .hand (hallow _ h0)
    · exact .early (hallow _ h0)
  have hsent : (∀ a, acts env self f k a → a = .mind ∨ ∃ pe n, a = .deliver pe n) →
      SleepsOn i k.tasks k'.tasks ∨
        ((k'.tasks.procs i).state ≠ .blocked ∧ Roused env self f k k' i) := by
    intro hS
    refine (h.sent hin hi hlt hb hS).imp_right (And.imp_right fun ⟨pe, hp, hm, hd⟩ => ?_)
    exact .data pe hp hm (hd.resolve_right fun h0 => hallow (.deliver pe 0) h0 rfl)
  unfold acts at h hleft hsent
  cases hd : decode f.rax with
  | read | recvfrom | recvmsg =>
    rw [hd] at h
    refine (h.taken hin hi hlt hb ?_).imp_right (And.imp_right fun ⟨si, hp, hm, hlt⟩ =>
      .space si hp hm hlt)
    rintro a ⟨si, rfl | rfl | rfl⟩
    · exact .inl rfl
    · exact .inr (.inl ⟨si, rfl⟩)
    · exact .inr (.inr ⟨si, rfl⟩)
  | write | sendto | sendmsg =>
    rw [hd] at hsent
    refine hsent ?_
    rintro a ⟨pe, h0 | ⟨n, -, h0⟩⟩
    · exact .inl h0
    · exact .inr ⟨pe, n, h0⟩
  | close | dup2 | dup3 =>
    rw [hd] at hleft
    refine hleft ?_
    rintro a (rfl | ⟨si, -, rfl⟩) <;> trivial
  | execve | futex =>
    rw [hd] at hleft
    refine hleft ?_
    rintro a ⟨rfl | ⟨j, -, rfl⟩, -⟩ <;> trivial
  | exit | exitGroup =>
    rw [hd] at hleft
    refine hleft ?_
    rintro a (h0 | (rfl | ⟨j, -, rfl⟩) | (rfl | ⟨j, -, rfl⟩))
    · exact departing_leaves h0
    all_goals trivial
  | socket | bind | listen | accept | accept4 | pipe2 | socketpair =>
    rw [hd] at h
    refine .inl (h.sleeps_on hin hi hlt hb ?_)
    rintro a k (rfl | rfl) <;> exact id
  | connect =>
    rw [hd] at h
    refine .inl (h.sleeps_on hin hi hlt hb ?_)
    rintro a k ((rfl | rfl) | ⟨rfl, -⟩) <;> exact id
  | wait4 =>
    rw [hd] at h
    refine .inl (h.sleeps_on hin hi hlt hb ?_)
    rintro a k (rfl | ⟨x, -, rfl⟩) <;> exact id
  | _ =>
    rw [hd] at h
    refine .inl (h.sleeps_on hin hi hlt hb ?_)
    rintro a k rfl
    exact id

theorem handle_frame (hc : k.tasks.current = some self) (hi : i ≠ self)
    (hb : (k.tasks.procs i).state = .blocked) (hand : ¬ handsOver self f k i) :
    ((handle env self f k).2.tasks.procs i).savedFrame = (k.tasks.procs i).savedFrame := by
  refine (handle_does env hc).frame hi (fun h0 => hand (acts_allowed env h0)) (fun h0 => ?_) ?_
  · exact absurd (hb.symm.trans (acts_allowed env h0).2) nofun
  · rw [hb]
    nofun

end

end BlockOS.Kernel
