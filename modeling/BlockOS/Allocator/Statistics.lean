import BlockOS.Allocator.Accounting

/-! The statistics over several lives of the heap: `init` may be called again, on a usable arena or
not. -/

namespace BlockOS.Allocator
open Words Bytes Runs BitVec Nat

inductive Event where
  | init (base size : Word)
  | call (op : Op)

structure Watch where
  session : Session
  most : Nat

namespace Watch

def step (w : Watch) : Event → Watch
  | .init base size => ⟨Session.start base size w.session.heap, 0⟩
  | .call .reset => ⟨w.session.step .reset, 0⟩
  | .call op => ⟨w.session.step op, max w.most (w.session.step op).heap.record.used.toNat⟩

def boot (mem : Mem) : Watch := ⟨⟨⟨mem, 0, 0, 0, {}⟩, []⟩, 0⟩

def report (w : Watch) : AllocRecord := (getRecord w.session.heap).record

def Truthful (w : Watch) : Prop :=
  w.report.used ≤ w.report.offset ∧ w.report.offset ≤ w.report.total ∧ w.report.peak.toNat = w.most

instance (w : Watch) : Decidable w.Truthful := inferInstanceAs (Decidable (_ ∧ _ ∧ _))

def Fair (w : Watch) : Event → Prop
  | .init base size => InitOk base size → base.toNat + size.toNat < 2 ^ 64
  | .call op => op.Legal w.session ∧ op.NoWrap w.session

instance (w : Watch) : (e : Event) → Decidable (w.Fair e)
  | .init base size => inferInstanceAs (Decidable (InitOk base size → base.toNat + size.toNat < 2 ^ 64))
  | .call op => inferInstanceAs (Decidable (op.Legal w.session ∧ op.NoWrap w.session))

def Kept (w : Watch) : Event → Prop
  | .init base size => InitOk base size ∨ w.session.heap.heapOff = 0
  | .call .reset => w.session.heap.record.peak = 0
  | .call _ => True

instance (w : Watch) : (e : Event) → Decidable (w.Kept e)
  | .init base size => inferInstanceAs (Decidable (InitOk base size ∨ w.session.heap.heapOff = 0))
  | .call .reset => inferInstanceAs (Decidable (w.session.heap.record.peak = 0))
  | .call (.alloc _ _) | .call (.free _) | .call (.write _ _) => inferInstanceAs (Decidable True)

structure Sound (w : Watch) : Prop where
  accounted : ∃ bs, Accounted w.session bs
  total : w.session.heap.record.total = w.session.heap.heapSize ∨ w.session.heap.heapBase = 0
  peak : w.session.heap.record.peak.toNat = w.most
  used_le : w.session.heap.record.used.toNat ≤ w.most

variable {w : Watch} {base size : Word}

theorem Sound.truthful (hs : w.Sound) : w.Truthful := by
  obtain ⟨bs, ha⟩ := hs.accounted
  have ht := ha.tiled
  refine ⟨?_, ?_, hs.peak⟩
  · change w.session.heap.record.used ≤ w.session.heap.heapOff
    rw [le_def, ha.used, ← ht.total]
    exact usedBytes_le_span bs
  change w.session.heap.heapOff ≤ w.session.heap.record.total
  rcases hs.total with htotal | hnull
  · rw [htotal]
    exact ht.bound
  have hlive : w.session.live = [] := by
    by_contra hne
    exact ha.base hne hnull
  rw [le_def, ha.heapOff_eq_zero hlive]
  exact zero_le _

theorem accounted_null (hb : h.heapBase = 0) (ho : h.heapOff = 0) (hu : h.record.used = 0) :
    Accounted ⟨h, []⟩ [] := by
  refine ⟨⟨⟨trivial, ?_, by simp, ?_, ?_, ?_⟩, List.Perm.refl _, coalesced_nil,
    fun hne => absurd rfl hne⟩, ?_⟩
  · simp [ho]
  · simp [ho]
  · simpa [hb] using toNat_lt h.heapSize
  · simp [hb]
  · simp [hu]

theorem sound_boot (mem : Mem) : (boot mem).Sound :=
  ⟨⟨[], accounted_null rfl rfl rfl⟩, .inl rfl, rfl, le_refl 0⟩

theorem sound_init (w : Watch) (hok : InitOk base size)
    (harena : base.toNat + size.toNat < 2 ^ 64) : (w.step (.init base size)).Sound := by
  have hb := Tally.balanced_start w.session.heap hok harena
  have hfit : ¬ alignUp base arenaAlignment - base ≥ size := by simpa [InitOk] using hok
  refine ⟨hb.accounted, .inl hb.total, ?_, ?_⟩ <;> simp [step, Session.start, init, hfit]

theorem init_refused (hok : ¬ InitOk base size) (h : Heap) :
    init base size h = { h with heapBase := 0, record := {} } := by
  have hfit : alignUp base arenaAlignment - base ≥ size := by simpa [InitOk] using hok
  exact if_pos hfit

theorem recordAlloc_peak (r : AllocRecord) (l : Word) :
    (recordAlloc r l).peak.toNat = max r.peak.toNat (recordAlloc r l).used.toNat := by
  simp only [recordAlloc]
  split
  · rename_i h
    rw [gt_iff_lt, lt_def] at h
    omega
  rename_i h
  rw [gt_iff_lt, lt_def] at h
  omega

theorem sound_alloc (hs : w.Sound) (size align : Word)
    (hov : sumOverflows w.session.heap size align = false) :
      (w.step (.call (.alloc size align))).Sound := by
  obtain ⟨⟨bs, ha⟩, htotal, hpeak, hle⟩ := hs
  obtain ⟨hbase, hsize, -⟩ := alloc_spec ha.tiled size align hov
  rcases ha.alloc size align hov with ⟨he, ha'⟩ | ⟨bs', l, h0, ha', hrec⟩
  · refine ⟨⟨bs, ha'⟩, ?_, ?_, ?_⟩ <;> simp only [step, Session.step, he]
    · exact htotal
    · exact hpeak.trans (max_eq_left hle).symm
    · exact le_max_right _ _
  · refine ⟨⟨bs', ha'⟩, ?_, ?_, ?_⟩ <;> simp only [step, Session.step, hrec]
    · rw [hbase, hsize]
      exact htotal
    · rw [recordAlloc_peak, hpeak]
    · exact le_max_right _ _

theorem sound_free (hs : w.Sound) (hp : p = 0 ∨ p ∈ w.session.live.map Prod.fst) :
    (w.step (.call (.free p))).Sound := by
  obtain ⟨⟨bs, ha⟩, htotal, hpeak, hle⟩ := hs
  by_cases hlive : p ∈ w.session.live.map Prod.fst
  · obtain ⟨q, hq, rfl⟩ := List.mem_map.mp hlive
    obtain ⟨ha', used, hrec, hused⟩ := ha.free hq
    obtain ⟨hbase, hsize⟩ := free_fields w.session.heap q.1
    have hmost : used.toNat ≤ w.most := le_trans hused hle
    refine ⟨ha', ?_, ?_, ?_⟩ <;> simp only [step, Session.step, hrec]
    · rw [hbase, hsize]
      exact htotal
    · exact hpeak.trans (max_eq_left hmost).symm
    · exact le_max_right _ _
  · obtain rfl : p = 0 := hp.resolve_right hlive
    refine ⟨⟨bs, ?_⟩, ?_, ?_, ?_⟩ <;> simp only [step, Session.step_free_null hlive]
    · exact ha
    · exact htotal
    · exact hpeak.trans (max_eq_left hle).symm
    · exact le_max_right _ _

theorem sound_write (hs : w.Sound) (v : Byte)
    (hw : ∃ q ∈ w.session.live, (a - q.1).toNat < q.2.toNat) : (w.step (.call (.write a v))).Sound := by
  obtain ⟨⟨bs, ha⟩, htotal, hpeak, hle⟩ := hs
  exact ⟨⟨bs, ha.write v hw, ha.used⟩, htotal, hpeak.trans (max_eq_left hle).symm, le_max_right _ _⟩

theorem refused_iff (w : Watch) (hok : ¬ InitOk base size) :
    (w.step (.init base size)).Truthful ↔ w.session.heap.heapOff = 0 := by
  have hreport : (w.step (.init base size)).report = { offset := w.session.heap.heapOff } := by
    simp [report, step, Session.start, getRecord, init_refused hok]
  unfold Truthful
  rw [hreport]
  simp [step, le_def, ← toNat_inj]

theorem sound_refused (w : Watch) (hok : ¬ InitOk base size) (ho : w.session.heap.heapOff = 0) :
    (w.step (.init base size)).Sound := by
  refine ⟨⟨[], ?_⟩, ?_, ?_, ?_⟩ <;> simp only [step, Session.start, init_refused hok]
  · exact accounted_null rfl ho rfl
  · exact .inr trivial
  · rfl
  · exact le_refl 0

theorem reset_iff (w : Watch) : (w.step (.call .reset)).Truthful ↔ w.session.heap.record.peak = 0 := by
  simp [Truthful, report, step, Session.step, getRecord, reset, le_def, ← toNat_inj]

theorem sound_reset (hs : w.Sound) (hpeak : w.session.heap.record.peak = 0) :
    (w.step (.call .reset)).Sound := by
  obtain ⟨⟨bs, ha⟩, htotal, -, -⟩ := hs
  exact ⟨⟨[], ha.reset, rfl⟩, htotal, congrArg BitVec.toNat hpeak, le_refl 0⟩

theorem step_iff (hs : w.Sound) (e : Event) (hf : w.Fair e) :
    ((w.step e).Truthful ↔ w.Kept e) ∧ (w.Kept e → (w.step e).Sound) := by
  have hof : (w.step e).Sound → w.Kept e → ((w.step e).Truthful ↔ w.Kept e) ∧
      (w.Kept e → (w.step e).Sound) :=
    fun hs hk => ⟨⟨fun _ => hk, fun _ => hs.truthful⟩, fun _ => hs⟩
  cases e with
  | init base size =>
    by_cases hok : InitOk base size
    · exact hof (sound_init w hok (hf hok)) (.inl hok)
    have hkept : w.Kept (.init base size) ↔ w.session.heap.heapOff = 0 := or_iff_right hok
    rw [hkept]
    exact ⟨refused_iff w hok, sound_refused w hok⟩
  | call op =>
    cases op with
    | alloc size align => exact hof (sound_alloc hs size align hf.2) trivial
    | free p => exact hof (sound_free hs hf.1) trivial
    | reset => exact ⟨reset_iff w, sound_reset hs⟩
    | write a v => exact hof (sound_write hs v hf.1) trivial

end Watch

theorem statistics_truthful_iff (mem : Mem) (events : List Event)
    (hfair : Along Watch.step Watch.Fair (Watch.boot mem) events) :
    Along Watch.step (fun w e => (w.step e).Truthful) (Watch.boot mem) events ↔
      Along Watch.step Watch.Kept (Watch.boot mem) events := by
  have hcongr : Along Watch.step (fun w e => w.Fair e ∧ (w.step e).Truthful) (Watch.boot mem) events ↔
      Along Watch.step (fun w e => w.Fair e ∧ w.Kept e) (Watch.boot mem) events :=
    Along.congr (fun w e hs => and_congr_right fun hf => (Watch.step_iff hs e hf).1)
      (fun w e hs hp => (Watch.step_iff hs e hp.1).2 ((Watch.step_iff hs e hp.1).1.mp hp.2)) events
      (Watch.sound_boot mem)
  rw [Along.and_iff, Along.and_iff] at hcongr
  exact ⟨fun h => (hcongr.mp ⟨hfair, h⟩).2, fun h => (hcongr.mpr ⟨hfair, h⟩).2⟩

theorem statistics_truthful_sample : Along Watch.step (fun w e => (w.step e).Truthful)
    (Watch.boot fun _ => 0)
      [.init 4096 8192, .call (.alloc 24 16), .call (.free 4112), .init 0 0, .init 65536 4096,
        .call (.alloc 8 64)] :=
  (statistics_truthful_iff _ _ (by decide)).mpr (by decide)

theorem statistics_stale :
    (Along Watch.step Watch.Fair (Watch.boot fun _ => 0) [.init 4096 8192, .call (.alloc 24 16),
      .init 0 0] ∧
      (runFrom Watch.step (Watch.boot fun _ => 0) [.init 4096 8192, .call (.alloc 24 16),
        .init 0 0]).report.total <
        (runFrom Watch.step (Watch.boot fun _ => 0) [.init 4096 8192, .call (.alloc 24 16),
          .init 0 0]).report.offset) ∧
    Along Watch.step Watch.Fair (Watch.boot fun _ => 0) [.init 4096 8192, .call (.alloc 24 16),
      .call .reset] ∧ ¬ (runFrom Watch.step (Watch.boot fun _ => 0)
        [.init 4096 8192, .call (.alloc 24 16), .call .reset]).Truthful := by
  decide

end BlockOS.Allocator
