import BlockOS.Paging.ForkCopy
import BlockOS.Paging.Identity
import BlockOS.Paging.Leaves

/-! All address spaces over whole runs. -/

namespace BlockOS.Paging
open Words Bytes Lib Radix Runs List

variable {σ : Type}

structure Machine (σ : Type) where
  phys : Phys σ
  roots : List Word

inductive MapOp where
  | map (root vaddr paddr flags : Word)
  | unmap (root vaddr : Word)
  | protect (root base len flags : Word)
  | create
  | fork (root : Word)
  | switch (root : Word)
  deriving DecidableEq, Repr

namespace Machine

def adopt (M : Machine σ) (R : Word × Phys σ) : Machine σ :=
  { phys := R.2, roots := if R.1 = 0 then M.roots else R.1 :: M.roots }

def step (H : BlockHeap σ) (M : Machine σ) : MapOp → Machine σ
  | .map r va pa flags => { M with phys := (map4k H M.phys r va pa flags).2 }
  | .unmap r va => { M with phys := (unmap4k M.phys r va).2 }
  | .protect r base len flags => { M with phys := (protectUserRange M.phys r base len flags).2 }
  | .create => M.adopt (createUserPml4 H M.phys)
  | .fork r => M.adopt (cloneForFork H r M.phys)
  | .switch r => { M with phys := switchPml4 M.phys r }

/-- Operations name a space that exists, and only 4 KB leaves are unmapped. -/
def Permits (M : Machine σ) : MapOp → Prop
  | .map r _ _ _ => r ∈ M.roots
  | .unmap r va => r ∈ M.roots ∧ SmallWalk M.phys.mem r va
  | .protect r _ _ _ => r ∈ M.roots
  | .create => True
  | .fork r => r ∈ M.roots
  | .switch r => r ∈ M.roots

def boot (H : BlockHeap σ) (maxPhys : Word) (s : Phys σ) : Machine σ :=
  { phys := (installKernelIdentityMap H maxPhys s).2
    roots := [(installKernelIdentityMap H maxPhys s).2.cr3] }

structure InForest (H : BlockHeap σ) (M : Machine σ) (owner : Owner) : Prop where
  space : Space H M.phys owner
  root : ∀ r ∈ M.roots, owner r = some (r, [])
  loaded : M.phys.cr3 ∈ M.roots

variable {H : BlockHeap σ} {M : Machine σ} {owner : Owner}

theorem InForest.adopt (h : InForest H M owner) (hL : LeafLaw H copyLeaf leaf)
    (hsrc : src ∈ M.roots)
    (hR : CloneSpec leaf H 4 [] src M.phys R) :
    ∃ owner', InForest H (M.adopt R) owner' := by
  obtain ⟨log, hT, hM⟩ := hR
  by_cases hz : R.1 = 0
  · refine ⟨owner, (h.space.keeps hT.keeps).1, ?_, ?_⟩
    · simpa [Machine.adopt, hz] using h.root
    · simpa [Machine.adopt, hz, hT.cr3] using h.loaded
  refine ⟨graft owner R.2.mem R.1, Space.graft hL (hM hz) hT h.space (h.root src hsrc), ?_, ?_⟩
  · intro r hr
    simp only [Machine.adopt, if_neg hz, mem_cons] at hr
    rcases hr with rfl | hr
    · exact graft_clone hL (hM hz) hT (Nat.zero_le 3) rfl
    · exact graft_old hL (hM hz) hT h.space (h.root r hr)
  · simp only [Machine.adopt, if_neg hz, hT.cr3]
    exact mem_cons_of_mem _ h.loaded

theorem InForest.clone (h : InForest H M owner) (hL : LeafLaw H copyLeaf leaf)
    (hsrc : src ∈ M.roots) :
    ∃ owner', InForest H (M.adopt (cloneTable H copyLeaf 4 src M.phys)) owner' :=
  h.adopt hL hsrc (cloneTable_spec hL 4 [] src M.phys (h.space.keptTree (h.root src hsrc) rfl))

theorem InForest.frame (h : InForest H M owner) (hr : r ∈ M.roots) : r &&& addrMask = r :=
  h.space.forest.frame (h.root r hr)

theorem adopt_null (M : Machine σ) : M.adopt (0, M.phys) = M := by simp [adopt]

theorem InForest.update (h : InForest H M owner) (hs : Space H s o)
    (hext : ∀ {t x}, owner t = some x → o t = some x) (hc : s.cr3 = M.phys.cr3) :
    InForest H { M with phys := s } o :=
  ⟨hs, fun r hr => hext (h.root r hr), by rw [hc]; exact h.loaded⟩

theorem InForest.create (h : InForest H M owner) :
    ∃ owner', InForest H (M.adopt (createUserPml4 H M.phys)) owner' := by
  have hcr : readCr3 M.phys &&& addrMask = M.phys.cr3 := by
    rw [readCr3, h.frame h.loaded, h.frame h.loaded]
  rw [createUserPml4, cloneCurrentPml4, hcr]
  split
  · exact ⟨owner, M.adopt_null.symm ▸ h⟩
  · exact h.clone levelLeaf_law h.loaded

theorem InForest.fork (h : InForest H M owner) (hr : r ∈ M.roots) :
    ∃ owner', InForest H (M.adopt (cloneForFork H r M.phys)) owner' := by
  rw [cloneForFork, h.frame hr]
  split
  · exact ⟨owner, M.adopt_null.symm ▸ h⟩
  · exact h.clone forkLeaf_law hr

theorem InForest.step (h : InForest H M owner) (hop : M.Permits op) : ∃ owner',
    InForest H (M.step H op) owner' := by
  cases op with
  | map r va pa flags =>
    obtain ⟨o, hs, hext, hc, -⟩ := map4k_spec h.space (h.root r hop) va pa flags rfl
    rw [Machine.step]
    exact ⟨o, h.update hs hext hc⟩
  | unmap r va =>
    obtain ⟨hs, hc, -⟩ := unmap4k_spec h.space (h.root r hop.1) hop.2
    rw [Machine.step]
    exact ⟨owner, h.update hs (fun h => h) hc⟩
  | protect r base len flags =>
    have hs := protectUserRange_spec h.space (h.root r hop) base len flags
    rw [Machine.step]
    exact ⟨owner, h.update hs.space (fun h => h) hs.cr3⟩
  | create =>
    rw [Machine.step]
    exact h.create
  | fork r =>
    rw [Machine.step]
    exact h.fork hop
  | switch r =>
    refine ⟨owner, h.space.of_eq rfl rfl, h.root, ?_⟩
    change r &&& addrMask ∈ M.roots
    rw [h.frame hop]
    exact hop

theorem inForest_single (hs : Space H s owner) (hr : owner s.cr3 = some (s.cr3, [])) :
    InForest H { phys := s, roots := [s.cr3] } owner := by
  refine ⟨hs, fun r hr' => ?_, mem_singleton.mpr rfl⟩
  obtain rfl := mem_singleton.mp hr'
  exact hr

theorem boot_inForest (h : (installKernelIdentityMap H maxPhys s).1 = true) :
    ∃ owner, InForest H (boot H maxPhys s) owner := by
  obtain ⟨o, hs, hr⟩ := installKernelIdentityMap_space rfl h
  rw [boot]
  exact ⟨o, inForest_single hs hr⟩

theorem run_inForest (h : (installKernelIdentityMap H maxPhys s).1 = true)
    (hops : Along (Machine.step H) Permits (boot H maxPhys s) ops) :
    ∃ owner, InForest H (runFrom (Machine.step H) (boot H maxPhys s) ops) owner :=
  hops.invariant (I := fun M => ∃ owner, InForest H M owner) (fun _ _ ⟨_, hM⟩ hop => hM.step hop)
    (boot_inForest h)

end Machine

theorem map4k_maps_one_page (H : BlockHeap σ) (s : Phys σ) (maxPhys : Word)
    (hboot : (installKernelIdentityMap H maxPhys s).1 = true) (ops : List MapOp)
    (hops : Along (Machine.step H) Machine.Permits (Machine.boot H maxPhys s) ops)
    (r : Word) (hr : r ∈ (runFrom (Machine.step H) (Machine.boot H maxPhys s) ops).roots)
    (va pa flags : Word) (hpa : pa.toNat < 2 ^ 52) :
    let M := runFrom (Machine.step H) (Machine.boot H maxPhys s) ops
    let R := map4k H M.phys r va pa flags
    (R.1 = true → translate R.2.mem r va = some (requested pa flags)) ∧
      ∀ r' ∈ M.roots, ∀ va', (R.1 = true → ¬ (r' = r ∧ page va' = page va)) →
        translate R.2.mem r' va' = translate M.phys.mem r' va' := by
  obtain ⟨owner, hM⟩ := Machine.run_inForest hboot hops
  obtain ⟨-, -, -, -, h1, h2⟩ := map4k_spec hM.space (hM.root r hr) va pa flags rfl
  exact ⟨fun h => h1 h hpa, fun r' hr' va' hne => h2 r' va' (hM.root r' hr') hne⟩

def samplePhys : Phys (Allocator.Arena 4096 0x10000) := ⟨fun _ => 0, sampleArena, 0, none⟩

theorem sampleRoot : 8192 ∈ (Machine.boot sampleHeap 0 samplePhys).roots := by decide +kernel

theorem map4k_maps_one_page_sample :
    let M := runFrom (Machine.step sampleHeap) (Machine.boot sampleHeap 0 samplePhys)
      [.map 8192 0x400000 0x9000 7]
    let R := map4k sampleHeap M.phys 8192 0x401000 0xa000 5
    R.1 = true ∧ translate R.2.mem 8192 0x401000 = some (requested 0xa000 5) ∧
      ∀ r' ∈ M.roots, ∀ va', (R.1 = true → ¬ (r' = 8192 ∧ page va' = page 0x401000)) →
        translate R.2.mem r' va' = translate M.phys.mem r' va' := by
  have hboth : ∀ {p q r : Prop}, p → (p → q) ∧ r → p ∧ q ∧ r := fun hp h => ⟨hp, h.1 hp, h.2⟩
  exact hboth (by decide +kernel) (map4k_maps_one_page sampleHeap samplePhys 0 (by decide +kernel)
    [.map 8192 0x400000 0x9000 7] ⟨sampleRoot, trivial⟩ 8192 sampleRoot 0x401000 0xa000 5 (by decide))

open Machine

def tableOn (m : Mem) : Nat → Word → List Index → Option Word
  | _, t, [] => some t
  | level, t, i :: p => (nextTable level (entry m t i)).bind fun u => tableOn m (level - 1) u p

theorem Forest.tableOn_owner (hF : Forest m owner) (ht : owner t = some (r, q))
    (h : tableOn m (4 - q.length) t p = some u) : owner u = some (r, q ++ p) := by
  induction p generalizing t q with
  | nil =>
    cases h
    rw [append_nil]
    exact ht
  | cons i p ih =>
    obtain ⟨v, hv, h⟩ := Option.bind_eq_some_iff.mp h
    have hu := ih (hF.owned t r q i v ht hv) (by rwa [length_append, length_singleton, ← Nat.sub_sub])
    rwa [append_assoc] at hu

theorem tables_not_shared (H : BlockHeap σ) (s : Phys σ) (maxPhys : Word)
    (hboot : (installKernelIdentityMap H maxPhys s).1 = true) (ops : List MapOp)
    (hops : Along (step H) Permits (boot H maxPhys s) ops) :
    let M := runFrom (step H) (boot H maxPhys s) ops
    ∀ r ∈ M.roots, ∀ p t, tableOn M.phys.mem 4 r p = some t → (t, 4096) ∈ H.live M.phys.heap ∧
      ∀ r' ∈ M.roots, ∀ p', tableOn M.phys.mem 4 r' p' = some t → r' = r ∧ p' = p := by
  intro M r hr p t ht
  obtain ⟨owner, hM⟩ := run_inForest hboot hops
  have ho := hM.space.forest.tableOn_owner (hM.root r hr) ht
  refine ⟨hM.space.live ho, fun r' hr' p' ht' => ?_⟩
  have ho' := hM.space.forest.tableOn_owner (hM.root r' hr') ht'
  exact Prod.ext_iff.mp (Option.some.inj (ho'.symm.trans ho))

theorem tables_not_shared_sample :
    let M := runFrom (step sampleHeap) (boot sampleHeap 0 samplePhys) [.create]
    ∀ r ∈ M.roots, ∀ p t, tableOn M.phys.mem 4 r p = some t → (t, 4096) ∈ sampleHeap.live M.phys.heap ∧
      ∀ r' ∈ M.roots, ∀ p', tableOn M.phys.mem 4 r' p' = some t → r' = r ∧ p' = p :=
  tables_not_shared sampleHeap samplePhys 0 (by decide +kernel) [.create] ⟨trivial, trivial⟩

def MapOp.edits : MapOp → Option Word
  | .map r _ _ _ | .unmap r _ | .protect r _ _ _ => some r
  | _ => none

theorem step_isolated (h : InForest H M owner) (hop : M.Permits op) (hr : r ∈ M.roots)
    (he : op.edits ≠ some r) :
    r ∈ (M.step H op).roots ∧ ∀ va, translate (M.step H op).phys.mem r va = translate M.phys.mem r
      va := by
  have ho := h.root r hr
  have hadopt : ∀ {copyLeaf leaf src}, LeafLaw H copyLeaf leaf → src ∈ M.roots →
      r ∈ (M.adopt (cloneTable H copyLeaf 4 src M.phys)).roots ∧
        ∀ va, translate (cloneTable H copyLeaf 4 src M.phys).2.mem r va = translate M.phys.mem r va := by
    intro copyLeaf leaf src hL hsrc
    obtain ⟨log, hT, -⟩ := cloneTable_spec hL 4 [] src M.phys (h.space.keptTree (h.root src hsrc) rfl)
    refine ⟨?_, fun va => (h.space.keeps hT.keeps).2 r va ho⟩
    unfold adopt
    split
    · exact hr
    · exact mem_cons_of_mem _ hr
  cases op with
  | map r' va pa flags =>
    obtain ⟨-, -, -, -, -, h2⟩ := map4k_spec h.space (h.root r' hop) va pa flags rfl
    exact ⟨hr, fun va' => h2 r va' ho fun _ h0 => he (congrArg some h0.1.symm)⟩
  | unmap r' va =>
    obtain ⟨-, -, h2⟩ := unmap4k_spec h.space (h.root r' hop.1) hop.2
    exact ⟨hr, fun va' => h2 r va' ho fun h0 => he (congrArg some h0.1.symm)⟩
  | protect r' base len flags =>
    have hs := protectUserRange_spec h.space (h.root r' hop) base len flags
    exact ⟨hr, fun va => hs.other r va ho fun h0 => he (congrArg some h0.symm)⟩
  | create =>
    have hcr : readCr3 M.phys &&& addrMask = M.phys.cr3 := by
      rw [readCr3, h.frame h.loaded, h.frame h.loaded]
    rw [step, createUserPml4, cloneCurrentPml4, hcr]
    split
    · rw [M.adopt_null]
      exact ⟨hr, fun _ => rfl⟩
    · exact hadopt levelLeaf_law h.loaded
  | fork r' =>
    rw [step, cloneForFork, h.frame hop]
    split
    · rw [M.adopt_null]
      exact ⟨hr, fun _ => rfl⟩
    · exact hadopt forkLeaf_law hop
  | switch r' => exact ⟨hr, fun _ => rfl⟩

theorem address_spaces_isolated (H : BlockHeap σ) (s : Phys σ) (maxPhys : Word)
    (hboot : (installKernelIdentityMap H maxPhys s).1 = true) (before ops : List MapOp) (M : Machine σ)
    (hM : M = runFrom (step H) (boot H maxPhys s) before)
    (hbefore : Along (step H) Permits (boot H maxPhys s) before) (r : Word) (hr : r ∈ M.roots)
    (hops : Along (step H) (fun M op => M.Permits op ∧ op.edits ≠ some r) M ops) (va : Word) :
    translate (runFrom (step H) M ops).phys.mem r va = translate M.phys.mem r va := by
  have hf := hM ▸ run_inForest hboot hbefore
  refine (hops.invariant (I := fun M' => (∃ owner, InForest H M' owner) ∧ r ∈ M'.roots ∧
    translate M'.phys.mem r va = translate M.phys.mem r va) ?_ ⟨hf, hr, rfl⟩).2.2
  rintro M' op ⟨⟨owner, hM'⟩, hr', ht⟩ ⟨hop, he⟩
  obtain ⟨h1, h2⟩ := step_isolated hM' hop hr' he
  exact ⟨hM'.step hop, h1, (h2 va).trans ht⟩

theorem address_spaces_isolated_sample :
    let M := runFrom (step sampleHeap) (boot sampleHeap 0 samplePhys) [.map 8192 0x400000 0x9000 7]
    translate (runFrom (step sampleHeap) M [.create]).phys.mem 8192 0x400000 =
      translate M.phys.mem 8192 0x400000 :=
  address_spaces_isolated sampleHeap samplePhys 0 (by decide +kernel) [.map 8192 0x400000 0x9000 7]
    [.create] _ rfl
    ⟨sampleRoot, trivial⟩ 8192 sampleRoot ⟨⟨trivial, by decide⟩, trivial⟩ 0x400000

end BlockOS.Paging
