import BlockOS.Ldso.Objects
import BlockOS.Lib.Traversal

/-! The order in which the initialisers of the loaded objects run. -/

namespace BlockOS.Ldso
open Words Traversal Relation List Function

structure Inits where
  initialized : Nat → Bool := fun _ => false
  calls : List (Nat × Word) := []

variable (fetch : Word → Word) (objs : List Obj)

def callArray (array bytes : Word) (o : Obj) : Except Stop (List Word) :=
  if array = 0 ∨ bytes = 0 then .ok []
  else if !o.contains array bytes then .error .died
  else .ok (((List.range (bytes.toNat / 8)).map fun i =>
    fetch (array + BitVec.ofNat 64 (8 * i))).filter fun fn =>
    fn != 0 && fn != BitVec.allOnes 64)

def runInitialisers (index : Nat) (o : Obj) (s : Inits) : Except Stop Inits :=
  let s := { s with initialized := update s.initialized index true }
  let s := if o.init ≠ 0 then { s with calls := s.calls ++ [(index, o.init)] } else s
  match callArray fetch o.initArray o.initArraySz o with
  | .error e => .error e
  | .ok fns => .ok { s with calls := s.calls ++ fns.map fun fn => (index, fn) }

def callInitRecursive : Nat → Nat → Inits → Except Stop Inits
  | 0, _, _ => .error .tooDeep
  | fuel + 1, index, s =>
    match objs[index]? with
    | none => .ok s
    | some o =>
      if s.initialized index then .ok s
      else
        let deps : Except Stop Inits := o.needed.foldlM (fun s name =>
          match findObjName objs name with
          | none => .ok s
          | some dep => callInitRecursive fuel dep s) s
        deps.bind (runInitialisers fetch index o)

def deps (index : Nat) : List Nat :=
  match objs[index]? with
  | none => []
  | some o => o.needed.filterMap (findObjName objs)

def initialisers (index : Nat) : List (Nat × Word) :=
  match objs[index]? with
  | none => []
  | some o =>
    (if o.init ≠ 0 then [(index, o.init)] else []) ++
      match callArray fetch o.initArray o.initArraySz o with
      | .error _ => []
      | .ok fns => fns.map fun fn => (index, fn)

def arrayInside (index : Nat) : Bool :=
  match objs[index]? with
  | none => true
  | some o => o.initArray == 0 || o.initArraySz == 0 || o.contains o.initArray o.initArraySz

def Reachable (index : Nat) : Prop := ReflTransGen (Leads (deps objs)) 0 index

def InitialisedOnce : Prop :=
  ∃ fuel s order, callInitRecursive fetch objs fuel 0 {} = .ok s ∧ order.Nodup ∧
    (∀ i, i ∈ order ↔ Reachable objs i) ∧ s.calls = order.flatMap (initialisers fetch objs) ∧
    (Acyclic (deps objs) 0 → Ordered (deps objs) order)

variable {fetch objs}

structure Inits.After (fetch : Word → Word) (objs : List Obj) (s : Inits) (done : List Nat) :
    Prop where
  marks : ∀ j, s.initialized j = true ↔ j ∈ done
  calls : s.calls = done.flatMap (initialisers fetch objs)

def Agree (fetch : Word → Word) (objs : List Obj) : Except Stop Inits → Option (List Nat) → Prop
  | .ok s, some done => s.After fetch objs done
  | .error _, none => True
  | _, _ => False

theorem callArray_inside {index : Nat} {o : Obj} (ho : objs[index]? = some o)
    (h : arrayInside objs index = true) :
    ∃ fns, callArray fetch o.initArray o.initArraySz o = .ok fns := by
  simp only [arrayInside, ho, Bool.or_eq_true, beq_iff_eq] at h
  unfold callArray
  by_cases h0 : o.initArray = 0 ∨ o.initArraySz = 0
  · exact ⟨[], if_pos h0⟩
  · rw [if_neg h0, if_neg (by rw [h.resolve_left h0]; decide)]
    exact ⟨_, rfl⟩

theorem callArray_outside (ho : objs[index]? = some o) (h : arrayInside objs index = false) :
    callArray fetch o.initArray o.initArraySz o = .error .died := by
  simp only [arrayInside, ho, Bool.or_eq_false_iff, beq_eq_false_iff_ne] at h
  unfold callArray
  rw [if_neg (not_or.mpr h.1), if_pos (by rw [h.2]; rfl)]

theorem runInitialisers_agree (ho : objs[index]? = some o) (h : s.After fetch objs done) :
    Agree fetch objs (runInitialisers fetch index o s)
      (if arrayInside objs index then some (done ++ [index]) else none) := by
  unfold runInitialisers
  cases hin : arrayInside objs index with
  | false =>
    rw [callArray_outside ho hin]
    trivial
  | true =>
    obtain ⟨fns, hfns⟩ := @callArray_inside fetch _ _ _ ho hin
    rw [hfns]
    refine ⟨fun j => ?_, ?_⟩
    · have hmark : ∀ s' : Inits,
        (if o.init ≠ 0 then { s' with calls := s'.calls ++ [(index, o.init)] } else s').initialized
          = s'.initialized := by
        intro s'
        split <;> rfl
      show (if _ then _ else _ : Inits).initialized j = true ↔ _
      rw [hmark]
      show update s.initialized index true j = true ↔ _
      rw [update_apply, mem_append, mem_singleton, ← h.marks j]
      by_cases hj : j = index <;> simp [hj]
    · rw [flatMap_append, ← h.calls]
      simp only [initialisers, ho, hfns, flatMap_cons, flatMap_nil, append_nil]
      split <;> simp

theorem bind_agree (h : Agree fetch objs r v)
    (hfg : ∀ s done, s.After fetch objs done → Agree fetch objs (f s) (g done)) :
    Agree fetch objs (r.bind f) (v.bind g) := by
  cases r with
  | error e =>
    cases v with
    | none => trivial
    | some done => exact h.elim
  | ok s =>
    cases v with
    | none => exact h.elim
    | some done => exact hfg s done h

theorem deps_agree {names : List Name} {s : Inits} {done : List Nat}
    (hcall : ∀ {i : Nat} {s : Inits} {done : List Nat}, i < objs.length → s.After fetch objs done →
      Agree fetch objs (callInitRecursive fetch objs fuel i s)
        (visit (deps objs) (arrayInside objs) fuel i done))
    (h : s.After fetch objs done) :
    Agree fetch objs (names.foldlM (fun s name =>
        match findObjName objs name with
        | none => .ok s
        | some dep => callInitRecursive fetch objs fuel dep s) s)
      ((names.filterMap (findObjName objs)).foldlM
        (fun d j => visit (deps objs) (arrayInside objs) fuel j d) done) := by
  induction names generalizing s done with
  | nil => exact h
  | cons name names ih =>
    rw [foldlM_cons, filterMap_cons]
    cases hf : findObjName objs name with
    | none => exact ih h
    | some dep => exact bind_agree (hcall (findObjName_lt hf) h) fun _ _ h' => ih h'

theorem callInitRecursive_agree {fuel i : Nat} {s : Inits} {done : List Nat} (hi : i < objs.length)
    (h : s.After fetch objs done) :
    Agree fetch objs (callInitRecursive fetch objs fuel i s)
      (visit (deps objs) (arrayInside objs) fuel i done) := by
  induction fuel generalizing i s done with
  | zero => trivial
  | succ fuel ih =>
    have ho : objs[i]? = some objs[i] := getElem?_eq_getElem hi
    unfold callInitRecursive visit
    rw [ho]
    dsimp only
    by_cases hdone : i ∈ done
    · rw [if_pos ((h.marks i).mpr hdone), if_pos hdone]
      exact h
    rw [if_neg (fun h0 => hdone ((h.marks i).mp h0)), if_neg hdone]
    have hdeps : deps objs i = objs[i].needed.filterMap (findObjName objs) := by
      unfold deps
      rw [ho]
    rw [hdeps]
    exact bind_agree (deps_agree ih h) fun _ _ h' => runInitialisers_agree ho h'

theorem reachable_finite (hobjs : 0 < objs.length) : {j | Reachable objs j}.Finite := by
  refine (Set.finite_lt_nat objs.length).subset fun j hj => ?_
  rcases ReflTransGen.cases_tail hj with rfl | ⟨k, -, hk⟩
  · exact hobjs
  unfold Leads deps at hk
  split at hk
  · cases hk
  · obtain ⟨name, -, hname⟩ := mem_filterMap.mp hk
    exact findObjName_lt hname

theorem after_nil : Inits.After fetch objs {} [] := ⟨fun j => by simp, rfl⟩

theorem InitialisedOnce.visit (hobjs : 0 < objs.length) (h : InitialisedOnce fetch objs) :
    ∃ fuel order, visit (deps objs) (arrayInside objs) fuel 0 [] = some order := by
  obtain ⟨fuel, s, -, hcall, -⟩ := h
  have hagree := @callInitRecursive_agree _ _ fuel _ _ _ hobjs (@after_nil fetch objs)
  rw [hcall] at hagree
  cases hv : Traversal.visit (deps objs) (arrayInside objs) fuel 0 [] with
  | none =>
    rw [hv] at hagree
    exact hagree.elim
  | some done => exact ⟨fuel, done, hv⟩

theorem initialisedOnce_of_visit (hobjs : 0 < objs.length)
    (h : visit (deps objs) (arrayInside objs) fuel 0 [] = some order) : InitialisedOnce fetch objs := by
  have hagree := @callInitRecursive_agree _ _ fuel _ _ _ hobjs (@after_nil fetch objs)
  rw [h] at hagree
  obtain ⟨hnodup, hmem, hord⟩ := visit_lists h
  cases hcall : callInitRecursive fetch objs fuel 0 {} with
  | error e =>
    rw [hcall] at hagree
    exact hagree.elim
  | ok s =>
    rw [hcall] at hagree
    exact ⟨fuel, s, order, hcall, hnodup, hmem, hagree.calls, fun _ => hord⟩

theorem initialised_once_iff (fetch : Word → Word) (main : Obj) (libs : List Obj) :
    InitialisedOnce fetch (main :: libs) ↔
      Acyclic (deps (main :: libs)) 0 ∧ ∀ i, Reachable (main :: libs) i →
        arrayInside (main :: libs) i = true := by
  have hobjs : 0 < (main :: libs).length := Nat.succ_pos _
  refine Iff.trans ⟨fun h => h.visit hobjs, ?_⟩ (visit_iff (reachable_finite hobjs))
  rintro ⟨fuel, order, hv⟩
  exact initialisedOnce_of_visit hobjs hv

def cycleObjs : List Obj :=
  [{ name := text "(main)", needed := [text "a"], isMain := true },
    { name := text "a", needed := [text "b"] }, { name := text "b", needed := [text "a"] }]

theorem cycle_not_initialised : ¬ InitialisedOnce (fun _ => 0) cycleObjs := by
  intro h
  have hac := ((visit_iff (reachable_finite (by decide))).mp (h.visit (by decide))).1
  have h01 : Leads (deps cycleObjs) 0 1 := by unfold Leads; decide
  have h12 : Leads (deps cycleObjs) 1 2 := by unfold Leads; decide
  have h21 : Leads (deps cycleObjs) 2 1 := by unfold Leads; decide
  exact hac 1 (.single h01) (.tail (.single h12) h21)

end BlockOS.Ldso
