import RedevPlugin.Session.FenceStores

/-! What a fence store is for. A fence of a scope is a small machine; an operation of a
store either fails and leaves the store alone, or does with the fence of its scope what
the machine does. This holds of all three stores, whatever the times. -/

namespace RedevPlugin.Session

variable {P : Type}

/-! ### Counts -/

theorem Counts.valid_zero : Counts.valid (fun _ => 0) = true := by decide

variable {counts delta : Counts}

theorem Counts.valid_iff : counts.valid = true ↔ ∀ f, counts f ≤ maxSafeInteger := by
  simp only [Counts.valid, List.all_eq_true, decide_eq_true_eq]
  exact ⟨fun h f => h f f.mem_all, fun h f _ => h f⟩

theorem Counts.add_eq_ok {sum} (h : counts.add delta = .ok sum) :
    sum = (fun f => counts f + delta f) ∧ ∀ f, sum f ≤ maxSafeInteger := by
  rw [Counts.add] at h
  split at h
  · cases h
  rename_i hany
  cases h
  refine ⟨rfl, fun f => ?_⟩
  by_contra hla
  apply hany
  rw [List.any_eq_true]
  refine ⟨f, f.mem_all, ?_⟩
  simp only [Bool.or_eq_true, decide_eq_true_eq]
  simp only at hla
  omega

/-! ### The machine -/

structure Fence (P : Type) where
  state : State
  counts : Counts
  operationId : String
  proof : Option P
  phases : Table Phase Counts

def Operation.scope : Operation P → SessionScope
  | .beginTeardown scope _ _ _ | .accumulate scope _ _ | .accumulatePhase scope _ _ _
  | .markIncomplete scope _ | .markComplete scope _ | .finalize scope _ _ => scope

def Fence.Identified (f : Fence P) (operationId : String) (proof : P) : Prop :=
  f.proof = some proof ∧ f.operationId = operationId

/-- What an operation that succeeds does to the fence of its scope. -/
inductive Fence.Step : Operation P → Option (Fence P) → Option (Fence P) → Prop
  | begun {scope operationId proof now} :
    Step (.beginTeardown scope operationId proof now) none
      (some ⟨.draining, fun _ => 0, operationId, some proof, ∅⟩)
  | resumed {scope operationId proof now f} (hid : f.Identified operationId proof)
      (hstate : f.state = .draining ∨ f.state = .incomplete) :
      Step (.beginTeardown scope operationId proof now) (some f)
      (some { f with state := .draining })
  | repeated {scope operationId proof now f} (hid : f.Identified operationId proof)
      (hstate : f.state = .complete) :
      Step (.beginTeardown scope operationId proof now) (some f) (some f)
  | accumulated {scope delta now f counts} (hstate : f.state = .draining)
      (hadd : f.counts.add delta = .ok counts) :
      Step (.accumulate scope delta now) (some f) (some { f with counts })
  | phaseRepeated {scope phase delta now f} (hstate : f.state = .draining)
      (hphase : (f.phases.lookup phase).isSome = true) :
      Step (.accumulatePhase scope phase delta now) (some f) (some f)
  | phaseAccumulated {scope phase delta now f counts} (hstate : f.state = .draining)
      (hphase : f.phases.lookup phase = none) (hadd : f.counts.add delta = .ok counts) :
      Step (.accumulatePhase scope phase delta now) (some f)
      (some { f with counts, phases := f.phases.insert phase delta })
  | incomplete {scope now f} (hstate : f.state = .draining ∨ f.state = .incomplete) :
    Step (.markIncomplete scope now) (some f) (some { f with state := .incomplete })
  | complete {scope now f} (hstate : f.state = .draining ∨ f.state = .complete) :
    Step (.markComplete scope now) (some f) (some { f with state := .complete })
  | finalized {scope operationId proof f} (hid : f.Identified operationId proof)
      (hstate : f.state = .complete) : Step (.finalize scope operationId proof) (some f) none

/-- How a store holds fences, and what it relies on. -/
structure Viewed (P σ : Type) where
  view : σ → SessionScope → Option (Fence P)
  good : σ → Prop

/-- An operation fails and changes nothing, or moves the fence of its scope and no other. -/
inductive Performs {σ : Type} (V : Viewed P σ) (s : σ) (op : Operation P) : Outcome P σ → Prop
  | failed (e : FenceError) : Performs V s op (.error e, s)
  | done {r t f} (hstep : Fence.Step op (V.view s op.scope) f)
      (hview : V.view t = Function.update (V.view s) op.scope f) (hgood : V.good t) :
      Performs V s op (.ok r, t)

/-- The end of an operation, with `f` for the fence of a scope. -/
inductive Moves {σ : Type} (V : Viewed P σ) (s : σ) (k : SessionScope) (f : Option (Fence P)) :
    Outcome P σ → Prop
  | failed (e : FenceError) : Moves V s k f (.error e, s)
  | done {r t} (hview : V.view t = Function.update (V.view s) k f) (hgood : V.good t) :
      Moves V s k f (.ok r, t)

section Moves

variable {σ : Type} {V : Viewed P σ} {s : σ} {f : Option (Fence P)}

theorem Moves.performs {op o} (h : Moves V s op.scope f o)
    (hstep : Fence.Step op (V.view s op.scope) f) : Performs V s op o := by
  cases h with
  | failed e => exact .failed e
  | done hview hgood => exact .done hstep hview hgood

theorem Moves.unchanged {k} (hview : V.view s k = f) (hgood : V.good s) (r : Option (Record P)) :
    Moves V s k f (.ok r, s) :=
  .done (by rw [← hview, Function.update_eq_self]) hgood

end Moves

/-! ### Decisions

All three stores come to the same decision about a fence. They differ in what they check first, in
what they read, and in how they carry a decision out. -/

inductive Decision where
  | refuse (e : FenceError)
  | update (state : State) (counts : Counts)
  | keep
  | replay (phase : Phase)
  | record (phase : Phase) (delta counts : Counts)
  | drop

def Decision.apply (f : Fence P) : Decision → Option (Fence P)
  | .update state counts => some { f with state, counts }
  | .record phase delta counts =>
    some { f with counts, phases := f.phases.insert phase delta }
  | .drop => none
  | _ => some f

def Change.decide (apply : Change) (f : Fence P) : Decision :=
  match apply (f.state, f.counts) with
  | .error e => .refuse e
  | .ok (state, counts) => .update state counts

instance [DecidableEq P] (f : Fence P) (operationId : String) (proof : P) :
    Decidable (f.Identified operationId proof) :=
  inferInstanceAs (Decidable (_ ∧ _))

def Operation.decide [DecidableEq P] (f : Fence P) : Operation P → Decision
  | .beginTeardown _ operationId proof _ =>
    if f.Identified operationId proof then
      match f.state with
      | .incomplete | .draining => .update .draining f.counts
      | .complete => .keep
      | .active => .refuse .invalidState
    else .refuse .teardownIdentityMismatch
  | .accumulate _ delta _ => (accumulateChange delta).decide f
  | .accumulatePhase _ phase delta _ =>
    if f.state ≠ .draining then .refuse .invalidState
    else match f.phases.lookup phase with
      | some _ => .replay phase
      | none =>
        match f.counts.add delta with
        | .error e => .refuse e
        | .ok counts => .record phase delta counts
  | .markIncomplete .. => Change.decide markIncompleteChange f
  | .markComplete .. => Change.decide markCompleteChange f
  | .finalize _ operationId proof =>
    if f.state = .complete ∧ f.Identified operationId proof then .drop
    else .refuse .closedSessionProofInvalid

def Operation.absent (full : Bool) : Operation P → Except FenceError (String × P)
  | .beginTeardown _ operationId proof _ =>
    if full then .error .fenceCapacity else .ok (operationId, proof)
  | .finalize .. => .error .closedSessionProofInvalid
  | _ => .error .scopeNotFound

def Operation.input : Operation P → Except FenceError Unit
  | .beginTeardown _ operationId _ _ =>
    if !validTeardownOperationID operationId then .error .teardownIdentityInvalid else .ok ()
  | .accumulate _ delta _ => if !delta.valid then .error .invalidCounts else .ok ()
  | .accumulatePhase _ phase delta _ =>
    if !phase.valid || !delta.valid then .error .invalidCounts else .ok ()
  | _ => .ok ()

/-- The checks before the store is read, in one of two orders. -/
def Request.vet (q : Request P) (inputFirst : Bool) : Except FenceError Unit :=
  if inputFirst then
    match q.op.input with
    | .error e => .error e
    | .ok _ => validateStoreCall q.canceled q.op.scope
  else
    match validateStoreCall q.canceled q.op.scope with
    | .error e => .error e
    | .ok _ => q.op.input

def Operation.now : Operation P → Option ℤ
  | .beginTeardown _ _ _ now | .accumulate _ _ now | .accumulatePhase _ _ _ now
  | .markIncomplete _ now | .markComplete _ now => some now
  | .finalize _ _ _ => none

open Operation (scope absent input now)
open Function (update_apply update_self update_of_ne)

def Request.time (q : Request P) : ℤ := normalizedStoreTime q.clock (q.op.now.getD 0)

open Request (vet time)

/-- A store as its way to carry decisions out. -/
structure Engine (P σ ρ : Type) where
  inputFirst : Operation P → Bool
  full : σ → Bool
  read : σ → SessionScope → Option (Except FenceError ρ)
  fence : σ → SessionScope → ρ → Fence P
  denied : Operation P → FenceError → FenceError
  create : σ → Request P → String → P → Outcome P σ
  settle : σ → Request P → ρ → Decision → Outcome P σ

section Engines

variable [DecidableEq P] {σ ρ : Type} (E : Engine P σ ρ) (s : σ) (q : Request P)

def Engine.act : Outcome P σ :=
  match E.read s q.op.scope with
  | some (.error e) => (.error (E.denied q.op e), s)
  | none =>
    match q.op.absent (E.full s) with
    | .error e => (.error e, s)
    | .ok (operationId, proof) => E.create s q operationId proof
  | some (.ok r) => E.settle s q r (q.op.decide (E.fence s q.op.scope r))

def Engine.perform : Outcome P σ :=
  match q.vet (E.inputFirst q.op) with
  | .error e => (.error e, s)
  | .ok _ => E.act s q

end Engines

section Decisions

variable {f : Fence P} {op : Operation P} {d : Decision}

variable {inputFirst full : Bool} {proof : P} {operationId : String}

theorem vet_eq_ok {q : Request P} (h : q.vet inputFirst = .ok ()) :
    q.op.input = .ok () ∧ validateStoreCall q.canceled q.op.scope = .ok () := by
  rw [vet] at h
  split_ifs at h <;> split at h
  · cases h
  · exact ⟨by assumption, h⟩
  · cases h
  · exact ⟨h, by assumption⟩

theorem absent_eq_ok (h : op.absent full = .ok (operationId, proof)) :
    ∃ scope now, op = .beginTeardown scope operationId proof now := by
  cases op with
  | beginTeardown scope =>
    rw [absent] at h
    split at h <;> cases h
    exact ⟨scope, _, rfl⟩
  | _ => cases h

theorem vet_create {q : Request P} (hvet : q.vet inputFirst = .ok ())
    (h : q.op.absent full = .ok (operationId, proof)) :
    q.op.scope.validate = .ok () ∧ validTeardownOperationID operationId = true ∧
      ∃ now, q.op.now = some now := by
  obtain ⟨hin, hcall⟩ := vet_eq_ok hvet
  obtain ⟨scope, now, hop⟩ := absent_eq_ok h
  refine ⟨?_, ?_, now, by rw [hop]; rfl⟩
  · rw [validateStoreCall] at hcall
    split_ifs at hcall
    exact hcall
  · by_contra hnot
    simp [hop, input, hnot] at hin

/-- Valid counts stay valid, and the next state is one of a teardown. -/
theorem Fence.Step.sound {f'} (h : Fence.Step op (some f) (some f')) (hf : f.counts.valid = true) :
    f'.counts.valid = true ∧ f'.state ≠ .active := by
  cases h with
  | resumed | incomplete | complete => exact ⟨hf, by simp⟩
  | repeated _ hstate | phaseRepeated hstate => exact ⟨hf, by simp [hstate]⟩
  | accumulated hstate hadd =>
    exact ⟨Counts.valid_iff.mpr (Counts.add_eq_ok hadd).2, by simp [hstate]⟩
  | phaseAccumulated hstate _ hadd =>
    exact ⟨Counts.valid_iff.mpr (Counts.add_eq_ok hadd).2, by simp [hstate]⟩

variable [DecidableEq P]

theorem decide_step (h : op.decide f = d) (hd : ∀ e, d ≠ .refuse e) :
    Fence.Step op (some f) (d.apply f) := by
  subst h
  revert hd
  fun_cases op.decide f <;> intro hd
  · exact .resumed ‹_› (.inr ‹_›)
  · exact .resumed ‹_› (.inl ‹_›)
  · exact .repeated ‹_› ‹_›
  · exact absurd rfl (hd _)
  · exact absurd rfl (hd _)
  · simp only [Change.decide, accumulateChange] at hd ⊢
    by_cases hstate : f.state = .draining
    · rw [if_neg (not_not.mpr hstate)] at hd ⊢
      cases hadd : f.counts.add _ with
      | error e => exact absurd (by rw [hadd]) (hd e)
      | ok => exact .accumulated hstate hadd
    · rw [if_pos hstate] at hd
      exact absurd rfl (hd _)
  · exact absurd rfl (hd _)
  · exact .phaseRepeated (not_not.mp ‹_›) (Option.isSome_of_eq_some ‹_›)
  · exact absurd rfl (hd _)
  · exact .phaseAccumulated (not_not.mp ‹_›) ‹_› ‹_›
  · obtain ⟨state, counts, operationId, proof, phases⟩ := f
    cases state with
    | active | complete => exact absurd rfl (hd _)
    | draining => exact .incomplete (.inl rfl)
    | incomplete => exact .incomplete (.inr rfl)
  · obtain ⟨state, counts, operationId, proof, phases⟩ := f
    cases state with
    | active | incomplete => exact absurd rfl (hd _)
    | draining => exact .complete (.inl rfl)
    | complete => exact .complete (.inr rfl)
  · rename_i hcheck
    exact .finalized hcheck.2 hcheck.1
  · exact absurd rfl (hd _)

theorem decide_record {phase delta counts} (hin : op.input = .ok ())
    (h : op.decide f = .record phase delta counts) :
    f.phases.lookup phase = none ∧ phase.valid = true ∧ delta.valid = true := by
  cases op <;> simp only [Operation.decide, Change.decide, input] at h hin <;> grind

variable {σ ρ : Type} {E : Engine P σ ρ} {V : Viewed P σ} {s : σ} {q : Request P}

/-- A store that reads its fences, and carries out what it decides. -/
theorem Engine.performs (hnone : E.read s q.op.scope = none → V.view s q.op.scope = none)
    (hso : ∀ r, E.read s q.op.scope = some (.ok r) →
      V.view s q.op.scope = some (E.fence s q.op.scope r))
    (hcr : ∀ operationId proof, E.read s q.op.scope = none →
      q.vet (E.inputFirst q.op) = .ok () → q.op.absent (E.full s) = .ok (operationId, proof) →
      Moves V s q.op.scope (some ⟨.draining, fun _ => 0, operationId, some proof, ∅⟩)
        (E.create s q operationId proof))
    (hre : ∀ r e, E.settle s q r (.refuse e) = (.error e, s))
    (hse : ∀ r d, E.read s q.op.scope = some (.ok r) → q.vet (E.inputFirst q.op) = .ok () →
      q.op.decide (E.fence s q.op.scope r) = d →
      Fence.Step q.op (some (E.fence s q.op.scope r)) (d.apply (E.fence s q.op.scope r)) →
      Moves V s q.op.scope (d.apply (E.fence s q.op.scope r)) (E.settle s q r d)) :
    Performs V s q.op (E.perform s q) := by
  rw [Engine.perform]
  split
  · exact .failed _
  rename_i hvet
  rw [Engine.act]
  split
  · exact .failed _
  · rename_i hrea
    split
    · exact .failed _
    rename_i operationId proof hab
    refine (hcr operationId proof hrea hvet hab).performs ?_
    obtain ⟨scope, now, hop⟩ := absent_eq_ok hab
    rw [hnone hrea, hop]
    exact .begun
  · rename_i r hrea
    by_cases hd : ∃ e, q.op.decide (E.fence s q.op.scope r) = .refuse e
    · obtain ⟨e, he⟩ := hd
      rw [he, hre]
      exact .failed e
    · have hstep := decide_step rfl (not_exists.mp hd)
      refine (hse r _ hrea hvet rfl hstep).performs ?_
      rwa [hso r hrea]

end Decisions

/-! ### Memory -/

def Record.fence (r : Record P) : Fence P := ⟨r.state, r.counts, r.operationId, r.proof, r.phases⟩

namespace Memory

def view (s : Store P) (k : SessionScope) : Option (Fence P) :=
  (s.records.lookup k).map Record.fence

def viewed : Viewed P (Store P) := ⟨view, fun _ => True⟩

def settle (s : Store P) (q : Request P) (r : Record P) : Decision → Outcome P (Store P)
  | .refuse e => (.error e, s)
  | .update state counts =>
    put s q.op.scope { r with state, counts, updatedAt := q.time }
  | .keep => put s q.op.scope r
  | .replay _ => put s q.op.scope { r with updatedAt := q.time }
  | .record phase delta counts =>
    put s q.op.scope { r with
      counts, phases := r.phases.insert phase delta, updatedAt := q.time }
  | .drop => (.ok none, { s with records := s.records.erase q.op.scope })

def engine : Engine P (Store P) (Record P) where
  inputFirst
    | .accumulate .. | .accumulatePhase .. => true
    | _ => false
  full s := s.maxScopes ≤ s.records.size
  read s k := (s.records.lookup k).map .ok
  fence _ _ := Record.fence
  denied _ := id
  create s q operationId proof := put s q.op.scope (newRecord q.op.scope operationId proof q.time)
  settle

variable {s : Store P} {q : Request P}

theorem put_moves {k r f} (hf : some r.fence = f) : Moves viewed s k f (put s k r) := by
  refine .done ?_ trivial
  subst hf
  funext k'
  simp only [viewed, view, Finmap.lookup_insert_ite, update_apply]
  split_ifs <;> rfl

section Perform

variable [DecidableEq P]

theorem perform_eq (s : Store P) (q : Request P) : perform s q = engine.perform s q := by
  obtain ⟨canceled, clock, op⟩ := q
  cases op <;> simp only [perform, beginTeardown, accumulate, accumulatePhase, finalize, transition,
    Engine.perform, Engine.act, engine, vet, input, scope,
    absent, Operation.decide, Change.decide]
  all_goals
    generalize s.records.lookup _ = found, validateStoreCall canceled _ = call
    cases found <;> cases call <;>
      simp only [Option.map_some, Option.map_none, Record.fence, Fence.Identified] <;>
      grind [settle, recordMatchesTeardownIdentity, time, now, scope]

theorem perform_performs (s : Store P) (q : Request P) : Performs viewed s q.op (perform s q) := by
  rw [perform_eq]
  refine Engine.performs (fun h => ?_) (fun r h => ?_) (fun operationId proof _ _ _ => ?_)
    (fun _ _ => rfl) fun r d _ _ _ _ => ?_
  · simp only [engine, Option.map_eq_none_iff] at h
    simp [viewed, view, h]
  · simp only [engine, Option.map_eq_some_iff] at h
    obtain ⟨_, h, ⟨⟩⟩ := h
    simp [viewed, view, h, engine]
  · exact put_moves rfl
  · cases d with
    | refuse e => exact .failed e
    | drop =>
      refine .done ?_ trivial
      funext k
      simp only [viewed, view, Finmap.lookup_erase_ite, update_apply]
      split_ifs <;> rfl
    | _ => exact put_moves rfl

end Perform

end Memory

/-! ### Tables

Two of the stores have a table of fences and a table of phases. -/

section Tables

variable {Row : Type} (fence : Row → Fence P) (fences : Table SessionScope Row)
  {phases phases' : SessionScope → Table Phase Counts} {v v' : SessionScope → Option (Fence P)}
  {k : SessionScope}

def tableView (phases : SessionScope → Table Phase Counts) (k : SessionScope) : Option (Fence P) :=
  (fences.lookup k).map fun row => { fence row with phases := phases k }

theorem tableView_insert (row : Row) (hph : ∀ k', k' ≠ k → phases' k' = phases k') :
    tableView fence (fences.insert k row) phases' =
      Function.update (tableView fence fences phases) k
        (some { fence row with phases := phases' k }) := by
  funext k'
  simp only [tableView, Finmap.lookup_insert_ite, update_apply]
  split_ifs with hk
  · rw [hk]
    rfl
  · rw [hph k' hk]

theorem tableView_erase (phases : SessionScope → Table Phase Counts) (k : SessionScope) :
    tableView fence (fences.erase k) (Function.update phases k ∅) =
      Function.update (tableView fence fences phases) k none := by
  funext k'
  by_cases hne : k' = k
  · subst hne
    simp [tableView]
  · simp [tableView, hne]

/-- There are no phases without a fence. -/
def Phased (v : SessionScope → Option (Fence P)) (phases : SessionScope → Table Phase Counts) :
    Prop :=
  ∀ k, v k = none → phases k = ∅

theorem Phased.update (hs : Phased v phases) {f} (hview : v' = Function.update v k f)
    (hph : ∀ k', k' ≠ k → phases' k' = phases k') (hf : f = none → phases' k = ∅) :
    Phased v' phases' := by
  intro k' hk'
  rw [hview] at hk'
  by_cases hne : k' = k
  · subst hne
    rw [update_self] at hk'
    exact hf hk'
  · rw [update_of_ne hne] at hk'
    rw [hph k' hne]
    exact hs k' hk'

end Tables

/-! ### SQLite -/

namespace SQLite

def Row.fence (row : Row P) (phases : Table Phase Counts) : Fence P :=
  ⟨row.state, row.counts, row.operationId, row.proof, phases⟩

def view (s : Store P) (k : SessionScope) : Option (Fence P) :=
  (s.fences.lookup k).map fun row => row.fence (s.phases k)

/-- There are no phases without a fence. -/
def viewed : Viewed P (Store P) := ⟨view, fun s => ∀ k, view s k = none → s.phases k = ∅⟩

def settle (s : Store P) (q : Request P) (r : Record P) : Decision → Outcome P (Store P)
  | .refuse e => (.error e, s)
  | .update state counts => commit s { r with state, counts, updatedAt := q.time }
  | .keep => (.ok (some r), s)
  | .replay phase =>
    if ((s.phases q.op.scope).lookup phase).any fun persisted => !persisted.valid then
      (.error .invalidCounts, s)
    else (.ok (some r), s)
  | .record phase delta counts =>
    match commit s { r with counts, updatedAt := q.time } with
    | (.error e, _) => (.error e, s)
    | (.ok r, t) =>
      (.ok r, { t with phases :=
        Function.update t.phases q.op.scope ((t.phases q.op.scope).insert phase delta) })
  | .drop => (.ok none, { s with
    fences := s.fences.erase q.op.scope, phases := Function.update s.phases q.op.scope ∅ })

def engine [DecidableEq P] : Engine P (Store P) (Record P) where
  inputFirst
    | .accumulate .. => true
    | _ => false
  full s := s.maxScopes ≤ s.fences.size
  read s k := (s.fences.lookup k).map (scanSQLiteSessionScope k)
  fence s k r := { r.fence with phases := s.phases k }
  denied _ := id
  create s q operationId proof := commit s (newRecord q.op.scope operationId proof q.time)
  settle

variable {r : Record P} {s : Store P} {k : SessionScope} {scope : SessionScope}

theorem scan_eq_ok {row} [DecidableEq P] (h : scanSQLiteSessionScope scope row = .ok r) :
    r = ⟨scope, row.state, row.counts, row.operationId, row.proof, row.createdAt,
      row.updatedAt, ∅⟩ := by
  revert h
  fun_cases scanSQLiteSessionScope scope row <;> rintro ⟨⟩
  rfl

theorem view_of_scan [DecidableEq P]
    (h : (s.fences.lookup scope).map (scanSQLiteSessionScope scope) = some (.ok r)) :
    view s scope = some { r.fence with phases := s.phases scope } ∧ r.scope = scope := by
  obtain ⟨row, hrow, hsc⟩ := Option.map_eq_some_iff.mp h
  rw [view, hrow, scan_eq_ok hsc]
  exact ⟨rfl, rfl⟩

theorem view_of_none [DecidableEq P]
    (h : (s.fences.lookup scope).map (scanSQLiteSessionScope scope) = none) :
    view s scope = none := by
  rw [view, Option.map_eq_none_iff.mp h]
  rfl

theorem perform_eq [DecidableEq P] (s : Store P) (q : Request P) :
    perform s q = engine.perform s q := by
  obtain ⟨canceled, clock, op⟩ := q
  cases op <;> simp only [perform, beginTeardown, accumulate, accumulatePhase, finalize, transition,
    Engine.perform, Engine.act, engine, vet, input, scope,
    absent, Operation.decide, Change.decide]
  all_goals
    generalize (s.fences.lookup _).map (scanSQLiteSessionScope _) = found,
      validateStoreCall canceled _ = call
    obtain _ | e | r := found <;> cases call <;>
      simp only [Record.fence, Fence.Identified] <;>
      grind [settle, recordMatchesTeardownIdentity, time, now, scope]

/-- The end of an operation that writes a record, and may write a phase. -/
theorem insert_moves (hs : viewed.good s) (hscope : r.scope = k) {phases}
    (hph : ∀ k', k' ≠ k → phases k' = s.phases k') :
    Moves viewed s k (some { r.fence with phases := phases k }) (.ok (some r), ⟨s.maxScopes,
      s.fences.insert r.scope (sqliteSessionScopeArguments r), phases⟩) := by
  subst hscope
  have hview := tableView_insert (fun row => Row.fence row ∅) s.fences
    (sqliteSessionScopeArguments r) hph
  exact .done hview (Phased.update hs hview hph nofun)

theorem commit_cases (s : Store P) (r : Record P) :
    (∃ e, commit s r = (.error e, s)) ∨ commit s r = (.ok (some r), { s with
      fences := s.fences.insert r.scope (sqliteSessionScopeArguments r) }) := by
  rw [commit]
  split
  · exact .inl ⟨_, rfl⟩
  · exact .inr rfl

theorem commit_moves (hs : viewed.good s) (hscope : r.scope = k) {f}
    (hf : some { r.fence with phases := s.phases k } = f) : Moves viewed s k f (commit s r) := by
  subst hf
  obtain ⟨e, he⟩ | hr := commit_cases s r
  · rw [he]
    exact .failed e
  · rw [hr]
    exact insert_moves hs hscope fun _ _ => rfl

theorem perform_performs [DecidableEq P] (hs : viewed.good s) (q : Request P) :
    Performs viewed s q.op (perform s q) := by
  rw [perform_eq]
  refine Engine.performs view_of_none (fun r h => (view_of_scan h).1)
    (fun operationId proof h _ _ => ?_)
    (fun _ _ => rfl) fun r d h _ _ _ => ?_
  · refine commit_moves (r := newRecord q.op.scope operationId proof q.time)
      (k := q.op.scope) hs rfl ?_
    rw [hs _ (view_of_none h)]
    rfl
  · obtain ⟨hview, hscope⟩ := view_of_scan h
    cases d with
    | refuse e => exact .failed e
    | update state counts =>
      exact commit_moves (r := { r with state, counts, updatedAt := q.time }) hs
        hscope rfl
    | keep => exact .unchanged hview hs _
    | replay =>
      simp only [engine, settle]
      split
      · exact .failed _
      · exact .unchanged hview hs _
    | record phase delta counts =>
      simp only [engine, settle]
      obtain ⟨e, he⟩ | hr := commit_cases s { r with counts, updatedAt := q.time }
      · rw [he]
        exact .failed e
      · rw [hr]
        have hph : ∀ k, k ≠ q.op.scope → Function.update s.phases q.op.scope
            ((s.phases q.op.scope).insert phase delta) k = s.phases k :=
          fun k hne => update_of_ne hne _ _
        have hmo := insert_moves (r := { r with counts, updatedAt := q.time }) hs hscope
          hph
        rwa [update_self] at hmo
    | drop =>
      have hview := tableView_erase (fun row => Row.fence row ∅) s.fences s.phases q.op.scope
      exact .done hview (Phased.update hs hview (fun k hne => update_of_ne hne _ _)
        fun _ => update_self ..)

end SQLite

/-! ### The control database -/

theorem normalizedStoreTime_ne_zeroTime (clock : Clock) (now : ℤ) :
    normalizedStoreTime clock now ≠ zeroTime := by
  rw [normalizedStoreTime]
  split_ifs with h
  · rw [zeroTime]
    omega
  · exact h

theorem Request.time_ne_zeroTime (q : Request P) : q.time ≠ zeroTime :=
  normalizedStoreTime_ne_zeroTime q.clock _

namespace Control

def ControlRecord.fence (r : ControlRecord P) : Fence P :=
  ⟨r.state, r.counts, r.operationId, some r.proof, r.phases⟩

def view (s : Store P) (k : SessionScope) : Option (Fence P) :=
  (s.fences.lookup k).map fun row => { row.fence.fence with phases := s.phases k }

/-- The columns of a row repeat its record. -/
structure GoodRow (row : Row P) : Prop where
  state : row.fence.state = row.state
  proof : row.fence.proof = row.proof
  operationId : validTeardownOperationID row.fence.operationId = true
  createdAt : row.fence.createdAt ≠ zeroTime
  updatedAt : row.fence.updatedAt ≠ zeroTime

structure Good (s : Store P) : Prop where
  rows : ∀ k row, s.fences.lookup k = some row → GoodRow row
  phases : ∀ k, view s k = none → s.phases k = ∅

def viewed : Viewed P (Store P) := ⟨view, Good⟩

/-- A record that the adapter returns. -/
structure Presentable (r : ControlRecord P) : Prop where
  scope : r.scope.validate = .ok ()
  counts : r.counts.valid = true
  operationId : validTeardownOperationID r.operationId = true
  createdAt : r.createdAt ≠ zeroTime
  updatedAt : r.updatedAt ≠ zeroTime
  phases : decodedPhasesValid r.phases = true

variable {r : ControlRecord P} {s : Store P} {k : SessionScope}

theorem Presentable.recordFromControl (h : Presentable r) :
    recordFromControl r = .ok ⟨r.scope, r.state, r.counts, r.operationId, some r.proof,
      r.createdAt, r.updatedAt, r.phases⟩ := by
  rw [Control.recordFromControl, if_neg, if_neg]
  · simp [h.phases]
  · simp [h.scope, h.counts, h.operationId, h.createdAt, h.updatedAt]

theorem scan_eq_ok [DecidableEq P] {scope row} (hrow : GoodRow row)
    (h : scanSessionControlRecord scope row = .ok r) :
    r = { row.fence with scope } ∧ scope.validate = .ok () ∧ r.counts.valid = true := by
  simp only [scanSessionControlRecord, if_neg hrow.updatedAt, if_neg hrow.createdAt] at h
  split at h
  · cases h
  split at h
  · cases h
  rename_i hcheck
  simp only [not_or, ne_eq, not_not, Bool.not_eq_true', Bool.not_eq_false] at hcheck
  cases h
  exact ⟨rfl, hcheck.1, hcheck.2.1⟩

theorem get_eq_ok [DecidableEq P] (hs : Good s) {scope}
    (h : getSessionControlRecord s scope = some (.ok r)) :
    view s scope = some r.fence ∧ r.scope = scope ∧ r.phases = s.phases scope ∧ Presentable r := by
  obtain ⟨row, hrow, hsc⟩ := Option.map_eq_some_iff.mp h
  have hgood := hs.rows scope row hrow
  split at hsc
  · cases hsc
  rename_i record hre
  split at hsc
  · cases hsc
  rename_i hph
  obtain ⟨rfl, hscope, hco⟩ := scan_eq_ok hgood hre
  cases hsc
  refine ⟨?_, rfl, rfl, ⟨hscope, hco, hgood.operationId, hgood.createdAt, hgood.updatedAt, ?_⟩⟩
  · rw [view, hrow]
    rfl
  · simpa using hph

theorem view_of_none [DecidableEq P] {scope} (h : getSessionControlRecord s scope = none) :
    view s scope = none := by
  rw [view, Option.map_eq_none_iff.mp h]
  rfl

theorem Presentable.change (hr : Presentable r) {counts} (hco : counts.valid = true) (state : State)
    {now} (hti : now ≠ zeroTime) : Presentable { r with state, counts, updatedAt := now } :=
  ⟨hr.scope, hco, hr.operationId, hr.createdAt, hti, hr.phases⟩

/-- The closures of the adapter are those of the other stores. -/
theorem transitionChange_incomplete :
    transitionChange .draining .incomplete = markIncompleteChange := by
  funext p
  obtain ⟨state, counts⟩ := p
  cases state <;> rfl

theorem transitionChange_complete : transitionChange .draining .complete = markCompleteChange := by
  funext p
  obtain ⟨state, counts⟩ := p
  cases state <;> rfl

def settle (s : Store P) (q : Request P) (r : ControlRecord P) : Decision → Outcome P (Store P)
  | .refuse e => (.error e, s)
  | .update state counts =>
    adapt (commit s { r with state, counts, updatedAt := q.time })
  | .keep => adapt (.ok r, s)
  | .replay phase =>
    if ((s.phases q.op.scope).lookup phase).any fun existing => !existing.valid then
      (.error .invalidCounts, s)
    else adapt (.ok r, s)
  | .record phase delta counts =>
    match write s { r with counts, updatedAt := q.time } with
    | .error e => (.error e, s)
    | .ok t => adapt (.ok { r with
        counts, updatedAt := q.time, phases := r.phases.insert phase delta }, { t with
      phases := Function.update t.phases q.op.scope ((t.phases q.op.scope).insert phase delta) })
  | .drop => (.ok none, { s with
    fences := s.fences.erase q.op.scope, phases := Function.update s.phases q.op.scope ∅ })

def engine [DecidableEq P] : Engine P (Store P) (ControlRecord P) where
  inputFirst _ := false
  full s := s.maxScopes ≤ s.fences.size
  read := getSessionControlRecord
  fence s k r := { r.fence with phases := s.phases k }
  denied
    | .finalize .., _ => .closedSessionProofInvalid
    | _, e => e
  create s q operationId proof := adapt (commit s
    ⟨q.op.scope, .draining, fun _ => 0, operationId, proof, q.time, q.time, ∅⟩)
  settle

theorem recordFromControl_state {value : ControlRecord P} {r : Record P}
    (h : recordFromControl value = .ok r) : r.state = value.state := by
  rw [recordFromControl] at h
  split_ifs at h
  cases h
  rfl

theorem perform_eq [DecidableEq P] (s : Store P) (q : Request P) :
    perform s q = engine.perform s q := by
  obtain ⟨canceled, clock, op⟩ := q
  cases op <;> simp only [perform, beginTeardown, accumulate, accumulatePhase, finalize, transition,
    beginSessionControlTeardown, updateSessionControl, accumulateSessionControlPhase,
      finalizeSessionControl, get,
    transitionChange_incomplete, transitionChange_complete,
    Engine.perform, Engine.act, engine, vet, input, scope,
    absent, Operation.decide, Change.decide]
  all_goals
    generalize hfound : getSessionControlRecord s _ = found, validateStoreCall canceled _ = call
    obtain _ | e | r := found <;> cases call <;>
      simp only [ControlRecord.fence, Fence.Identified, Option.some.injEq] <;>
      grind [settle, time, now, scope, adapt, commit, write,
        markIncompleteChange, markCompleteChange, recordFromControl_state]

theorem write_cases (s : Store P) (r : ControlRecord P) :
    (∃ e, write s r = .error e) ∨
      write s r = .ok { s with fences := s.fences.insert r.scope (rowOf r) } := by
  rw [write]
  split
  · exact .inl ⟨_, rfl⟩
  · exact .inr rfl

section

variable (hs : Good s) (hr : Presentable r)

include hs hr

/-- The end of an operation that writes a row, may write a phase, and returns a record. -/
theorem insert_moves (hscope : r.scope = k) {r'} (hr' : Presentable r') {phases}
    (hph : ∀ k', k' ≠ k → phases k' = s.phases k') {f}
    (hf : { r.fence with phases := phases k } = f) : Moves viewed s k (some f)
      (adapt (.ok r', ⟨s.maxScopes, s.fences.insert r.scope (rowOf r), phases⟩)) := by
  subst hscope hf
  simp only [adapt, hr'.recordFromControl]
  have hview := tableView_insert (fun row => row.fence.fence) s.fences (rowOf r) hph
  refine .done hview ⟨fun k row hrow => ?_, Phased.update hs.phases hview hph nofun⟩
  rcases Finmap.lookup_of_insert hrow with ⟨-, rfl⟩ | hrow
  · exact ⟨rfl, rfl, hr.operationId, hr.createdAt, hr.updatedAt⟩
  · exact hs.rows k row hrow

theorem commit_moves (hscope : r.scope = k) (hph : r.phases = s.phases k) :
    Moves viewed s k (some r.fence) (adapt (commit s r)) := by
  rw [commit]
  obtain ⟨e, he⟩ | hw := write_cases s r
  · rw [he]
    exact .failed e
  · rw [hw]
    exact insert_moves hs hr hscope hr (fun _ _ => rfl) (by rw [← hph]; rfl)

theorem unchanged_moves (hview : view s k = some r.fence) :
    Moves viewed s k (some r.fence) (adapt (.ok r, s)) := by
  simp only [adapt, hr.recordFromControl]
  exact .unchanged hview hs _

end

theorem decodedPhasesValid_empty : decodedPhasesValid ∅ = true := rfl

theorem decodedPhasesValid_insert {phases phase delta} (h : decodedPhasesValid phases = true)
    (hnone : phases.lookup phase = none) (hphase : phase.valid = true) (hde : delta.valid = true) :
    decodedPhasesValid (phases.insert phase delta) = true := by
  simp only [decodedPhasesValid, decide_eq_true_eq] at h ⊢
  rw [Finmap.entries_insert_of_notMem (Finmap.lookup_eq_none.mp hnone), Multiset.countP_cons,
    h, hphase, hde]
  rfl

theorem create_moves (hs : Good s) {q : Request P} {operationId : String} {proof : P} {full : Bool}
    (hnone : view s q.op.scope = none) (hvet : q.vet false = .ok ())
    (hab : q.op.absent full = .ok (operationId, proof)) :
    Moves viewed s q.op.scope (some ⟨.draining, fun _ => 0, operationId, some proof, ∅⟩)
      (adapt (commit s
        ⟨q.op.scope, .draining, fun _ => 0, operationId, proof, q.time, q.time, ∅⟩)) := by
  obtain ⟨hscope, hope, -⟩ := vet_create hvet hab
  have hr : Presentable ⟨q.op.scope, .draining, fun _ => 0, operationId, proof,
      q.time, q.time, ∅⟩ :=
    ⟨hscope, Counts.valid_zero, hope, q.time_ne_zeroTime, q.time_ne_zeroTime,
      decodedPhasesValid_empty⟩
  exact commit_moves hs hr rfl (hs.phases _ hnone).symm

theorem engine_fence [DecidableEq P] (hs : Good s)
    (h : getSessionControlRecord s k = some (.ok r)) :
    engine.fence s k r = r.fence := by
  simp only [engine, ← (get_eq_ok hs h).2.2.1]
  rfl

theorem perform_performs [DecidableEq P] (hs : Good s) (q : Request P) :
    Performs viewed s q.op (perform s q) := by
  rw [perform_eq]
  refine Engine.performs view_of_none (fun r h => ?_)
    (fun _ _ h => create_moves hs (view_of_none h)) (fun _ _ => rfl) fun r d h hvet hd hstep => ?_
  · rw [engine_fence hs h]
    exact (get_eq_ok hs h).1
  · rw [engine_fence hs h] at hd hstep ⊢
    obtain ⟨hview, hscope, hph, hr⟩ := get_eq_ok hs h
    have ht := q.time_ne_zeroTime
    cases d with
    | refuse e => exact .failed e
    | update _ counts =>
      exact commit_moves hs (hr.change (hstep.sound hr.counts).1 _ ht) hscope hph
    | keep => exact unchanged_moves hs hr hview
    | replay =>
      simp only [engine, settle]
      split
      · exact .failed _
      · exact unchanged_moves hs hr hview
    | record phase delta counts =>
      obtain ⟨hnone, hphase, hde⟩ := decide_record (vet_eq_ok hvet).1 hd
      have hco := (hstep.sound hr.counts).1
      have hr' : Presentable { r with
          counts, updatedAt := q.time, phases := r.phases.insert phase delta } :=
        ⟨hr.scope, hco, hr.operationId, hr.createdAt, ht,
          decodedPhasesValid_insert hr.phases hnone hphase hde⟩
      simp only [engine, settle]
      obtain ⟨e, he⟩ | hw := write_cases s { r with counts, updatedAt := q.time }
      · rw [he]
        exact .failed e
      rw [hw]
      refine insert_moves (r := { r with counts, updatedAt := q.time }) hs
        (hr.change hco r.state ht) hscope hr' (fun k hne => update_of_ne hne _ _) ?_
      rw [update_self, ← hph]
      rfl
    | drop =>
      have hview := tableView_erase (fun row => row.fence.fence) s.fences s.phases q.op.scope
      refine .done hview ⟨fun k row hrow => hs.rows k row (Finmap.lookup_of_erase hrow).2, ?_⟩
      exact Phased.update hs.phases hview (fun k hne => update_of_ne hne _ _)
        fun _ => update_self ..

end Control

end RedevPlugin.Session
