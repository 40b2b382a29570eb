import RedevPlugin.Foundation.Table
import RedevPlugin.Session.Scopes

/-! The three stores of session fences: one in memory, one with tables of its own in
SQLite, and the session tables of the control database behind an adapter. A fence
keeps the state of a teardown, its identity and its counts. A statement of SQLite is
an operation on tables; a transaction that is rolled back leaves the tables as they
were. Times are in nanoseconds since the Unix epoch. -/

namespace RedevPlugin.Session

/-! ### Records -/

/-- The pattern of operation ids has the same shape; it has no white space to trim. -/
def validTeardownOperationID (operationId : String) : Bool := validOwnerHash operationId

inductive FenceError where
  | canceled
  | invalidSessionScope (field : String)
  | invalidState
  | invalidCounts
  | fenceCapacity
  | scopeNotFound
  | closedSessionProofInvalid
  | teardownIdentityInvalid
  | teardownIdentityMismatch
  /-- `json.Marshal` of a time whose year has not four digits. -/
  | yearRange
  deriving DecidableEq

def SessionScope.validate (s : SessionScope) : Except FenceError Unit :=
  if !validOwnerHash s.ownerSessionHash then .error (.invalidSessionScope "owner_session_hash")
  else if !validOwnerHash s.ownerUserHash then .error (.invalidSessionScope "owner_user_hash")
  else if !validOwnerHash s.ownerEnvHash then .error (.invalidSessionScope "owner_env_hash")
  else if !validOwnerHash s.sessionChannelIdHash then
    .error (.invalidSessionScope "session_channel_id_hash")
  else .ok ()

inductive State where
  | active
  | draining
  | incomplete
  | complete
  deriving DecidableEq

inductive Phase where
  | bridge
  | confirmation
  | execution
  | runtime
  /-- Any other text. -/
  | other (name : String)
  deriving DecidableEq

def Phase.valid : Phase → Bool
  | .other _ => false
  | _ => true

inductive CountField where
  | surfaces
  | assetTickets
  | assetSessions
  | pluginGatewayTokens
  | confirmationTokens
  | handleGrants
  | confirmations
  | executions
  | activeNetworkRequests
  | sockets
  | networkStreams
  | storageHostcalls

/-- The code goes over the fields by reflection. -/
abbrev Counts : Type := CountField → ℕ

def CountField.all : List CountField :=
  [.surfaces, .assetTickets, .assetSessions, .pluginGatewayTokens, .confirmationTokens,
    .handleGrants, .confirmations, .executions, .activeNetworkRequests, .sockets, .networkStreams,
    .storageHostcalls]

theorem CountField.mem_all (f : CountField) : f ∈ CountField.all := by
  cases f <;> simp [CountField.all]

def maxSafeInteger : ℕ := 2 ^ 53 - 1

def Counts.valid (counts : Counts) : Bool := CountField.all.all fun f => counts f ≤ maxSafeInteger

def Counts.add (counts delta : Counts) : Except FenceError Counts :=
  if CountField.all.any fun f =>
      maxSafeInteger < delta f || maxSafeInteger - delta f < counts f then .error .invalidCounts
  else .ok fun f => counts f + delta f

/-- The zero value of `time.Time`, the first day of the year one. -/
def zeroTime : ℤ := -62135596800 * 10 ^ 9

/-- `UnixNano`, an `int64`. -/
def unixNano (t : ℤ) : ℤ := Int.bmod t (2 ^ 64)

/-- The years that `MarshalJSON` writes. -/
def fourDigitYear (t : ℤ) : Bool := -62167219200 * 10 ^ 9 ≤ t && t < 253402300800 * 10 ^ 9

abbrev Clock : Type := { t : ℤ // 0 < t ∧ t < 2 ^ 63 }

def normalizedStoreTime (clock : Clock) (now : ℤ) : ℤ := if now = zeroTime then clock.1 else now

/-- `P` is the type of digests of proofs. The record of SQLite may have none. -/
structure Record (P : Type) where
  scope : SessionScope
  state : State
  counts : Counts
  operationId : String
  proof : Option P
  createdAt : ℤ
  updatedAt : ℤ
  phases : Table Phase Counts

section Stores

variable {P : Type} [DecidableEq P]

def recordMatchesTeardownIdentity (current : Record P) (operationId : String) (proof : P) : Bool :=
  current.proof = some proof && current.operationId = operationId

/-! ### Requests -/

inductive Operation (P : Type) where
  | beginTeardown (scope : SessionScope) (operationId : String) (proof : P) (now : ℤ)
  | accumulate (scope : SessionScope) (delta : Counts) (now : ℤ)
  | accumulatePhase (scope : SessionScope) (phase : Phase) (delta : Counts) (now : ℤ)
  | markIncomplete (scope : SessionScope) (now : ℤ)
  | markComplete (scope : SessionScope) (now : ℤ)
  | finalize (scope : SessionScope) (operationId : String) (proof : P)

/-- A call: whether its context is done, and what the clock says. -/
structure Request (P : Type) where
  canceled : Bool
  clock : Clock
  op : Operation P

/-- `Finalize` returns no record. -/
abbrev Outcome (P σ : Type) : Type := Except FenceError (Option (Record P)) × σ

def validateStoreCall (canceled : Bool) (scope : SessionScope) : Except FenceError Unit :=
  if canceled then .error .canceled else scope.validate

/-- The closures of `transition` change the state and the counts of a record. -/
abbrev Change : Type := State × Counts → Except FenceError (State × Counts)

def accumulateChange (delta : Counts) : Change := fun (state, counts) =>
  if state ≠ .draining then .error .invalidState
  else match counts.add delta with
    | .error e => .error e
    | .ok counts => .ok (state, counts)

def markIncompleteChange : Change := fun (state, counts) =>
  if state ≠ .draining ∧ state ≠ .incomplete then .error .invalidState
  else .ok (.incomplete, counts)

def markCompleteChange : Change := fun (state, counts) =>
  if state = .complete then .ok (state, counts)
  else if state ≠ .draining then .error .invalidState
  else .ok (.complete, counts)

def newRecord (scope : SessionScope) (operationId : String) (proof : P) (now : ℤ) : Record P :=
  ⟨scope, .draining, fun _ => 0, operationId, some proof, now, now, ∅⟩

/-! ### Memory -/

namespace Memory

structure Store (P : Type) where
  maxScopes : ℕ
  records : Table SessionScope (Record P)

variable (s : Store P)

def put (scope : SessionScope) (r : Record P) : Outcome P (Store P) :=
  (.ok (some r), { s with records := s.records.insert scope r })

variable (q : Request P) (scope : SessionScope)

def beginTeardown (operationId : String) (proof : P) (now : ℤ) : Outcome P (Store P) :=
  match validateStoreCall q.canceled scope with
  | .error e => (.error e, s)
  | .ok _ =>
    if !validTeardownOperationID operationId then (.error .teardownIdentityInvalid, s)
    else
      let now := normalizedStoreTime q.clock now
      match s.records.lookup scope with
      | none =>
        if s.maxScopes ≤ s.records.size then (.error .fenceCapacity, s)
        else put s scope (newRecord scope operationId proof now)
      | some current =>
        if !recordMatchesTeardownIdentity current operationId proof then
          (.error .teardownIdentityMismatch, s)
        else match current.state with
          | .incomplete | .draining =>
            put s scope { current with state := .draining, updatedAt := now }
          | .complete => put s scope current
          | .active => (.error .invalidState, s)

def transition (now : ℤ) (apply : Change) : Outcome P (Store P) :=
  match validateStoreCall q.canceled scope with
  | .error e => (.error e, s)
  | .ok _ =>
    let now := normalizedStoreTime q.clock now
    match s.records.lookup scope with
    | none => (.error .scopeNotFound, s)
    | some current =>
      match apply (current.state, current.counts) with
      | .error e => (.error e, s)
      | .ok (state, counts) =>
        put s scope { current with state, counts, updatedAt := now }

def accumulate (delta : Counts) (now : ℤ) : Outcome P (Store P) :=
  if !delta.valid then (.error .invalidCounts, s)
  else transition s q scope now (accumulateChange delta)

/-- Its closure changes the phases too. -/
def accumulatePhase (phase : Phase) (delta : Counts) (now : ℤ) : Outcome P (Store P) :=
  if !phase.valid || !delta.valid then (.error .invalidCounts, s)
  else match validateStoreCall q.canceled scope with
    | .error e => (.error e, s)
    | .ok _ =>
      let now := normalizedStoreTime q.clock now
      match s.records.lookup scope with
      | none => (.error .scopeNotFound, s)
      | some current =>
        if current.state ≠ .draining then (.error .invalidState, s)
        else match current.phases.lookup phase with
          | some _ => put s scope { current with updatedAt := now }
          | none =>
            match current.counts.add delta with
            | .error e => (.error e, s)
            | .ok counts =>
              put s scope { current with
                counts, phases := current.phases.insert phase delta, updatedAt := now }

def finalize (operationId : String) (proof : P) : Outcome P (Store P) :=
  match validateStoreCall q.canceled scope with
  | .error e => (.error e, s)
  | .ok _ =>
    match s.records.lookup scope with
    | none => (.error .closedSessionProofInvalid, s)
    | some current =>
      if current.state ≠ .complete ∨ !recordMatchesTeardownIdentity current operationId proof then
        (.error .closedSessionProofInvalid, s)
      else (.ok none, { s with records := s.records.erase scope })

def perform : Outcome P (Store P) :=
  match q.op with
  | .beginTeardown scope operationId proof now => beginTeardown s q scope operationId proof now
  | .accumulate scope delta now => accumulate s q scope delta now
  | .accumulatePhase scope phase delta now => accumulatePhase s q scope phase delta now
  | .markIncomplete scope now => transition s q scope now markIncompleteChange
  | .markComplete scope now => transition s q scope now markCompleteChange
  | .finalize scope operationId proof => finalize s q scope operationId proof

end Memory

/-! ### SQLite -/

namespace SQLite

/-- A row of `plugin_session_scope_fences`, without its key. -/
structure Row (P : Type) where
  state : State
  operationId : String
  counts : Counts
  proof : Option P
  createdAt : ℤ
  updatedAt : ℤ

/-- The second table has a scope and a phase as its key. -/
structure Store (P : Type) where
  maxScopes : ℕ
  fences : Table SessionScope (Row P)
  phases : SessionScope → Table Phase Counts

/-- `time.Unix` of an `int64` is never the zero time. -/
def scanSQLiteSessionScope (scope : SessionScope) (row : Row P) : Except FenceError (Record P) :=
  match scope.validate with
  | .error e => .error e
  | .ok _ =>
    if !row.counts.valid then .error .invalidCounts
    else if row.state = .active ∨ !validTeardownOperationID row.operationId then
      .error .teardownIdentityInvalid
    else if row.proof = none ∧ row.state ≠ .complete then .error .closedSessionProofInvalid
    else if row.updatedAt < row.createdAt then .error .invalidState
    else .ok ⟨scope, row.state, row.counts, row.operationId, row.proof, row.createdAt,
      row.updatedAt, ∅⟩

def validateSQLiteSessionScopeRecord (current : Record P) : Except FenceError Unit :=
  match current.scope.validate with
  | .error e => .error e
  | .ok _ =>
    if !current.counts.valid then .error .invalidCounts
    else if current.createdAt = zeroTime ∨ current.updatedAt = zeroTime ∨
        current.updatedAt < current.createdAt then .error .invalidState
    else if current.state = .active ∨ !validTeardownOperationID current.operationId ∨
        current.proof = none then .error .closedSessionProofInvalid
    else .ok ()

def sqliteSessionScopeArguments (current : Record P) : Row P :=
  ⟨current.state, current.operationId, current.counts, current.proof, unixNano current.createdAt,
    unixNano current.updatedAt⟩

variable (s : Store P)

/-- The insertion or the update of a row, and the commit. The record passes the constraints of the
table once it is validated. -/
def commit (current : Record P) : Outcome P (Store P) :=
  match validateSQLiteSessionScopeRecord current with
  | .error e => (.error e, s)
  | .ok _ =>
    (.ok (some current),
      { s with fences := s.fences.insert current.scope (sqliteSessionScopeArguments current) })

variable (q : Request P) (scope : SessionScope)

def beginTeardown (operationId : String) (proof : P) (now : ℤ) : Outcome P (Store P) :=
  match validateStoreCall q.canceled scope with
  | .error e => (.error e, s)
  | .ok _ =>
    if !validTeardownOperationID operationId then (.error .teardownIdentityInvalid, s)
    else
      let now := normalizedStoreTime q.clock now
      match (s.fences.lookup scope).map (scanSQLiteSessionScope scope) with
      | some (.error e) => (.error e, s)
      | none =>
        if s.maxScopes ≤ s.fences.size then (.error .fenceCapacity, s)
        else commit s (newRecord scope operationId proof now)
      | some (.ok current) =>
        if !recordMatchesTeardownIdentity current operationId proof then
          (.error .teardownIdentityMismatch, s)
        else match current.state with
          | .incomplete | .draining =>
            commit s { current with state := .draining, updatedAt := now }
          | .complete => (.ok (some current), s)
          | .active => (.error .invalidState, s)

def transition (now : ℤ) (apply : Change) : Outcome P (Store P) :=
  match validateStoreCall q.canceled scope with
  | .error e => (.error e, s)
  | .ok _ =>
    let now := normalizedStoreTime q.clock now
    match (s.fences.lookup scope).map (scanSQLiteSessionScope scope) with
    | some (.error e) => (.error e, s)
    | none => (.error .scopeNotFound, s)
    | some (.ok current) =>
      match apply (current.state, current.counts) with
      | .error e => (.error e, s)
      | .ok (state, counts) =>
        commit s { current with state, counts, updatedAt := now }

def accumulate (delta : Counts) (now : ℤ) : Outcome P (Store P) :=
  if !delta.valid then (.error .invalidCounts, s)
  else transition s q scope now (accumulateChange delta)

/-- A phase that was stored is decoded, and the record is returned as it is. -/
def accumulatePhase (phase : Phase) (delta : Counts) (now : ℤ) : Outcome P (Store P) :=
  match validateStoreCall q.canceled scope with
  | .error e => (.error e, s)
  | .ok _ =>
    if !phase.valid || !delta.valid then (.error .invalidCounts, s)
    else
      let now := normalizedStoreTime q.clock now
      match (s.fences.lookup scope).map (scanSQLiteSessionScope scope) with
      | some (.error e) => (.error e, s)
      | none => (.error .scopeNotFound, s)
      | some (.ok current) =>
        if current.state ≠ .draining then (.error .invalidState, s)
        else match (s.phases scope).lookup phase with
          | some persisted =>
            if !persisted.valid then (.error .invalidCounts, s) else (.ok (some current), s)
          | none =>
            match current.counts.add delta with
            | .error e => (.error e, s)
            | .ok counts =>
              match commit s { current with counts, updatedAt := now } with
              | (.error e, _) => (.error e, s)
              | (.ok r, t) =>
                (.ok r, { t with
                  phases := Function.update t.phases scope ((t.phases scope).insert phase delta) })

def finalize (operationId : String) (proof : P) : Outcome P (Store P) :=
  match validateStoreCall q.canceled scope with
  | .error e => (.error e, s)
  | .ok _ =>
    match (s.fences.lookup scope).map (scanSQLiteSessionScope scope) with
    | some (.error e) => (.error e, s)
    | none => (.error .closedSessionProofInvalid, s)
    | some (.ok current) =>
      if current.state ≠ .complete ∨ !recordMatchesTeardownIdentity current operationId proof then
        (.error .closedSessionProofInvalid, s)
      else (.ok none, { s with
        fences := s.fences.erase scope, phases := Function.update s.phases scope ∅ })

def perform : Outcome P (Store P) :=
  match q.op with
  | .beginTeardown scope operationId proof now => beginTeardown s q scope operationId proof now
  | .accumulate scope delta now => accumulate s q scope delta now
  | .accumulatePhase scope phase delta now => accumulatePhase s q scope phase delta now
  | .markIncomplete scope now => transition s q scope now markIncompleteChange
  | .markComplete scope now => transition s q scope now markCompleteChange
  | .finalize scope operationId proof => finalize s q scope operationId proof

end SQLite

/-! ### The control database -/

namespace Control

structure ControlRecord (P : Type) where
  scope : SessionScope
  state : State
  counts : Counts
  operationId : String
  proof : P
  createdAt : ℤ
  updatedAt : ℤ
  phases : Table Phase Counts

/-- A row of `session_fences`, without its key: `fence_json` is the record, and three of its fields
have columns of their own. -/
structure Row (P : Type) where
  state : State
  fence : ControlRecord P
  proof : P
  updatedAt : ℤ

structure Store (P : Type) where
  maxScopes : ℕ
  fences : Table SessionScope (Row P)
  phases : SessionScope → Table Phase Counts

def decodedPhasesValid (phases : Table Phase Counts) : Bool :=
  phases.entries.countP (fun e => (e.1.valid && e.2.valid) = false) = 0

/-- The scope is not in `fence_json`; a digest has 32 bytes. -/
def scanSessionControlRecord (scope : SessionScope) (row : Row P) :
    Except FenceError (ControlRecord P) :=
  let fence := row.fence
  if fence.state ≠ row.state ∨ fence.proof ≠ row.proof then .error .invalidState
  else
    let updatedAt := if fence.updatedAt = zeroTime then row.updatedAt else fence.updatedAt
    let createdAt := if fence.createdAt = zeroTime then updatedAt else fence.createdAt
    if scope.validate ≠ .ok () ∨ !fence.counts.valid ∨ fence.operationId = "" ∨
        unixNano updatedAt ≠ row.updatedAt then .error .invalidState
    else .ok { fence with scope, createdAt, updatedAt }

section

variable (s : Store P) (scope : SessionScope)

/-- `none` is `ErrRecordNotFound`. -/
def getSessionControlRecord : Option (Except FenceError (ControlRecord P)) :=
  (s.fences.lookup scope).map fun row =>
    match scanSessionControlRecord scope row with
    | .error e => .error e
    | .ok record =>
      if !decodedPhasesValid (s.phases scope) then .error .invalidCounts
      else .ok { record with phases := s.phases scope }

def rowOf (record : ControlRecord P) : Row P :=
  ⟨record.state, record, record.proof, unixNano record.updatedAt⟩

/-- The insertion or the update of a row. -/
def write (record : ControlRecord P) : Except FenceError (Store P) :=
  if !fourDigitYear record.createdAt || !fourDigitYear record.updatedAt then .error .yearRange
  else .ok { s with fences := s.fences.insert record.scope (rowOf record) }

abbrev BackendOutcome (P : Type) : Type := Except FenceError (ControlRecord P) × Store P

def commit (record : ControlRecord P) : BackendOutcome P :=
  match write s record with
  | .error e => (.error e, s)
  | .ok t => (.ok record, t)

def beginSessionControlTeardown (proposed : ControlRecord P) : BackendOutcome P :=
  match getSessionControlRecord s proposed.scope with
  | none =>
    if s.maxScopes ≤ s.fences.size then (.error .fenceCapacity, s) else commit s proposed
  | some (.error e) => (.error e, s)
  | some (.ok current) =>
    if current.operationId ≠ proposed.operationId ∨ current.proof ≠ proposed.proof then
      (.error .teardownIdentityMismatch, s)
    else match current.state with
      | .draining | .incomplete =>
        commit s { current with state := .draining, updatedAt := proposed.updatedAt }
      | .complete => (.ok current, s)
      | .active => (.error .invalidState, s)

def updateSessionControl (now : ℤ) (apply : Change) : BackendOutcome P :=
  match getSessionControlRecord s scope with
  | none => (.error .scopeNotFound, s)
  | some (.error e) => (.error e, s)
  | some (.ok current) =>
    match apply (current.state, current.counts) with
    | .error e => (.error e, s)
    | .ok (state, counts) =>
      commit s { current with state, counts, updatedAt := now }

def accumulateSessionControlPhase (phase : Phase) (delta : Counts) (now : ℤ) : BackendOutcome P :=
  match getSessionControlRecord s scope with
  | none => (.error .scopeNotFound, s)
  | some (.error e) => (.error e, s)
  | some (.ok current) =>
    if current.state ≠ .draining then (.error .invalidState, s)
    else match (s.phases scope).lookup phase with
      | some existing =>
        if !existing.valid then (.error .invalidCounts, s) else (.ok current, s)
      | none =>
        match current.counts.add delta with
        | .error e => (.error e, s)
        | .ok counts =>
          match write s { current with counts, updatedAt := now } with
          | .error e => (.error e, s)
          | .ok t =>
            (.ok { current with
              counts, updatedAt := now, phases := current.phases.insert phase delta },
              { t with
                phases := Function.update t.phases scope ((t.phases scope).insert phase delta) })

/-- The closure of `TransitionSessionControl`. -/
def transitionChange (expected next : State) : Change := fun (state, counts) =>
  if state = next ∧ (next = .incomplete ∨ next = .complete) then .ok (state, counts)
  else if state ≠ expected then .error .invalidState
  else .ok (next, counts)

def finalizeSessionControl (operationId : String) (proof : P) : Except FenceError Unit × Store P :=
  match getSessionControlRecord s scope with
  | some (.ok current) =>
    if current.state ≠ .complete ∨ current.operationId ≠ operationId ∨ current.proof ≠ proof then
      (.error .closedSessionProofInvalid, s)
    else (.ok (), { s with
      fences := s.fences.erase scope, phases := Function.update s.phases scope ∅ })
  | _ => (.error .closedSessionProofInvalid, s)

end

/-! #### The adapter -/

def recordFromControl (value : ControlRecord P) : Except FenceError (Record P) :=
  if value.scope.validate ≠ .ok () ∨ !value.counts.valid ∨
      !validTeardownOperationID value.operationId ∨ value.createdAt = zeroTime ∨
      value.updatedAt = zeroTime then .error .invalidState
  else if !decodedPhasesValid value.phases then .error .invalidCounts
  else .ok ⟨value.scope, value.state, value.counts, value.operationId, some value.proof,
    value.createdAt, value.updatedAt, value.phases⟩

/-- What the backend returns, as a record. -/
def adapt (r : BackendOutcome P) : Outcome P (Store P) :=
  match r with
  | (.error e, t) => (.error e, t)
  | (.ok value, t) =>
    match recordFromControl value with
    | .error e => (.error e, t)
    | .ok record => (.ok (some record), t)

variable (s : Store P) (q : Request P) (scope : SessionScope)

def get : Except FenceError (Record P) :=
  match getSessionControlRecord s scope with
  | none => .error .scopeNotFound
  | some (.error e) => .error e
  | some (.ok value) => recordFromControl value

def beginTeardown (operationId : String) (proof : P) (now : ℤ) : Outcome P (Store P) :=
  match validateStoreCall q.canceled scope with
  | .error e => (.error e, s)
  | .ok _ =>
    if !validTeardownOperationID operationId then (.error .teardownIdentityInvalid, s)
    else
      let now := normalizedStoreTime q.clock now
      adapt (beginSessionControlTeardown s
        ⟨scope, .draining, fun _ => 0, operationId, proof, now, now, ∅⟩)

def accumulate (delta : Counts) (now : ℤ) : Outcome P (Store P) :=
  match validateStoreCall q.canceled scope with
  | .error e => (.error e, s)
  | .ok _ =>
    if !delta.valid then (.error .invalidCounts, s)
    else
      adapt (updateSessionControl s scope (normalizedStoreTime q.clock now)
        (accumulateChange delta))

def accumulatePhase (phase : Phase) (delta : Counts) (now : ℤ) : Outcome P (Store P) :=
  match validateStoreCall q.canceled scope with
  | .error e => (.error e, s)
  | .ok _ =>
    if !phase.valid || !delta.valid then (.error .invalidCounts, s)
    else
      adapt (accumulateSessionControlPhase s scope phase delta (normalizedStoreTime q.clock now))

/-- A record that has got to the next state by itself counts as success. -/
def transition (expected next : State) (now : ℤ) : Outcome P (Store P) :=
  match validateStoreCall q.canceled scope with
  | .error e => (.error e, s)
  | .ok _ =>
    match updateSessionControl s scope (normalizedStoreTime q.clock now)
        (transitionChange expected next) with
    | (.error .invalidState, t) =>
      match get t scope with
      | .ok current => if current.state = next then (.ok (some current), t)
        else (.error .invalidState, t)
      | .error _ => (.error .invalidState, t)
    | r => adapt r

def finalize (operationId : String) (proof : P) : Outcome P (Store P) :=
  match validateStoreCall q.canceled scope with
  | .error e => (.error e, s)
  | .ok _ =>
    match finalizeSessionControl s scope operationId proof with
    | (.error e, t) => (.error e, t)
    | (.ok _, t) => (.ok none, t)

def perform : Outcome P (Store P) :=
  match q.op with
  | .beginTeardown scope operationId proof now => beginTeardown s q scope operationId proof now
  | .accumulate scope delta now => accumulate s q scope delta now
  | .accumulatePhase scope phase delta now => accumulatePhase s q scope phase delta now
  | .markIncomplete scope now => transition s q scope .draining .incomplete now
  | .markComplete scope now => transition s q scope .draining .complete now
  | .finalize scope operationId proof => finalize s q scope operationId proof

end Control

end Stores

end RedevPlugin.Session
