import Mathlib.Data.List.Sort
import RedevPlugin.ControlStore.Intervals

/-! Executions and their events in the control store. An execution has a status and a cursor;
its events are rows of a second table, numbered from one. Every call is one transaction of the
single connection of the store: it reads the row of an execution, lets the execution check the
transition, and writes both tables, or fails and changes nothing. A reader asks again and again
for the events after the last one it has. -/

namespace RedevPlugin.Executions

open Transition ControlStore

inductive Kind where
  | sync
  | operation
  | subscription
  | other (name : String)
  deriving DecidableEq

inductive Status where
  | running
  | cancelRequested
  | completed
  | canceled
  | failed
  | orphaned
  /-- Any other text, among them the empty one. -/
  | other (name : String)
  deriving DecidableEq

inductive EventKind where
  | progress
  | data
  | diagnostic
  | terminal
  | other (name : String)
  deriving DecidableEq

structure PublicError where
  code : String
  message : String
  deriving DecidableEq

structure Execution where
  id : String
  pluginInstanceID : String
  kind : Kind
  status : Status
  cursor : ℕ
  failureCode : String
  cancelable : Bool
  createdAt : Time
  updatedAt : Time
  cancelRequestedAt : Option Time
  terminalAt : Option Time
  deriving DecidableEq

structure Event where
  executionID : String
  sequence : ℕ
  kind : EventKind
  /-- The JSON text of the payload, if it has one. -/
  payload : Option String
  error : Option PublicError
  deriving DecidableEq

inductive ExecutionError where
  | sequenceConflict
  | invalidTransition
  | notCancelable
  | terminal
  | invalid (message : String)
  | requestsBlocked
  /-- `ErrIncompatible` for a row that does not validate. -/
  | incompatible
  | noRows
  | constraint
  | marshal
  | external (message : String)
  deriving DecidableEq

/-! ### Transitions of an execution -/

def terminalStatus : Status → Bool
  | .completed | .canceled | .failed | .orphaned => true
  | _ => false

def validEventKind : EventKind → Bool
  | .other _ => false
  | _ => true

/-- `now`, or the time of the clock for a zero time. -/
def normalizedTime (clock now : Time) : Time := if now = zeroTime then clock else now

def Execution.validate (e : Execution) : Except ExecutionError Unit :=
  if e.id = "" ∨ e.pluginInstanceID = "" then .error (.invalid "execution identity is required")
  else
    match e.kind with
    | .other name => .error (.invalid ("unknown execution kind " ++ name))
    | kind =>
      match e.status with
      | .other name => .error (.invalid ("unknown execution status " ++ name))
      | status =>
        if kind = .sync ∧ e.cancelable = true then
          .error (.invalid "sync execution cannot be cancelable")
        else if status = .cancelRequested ∧ (e.cancelable = false ∨ e.cancelRequestedAt = none) then
          .error .invalidTransition
        else if terminalStatus status = true ∧ e.terminalAt = none then .error .invalidTransition
        else .ok ()

def Execution.new (clock : Time) (value : Execution) : Except ExecutionError Execution :=
  let status := if value.status = .other "" then .running else value.status
  let createdAt := normalizedTime clock value.createdAt
  let updatedAt := if value.updatedAt = zeroTime then createdAt else value.updatedAt
  let created := { value with status, createdAt, updatedAt }
  match created.validate with
  | .error e => .error e
  | .ok () => .ok created

def newEvent (exec : Execution) (sequence : ℕ) (kind : EventKind) (payload : Option String) :
    Except ExecutionError Event :=
  if exec.id = "" ∨ sequence = 0 ∨ validEventKind kind = false then .error .sequenceConflict
  else .ok ⟨exec.id, sequence, kind, payload, none⟩

/-- The unexported `append`. -/
def Execution.push (e : Execution) (event : Event) : Except ExecutionError Execution :=
  if terminalStatus e.status then .error .terminal
  else if event.executionID ≠ e.id ∨ event.sequence = 0 ∨ event.sequence ≠ e.cursor + 1 then
    .error .sequenceConflict
  else .ok { e with cursor := event.sequence }

def Execution.append (e : Execution) (event : Event) : Except ExecutionError Execution :=
  if event.kind = .terminal then .error .invalidTransition else e.push event

def Execution.requestCancel (e : Execution) (clock now : Time) : Except ExecutionError Execution :=
  if e.status ≠ .running then .error .invalidTransition
  else if e.cancelable = false then .error .notCancelable
  else
    .ok { e with
      status := .cancelRequested, cancelRequestedAt := some (normalizedTime clock now)
      updatedAt := normalizedTime clock now }

def Execution.finish (e : Execution) (status : Status) (failureCode : String) (event : Event)
    (clock now : Time) : Except ExecutionError Execution :=
  if terminalStatus e.status = true ∨ terminalStatus status = false ∨ event.kind ≠ .terminal ∨
      event.executionID ≠ e.id ∨ event.sequence ≠ e.cursor + 1 then
    .error .invalidTransition
  else if status = .canceled ∧ e.status ≠ .cancelRequested then .error .invalidTransition
  else if status ≠ .canceled ∧ e.status ≠ .running ∧ e.status ≠ .cancelRequested then
    .error .invalidTransition
  else
    match e.push event with
    | .error err => .error err
    | .ok pushed =>
      .ok { pushed with
        status, failureCode, terminalAt := some (normalizedTime clock now)
        updatedAt := normalizedTime clock now }

/-! ### The tables -/

structure ExecutionOwner where
  (ownerSessionHash ownerUserHash ownerEnvHash sessionChannelIDHash : String)
  deriving DecidableEq

def ExecutionOwner.valid (o : ExecutionOwner) : Bool :=
  o.ownerSessionHash ≠ "" && o.ownerUserHash ≠ "" && o.ownerEnvHash ≠ "" &&
    o.sessionChannelIDHash ≠ ""

structure ExecutionRow where
  value : Execution
  owner : ExecutionOwner

def ExecutionRow.id (row : ExecutionRow) : String := row.value.id

structure EventRow where
  executionID : String
  sequence : ℕ
  kind : EventKind
  payload : String
  error : Option PublicError
  deriving DecidableEq

def EventRow.key (row : EventRow) : String × ℕ := (row.executionID, row.sequence)

structure Store where
  ready : Bool
  executions : Rows ExecutionRow.id
  events : Rows EventRow.key

def scanExecution (row : ExecutionRow) : Except ExecutionError Execution :=
  match row.value.validate with
  | .error _ => .error .incompatible
  | .ok () => .ok row.value

variable (s : Store)

def readExecution (id : String) : Except ExecutionError Execution :=
  match s.executions.find id with
  | none => .error .noRows
  | some row => scanExecution row

def insertEvent (events : Rows EventRow.key) (event : Event) :
    Except ExecutionError (Rows EventRow.key) :=
  match event.payload with
  | none => .error .marshal
  | some payload =>
    match events.insert ⟨event.executionID, event.sequence, event.kind, payload, event.error⟩ with
    | none => .error .constraint
    | some inserted => .ok inserted

variable (clock : Time) (value : Execution)

def create (owner : ExecutionOwner) : Except ExecutionError Store :=
  if s.ready = false then .error .requestsBlocked
  else if owner.valid = false then .error (.invalid "execution owner is invalid")
  else if (value.status ≠ .other "" ∧ value.status ≠ .running) ∨ value.cursor ≠ 0 ∨
      value.cancelRequestedAt ≠ none ∨ value.terminalAt ≠ none then .error .invalidTransition
  else
    match Execution.new clock value with
    | .error e => .error e
    | .ok created =>
      match s.executions.insert ⟨created, owner⟩ with
      | none => .error .constraint
      | some executions => .ok { s with executions }

/-- `UPDATE execution SET cursor=?,updated_at=?`. -/
def setCursor (cursor : ℕ) (updatedAt : Time) : Rows.Change ExecutionRow.id where
  apply row := { row with value := { row.value with cursor, updatedAt } }
  keeps _ := rfl

def append (event : Event) : Except ExecutionError Store :=
  if s.ready = false then .error .requestsBlocked
  else
    match readExecution s event.executionID with
    | .error e => .error e
    | .ok value =>
      match newEvent value event.sequence event.kind event.payload with
      | .error e => .error e
      | .ok validated =>
        let validated := { validated with error := event.error }
        match value.append validated with
        | .error e => .error e
        | .ok value =>
          match insertEvent s.events validated with
          | .error e => .error e
          | .ok events =>
            let executions := s.executions.update (·.id = value.id) (setCursor value.cursor clock)
            .ok { s with executions, events }

/-- `UPDATE execution SET status=?,updated_at=?,cancel_requested_at=?`. -/
def setCancel : Rows.Change ExecutionRow.id where
  apply row :=
    { row with
      value := { row.value with
        status := value.status, updatedAt := value.updatedAt
        cancelRequestedAt := value.cancelRequestedAt } }
  keeps _ := rfl

variable (id : String)

def requestCancel (now : Time) : Except ExecutionError Store :=
  if s.ready = false then .error .requestsBlocked
  else
    match readExecution s id with
    | .error e => .error e
    | .ok value =>
      match value.requestCancel clock now with
      | .error e => .error e
      | .ok value =>
        let executions := s.executions.update (·.id = id) (setCancel value)
        .ok { s with executions }

/-- `UPDATE execution SET status=?,cursor=?,failure_code=?,updated_at=?,terminal_at=?`. -/
def setFinished : Rows.Change ExecutionRow.id where
  apply row :=
    { row with
      value := { row.value with
        status := value.status, cursor := value.cursor, failureCode := value.failureCode
        updatedAt := value.updatedAt, terminalAt := value.terminalAt } }
  keeps _ := rfl

/-- The execution is finished and both tables are written. -/
def writeFinished (status : Status) (failureCode : String) (event : Event) (now : Time) :
    Except ExecutionError Store :=
  match value.finish status failureCode event clock now with
  | .error e => .error e
  | .ok finished =>
    match insertEvent s.events event with
    | .error e => .error e
    | .ok events =>
      let executions := s.executions.update (·.id = value.id) (setFinished finished)
      .ok { s with executions, events }

def finish (status : Status) (failureCode : String) (event : Event) (now : Time) :
    Except ExecutionError Store :=
  if s.ready = false then .error .requestsBlocked
  else
    match readExecution s id with
    | .error e => .error e
    | .ok value =>
      match newEvent value event.sequence event.kind event.payload with
      | .error e => .error e
      | .ok validated =>
        writeFinished s clock value status failureCode { validated with error := event.error } now

def statusText : Status → String
  | .running => "running"
  | .cancelRequested => "cancel_requested"
  | .completed => "completed"
  | .canceled => "canceled"
  | .failed => "failed"
  | .orphaned => "orphaned"
  | .other name => name

/-- One round of the loop of `ReconcileOrphans`. -/
def reconcileOrphan (now : Time) (value : Execution) : Except ExecutionError Store :=
  let canceled := value.status = .cancelRequested
  let status := if canceled then .canceled else .orphaned
  let failureCode := if canceled then "" else "platform_failed"
  match newEvent value (value.cursor + 1) .terminal
      (some ("\x7b\"status\":\"" ++ statusText status ++ "\"\x7d")) with
  | .error e => .error e
  | .ok event =>
    let error := if status = .orphaned then
        some ⟨failureCode, "execution owner is unavailable after host restart"⟩ else none
    writeFinished s now value status failureCode { event with error } now

def reconcileRows (now : Time) : List Execution → Store → Except ExecutionError Store
  | [], s => .ok s
  | value :: values, s =>
    match reconcileOrphan s now value with
    | .error e => .error e
    | .ok t => reconcileRows now values t

def scanRows : List ExecutionRow → Except ExecutionError (List Execution)
  | [] => .ok []
  | row :: rows =>
    match scanExecution row with
    | .error e => .error e
    | .ok value =>
      match scanRows rows with
      | .error e => .error e
      | .ok values => .ok (value :: values)

/-- `ORDER BY created_at,execution_id`. -/
def createdBefore (a b : ExecutionRow) : Prop :=
  a.value.createdAt < b.value.createdAt ∨
    (a.value.createdAt = b.value.createdAt ∧ (a.id < b.id ∨ a.id = b.id))

instance : DecidableRel createdBefore := fun _ _ => inferInstanceAs (Decidable (_ ∨ _ ∧ (_ ∨ _)))

def ExecutionRow.pending (row : ExecutionRow) : Bool :=
  row.value.status = .running || row.value.status = .cancelRequested

def reconcileOrphans (now : Time) : Except ExecutionError Store :=
  if s.ready = false then .error .requestsBlocked
  else
    match scanRows ((s.executions.rows.filter ExecutionRow.pending).insertionSort
        createdBefore) with
    | .error e => .error e
    | .ok values => reconcileRows (normalizedTime clock now) values s

/-! ### Pruning -/

structure PruneRequest where
  before : Time
  limit : ℤ
  maxTerminalRecordsPerPlugin : ℤ
  deriving DecidableEq

/-- The time at which a row that may be pruned became terminal. -/
def ExecutionRow.prunableAt (row : ExecutionRow) : Option Time :=
  if terminalStatus row.value.status then row.value.terminalAt else none

/-- `ORDER BY terminal_at DESC,execution_id DESC`: the second comes before the first. -/
def laterThan (at_ : Time) (id : String) (row : ExecutionRow) : Bool :=
  match row.prunableAt with
  | none => false
  | some other => at_ < other || (at_ = other && id < row.id)

variable (rows : List ExecutionRow)

/-- `ROW_NUMBER()` in the partition of the owner and the plugin. -/
def ordinal (row : ExecutionRow) (at_ : Time) : ℕ :=
  1 + rows.countP fun other =>
    other.owner.ownerEnvHash = row.owner.ownerEnvHash &&
      other.value.pluginInstanceID = row.value.pluginInstanceID && laterThan at_ row.id other

/-- The rows to prune, with the times of their ends. -/
def prunable (req : PruneRequest) : List (Time × String) :=
  rows.filterMap fun row =>
    match row.prunableAt with
    | none => none
    | some at_ =>
      if at_ < req.before ∨ req.maxTerminalRecordsPerPlugin < ordinal rows row at_ then
        some (at_, row.id)
      else none

/-- `ORDER BY terminal_at,execution_id`. -/
def endedBefore (a b : Time × String) : Prop := a.1 < b.1 ∨ (a.1 = b.1 ∧ (a.2 < b.2 ∨ a.2 = b.2))

instance : DecidableRel endedBefore := fun _ _ => inferInstanceAs (Decidable (_ ∨ _ ∧ (_ ∨ _)))

def deleteExecution : Store :=
  { s with
    executions := s.executions.delete (·.id = id), events := s.events.delete (·.executionID = id) }

def pruneTerminal (req : PruneRequest) : Except ExecutionError Store :=
  if s.ready = false then .error .requestsBlocked
  else if req.before = zeroTime ∨ req.limit < 1 ∨ 5000 < req.limit ∨
      req.maxTerminalRecordsPerPlugin < 1 ∨ 100000 < req.maxTerminalRecordsPerPlugin then
    .error (.invalid "execution prune request is invalid")
  else
    let ids := (((prunable s.executions.rows req).insertionSort endedBefore).take
      req.limit.toNat).map Prod.snd
    .ok (ids.foldl deleteExecution s)

/-! ### Reading -/

def sequenceBefore (a b : EventRow) : Prop := a.sequence ≤ b.sequence

instance : DecidableRel sequenceBefore := fun a b => Nat.decLe a.sequence b.sequence

def pageLimit (limit : ℤ) : ℕ := if limit ≤ 0 ∨ 1000 < limit then 1000 else limit.toNat

def eventsAfter (cursor : ℕ) (limit : ℤ) : Except ExecutionError (List EventRow) :=
  if s.ready = false then .error .requestsBlocked
  else
    .ok (((s.events.rows.filter fun row =>
      row.executionID = id && cursor < row.sequence).insertionSort
      sequenceBefore).take (pageLimit limit))

structure Reader where
  id : String
  cursor : ℕ
  received : List EventRow

/-- The reader goes on from the last event it was given. -/
def Reader.receive (r : Reader) (page : List EventRow) : Reader :=
  { r with
    cursor := (page.getLast?.map EventRow.sequence).getD r.cursor
    received := r.received ++ page }

/-! ### Calls -/

inductive Call where
  | create (value : Execution) (owner : ExecutionOwner)
  | append (event : Event)
  | requestCancel (id : String) (now : Time)
  | finish (id : String) (status : Status) (failureCode : String) (event : Event) (now : Time)
  | reconcileOrphans (now : Time)
  | pruneTerminal (req : PruneRequest)
  /-- A reader starts with an execution. -/
  | follow (id : String)
  /-- The reader asks for the next events. -/
  | poll (limit : ℤ)
  | setReady (ready : Bool)
  /-- A call fails in the database. -/
  | fault (message : String)
  deriving DecidableEq

inductive Answer where
  | failed (e : ExecutionError)
  | done
  | page (events : List EventRow)
  deriving DecidableEq

/-- The store and a reader. -/
structure State where
  store : Store
  reader : Reader

/-- A call that fails has changed nothing. -/
def answer (s : State) : Except ExecutionError Store → Answer × State
  | .error e => (.failed e, s)
  | .ok store => (.done, { s with store })

/-- What a call answers and leaves, for a time of the clock. -/
def perform (s : State) : Call × Time → Option (Answer × State)
  | (.create value owner, clock) => some (answer s (create s.store clock value owner))
  | (.append event, clock) => some (answer s (append s.store clock event))
  | (.requestCancel id now, clock) => some (answer s (requestCancel s.store clock id now))
  | (.finish id status failureCode event now, clock) =>
    some (answer s (finish s.store clock id status failureCode event now))
  | (.reconcileOrphans now, clock) => some (answer s (reconcileOrphans s.store clock now))
  | (.pruneTerminal req, _) => some (answer s (pruneTerminal s.store req))
  | (.follow id, _) => some (.done, { s with reader := ⟨id, 0, []⟩ })
  | (.poll limit, _) =>
    match eventsAfter s.store s.reader.id s.reader.cursor limit with
    | .error e => some (.failed e, s)
    | .ok page => some (.page page, { s with reader := s.reader.receive page })
  | (.setReady ready, _) => some (.done, { s with store := { s.store with ready } })
  | (.fault message, _) => some (.failed (.external message), s)

/-- The runs of the store and one reader. -/
def system : System State ((Call × Time) × Answer) := System.ofOption (fun _ => True) perform

end RedevPlugin.Executions
