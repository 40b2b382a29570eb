import RedevPlugin.Foundation.Rows
import RedevPlugin.Foundation.Transition
import RedevPlugin.Session.Scopes

/-! The plans of background intervals in the control store. A plan says when an installed
plugin runs next; a claim marks it before the plugin runs, and only its claim finishes it.
Plans are derived from the plugin records, which other transactions change at any time. A call
is one statement or one transaction of the single connection of the store, so calls take
effect one after another; any of them may fail, and then nothing has changed. -/

namespace RedevPlugin.ControlStore

open Session Transition

/-! ### Times -/

/-- A time, in nanoseconds since 1970. -/
abbrev Time := ℤ

/-- The zero value of a time, at the start of the year 1. -/
def zeroTime : Time := -62135596800000000000

def unixMilli (t : Time) : ℤ := t / 1000000

def timeOfUnixMilli (ms : ℤ) : Time := ms * 1000000

def addMillis (t : Time) (ms : ℤ) : Time := t + ms * 1000000

/-! ### Plugin records -/

/-- The primary key of `plugin_records` and of `background_intervals`. -/
structure PluginKey where
  ownerEnvHash : String
  pluginInstanceID : String
  deriving DecidableEq

/-- The fingerprint of the active package and the revisions of a record. -/
structure Binding where
  activeFingerprint : String
  managementRevision : ℕ
  policyRevision : ℕ
  revokeEpoch : ℕ
  deriving DecidableEq

inductive EnableState where
  | enabled
  | disabledByUser
  /-- Any other text in a decoded record. -/
  | other (name : String)
  deriving DecidableEq

inductive BackgroundStartStrategy where
  | runtimeStart
  | onDemand
  | interval
  | other (name : String)
  deriving DecidableEq

structure BackgroundSpec where
  strategy : BackgroundStartStrategy
  intervalMS : ℤ
  maxRuntimeMS : ℤ

inductive ExecutionApprovalStatus where
  | pending
  | userApproved
  | policyApproved
  | policyBlocked
  | other (name : String)
  deriving DecidableEq

/-- A decoded record, as far as intervals depend on it. -/
structure PluginRecord where
  pluginInstanceID : String
  binding : Binding
  enableState : EnableState
  deleted : Bool
  background : Option BackgroundSpec
  /-- `Web.Root` of each surface. -/
  surfaceRoots : List String
  /-- What `validPackageSourceProvenance` says of the source of its package. -/
  provenanceValid : Bool
  approval : ExecutionApprovalStatus

def validExecutionApprovalStatus : ExecutionApprovalStatus → Bool
  | .pending | .userApproved | .policyApproved | .policyBlocked => true
  | .other _ => false

def runnablePluginRecord (record : PluginRecord) : Bool :=
  record.surfaceRoots.all (· ≠ "") && record.provenanceValid &&
    validExecutionApprovalStatus record.approval &&
    (record.approval = .userApproved || record.approval = .policyApproved)

/-- The JSON text of a record: one that is decoded, or one that is refused. -/
inductive RecordJSON where
  | record (r : PluginRecord)
  | refused (strategy : Option BackgroundStartStrategy)

/-- `json_extract` of the strategy of the background entry. -/
def RecordJSON.strategy : RecordJSON → Option BackgroundStartStrategy
  | .record r => r.background.map BackgroundSpec.strategy
  | .refused strategy => strategy

/-- A row of `plugin_records`. -/
structure RecordRow where
  key : PluginKey
  binding : Binding
  enabled : Bool
  deletedAt : Option ℤ
  json : RecordJSON

/-! ### Plans -/

inductive Outcome where
  | none
  | success
  | failed
  | unknown
  | blocked
  | canceled
  /-- Any other text, which no row may hold. -/
  | other (name : String)

def Outcome.known : Outcome → Bool
  | .other _ => false
  | _ => true

/-- A row of `background_intervals`, with times in milliseconds. -/
structure IntervalRow where
  key : PluginKey
  binding : Binding
  intervalMS : ℤ
  maxRuntimeMS : ℤ
  nextRun : ℤ
  claimID : String
  claimedAt : ℤ
  finishedAt : ℤ
  outcome : Outcome

structure IntervalPlan where
  key : PluginKey
  binding : Binding
  intervalMS : ℤ
  maxRuntimeMS : ℤ
  nextRun : Time
  claimID : String
  claimedAt : Time
  finishedAt : Time
  outcome : Outcome

inductive StoreError where
  | requestsBlocked
  | revisionConflict
  /-- `ErrIncompatible` with its text. -/
  | incompatible (message : String)
  | invalid (message : String)
  /-- A `CHECK` of the table. -/
  | constraint
  /-- The context, the database or the random source. -/
  | external (message : String)

/-- Two hexadecimal digits for each byte. -/
def isHexDigit (c : Char) : Bool := c.isDigit || ('a' ≤ c && c ≤ 'f') || ('A' ≤ c && c ≤ 'F')

/-- `hex.DecodeString` gives 24 bytes. -/
def validClaimID (id : String) : Bool := id.toList.length = 48 && id.toList.all isHexDigit

def hexDigit (n : Fin 16) : Char := "0123456789abcdef".toList.getD n.val '0'

def encodeToString (nonce : List (Fin 16 × Fin 16)) : String :=
  String.ofList (nonce.flatMap fun b => [hexDigit b.1, hexDigit b.2])

/-- The 24 bytes of a claim, each as its two digits. -/
structure Nonce where
  bytes : List (Fin 16 × Fin 16)
  length : bytes.length = 24

def timeOfColumn (ms : ℤ) : Time := if ms = 0 then zeroTime else timeOfUnixMilli ms

def planOfRow (row : IntervalRow) : IntervalPlan where
  key := row.key
  binding := row.binding
  intervalMS := row.intervalMS
  maxRuntimeMS := row.maxRuntimeMS
  nextRun := timeOfUnixMilli row.nextRun
  claimID := row.claimID
  claimedAt := timeOfColumn row.claimedAt
  finishedAt := timeOfColumn row.finishedAt
  outcome := row.outcome

variable (plan : IntervalPlan)

def validateIntervalPlan : Except StoreError Unit :=
  if plan.key.ownerEnvHash = "" ∨ plan.key.pluginInstanceID = "" ∨
      plan.binding.activeFingerprint = "" ∨ plan.binding.managementRevision = 0 ∨
      plan.intervalMS < 1000 ∨ plan.intervalMS > 86400000 ∨ plan.maxRuntimeMS < 1 ∨
      plan.maxRuntimeMS > 300000 ∨ plan.maxRuntimeMS > plan.intervalMS ∨
      unixMilli plan.nextRun ≤ 0 ∨
      (plan.claimID ≠ "" ∧ (validClaimID plan.claimID = false ∨ plan.claimedAt = zeroTime)) ∨
      plan.outcome.known = false then
    .error (.incompatible "invalid durable interval state")
  else .ok ()

abbrev Intervals := Rows IntervalRow.key

abbrev Records := Rows RecordRow.key

def readIntervalPlans : List IntervalRow → Except StoreError (List IntervalPlan)
  | [] => .ok []
  | row :: rows =>
    match validateIntervalPlan (planOfRow row) with
    | .error e => .error e
    | .ok () =>
      match readIntervalPlans rows with
      | .error e => .error e
      | .ok plans => .ok (planOfRow row :: plans)

/-! ### The store -/

structure Store where
  ready : Bool
  records : Records
  intervals : Intervals

/-- A record with an interval, as far as its plan depends on it. -/
structure IntervalRecord where
  key : PluginKey
  binding : Binding
  entry : BackgroundSpec

/-- The `WHERE` of the records that are read. -/
def RecordRow.selected (row : RecordRow) : Bool :=
  row.enabled && row.deletedAt.isNone && row.json.strategy = some .interval

/-- One round of the loop over the records. -/
def intervalRecord (row : RecordRow) : Except StoreError (Option IntervalRecord) :=
  match row.json with
  | .refused _ => .error (.incompatible "current manifest")
  | .record record =>
    if record.pluginInstanceID ≠ row.key.pluginInstanceID ∨ record.binding ≠ row.binding ∨
        record.enableState ≠ .enabled ∨ record.deleted = true then
      .error (.incompatible "interval package binding is inconsistent")
    else
      match record.background with
      | none => .ok none
      | some entry =>
        if entry.strategy = .interval ∧ runnablePluginRecord record = true then
          .ok (some ⟨row.key, record.binding, entry⟩)
        else .ok none

def intervalRecords : List RecordRow → Except StoreError (List IntervalRecord)
  | [] => .ok []
  | row :: rows =>
    match intervalRecord row with
    | .error e => .error e
    | .ok record =>
      match intervalRecords rows with
      | .error e => .error e
      | .ok records => .ok (record.toList ++ records)

def mapKey (k : PluginKey) : String :=
  k.ownerEnvHash ++ String.singleton '\x00' ++ k.pluginInstanceID

/-- The map `existing`, in which a later plan replaces an earlier one. -/
def existingPlan (plans : List IntervalPlan) (k : String) : Option IntervalPlan :=
  plans.reverse.find? fun plan => mapKey plan.key = k

def planRow (record : IntervalRecord) (now : Time) : IntervalRow where
  key := record.key
  binding := record.binding
  intervalMS := record.entry.intervalMS
  maxRuntimeMS := record.entry.maxRuntimeMS
  nextRun := unixMilli (addMillis now record.entry.intervalMS)
  claimID := ""
  claimedAt := 0
  finishedAt := 0
  outcome := .none

def IntervalRow.checked (row : IntervalRow) : Bool :=
  1000 ≤ row.intervalMS && row.intervalMS ≤ 86400000 && 1 ≤ row.maxRuntimeMS &&
    row.maxRuntimeMS ≤ 300000 && row.maxRuntimeMS ≤ row.intervalMS && row.outcome.known

/-- The plan of a record is written, unless there is one with its revisions. -/
def insertPlan (record : IntervalRecord) (now : Time) (t : Intervals) :
    Except StoreError Intervals :=
  if (planRow record now).checked then
    .ok (t.upsert (planRow record now)
      ⟨fun old => if old.binding = record.binding then old
        else { planRow record now with key := old.key }, fun old => by split_ifs <;> rfl⟩)
  else .error .constraint

/-- One round of the loop over the records with an interval. -/
def reconcileRecord (existing : String → Option IntervalPlan) (now : Time) (record : IntervalRecord)
    (t : Intervals) : Except StoreError Intervals :=
  match existing (mapKey record.key) with
  | none => insertPlan record now t
  | some current =>
    if current.binding = record.binding then
      if current.intervalMS ≠ record.entry.intervalMS ∨
          current.maxRuntimeMS ≠ record.entry.maxRuntimeMS then
        .error (.incompatible "interval limits differ from installed package")
      else .ok t
    else insertPlan record now t

def reconcileRecords (existing : String → Option IntervalPlan) (now : Time) :
    List IntervalRecord → Intervals → Except StoreError Intervals
  | [], t => .ok t
  | record :: records, t =>
    match reconcileRecord existing now record t with
    | .error e => .error e
    | .ok t' => reconcileRecords existing now records t'

/-- The loop over the plans: those of no record are deleted. -/
def deleteStale (valid : List String) : List IntervalPlan → Intervals → Intervals
  | [], t => t
  | plan :: plans, t =>
    deleteStale valid plans
      (if mapKey plan.key ∈ valid then t else t.delete fun row => row.key = plan.key)

variable (s : Store) (now : Time)

def reconcileIntervals : Except StoreError Store :=
  if s.ready = false then .error .requestsBlocked
  else if now = zeroTime then .error (.invalid "interval reconciliation requires time")
  else
    match intervalRecords (s.records.rows.filter RecordRow.selected) with
    | .error e => .error e
    | .ok records =>
      match readIntervalPlans s.intervals.rows with
      | .error e => .error e
      | .ok plans =>
        match reconcileRecords (existingPlan plans) now records s.intervals with
        | .error e => .error e
        | .ok t =>
          .ok { s with intervals := deleteStale (records.map (mapKey ·.key)) plans t }

/-- The part of a plan that its later calls compare. -/
def IntervalPlan.names (row : IntervalRow) : Bool :=
  row.key = plan.key && row.binding = plan.binding && row.intervalMS = plan.intervalMS &&
    row.maxRuntimeMS = plan.maxRuntimeMS

/-- The condition of the calls that need a claim. -/
def IntervalPlan.claims (row : IntervalRow) : Bool := plan.names row && row.claimID = plan.claimID

def validateIntervalClaim (plan : IntervalPlan) : Except StoreError Unit :=
  if s.ready = false then .error .requestsBlocked
  else if plan.claimID = "" then .error .revisionConflict
  else if s.intervals.affected plan.claims ≠ 1 then
    .error .revisionConflict
  else .ok ()

/-- The record of a plan is enabled and has its revisions. -/
def recordAllows (records : Records) (row : IntervalRow) : Bool :=
  records.rows.any fun record =>
    record.key = row.key &&
      record.binding = row.binding && record.enabled && record.deletedAt.isNone

def claimable (records : Records) (plan : IntervalPlan) (now : Time) (row : IntervalRow) : Bool :=
  plan.names row && row.nextRun = unixMilli plan.nextRun && row.claimID = "" &&
    row.nextRun ≤ unixMilli now && recordAllows records row

def claimRow (claim : IntervalPlan) (now : Time) : Rows.Change IntervalRow.key where
  apply row := { row with claimID := claim.claimID, claimedAt := unixMilli now }
  keeps _ := rfl

def claimInterval (plan : IntervalPlan) (nonce : Nonce) (now : Time) :
    Except StoreError (IntervalPlan × Bool × Store) :=
  if s.ready = false then .error .requestsBlocked
  else if now = zeroTime then .error (.invalid "interval claim requires time")
  else
    let claim := { plan with claimID := encodeToString nonce.bytes, claimedAt := now }
    let matching := claimable s.records plan now
    let intervals := s.intervals.update matching (claimRow claim now)
    .ok (claim, s.intervals.affected matching = 1, { s with intervals })

def finishRow (outcome : Outcome) : Rows.Change IntervalRow.key where
  apply row :=
    { row with
      nextRun := unixMilli (addMillis now plan.intervalMS), claimID := ""
      finishedAt := unixMilli now, outcome }
  keeps _ := rfl

def finishInterval (plan : IntervalPlan) (now : Time) (outcome : Outcome) :
    Except StoreError (Bool × Store) :=
  if s.ready = false then .error .requestsBlocked
  else if plan.claimID = "" ∨ now = zeroTime then
    .error (.invalid "interval completion requires claim and time")
  else
    if s.intervals.affected plan.claims ≠ 0 ∧ outcome.known = false then .error .constraint
    else
      let intervals := s.intervals.update plan.claims (finishRow plan now outcome)
      .ok (s.intervals.affected plan.claims = 1, { s with intervals })

def recoverRow : Rows.Change IntervalRow.key where
  apply row :=
    { row with
      nextRun := unixMilli now + row.intervalMS, claimID := "", finishedAt := unixMilli now
      outcome := .unknown }
  keeps _ := rfl

def recoverIntervalClaims : Except StoreError Store :=
  if s.ready = false then .error .requestsBlocked
  else if now = zeroTime then .error (.invalid "interval recovery requires time")
  else
    match readIntervalPlans s.intervals.rows with
    | .error e => .error e
    | .ok _ =>
      let intervals := s.intervals.update (fun row => row.claimID ≠ "") (recoverRow now)
      .ok { s with intervals }

/-! ### Calls -/

inductive Call where
  | reconcile (now : Time)
  | claim (plan : IntervalPlan) (nonce : Nonce) (now : Time)
  | finish (plan : IntervalPlan) (now : Time) (outcome : Outcome)
  | recover (now : Time)
  /-- Another transaction writes a record. -/
  | putRecord (row : RecordRow)
  | deleteRecord (key : PluginKey)
  | setReady (ready : Bool)
  /-- A call fails in the database. -/
  | fault (message : String)

inductive Answer where
  | failed (e : StoreError)
  | reconciled
  | claimed (claim : IntervalPlan) (ok : Bool)
  | finished (ok : Bool)
  | recovered
  | done

/-- What a call answers and leaves. The owner of a record that is written comes from a session,
whose hashes are valid. -/
def perform : Call → Option (Answer × Store)
  | .reconcile now =>
    match reconcileIntervals s now with
    | .error e => some (.failed e, s)
    | .ok t => some (.reconciled, t)
  | .claim plan nonce now =>
    match claimInterval s plan nonce now with
    | .error e => some (.failed e, s)
    | .ok (claim, ok, t) => some (.claimed claim ok, t)
  | .finish plan now outcome =>
    match finishInterval s plan now outcome with
    | .error e => some (.failed e, s)
    | .ok (ok, t) => some (.finished ok, t)
  | .recover now =>
    match recoverIntervalClaims s now with
    | .error e => some (.failed e, s)
    | .ok t => some (.recovered, t)
  | .putRecord row =>
    if validOwnerHash row.key.ownerEnvHash then
      let records := s.records.upsert row ⟨fun old => { row with key := old.key }, fun _ => rfl⟩
      some (.done, { s with records })
    else none
  | .deleteRecord key =>
    -- The plan of the record is deleted with it.
    some (.done, { s with
      records := s.records.delete fun row => row.key = key
      intervals := s.intervals.delete fun row => row.key = key })
  | .setReady ready => some (.done, { s with ready })
  | .fault message => some (.failed (.external message), s)

def intervalSystem : System Store (Call × Answer) := System.ofOption (fun _ => True) perform

end RedevPlugin.ControlStore
