import RedevPlugin.Foundation.Mailbox
import RedevPlugin.Foundation.Transition
import RedevPlugin.Session.FenceStores

/-! Revoking a session on every shard of a process manager. One goroutine for each shard
asks for its health, stops it when it is not ready, and otherwise asks it to revoke the
session and compares the generation of the answer with the one of the health; its outcome
goes into a channel that the call reads. After an error, or once the context of the call
has ended, the call stops every shard, again one goroutine for each, under a context that
has the deadline of the first one. What the processes of the shards answer, the end of the
contexts and the order of the goroutines come from outside. -/

namespace RedevPlugin.Manager

open Session (SessionScope maxSafeInteger)
open Text (blank)

/-! ### Requests, answers and errors -/

inductive CountField where
  | queuedInvocations
  | runningInvocations
  | storageHostcalls
  | activeNetworkRequests
  | sockets
  | networkStreams

def CountField.all : List CountField :=
  [.queuedInvocations, .runningInvocations, .storageHostcalls, .activeNetworkRequests, .sockets,
    .networkStreams]

theorem CountField.mem_all (f : CountField) : f ∈ CountField.all := by
  cases f <;> simp [CountField.all]

abbrev SessionRevokeCounts : Type := CountField → ℕ

structure SessionRevokeRequest where
  sessionScope : SessionScope
  sessionRevokeSequence : ℕ

inductive SessionRevokeState where
  | complete
  /-- Any other text, the empty one too. -/
  | other (text : String)
  deriving DecidableEq

structure SessionRevokeShardResult where
  runtimeShardID : String
  runtimeGenerationID : String
  state : SessionRevokeState
  counts : SessionRevokeCounts

structure SessionRevokeResult where
  sessionScope : SessionScope
  sessionRevokeSequence : ℕ
  shards : List SessionRevokeShardResult
  counts : SessionRevokeCounts
  runtimeStopped : Bool

/-- The zero value, which goes with the errors that are found early. -/
def SessionRevokeResult.zero : SessionRevokeResult := ⟨⟨"", "", "", ""⟩, 0, [], fun _ => 0, false⟩

inductive Target where
  | darwinAMD64
  | darwinARM64
  | linuxAMD64
  | linuxARM64
  | unsupported (code : ℕ)

def Target.valid : Target → Bool
  | .unsupported _ => false
  | _ => true

structure RuntimeArtifactIdentity where
  platformVersion : String
  target : Target
  binarySHA256 : String

def lowerSHA256 (s : String) : Bool :=
  s.toList.length = 64 && s.toList.all fun c => c.isDigit || ('a' ≤ c && c ≤ 'f')

def RuntimeArtifactIdentity.compatibleWithPlatform (i : RuntimeArtifactIdentity)
    (currentPlatformVersion : String) : Bool :=
  i.platformVersion = currentPlatformVersion && i.target.valid && lowerSHA256 i.binarySHA256

/-- The fields of a health that the manager reads. -/
structure Health where
  ready : Bool
  (runtimeInstanceID runtimeGenerationID ipcChannelID connectionNonce : String)
  artifactIdentity : RuntimeArtifactIdentity

/-- Why one shard did not revoke the session. -/
inductive ShardError where
  /-- What the process of the shard returned. -/
  | process (message : String)
  | notReady
  | healthIncomplete
  | descriptorMissing
  | artifactIncompatible (platformVersion : String) (target : Target)
  | terminateNonReady (shardID : String) (message : String)
  | ackMissingField
  | ackSequenceMismatch
  | ackStateInvalid
  | ackGenerationMissing
  | ackCountsInvalid
  | generationChanged (shardID : String)

inductive RevokeError where
  | hostServicesRequired
  | requestInvalid
  | shard (shardID : String) (cause : ShardError)
  /-- The context of the call, or the one of the stops, has ended. -/
  | contextEnded
  | stopShard (shardID : String) (message : String)
  | aggregateCount

def validateSessionRevokeRequest (req : SessionRevokeRequest) : Bool :=
  req.sessionScope.valid && req.sessionRevokeSequence != 0 &&
    req.sessionRevokeSequence ≤ maxSafeInteger

def validateReadyHealth (currentPlatformVersion : String) (health : Health) :
    Except ShardError Unit :=
  if !health.ready then .error .notReady
  else if blank health.runtimeInstanceID || blank health.runtimeGenerationID ||
      blank health.ipcChannelID || blank health.connectionNonce then .error .healthIncomplete
  else if health.artifactIdentity.platformVersion = "" then .error .descriptorMissing
  else if !health.artifactIdentity.compatibleWithPlatform currentPlatformVersion then
    .error (.artifactIncompatible health.artifactIdentity.platformVersion
      health.artifactIdentity.target)
  else .ok ()

/-- The acknowledgement as it was read from its frame. -/
structure SessionRevokeResultPayload where
  sessionRevokeSequence : Option ℕ
  state : SessionRevokeState
  counts : Option SessionRevokeCounts

def validSessionRevokeCounts (counts : SessionRevokeCounts) : Bool :=
  CountField.all.all fun f => counts f ≤ maxSafeInteger

def decodeSessionRevokeResult (payload : SessionRevokeResultPayload)
    (runtimeGenerationID : String) (request : SessionRevokeRequest) :
    Except ShardError SessionRevokeShardResult :=
  match payload.sessionRevokeSequence, payload.counts with
  | some sequence, some counts =>
    if payload.state = .other "" then .error .ackMissingField
    else if sequence ≠ request.sessionRevokeSequence then .error .ackSequenceMismatch
    else if payload.state ≠ .complete then .error .ackStateInvalid
    else if blank runtimeGenerationID then .error .ackGenerationMissing
    else if !validSessionRevokeCounts counts then .error .ackCountsInvalid
    else .ok ⟨"", runtimeGenerationID, payload.state, counts⟩
  | _, _ => .error .ackMissingField

/-! ### Adding up -/

def addSessionRevokeCounts (current delta : SessionRevokeCounts) :
    Except RevokeError SessionRevokeCounts :=
  if CountField.all.any fun f =>
      maxSafeInteger < current f || maxSafeInteger - current f < delta f then
    .error .aggregateCount
  else .ok fun f => current f + delta f

/-- The last loop of the call, over the results in the order of the shards. -/
def aggregate (counts : SessionRevokeCounts) :
    List (Option SessionRevokeShardResult) →
      Except RevokeError (List SessionRevokeShardResult × SessionRevokeCounts)
  | [] => .ok ([], counts)
  | none :: rest => aggregate counts rest
  | some shard :: rest =>
    match addSessionRevokeCounts counts shard.counts with
    | .error e => .error e
    | .ok counts => (aggregate counts rest).map fun (shards, counts) => (shard :: shards, counts)

/-! ### The goroutine of a shard -/

/-- What the process of a shard answers to the three calls of a goroutine. -/
inductive ProcessEvent where
  | health (answer : Except String Health)
  | stop (failure : Option String)
  | revokeSession (answer : Except String (SessionRevokeResultPayload × String))

inductive ShardOutcome where
  | failed (cause : ShardError)
  | stopped
  | acknowledged (result : SessionRevokeShardResult)

inductive Worker where
  | asking
  | notReady
  | ready (health : Health)
  | sent (outcome : ShardOutcome)

structure ProcessManager (n : ℕ) where
  bound : Bool
  shardIDs : Fin n → String
  currentPlatformVersion : String

section Goroutine

variable {n : ℕ} (m : ProcessManager n) (req : SessionRevokeRequest)

/-- The outcome of an answer to `RevokeSession`, after the check of the generation. -/
def revokeOutcome (shardID : String) (health : Health) :
    Except String (SessionRevokeResultPayload × String) → ShardOutcome
  | .error message => .failed (.process message)
  | .ok (payload, generation) =>
    match decodeSessionRevokeResult payload generation req with
    | .error e => .failed e
    | .ok result =>
      if result.runtimeGenerationID ≠ health.runtimeGenerationID then
        .failed (.generationChanged shardID)
      else .acknowledged { result with runtimeShardID := shardID }

def Worker.step (i : Fin n) : Worker → ProcessEvent → Option Worker
  | .asking, .health (.error message) => some (.sent (.failed (.process message)))
  | .asking, .health (.ok health) =>
    match validateReadyHealth m.currentPlatformVersion health with
    | .error .notReady => some .notReady
    | .error e => some (.sent (.failed e))
    | .ok () => some (.ready health)
  | .notReady, .stop (some message) =>
    some (.sent (.failed (.terminateNonReady (m.shardIDs i) message)))
  | .notReady, .stop none => some (.sent .stopped)
  | .ready health, .revokeSession answer =>
    some (.sent (revokeOutcome req (m.shardIDs i) health answer))
  | _, _ => none

end Goroutine

/-! ### The call -/

/-- The variables of the loop that reads the outcomes. -/
structure Collected (n : ℕ) where
  /-- `ordered[i]`, where `included[i]` is set. -/
  ordered : Fin n → Option SessionRevokeShardResult
  runtimeStopped : Bool
  revokeErr : List RevokeError

def Collected.start (n : ℕ) : Collected n := ⟨fun _ => none, false, []⟩

inductive Phase (n : ℕ) where
  | entry
  | collecting (vars : Collected n)
  /-- In `stopProcessShards`, with the errors that led there. -/
  | stopping (revokeErr : List RevokeError) (errorsByIndex : Fin n → Option RevokeError)
  | returned

structure State (n : ℕ) where
  phase : Phase n := .entry
  /-- The goroutines of the shards were started. -/
  launched : Bool := false
  /-- The goroutines of the stops were started; both kinds outlive the call. -/
  stopsLaunched : Bool := false
  contextEnded : Bool := false
  stopContextEnded : Bool := false
  workers : Fin n → Worker := fun _ => .asking
  outcomes : Mailbox (Fin n) ShardOutcome := {}
  /-- The answers to the stops that follow an error, each sent at once. -/
  stops : Fin n → Option (Option String) := fun _ => none
  stopResults : Mailbox (Fin n) (Option String) := {}

inductive Action (n : ℕ) where
  | call
  /-- The process of a shard answers the goroutine that asks it. -/
  | process (i : Fin n) (e : ProcessEvent)
  | receive
  | seeContextEnd
  /-- The loop over the outcomes is left. -/
  | settle
  /-- `Stop` is called for a shard after an error, and answers. -/
  | stop (i : Fin n) (failure : Option String)
  | receiveStop
  | seeStopContextEnd
  | settleStops
  | endContext
  | endStopContext

/-- What `RevokeSession` returns; no errors stand for `nil`. -/
structure Answer where
  result : SessionRevokeResult
  errors : List RevokeError

section Call

variable {n : ℕ} (m : ProcessManager n) (req : SessionRevokeRequest)

def Collected.add (vars : Collected n) : Fin n × ShardOutcome → Collected n
  | (i, .failed cause) =>
    { vars with revokeErr := vars.revokeErr ++ [.shard (m.shardIDs i) cause] }
  | (_, .stopped) => { vars with runtimeStopped := true }
  | (i, .acknowledged result) =>
    { vars with ordered := Function.update vars.ordered i (some result) }

/-- What follows the loop over the outcomes when there was no error. -/
def Collected.answer (vars : Collected n) : Answer :=
  match aggregate (fun _ => 0) ((List.finRange n).map vars.ordered) with
  | .error e => ⟨.zero, [e]⟩
  | .ok (shards, counts) =>
    ⟨⟨req.sessionScope, req.sessionRevokeSequence, shards, counts, vars.runtimeStopped⟩, []⟩

/-- What follows the stops; `stopErr` is what `stopProcessShards` returned. -/
def stopAnswer (revokeErr stopErr : List RevokeError) : Answer :=
  ⟨⟨req.sessionScope, req.sessionRevokeSequence, [], fun _ => 0, stopErr.isEmpty⟩,
    revokeErr ++ stopErr⟩

def stopError (i : Fin n) (failure : Option String) : Option RevokeError :=
  failure.map (.stopShard (m.shardIDs i))

def State.stopShards (s : State n) (revokeErr : List RevokeError) : State n :=
  { s with phase := .stopping revokeErr fun _ => none, stopsLaunched := true }

def State.perform (s : State n) : Action n → Option (Option Answer × State n)
  | .call =>
    match s.phase with
    | .entry =>
      if !m.bound || n = 0 then
        some (some ⟨.zero, [.hostServicesRequired]⟩, { s with phase := .returned })
      else if !validateSessionRevokeRequest req then
        some (some ⟨.zero, [.requestInvalid]⟩, { s with phase := .returned })
      else some (none, { s with phase := .collecting (.start n), launched := true })
    | _ => none
  | .process i e =>
    if !s.launched then none
    else
      match (s.workers i).step m req i e with
      | none => none
      | some (.sent o) =>
        some (none, { s with
          workers := Function.update s.workers i (.sent o), outcomes := s.outcomes.send i o })
      | some w => some (none, { s with workers := Function.update s.workers i w })
  | .receive =>
    match s.phase with
    | .collecting vars =>
      if s.outcomes.taken < n then
        s.outcomes.receive.map fun (o, rest) =>
          (none, { s with phase := .collecting (vars.add m o), outcomes := rest })
      else none
    | _ => none
  | .seeContextEnd =>
    match s.phase with
    | .collecting vars =>
      if s.outcomes.taken < n && s.contextEnded then
        some (none, s.stopShards (vars.revokeErr ++ [.contextEnded]))
      else none
    | _ => none
  | .settle =>
    match s.phase with
    | .collecting vars =>
      if s.outcomes.taken < n then none
      else if vars.revokeErr.isEmpty then
        some (some (vars.answer req), { s with phase := .returned })
      else some (none, s.stopShards vars.revokeErr)
    | _ => none
  | .stop i failure =>
    if s.stopsLaunched && (s.stops i).isNone then
      some (none, { s with
        stops := Function.update s.stops i (some failure)
        stopResults := s.stopResults.send i failure })
    else none
  | .receiveStop =>
    match s.phase with
    | .stopping errs errorsByIndex =>
      if s.stopResults.taken < n then
        s.stopResults.receive.map fun ((i, failure), rest) =>
          (none, { s with
            phase := .stopping errs (Function.update errorsByIndex i (stopError m i failure))
            stopResults := rest })
      else none
    | _ => none
  | .seeStopContextEnd =>
    match s.phase with
    | .stopping errs errorsByIndex =>
      if s.stopResults.taken < n && s.stopContextEnded then
        some (some (stopAnswer req errs
            ((List.finRange n).filterMap errorsByIndex ++ [.contextEnded])),
          { s with phase := .returned })
      else none
    | _ => none
  | .settleStops =>
    match s.phase with
    | .stopping errs errorsByIndex =>
      if s.stopResults.taken < n then none
      else
        some (some (stopAnswer req errs ((List.finRange n).filterMap errorsByIndex)),
          { s with phase := .returned })
    | _ => none
  | .endContext => some (none, { s with contextEnded := true })
  | .endStopContext => some (none, { s with stopContextEnded := true })

/-- One call of `RevokeSession`. -/
def system : Transition.System (State n) (Action n × Option Answer) :=
  .ofOption (· = {}) (State.perform m req)

end Call

end RedevPlugin.Manager
