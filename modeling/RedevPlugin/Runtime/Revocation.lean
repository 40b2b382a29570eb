import RedevPlugin.Runtime.Routes
import RedevPlugin.Scheduler.Operations

/-! Session revocation in the runtime. The main thread enqueues invocations and
consumes answers of the host; each worker takes a job, calls the host while it
runs, and completes the job in two steps around the sending of its response; the
control thread runs `SessionRevokeController::contain`. The state below is what
these threads share, with the position of each worker and of the one call of
`contain` that can hold the controller's mutex. A step is what one thread does
under one lock, so that any interleaving of the threads is a run. Steps that end
the process, a panic or a malformed answer, are not taken. A worker that leaves
its loop is one that takes no further step. -/

namespace RedevPlugin.Runtime

open Scheduler Transition

structure SessionRevokeAckCounts where
  queuedInvocations : ℕ
  runningInvocations : ℕ
  storageHostcalls : ℕ := 0
  activeNetworkRequests : ℕ := 0
  sockets : ℕ := 0
  networkStreams : ℕ := 0

structure SessionRevokeRecord where
  sequence : ℕ
  counts : SessionRevokeAckCounts
  complete : Bool

inductive SessionRevokeControlError where
  | stale
  | containment (message : String)
  | capacity
  | drainTimeout

/-- Where a call of `contain` that did not return at once is. -/
inductive ContainPhase where
  /-- Inside `cancel_session`, with the parents it has not cancelled yet. -/
  | cancelRoutes (parents : Finset (RequestId × String))
  /-- After the revocation fence, before `revoke_session` of the scheduler. -/
  | revoke
  /-- Inside `wait_session_drained`. -/
  | drain (counts : SessionRevokeAckCounts)

structure ContainCall where
  scope : SessionScope
  sequence : ℕ
  phase : ContainPhase

inductive Worker where
  | idle
  | running (job : InvocationJob)
  /-- Between `begin_completion` and `end_completion`. -/
  | publishing (completion : InvocationCompletion) (sent : Bool)

structure RuntimeConfig where
  scheduler : SchedulerLimits
  routes : RouteLimits
  maxScopes : ℕ
  runtimeGenerationId : String

structure RuntimeState (workerCount : ℕ) where
  scheduler : SchedulerState := {}
  routes : PendingIORouteState := {}
  /-- The fence of `RuntimeRevocations`. -/
  revokedSessions : Finset SessionScope := ∅
  records : Table SessionScope SessionRevokeRecord := ∅
  containing : Option ContainCall := none
  workers : Fin workerCount → Worker := fun _ => .idle
  nextCancellation : CancellationId := 0
  /-- The handles whose flag was fired. -/
  canceled : Finset CancellationId := ∅

variable {n : ℕ}

inductive Op (n : ℕ) where
  | enqueue (requestId : RequestId) (pluginInstanceId : PluginInstanceId)
    (sessionScope : Option SessionScope)
  | take (w : Fin n)
  | beginCompletion (w : Fin n)
  | publish (w : Fin n)
  | endCompletion (w : Fin n)
  | register (w : Fin n) (invocationId : String) (responseType : FrameType) (resourceId : ℕ)
  | cancelOwn (w : Fin n)
  | remove (w : Fin n) (requestId : ℕ)
  | consume (frame : PendingIORouteState.Frame)
  | contain (scope : SessionScope) (sequence : ℕ)
  | cancelParent (parent : RequestId × String)
  | fence
  | revokeSession (iteration : HashOrder)
  | drained
  | drainTimeout

inductive Output where
  | enqueued (error : Option EnqueueError)
  | took (outcome : TakeOutcome)
  | began (completion : InvocationCompletion)
  | published (completion : InvocationCompletion)
  | ended
  | routed (result : Except String ℕ)
  | routesCanceled (result : Except String Unit)
  | consumed
  | continued
  | returned (scope : SessionScope) (sequence : ℕ)
    (result : Except SessionRevokeControlError SessionRevokeAckCounts)

/-- What a step returns and leaves, if it may be taken. -/
abbrev Outcome (n : ℕ) : Type := Option (Output × RuntimeState n)

namespace RuntimeState

variable (s : RuntimeState n) (c : RuntimeConfig)

def setWorker (w : Fin n) (worker : Worker) : RuntimeState n :=
  { s with workers := Function.update s.workers w worker }

/-- Each job gets a flag of its own. -/
def enqueue (requestId : RequestId) (pluginInstanceId : PluginInstanceId)
    (sessionScope : Option SessionScope) : Outcome n :=
  match Scheduler.enqueue c.scheduler
      ⟨requestId, pluginInstanceId, sessionScope, s.nextCancellation⟩ s.scheduler with
  | .error _ => none
  | .ok (error, scheduler) => some (.enqueued error,
      { s with scheduler, nextCancellation := s.nextCancellation + 1 })

variable (w : Fin n)

def take : Outcome n :=
  match s.workers w with
  | .idle =>
    match Scheduler.take c.scheduler s.scheduler with
    | .error _ => none
    | .ok (.taken job, scheduler) =>
      some (.took (.taken job), { s with scheduler }.setWorker w (.running job))
    | .ok (outcome, scheduler) => some (.took outcome, { s with scheduler })
  | _ => none

/-- The first half of `complete_scheduled_invocation`. -/
def beginCompletion : Outcome n :=
  match s.workers w with
  | .running job =>
    match Scheduler.beginCompletion job.requestId s.scheduler with
    | .error _ => none
    | .ok (completion, scheduler) => some (.began completion,
        { s with scheduler }.setWorker w (.publishing completion false))
  | _ => none

/-- The response goes out unless it is suppressed. -/
def publish : Outcome n :=
  match s.workers w with
  | .publishing completion false =>
    if completion.suppressResponse then none
    else some (.published completion, s.setWorker w (.publishing completion true))
  | _ => none

/-- The second half: also after a response that could not be built or sent. -/
def endCompletion : Outcome n :=
  match s.workers w with
  | .publishing completion _ => some (.ended,
      { s with scheduler := Scheduler.endCompletion completion s.scheduler }.setWorker w .idle)
  | _ => none

/-- The route of one host call of a running job. -/
def routeOf (job : InvocationJob) (invocationId : String) (responseType : FrameType)
    (resourceId : ℕ) : PendingIORoute :=
  ⟨job.requestId, invocationId, c.runtimeGenerationId, job.sessionScope, responseType, resourceId⟩

def register (invocationId : String) (responseType : FrameType) (resourceId : ℕ) : Outcome n :=
  match s.workers w with
  | .running job =>
    match s.routes.register c.routes (routeOf c job invocationId responseType resourceId) with
    | .error message => some (.routed (.error message), s)
    | .ok (requestId, routes) => some (.routed (.ok requestId), { s with routes })
  | _ => none

/-- A worker that sees its flag fired cancels the routes of its job. -/
def cancelOwn : Outcome n :=
  match s.workers w with
  | .running job =>
    if job.cancellation ∈ s.canceled then
      match s.routes.cancelParent c.routes job.requestId c.runtimeGenerationId with
      | .error message => some (.routesCanceled (.error message), s)
      | .ok routes => some (.routesCanceled (.ok ()), { s with routes })
    else none
  | _ => none

/-- A worker that cannot send its request removes the route again. -/
def remove (requestId : ℕ) : Outcome n :=
  match s.workers w with
  | .running job =>
    if (s.routes.active.lookup requestId).any (fun r => r.parentRequestId = job.requestId) then
      some (.consumed, { s with routes := s.routes.remove requestId })
    else none
  | _ => none

def consume (frame : PendingIORouteState.Frame) : Outcome n :=
  match s.routes.consume frame with
  | .error _ => none
  | .ok routes => some (.consumed, { s with routes })

/-- The checks of `contain` up to its first effect. -/
def contain (scope : SessionScope) (sequence : ℕ) : Outcome n :=
  match s.containing with
  | some _ => none
  | none =>
    match s.records.lookup scope with
    | some record =>
      if sequence < record.sequence then some (.returned scope sequence (.error .stale), s)
      else if sequence = record.sequence then
        if record.complete then some (.returned scope sequence (.ok record.counts), s)
        else some (.continued,
          { s with containing := some ⟨scope, sequence, .drain record.counts⟩ })
      else some (.continued, { s with
        containing := some ⟨scope, sequence, .cancelRoutes (s.routes.sessionParents scope)⟩ })
    | none =>
      if c.maxScopes ≤ s.records.size then
        some (.returned scope sequence (.error .capacity), s)
      else some (.continued, { s with
        containing := some ⟨scope, sequence, .cancelRoutes (s.routes.sessionParents scope)⟩ })

/-- One iteration of the loop of `cancel_session`. -/
def cancelParent (parent : RequestId × String) : Outcome n :=
  match s.containing with
  | some ⟨scope, sequence, .cancelRoutes parents⟩ =>
    if parent ∈ parents then
      match s.routes.cancelParent c.routes parent.1 parent.2 with
      | .error message => some (.returned scope sequence (.error (.containment message)),
          { s with containing := none })
      | .ok routes => some (.continued, { s with
          routes, containing := some ⟨scope, sequence, .cancelRoutes (parents.erase parent)⟩ })
    else none
  | _ => none

def fence : Outcome n :=
  match s.containing with
  | some ⟨scope, sequence, .cancelRoutes parents⟩ =>
    if parents = ∅ then some (.continued, { s with
      revokedSessions := insert scope s.revokedSessions
      containing := some ⟨scope, sequence, .revoke⟩ })
    else none
  | _ => none

/-- `revoke_session` of the scheduler, the flags it fires and the record. -/
def revokeSession (iteration : HashOrder) : Outcome n :=
  match s.containing with
  | some ⟨scope, sequence, .revoke⟩ =>
    match Scheduler.revokeSession iteration scope s.scheduler with
    | .error _ => none
    | .ok (disposition, scheduler) =>
      let counts : SessionRevokeAckCounts :=
        { queuedInvocations := disposition.queued.length
          runningInvocations := disposition.runningRequestIds.length }
      some (.continued, { s with
        scheduler, canceled := s.canceled ∪ disposition.canceled.toFinset
        records := s.records.insert scope ⟨sequence, counts, false⟩
        containing := some ⟨scope, sequence, .drain counts⟩ })
  | _ => none

def drained : Outcome n :=
  match s.containing with
  | some ⟨scope, sequence, .drain counts⟩ =>
    if sessionDrained scope s.scheduler then
      match s.records.lookup scope with
      | none => none
      | some record => some (.returned scope sequence (.ok counts), { s with
          records := s.records.insert scope { record with complete := true }, containing := none })
    else none
  | _ => none

def drainTimeout : Outcome n :=
  match s.containing with
  | some ⟨scope, sequence, .drain _⟩ =>
    if sessionDrained scope s.scheduler then none
    else some (.returned scope sequence (.error .drainTimeout), { s with containing := none })
  | _ => none

end RuntimeState

/-- One step of one thread; `none` if the thread cannot take it. -/
def perform (c : RuntimeConfig) (s : RuntimeState n) : Op n → Outcome n
  | .enqueue requestId pluginInstanceId sessionScope =>
    s.enqueue c requestId pluginInstanceId sessionScope
  | .take w => s.take c w
  | .beginCompletion w => s.beginCompletion w
  | .publish w => s.publish w
  | .endCompletion w => s.endCompletion w
  | .register w invocationId responseType resourceId =>
    s.register c w invocationId responseType resourceId
  | .cancelOwn w => s.cancelOwn c w
  | .remove w requestId => s.remove w requestId
  | .consume frame => s.consume frame
  | .contain scope sequence => s.contain c scope sequence
  | .cancelParent parent => s.cancelParent c parent
  | .fence => s.fence
  | .revokeSession iteration => s.revokeSession iteration
  | .drained => s.drained
  | .drainTimeout => s.drainTimeout

def system (c : RuntimeConfig) (n : ℕ) : System (RuntimeState n) (Op n × Output) where
  init s := s = {}
  step s l t := perform c s l.1 = some (l.2, t)

end RedevPlugin.Runtime
