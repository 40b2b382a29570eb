import RedevPlugin.Foundation.Transition
import RedevPlugin.Scheduler.State

/-! The operations of the invocation scheduler. Each holds the scheduler's mutex
for its whole body, so an operation is one step of the state. A worker inside
`take` that finds nothing to run releases the mutex and scans again after a
wake-up: one scan is one step, and `waiting` is the outcome of a scan that goes
back to sleep. The flags an operation fires after it released the mutex are
those of the jobs it returns and the handles it returns; `shutdown` also fires
those of every active invocation. -/

namespace RedevPlugin.Scheduler

inductive EnqueueError where
  | capacity
  | pluginCapacity
  | duplicate
  | shutdown
  | sessionRevoked

/-! ### Enqueue -/

/-- The checks of `enqueue`, in the source's order; `none` admits the job. -/
def enqueueError (limits : SchedulerLimits) (s : SchedulerState) (job : InvocationJob) :
    Option EnqueueError :=
  if s.shutdown then some .shutdown
  else if job.sessionScope.any (fun scope => scope ∈ s.revokedSessions) then some .sessionRevoked
  else if limits.queueCapacity ≤ s.queued then some .capacity
  else if limits.perPluginCapacity ≤
      s.activeCount job.pluginInstanceId + s.liveCount job.pluginInstanceId then
    some .pluginCapacity
  else if job.requestId ∈ s.active ∨ job.requestId ∈ s.recentRequestIds ∨
      job.requestId ∈ s.queuedByRequest then some .duplicate
  else none

variable (s : SchedulerState)

/-- The queue part of `enqueue`: append to the plugin's queue, or make a queue
of the next generation and give it a token. -/
def pushRequest (p : PluginInstanceId) (requestId : RequestId) : Except Panic SchedulerState :=
  match s.queues.lookup p with
  | some queue => .ok
    { s with
      queues := s.queues.insert p
        { queue with requestIds := queue.requestIds ++ [requestId], live := queue.live + 1 } }
  | none =>
    if s.nextQueueGeneration < u64Max then .ok
      { s with
        nextQueueGeneration := s.nextQueueGeneration + 1
        queues := s.queues.insert p
          { requestIds := [requestId], live := 1, tombstones := 0
            generation := s.nextQueueGeneration + 1 }
        order := s.order ++ [⟨p, s.nextQueueGeneration + 1⟩] }
    else .error "scheduler queue generation exhausted"

/-- The index part of `enqueue`. -/
def indexQueued (job : InvocationJob) : SchedulerState :=
  { s with
    queuedBySession := addSessionRequest s.queuedBySession job.sessionScope job.requestId
    queuedByRequest := s.queuedByRequest.insert job.requestId job, queued := s.queued + 1 }

variable (limits : SchedulerLimits)

def enqueue (job : InvocationJob) (s : SchedulerState) :
    Except Panic (Option EnqueueError × SchedulerState) :=
  match enqueueError limits s job with
  | some error => .ok (some error, s)
  | none =>
    match pushRequest s job.pluginInstanceId job.requestId with
    | .error message => .error message
    | .ok s' => .ok (none, indexQueued s' job)

/-! ### Take -/

inductive TakeOutcome where
  | taken (job : InvocationJob)
  | closed
  | waiting

/-- The inner loop of `take`: pop ids until one is still queued. Returns the id,
its job, the ids left and the tombstones left. -/
def popLive (jobs : Table RequestId InvocationJob) :
    List RequestId → ℕ → Except Panic (RequestId × InvocationJob × List RequestId × ℕ)
  | [], _ => .error "scheduler live queue is not empty"
  | requestId :: rest, tombstones =>
    match jobs.lookup requestId with
    | some job => .ok (requestId, job, rest, tombstones)
    | none =>
      match tombstones with
      | 0 => .error "queued request tombstone is counted"
      | tombstones + 1 => popLive jobs rest tombstones

/-- The part of `take` after a job is popped: `live` ids of the queue remain. -/
def activate (p : PluginInstanceId) (queue : PluginQueue) (requestId : RequestId)
    (job : InvocationJob) (queued : ℕ) : SchedulerState :=
  { s with
    queues := if queue.live = 0 then s.queues.erase p else s.queues.insert p queue
    order := if queue.live = 0 then s.order else s.order ++ [⟨p, queue.generation⟩]
    queuedByRequest := s.queuedByRequest.erase requestId
    queued
    queuedBySession := removeSessionRequest s.queuedBySession job.sessionScope job.requestId
    activeBySession := addSessionRequest s.activeBySession job.sessionScope job.requestId
    activeByPlugin := s.activeByPlugin.insert p (s.activeCount p + 1)
    active := s.active.insert job.requestId ⟨p, job.cancellation, job.sessionScope⟩ }

/-- Take the first live job of a plugin's queue. -/
def takeLive (p : PluginInstanceId) (queue : PluginQueue) :
    Except Panic (InvocationJob × SchedulerState) :=
  match popLive s.queuedByRequest queue.requestIds queue.tombstones with
  | .error message => .error message
  | .ok (requestId, job, rest, tombstones) =>
    match checkedPred queue.live subtractOverflow, checkedPred s.queued subtractOverflow with
    | .ok live, .ok queued =>
      .ok (job, activate s p
        { queue with requestIds := rest, live, tombstones }
        requestId job queued)
    | _, _ => .error subtractOverflow

/-- A token whose queue is gone or of another generation is dropped. -/
def dropStale : Except Panic (Option InvocationJob × SchedulerState) :=
  match checkedPred s.staleOrderTokens "stale scheduler order token is counted" with
  | .error message => .error message
  | .ok stale => .ok (none, { s with staleOrderTokens := stale })

/-- One iteration of the scan of `take`, for a token already popped from
`order`. -/
def scanToken (s : SchedulerState) (token : QueueToken) :
    Except Panic (Option InvocationJob × SchedulerState) :=
  match s.queues.lookup token.pluginInstanceId with
  | none => dropStale s
  | some queue =>
    if queue.generation = token.generation then
      if limits.perPluginConcurrency ≤ s.activeCount token.pluginInstanceId then
        .ok (none, { s with order := s.order ++ [token] })
      else
        match takeLive s token.pluginInstanceId queue with
        | .error message => .error message
        | .ok (job, s') => .ok (some job, s')
    else dropStale s

/-- The scan of `take` with `n` iterations to go. -/
def takeScan (limits : SchedulerLimits) :
    ℕ → SchedulerState → Except Panic (TakeOutcome × SchedulerState)
  | 0, s => .ok (if s.shutdown then .closed else .waiting, s)
  | n + 1, s =>
    match s.order with
    | [] => .ok (.closed, s)
    | token :: rest =>
      match scanToken limits { s with order := rest } token with
      | .error message => .error message
      | .ok (some job, s') => .ok (.taken job, s')
      | .ok (none, s') => takeScan limits n s'

def take (s : SchedulerState) : Except Panic (TakeOutcome × SchedulerState) :=
  takeScan limits s.order.length s

/-! ### Completion -/

structure InvocationCompletion where
  requestId : RequestId
  sessionScope : Option SessionScope
  suppressResponse : Bool
  deriving DecidableEq

variable (requestId : RequestId)

/-- The active-table part of `begin_completion`, with the scope of the removed
invocation. -/
def removeActive : Except Panic (Option SessionScope × SchedulerState) :=
  match s.active.lookup requestId with
  | none => .ok (none, s)
  | some invocation =>
    match s.activeByPlugin.lookup invocation.pluginInstanceId with
    | none => .error "active plugin count exists"
    | some count =>
      match checkedPred count subtractOverflow with
      | .error message => .error message
      | .ok count => .ok (invocation.sessionScope,
        { s with
          active := s.active.erase requestId
          activeBySession :=
            removeSessionRequest s.activeBySession invocation.sessionScope requestId
          activeByPlugin :=
            if count = 0 then s.activeByPlugin.erase invocation.pluginInstanceId
            else s.activeByPlugin.insert invocation.pluginInstanceId count })

def beginCompletion (s : SchedulerState) : Except Panic (InvocationCompletion × SchedulerState) :=
  match removeActive s requestId with
  | .error message => .error message
  | .ok (scope, s') => .ok
    (⟨requestId, scope, scope.any (fun scope => scope ∈ s'.revokedSessions)⟩,
      rememberRecentRequestId
        { s' with publishingBySession := addSessionRequest s'.publishingBySession scope requestId }
        requestId)

def endCompletion (completion : InvocationCompletion) (s : SchedulerState) : SchedulerState :=
  { s with
    publishingBySession :=
      removeSessionRequest s.publishingBySession completion.sessionScope completion.requestId }

/-! ### Cancel -/

inductive CancelDisposition where
  | queued (job : InvocationJob)
  | running (cancellation : CancellationId)
  | complete
  | missing

/-- Turn one queued request of `queue` into a tombstone. -/
def entomb (queue : PluginQueue) : Except Panic PluginQueue :=
  match checkedPred queue.live subtractOverflow with
  | .error message => .error message
  | .ok live => .ok { queue with live, tombstones := queue.tombstones + 1 }

/-- Drop the queue of a plugin: its token becomes stale. -/
def dropQueue (p : PluginInstanceId) : SchedulerState :=
  { s with queues := s.queues.erase p, staleOrderTokens := s.staleOrderTokens + 1 }

/-- The part of `cancel` for a job found in the queue. -/
def cancelQueued (job : InvocationJob) : Except Panic SchedulerState :=
  match s.queues.lookup job.pluginInstanceId with
  | none => .error "queued invocation references a plugin queue"
  | some queue =>
    match entomb queue, checkedPred s.queued subtractOverflow with
    | .ok queue, .ok queued =>
      let s := { s with
        queuedByRequest := s.queuedByRequest.erase requestId
        queuedBySession := removeSessionRequest s.queuedBySession job.sessionScope requestId
        queues := s.queues.insert job.pluginInstanceId queue, queued }
      let s := if queue.live = 0 then dropQueue s job.pluginInstanceId
        else compactPluginQueue s job.pluginInstanceId
      .ok (rememberRecentRequestId (compactOrder s) job.requestId)
    | _, _ => .error subtractOverflow

def cancel (s : SchedulerState) : Except Panic (CancelDisposition × SchedulerState) :=
  match s.queuedByRequest.lookup requestId with
  | some job =>
    match cancelQueued s requestId job with
    | .error message => .error message
    | .ok s' => .ok (.queued job, s')
  | none =>
    match s.active.lookup requestId with
    | some invocation => .ok (.running invocation.cancellation, s)
    | none =>
      if requestId ∈ s.recentRequestIds then .ok (.complete, s) else .ok (.missing, s)

/-! ### Session revocation -/

structure SessionRevokeDisposition where
  queued : List InvocationJob
  runningRequestIds : List RequestId
  canceled : List CancellationId

/-- One iteration of the first loop of `revoke_session` for a job that is still
queued. -/
def revokeOne (job : InvocationJob) : Except Panic SchedulerState :=
  match s.queues.lookup job.pluginInstanceId with
  | none => .error "session-indexed queued invocation references a plugin queue"
  | some queue =>
    match entomb queue, checkedPred s.queued subtractOverflow with
    | .ok queue, .ok queued => .ok (rememberRecentRequestId
      { s with
        queuedByRequest := s.queuedByRequest.erase requestId
        queues := s.queues.insert job.pluginInstanceId queue, queued } requestId)
    | _, _ => .error subtractOverflow

/-- The first loop of `revoke_session`: the jobs removed and the state. -/
def revokeQueued : List RequestId → SchedulerState →
    Except Panic (List InvocationJob × SchedulerState)
  | [], s => .ok ([], s)
  | requestId :: rest, s =>
    match s.queuedByRequest.lookup requestId with
    | none => revokeQueued rest s
    | some job =>
      match revokeOne s requestId job with
      | .error message => .error message
      | .ok s' =>
        match revokeQueued rest s' with
        | .error message => .error message
        | .ok (jobs, s'') => .ok (job :: jobs, s'')

/-- The second loop of `revoke_session`: drop the affected queues that hold no
live job. -/
def dropEmptyQueues : List PluginInstanceId → SchedulerState → SchedulerState
  | [], s => s
  | p :: rest, s =>
    if (s.queues.lookup p).any (fun queue => queue.live == 0) then
      dropEmptyQueues rest (dropQueue s p)
    else dropEmptyQueues rest s

def revokeSession (iteration : HashOrder) (scope : SessionScope) (s : SchedulerState) :
    Except Panic (SessionRevokeDisposition × SchedulerState) :=
  match revokeQueued (iteration.toList (s.queuedBySession.ids scope))
      { s with
        revokedSessions := insert scope s.revokedSessions
        queuedBySession := s.queuedBySession.erase scope } with
  | .error message => .error message
  | .ok (jobs, s') =>
    let affected := (jobs.map InvocationJob.pluginInstanceId).toFinset
    let s' := compactOrder (dropEmptyQueues (iteration.toList affected) s')
    let running := iteration.toList (s'.activeBySession.ids scope) ++
      iteration.toList (s'.publishingBySession.ids scope)
    .ok
      (⟨jobs, running, jobs.map InvocationJob.cancellation ++
        running.filterMap (fun id => (s'.active.lookup id).map ActiveInvocation.cancellation)⟩, s')

/-- The value `wait_session_drained` returns when it stops waiting. -/
def sessionDrained (scope : SessionScope) (s : SchedulerState) : Bool :=
  s.activeBySession.ids scope = ∅ ∧ s.publishingBySession.ids scope = ∅

/-! ### Shutdown -/

/-- Remove the queued jobs a plugin's queue still names. -/
def drainQueue : List RequestId → Table RequestId InvocationJob →
    List InvocationJob × Table RequestId InvocationJob
  | [], jobs => ([], jobs)
  | requestId :: rest, jobs =>
    match jobs.lookup requestId with
    | none => drainQueue rest jobs
    | some job => ((job :: (drainQueue rest (jobs.erase requestId)).1),
        (drainQueue rest (jobs.erase requestId)).2)

/-- The loop of `shutdown` over the plugins in order. -/
def drainQueues (queues : Table PluginInstanceId PluginQueue) : List PluginInstanceId →
    Table RequestId InvocationJob → List InvocationJob × Table RequestId InvocationJob
  | [], jobs => ([], jobs)
  | p :: rest, jobs =>
    let drained := drainQueue (((queues.lookup p).map PluginQueue.requestIds).getD []) jobs
    (drained.1 ++ (drainQueues queues rest drained.2).1, (drainQueues queues rest drained.2).2)

def shutdown (s : SchedulerState) : Except Panic (List InvocationJob × SchedulerState) :=
  let drained := drainQueues s.queues (s.queues.keys.sort (· ≤ ·)) s.queuedByRequest
  if drained.2.size = 0 then .ok
    (drained.1,
      { s with
        shutdown := true, queues := ∅, queuedByRequest := drained.2, order := []
        queuedBySession := ∅, activeBySession := ∅, publishingBySession := ∅, staleOrderTokens := 0
        queued := 0 })
  else .error "assertion failed: state.queued_by_request.is_empty()"

/-! ### The scheduler as a transition system -/

inductive Op where
  | enqueue (job : InvocationJob)
  | take
  | beginCompletion (requestId : RequestId)
  | endCompletion (completion : InvocationCompletion)
  | cancel (requestId : RequestId)
  | revokeSession (iteration : HashOrder) (scope : SessionScope)
  | shutdown

inductive Output where
  | enqueued (error : Option EnqueueError)
  | took (outcome : TakeOutcome)
  | began (completion : InvocationCompletion)
  | ended
  | canceled (disposition : CancelDisposition)
  | revoked (disposition : SessionRevokeDisposition)
  | stopped (jobs : List InvocationJob)

def perform (s : SchedulerState) : Op → Except Panic (Output × SchedulerState)
  | .enqueue job => (enqueue limits job s).map (fun r => (.enqueued r.1, r.2))
  | .take => (take limits s).map (fun r => (.took r.1, r.2))
  | .beginCompletion requestId => (beginCompletion requestId s).map (fun r => (.began r.1, r.2))
  | .endCompletion completion => .ok (.ended, endCompletion completion s)
  | .cancel requestId => (cancel requestId s).map (fun r => (.canceled r.1, r.2))
  | .revokeSession iteration scope =>
    (revokeSession iteration scope s).map (fun r => (.revoked r.1, r.2))
  | .shutdown => (shutdown s).map (fun r => (.stopped r.1, r.2))

/-- The scheduler from its empty state: a label is an operation with its output. -/
def system : Transition.System SchedulerState (Op × Output) where
  init s := s = {}
  step s l t := perform limits s l.1 = .ok (l.2, t)

/-- The run that performs operations in order, up to the first panic. -/
def trace (limits : SchedulerLimits) : SchedulerState → List Op →
    List ((Op × Output) × SchedulerState)
  | _, [] => []
  | s, op :: ops =>
    match perform limits s op with
    | .error _ => []
    | .ok (out, t) => ((op, out), t) :: trace limits t ops

theorem trace_run (s : SchedulerState) (ops : List Op) :
    (system limits).Run s (trace limits s ops) := by
  induction ops generalizing s with
  | nil => trivial
  | cons _ ops ih =>
    unfold trace
    cases hp : perform limits s _ with
    | error => trivial
    | ok r => exact ⟨hp, ih r.2⟩

/-- The job an operation admits. -/
def accepted : Op × Output → List InvocationJob
  | (.enqueue job, .enqueued none) => [job]
  | _ => []

theorem mem_accepted {job l} : job ∈ accepted l ↔ l = (.enqueue job, .enqueued none) := by
  unfold accepted
  split
  · simp [eq_comm]
  · rename_i hne
    exact ⟨fun h => (List.not_mem_nil h).elim, fun h => (hne job h).elim⟩

/-- The jobs an operation hands out of the queue. -/
def departed : Op × Output → List InvocationJob
  | (_, .took (.taken job)) | (_, .canceled (.queued job)) => [job]
  | (_, .revoked disposition) => disposition.queued
  | (_, .stopped jobs) => jobs
  | _ => []

end RedevPlugin.Scheduler
