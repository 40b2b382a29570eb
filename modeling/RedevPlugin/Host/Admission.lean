import RedevPlugin.Foundation.Text
import RedevPlugin.Scheduler.Operations

/-! Admission of invocations. The host counts the calls it has admitted, in all
and by plugin, and lets a call wait at its own counters before it sends anything
to the runtime, whose scheduler counts again by its own rules. This module is the
host's controller and the two sides together: a call is acquired, its invocation
is enqueued, the runtime works, and the call is released when it returns, on an
answer or on the acknowledgement of a cancellation. Request ids come from the
host's counter, so none is issued twice. -/

namespace RedevPlugin.Host

open Scheduler Transition

structure RuntimeLimits where
  (workerCount queueCapacity perPluginConcurrency moduleCacheEntries moduleCacheSourceBytes : ℕ)

/-- A field outside its bounds. -/
def boundsMessage (field : String) (least greatest : ℕ) : String :=
  "runtime limits are invalid: " ++ field ++ " must be between " ++ toString least ++ " and " ++
    toString greatest

variable (limits : RuntimeLimits)

def validateRuntimeLimits : Except String Unit :=
  if limits.workerCount < 1 ∨ 64 < limits.workerCount then
    .error (boundsMessage "worker_count" 1 64)
  else if limits.queueCapacity < 1 ∨ 64 < limits.queueCapacity then
    .error (boundsMessage "queue_capacity" 1 64)
  else if limits.perPluginConcurrency < 1 ∨ 64 < limits.perPluginConcurrency then
    .error (boundsMessage "per_plugin_concurrency" 1 64)
  else if limits.workerCount < limits.perPluginConcurrency then
    .error "runtime limits are invalid: per_plugin_concurrency must not exceed worker_count"
  else if limits.moduleCacheEntries < 1 ∨ 1024 < limits.moduleCacheEntries then
    .error (boundsMessage "module_cache_entries" 1 1024)
  else if limits.moduleCacheSourceBytes < 1 ∨ 128 * 2 ^ 20 < limits.moduleCacheSourceBytes then
    .error (boundsMessage "module_cache_source_bytes" 1 (128 * 2 ^ 20))
  else .ok ()

def RuntimeLimits.scheduler : SchedulerLimits :=
  .new limits.queueCapacity limits.perPluginConcurrency

structure RuntimeAdmissionController where
  totalCapacity : ℕ
  pluginCapacity : ℕ
  active : ℕ
  byPlugin : Table PluginInstanceId ℕ

def newRuntimeAdmissionController : RuntimeAdmissionController where
  totalCapacity := limits.workerCount + limits.queueCapacity
  pluginCapacity := limits.perPluginConcurrency +
    min limits.queueCapacity limits.perPluginConcurrency
  active := 0
  byPlugin := ∅

namespace RuntimeAdmissionController

variable (c : RuntimeAdmissionController)

/-- A missing map entry reads as zero. -/
def count (p : PluginInstanceId) : ℕ := (c.byPlugin.lookup p).getD 0

variable (pluginInstanceId : PluginInstanceId)

/-- One pass of the loop of `acquire`; `none` waits for a release. -/
def acquire : Except String (Option RuntimeAdmissionController) :=
  let p := Text.trim pluginInstanceId
  if p = "" then .error "plugin_instance_id is required"
  else if c.active < c.totalCapacity ∧ c.count p < c.pluginCapacity then
    .ok (some { c with active := c.active + 1, byPlugin := c.byPlugin.insert p (c.count p + 1) })
  else .ok none

/-- The function `acquire` returns. -/
def release : RuntimeAdmissionController :=
  let p := Text.trim pluginInstanceId
  { c with
    active := c.active - 1
    byPlugin := if c.count p - 1 = 0 then c.byPlugin.erase p
      else c.byPlugin.insert p (c.count p - 1) }

end RuntimeAdmissionController

inductive CallPhase where
  /-- Admitted, its invocation not yet read by the runtime. -/
  | admitted
  /-- Read by the runtime, without an answer. -/
  | sent
  /-- A response or the acknowledgement of its cancellation is there. -/
  | answered
  deriving DecidableEq

structure HostCall where
  pluginInstanceId : PluginInstanceId
  sessionScope : Option SessionScope
  phase : CallPhase
  deriving DecidableEq

structure InvocationState where
  controller : RuntimeAdmissionController
  calls : Table RequestId HostCall := ∅
  issued : Finset RequestId := ∅
  scheduler : SchedulerState := {}
  /-- The completions workers have begun and not ended. -/
  publishing : List InvocationCompletion := []

inductive InvocationOp where
  | acquire (requestId : RequestId) (pluginInstanceId : PluginInstanceId)
    (sessionScope : Option SessionScope)
  | release (requestId : RequestId)
  /-- A step of the runtime; `cancel` is the host's `cancel_invoke`. -/
  | runtime (op : Op)

inductive InvocationOutput where
  | acquired
  | released
  | runtime (out : Output)

namespace InvocationState

def setPhase (s : InvocationState) (requestId : RequestId) (phase : CallPhase) :
    Table RequestId HostCall :=
  match s.calls.lookup requestId with
  | none => s.calls
  | some call => s.calls.insert requestId { call with phase }

/-- What the runtime may do: it reads an invocation that was admitted and not
sent before, a worker that is free takes a job or completes its own, and the host
cancels a call whose invocation it has sent. -/
def enabled (limits : RuntimeLimits) (s : InvocationState) : Op → Bool
  | .enqueue job =>
    s.calls.lookup job.requestId = some ⟨job.pluginInstanceId, job.sessionScope, .admitted⟩
  | .take => s.scheduler.active.size + s.publishing.length < limits.workerCount
  | .beginCompletion requestId => requestId ∈ s.scheduler.active
  | .endCompletion completion => completion ∈ s.publishing
  | .cancel requestId => (s.calls.lookup requestId).any (fun call => call.phase ≠ .admitted)
  | .revokeSession _ _ => true
  | .shutdown => false

/-- The state after a step of the runtime. A rejected enqueue is answered with an
error, a completion with its response unless it is suppressed. -/
def react (s : InvocationState) (scheduler : SchedulerState) : Op × Output → InvocationState
  | (.enqueue job, .enqueued none) =>
    { s with scheduler, calls := s.setPhase job.requestId .sent }
  | (.enqueue job, .enqueued (some _)) =>
    { s with scheduler, calls := s.setPhase job.requestId .answered }
  | (.beginCompletion requestId, .began completion) =>
    { s with
      scheduler
      publishing := s.publishing ++ [completion]
      calls := if completion.suppressResponse then s.calls else s.setPhase requestId .answered }
  | (.endCompletion completion, _) =>
    { s with scheduler, publishing := s.publishing.erase completion }
  | (.cancel requestId, _) =>
    { s with scheduler, calls := s.setPhase requestId .answered }
  | _ => { s with scheduler }

/-- One step; `none` if it cannot be taken. -/
def perform (limits : RuntimeLimits) (s : InvocationState) :
    InvocationOp → Option (InvocationOutput × InvocationState)
  | .acquire requestId pluginInstanceId sessionScope =>
    if requestId ∈ s.issued then none
    else
      match s.controller.acquire pluginInstanceId with
      | .ok (some controller) => some (.acquired, { s with
          controller, issued := insert requestId s.issued
          calls := s.calls.insert requestId ⟨pluginInstanceId, sessionScope, .admitted⟩ })
      | _ => none
  | .release requestId =>
    match s.calls.lookup requestId with
    | none => none
    | some call =>
      if call.phase = .sent then none
      else some (.released, { s with
        controller := s.controller.release call.pluginInstanceId
        calls := s.calls.erase requestId })
  | .runtime op =>
    if s.enabled limits op then
      match Scheduler.perform limits.scheduler s.scheduler op with
      | .error _ => none
      | .ok (out, scheduler) => some (.runtime out, s.react scheduler (op, out))
    else none

end InvocationState

def invocations : System InvocationState (InvocationOp × InvocationOutput) :=
  .ofOption (fun s => s = { controller := newRuntimeAdmissionController limits })
    (fun s op => s.perform limits op)

end RedevPlugin.Host
