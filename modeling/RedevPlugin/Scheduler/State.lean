import RedevPlugin.Foundation.Table
import Mathlib.Data.String.Basic

/-! The state of the runtime's invocation scheduler and the helpers its
operations share. A hash map of the source is a finite table, a hash set a
finite set and a deque a list with its front first. Counters are natural
numbers: each one counts entries held in memory, except the queue generation,
whose 64-bit bound is kept because the source checks it. A failed `expect`, a
failed assertion and a subtraction below zero stop the operation with the text
of the panic. The parsed invocation of a job is left out: no operation of the
scheduler reads it. -/

namespace RedevPlugin.Scheduler

abbrev RequestId := String
abbrev PluginInstanceId := String

/-- The handle of one job's cancellation flag. -/
abbrev CancellationId := ℕ

structure SessionScope where
  (ownerSessionHash ownerUserHash ownerEnvHash sessionChannelIdHash : String)
  deriving DecidableEq

structure InvocationJob where
  requestId : RequestId
  pluginInstanceId : PluginInstanceId
  sessionScope : Option SessionScope
  cancellation : CancellationId
  deriving DecidableEq

structure PluginQueue where
  requestIds : List RequestId
  live : ℕ
  tombstones : ℕ
  generation : ℕ
  deriving DecidableEq

structure QueueToken where
  pluginInstanceId : PluginInstanceId
  generation : ℕ
  deriving DecidableEq

structure ActiveInvocation where
  pluginInstanceId : PluginInstanceId
  cancellation : CancellationId
  sessionScope : Option SessionScope

/-- Request ids of each session scope; a scope without ids has no entry. -/
abbrev SessionIndex := Table SessionScope (Finset RequestId)

structure SchedulerState where
  queues : Table PluginInstanceId PluginQueue := ∅
  order : List QueueToken := []
  queuedByRequest : Table RequestId InvocationJob := ∅
  active : Table RequestId ActiveInvocation := ∅
  queuedBySession : SessionIndex := ∅
  activeBySession : SessionIndex := ∅
  publishingBySession : SessionIndex := ∅
  revokedSessions : Finset SessionScope := ∅
  activeByPlugin : Table PluginInstanceId ℕ := ∅
  recentRequestIds : Finset RequestId := ∅
  recentRequestOrder : List RequestId := []
  nextQueueGeneration : ℕ := 0
  staleOrderTokens : ℕ := 0
  queued : ℕ := 0
  shutdown : Bool := false

structure SchedulerLimits where
  queueCapacity : ℕ
  perPluginConcurrency : ℕ
  perPluginCapacity : ℕ

/-- The limits `InvocationScheduler::new` builds. -/
def SchedulerLimits.new (queueCapacity perPluginConcurrency : ℕ) : SchedulerLimits where
  queueCapacity
  perPluginConcurrency
  perPluginCapacity := perPluginConcurrency + min queueCapacity perPluginConcurrency

def recentRequestReplayCapacity : ℕ := 1024
def queueTombstoneCompactMin : ℕ := 16
def orderTombstoneCompactMin : ℕ := 16

/-- The largest value of a `u64`. -/
def u64Max : ℕ := 2 ^ 64 - 1

/-- The text a panicking operation stops with. -/
abbrev Panic := String

/-- The order a hash set is iterated in. Rust leaves it open, so each call that
iterates a set is given its own. -/
structure HashOrder where
  toList : Finset String → List String
  nodup : ∀ s, (toList s).Nodup
  mem_toList : ∀ s a, a ∈ toList s ↔ a ∈ s

/-- A subtraction of one that stops with `message` at zero. -/
def checkedPred (n : ℕ) (message : Panic) : Except Panic ℕ :=
  match n with
  | 0 => .error message
  | n + 1 => .ok n

def subtractOverflow : Panic := "attempt to subtract with overflow"

namespace SchedulerState

variable (s : SchedulerState)

/-- `active_by_plugin.get(..).copied().unwrap_or_default()`. -/
def activeCount (p : PluginInstanceId) : ℕ := (s.activeByPlugin.lookup p).getD 0

/-- `queues.get(..).map(|queue| queue.live).unwrap_or_default()`. -/
def liveCount (p : PluginInstanceId) : ℕ := ((s.queues.lookup p).map PluginQueue.live).getD 0

/-- A token whose generation is that of its plugin's current queue. -/
def validToken (token : QueueToken) : Bool :=
  (s.queues.lookup token.pluginInstanceId).any (fun queue => queue.generation == token.generation)

end SchedulerState

variable (index : SessionIndex)

def SessionIndex.ids (scope : SessionScope) : Finset RequestId := (index.lookup scope).getD ∅

def addSessionRequest (scope : Option SessionScope) (requestId : RequestId) : SessionIndex :=
  match scope with
  | none => index
  | some scope => index.insert scope (insert requestId (index.ids scope))

def removeSessionRequest (scope : Option SessionScope) (requestId : RequestId) : SessionIndex :=
  match scope with
  | none => index
  | some scope =>
    match index.lookup scope with
    | none => index
    | some requestIds =>
      if requestIds.erase requestId = ∅ then index.erase scope
      else index.insert scope (requestIds.erase requestId)

/-- The `while` loop of `remember_recent_request_id`. -/
def evictRecent : List RequestId → Finset RequestId → List RequestId × Finset RequestId
  | [], ids => ([], ids)
  | oldest :: rest, ids =>
    if recentRequestReplayCapacity < (oldest :: rest).length then
      evictRecent rest (ids.erase oldest)
    else (oldest :: rest, ids)

variable (s : SchedulerState)

def rememberRecentRequestId (requestId : RequestId) : SchedulerState :=
  if requestId ∈ s.recentRequestIds then s
  else
    let r := evictRecent (s.recentRequestOrder ++ [requestId]) (insert requestId s.recentRequestIds)
    { s with recentRequestOrder := r.1, recentRequestIds := r.2 }

def compactPluginQueue (p : PluginInstanceId) : SchedulerState :=
  match s.queues.lookup p with
  | none => s
  | some queue =>
    if queueTombstoneCompactMin ≤ queue.tombstones ∧ queue.live < queue.tombstones then
      { s with
        queues := s.queues.insert p
          { queue with
            requestIds := queue.requestIds.filter (fun id => id ∈ s.queuedByRequest)
            tombstones := 0 } }
    else s

def compactOrder : SchedulerState :=
  if s.staleOrderTokens < orderTombstoneCompactMin ∨ s.staleOrderTokens * 2 < s.order.length then s
  else { s with order := s.order.filter s.validToken, staleOrderTokens := 0 }

end RedevPlugin.Scheduler
