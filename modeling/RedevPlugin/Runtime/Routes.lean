import RedevPlugin.Foundation.Text
import RedevPlugin.Scheduler.State

/-! The I/O routes of the runtime. A worker that calls the host registers a
route, sends its request under the route's id and waits; the answer consumes the
route. A cancelled route moves to a second table, where its late answer is
dropped. Ids come from a counter, so a hash map keyed by them is a list with the
newest entry last, and the state carries the proof that no id is held twice.
The channel a waiting worker receives from is left out. -/

namespace RedevPlugin.Runtime

open Scheduler
open Prod (fst)

inductive FrameType where
  | hello
  | helloAck
  | heartbeat
  | invoke
  | invokeResult
  | cancelInvoke
  | cancelAck
  | hostcall
  | hostcallResult
  | ioRead
  | ioReadResult
  | ioWrite
  | ioWriteResult
  | ioSeek
  | ioSeekResult
  | ioClose
  | ioCloseResult
  | executionEvent
  | revokePlugin
  | revokeSession
  | diagnostic
  deriving DecidableEq

structure PendingIORoute where
  parentRequestId : RequestId
  invocationId : String
  runtimeGenerationId : String
  sessionScope : Option SessionScope
  responseType : FrameType
  resourceId : ℕ

structure CanceledIORoute where
  invocationId : String
  responseType : FrameType
  resourceId : ℕ
  deriving DecidableEq

def PendingIORoute.toCanceled (route : PendingIORoute) : CanceledIORoute :=
  ⟨route.invocationId, route.responseType, route.resourceId⟩

structure RouteLimits where
  activeCapacity : ℕ
  canceledCapacity : ℕ

theorem noRoutes_distinct :
    (([] : List (ℕ × PendingIORoute)).map fst ++ ([] : List (ℕ × CanceledIORoute)).map fst).Nodup :=
  List.nodup_nil

theorem noRoutes_below :
    ∀ id ∈ ([] : List (ℕ × PendingIORoute)).map fst ++
      ([] : List (ℕ × CanceledIORoute)).map fst, id < 1 := by
  decide

/-- The routes by id, and the next id. -/
@[ext] structure PendingIORouteState where
  nextRequestId : ℕ := 1
  active : List (ℕ × PendingIORoute) := []
  canceled : List (ℕ × CanceledIORoute) := []
  shutdown : Bool := false
  distinct : (active.map fst ++ canceled.map fst).Nodup := by exact noRoutes_distinct
  below : ∀ id ∈ active.map fst ++ canceled.map fst, id < nextRequestId := by
    exact noRoutes_below

namespace PendingIORouteState

variable (s : PendingIORouteState) {t : PendingIORouteState} {limits : RouteLimits}

/-- The ids of both tables. -/
def ids : List ℕ := s.active.map fst ++ s.canceled.map fst

def restrict (active : List (ℕ × PendingIORoute))
    (canceled : List (ℕ × CanceledIORoute)) (ha : active.Sublist s.active)
    (hc : canceled.Sublist s.canceled) : PendingIORouteState where
  nextRequestId := s.nextRequestId
  active
  canceled
  shutdown := s.shutdown
  distinct := s.distinct.sublist ((ha.map _).append (hc.map _))
  below id hid := s.below id (((ha.map _).append (hc.map _)).subset hid)

/-- The entry `register` adds. -/
def push (route : PendingIORoute) : PendingIORouteState where
  nextRequestId := s.nextRequestId + 1
  active := s.active ++ [(s.nextRequestId, route)]
  canceled := s.canceled
  shutdown := s.shutdown
  distinct := by
    have hnew : s.nextRequestId ∉ s.ids := fun h => lt_irrefl _ (s.below _ h)
    have hperm : (s.nextRequestId :: s.ids).Perm
        ((s.active ++ [(s.nextRequestId, route)]).map fst ++ s.canceled.map fst) := by
      simpa [ids] using List.perm_middle.symm
    exact hperm.nodup_iff.mp (List.nodup_cons.mpr ⟨hnew, s.distinct⟩)
  below id hid := by
    simp only [List.map_append, List.map_cons, List.map_nil, List.mem_append, List.mem_cons,
      List.not_mem_nil, or_false] at hid
    rcases hid with (hid | rfl) | hid
    · exact Nat.lt_succ_of_lt (s.below id (List.mem_append_left _ hid))
    · exact Nat.lt_succ_self _
    · exact Nat.lt_succ_of_lt (s.below id (List.mem_append_right _ hid))

variable {s}

/-- `register`, with the id of the new route. -/
def register (limits : RouteLimits) (route : PendingIORoute) (s : PendingIORouteState) :
    Except String (ℕ × PendingIORouteState) :=
  if Text.blank route.parentRequestId || Text.blank route.invocationId ||
      Text.blank route.runtimeGenerationId then
    .error "runtime I/O route identity is incomplete"
  else if s.shutdown then .error "runtime is shutting down"
  else if limits.activeCapacity ≤ s.active.length then
    .error "active runtime I/O route capacity is exhausted"
  else if s.nextRequestId = 0 ∨ s.nextRequestId = u64Max then
    .error "runtime I/O request_id space is exhausted"
  else .ok (s.nextRequestId, s.push route)

def remove (requestId : ℕ) (s : PendingIORouteState) : PendingIORouteState :=
  s.restrict (s.active.filter (fun r => r.1 ≠ requestId)) s.canceled List.filter_sublist (.refl _)

structure RawIOResultIdentity where
  invocationId : String
  resourceId : ℕ
  deriving DecidableEq

/-- A result frame of the host: `metadata` is what its JSON metadata holds, and
`none` if it cannot be parsed. -/
structure Frame where
  frameType : FrameType
  requestId : ℕ
  metadata : Option RawIOResultIdentity
  deriving DecidableEq

def ioResultIdentity (metadata : Option RawIOResultIdentity) : Except String RawIOResultIdentity :=
  match metadata with
  | none => .error "runtime I/O result metadata is invalid"
  | some identity =>
    if Text.blank identity.invocationId ||
        Text.trim identity.invocationId != identity.invocationId then
      .error "runtime I/O result invocation_id is invalid"
    else .ok identity

def consume (frame : Frame) (s : PendingIORouteState) : Except String PendingIORouteState :=
  match ioResultIdentity frame.metadata with
  | .error message => .error message
  | .ok identity =>
    match s.active.lookup frame.requestId with
    | some route =>
      if route.toCanceled = ⟨identity.invocationId, frame.frameType, identity.resourceId⟩ then
        .ok (s.remove frame.requestId)
      else .error "runtime I/O result identity mismatch"
    | none =>
      match s.canceled.lookup frame.requestId with
      | some route =>
        if route = ⟨identity.invocationId, frame.frameType, identity.resourceId⟩ then
          .ok (s.restrict s.active (s.canceled.filter (fun r => r.1 ≠ frame.requestId)) (.refl _)
            List.filter_sublist)
        else .error "canceled runtime I/O result identity mismatch"
      | none => .error "runtime I/O result request_id is not outstanding"

/-- The routes `cancel_parent` selects. -/
def ofParent (parentRequestId : RequestId) (runtimeGenerationId : String)
    (r : ℕ × PendingIORoute) : Bool :=
  r.2.parentRequestId = parentRequestId ∧ r.2.runtimeGenerationId = runtimeGenerationId

/-- Move the selected routes to the cancelled ones. -/
def moveCanceled (s : PendingIORouteState) (select : ℕ × PendingIORoute → Bool) :
    PendingIORouteState where
  nextRequestId := s.nextRequestId
  active := s.active.filter (fun r => !select r)
  canceled := s.canceled ++ (s.active.filter select).map (fun r => (r.1, r.2.toCanceled))
  shutdown := s.shutdown
  distinct := by
    refine (List.Perm.nodup_iff ?_).mpr s.distinct
    have hsplit := (List.filter_append_perm (fun r => !select r) s.active).map fst
    simp only [Bool.not_not, List.map_append] at hsplit
    simp only [List.map_append, List.map_map, Function.comp_def]
    refine (List.Perm.append_left _ List.perm_append_comm).trans ?_
    rw [← List.append_assoc]
    exact hsplit.append_right _
  below id hid := by
    apply s.below
    simp only [List.map_append, List.map_map, Function.comp_def, List.mem_append, List.mem_map,
      List.mem_filter] at hid ⊢
    rcases hid with ⟨r, ⟨hr, -⟩, rfl⟩ | ⟨r, hr, rfl⟩ | ⟨r, ⟨hr, -⟩, rfl⟩
    · exact .inl ⟨r, hr, rfl⟩
    · exact .inr ⟨r, hr, rfl⟩
    · exact .inl ⟨r, hr, rfl⟩

def cancelParent (limits : RouteLimits) (parentRequestId : RequestId)
    (runtimeGenerationId : String) (s : PendingIORouteState) : Except String PendingIORouteState :=
  if limits.canceledCapacity <
      s.canceled.length + s.active.countP (ofParent parentRequestId runtimeGenerationId) then
    .error "canceled runtime I/O route capacity is exhausted"
  else .ok (s.moveCanceled (ofParent parentRequestId runtimeGenerationId))

/-- The parents `cancel_session` collects before it cancels them one by one. -/
def sessionParents (scope : SessionScope) (s : PendingIORouteState) : Finset (RequestId × String) :=
  ((s.active.filter (fun r => r.2.sessionScope = some scope)).map
    (fun r => (r.2.parentRequestId, r.2.runtimeGenerationId))).toFinset

end PendingIORouteState

end RedevPlugin.Runtime
