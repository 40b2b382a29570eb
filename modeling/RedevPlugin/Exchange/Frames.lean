import RedevPlugin.Runtime.Routes

/-! Frames between host and runtime. A worker turns a call of its guest into an
I/O request, the host checks it against its open invocations and its slots before
it serves it, and both sides keep the books of the module a request may have to
compile: the host's compile flights, which a runtime registers, asks the artifact
of once, and completes. This module is the frames and the host's checks. -/

namespace RedevPlugin.Exchange

open Scheduler RedevPlugin.Runtime

structure ArtifactRequest where
  packageHash : String
  artifact : String
  artifactSha256 : String
  deriving DecidableEq

/-- What the host sends with `invoke_worker`; `requestId` comes from its counter. -/
structure Invocation where
  requestId : RequestId
  invocationId : String
  prewarm : Bool
  pluginInstanceId : PluginInstanceId
  sessionScope : Option SessionScope
  artifact : ArtifactRequest
  deriving DecidableEq

/-- A call of the guest; of a body only the length matters. -/
inductive WorkerHostcallRequest where
  | control (length : ℕ)
  | read (handle capacity : ℕ)
  | write (handle length flags : ℕ)
  | seek (handle : ℕ) (offset whence : ℤ)
  | close (handle : ℕ)

structure IORequest where
  frameType : FrameType
  requestId : ℕ
  invocationId : String
  resourceId : ℕ := 0
  maxBytes : ℕ := 0
  flags : ℕ := 0
  offset : ℤ := 0
  whence : ℤ := 0
  bodyLength : ℕ := 0
  deriving DecidableEq

def maxWasmIOControlBytes : ℕ := 64 * 1024

/-- The request `perform_raw_io_hostcall` builds, with the type of its response;
its id is that of the route. -/
def rawIORequest (invocationId : String) (requestId : ℕ) :
    WorkerHostcallRequest → Except String (IORequest × FrameType)
  | .control length =>
    if maxWasmIOControlBytes < length then
      .error "RESOURCE_LIMIT: control request exceeds 64 KiB"
    else .ok (
      { frameType := .hostcall, requestId, invocationId, bodyLength := length }, .hostcallResult)
  | .read handle capacity =>
    if 2 ^ 32 ≤ capacity then .error "RESOURCE_LIMIT: read capacity exceeds 64 KiB"
    else .ok (
      { frameType := .ioRead, requestId, invocationId, resourceId := handle
        maxBytes := capacity }, .ioReadResult)
  | .write handle length flags => .ok (
      { frameType := .ioWrite, requestId, invocationId, resourceId := handle, flags
        bodyLength := length }, .ioWriteResult)
  | .seek handle offset whence => .ok (
      { frameType := .ioSeek, requestId, invocationId, resourceId := handle, offset
        whence }, .ioSeekResult)
  | .close handle => .ok (
      { frameType := .ioClose, requestId, invocationId, resourceId := handle }, .ioCloseResult)

/-- A guest's call is made under the next id and for its invocation. -/
theorem rawIORequest_ids {invocationId id call r} (h : rawIORequest invocationId id call = .ok r) :
    r.1.requestId = id ∧ r.1.invocationId = invocationId := by
  revert h
  fun_cases rawIORequest invocationId id call <;> rintro ⟨⟩ <;> exact ⟨rfl, rfl⟩

/-- What ends a generation when the host reads a frame. -/
inductive Violation where
  | invalidRoute
  | invocationIdRequired
  | controlRequest
  | requestShape
  | invocationNotActive
  | routeCapacityExhausted
  | flightRegistration
  | flightCompletion
  | flightArtifact

def ipcBodyMax : ℕ := 64 * 1024

def isRuntimeIORequestFrame : FrameType → Bool
  | .ioRead | .ioWrite | .ioSeek | .ioClose => true
  | _ => false

def isRuntimeIOControlRequestFrame (request : IORequest) : Bool :=
  request.frameType = .hostcall ∧ request.bodyLength ≠ 0 ∧ request.bodyLength ≤ ipcBodyMax

def validateRuntimeIORequestShape (request : IORequest) : Bool :=
  request.resourceId ≠ 0 &&
    match request.frameType with
    | .ioRead => request.bodyLength = 0 ∧ request.maxBytes ≠ 0 ∧ request.maxBytes ≤ ipcBodyMax ∧
        request.flags = 0 ∧ request.offset = 0 ∧ request.whence = 0
    | .ioWrite => request.bodyLength ≤ ipcBodyMax ∧ request.maxBytes = 0 ∧ request.offset = 0 ∧
        request.whence = 0
    | .ioSeek => request.bodyLength = 0 ∧ request.maxBytes = 0 ∧ request.flags = 0 ∧
        0 ≤ request.whence ∧ request.whence ≤ 2
    | .ioClose => request.bodyLength = 0 ∧ request.maxBytes = 0 ∧ request.flags = 0 ∧
        request.offset = 0 ∧ request.whence = 0
    | _ => false

variable (pendingInvocations : Table String Invocation)

/-- The part the two dispatchers share: the invocation must be open and a slot
free. `slots` are in use, of `workerCount`. -/
def takeIORouteSlot (slots workerCount : ℕ) (invocationId : String) : Option Violation :=
  match pendingInvocations.lookup invocationId with
  | none => some .invocationNotActive
  | some parent =>
    if parent.invocationId ≠ invocationId then some .invocationNotActive
    else if workerCount ≤ slots then some .routeCapacityExhausted
    else none

def dispatchRuntimeIOControlFrame (slots workerCount : ℕ) (request : IORequest) :
    Option Violation :=
  let invocationId := Text.trim request.invocationId
  if invocationId = "" ∨ request.bodyLength = 0 ∨ ipcBodyMax < request.bodyLength then
    some .controlRequest
  else takeIORouteSlot pendingInvocations slots workerCount invocationId

/-- The checks of `dispatchRuntimeIOFrame`; `none` lets the request be served. -/
def dispatchRuntimeIOFrame (slots workerCount : ℕ) (request : IORequest) : Option Violation :=
  if !isRuntimeIORequestFrame request.frameType && !isRuntimeIOControlRequestFrame request then
    some .invalidRoute
  else if isRuntimeIOControlRequestFrame request then
    dispatchRuntimeIOControlFrame pendingInvocations slots workerCount request
  else
    let invocationId := Text.trim request.invocationId
    if invocationId = "" then some .invocationIdRequired
    else if !validateRuntimeIORequestShape request then some .requestShape
    else takeIORouteSlot pendingInvocations slots workerCount invocationId

variable {violation : Violation} {slots workerCount : ℕ} {pending : Table String Invocation}

theorem takeIORouteSlot_some {id}
    (h : takeIORouteSlot pending slots workerCount id = some violation) :
    (violation = .invocationNotActive ∧
      ∀ parent, pending.lookup id = some parent → parent.invocationId ≠ id) ∨
    (violation = .routeCapacityExhausted ∧ workerCount ≤ slots) := by
  revert h
  fun_cases takeIORouteSlot pending slots workerCount id <;> rintro ⟨⟩
  · exact .inl ⟨rfl, by simp_all⟩
  · exact .inl ⟨rfl, by simp_all⟩
  · exact .inr ⟨rfl, ‹_›⟩

/-- The checks before the slot is taken have violations of their own. -/
theorem dispatchRuntimeIOFrame_some {request}
    (h : dispatchRuntimeIOFrame pending slots workerCount request = some violation) :
    violation ∈ [.invalidRoute, .controlRequest, .invocationIdRequired, .requestShape] ∨
      takeIORouteSlot pending slots workerCount (Text.trim request.invocationId) =
        some violation := by
  unfold dispatchRuntimeIOFrame dispatchRuntimeIOControlFrame at h
  simp only at h
  split_ifs at h
  · cases h
    exact .inl (by simp)
  · cases h
    exact .inl (by simp)
  · exact .inr h
  · cases h
    exact .inl (by simp)
  · cases h
    exact .inl (by simp)
  · exact .inr h

/-- Of another frame type there is no response. -/
def runtimeIOResponseFrameType : FrameType → Option FrameType
  | .ioRead => some .ioReadResult
  | .ioWrite => some .ioWriteResult
  | .ioSeek => some .ioSeekResult
  | .ioClose => some .ioCloseResult
  | _ => none

/-- The response to a request, whatever the broker returned. -/
def responseFrame (request : IORequest) : PendingIORouteState.Frame where
  frameType :=
    if isRuntimeIOControlRequestFrame request then .hostcallResult
    else (runtimeIOResponseFrameType request.frameType).getD .diagnostic
  requestId := request.requestId
  metadata := some ⟨Text.trim request.invocationId, request.resourceId⟩

end RedevPlugin.Exchange
