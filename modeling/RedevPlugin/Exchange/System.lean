import RedevPlugin.Exchange.CompileFlights
import RedevPlugin.Host.Admission
import RedevPlugin.Runtime.Revocation

/-! Host and runtime exchange frames. The host's callers send invocations and
cancellations and return on a result or an acknowledgement; its read loop takes
the runtime's frames one by one, serving I/O requests in goroutines that hold a
slot until after the response is written. The runtime's main thread reads the
host's frames, its workers run jobs and call the host, its compile threads fetch
artifacts, and the control thread revokes sessions. Both directions are queues.
A step is what one thread does under one lock or between two frames, so any
interleaving of the threads is a run. Which request leads the compilation of a
module and which finds it compiled is left open. A broken frame or a failing main
thread ends the generation. -/

namespace RedevPlugin.Exchange

open Scheduler Transition RedevPlugin.Runtime RedevPlugin.Host

/-! ### Threads -/

/-- Where a worker with a job is. -/
inductive Position where
  /-- Before the module of the job is there. -/
  | starting
  /-- Waiting for the compile flight it leads. -/
  | compiling
  /-- In guest code. -/
  | executing
  /-- With a route whose request is not sent, before it reads the flag. -/
  | registered (request : IORequest)
  /-- The same, after it read that the flag is not fired. -/
  | checked (request : IORequest)
  /-- Waiting for the answer of a request it sent. -/
  | waiting (request : IORequest)
  deriving DecidableEq

/-- Where the main thread of the runtime is with a `cancel_invoke`. -/
inductive MainPhase where
  | idle
  /-- `cancel` found the job active and has not fired its flag. -/
  | firing (requestId : RequestId) (cancellation : CancellationId)
  | cancelingRoutes (requestId : RequestId)
  | acknowledging (requestId : RequestId) (disposition : CancelAck)
  deriving DecidableEq

inductive CompileThread where
  | loading
  | requested
  | loaded
  deriving DecidableEq

/-- Where a caller is in `callIPCRequest`. -/
inductive CallerPhase where
  /-- In the tables, the frame not written. -/
  | opened
  | waiting
  /-- The result is in the caller's channel. -/
  | resulted
  /-- `cancel_invoke` is written. -/
  | canceling
  | acknowledged (disposition : CancelAck)
  | reconciled
  deriving DecidableEq

structure OpenCall where
  invocation : Invocation
  phase : CallerPhase

/-- A goroutine that serves an I/O request and holds a slot. -/
structure Serving where
  request : IORequest
  written : Bool
  deriving DecidableEq

/-! ### Frames -/

/-- A frame of the runtime. The parent of an I/O request is not on the wire. -/
inductive RuntimeFrame where
  | io (parent : RequestId) (request : IORequest)
  | result (requestId : RequestId)
  | cancelAck (requestId : RequestId) (disposition : CancelAck)
  | flightRegister (frame : FlightFrame)
  | flightComplete (frame : FlightFrame)
  | openHandle (requestId : String) (parentRequestId : RequestId)

def isIoFrame : RuntimeFrame → Bool
  | .io .. => true
  | _ => false

inductive HostFrame where
  | invoke (invocation : Invocation)
  | cancelInvoke (requestId : RequestId)
  | answer (frame : PendingIORouteState.Frame)
  | artifact (requestId : String) (parentRequestId : RequestId)
  deriving DecidableEq

structure ExchangeState (n : ℕ) where
  runtime : RuntimeState n := {}
  main : MainPhase := .idle
  positions : Fin n → Position := fun _ => .starting
  compiling : Table RequestId CompileThread := ∅
  outbox : List RuntimeFrame := []
  inbox : List HostFrame := []
  /-- Every invocation whose request id was handed out. -/
  issued : Table RequestId Invocation := ∅
  calls : Table RequestId OpenCall := ∅
  pendingInvocations : Table String Invocation := ∅
  compileFlights : CompileFlights := ∅
  serving : List Serving := []
  /-- Claimed artifacts that are being opened. -/
  artifacts : List (String × RequestId) := []
  ended : Bool := false

inductive ExchangeOp (n : ℕ) where
  -- callers of the host
  | openCall (invocation : Invocation)
  | writeCall (requestId : RequestId)
  | abandonCall (requestId : RequestId)
  | cancelCall (requestId : RequestId)
  | reconcile (requestId : RequestId)
  | returnCall (requestId : RequestId)
  -- the host's read loop and goroutines
  | readFrame
  | answer (requestId : ℕ)
  | releaseSlot (requestId : ℕ)
  | openArtifact (requestId : String) (parentRequestId : RequestId)
  | endGeneration
  -- the runtime's main thread
  | readInput
  | fire
  | cancelRoutes
  | acknowledge
  -- workers
  | take (w : Fin n)
  | lead (w : Fin n)
  | compiled (w : Fin n)
  | register (w : Fin n) (call : WorkerHostcallRequest)
  | check (w : Fin n)
  | send (w : Fin n)
  | resume (w : Fin n)
  | beginCompletion (w : Fin n)
  | publish (w : Fin n)
  | endCompletion (w : Fin n)
  -- compile threads
  | requestArtifact (requestId : RequestId)
  | completeFlight (requestId : RequestId)
  -- the control thread
  | control (op : Runtime.Op n)

inductive ExchangeOutput where
  | done
  | read (frame : RuntimeFrame)
  | violated (frame : RuntimeFrame) (violation : Violation)
  | input (frame : HostFrame)
  | refused (message : String)
  | runtime (out : Runtime.Output)

namespace ExchangeState

/-- What a step of a thread returns and leaves, if it may be taken. -/
abbrev Outcome (n : ℕ) : Type := Option (ExchangeOutput × ExchangeState n)

variable {n : ℕ} (s : ExchangeState n)

def setPosition (w : Fin n) (position : Position) : ExchangeState n :=
  { s with positions := Function.update s.positions w position }

@[simp] theorem setPosition_self (w : Fin n) (position : Position) :
    (s.setPosition w position).positions w = position := Function.update_self ..

theorem setPosition_of_ne {w k} (position : Position) (h : k ≠ w) :
    (s.setPosition w position).positions k = s.positions k := Function.update_of_ne h ..

variable (requestId : RequestId)

def setPhase (call : OpenCall) (phase : CallerPhase) : ExchangeState n :=
  { s with calls := s.calls.insert requestId { call with phase } }

def post (frame : RuntimeFrame) : ExchangeState n := { s with outbox := s.outbox ++ [frame] }

def write (frame : HostFrame) : ExchangeState n := { s with inbox := s.inbox ++ [frame] }

/-! ### Callers of the host -/

/-- A prewarm has no entry. -/
def addPendingInvocation (pending : Table String Invocation) (invocation : Invocation) :
    Table String Invocation :=
  if invocation.prewarm then pending else pending.insert invocation.invocationId invocation

/-- The entries `callIPCRequest` makes before it writes. -/
def openCall (limits : RuntimeLimits) (invocation : Invocation) : Outcome n :=
  let invocation := { invocation with invocationId := Text.trim invocation.invocationId }
  if invocation.requestId ∈ s.issued then none
  else if !invocation.prewarm && (invocation.invocationId = "" ||
      invocation.invocationId ∈ s.pendingInvocations) then
    some (.refused "runtime ipc transport is unavailable: duplicate or empty invocation_id",
      { s with issued := s.issued.insert invocation.requestId invocation })
  else if artifactRequestIdOf invocation.requestId ∈ s.compileFlights then
    some (.refused
      "runtime ipc transport is unavailable: duplicate compile flight artifact request_id",
      { s with issued := s.issued.insert invocation.requestId invocation })
  else if limits.workerCount + limits.queueCapacity ≤ s.compileFlights.size then
    some (.refused
      "runtime ipc transport is unavailable: compile flight intent capacity is exhausted",
      { s with issued := s.issued.insert invocation.requestId invocation })
  else some (.done, { s with
    issued := s.issued.insert invocation.requestId invocation
    calls := s.calls.insert invocation.requestId ⟨invocation, .opened⟩
    pendingInvocations := addPendingInvocation s.pendingInvocations invocation
    compileFlights := s.compileFlights.insert (artifactRequestIdOf invocation.requestId)
      (newIntent invocation.requestId invocation.artifact) })

def unregister (call : OpenCall) : ExchangeState n :=
  { s with
    calls := s.calls.erase call.invocation.requestId
    pendingInvocations :=
      if !call.invocation.prewarm &&
          s.pendingInvocations.lookup call.invocation.invocationId = some call.invocation then
        s.pendingInvocations.erase call.invocation.invocationId
      else s.pendingInvocations }

def writeCall : Outcome n :=
  match s.calls.lookup requestId with
  | some ⟨invocation, .opened⟩ => some (.done,
      (s.setPhase requestId ⟨invocation, .opened⟩ .waiting).write (.invoke invocation))
  | _ => none

/-- The context is done, the generation is over or the write fails. -/
def abandonCall : Outcome n :=
  match s.calls.lookup requestId with
  | some ⟨invocation, .opened⟩ => some (.done,
      { s.unregister ⟨invocation, .opened⟩ with
        compileFlights := s.compileFlights.erase (artifactRequestIdOf requestId) })
  | _ => none

/-- The context is done while the caller waits; a result may be there already. -/
def cancelCall : Outcome n :=
  match s.calls.lookup requestId with
  | some call =>
    if call.phase = .waiting ∨ call.phase = .resulted then
      some (.done, (s.setPhase requestId call .canceling).write (.cancelInvoke requestId))
    else none
  | none => none

def reconcile : Outcome n :=
  match s.calls.lookup requestId with
  | some ⟨invocation, .acknowledged disposition⟩ => some (.done,
      { s.setPhase requestId ⟨invocation, .acknowledged disposition⟩ .reconciled with
        compileFlights :=
          reconcileCompileFlightAfterCancelAck requestId disposition s.compileFlights })
  | _ => none

def returnCall : Outcome n :=
  match s.calls.lookup requestId with
  | some call =>
    if call.phase = .resulted ∨ call.phase = .reconciled then some (.done, s.unregister call)
    else none
  | none => none

/-! ### The host's read loop and goroutines -/

/-- `failPendingGeneration`. -/
def fail : ExchangeState n :=
  { s with calls := ∅, pendingInvocations := ∅, compileFlights := ∅, ended := true }

/-- A frame goes to the caller that waits for it. -/
def deliver (expected phase : CallerPhase) : ExchangeState n :=
  match s.calls.lookup requestId with
  | some call => if call.phase = expected then s.setPhase requestId call phase else s
  | none => s

/-- A frame taken out of the queue. -/
def accept : RuntimeFrame → Except Violation (ExchangeState n)
  | .io _ request =>
    match dispatchRuntimeIOFrame s.pendingInvocations s.serving.length n request with
    | some violation => .error violation
    | none => .ok { s with serving := s.serving ++ [⟨request, false⟩] }
  | .result requestId => .ok ({ s with
      compileFlights := removeUnregisteredCompileFlightIntent requestId s.compileFlights }.deliver
        requestId .waiting .resulted)
  | .cancelAck requestId disposition =>
    .ok (s.deliver requestId .canceling (.acknowledged disposition))
  | .flightRegister frame =>
    match registerCompileFlight frame s.compileFlights with
    | .error violation => .error violation
    | .ok flights => .ok { s with compileFlights := flights }
  | .flightComplete frame =>
    match completeCompileFlight frame s.compileFlights with
    | .error violation => .error violation
    | .ok flights => .ok { s with compileFlights := flights }
  | .openHandle requestId parentRequestId =>
    match claimCompileFlightArtifact requestId parentRequestId s.compileFlights with
    | .error violation => .error violation
    | .ok flights => .ok { s with
        compileFlights := flights, artifacts := s.artifacts ++ [(requestId, parentRequestId)] }

def readFrame : Outcome n :=
  match s.outbox with
  | [] => none
  | frame :: rest =>
    match { s with outbox := rest }.accept frame with
    | .error violation => some (.violated frame violation, s.fail)
    | .ok t => some (.read frame, t)

/-- A goroutine writes its response. -/
def answer (requestId : ℕ) : Outcome n :=
  match s.serving.find? (fun g => g.request.requestId = requestId ∧ g.written = false) with
  | none => none
  | some g => some (.done,
      { s with serving := s.serving.erase g ++ [{ g with written := true }] }.write
        (.answer (responseFrame g.request)))

def releaseSlot (requestId : ℕ) : Outcome n :=
  match s.serving.find? (fun g => g.request.requestId = requestId ∧ g.written = true) with
  | none => none
  | some g => some (.done, { s with serving := s.serving.erase g })

def openArtifact (requestId : String) (parentRequestId : RequestId) : Outcome n :=
  if (requestId, parentRequestId) ∈ s.artifacts then some (.done,
    { s with artifacts := s.artifacts.erase (requestId, parentRequestId) }.write
      (.artifact requestId parentRequestId))
  else none

/-! ### The runtime's main thread -/

/-- The configuration of the runtime under the host's limits. -/
def config (limits : RuntimeLimits) (runtimeGenerationId : String) : RuntimeConfig where
  scheduler := limits.scheduler
  routes := ⟨limits.workerCount, 2 * limits.workerCount⟩
  maxScopes := 65536
  runtimeGenerationId

/-- `scheduler.cancel`; the flag of a job that is active is fired afterwards. -/
def cancelInvoke : Option (ExchangeState n) :=
  match Scheduler.cancel requestId s.runtime.scheduler with
  | .error _ => none
  | .ok (.queued job, scheduler) => some
    { s with
      runtime := { s.runtime with
        scheduler, canceled := insert job.cancellation s.runtime.canceled }
      outbox := s.outbox ++ [.result job.requestId]
      main := .acknowledging requestId .queued }
  | .ok (.running cancellation, scheduler) => some
    { s with runtime := { s.runtime with scheduler }, main := .firing requestId cancellation }
  | .ok (_, scheduler) => some
    { s with runtime := { s.runtime with scheduler }, main := .acknowledging requestId .complete }

variable (c : RuntimeConfig)

def readInput : Outcome n :=
  match s.main, s.inbox with
  | .idle, .invoke invocation :: rest =>
    match s.runtime.enqueue c invocation.requestId (Text.trim invocation.pluginInstanceId)
        invocation.sessionScope with
    | some (.enqueued none, runtime) =>
      some (.input (.invoke invocation), { s with runtime, inbox := rest })
    | some (.enqueued (some _), runtime) => some (.input (.invoke invocation),
        { s with runtime, inbox := rest }.post (.result invocation.requestId))
    | _ => none
  | .idle, .cancelInvoke requestId :: rest =>
    ({ s with inbox := rest }.cancelInvoke requestId).map
      (fun t => (.input (.cancelInvoke requestId), t))
  | .idle, .answer frame :: rest =>
    match s.runtime.consume frame with
    | some (_, runtime) => some (.input (.answer frame), { s with runtime, inbox := rest })
    | none => none
  | .idle, .artifact requestId parentRequestId :: rest =>
    if requestId = artifactRequestIdOf parentRequestId ∧
        s.compiling.lookup parentRequestId = some .requested then
      some (.input (.artifact requestId parentRequestId), { s with
        inbox := rest, compiling := s.compiling.insert parentRequestId .loaded })
    else none
  | _, _ => none

def fire : Outcome n :=
  match s.main with
  | .firing requestId cancellation => some (.done,
      { s with
        runtime := { s.runtime with canceled := insert cancellation s.runtime.canceled }
        main := .cancelingRoutes requestId })
  | _ => none

def cancelRoutes : Outcome n :=
  match s.main with
  | .cancelingRoutes requestId =>
    match s.runtime.routes.cancelParent c.routes requestId c.runtimeGenerationId with
    | .error _ => none
    | .ok routes => some (.done,
        { s with runtime := { s.runtime with routes }, main := .acknowledging requestId .running })
  | _ => none

def acknowledge : Outcome n :=
  match s.main with
  | .acknowledging requestId disposition =>
    some (.done, { s with main := .idle }.post (.cancelAck requestId disposition))
  | _ => none

/-! ### Workers -/

/-- The invocation of a worker's job. -/
def invocationOf (job : InvocationJob) : Option Invocation := s.issued.lookup job.requestId

variable (w : Fin n)

def take : Outcome n :=
  match s.runtime.take c w with
  | some (out, runtime) => some (.runtime out, { s with runtime }.setPosition w .starting)
  | none => none

/-- The worker is the first to need its module: it registers a flight and starts
a compile thread. -/
def lead : Outcome n :=
  match s.runtime.workers w, s.positions w with
  | .running job, .starting =>
    match s.invocationOf job with
    | some invocation => some (.done,
        ({ s with compiling := s.compiling.insert job.requestId .loading }.setPosition w
          .compiling).post (.flightRegister
            (compileFlightRegisterFrame job.requestId invocation.artifact)))
    | none => none
  | _, _ => none

/-- The module is there, or the wait for the own flight is over or cancelled. -/
def compiled : Outcome n :=
  match s.runtime.workers w, s.positions w with
  | .running _, .starting => some (.done, s.setPosition w .executing)
  | .running job, .compiling =>
    if job.requestId ∉ s.compiling ∨ job.cancellation ∈ s.runtime.canceled then
      some (.done, s.setPosition w .executing)
    else none
  | _, _ => none

/-- The first part of `perform_raw_io_hostcall`; a prewarm runs no guest code. -/
def register (call : WorkerHostcallRequest) : Outcome n :=
  match s.runtime.workers w, s.positions w with
  | .running job, .executing =>
    match s.invocationOf job with
    | none => none
    | some invocation =>
      if invocation.prewarm then none
      else
        match rawIORequest invocation.invocationId s.runtime.routes.nextRequestId call with
        | .error message => some (.refused message, s)
        | .ok (request, responseType) =>
          match s.runtime.routes.register c.routes
              (RuntimeState.routeOf c job invocation.invocationId responseType
                request.resourceId) with
          | .error message => some (.refused message, s)
          | .ok (_, routes) => some (.done,
              { s with runtime := { s.runtime with routes } }.setPosition w
                (.registered request))
  | _, _ => none

/-- The worker reads its flag; if it is fired it cancels the routes of its job. -/
def check : Outcome n :=
  match s.runtime.workers w, s.positions w with
  | .running job, .registered request =>
    if job.cancellation ∈ s.runtime.canceled then
      match s.runtime.routes.cancelParent c.routes job.requestId c.runtimeGenerationId with
      | .error message => some (.refused message, s.setPosition w .executing)
      | .ok routes => some (.refused
          "RUNTIME_INVOCATION_CANCELED: runtime invocation was canceled",
          { s with runtime := { s.runtime with routes } }.setPosition w .executing)
    else some (.done, s.setPosition w (.checked request))
  | _, _ => none

def send : Outcome n :=
  match s.runtime.workers w, s.positions w with
  | .running job, .checked request =>
    some (.done, (s.setPosition w (.waiting request)).post (.io job.requestId request))
  | _, _ => none

/-- The route is gone: its answer came, or it was cancelled. -/
def resume : Outcome n :=
  match s.positions w with
  | .waiting request =>
    if request.requestId ∈ s.runtime.routes.active.map Prod.fst then none
    else some (.done, s.setPosition w .executing)
  | _ => none

def beginCompletion : Outcome n :=
  if s.positions w = .starting ∨ s.positions w = .executing then
    match s.runtime.beginCompletion w with
    | some (out, runtime) => some (.runtime out, { s with runtime })
    | none => none
  else none

def publish : Outcome n :=
  match s.runtime.publish w with
  | some (.published completion, runtime) => some (.runtime (.published completion),
      { s with runtime }.post (.result completion.requestId))
  | _ => none

/-- A response that is not suppressed is sent first. -/
def endCompletion : Outcome n :=
  match s.runtime.workers w with
  | .publishing completion sent =>
    if sent || completion.suppressResponse then
      match s.runtime.endCompletion w with
      | some (out, runtime) => some (.runtime out, { s with runtime })
      | none => none
    else none
  | _ => none

/-! ### Compile threads and the control thread -/

def requestArtifact : Outcome n :=
  match s.compiling.lookup requestId with
  | some .loading => some (.done,
      { s with compiling := s.compiling.insert requestId .requested }.post
        (.openHandle (artifactRequestIdOf requestId) requestId))
  | _ => none

/-- The flight is over, with the artifact or because it could not be asked for. -/
def completeFlight : Outcome n :=
  match s.compiling.lookup requestId, s.issued.lookup requestId with
  | some .loading, some invocation | some .loaded, some invocation => some (.done,
      { s with compiling := s.compiling.erase requestId }.post
        (.flightComplete (compileFlightCompleteFrame requestId invocation.artifact)))
  | _, _ => none

def control (op : Runtime.Op n) : Outcome n :=
  match op with
  | .contain .. | .cancelParent _ | .fence | .revokeSession _ | .drained | .drainTimeout =>
    match Runtime.perform c s.runtime op with
    | some (out, runtime) => some (.runtime out, { s with runtime })
    | none => none
  | _ => none

/-- One step of one thread; none is taken after the end of the generation. -/
def perform (limits : RuntimeLimits) (runtimeGenerationId : String) (op : ExchangeOp n) :
    Outcome n :=
  if s.ended then none
  else
    let c := config limits runtimeGenerationId
    match op with
    | .openCall invocation => s.openCall limits invocation
    | .writeCall requestId => s.writeCall requestId
    | .abandonCall requestId => s.abandonCall requestId
    | .cancelCall requestId => s.cancelCall requestId
    | .reconcile requestId => s.reconcile requestId
    | .returnCall requestId => s.returnCall requestId
    | .readFrame => s.readFrame
    | .answer requestId => s.answer requestId
    | .releaseSlot requestId => s.releaseSlot requestId
    | .openArtifact requestId parentRequestId => s.openArtifact requestId parentRequestId
    | .endGeneration => some (.done, s.fail)
    | .readInput => s.readInput c
    | .fire => s.fire
    | .cancelRoutes => s.cancelRoutes c
    | .acknowledge => s.acknowledge
    | .take w => s.take c w
    | .lead w => s.lead w
    | .compiled w => s.compiled w
    | .register w call => s.register c w call
    | .check w => s.check c w
    | .send w => s.send w
    | .resume w => s.resume w
    | .beginCompletion w => s.beginCompletion w
    | .publish w => s.publish w
    | .endCompletion w => s.endCompletion w
    | .requestArtifact requestId => s.requestArtifact requestId
    | .completeFlight requestId => s.completeFlight requestId
    | .control op => s.control c op

end ExchangeState

/-- A generation of host and runtime with the given limits. -/
def exchange (limits : RuntimeLimits) (runtimeGenerationId : String) :
    System (ExchangeState limits.workerCount)
      (ExchangeOp limits.workerCount × ExchangeOutput) :=
  .ofOption (fun s => s = {}) (fun s op => s.perform limits runtimeGenerationId op)

def exchangeRun (limits : RuntimeLimits) (runtimeGenerationId : String)
    (ops : List (ExchangeOp limits.workerCount)) :
    List ((ExchangeOp limits.workerCount × ExchangeOutput) × ExchangeState limits.workerCount) :=
  trace (fun s op => s.perform limits runtimeGenerationId op) {} ops

/-- The smallest limits. -/
def oneWorker : RuntimeLimits := ⟨1, 1, 1, 1, 1⟩

/-- One invocation on one worker, up to its guest code. -/
def startOps (sessionScope : Option SessionScope) : List (ExchangeOp 1) :=
  [.openCall ⟨"a", "v", false, "p", sessionScope, ⟨"h", "workers/w.wasm", "d"⟩⟩, .writeCall "a",
    .readInput, .take 0, .compiled 0]

end RedevPlugin.Exchange
