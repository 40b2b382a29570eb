import RedevPlugin.Exchange.Frames

/-! The host's compile flights. Each invocation leaves an intent in the table
before it is sent; the runtime turns it into a registered flight when the request
has to compile its module, asks for the artifact once, and completes it. An
intent that is never registered is removed on a result or on the acknowledgement
of a cancellation. -/

namespace RedevPlugin.Exchange

open Scheduler

structure PendingCompileFlight where
  parentRequestId : RequestId
  artifactRequestId : String
  artifact : ArtifactRequest
  registered : Bool := false
  artifactRequested : Bool := false

/-- Flights by the id of their artifact request. -/
abbrev CompileFlights := Table String PendingCompileFlight

def artifactRequestIdOf (requestId : RequestId) : String := requestId ++ ":artifact"

/-- A frame of the life of a flight, of either kind. -/
structure FlightFrame where
  requestId : String
  parentRequestId : RequestId
  artifactRequestId : String
  artifact : ArtifactRequest

def compileFlightLifecycleFrame (suffix : String) (parentRequestId : RequestId)
    (artifact : ArtifactRequest) : FlightFrame :=
  ⟨artifactRequestIdOf parentRequestId ++ suffix, parentRequestId,
    artifactRequestIdOf parentRequestId, artifact⟩

def compileFlightRegisterFrame : RequestId → ArtifactRequest → FlightFrame :=
  compileFlightLifecycleFrame ":register"

def compileFlightCompleteFrame : RequestId → ArtifactRequest → FlightFrame :=
  compileFlightLifecycleFrame ":complete"

/-- The identity checks of registration and completion. -/
def PendingCompileFlight.matchesFrame (flight : PendingCompileFlight) (suffix : String)
    (frame : FlightFrame) : Bool :=
  frame.parentRequestId = flight.parentRequestId ∧
    frame.requestId = flight.artifactRequestId ++ suffix ∧
    frame.artifactRequestId = flight.artifactRequestId ∧ frame.artifact = flight.artifact

def newIntent (requestId : RequestId) (artifact : ArtifactRequest) : PendingCompileFlight where
  parentRequestId := requestId
  artifactRequestId := artifactRequestIdOf requestId
  artifact

def removeUnregisteredCompileFlightIntent (parentRequestId : RequestId)
    (flights : CompileFlights) : CompileFlights :=
  flights.filter
    (fun _ flight => !(flight.parentRequestId = parentRequestId ∧ flight.registered = false))

inductive CancelAck where
  | queued
  | running
  | complete
  deriving DecidableEq

def reconcileCompileFlightAfterCancelAck (parentRequestId : RequestId) (disposition : CancelAck)
    (flights : CompileFlights) : CompileFlights :=
  if disposition = .queued ∨ disposition = .complete then
    removeUnregisteredCompileFlightIntent parentRequestId flights
  else flights

def registerCompileFlight (frame : FlightFrame) (flights : CompileFlights) :
    Except Violation CompileFlights :=
  match flights.lookup frame.artifactRequestId with
  | none => .error .flightRegistration
  | some flight =>
    if flight.registered || !flight.matchesFrame ":register" frame then
      .error .flightRegistration
    else .ok (flights.insert frame.artifactRequestId { flight with registered := true })

def completeCompileFlight (frame : FlightFrame) (flights : CompileFlights) :
    Except Violation CompileFlights :=
  match flights.lookup frame.artifactRequestId with
  | none => .error .flightCompletion
  | some flight =>
    if !flight.registered || !flight.matchesFrame ":complete" frame then
      .error .flightCompletion
    else .ok (flights.erase frame.artifactRequestId)

def claimCompileFlightArtifact (requestId : String) (parentRequestId : RequestId)
    (flights : CompileFlights) : Except Violation CompileFlights :=
  match flights.lookup requestId with
  | none => .error .flightArtifact
  | some flight =>
    if !flight.registered || flight.artifactRequested ||
        parentRequestId ≠ flight.parentRequestId then
      .error .flightArtifact
    else .ok (flights.insert requestId { flight with artifactRequested := true })

variable {flights flights' : CompileFlights} {violation : Violation}

variable {f : PendingCompileFlight} {id parentRequestId : RequestId} {k requestId : String}
  {frame : FlightFrame}

theorem lookup_of_removeUnregistered
    (h : (removeUnregisteredCompileFlightIntent id flights).lookup k = some f) :
    flights.lookup k = some f := by
  rw [removeUnregisteredCompileFlightIntent, Finmap.lookup_filter, Option.filter_eq_some_iff] at h
  exact h.1

/-- A registered flight stays. -/
theorem removeUnregistered_of_registered (h : flights.lookup k = some f)
    (hreg : f.registered = true) :
    (removeUnregisteredCompileFlightIntent id flights).lookup k = some f := by
  rw [removeUnregisteredCompileFlightIntent, Finmap.lookup_filter, h]
  simp [Option.filter, hreg]

/-- Under a key whose entry is of the request, what is left is registered. -/
theorem lookup_removeUnregistered (h : ∀ f, flights.lookup k = some f → f.parentRequestId = id) :
    (removeUnregisteredCompileFlightIntent id flights).lookup k =
      (flights.lookup k).filter (·.registered) := by
  rw [removeUnregisteredCompileFlightIntent, Finmap.lookup_filter]
  cases hf : flights.lookup k with
  | none => rfl
  | some f => simp [Option.filter, h f hf]

theorem lookup_removeUnregistered_of_ne
    (h : ∀ f, flights.lookup k = some f → f.parentRequestId ≠ id) :
    (removeUnregisteredCompileFlightIntent id flights).lookup k = flights.lookup k := by
  rw [removeUnregisteredCompileFlightIntent, Finmap.lookup_filter]
  cases hf : flights.lookup k with
  | none => rfl
  | some f => simp [Option.filter, h f hf]

theorem registerCompileFlight_ok (h : registerCompileFlight frame flights = .ok flights') :
    ∃ flight, flights.lookup frame.artifactRequestId = some flight ∧
      flights' = flights.insert frame.artifactRequestId { flight with registered := true } := by
  revert h
  fun_cases registerCompileFlight frame flights <;> rintro ⟨⟩
  exact ⟨_, ‹_›, rfl⟩

theorem completeCompileFlight_ok (h : completeCompileFlight frame flights = .ok flights') :
    ∃ flight, flights.lookup frame.artifactRequestId = some flight ∧
      flight.matchesFrame ":complete" frame = true ∧
      flights' = flights.erase frame.artifactRequestId := by
  revert h
  fun_cases completeCompileFlight frame flights <;> rintro ⟨⟩
  exact ⟨_, ‹_›, by simp_all, rfl⟩

theorem claimCompileFlightArtifact_ok
    (h : claimCompileFlightArtifact requestId parentRequestId flights = .ok flights') :
    ∃ flight, flights.lookup requestId = some flight ∧ flight.registered = true ∧
      flight.artifactRequested = false ∧ parentRequestId = flight.parentRequestId ∧
      flights' = flights.insert requestId { flight with artifactRequested := true } := by
  revert h
  fun_cases claimCompileFlightArtifact requestId parentRequestId flights <;> rintro ⟨⟩
  exact ⟨_, ‹_›, by simp_all, by simp_all, by simp_all, rfl⟩

theorem registerCompileFlight_error (h : registerCompileFlight frame flights = .error violation) :
    violation = .flightRegistration := by
  revert h
  fun_cases registerCompileFlight frame flights <;> rintro ⟨⟩ <;> rfl

theorem completeCompileFlight_error (h : completeCompileFlight frame flights = .error violation) :
    violation = .flightCompletion := by
  revert h
  fun_cases completeCompileFlight frame flights <;> rintro ⟨⟩ <;> rfl

theorem claimCompileFlightArtifact_error
    (h : claimCompileFlightArtifact requestId parentRequestId flights = .error violation) :
    violation = .flightArtifact := by
  revert h
  fun_cases claimCompileFlightArtifact requestId parentRequestId flights <;> rintro ⟨⟩ <;> rfl

end RedevPlugin.Exchange
