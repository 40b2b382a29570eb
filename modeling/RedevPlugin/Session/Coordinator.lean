import RedevPlugin.Foundation.Threads

/-! The coordinator of session scopes. A scope has a gate while a call uses it or waits
on it. Reservations of a scope and its teardown exclude each other: a teardown takes
the gate and waits until the reservations are gone, and a reservation waits for the
teardown or is refused. What a teardown has written in the store refuses reservations
after the gate is gone. Calls are modelled section by section; a section is what runs
under the lock of the coordinator or in one operation of the store. -/

namespace RedevPlugin.Session

open Threads

/-- A gate. The channel `changed` is numbered, and closing it takes the next number. -/
structure ScopeGate where
  active : ℕ
  teardown : Bool
  fenced : Bool
  waiters : ℕ
  changed : ℕ

/-- The gates by their address, and the scopes with a record in the store. -/
structure Coordinator (S : Type) where
  gates : S → Option ℕ
  heap : ℕ → ScopeGate
  next : ℕ
  records : S → Bool

/-- The calls that take the gate for a teardown. -/
inductive TeardownOp where
  | begin
  | finalize
  deriving DecidableEq

inductive Call (S : Type) where
  /-- `Reserve`, at the head of its loop. -/
  | reserve (scope : S)
  | reserveWait (scope : S) (gate changed : ℕ)
  /-- It is counted and looks up the record. -/
  | reserveGet (scope : S) (gate : ℕ)
  /-- It releases before it returns an error. -/
  | reserveDrop (scope : S) (gate : ℕ) (revoked : Bool)
  /-- The reservation was returned and not yet released. -/
  | reservation (scope : S) (gate : ℕ)
  /-- `acquireTeardown`, at the head of its loop and not the owner. -/
  | acquire (op : TeardownOp) (scope : S)
  | acquireWait (op : TeardownOp) (scope : S) (gate changed : ℕ)
  /-- The owner, about to look at the reservations again. -/
  | drain (op : TeardownOp) (scope : S) (gate : ℕ)
  | drainWait (op : TeardownOp) (scope : S) (gate changed : ℕ)
  /-- The gate is acquired and the store is called. -/
  | store (op : TeardownOp) (scope : S) (gate : ℕ)
  /-- `BeginTeardown` has written and marks the gate. -/
  | mark (scope : S) (gate : ℕ)
  /-- The teardown was returned and not yet released. -/
  | teardown (scope : S) (gate : ℕ)
  /-- `BeginTeardown` after an error, or `Finalize`, releases the gate. -/
  | release (op : TeardownOp) (scope : S) (gate : ℕ) (ok : Bool)
  deriving DecidableEq

/-- What the environment decides: how a wait ends and what the store answers. -/
inductive Choice where
  | go
  | woken
  | canceled
  | failed
  /-- The store reports an error and has written nevertheless. -/
  | failedWritten

inductive Event (S : Type) where
  | silent
  | reserved (scope : S)
  /-- `Reserve` returns `ErrSessionRevoked`. -/
  | refused (scope : S)
  | failed (scope : S)
  /-- `BeginTeardown` writes a record, or one is there already. -/
  | written (scope : S)
  /-- `BeginTeardown` returns a teardown. -/
  | begun (scope : S)
  /-- `Finalize` returns without an error. -/
  | finalized (scope : S)
  deriving DecidableEq

namespace Coordinator

variable {S : Type} [DecidableEq S]
  (s : Coordinator S)

def setGate (g : ℕ) (gate : ScopeGate) : Coordinator S :=
  { s with heap := Function.update s.heap g gate }

variable (scope : S)

def setRecord (b : Bool) : Coordinator S := { s with records := Function.update s.records scope b }

def newGate : ScopeGate := ⟨0, false, false, 0, 0⟩

def gateLocked : ℕ × Coordinator S :=
  match s.gates scope with
  | some g => (g, s)
  | none =>
    (s.next, { s with
      gates := Function.update s.gates scope (some s.next)
      heap := Function.update s.heap s.next newGate, next := s.next + 1 })

def signalGateLocked (gate : ScopeGate) : ScopeGate := { gate with changed := gate.changed + 1 }

variable (g : ℕ)

def cleanupGateLocked : Coordinator S :=
  if s.gates scope = some g ∧ (s.heap g).active = 0 ∧ (s.heap g).teardown = false ∧
      (s.heap g).waiters = 0 then
    { s with gates := Function.update s.gates scope none }
  else s

def releaseReservation : Coordinator S :=
  let gate := s.heap g
  if s.gates scope ≠ some g ∨ gate.active = 0 then s
  else
    (s.setGate g (signalGateLocked { gate with active := gate.active - 1 })).cleanupGateLocked
      scope g

def releaseTeardown : Coordinator S :=
  let gate := s.heap g
  if s.gates scope ≠ some g ∨ gate.teardown = false then s
  else
    (s.setGate g (signalGateLocked { gate with teardown := false })).cleanupGateLocked scope g

def markGateFenced : Coordinator S :=
  let gate := s.heap g
  if s.gates scope ≠ some g ∨ gate.teardown = false then s
  else s.setGate g (signalGateLocked { gate with fenced := true })

/-- The end of a wait: the call no longer waits on the gate. -/
def leaveWait : Coordinator S :=
  let gate := s.heap g
  (s.setGate g { gate with waiters := gate.waiters - 1 }).cleanupGateLocked scope g

/-- The channel that a call waits on was closed. -/
def closed (changed : ℕ) : Bool := (s.heap g).changed ≠ changed

/-- The owner goes on if there are no reservations, and waits otherwise. -/
def checkActive (op : TeardownOp) (scope : S) (g : ℕ) : Event S × Coordinator S × Option (Call S) :=
  let gate := s.heap g
  if gate.active = 0 then (.silent, s, some (.store op scope g))
  else
    (.silent, s.setGate g { gate with waiters := gate.waiters + 1 },
      some (.drainWait op scope g gate.changed))

def advance : Call S → Choice → Option (Event S × Coordinator S × Option (Call S))
  | .reserve scope, .go =>
    let (g, s) := s.gateLocked scope
    let gate := s.heap g
    if gate.teardown then
      if gate.fenced then some (.refused scope, s, none)
      else
        some (.silent, s.setGate g { gate with waiters := gate.waiters + 1 },
          some (.reserveWait scope g gate.changed))
    else
      some (.silent, s.setGate g { gate with active := gate.active + 1 },
        some (.reserveGet scope g))
  | .reserveWait scope g changed, .woken =>
    if s.closed g changed then some (.silent, s.leaveWait scope g, some (.reserve scope)) else none
  | .reserveWait scope g _, .canceled => some (.failed scope, s.leaveWait scope g, none)
  | .reserveGet scope g, .go =>
    if s.records scope then some (.silent, s, some (.reserveDrop scope g true))
    else some (.reserved scope, s, some (.reservation scope g))
  | .reserveGet scope g, .failed => some (.silent, s, some (.reserveDrop scope g false))
  | .reserveDrop scope g revoked, .go =>
    some (if revoked then .refused scope else .failed scope, s.releaseReservation scope g, none)
  | .reservation scope g, .go => some (.silent, s.releaseReservation scope g, none)
  | .acquire op scope, .go =>
    let (g, s) := s.gateLocked scope
    let gate := s.heap g
    if gate.teardown then
      some (.silent, s.setGate g { gate with waiters := gate.waiters + 1 },
        some (.acquireWait op scope g gate.changed))
    else some ((s.setGate g { gate with teardown := true }).checkActive op scope g)
  | .acquireWait op scope g changed, .woken =>
    if s.closed g changed then some (.silent, s.leaveWait scope g, some (.acquire op scope))
    else none
  | .acquireWait _ scope g _, .canceled => some (.failed scope, s.leaveWait scope g, none)
  | .drain op scope g, .go => some (s.checkActive op scope g)
  | .drainWait op scope g changed, .woken =>
    let gate := s.heap g
    if s.closed g changed then
      some (.silent, s.setGate g { gate with waiters := gate.waiters - 1 },
        some (.drain op scope g))
    else none
  | .drainWait _ scope g _, .canceled =>
    let gate := s.heap g
    some (.failed scope, (s.setGate g (signalGateLocked
      { gate with waiters := gate.waiters - 1, teardown := false })).cleanupGateLocked scope g,
      none)
  | .store .begin scope g, .go =>
    some (.written scope, s.setRecord scope true, some (.mark scope g))
  | .store .begin scope g, .failed => some (.silent, s, some (.release .begin scope g false))
  | .store .begin scope g, .failedWritten =>
    some (.written scope, s.setRecord scope true, some (.release .begin scope g false))
  | .store .finalize scope g, .go =>
    if s.records scope then
      some (.silent, s.setRecord scope false, some (.release .finalize scope g true))
    else none
  | .store .finalize scope g, .failed => some (.silent, s, some (.release .finalize scope g false))
  | .mark scope g, .go =>
    some (.begun scope, s.markGateFenced scope g, some (.teardown scope g))
  | .teardown scope g, .go => some (.silent, s.releaseTeardown scope g, none)
  | .release op scope g ok, .go =>
    some (if op = .finalize ∧ ok = true then .finalized scope else .failed scope,
      s.releaseTeardown scope g, none)
  | _, _ => none

/-- Calls enter at the head of the loops of `Reserve` and `acquireTeardown`. -/
def program : Program (Coordinator S) (Call S) Choice (Event S) where
  entry
    | .reserve _ | .acquire _ _ => true
    | _ => false
  advance

/-- `NewCoordinator`, over a store with any records. -/
def New : Prop := s.gates = fun _ => none

end Coordinator

end RedevPlugin.Session
