import RedevPlugin.Wire.Params

/-! The broker access of a worker call: the stores, connectors and processes that the
method may use. Host and runtime have the same structures and write their fields in the
same order, without the lists that are empty. They differ in the limits of a process:
the host leaves out a limit that is zero, and the runtime, which then has none, writes
a null for it. -/

namespace RedevPlugin.Wire

open Json

/-- A manifest gives at least one operation. -/
abbrev Operations := { operations : List String // operations ≠ [] }

structure WorkerStorageBrokerAccess where
  storeID : String
  scope : String
  operations : Operations

structure WorkerNetworkBrokerAccess where
  connectorID : String
  transport : String
  scope : String
  operations : Operations
  httpMethods : List String

/-- With the limits `L` of one side. -/
structure WorkerProcessBrokerAccess (L : Type) where
  operations : Operations
  limits : Option L

structure WorkerBrokerAccess (L : Type) where
  storage : List WorkerStorageBrokerAccess
  network : List WorkerNetworkBrokerAccess
  process : List (WorkerProcessBrokerAccess L)

/-- The limits on the host. -/
structure ResourceLimits where
  outputBufferBytes : ℤ
  maxRuntimeMS : ℤ

/-- The limits in the runtime. -/
structure WorkerProcessResourceLimitsPayload where
  outputBufferBytes : Option ℤ
  maxRuntimeMs : Option ℤ

abbrev Value := Json String ℤ

variable {L M : Type} {limits limits' : L → Value} {α : Type}

def list (write : α → Value) (xs : List α) : Value := .array (xs.map write)

/-- `omitempty`, and `skip_serializing_if`. -/
def omitEmptyList (write : α → Value) (xs : List α) : Option Value :=
  if xs.isEmpty then none else some (list write xs)

def WorkerStorageBrokerAccess.json (a : WorkerStorageBrokerAccess) : Value :=
  .object [("store_id", .string a.storeID), ("scope", .string a.scope),
    ("operations", list .string a.operations.1)]

def WorkerNetworkBrokerAccess.json (a : WorkerNetworkBrokerAccess) : Value :=
  .object (present [("connector_id", some (.string a.connectorID)),
    ("transport", some (.string a.transport)), ("scope", some (.string a.scope)),
    ("operations", some (list .string a.operations.1)),
    ("http_methods", omitEmptyList .string a.httpMethods)])

def WorkerProcessBrokerAccess.json (limits : L → Value) (a : WorkerProcessBrokerAccess L) : Value :=
  .object (present [("operations", some (list .string a.operations.1)),
    ("limits", a.limits.map limits)])

def WorkerBrokerAccess.json (limits : L → Value) (a : WorkerBrokerAccess L) : Value :=
  .object (present [("storage", omitEmptyList WorkerStorageBrokerAccess.json a.storage),
    ("network", omitEmptyList WorkerNetworkBrokerAccess.json a.network),
    ("process", omitEmptyList (WorkerProcessBrokerAccess.json limits) a.process)])

def omitZero (n : ℤ) : Option ℤ := if n = 0 then none else some n

def ResourceLimits.json (l : ResourceLimits) : Value :=
  .object (present [("output_buffer_bytes", (omitZero l.outputBufferBytes).map .number),
    ("max_runtime_ms", (omitZero l.maxRuntimeMS).map .number)])

/-- `None` is written as a null. -/
def optional (n : Option ℤ) : Value := n.elim .null .number

def WorkerProcessResourceLimitsPayload.json (l : WorkerProcessResourceLimitsPayload) : Value :=
  .object [("output_buffer_bytes", optional l.outputBufferBytes),
    ("max_runtime_ms", optional l.maxRuntimeMs)]

/-- `marshalWorkerCanonicalJSON` of a broker access. -/
def marshalWorkerBrokerAccess (access : WorkerBrokerAccess ResourceLimits) : String :=
  String.ofList ((goCanonicalFormat decimal).write (access.json ResourceLimits.json))

def WorkerProcessBrokerAccess.map (f : L → M) (a : WorkerProcessBrokerAccess L) :
    WorkerProcessBrokerAccess M :=
  ⟨a.operations, a.limits.map f⟩

/-- What the host leaves out is missing in the runtime. -/
def ResourceLimits.toIpc (l : ResourceLimits) : WorkerProcessResourceLimitsPayload :=
  ⟨omitZero l.outputBufferBytes, omitZero l.maxRuntimeMS⟩

def WorkerBrokerAccess.toIpc (a : WorkerBrokerAccess ResourceLimits) :
    WorkerBrokerAccess WorkerProcessResourceLimitsPayload :=
  ⟨a.storage, a.network, a.process.map (.map ResourceLimits.toIpc)⟩

end RedevPlugin.Wire
