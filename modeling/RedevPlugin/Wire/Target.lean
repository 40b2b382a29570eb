import RedevPlugin.Wire.BrokerAccess

/-! The descriptor of a worker invocation. Host and runtime each put the fields that
a lease binds, every one with its length in front, into one byte string and take
its digest; a lease carries the digest among its targets. The host writes its
fields as they are. The runtime trims the ones it received and uses the digests of
the parameters and of the broker access that it computed itself, after comparing
them with the ones it was sent. So it refuses what the host sends where its texts
of these two are others. -/

namespace RedevPlugin.Wire

open Text Bytes

/-! ### Encoding -/

/-- `workerInvocationPayload`: the fields that the descriptor binds, and what two of them are the
digests of. -/
structure WorkerInvocation where
  (pluginID pluginInstanceID activeFingerprint runtimeInstanceID runtimeGenerationID packageHash
    workerID workerMode workerScope artifact artifactSHA256 method effect execution
    surfaceInstanceID ownerSessionHash ownerUserHash ownerEnvHash sessionChannelIDHash
    bridgeChannelID executionID auditCorrelationID paramsSHA256 : String)
  params : List (String × ParamsValue)
  brokerAccess : WorkerBrokerAccess ResourceLimits
  brokerAccessSHA256 : String

/-- `WorkerInvocationPayload` of the runtime, with the same fields. -/
structure WorkerInvocationPayload where
  (pluginId pluginInstanceId activeFingerprint runtimeInstanceId runtimeGenerationId packageHash
    workerId workerMode workerScope artifact artifactSha256 method effect execution
    surfaceInstanceId ownerSessionHash ownerUserHash ownerEnvHash sessionChannelIdHash
    bridgeChannelId executionId auditCorrelationId paramsSha256 : Option String)
  params : Option (Json String SerdeNumber)
  brokerAccess : Option (WorkerBrokerAccess WorkerProcessResourceLimitsPayload)
  brokerAccessSha256 : Option String

def workerInvocationTargetSchemaVersion : String := "redevplugin.worker_invocation_target.v1"

namespace WorkerInvocation

/-! ### The host -/

def targetFields (payload : WorkerInvocation) : List String :=
  [workerInvocationTargetSchemaVersion, payload.pluginID, payload.pluginInstanceID,
    payload.activeFingerprint, payload.runtimeInstanceID, payload.runtimeGenerationID,
    payload.packageHash, payload.workerID, payload.workerMode, payload.workerScope,
    payload.artifact, payload.artifactSHA256, payload.method, payload.effect, payload.execution,
    payload.surfaceInstanceID, payload.ownerSessionHash, payload.ownerUserHash,
    payload.ownerEnvHash, payload.sessionChannelIDHash, payload.bridgeChannelID,
    payload.executionID, payload.auditCorrelationID, payload.paramsSHA256,
    payload.brokerAccessSHA256]

/-- The invocation as the runtime decodes it from the frame of the request. -/
def toIpc (payload : WorkerInvocation) : WorkerInvocationPayload where
  pluginId := some payload.pluginID
  pluginInstanceId := some payload.pluginInstanceID
  activeFingerprint := some payload.activeFingerprint
  runtimeInstanceId := some payload.runtimeInstanceID
  runtimeGenerationId := some payload.runtimeGenerationID
  packageHash := some payload.packageHash
  workerId := some payload.workerID
  workerMode := some payload.workerMode
  workerScope := some payload.workerScope
  artifact := some payload.artifact
  artifactSha256 := some payload.artifactSHA256
  method := some payload.method
  effect := some payload.effect
  execution := some payload.execution
  surfaceInstanceId := omitEmpty payload.surfaceInstanceID
  ownerSessionHash := omitEmpty payload.ownerSessionHash
  ownerUserHash := omitEmpty payload.ownerUserHash
  ownerEnvHash := omitEmpty payload.ownerEnvHash
  sessionChannelIdHash := omitEmpty payload.sessionChannelIDHash
  bridgeChannelId := omitEmpty payload.bridgeChannelID
  executionId := omitEmpty payload.executionID
  auditCorrelationId := some payload.auditCorrelationID
  paramsSha256 := some payload.paramsSHA256
  params := some (decodeParams payload.params)
  brokerAccess := some payload.brokerAccess.toIpc
  brokerAccessSha256 := some payload.brokerAccessSHA256

end WorkerInvocation

/-! ### The runtime -/

def hexDigit (n : ℕ) : Char := n.digitChar

def lowercaseHex (bytes : List UInt8) : String :=
  String.ofList (bytes.flatMap fun b => [hexDigit (b.toNat / 16), hexDigit (b.toNat % 16)])

section Digest

variable (sha256 : List UInt8 → List UInt8)

def digestText (json : String) : String := "sha256:" ++ lowercaseHex (sha256 (utf8 json))

/-- The fields the runtime refuses to do without. -/
def WorkerInvocation.requiredFields (payload : WorkerInvocation) : List String :=
  [payload.pluginID, payload.pluginInstanceID, payload.activeFingerprint,
    payload.runtimeInstanceID, payload.runtimeGenerationID, payload.packageHash, payload.workerID,
    payload.workerMode, payload.workerScope, payload.artifact, payload.artifactSHA256,
    payload.method, payload.effect, payload.execution, payload.auditCorrelationID,
    payload.paramsSHA256]

/-- An invocation of the host: accepted parameters, the digests of its own texts, trimmed fields,
and none of the required ones empty. -/
structure WorkerInvocation.Sent (payload : WorkerInvocation) : Prop where
  trimmed : ∀ field ∈ payload.targetFields, trim field = field
  required : ∀ field ∈ payload.requiredFields, field ≠ ""
  accepted : ∃ s, cloneCanonicalMap payload.params = .ok s
  params : payload.paramsSHA256 = digestText sha256 (marshalWorkerCanonicalJSON payload.params)
  brokerAccess : payload.brokerAccessSHA256 =
    digestText sha256 (marshalWorkerBrokerAccess payload.brokerAccess)

variable {sha256} {payload : WorkerInvocation}

end Digest

end RedevPlugin.Wire
