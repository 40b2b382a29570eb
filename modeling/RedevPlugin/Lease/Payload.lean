import RedevPlugin.Wire.Fields
import RedevPlugin.Wire.Writers

/-! The bytes of an execution lease that its signature covers, as the runtime
rebuilds them from the lease it received. The runtime checks and normalises the
fields in order and appends each of them to the text by hand. The text is the JSON
object of the normalised fields. -/

namespace RedevPlugin.Lease

open Text Json Wire

/-! ### The lease as received -/

structure WorkerLeaseLimitsPayload where
  timeoutMs : Option ℤ
  memoryBytes : Option ℕ
  maxPayloadBytes : Option ℤ
  maxStreamBytesPerSec : Option ℤ
  deriving DecidableEq

/-- `WorkerLeasePayload`, without the signature. -/
structure WorkerLeasePayload where
  (leaseId tokenId leaseNonce pluginId pluginVersion activeFingerprint invocationId scopeKind
    surfaceInstanceId ownerSessionHash ownerUserHash ownerEnvHash sessionChannelIdHash
    bridgeChannelId runtimeGenerationId pluginInstanceId method effect execution executionId
    auditCorrelationId : Option String)
  targetDescriptorHashes : Option (List String)
  limits : Option WorkerLeaseLimitsPayload
  policyRevision : Option ℕ
  managementRevision : Option ℕ
  revokeEpoch : Option ℕ
  (runtimeShardId runtimeInstanceId ipcChannelId connectionNonce keyId : Option String)
  issuedAtUnixMs : Option ℤ
  expiresAtUnixMs : Option ℤ
  deriving DecidableEq

/-! ### The fields that are signed -/

inductive ScopeKind where
  | user
  | environment

def ScopeKind.name : ScopeKind → String
  | .user => "user"
  | .environment => "environment"

inductive Effect where
  | read
  | write
  | execute
  | delete
  | admin

def Effect.name : Effect → String
  | .read => "read"
  | .write => "write"
  | .execute => "execute"
  | .delete => "delete"
  | .admin => "admin"

/-- Operations and subscriptions have an execution id, synchronous calls have none. -/
inductive Execution where
  | sync
  | operation (id : TrimmedText)
  | subscription (id : TrimmedText)

def Execution.name : Execution → String
  | .sync => "sync"
  | .operation _ => "operation"
  | .subscription _ => "subscription"

def Execution.id : Execution → Option TrimmedText
  | .sync => none
  | .operation id | .subscription id => some id

structure SignedLimits where
  timeoutMs : ℤ
  memoryBytes : ℕ
  maxPayloadBytes : ℤ
  maxStreamBytesPerSec : ℤ

/-- A lease whose fields the encoder has accepted and normalised. -/
structure SignedLease where
  (leaseId tokenId leaseNonce pluginInstanceId pluginId pluginVersion activeFingerprint
    invocationId : TrimmedText)
  scopeKind : ScopeKind
  issuedAtUnixMs : ℤ
  method : String
  effect : Effect
  execution : Execution
  auditCorrelationId : TrimmedText
  surfaceInstanceId : Option TrimmedText
  ownerSessionHash : Option TrimmedText
  ownerUserHash : TrimmedText
  ownerEnvHash : TrimmedText
  sessionChannelIdHash : Option TrimmedText
  bridgeChannelId : Option TrimmedText
  targetDescriptorHashes : List TrimmedText
  limits : SignedLimits
  policyRevision : ℕ
  managementRevision : ℕ
  revokeEpoch : ℕ
  expiresAtUnixMs : ℤ
  (runtimeShardId runtimeInstanceId runtimeGenerationId ipcChannelId connectionNonce
    keyId : TrimmedText)

def readScopeKind (value : Option String) : IpcResult ScopeKind := do
  let scopeKind ← requiredString value "scope_kind"
  match scopeKind.1 with
  | "user" => .ok .user
  | "environment" => .ok .environment
  | _ => .error (.invalidField "runtime lease scope_kind")

def readEffect (value : Option String) : IpcResult Effect := do
  let effect ← requiredString value "effect"
  match effect.1 with
  | "read" => .ok .read
  | "write" => .ok .write
  | "execute" => .ok .execute
  | "delete" => .ok .delete
  | "admin" => .ok .admin
  | _ => .error (.invalidField "runtime lease effect")

/-- `validate_runtime_execution_binding`. -/
def readExecution (execution executionId : Option String) : IpcResult Execution := do
  let execution ← requiredString execution "execution"
  match execution.1, optionalStringRef executionId with
  | "sync", none => .ok .sync
  | "operation", some id => .ok (.operation id)
  | "subscription", some id => .ok (.subscription id)
  | _, _ => .error (.invalidField "runtime lease execution binding")

/-- A nonce has at least 16 bytes. -/
def readNonce (value : Option String) (field : String) : IpcResult TrimmedText := do
  let nonce ← requiredString value field
  if nonce.1.utf8ByteSize < 16 then .error (.invalidField ("runtime lease " ++ field))
  else .ok nonce

/-- The loop over the target hashes, which are distinct once trimmed. -/
def readTargetHashes (seen : List TrimmedText) : List String → IpcResult (List TrimmedText)
  | [] => .ok []
  | hash :: rest =>
    match optionalStringRef (some hash) with
    | none => .error (.invalidField "target_descriptor_hashes item")
    | some hash =>
      if hash ∈ seen then
        .error (.protocolViolation "target_descriptor_hashes item is duplicated")
      else (readTargetHashes (hash :: seen) rest).map (hash :: ·)

def readTargets : Option (List String) → IpcResult (List TrimmedText)
  | none | some [] => .error (.missingField "runtime lease target_descriptor_hashes")
  | some hashes => readTargetHashes [] hashes

def maxRuntimeLeaseMemoryBytes : ℕ := 256 * 1024 * 1024

def readMemoryBytes (value : Option ℕ) : IpcResult ℕ :=
  match value.filter (0 < ·) with
  | none => .error (.invalidField "memory_bytes")
  | some n =>
    if maxRuntimeLeaseMemoryBytes < n then
      .error (.protocolViolation "memory_bytes exceeds runtime lease limit")
    else .ok n

def readLimits : Option WorkerLeaseLimitsPayload → IpcResult SignedLimits
  | none => .error (.missingField "runtime lease limits")
  | some limits => do
    let timeoutMs ← nonnegativeI64 limits.timeoutMs "timeout_ms"
    let memoryBytes ← readMemoryBytes limits.memoryBytes
    let maxPayloadBytes ← nonnegativeI64 limits.maxPayloadBytes "max_payload_bytes"
    let maxStreamBytesPerSec ← nonnegativeI64 limits.maxStreamBytesPerSec "max_stream_bytes_per_sec"
    return { timeoutMs, memoryBytes, maxPayloadBytes, maxStreamBytesPerSec }

/-- The checks of `runtime_lease_signature_payload_json`, in its order. -/
def readSignedLease (lease : WorkerLeasePayload) (method : String) : IpcResult SignedLease := do
  if (optionalStringRef lease.method).any (·.1 ≠ trim method) then
    throw (.protocolViolation "runtime lease method mismatch")
  let leaseId ← requiredString lease.leaseId "lease_id"
  let tokenId ← requiredString lease.tokenId "token_id"
  let expiresAtUnixMs ← positiveI64 lease.expiresAtUnixMs "expires_at_unix_ms"
  let issuedAtUnixMs ← positiveI64 lease.issuedAtUnixMs "issued_at_unix_ms"
  let leaseNonce ← readNonce lease.leaseNonce "lease_nonce"
  let pluginInstanceId ← requiredString lease.pluginInstanceId "plugin_instance_id"
  let pluginId ← requiredString lease.pluginId "plugin_id"
  let pluginVersion ← requiredString lease.pluginVersion "plugin_version"
  let activeFingerprint ← requiredString lease.activeFingerprint "active_fingerprint"
  let invocationId ← requiredString lease.invocationId "invocation_id"
  let scopeKind ← readScopeKind lease.scopeKind
  let effect ← readEffect lease.effect
  let _ ← requiredString lease.execution "execution"
  let ownerUserHash ← requiredString lease.ownerUserHash "owner_user_hash"
  let execution ← readExecution lease.execution lease.executionId
  let auditCorrelationId ← requiredString lease.auditCorrelationId "audit_correlation_id"
  let ownerEnvHash ← requiredString lease.ownerEnvHash "owner_env_hash"
  let targetDescriptorHashes ← readTargets lease.targetDescriptorHashes
  let limits ← readLimits lease.limits
  let policyRevision ← requiredSafeU64 lease.policyRevision "policy_revision"
  let managementRevision ← requiredSafeU64 lease.managementRevision "management_revision"
  let revokeEpoch ← requiredPositiveU64 lease.revokeEpoch "revoke_epoch"
  let runtimeShardId ← requiredString lease.runtimeShardId "runtime_shard_id"
  let runtimeInstanceId ← requiredString lease.runtimeInstanceId "runtime_instance_id"
  let runtimeGenerationId ← requiredString lease.runtimeGenerationId "runtime_generation_id"
  let ipcChannelId ← requiredString lease.ipcChannelId "ipc_channel_id"
  let connectionNonce ← readNonce lease.connectionNonce "connection_nonce"
  let keyId ← requiredString lease.keyId "key_id"
  return {
    leaseId, tokenId, leaseNonce, pluginInstanceId, pluginId, pluginVersion, activeFingerprint,
    invocationId, scopeKind, issuedAtUnixMs, effect, execution, auditCorrelationId, ownerUserHash,
    ownerEnvHash, targetDescriptorHashes, limits, policyRevision, managementRevision, revokeEpoch,
    expiresAtUnixMs, runtimeShardId, runtimeInstanceId, runtimeGenerationId, ipcChannelId,
    connectionNonce, keyId
    method := trim method
    surfaceInstanceId := optionalStringRef lease.surfaceInstanceId
    ownerSessionHash := optionalStringRef lease.ownerSessionHash
    sessionChannelIdHash := optionalStringRef lease.sessionChannelIdHash
    bridgeChannelId := optionalStringRef lease.bridgeChannelId }

/-! ### The text -/

def runtimeLeaseSignatureSchemaVersion : String := "redevplugin.runtime_execution_lease.v2"

def runtimeLeaseTokenKind : String := "runtime_execution_lease"

def escapeJsonString (input : String) : String :=
  String.ofList (input.toList.flatMap fun c => (rustEscape c).1)

variable (out : String)

def appendJsonStringField (key value : String) (comma : Bool) : String :=
  (if comma then out ++ "," else out) ++ "\"" ++ key ++ "\":\"" ++ escapeJsonString value ++ "\""

def appendJsonOptionalStringField (key : String) : Option String → String
  | none => out
  | some value =>
    if trim value = "" then out else appendJsonStringField out key (trim value) true

def appendJsonIntegerField (key : String) (value : ℤ) : String :=
  out ++ ",\"" ++ key ++ "\":" ++ value.repr

def appendTargetHashes (first : Bool) (out : String) : List TrimmedText → String
  | [] => out ++ "]"
  | hash :: rest =>
    appendTargetHashes false
      ((if first then out else out ++ ",") ++ "\"" ++ escapeJsonString hash.1 ++ "\"") rest

variable (limits : SignedLimits)

def appendRuntimeLeaseLimitsField : String :=
  out ++ ",\"limits\":\x7b\"timeout_ms\":" ++ limits.timeoutMs.repr ++
    ",\"memory_bytes\":" ++ (limits.memoryBytes : ℤ).repr ++
    ",\"max_payload_bytes\":" ++ limits.maxPayloadBytes.repr ++
    ",\"max_stream_bytes_per_sec\":" ++ limits.maxStreamBytesPerSec.repr ++ "\x7d"

namespace SignedLease

/-- The appends of `runtime_lease_signature_payload_json`, in its order. -/
def payloadJson (lease : SignedLease) : String :=
  let out := "\x7b"
  let out := appendJsonStringField out "schema_version" runtimeLeaseSignatureSchemaVersion false
  let out := appendJsonStringField out "token_kind" runtimeLeaseTokenKind true
  let out := appendJsonStringField out "lease_id" lease.leaseId.1 true
  let out := appendJsonStringField out "token_id" lease.tokenId.1 true
  let out := appendJsonStringField out "lease_nonce" lease.leaseNonce.1 true
  let out := appendJsonStringField out "plugin_instance_id" lease.pluginInstanceId.1 true
  let out := appendJsonStringField out "plugin_id" lease.pluginId.1 true
  let out := appendJsonStringField out "plugin_version" lease.pluginVersion.1 true
  let out := appendJsonStringField out "active_fingerprint" lease.activeFingerprint.1 true
  let out := appendJsonStringField out "invocation_id" lease.invocationId.1 true
  let out := appendJsonStringField out "scope_kind" lease.scopeKind.name true
  let out := appendJsonIntegerField out "issued_at_unix_ms" lease.issuedAtUnixMs
  let out := appendJsonStringField out "method" lease.method true
  let out := appendJsonStringField out "effect" lease.effect.name true
  let out := appendJsonStringField out "execution" lease.execution.name true
  let out := appendJsonOptionalStringField out "execution_id"
    (some (lease.execution.id.elim "" (·.1)))
  let out := appendJsonStringField out "audit_correlation_id" lease.auditCorrelationId.1 true
  let out := appendJsonOptionalStringField out "surface_instance_id"
    (lease.surfaceInstanceId.map (·.1))
  let out := appendJsonOptionalStringField out "owner_session_hash"
    (lease.ownerSessionHash.map (·.1))
  let out := appendJsonOptionalStringField out "owner_user_hash" (some lease.ownerUserHash.1)
  let out := appendJsonStringField out "owner_env_hash" lease.ownerEnvHash.1 true
  let out := appendJsonOptionalStringField out "session_channel_id_hash"
    (lease.sessionChannelIdHash.map (·.1))
  let out := appendJsonOptionalStringField out "bridge_channel_id" (lease.bridgeChannelId.map (·.1))
  let out := appendTargetHashes true (out ++ ",\"target_descriptor_hashes\":[")
    lease.targetDescriptorHashes
  let out := appendRuntimeLeaseLimitsField out lease.limits
  let out := appendJsonIntegerField out "policy_revision" lease.policyRevision
  let out := appendJsonIntegerField out "management_revision" lease.managementRevision
  let out := appendJsonIntegerField out "revoke_epoch" lease.revokeEpoch
  let out := appendJsonIntegerField out "expires_at_unix_ms" lease.expiresAtUnixMs
  let out := appendJsonStringField out "runtime_shard_id" lease.runtimeShardId.1 true
  let out := appendJsonStringField out "runtime_instance_id" lease.runtimeInstanceId.1 true
  let out := appendJsonStringField out "runtime_generation_id" lease.runtimeGenerationId.1 true
  let out := appendJsonStringField out "ipc_channel_id" lease.ipcChannelId.1 true
  let out := appendJsonStringField out "connection_nonce" lease.connectionNonce.1 true
  let out := appendJsonStringField out "key_id" lease.keyId.1 true
  out ++ "\x7d"

end SignedLease

def runtimeLeaseSignaturePayloadJson (lease : WorkerLeasePayload) (method : String) :
    IpcResult String :=
  (readSignedLease lease method).map SignedLease.payloadJson

/-! ### The text is a JSON object -/

/-- The writer that the appends amount to. -/
def rustFormat : Format ℤ := ⟨rustEscape, decimal⟩

/-- The keys are written without escapes. -/
def isPlainKey (key : String) : Bool := key.toList.all fun c => c.isLower || c = '_'

theorem toList_escapeJsonString (s : String) :
    (escapeJsonString s).toList ++ ['"'] = body (rustFormat.units s) := by
  simp [escapeJsonString, body, Format.units, rustFormat, List.flatMap_map]

variable {key : String}

theorem body_units_key (hkey : isPlainKey key = true) :
    body (rustFormat.units key) = key.toList ++ ['"'] := by
  have hpl : key.toList.flatMap (fun c => (rustEscape c).1) = key.toList.flatMap ([·]) :=
    List.flatMap_congr fun c hc => rustEscape_letter (List.all_eq_true.mp hkey c hc)
  simp [body, Format.units, rustFormat, List.flatMap_map, hpl]

theorem toList_first_appendJsonStringField (value : String) (hkey : isPlainKey key = true) :
    (appendJsonStringField out key value false).toList =
      out.toList ++
        '"' :: body (rustFormat.units key) ++ ':' :: rustFormat.write (.string value) := by
  have hva : rustFormat.write (.string value) = '"' :: body (rustFormat.units value) := rfl
  simp [appendJsonStringField, body_units_key hkey, hva, ← toList_escapeJsonString]

theorem toList_appendJsonStringField (value : String) (hkey : isPlainKey key = true) :
    (appendJsonStringField out key value true).toList =
      out.toList ++ rustFormat.member (key, .string value) := by
  have hva : rustFormat.write (.string value) = '"' :: body (rustFormat.units value) := rfl
  simp [appendJsonStringField, Format.member, body_units_key hkey, hva, ← toList_escapeJsonString]

theorem toList_appendJsonIntegerField (value : ℤ) (hkey : isPlainKey key = true) :
    (appendJsonIntegerField out key value).toList =
      out.toList ++ rustFormat.member (key, .number value) := by
  have hva : rustFormat.write (.number value) = value.repr.toList := rfl
  simp [appendJsonIntegerField, Format.member, body_units_key hkey, hva]

theorem toList_appendJsonOptionalStringField (value : Option TrimmedText)
    (hkey : isPlainKey key = true) :
    (appendJsonOptionalStringField out key (value.map (·.1))).toList =
      out.toList ++ ((value.map fun v => (key, Json.string v.1)).toList.flatMap
        rustFormat.member) := by
  cases value with
  | none => simp [appendJsonOptionalStringField]
  | some v =>
    simp [appendJsonOptionalStringField, v.2.1, v.2.2, toList_appendJsonStringField _ _ hkey]

/-- An empty execution id is none. -/
theorem appendJsonOptionalStringField_elim (key : String) (value : Option TrimmedText) :
    appendJsonOptionalStringField out key (some (value.elim "" (·.1))) =
      appendJsonOptionalStringField out key (value.map (·.1)) := by
  cases value with
  | none => simp [appendJsonOptionalStringField, trim, trimChars]
  | some v => rfl

theorem toList_appendTargetHashes (first : Bool) (out : String) (hashes : List TrimmedText) :
    (appendTargetHashes first out hashes).toList = out.toList ++
      elements first (mapElements rustFormat.units rustFormat.number
        (hashes.map fun hash => .string hash.1)) := by
  induction hashes generalizing first out with
  | nil => simp [appendTargetHashes, mapElements, elements]
  | cons hash rest ih =>
    rw [appendTargetHashes, ih]
    cases first <;>
      simp [mapElements, elements, Json.map, text, ← toList_escapeJsonString]

theorem toList_appendTargetsField (hashes : List TrimmedText) :
    (appendTargetHashes true (out ++ ",\"target_descriptor_hashes\":[") hashes).toList =
      out.toList ++ rustFormat.member
        ("target_descriptor_hashes", .array (hashes.map fun hash => .string hash.1)) := by
  have hkey : isPlainKey "target_descriptor_hashes" = true := by decide
  simp [toList_appendTargetHashes, Format.member, body_units_key hkey, Format.write, Json.map, text]

def SignedLimits.json : Json String ℤ :=
  .object [("timeout_ms", .number limits.timeoutMs), ("memory_bytes", .number limits.memoryBytes),
    ("max_payload_bytes", .number limits.maxPayloadBytes),
    ("max_stream_bytes_per_sec", .number limits.maxStreamBytesPerSec)]

theorem toList_appendRuntimeLeaseLimitsField : (appendRuntimeLeaseLimitsField out limits).toList =
      out.toList ++ rustFormat.member ("limits", limits.json) := by
  have hva : ∀ n : ℤ, rustFormat.write (.number n) = n.repr.toList := fun _ => rfl
  have hk : ∀ key ∈ ["limits", "timeout_ms", "memory_bytes", "max_payload_bytes",
      "max_stream_bytes_per_sec"], isPlainKey key = true := by decide
  simp only [List.forall_mem_cons] at hk
  obtain ⟨hlimits, hti, hme, hpa, hstr, -⟩ := hk
  simp [appendRuntimeLeaseLimitsField, Format.member, SignedLimits.json,
    Format.write_object_cons, body_units_key hlimits, body_units_key hti,
    body_units_key hme, body_units_key hpa, body_units_key hstr, hva]

namespace SignedLease

variable (lease : SignedLease)

def targetsJson : Json String ℤ :=
  .array (lease.targetDescriptorHashes.map fun hash => .string hash.1)

/-- The members of the signed object in order; those that may be missing are optional. -/
def fields : List (String × Option (Json String ℤ)) :=
  [("schema_version", some (.string runtimeLeaseSignatureSchemaVersion)),
    ("token_kind", some (.string runtimeLeaseTokenKind)),
    ("lease_id", some (.string lease.leaseId.1)),
    ("token_id", some (.string lease.tokenId.1)),
    ("lease_nonce", some (.string lease.leaseNonce.1)),
    ("plugin_instance_id", some (.string lease.pluginInstanceId.1)),
    ("plugin_id", some (.string lease.pluginId.1)),
    ("plugin_version", some (.string lease.pluginVersion.1)),
    ("active_fingerprint", some (.string lease.activeFingerprint.1)),
    ("invocation_id", some (.string lease.invocationId.1)),
    ("scope_kind", some (.string lease.scopeKind.name)),
    ("issued_at_unix_ms", some (.number lease.issuedAtUnixMs)),
    ("method", some (.string lease.method)),
    ("effect", some (.string lease.effect.name)),
    ("execution", some (.string lease.execution.name)),
    ("execution_id", lease.execution.id.map (.string ·.1)),
    ("audit_correlation_id", some (.string lease.auditCorrelationId.1)),
    ("surface_instance_id", lease.surfaceInstanceId.map (.string ·.1)),
    ("owner_session_hash", lease.ownerSessionHash.map (.string ·.1)),
    ("owner_user_hash", some (.string lease.ownerUserHash.1)),
    ("owner_env_hash", some (.string lease.ownerEnvHash.1)),
    ("session_channel_id_hash", lease.sessionChannelIdHash.map (.string ·.1)),
    ("bridge_channel_id", lease.bridgeChannelId.map (.string ·.1)),
    ("target_descriptor_hashes", some lease.targetsJson),
    ("limits", some lease.limits.json),
    ("policy_revision", some (.number lease.policyRevision)),
    ("management_revision", some (.number lease.managementRevision)),
    ("revoke_epoch", some (.number lease.revokeEpoch)),
    ("expires_at_unix_ms", some (.number lease.expiresAtUnixMs)),
    ("runtime_shard_id", some (.string lease.runtimeShardId.1)),
    ("runtime_instance_id", some (.string lease.runtimeInstanceId.1)),
    ("runtime_generation_id", some (.string lease.runtimeGenerationId.1)),
    ("ipc_channel_id", some (.string lease.ipcChannelId.1)),
    ("connection_nonce", some (.string lease.connectionNonce.1)),
    ("key_id", some (.string lease.keyId.1))]

def fieldKeys : List String :=
  ["schema_version", "token_kind", "lease_id", "token_id", "lease_nonce", "plugin_instance_id",
    "plugin_id", "plugin_version", "active_fingerprint", "invocation_id", "scope_kind",
    "issued_at_unix_ms", "method", "effect", "execution", "execution_id", "audit_correlation_id",
    "surface_instance_id", "owner_session_hash", "owner_user_hash", "owner_env_hash",
    "session_channel_id_hash", "bridge_channel_id", "target_descriptor_hashes", "limits",
    "policy_revision", "management_revision", "revoke_epoch", "expires_at_unix_ms",
    "runtime_shard_id", "runtime_instance_id", "runtime_generation_id", "ipc_channel_id",
    "connection_nonce", "key_id"]

theorem fieldKeys_plain : ∀ key ∈ fieldKeys, isPlainKey key = true := by decide +kernel

theorem fieldKeys_distinct : fieldKeys.Nodup := by decide

theorem keys_fields : lease.fields.map Prod.fst = fieldKeys := rfl

theorem toList_payloadJson :
    lease.payloadJson.toList = rustFormat.write (.object (present lease.fields)) := by
  have hpl := fieldKeys_plain
  simp only [fieldKeys, List.forall_mem_cons] at hpl
  have hus : some lease.ownerUserHash.1 = (some lease.ownerUserHash).map (·.1) := rfl
  simp only [payloadJson, appendJsonOptionalStringField_elim, hus, String.toList_append, hpl,
    toList_appendJsonStringField, toList_first_appendJsonStringField,
    toList_appendJsonIntegerField, toList_appendJsonOptionalStringField,
    toList_appendTargetsField, toList_appendRuntimeLeaseLimitsField]
  simp only [fields, present_cons, Option.map_some, Option.toList_some, List.singleton_append,
    Format.write_object_cons]
  simp [targetsJson, present]
  rfl

end SignedLease

end RedevPlugin.Lease
