import RedevPlugin.Lease.Unambiguous
import Mathlib.Data.List.Nodup

/-! The host's side of the lease signature. The host checks the fields of a lease,
marshals the canonical payload with `encoding/json` and signs those bytes; the
runtime verifies the signature over the text it builds itself. The two agree
exactly for leases whose texts have no character that the two writers escape
differently and whose target hashes are trimmed, since the host signs the hashes as
they are and the runtime trims them. -/

namespace RedevPlugin.Lease

open Text Wire
open Json hiding Unit

/-! ### The lease -/

structure LeaseLimits where
  (timeoutMillis memoryBytes maxPayloadBytes maxStreamBytesPerSecond : ℤ)

/-- `Lease` of the host, without its signature. -/
structure HostLease where
  (leaseID tokenID leaseNonce pluginID pluginVersion activeFingerprint invocationID scopeKind
    surfaceInstanceID ownerSessionHash ownerUserHash ownerEnvHash sessionChannelIDHash
    bridgeChannelID runtimeGenerationID pluginInstanceID method effect execution executionID
    auditCorrelationID : String)
  targetDescriptorHashes : List String
  limits : LeaseLimits
  policyRevision : ℕ
  managementRevision : ℕ
  revokeEpoch : ℕ
  (runtimeShardID runtimeInstanceID ipcChannelID connectionNonce keyID : String)
  issuedAtUnixMillis : ℤ
  expiresAtUnixMillis : ℤ

/-- The lease as the runtime decodes it from the frame of the request. -/
def HostLease.toIpc (lease : HostLease) : WorkerLeasePayload where
  leaseId := some lease.leaseID
  tokenId := some lease.tokenID
  leaseNonce := some lease.leaseNonce
  pluginId := some lease.pluginID
  pluginVersion := some lease.pluginVersion
  activeFingerprint := some lease.activeFingerprint
  invocationId := some lease.invocationID
  scopeKind := some lease.scopeKind
  surfaceInstanceId := omitEmpty lease.surfaceInstanceID
  ownerSessionHash := omitEmpty lease.ownerSessionHash
  ownerUserHash := omitEmpty lease.ownerUserHash
  ownerEnvHash := omitEmpty lease.ownerEnvHash
  sessionChannelIdHash := omitEmpty lease.sessionChannelIDHash
  bridgeChannelId := omitEmpty lease.bridgeChannelID
  runtimeGenerationId := some lease.runtimeGenerationID
  pluginInstanceId := some lease.pluginInstanceID
  method := some lease.method
  effect := some lease.effect
  execution := some lease.execution
  executionId := omitEmpty lease.executionID
  auditCorrelationId := some lease.auditCorrelationID
  targetDescriptorHashes := some lease.targetDescriptorHashes
  -- the decoder refuses a negative memory limit, and the host signs none
  limits := some
    { timeoutMs := some lease.limits.timeoutMillis
      memoryBytes := some lease.limits.memoryBytes.toNat
      maxPayloadBytes := some lease.limits.maxPayloadBytes
      maxStreamBytesPerSec := some lease.limits.maxStreamBytesPerSecond }
  policyRevision := some lease.policyRevision
  managementRevision := some lease.managementRevision
  revokeEpoch := some lease.revokeEpoch
  runtimeShardId := some lease.runtimeShardID
  runtimeInstanceId := some lease.runtimeInstanceID
  ipcChannelId := some lease.ipcChannelID
  connectionNonce := some lease.connectionNonce
  keyId := some lease.keyID
  issuedAtUnixMs := some lease.issuedAtUnixMillis
  expiresAtUnixMs := some lease.expiresAtUnixMillis

/-! ### What the host signs -/

inductive LeaseError where
  /-- `ErrRuntimeLeaseInvalid`. -/
  | invalid
  /-- `ErrRuntimeLeaseSignatureInvalid`, for a method mismatch. -/
  | methodMismatch
  deriving DecidableEq

variable (lease : HostLease)

def runtimeLeaseSignatureMethod (method : String) : String :=
  if trim method ≠ "" then trim method else trim lease.method

/-- The loop over the targets: none is blank and none comes twice. -/
def validTargets (seen : List String) : List String → Bool
  | [] => true
  | target :: rest =>
    trim target ≠ "" && trim target ∉ seen && validTargets (trim target :: seen) rest

def validExecution (execution executionID : String) : Bool :=
  match execution with
  | "sync" => executionID = ""
  | "operation" | "subscription" => executionID ≠ ""
  | _ => false

def requiredTexts (resolvedMethod : String) : List String :=
  [lease.leaseID, lease.tokenID, trim lease.leaseNonce, lease.pluginID, lease.pluginVersion,
    lease.activeFingerprint, lease.invocationID, lease.pluginInstanceID, resolvedMethod,
    lease.effect, lease.execution, lease.auditCorrelationID, lease.ownerEnvHash,
    lease.runtimeShardID, lease.runtimeInstanceID, lease.runtimeGenerationID, lease.ipcChannelID,
    trim lease.connectionNonce, lease.keyID]

def isSafe (n : ℤ) : Bool := n ≤ maxJsonSafeInteger

def validateRuntimeLeaseCanonicalFields (resolvedMethod : String) :
    Except LeaseError Unit :=
  if (requiredTexts lease resolvedMethod).any (trim · = "") then .error .invalid
  else if lease.scopeKind ≠ "user" ∧ lease.scopeKind ≠ "environment" then .error .invalid
  else if trim lease.ownerUserHash = "" then .error .invalid
  else if (trim lease.leaseNonce).utf8ByteSize < 16 ∨
      (trim lease.connectionNonce).utf8ByteSize < 16 then .error .invalid
  else if trim lease.effect ∉ ["read", "write", "execute", "delete", "admin"] then .error .invalid
  else if !validExecution (trim lease.execution) (trim lease.executionID) then .error .invalid
  else if lease.targetDescriptorHashes = [] then .error .invalid
  else if !validTargets [] lease.targetDescriptorHashes then .error .invalid
  else if lease.limits.timeoutMillis < 0 ∨ ¬ isSafe lease.limits.timeoutMillis ∨
      lease.limits.memoryBytes ≤ 0 ∨ lease.limits.memoryBytes > maxRuntimeLeaseMemoryBytes ∨
      lease.limits.maxPayloadBytes < 0 ∨ ¬ isSafe lease.limits.maxPayloadBytes ∨
      lease.limits.maxStreamBytesPerSecond < 0 ∨ ¬ isSafe lease.limits.maxStreamBytesPerSecond ∨
      lease.issuedAtUnixMillis ≤ 0 ∨ ¬ isSafe lease.issuedAtUnixMillis ∨
      lease.expiresAtUnixMillis ≤ 0 ∨ ¬ isSafe lease.expiresAtUnixMillis ∨
      ¬ isSafe lease.policyRevision ∨ ¬ isSafe lease.managementRevision ∨
      ¬ (0 < lease.revokeEpoch ∧ isSafe lease.revokeEpoch) ∨
      lease.expiresAtUnixMillis ≤ lease.issuedAtUnixMillis then .error .invalid
  else .ok ()

/-- The members of `runtimeLeaseSignaturePayload` in order, with the given targets. -/
def signatureFields (resolvedMethod : String) (targets : List String) :
    List (String × Option (Json String ℤ)) :=
  let text (s : String) : Option (Json String ℤ) := some (.string s)
  let optional (s : String) : Option (Json String ℤ) := (omitEmpty s).map .string
  [("schema_version", text runtimeLeaseSignatureSchemaVersion),
    ("token_kind", text runtimeLeaseTokenKind),
    ("lease_id", text (trim lease.leaseID)),
    ("token_id", text (trim lease.tokenID)),
    ("lease_nonce", text (trim lease.leaseNonce)),
    ("plugin_instance_id", text (trim lease.pluginInstanceID)),
    ("plugin_id", text (trim lease.pluginID)),
    ("plugin_version", text (trim lease.pluginVersion)),
    ("active_fingerprint", text (trim lease.activeFingerprint)),
    ("invocation_id", text (trim lease.invocationID)),
    ("scope_kind", text lease.scopeKind),
    ("issued_at_unix_ms", some (.number lease.issuedAtUnixMillis)),
    ("method", text resolvedMethod),
    ("effect", text (trim lease.effect)),
    ("execution", text (trim lease.execution)),
    ("execution_id", optional (trim lease.executionID)),
    ("audit_correlation_id", text (trim lease.auditCorrelationID)),
    ("surface_instance_id", optional (trim lease.surfaceInstanceID)),
    ("owner_session_hash", optional (trim lease.ownerSessionHash)),
    ("owner_user_hash", optional (trim lease.ownerUserHash)),
    ("owner_env_hash", optional (trim lease.ownerEnvHash)),
    ("session_channel_id_hash", optional (trim lease.sessionChannelIDHash)),
    ("bridge_channel_id", optional (trim lease.bridgeChannelID)),
    ("target_descriptor_hashes", some (.array (targets.map .string))),
    ("limits", some (.object [("timeout_ms", .number lease.limits.timeoutMillis),
      ("memory_bytes", .number lease.limits.memoryBytes),
      ("max_payload_bytes", .number lease.limits.maxPayloadBytes),
      ("max_stream_bytes_per_sec", .number lease.limits.maxStreamBytesPerSecond)])),
    ("policy_revision", some (.number lease.policyRevision)),
    ("management_revision", some (.number lease.managementRevision)),
    ("revoke_epoch", some (.number lease.revokeEpoch)),
    ("expires_at_unix_ms", some (.number lease.expiresAtUnixMillis)),
    ("runtime_shard_id", text (trim lease.runtimeShardID)),
    ("runtime_instance_id", text (trim lease.runtimeInstanceID)),
    ("runtime_generation_id", text (trim lease.runtimeGenerationID)),
    ("ipc_channel_id", text (trim lease.ipcChannelID)),
    ("connection_nonce", text (trim lease.connectionNonce)),
    ("key_id", text (trim lease.keyID))]

/-- `json.Marshal`. -/
def goFormat : Format ℤ := ⟨goEscape true, decimal⟩

/-- The bytes that `SignRuntimeLease` signs. -/
def canonicalRuntimeLeaseSignaturePayload (method : String) :
    Except LeaseError ByteArray :=
  let resolvedMethod := runtimeLeaseSignatureMethod lease method
  if lease.method ≠ "" ∧ method ≠ "" ∧ trim lease.method ≠ trim method then
    .error .methodMismatch
  else do
    validateRuntimeLeaseCanonicalFields lease resolvedMethod
    return (String.ofList (goFormat.write (.object (present
      (signatureFields lease resolvedMethod lease.targetDescriptorHashes))))).toUTF8

/-! ### Where the runtime agrees -/

def signedTexts (method : String) : List String :=
  [lease.leaseID, lease.tokenID, lease.leaseNonce, lease.pluginInstanceID, lease.pluginID,
    lease.pluginVersion, lease.activeFingerprint, lease.invocationID, method,
    lease.executionID, lease.auditCorrelationID, lease.surfaceInstanceID, lease.ownerSessionHash,
    lease.ownerUserHash, lease.ownerEnvHash, lease.sessionChannelIDHash, lease.bridgeChannelID,
    lease.runtimeShardID, lease.runtimeInstanceID, lease.runtimeGenerationID, lease.ipcChannelID,
    lease.connectionNonce, lease.keyID]

/-- The request names its method, no text has a character the writers escape differently,
and the target hashes are trimmed. -/
def sameOnBothSides (method : String) : Bool :=
  method ≠ "" && (signedTexts lease method).all (fun s => (trim s).toList.all sameEscape) &&
    lease.targetDescriptorHashes.all (fun h => trim h = h && h.toList.all sameEscape)

/-- What the host has checked of a lease it signs. -/
structure Canonical (resolvedMethod : String) : Prop where
  texts : ∀ s ∈ requiredTexts lease resolvedMethod, trim s ≠ ""
  scope : lease.scopeKind = "user" ∨ lease.scopeKind = "environment"
  owner : trim lease.ownerUserHash ≠ ""
  nonces : 16 ≤ (trim lease.leaseNonce).utf8ByteSize ∧
    16 ≤ (trim lease.connectionNonce).utf8ByteSize
  effect : trim lease.effect ∈ ["read", "write", "execute", "delete", "admin"]
  execution : validExecution (trim lease.execution) (trim lease.executionID) = true
  targets : lease.targetDescriptorHashes ≠ [] ∧ validTargets [] lease.targetDescriptorHashes = true
  timeout : 0 ≤ lease.limits.timeoutMillis ∧ lease.limits.timeoutMillis ≤ maxJsonSafeInteger
  memory : 0 < lease.limits.memoryBytes ∧ lease.limits.memoryBytes ≤ maxRuntimeLeaseMemoryBytes
  payload : 0 ≤ lease.limits.maxPayloadBytes ∧ lease.limits.maxPayloadBytes ≤ maxJsonSafeInteger
  stream : 0 ≤ lease.limits.maxStreamBytesPerSecond ∧
    lease.limits.maxStreamBytesPerSecond ≤ maxJsonSafeInteger
  issued : 0 < lease.issuedAtUnixMillis ∧ lease.issuedAtUnixMillis ≤ maxJsonSafeInteger
  expires : 0 < lease.expiresAtUnixMillis ∧ lease.expiresAtUnixMillis ≤ maxJsonSafeInteger
  revisions : lease.policyRevision ≤ maxJsonSafeInteger ∧
    lease.managementRevision ≤ maxJsonSafeInteger
  epoch : 0 < lease.revokeEpoch ∧ lease.revokeEpoch ≤ maxJsonSafeInteger

theorem ite_error_eq_ok {α : Type} {c : Prop} [Decidable c] {e : LeaseError} {a : α}
    {x : Except LeaseError α} : (if c then .error e else x) = .ok a ↔ ¬ c ∧ x = .ok a := by
  split_ifs with h <;> simp [h]

variable {resolvedMethod s : String} {lease} {targets : List String}

theorem canonical_of_validate
    (h : validateRuntimeLeaseCanonicalFields lease resolvedMethod = .ok ()) :
    Canonical lease resolvedMethod := by
  unfold validateRuntimeLeaseCanonicalFields at h
  simp only [ite_error_eq_ok] at h
  obtain ⟨hte, hscope, howner, hno, hef, hex, hem, hta, hnu, -⟩ := h
  simp only [isSafe, decide_eq_true_eq, not_or, not_and_or, not_not, Nat.not_lt, Int.not_lt,
    Int.not_le, gt_iff_lt] at hscope hno hef hnu
  obtain ⟨hti, ht', hme, hm', hpa, hp', hstr, hs', hiss, hi', hexp, he', hpo, hma, hep, -⟩ := hnu
  refine
    { texts := by simpa using hte
      scope := hscope
      owner := howner
      nonces := hno
      effect := hef
      execution := by simpa using hex
      targets := ⟨hem, by simpa using hta⟩
      timeout := ⟨hti, ht'⟩
      memory := ⟨hme, hm'⟩
      payload := ⟨hpa, hp'⟩
      stream := ⟨hstr, hs'⟩
      issued := ⟨hiss, hi'⟩
      expires := ⟨hexp, he'⟩
      revisions := ⟨by exact_mod_cast hpo, by exact_mod_cast hma⟩
      epoch := ⟨Nat.pos_of_ne_zero (by omega), by exact_mod_cast hep.2⟩ }

/-! ### The runtime accepts what the host signs -/

theorem readNonce_some (field : String) (h : 16 ≤ (trim s).utf8ByteSize) :
    ∃ nonce, readNonce (some s) field = .ok nonce := by
  have hb : trim s ≠ "" := by
    intro he
    rw [he] at h
    exact absurd h (by decide)
  refine ⟨⟨trim s, trim_trim s, hb⟩, ?_⟩
  simp only [readNonce, requiredString_some hb, bind, Except.bind]
  rw [if_neg (Nat.not_lt.mpr h)]

theorem readScopeKind_some (h : s = "user" ∨ s = "environment") :
    ∃ kind, readScopeKind (some s) = .ok kind := by
  rcases h with rfl | rfl
  · exact ⟨.user, rfl⟩
  · exact ⟨.environment, rfl⟩

theorem readEffect_some (h : trim s ∈ ["read", "write", "execute", "delete", "admin"]) :
    ∃ effect, readEffect (some s) = .ok effect := by
  have hb : trim s ≠ "" := by
    intro he
    rw [he] at h
    exact absurd h (by decide)
  simp only [List.mem_cons, List.not_mem_nil, or_false] at h
  simp only [readEffect, requiredString_some hb, bind, Except.bind]
  rcases h with h | h | h | h | h <;> rw [h] <;> exact ⟨_, rfl⟩

theorem readExecution_some {id} (h : validExecution (trim s) (trim id) = true) :
    ∃ execution, readExecution (some s) (omitEmpty id) = .ok execution := by
  have hb : trim s ≠ "" := by
    intro he
    rw [he] at h
    cases h
  simp only [readExecution, requiredString_some hb, bind, Except.bind, optionalStringRef_omitEmpty]
  unfold validExecution at h
  split at h
  next hsy =>
    rw [optionalStringRef_blank (by simpa using h), hsy]
    exact ⟨.sync, rfl⟩
  next hope =>
    rw [optionalStringRef_some (by simpa using h), hope]
    exact ⟨.operation _, rfl⟩
  next hsu =>
    rw [optionalStringRef_some (by simpa using h), hsu]
    exact ⟨.subscription _, rfl⟩
  · cases h

theorem readTargetHashes_of_valid (seen : List TrimmedText)
    (h : validTargets (seen.map (·.1)) targets = true) :
    ∃ hashes, readTargetHashes seen targets = .ok hashes := by
  induction targets generalizing seen with
  | nil => exact ⟨[], rfl⟩
  | cons _ rest ih =>
    simp only [validTargets, Bool.and_eq_true, decide_eq_true_eq] at h
    obtain ⟨⟨hb, hnew⟩, hre⟩ := h
    obtain ⟨hashes, hha⟩ := ih (⟨trim _, trim_trim _, hb⟩ :: seen) hre
    rw [readTargetHashes, optionalStringRef_some hb]
    have hmem : (⟨trim _, trim_trim _, hb⟩ : TrimmedText) ∉ seen := fun hmem =>
      hnew (List.mem_map_of_mem (f := (·.1)) hmem)
    simp [hmem, hha, Except.map]

theorem readTargets_some (hne : targets ≠ []) (h : validTargets [] targets = true) :
    ∃ hashes, readTargets (some targets) = .ok hashes := by
  obtain ⟨hashes, hha⟩ := readTargetHashes_of_valid [] h
  refine ⟨hashes, ?_⟩
  cases targets with
  | nil => exact absurd rfl hne
  | cons target rest => exact hha

theorem readLimits_some (h : Canonical lease resolvedMethod) :
    ∃ limits, readLimits lease.toIpc.limits = .ok limits := by
  have hme := h.memory
  have hfi : readMemoryBytes (some lease.limits.memoryBytes.toNat) =
      .ok lease.limits.memoryBytes.toNat := by
    rw [readMemoryBytes, Option.filter_some_pos (by simpa using hme.1)]
    simp only
    rw [if_neg (by omega)]
  simp [readLimits, HostLease.toIpc, nonnegativeI64, h.timeout, h.payload, h.stream, hfi, bind,
    Except.bind, pure, Except.pure]

theorem readSignedLease_of_canonical {method} (h : Canonical lease (trim method))
    (hme : lease.method = "" ∨ trim lease.method = trim method) :
    ∃ signed, readSignedLease lease.toIpc method = .ok signed := by
  have hte := h.texts
  simp only [requiredTexts, List.forall_mem_cons, trim_trim] at hte
  have hma : ¬ (optionalStringRef lease.toIpc.method).any (·.1 ≠ trim method) = true := by
    rcases hme with hem | hsame
    · simp [HostLease.toIpc, hem, optionalStringRef, trim, trimChars]
    · have hne : trim lease.method ≠ "" := by simp [hsame, hte]
      simp [HostLease.toIpc, optionalStringRef_some hne, hsame]
  obtain ⟨nonce, hno⟩ := readNonce_some "lease_nonce" h.nonces.1
  obtain ⟨connection, hco⟩ := readNonce_some "connection_nonce" h.nonces.2
  obtain ⟨kind, hkind⟩ := readScopeKind_some h.scope
  obtain ⟨effect, hef⟩ := readEffect_some h.effect
  obtain ⟨execution, hex⟩ := readExecution_some h.execution
  obtain ⟨hashes, hha⟩ := readTargets_some h.targets.1 h.targets.2
  obtain ⟨limits, hlimits⟩ := readLimits_some h
  unfold readSignedLease
  rw [if_neg hma, hlimits]
  simp [HostLease.toIpc, requiredString_some, hte, hno, hco, hkind, hef,
    hex, hha, requiredString_omitEmpty, h.owner, positiveI64_some h.issued,
    positiveI64_some h.expires, requiredSafeU64_some h.revisions.1,
    requiredSafeU64_some h.revisions.2, requiredPositiveU64_some h.epoch, bind, Except.bind, pure,
    Except.pure]

/-- The runtime signs the same fields, with the targets trimmed. -/
theorem fields_of_readSignedLease {method signed} (h : Canonical lease (trim method))
    (hre : readSignedLease lease.toIpc method = .ok signed) : signed.fields =
      signatureFields lease (trim method) (lease.targetDescriptorHashes.map trim) := by
  obtain ⟨hnor, hmet⟩ := readSignedLease_spec hre
  simp only [WorkerLeasePayload.normalized, SignedLease.toPayload, HostLease.toIpc,
    optionalStringRef_omitEmpty, map_optionalStringRef, WorkerLeasePayload.mk.injEq,
    WorkerLeaseLimitsPayload.mk.injEq, Option.map_some, Option.some.injEq, omitEmpty_eq_some]
    at hnor
  have hsc : lease.scopeKind = signed.scopeKind.name := by
    rw [← hnor.2.2.2.2.2.2.2.1.1]
    rcases h.scope with hs | hs <;> rw [hs] <;> decide
  have hpos := h.memory.1
  have hby : lease.limits.memoryBytes = signed.limits.memoryBytes := by omega
  have hha : signed.targetsJson = .array ((lease.targetDescriptorHashes.map trim).map .string) := by
    simp [hnor, SignedLease.targetsJson]
  have hpresent {t : TrimmedText} : omitEmpty t.1 = some t.1 := if_neg t.2.2
  simp only [SignedLease.fields, signatureFields, SignedLimits.json, hnor, hmet, hsc, hby, hha,
    hpresent, Option.map_some, Option.map_map]
  rfl

/-! ### Where the texts are the same -/

theorem goUnits_eq_rustUnits_iff (s : String) :
    goFormat.units s = rustFormat.units s ↔ s.toList.all sameEscape = true := by
  rw [Format.units_eq_iff, List.all_eq_true]
  exact forall₂_congr fun c _ => goEscape_eq_rustEscape_iff c

/-- The host writes the hash as it is and the runtime the trimmed one. -/
theorem goUnits_eq_rustUnits_trim_iff (s : String) :
    goFormat.units s = rustFormat.units (trim s) ↔ trim s = s ∧ s.toList.all sameEscape = true := by
  constructor
  · intro h
    have hle := congrArg List.length h
    simp only [Format.units, List.length_map] at hle
    have htr : trim s = s := trim_eq_self_of_length hle.symm
    rw [htr] at h
    exact ⟨htr, (goUnits_eq_rustUnits_iff s).mp h⟩
  · rintro ⟨htr, hsame⟩
    rw [htr]
    exact (goUnits_eq_rustUnits_iff s).mpr hsame

theorem optional_eq_iff (s : String) :
    ((omitEmpty s).map Json.string).map (Json.map goFormat.units goFormat.number) =
        ((omitEmpty s).map Json.string).map (Json.map rustFormat.units rustFormat.number) ↔
      s.toList.all sameEscape = true := by
  unfold omitEmpty
  split_ifs with h
  · subst h
    simp
  · simp [Json.map, goUnits_eq_rustUnits_iff]

theorem targets_eq_iff (targets : List String) :
    mapElements goFormat.units goFormat.number (targets.map .string) =
        mapElements rustFormat.units rustFormat.number ((targets.map trim).map .string) ↔
      targets.all (fun h => trim h = h && h.toList.all sameEscape) = true := by
  induction targets with
  | nil => simp [mapElements]
  | cons target rest ih =>
    simp only [List.map_cons, mapElements, Json.map, List.cons.injEq, Json.string.injEq,
      goUnits_eq_rustUnits_trim_iff, ih, List.all_cons, Bool.and_eq_true, decide_eq_true_eq]

theorem goUnits_key {key} (hkey : isPlainKey key = true) :
    goFormat.units key = rustFormat.units key := by
  rw [goUnits_eq_rustUnits_iff, List.all_eq_true]
  exact fun c hc => sameEscape_letter (List.all_eq_true.mp hkey c hc)

/-- The texts that the checks leave no choice for. -/
theorem Canonical.fixed_texts (h : Canonical lease resolvedMethod) :
    runtimeLeaseSignatureSchemaVersion.toList.all sameEscape = true ∧
      runtimeLeaseTokenKind.toList.all sameEscape = true ∧
      lease.scopeKind.toList.all sameEscape = true ∧
      (trim lease.effect).toList.all sameEscape = true ∧
      (trim lease.execution).toList.all sameEscape = true := by
  refine ⟨by decide, by decide, ?_, ?_, ?_⟩
  · rcases h.scope with hs | hs <;> rw [hs] <;> decide
  · have hef := h.effect
    simp only [List.mem_cons, List.not_mem_nil, or_false] at hef
    rcases hef with hs | hs | hs | hs | hs <;> rw [hs] <;> decide
  · have hex := h.execution
    unfold validExecution at hex
    split at hex
    next hs => rw [hs]; decide
    next hs => rw [hs]; decide
    next hs => rw [hs]; decide
    · cases hex

theorem write_signatureFields_eq_iff (lease : HostLease) (method : String)
    (h : Canonical lease (trim method)) :
    goFormat.write (.object (present
        (signatureFields lease (trim method) lease.targetDescriptorHashes))) =
      rustFormat.write (.object (present
        (signatureFields lease (trim method) (lease.targetDescriptorHashes.map trim)))) ↔
      (signedTexts lease method).all (fun s => (trim s).toList.all sameEscape) = true ∧
        lease.targetDescriptorHashes.all
          (fun h => trim h = h && h.toList.all sameEscape) = true := by
  have hk : SignedLease.fieldKeys.map goFormat.units = SignedLease.fieldKeys.map rustFormat.units :=
    List.map_inj_left.mpr fun key hkey => goUnits_key (SignedLease.fieldKeys_plain key hkey)
  have hfi := h.fixed_texts
  have hlimits : ∀ key ∈ ["timeout_ms", "memory_bytes", "max_payload_bytes",
      "max_stream_bytes_per_sec"], goFormat.units key = rustFormat.units key := fun key hkey =>
    goUnits_key ((by decide : ∀ key ∈ ["timeout_ms", "memory_bytes", "max_payload_bytes",
      "max_stream_bytes_per_sec"], isPlainKey key = true) key hkey)
  simp only [List.forall_mem_cons] at hlimits
  have hnu : goFormat.number = rustFormat.number := rfl
  rw [Format.write_present_eq_iff]
  · simp only [signatureFields, List.map_cons, List.map_nil, List.cons.injEq, Option.map_some,
      Option.some.injEq, Json.map, Json.string.injEq, goUnits_eq_rustUnits_iff, optional_eq_iff,
      Json.array.injEq, targets_eq_iff, Json.object.injEq, mapMembers]
    -- the targets stand among the texts in the payload
    have hta : ∀ p q r : Prop, (p ∧ r ∧ q) ↔ r ∧ p ∧ q := fun _ _ _ => and_left_comm
    rw [and_comm (b := lease.targetDescriptorHashes.all _ = true)]
    simp only [hfi, hlimits, hnu, hta _ _ (lease.targetDescriptorHashes.all _ = true),
      signedTexts, List.all_cons, List.all_nil, Bool.and_eq_true, and_true, true_and]
  · exact hk
  · have hdi := List.Nodup.map (rustFormat.units_injective rustEscape_injective)
      SignedLease.fieldKeys_distinct
    rw [← hk] at hdi
    exact hdi

theorem Canonical.method (h : Canonical lease resolvedMethod) : trim resolvedMethod ≠ "" :=
  h.texts _ (by simp [requiredTexts])

theorem canonical_of_signed {method : String} {bytes : ByteArray}
    (h : canonicalRuntimeLeaseSignaturePayload lease method = .ok bytes) :
    ¬ (lease.method ≠ "" ∧ method ≠ "" ∧ trim lease.method ≠ trim method) ∧
      Canonical lease (runtimeLeaseSignatureMethod lease method) ∧
      bytes = (String.ofList (goFormat.write (.object (present (signatureFields lease
        (runtimeLeaseSignatureMethod lease method) lease.targetDescriptorHashes))))).toUTF8 := by
  rw [canonicalRuntimeLeaseSignaturePayload, ite_error_eq_ok] at h
  obtain ⟨hme, h⟩ := h
  cases hva : validateRuntimeLeaseCanonicalFields lease
      (runtimeLeaseSignatureMethod lease method) with
  | error =>
    rw [hva] at h
    cases h
  | ok =>
    rw [hva] at h
    exact ⟨hme, canonical_of_validate hva, (Except.ok.inj h).symm⟩

/-- What the runtime rebuilds of a lease that passed the host's checks. -/
theorem rebuilt_of_canonical {method} (h : Canonical lease (trim method))
    (hme : lease.method = "" ∨ trim lease.method = trim method) :
    (runtimeLeaseSignaturePayloadJson lease.toIpc method).map String.toUTF8 =
      .ok (String.ofList (rustFormat.write (.object (present (signatureFields lease (trim method)
        (lease.targetDescriptorHashes.map trim)))))).toUTF8 := by
  obtain ⟨signed, hsi⟩ := readSignedLease_of_canonical h hme
  rw [runtimeLeaseSignaturePayloadJson, hsi, ← fields_of_readSignedLease h hsi,
    ← SignedLease.toList_payloadJson, String.ofList_toList]
  rfl

/-- A lease that names its method and is signed without one is refused by the runtime. -/
theorem runtime_refuses_empty_method (h : Canonical lease (runtimeLeaseSignatureMethod lease "")) :
    readSignedLease lease.toIpc "" =
      .error (.protocolViolation "runtime lease method mismatch") := by
  have hne : trim lease.method ≠ "" := trim_trim lease.method ▸ h.method
  have hma : (optionalStringRef lease.toIpc.method).any (·.1 ≠ trim "") = true := by
    have hem : trim "" = "" := rfl
    simp [HostLease.toIpc, optionalStringRef_some hne, hem, hne]
  rw [readSignedLease, if_pos hma]
  rfl

/-- The runtime rebuilds the bytes that the host signed exactly for the leases that read
the same on both sides. -/
theorem rebuilt_bytes_eq_signed_iff {lease : HostLease} {method : String} {bytes : ByteArray}
    (h : canonicalRuntimeLeaseSignaturePayload lease method = .ok bytes) :
    (runtimeLeaseSignaturePayloadJson lease.toIpc method).map String.toUTF8 = .ok bytes ↔
      sameOnBothSides lease method = true := by
  obtain ⟨hmethod, hcanonical, hbytes⟩ := canonical_of_signed h
  rw [hbytes]
  by_cases hnone : method = ""
  · subst hnone
    rw [runtimeLeaseSignaturePayloadJson, runtime_refuses_empty_method hcanonical]
    simp [sameOnBothSides, Except.map]
  · have hsame : lease.method = "" ∨ trim lease.method = trim method := by
      by_contra hdiffer
      exact hmethod ⟨fun he => hdiffer (.inl he), hnone, fun he => hdiffer (.inr he)⟩
    have hresolved : runtimeLeaseSignatureMethod lease method = trim method := by
      refine if_pos fun hblank => hcanonical.method ?_
      have hlease : trim lease.method = "" := by
        rcases hsame with he | he
        · rw [he]
          rfl
        · rw [he, hblank]
      rw [runtimeLeaseSignatureMethod, if_neg (by simp [hblank]), trim_trim, hlease]
    rw [hresolved] at hcanonical ⊢
    rw [rebuilt_of_canonical hcanonical hsame]
    simp only [Except.ok.injEq, String.toUTF8_eq_toByteArray, String.toByteArray_inj,
      String.ofList_inj]
    rw [eq_comm, write_signatureFields_eq_iff lease method hcanonical]
    simp [sameOnBothSides, hnone]

/-- A lease with short fields, signed for the method `m`. -/
def plainHostLease : HostLease :=
  ⟨"l", "t", "0123456789abcdef", "p", "1", "f", "i", "user", "", "", "u", "e", "", "", "g", "pi",
    "m", "read", "sync", "", "a", ["h"], ⟨0, 1, 0, 0⟩, 0, 0, 1, "s", "r", "c", "0123456789abcdef",
    "k", 1, 2⟩

theorem rebuilt_bytes_eq_signed_plain :
    (∃ bytes, canonicalRuntimeLeaseSignaturePayload plainHostLease "m" = .ok bytes ∧
      (runtimeLeaseSignaturePayloadJson plainHostLease.toIpc "m").map
        String.toUTF8 = .ok bytes) := by
  obtain ⟨bytes, hbytes⟩ :
      ∃ bytes, canonicalRuntimeLeaseSignaturePayload plainHostLease "m" = .ok bytes := ⟨_, rfl⟩
  exact ⟨bytes, hbytes, (rebuilt_bytes_eq_signed_iff hbytes).mpr (by decide)⟩

def ampersandHostLease : HostLease := { plainHostLease with pluginVersion := "1&2" }

theorem signed_of_valid {method}
    (hme : ¬ (lease.method ≠ "" ∧ method ≠ "" ∧ trim lease.method ≠ trim method))
    (hva : validateRuntimeLeaseCanonicalFields lease
      (runtimeLeaseSignatureMethod lease method) = .ok ()) :
    canonicalRuntimeLeaseSignaturePayload lease method =
      .ok (String.ofList (goFormat.write (.object (present (signatureFields lease
        (runtimeLeaseSignatureMethod lease method) lease.targetDescriptorHashes))))).toUTF8 := by
  rw [canonicalRuntimeLeaseSignaturePayload, if_neg hme, hva]
  rfl

/-- The host accepts and signs it, and the runtime rebuilds other bytes. -/
theorem ampersand_lease_rebuilt_differently :
    validateRuntimeLeaseCanonicalFields ampersandHostLease "m" = .ok () ∧
      ∃ signed rebuilt,
        canonicalRuntimeLeaseSignaturePayload ampersandHostLease "m" = .ok signed ∧
        (runtimeLeaseSignaturePayloadJson ampersandHostLease.toIpc "m").map String.toUTF8 =
          .ok rebuilt ∧
        signed ≠ rebuilt := by
  have hvalid : validateRuntimeLeaseCanonicalFields ampersandHostLease (trim "m") = .ok () := by
    decide
  have hcanonical := canonical_of_validate hvalid
  refine ⟨by decide, _, _, signed_of_valid (by decide) hvalid,
    rebuilt_of_canonical hcanonical (.inr (by decide)), fun hsame => ?_⟩
  rw [String.toUTF8_eq_toByteArray, String.toUTF8_eq_toByteArray, String.toByteArray_inj,
    String.ofList_inj] at hsame
  have hchars := (write_signatureFields_eq_iff ampersandHostLease "m" hcanonical).mp hsame
  exact absurd hchars.1 (by decide)

end RedevPlugin.Lease
