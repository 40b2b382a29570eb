import RedevPlugin.Lease.Payload

/-! The signed bytes of a lease tell all its signed fields. The text is a JSON
object, its keys are distinct and the same for all leases, and the writer escapes
injectively, so no contents of one field can be read as another field. -/

namespace RedevPlugin.Lease

open Text Json Wire

theorem ScopeKind.name_injective : Function.Injective ScopeKind.name := by
  intro a b h
  cases a <;> cases b <;> simp [ScopeKind.name] at h ⊢

theorem Effect.name_injective : Function.Injective Effect.name := by
  intro a b h
  cases a <;> cases b <;> simp [Effect.name] at h ⊢

theorem Execution.ext_name_id {a b : Execution} (hna : a.name = b.name) (hid : a.id = b.id) :
    a = b := by
  cases a <;> cases b <;> simp_all [Execution.name, Execution.id]

theorem string_injective :
    Function.Injective fun t : TrimmedText => (Json.string t.1 : Json String ℤ) :=
  fun _ _ h => Subtype.ext (Json.string.inj h)

theorem SignedLimits.json_injective : Function.Injective SignedLimits.json := by
  intro a b h
  cases a
  cases b
  simpa [SignedLimits.json, Int.natCast_inj] using h

namespace SignedLease

theorem fields_injective : Function.Injective fields := by
  intro a b h
  have hte : ∀ s t : TrimmedText, s.1 = t.1 ↔ s = t := fun _ _ => Subtype.ext_iff.symm
  have hopt : ∀ s t : Option TrimmedText,
      s.map (fun v => (Json.string v.1 : Json String ℤ)) = t.map (fun v => .string v.1) ↔ s = t :=
    fun _ _ => (Option.map_injective string_injective).eq_iff
  have hta : ∀ s t : List TrimmedText,
      s.map (fun v => (Json.string v.1 : Json String ℤ)) = t.map (fun v => .string v.1) ↔ s = t :=
    fun _ _ => (List.map_injective_iff.mpr string_injective).eq_iff
  simp only [fields, targetsJson, List.cons.injEq, Prod.mk.injEq, true_and, Option.some.injEq,
    and_true, Json.string.injEq, Json.number.injEq, Json.array.injEq, hte, hopt, hta,
    ScopeKind.name_injective.eq_iff, Effect.name_injective.eq_iff,
    SignedLimits.json_injective.eq_iff, Int.natCast_inj] at h
  have hex : a.execution = b.execution := Execution.ext_name_id (by tauto) (by tauto)
  cases a
  cases b
  simp only [SignedLease.mk.injEq] at h hex ⊢
  tauto

theorem payloadJson_injective : Function.Injective payloadJson := by
  intro a b h
  have hwrite : rustFormat.write (.object (present a.fields)) =
      rustFormat.write (.object (present b.fields)) := by
    rw [← toList_payloadJson, ← toList_payloadJson, h]
  have hob := rustFormat.write_injective rustEscape_injective decimal_injective hwrite
  apply fields_injective
  exact present_inj (by rw [keys_fields, keys_fields])
    (by rw [keys_fields]; exact fieldKeys_distinct)
    (Json.object.inj hob)

end SignedLease

/-- The lease with its texts trimmed and its blank texts dropped, as the encoder uses them;
its method is not signed, the one of the request is. -/
def WorkerLeasePayload.normalized (lease : WorkerLeasePayload) : WorkerLeasePayload :=
  let text (value : Option String) : Option String := (optionalStringRef value).map (·.1)
  { lease with
    leaseId := text lease.leaseId, tokenId := text lease.tokenId
    leaseNonce := text lease.leaseNonce, pluginId := text lease.pluginId
    pluginVersion := text lease.pluginVersion, activeFingerprint := text lease.activeFingerprint
    invocationId := text lease.invocationId, scopeKind := text lease.scopeKind
    surfaceInstanceId := text lease.surfaceInstanceId
    ownerSessionHash := text lease.ownerSessionHash, ownerUserHash := text lease.ownerUserHash
    ownerEnvHash := text lease.ownerEnvHash
    sessionChannelIdHash := text lease.sessionChannelIdHash
    bridgeChannelId := text lease.bridgeChannelId
    runtimeGenerationId := text lease.runtimeGenerationId
    pluginInstanceId := text lease.pluginInstanceId, method := none, effect := text lease.effect
    execution := text lease.execution, executionId := text lease.executionId
    auditCorrelationId := text lease.auditCorrelationId
    targetDescriptorHashes := lease.targetDescriptorHashes.map (·.map trim)
    runtimeShardId := text lease.runtimeShardId, runtimeInstanceId := text lease.runtimeInstanceId
    ipcChannelId := text lease.ipcChannelId, connectionNonce := text lease.connectionNonce
    keyId := text lease.keyId }

/-- The normalised lease that the signed fields stand for. -/
def SignedLease.toPayload (lease : SignedLease) : WorkerLeasePayload where
  leaseId := some lease.leaseId.1
  tokenId := some lease.tokenId.1
  leaseNonce := some lease.leaseNonce.1
  pluginId := some lease.pluginId.1
  pluginVersion := some lease.pluginVersion.1
  activeFingerprint := some lease.activeFingerprint.1
  invocationId := some lease.invocationId.1
  scopeKind := some lease.scopeKind.name
  surfaceInstanceId := lease.surfaceInstanceId.map (·.1)
  ownerSessionHash := lease.ownerSessionHash.map (·.1)
  ownerUserHash := some lease.ownerUserHash.1
  ownerEnvHash := some lease.ownerEnvHash.1
  sessionChannelIdHash := lease.sessionChannelIdHash.map (·.1)
  bridgeChannelId := lease.bridgeChannelId.map (·.1)
  runtimeGenerationId := some lease.runtimeGenerationId.1
  pluginInstanceId := some lease.pluginInstanceId.1
  method := none
  effect := some lease.effect.name
  execution := some lease.execution.name
  executionId := lease.execution.id.map (·.1)
  auditCorrelationId := some lease.auditCorrelationId.1
  targetDescriptorHashes := some (lease.targetDescriptorHashes.map (·.1))
  limits := some
    { timeoutMs := some lease.limits.timeoutMs, memoryBytes := some lease.limits.memoryBytes
      maxPayloadBytes := some lease.limits.maxPayloadBytes
      maxStreamBytesPerSec := some lease.limits.maxStreamBytesPerSec }
  policyRevision := some lease.policyRevision
  managementRevision := some lease.managementRevision
  revokeEpoch := some lease.revokeEpoch
  runtimeShardId := some lease.runtimeShardId.1
  runtimeInstanceId := some lease.runtimeInstanceId.1
  ipcChannelId := some lease.ipcChannelId.1
  connectionNonce := some lease.connectionNonce.1
  keyId := some lease.keyId.1
  issuedAtUnixMs := some lease.issuedAtUnixMs
  expiresAtUnixMs := some lease.expiresAtUnixMs

variable {value : Option String} {targets : List TrimmedText}

theorem text_of_readScopeKind {kind} (h : readScopeKind value = .ok kind) :
    (optionalStringRef value).map (·.1) = some kind.name := by
  obtain ⟨text, hte, hkind⟩ := bind_eq_ok.mp h
  rw [requiredString_eq_ok.mp hte]
  split at hkind <;> cases hkind <;> simp_all [ScopeKind.name]

theorem text_of_readEffect {effect} (h : readEffect value = .ok effect) :
    (optionalStringRef value).map (·.1) = some effect.name := by
  obtain ⟨text, hte, hef⟩ := bind_eq_ok.mp h
  rw [requiredString_eq_ok.mp hte]
  split at hef <;> cases hef <;> simp_all [Effect.name]

theorem texts_of_readExecution {id execution} (h : readExecution value id = .ok execution) :
    (optionalStringRef value).map (·.1) = some execution.name ∧
      optionalStringRef id = execution.id := by
  obtain ⟨text, hte, hex⟩ := bind_eq_ok.mp h
  rw [requiredString_eq_ok.mp hte]
  split at hex <;> cases hex <;> simp_all [Execution.name, Execution.id]

theorem text_of_readNonce {field nonce} (h : readNonce value field = .ok nonce) :
    optionalStringRef value = some nonce := by
  obtain ⟨text, hte, hno⟩ := bind_eq_ok.mp h
  split_ifs at hno
  cases hno
  exact requiredString_eq_ok.mp hte

theorem texts_of_readTargetHashes {seen hashes} (h : readTargetHashes seen hashes = .ok targets) :
    hashes.map trim = targets.map (·.1) := by
  revert h
  fun_induction readTargetHashes seen hashes generalizing targets <;> try rintro ⟨⟩
  · rfl
  · rename_i hte _ ih
    intro h
    cases hre : readTargetHashes _ _ with rw [hre] at h
    | error => cases h
    | ok =>
      cases h
      rw [List.map_cons, List.map_cons, ih hre, eq_trim_of_optionalStringRef hte]

theorem texts_of_readTargets {value} (h : readTargets value = .ok targets) :
    value.map (·.map trim) = some (targets.map (·.1)) := by
  unfold readTargets at h
  split at h
  · cases h
  · cases h
  · rw [Option.map_some, texts_of_readTargetHashes h]

theorem eq_some_of_readMemoryBytes {value n} (h : readMemoryBytes value = .ok n) :
    value = some n := by
  revert h
  fun_cases readMemoryBytes value <;> rintro ⟨⟩
  exact (Option.filter_eq_some_iff.mp ‹_›).1

theorem eq_of_readLimits {value limits} (h : readLimits value = .ok limits) : value = some
      { timeoutMs := some limits.timeoutMs, memoryBytes := some limits.memoryBytes
        maxPayloadBytes := some limits.maxPayloadBytes
        maxStreamBytesPerSec := some limits.maxStreamBytesPerSec } := by
  unfold readLimits at h
  split at h
  · cases h
  next payload =>
    simp only [bind_eq_ok] at h
    obtain ⟨timeout, hti, memory, hme, bytes, hb, stream, hstr, heq⟩ := h
    cases heq
    rw [← eq_some_of_nonnegativeI64 hti, ← eq_some_of_readMemoryBytes hme,
      ← eq_some_of_nonnegativeI64 hb, ← eq_some_of_nonnegativeI64 hstr]

/-- What the encoder reads is the normal form of the lease, and the method. -/
theorem readSignedLease_spec {lease method signed} (h : readSignedLease lease method = .ok signed) :
    lease.normalized = signed.toPayload ∧ signed.method = trim method := by
  unfold readSignedLease at h
  split_ifs at h
  · cases h
  simp only [bind_eq_ok, requiredString_eq_ok] at h
  obtain ⟨_, hle, _, hto, _, hexp, _, hiss, _, hno, _, hin, _, hpl, _, hve, _, hfi, _, hinv, _, hsc,
    _, hef, _, -, _, howner, _, hex, _, hau, _, henv, _, hta, _, hlimits, _, hpo, _, hma, _, hep,
    _, hsh, _, hru, _, hg, _, hch, _, hco, _, hkey, h⟩ := h
  cases h
  simp [WorkerLeasePayload.normalized, SignedLease.toPayload, hle, hto, hin, hpl, hve, hfi, hinv,
    eq_some_of_positiveI64 hexp, eq_some_of_positiveI64 hiss, text_of_readNonce hno,
    text_of_readScopeKind hsc, text_of_readEffect hef, howner, texts_of_readExecution hex, hau,
    henv, texts_of_readTargets hta, eq_of_readLimits hlimits, eq_some_of_requiredSafeU64 hpo,
    eq_some_of_requiredSafeU64 hma, eq_some_of_requiredPositiveU64 hep, hsh, hru, hg, hch,
    text_of_readNonce hco, hkey]

/-- Two leases with the same signed bytes have the same signed fields. -/
theorem signature_payload_unambiguous {a b : WorkerLeasePayload} {m n p q : String}
    (ha : runtimeLeaseSignaturePayloadJson a m = .ok p)
    (hb : runtimeLeaseSignaturePayloadJson b n = .ok q) (hbytes : p.toUTF8 = q.toUTF8) :
    a.normalized = b.normalized ∧ trim m = trim n := by
  have hread : ∀ {lease method payload},
      runtimeLeaseSignaturePayloadJson lease method = .ok payload →
      ∃ signed, readSignedLease lease method = .ok signed ∧ signed.payloadJson = payload := by
    intro lease method payload h
    unfold runtimeLeaseSignaturePayloadJson at h
    cases hsigned : readSignedLease lease method with rw [hsigned] at h
    | error => cases h
    | ok signed => exact ⟨signed, rfl, by simpa [Except.map] using h⟩
  obtain ⟨signed, hsigned, rfl⟩ := hread ha
  obtain ⟨other, hother, rfl⟩ := hread hb
  obtain rfl : signed = other :=
    SignedLease.payloadJson_injective (String.toByteArray_inj.mp hbytes)
  obtain ⟨hnormal, hmethod⟩ := readSignedLease_spec hsigned
  obtain ⟨hnormal', hmethod'⟩ := readSignedLease_spec hother
  exact ⟨hnormal.trans hnormal'.symm, hmethod.symm.trans hmethod'⟩

def shortLease : WorkerLeasePayload :=
  ⟨some "l", some "t", some "0123456789abcdef", some "p", some "1", some "f", some "i", some "user",
    none, none, some "u", some "e", none, none, some "g", some "pi", some "m", some "read",
    some "sync", none, some "a", some ["h"], some ⟨some 0, some 1, some 0, some 0⟩, some 0, some 0,
    some 1, some "s", some "r", some "c", some "0123456789abcdef", some "k", some 1, some 2⟩

/-- The same lease with white space around a hash and a blank execution id. -/
def paddedLease : WorkerLeasePayload :=
  { shortLease with targetDescriptorHashes := some [" h\n"], executionId := some " " }

theorem signature_payload_unambiguous_padded :
    paddedLease ≠ shortLease ∧ paddedLease.normalized = shortLease.normalized ∧
      trim " m" = trim "m" := by
  obtain ⟨signed, hsigned⟩ : ∃ signed, readSignedLease shortLease "m" = .ok signed := ⟨_, rfl⟩
  have hpadded : readSignedLease paddedLease " m" = .ok signed := hsigned
  refine ⟨by decide, signature_payload_unambiguous (p := signed.payloadJson)
    (q := signed.payloadJson) ?_ ?_ rfl⟩
  · rw [runtimeLeaseSignaturePayloadJson, hpadded]
    rfl
  · rw [runtimeLeaseSignaturePayloadJson, hsigned]
    rfl

end RedevPlugin.Lease
