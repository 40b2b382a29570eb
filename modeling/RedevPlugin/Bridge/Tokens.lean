import RedevPlugin.Foundation.Buckets
import RedevPlugin.Session.FenceStores

/-! The token manager of the bridge. It keeps a record for each token under the hash of
its text, an index by kind and id, and indexes by plugin, by surface and by session that
the revocations go through. A floor for each plugin refuses tokens of revoked epochs. The
hash, the texts that are drawn at random, the readings of the clock and the order in which
a loop goes over a map come from outside. Times are in nanoseconds. -/

namespace RedevPlugin.Bridge

open Session (SessionScope ResourceScope ScopeKind validOwnerHash maxSafeInteger zeroTime)
open Text (trim blank)

/-! ### Records -/

inductive TokenKind where
  | assetTicket
  | assetSession
  | pluginGatewayToken
  | confirmationToken
  | handleGrant
  /-- Any other text. -/
  | other (text : String)
  deriving DecidableEq

def TokenKind.text : TokenKind → String
  | .assetTicket => "asset_ticket"
  | .assetSession => "asset_session"
  | .pluginGatewayToken => "plugin_gateway_token"
  | .confirmationToken => "confirmation_token"
  | .handleGrant => "handle_grant"
  | .other text => text

inductive TokenUse where
  | singleUse
  | reusable
  | other (text : String)
  deriving DecidableEq

inductive TokenError where
  | invalid
  | expired
  | replay
  | audience
  | kind
  | revoked
  | alreadyBound
  | missingAudience
  | capacity
  | pluginCapacity
  | ttlExceeded
  | revokeFloorCapacity
  | revision
  | limits
  | resourceScope
  | useRequired (kind : TokenKind) (expected : TokenUse)
  | expiresAtRequired
  | notSingleUse (kind : TokenKind)
  | random
  | hashCollision
  | idCollision

def ResourceScope.zero : ResourceScope := ⟨.other "", "", ""⟩

structure Audience where
  pluginID : String := ""
  pluginInstanceID : String := ""
  pluginVersion : String := ""
  activeFingerprint : String := ""
  surfaceID : String := ""
  surfaceInstanceID : String := ""
  entryPath : String := ""
  entrySHA256 : String := ""
  assetSessionNonce : String := ""
  routeRole : String := ""
  ownerSessionHash : String := ""
  ownerUserHash : String := ""
  ownerEnvHash : String := ""
  sessionChannelIDHash : String := ""
  bridgeChannelID : String := ""
  runtimeInstanceID : String := ""
  runtimeGenerationID : String := ""
  runtimeShardID : String := ""
  ipcChannelID : String := ""
  connectionNonce : String := ""
  auditCorrelationID : String := ""
  handleID : String := ""
  confirmationID : String := ""
  method : String := ""
  requestHash : String := ""
  planHash : String := ""
  targetDescriptorSHA256 : String := ""
  resourceScope : ResourceScope := ResourceScope.zero
  deriving DecidableEq

structure RevisionBinding where
  policyRevision : ℕ
  managementRevision : ℕ
  revokeEpoch : ℕ
  deriving DecidableEq

structure Limits where
  maxBytesPerSecond : ℤ := 0
  maxTotalBytes : ℤ := 0

structure TokenRecord where
  kind : TokenKind
  tokenID : String
  tokenHash : String
  audience : Audience
  revision : RevisionBinding
  issuedAt : ℤ
  expiresAt : ℤ
  nonce : String
  use : TokenUse
  limits : Limits
  consumed : Bool := false
  consumedAt : Option ℤ := none
  revoked : Bool := false
  revokedAt : Option ℤ := none
  boundBridgeChannelID : String := ""

/-- The surface a generation of tokens is minted for. -/
structure SurfaceSession where
  (pluginID pluginInstanceID pluginVersion surfaceInstanceID surfaceID activeFingerprint entryPath
    entrySHA256 assetSessionNonce routeRole runtimeGenerationID ownerSessionHash ownerUserHash
    ownerEnvHash sessionChannelIDHash bridgeNonce : String)
  policyRevision : ℕ
  managementRevision : ℕ
  revokeEpoch : ℕ
  createdAt : ℤ
  expiresAt : ℤ

def SurfaceSession.audience (s : SurfaceSession) (bridgeChannelID : String) : Audience where
  pluginID := s.pluginID
  pluginInstanceID := s.pluginInstanceID
  pluginVersion := s.pluginVersion
  activeFingerprint := s.activeFingerprint
  surfaceID := s.surfaceID
  surfaceInstanceID := s.surfaceInstanceID
  entryPath := s.entryPath
  entrySHA256 := s.entrySHA256
  assetSessionNonce := s.assetSessionNonce
  routeRole := s.routeRole
  ownerSessionHash := s.ownerSessionHash
  ownerUserHash := s.ownerUserHash
  ownerEnvHash := s.ownerEnvHash
  sessionChannelIDHash := s.sessionChannelIDHash
  bridgeChannelID
  runtimeGenerationID := s.runtimeGenerationID

def SurfaceSession.revision (s : SurfaceSession) : RevisionBinding :=
  ⟨s.policyRevision, s.managementRevision, s.revokeEpoch⟩

/-! ### Keys of the indexes -/

variable (kind : TokenKind) (audience : Audience)

def tokenAudienceOwnerEnvHash : Except TokenError String :=
  match kind with
  | .handleGrant =>
    if !audience.resourceScope.valid then .error .resourceScope
    else .ok audience.resourceScope.ownerEnvHash
  | .other _ => .error .kind
  | _ =>
    if audience.resourceScope ≠ ResourceScope.zero then .error .audience
    else .ok (trim audience.ownerEnvHash)

def ownerPluginIndexKey (ownerEnvHash pluginInstanceID : String) : Except TokenError String :=
  let ownerEnvHash := trim ownerEnvHash
  let pluginInstanceID := trim pluginInstanceID
  if ownerEnvHash = "" ∨ pluginInstanceID = "" then .error .missingAudience
  else .ok (ownerEnvHash ++ "\x00" ++ pluginInstanceID)

def ownerSurfaceIndexKey (ownerEnvHash pluginInstanceID surfaceInstanceID : String) :
    Except TokenError String :=
  match ownerPluginIndexKey ownerEnvHash pluginInstanceID with
  | .error e => .error e
  | .ok pluginKey =>
    let surfaceInstanceID := trim surfaceInstanceID
    if surfaceInstanceID = "" then .error .missingAudience
    else .ok (pluginKey ++ "\x00" ++ surfaceInstanceID)

def tokenPluginIndexKey : Except TokenError String :=
  match tokenAudienceOwnerEnvHash kind audience with
  | .error e => .error e
  | .ok ownerEnvHash => ownerPluginIndexKey ownerEnvHash audience.pluginInstanceID

/-- A key, or the empty text in place of an error. -/
def keyOrEmpty : Except TokenError String → String
  | .error _ => ""
  | .ok key => key

def tokenSurfaceIndexKey : String :=
  keyOrEmpty (ownerSurfaceIndexKey audience.ownerEnvHash audience.pluginInstanceID
    audience.surfaceInstanceID)

def Audience.sessionScope (a : Audience) : SessionScope :=
  ⟨a.ownerSessionHash, a.ownerUserHash, a.ownerEnvHash, a.sessionChannelIDHash⟩

def tokenAudienceSessionScope : Except TokenError SessionScope :=
  if audience.sessionScope.valid then .ok audience.sessionScope else .error .audience

/-- The scope of an audience, or the zero value in place of an error. -/
def tokenSessionIndexKey : SessionScope :=
  match tokenAudienceSessionScope audience with
  | .error _ => ⟨"", "", "", ""⟩
  | .ok scope => scope

def tokenIDIndexKey (tokenID : String) : String := kind.text ++ "\x00" ++ tokenID

/-! ### Requests -/

structure MintRequest where
  kind : TokenKind
  use : Option TokenUse := none
  audience : Audience
  revision : RevisionBinding
  expiresAt : ℤ
  now : ℤ
  limits : Limits := {}

structure MintedToken where
  record : TokenRecord
  token : String

structure ValidateRequest where
  kind : TokenKind
  token : String
  audience : Audience
  revision : RevisionBinding
  now : ℤ
  consume : Bool := false
  /-- The bridge channel to bind the token to. -/
  bind : Option String := none

structure ValidateTokenIDRequest where
  kind : TokenKind
  tokenID : String
  audience : Audience
  revision : RevisionBinding
  now : ℤ
  consume : Bool := false

structure InspectRequest where
  kind : TokenKind
  token : String
  now : ℤ

/-- The three random texts of a token; none when the source of randomness fails. -/
structure Draws where
  id : Option String
  nonce : Option String
  secret : Option String

/-- The time of a request, or the clock for the zero time. -/
def effectiveTime (clock now : ℤ) : ℤ := if now = zeroTime then clock else now

/-- `Sub` of two times, a `Duration`. -/
def timeSub (a b : ℤ) : ℤ := max (-2 ^ 63) (min (2 ^ 63 - 1) (a - b))

def defaultTokenUse : TokenKind → TokenUse
  | .assetTicket | .confirmationToken => .singleUse
  | _ => .reusable

def validTokenKind : TokenKind → Bool
  | .other _ => false
  | _ => true

def validNonnegativeSafeInt64 (value : ℤ) : Bool := 0 ≤ value && value ≤ maxSafeInteger

def validateRevisionBinding (revision : RevisionBinding) : Bool :=
  revision.policyRevision ≤ maxSafeInteger && revision.managementRevision ≤ maxSafeInteger &&
    0 < revision.revokeEpoch && revision.revokeEpoch ≤ maxSafeInteger

def requiredFields (a : Audience) : List String :=
  let surface := [a.pluginID, a.pluginVersion, a.surfaceID, a.surfaceInstanceID, a.entryPath,
    a.entrySHA256, a.assetSessionNonce, a.routeRole, a.ownerSessionHash, a.ownerUserHash,
    a.ownerEnvHash, a.sessionChannelIDHash]
  match kind with
  | .assetTicket | .assetSession => surface ++ [a.runtimeGenerationID]
  | .pluginGatewayToken => surface ++ [a.bridgeChannelID, a.runtimeGenerationID]
  | .confirmationToken =>
    surface ++ [a.bridgeChannelID, a.confirmationID, a.method, a.requestHash, a.planHash,
      a.targetDescriptorSHA256, a.runtimeGenerationID]
  | .handleGrant =>
    [a.runtimeGenerationID, a.ownerSessionHash, a.ownerUserHash, a.ownerEnvHash,
      a.sessionChannelIDHash, a.handleID, a.method]
  | .other _ => []

def validateTokenAudience : Except TokenError Unit :=
  match tokenAudienceOwnerEnvHash kind audience with
  | .error e => .error e
  | .ok _ =>
    if !blank audience.ownerUserHash && !blank audience.ownerEnvHash &&
        !(ResourceScope.mk .user audience.ownerEnvHash audience.ownerUserHash).valid then
      .error .audience
    else if (requiredFields kind audience).any blank then .error .missingAudience
    else
      match kind with
      | .handleGrant =>
        if audience.resourceScope.ownerEnvHash ≠ audience.ownerEnvHash ∨
            (audience.resourceScope.kind = .user ∧
              audience.resourceScope.ownerUserHash ≠ audience.ownerUserHash) then
          .error .audience
        else .ok ()
      | .other _ => .error .kind
      | _ => .ok ()

def validateMintRequest (req : MintRequest) (clock : ℤ) : Except TokenError Unit :=
  if !validTokenKind req.kind then .error .kind
  else if req.use.isSome ∧ req.use ≠ some (defaultTokenUse req.kind) then
    .error (.useRequired req.kind (defaultTokenUse req.kind))
  else if blank req.audience.pluginInstanceID || blank req.audience.activeFingerprint then
    .error .missingAudience
  else
    match validateTokenAudience req.kind req.audience with
    | .error e => .error e
    | .ok () =>
      if !validateRevisionBinding req.revision then .error .revision
      else if !validNonnegativeSafeInt64 req.limits.maxBytesPerSecond ||
          !validNonnegativeSafeInt64 req.limits.maxTotalBytes then .error .limits
      else if req.expiresAt = zeroTime then .error .expiresAtRequired
      else if req.expiresAt ≤ effectiveTime clock req.now then .error .expired
      else .ok ()

def idText : TokenKind → String
  | .assetTicket => "at_"
  | .assetSession => "as_"
  | .pluginGatewayToken => "pgt_"
  | .confirmationToken => "ct_"
  | .handleGrant => "hg_"
  | .other _ => "tok_"

/-! ### The manager -/

structure TokenManagerOptions where
  maxRecords : ℤ := 0
  maxRecordsPerPlugin : ℤ := 0
  maxRevokeFloors : ℤ := 0
  maxTTL : ℤ := 0

variable (options : TokenManagerOptions)

def normalizeTokenManagerOptions : TokenManagerOptions :=
  let maxRecords := if options.maxRecords ≤ 0 then 16384 else options.maxRecords
  let maxRecordsPerPlugin :=
    if options.maxRecordsPerPlugin ≤ 0 then 2048 else options.maxRecordsPerPlugin
  { maxRecords
    maxRecordsPerPlugin := if maxRecordsPerPlugin > maxRecords then maxRecords
      else maxRecordsPerPlugin
    maxRevokeFloors := if options.maxRevokeFloors ≤ 0 then 4096 else options.maxRevokeFloors
    maxTTL := if options.maxTTL ≤ 0 then 15 * 60 * 10 ^ 9 else options.maxTTL }

structure TokenManager where
  options : TokenManagerOptions
  /-- By the hash of the token. -/
  records : Table String TokenRecord := ∅
  idIndex : Table String String := ∅
  pluginIndex : Buckets String String := .empty
  surfaceIndex : Buckets String String := .empty
  sessionIndex : Buckets SessionScope String := .empty
  pluginRevokeFloors : Table String ℕ := ∅
  revokeFloorsSaturated : Bool := false

def newTokenManager : TokenManager := { options := normalizeTokenManagerOptions options }

/-- The keys of a map in the order in which a loop meets them. -/
def Lists (order : List String) (keys : Finset String) : Prop := order.Nodup ∧ order.toFinset = keys

instance (order : List String) (keys : Finset String) : Decidable (Lists order keys) :=
  inferInstanceAs (Decidable (_ ∧ _))

abbrev SessionTokenRevocationCounts : Type := TokenKind → ℕ

def SessionTokenRevocationCounts.increment (counts : SessionTokenRevocationCounts) :
    TokenKind → SessionTokenRevocationCounts
  | .other _ => counts
  | kind => Function.update counts kind (counts kind + 1)

def addTokenIndexEntry (index : Buckets String String) (key tokenHash : String) :
    Buckets String String :=
  if blank key then index else index.add key tokenHash

def addTokenSessionIndexEntry (index : Buckets SessionScope String) (scope : SessionScope)
    (tokenHash : String) : Buckets SessionScope String :=
  if !scope.valid then index else index.add scope tokenHash

def TokenRecord.pluginKey (r : TokenRecord) : String :=
  keyOrEmpty (tokenPluginIndexKey r.kind r.audience)

namespace TokenManager

variable (hashToken : String → String) (s : TokenManager)

def addRecordLocked (record : TokenRecord) : TokenManager :=
  { s with
    records := s.records.insert record.tokenHash record
    idIndex := s.idIndex.insert (tokenIDIndexKey record.kind record.tokenID) record.tokenHash
    pluginIndex := addTokenIndexEntry s.pluginIndex record.pluginKey record.tokenHash
    surfaceIndex :=
      addTokenIndexEntry s.surfaceIndex (tokenSurfaceIndexKey record.audience) record.tokenHash
    sessionIndex :=
      addTokenSessionIndexEntry s.sessionIndex (tokenSessionIndexKey record.audience)
        record.tokenHash }

def removeRecordLocked (tokenHash : String) (record : TokenRecord) : TokenManager :=
  { s with
    records := s.records.erase tokenHash
    idIndex := s.idIndex.erase (tokenIDIndexKey record.kind record.tokenID)
    pluginIndex := s.pluginIndex.remove record.pluginKey tokenHash
    surfaceIndex := s.surfaceIndex.remove (tokenSurfaceIndexKey record.audience) tokenHash
    sessionIndex := s.sessionIndex.remove (tokenSessionIndexKey record.audience) tokenHash }

variable (now : ℤ)

/-- One round of the loop that removes expired records. -/
def pruneRecord (s : TokenManager) (tokenHash : String) : TokenManager :=
  match s.records.lookup tokenHash with
  | none => s
  | some record => if now < record.expiresAt then s else s.removeRecordLocked tokenHash record

def pruneExpiredRecordsLocked (order : List String) : TokenManager :=
  order.foldl (pruneRecord now) s

def prepareMint (req : MintRequest) (validated clock : ℤ) (draws : Draws) :
    Except TokenError (TokenRecord × String) :=
  match validateMintRequest req validated with
  | .error e => .error e
  | .ok () =>
    let now := effectiveTime clock req.now
    if timeSub req.expiresAt now > s.options.maxTTL then .error .ttlExceeded
    else
      match draws.id, draws.nonce, draws.secret with
      | some suffix, some nonce, some secret =>
        let tokenID := idText req.kind ++ suffix
        let cleartext := req.kind.text ++ "." ++ tokenID ++ "." ++ secret
        .ok ({ kind := req.kind, tokenID, tokenHash := hashToken cleartext
               audience := req.audience, revision := req.revision, issuedAt := now
               expiresAt := req.expiresAt, nonce, use := defaultTokenUse req.kind
               limits := req.limits }, cleartext)
      | _, _, _ => .error .random

/-- The checks that `Mint` makes under the lock, after the expired records are gone. -/
def mintCheck (pluginKey : String) (record : TokenRecord) : Except TokenError Unit :=
  if s.revokeFloorsSaturated ∧ s.pluginRevokeFloors.lookup pluginKey = none then
    .error .revokeFloorCapacity
  else if record.revision.revokeEpoch < (s.pluginRevokeFloors.lookup pluginKey).getD 0 then
    .error .revoked
  else if s.options.maxRecords ≤ s.records.size then .error .capacity
  else if s.options.maxRecordsPerPlugin ≤ (s.pluginIndex.bucket pluginKey).card then
    .error .pluginCapacity
  else if (s.records.lookup record.tokenHash).isSome then .error .hashCollision
  else if (s.idIndex.lookup (tokenIDIndexKey record.kind record.tokenID)).isSome then
    .error .idCollision
  else .ok ()

/-- The times at which the request is checked and the token is issued are two readings. -/
def mint (req : MintRequest) (validated clock : ℤ) (draws : Draws) (order : List String) :
    Except TokenError MintedToken × TokenManager :=
  match s.prepareMint hashToken req validated clock draws with
  | .error e => (.error e, s)
  | .ok (record, cleartext) =>
    match tokenPluginIndexKey record.kind record.audience with
    | .error e => (.error e, s)
    | .ok pluginKey =>
      let s := s.pruneExpiredRecordsLocked record.issuedAt order
      match s.mintCheck pluginKey record with
      | .error e => (.error e, s)
      | .ok () => (.ok ⟨record, cleartext⟩, s.addRecordLocked record)

def loadTokenRecordLocked (kind : TokenKind) (now : ℤ) (tokenHash : String) :
    Except TokenError TokenRecord :=
  match s.records.lookup tokenHash with
  | none => .error .invalid
  | some record =>
    if record.kind ≠ kind then .error .kind
    else if record.revoked then .error .revoked
    else if record.expiresAt ≤ now then .error .expired
    else if record.consumed then .error .replay
    else .ok record

def audienceMatches (expected got : Audience) : Bool := expected = got

/-- The last part of both validations: a token that is to be consumed has to be for a single
use. -/
def consumeRecord (consume : Bool) (now : ℤ) (record : TokenRecord) :
    Except TokenError TokenRecord :=
  if consume then
    if record.use ≠ .singleUse then .error (.notSingleUse record.kind)
    else .ok { record with consumed := true, consumedAt := some now }
  else .ok record

variable (record : TokenRecord)

def bindRecord : Option String → Except TokenError TokenRecord
  | none => .ok record
  | some channel =>
    if channel = "" then .error .missingAudience
    else if record.boundBridgeChannelID ≠ "" ∧ record.boundBridgeChannelID ≠ channel then
      .error .alreadyBound
    else .ok { record with boundBridgeChannelID := channel }

def validateRecord (req : ValidateRequest) (now : ℤ) (record : TokenRecord) :
    Except TokenError TokenRecord :=
  if req.bind.any fun channel => record.audience.bridgeChannelID ≠ "" && channel ≠ "" &&
      record.audience.bridgeChannelID ≠ channel then .error .alreadyBound
  else if !audienceMatches record.audience req.audience then .error .audience
  else if record.revision ≠ req.revision then .error .revoked
  else
    match bindRecord record req.bind with
    | .error e => .error e
    | .ok record => consumeRecord req.consume now record

def validate (req : ValidateRequest) (clock : ℤ) : Except TokenError TokenRecord × TokenManager :=
  let now := effectiveTime clock req.now
  let tokenHash := hashToken req.token
  match s.loadTokenRecordLocked req.kind now tokenHash with
  | .error e => (.error e, s)
  | .ok record =>
    match validateRecord req now record with
    | .error e => (.error e, s)
    | .ok record => (.ok record, { s with records := s.records.insert tokenHash record })

def inspect (req : InspectRequest) (clock : ℤ) : Except TokenError TokenRecord :=
  if blank req.token then .error .invalid
  else s.loadTokenRecordLocked req.kind (effectiveTime clock req.now) (hashToken req.token)

/-- An entry of the index without a record is dropped. -/
def loadTokenRecordByIDLocked (kind : TokenKind) (tokenID : String) (now : ℤ) :
    Except TokenError (String × TokenRecord) × TokenManager :=
  match s.idIndex.lookup (tokenIDIndexKey kind tokenID) with
  | none => (.error .invalid, s)
  | some tokenHash =>
    if s.records.lookup tokenHash = none then
      (.error .invalid, { s with idIndex := s.idIndex.erase (tokenIDIndexKey kind tokenID) })
    else ((s.loadTokenRecordLocked kind now tokenHash).map fun record => (tokenHash, record), s)

def validateID (req : ValidateTokenIDRequest) (clock : ℤ) :
    Except TokenError TokenRecord × TokenManager :=
  let tokenID := trim req.tokenID
  if tokenID = "" then (.error .invalid, s)
  else
    let now := effectiveTime clock req.now
    match s.loadTokenRecordByIDLocked req.kind tokenID now with
    | (.error e, s) => (.error e, s)
    | (.ok (tokenHash, record), s) =>
      if !audienceMatches record.audience req.audience then (.error .audience, s)
      else if record.revision ≠ req.revision then (.error .revoked, s)
      else
        match consumeRecord req.consume now record with
        | .error e => (.error e, s)
        | .ok record => (.ok record, { s with records := s.records.insert tokenHash record })

/-! ### Revocations -/

def revokeRecord : TokenRecord := { record with revoked := true, revokedAt := some now }

variable (selects : TokenRecord → Bool)

/-- One round of the loops that revoke the records of a bucket and count them. -/
def revokeRound (acc : ℕ × TokenManager) (tokenHash : String) : ℕ × TokenManager :=
  match acc.2.records.lookup tokenHash with
  | none => acc
  | some record =>
    if selects record && !record.revoked then
      (acc.1 + 1,
        { acc.2 with records := acc.2.records.insert tokenHash (revokeRecord now record) })
    else acc

def revokeWhere (order : List String) : ℕ × TokenManager :=
  order.foldl (revokeRound now selects) (0, s)

/-- The floor of a plugin is raised; when there is no place for a new one, no plugin without
a floor gets tokens any more. -/
def raiseFloor (pluginKey : String) (minimumRevokeEpoch : ℕ) : Option TokenError × TokenManager :=
  if (s.pluginRevokeFloors.lookup pluginKey).getD 0 < minimumRevokeEpoch then
    if s.pluginRevokeFloors.lookup pluginKey = none ∧
        s.options.maxRevokeFloors ≤ s.pluginRevokeFloors.size then
      (some .revokeFloorCapacity, { s with revokeFloorsSaturated := true })
    else
      (none, { s with
        pluginRevokeFloors := s.pluginRevokeFloors.insert pluginKey minimumRevokeEpoch })
  else (none, s)

/-- The count is returned together with the error of a floor that was not kept. -/
def revokePlugin (pluginKey : String) (minimumRevokeEpoch : ℕ) (now : ℤ) (order : List String) :
    (ℕ × Option TokenError) × TokenManager :=
  let (floorErr, s) := s.raiseFloor pluginKey minimumRevokeEpoch
  let (count, s) := s.revokeWhere now
    (fun record => record.revision.revokeEpoch < minimumRevokeEpoch) order
  ((count, floorErr), s)

def tokenMatchesSurfaceGeneration (expected : Audience) (revision : RevisionBinding) : Bool :=
  let actual := record.audience
  record.revision = revision && actual.pluginID = expected.pluginID &&
    actual.pluginInstanceID = expected.pluginInstanceID &&
    actual.pluginVersion = expected.pluginVersion &&
    actual.activeFingerprint = expected.activeFingerprint &&
    actual.surfaceID = expected.surfaceID &&
    actual.surfaceInstanceID = expected.surfaceInstanceID &&
    actual.entryPath = expected.entryPath && actual.entrySHA256 = expected.entrySHA256 &&
    actual.assetSessionNonce = expected.assetSessionNonce &&
    actual.routeRole = expected.routeRole &&
    actual.ownerSessionHash = expected.ownerSessionHash &&
    actual.ownerUserHash = expected.ownerUserHash &&
    actual.ownerEnvHash = expected.ownerEnvHash &&
    actual.sessionChannelIDHash = expected.sessionChannelIDHash &&
    actual.runtimeGenerationID = expected.runtimeGenerationID

def revokeTokenID (kind : TokenKind) (tokenID : String) (now : ℤ) : Bool × TokenManager :=
  if blank tokenID then (false, s)
  else
    match s.idIndex.lookup (tokenIDIndexKey kind tokenID) with
    | none => (false, s)
    | some key =>
      match s.records.lookup key with
      | none => (false, s)
      | some record =>
        if record.kind ≠ kind ∨ record.tokenID ≠ tokenID ∨ record.revoked then (false, s)
        else (true, { s with records := s.records.insert key (revokeRecord now record) })

/-- One round of the loop of `RevokeSessionScope`; every entry leaves the index. -/
def revokeSessionRound (scope : SessionScope) (now : ℤ)
    (acc : SessionTokenRevocationCounts × TokenManager) (tokenHash : String) :
    SessionTokenRevocationCounts × TokenManager :=
  let drop := fun s : TokenManager =>
    { s with sessionIndex := s.sessionIndex.remove scope tokenHash }
  match acc.2.records.lookup tokenHash with
  | none => (acc.1, drop acc.2)
  | some record =>
    if record.revoked then (acc.1, drop acc.2)
    else
      (acc.1.increment record.kind,
        drop { acc.2 with records := acc.2.records.insert tokenHash (revokeRecord now record) })

def revokeSessionScope (scope : SessionScope) (now : ℤ) (order : List String) :
    SessionTokenRevocationCounts × TokenManager :=
  order.foldl (revokeSessionRound scope now) (fun _ => 0, s)

def previewRound (counts : SessionTokenRevocationCounts) (tokenHash : String) :
    SessionTokenRevocationCounts :=
  match s.records.lookup tokenHash with
  | none => counts
  | some record => if record.revoked then counts else counts.increment record.kind

def previewSessionScopeRevocation (order : List String) : SessionTokenRevocationCounts :=
  order.foldl s.previewRound fun _ => 0

/-! ### Operations -/

/-- Calls of the manager, with the readings of the clock and the orders of the loops. -/
inductive Operation where
  | mint (req : MintRequest) (validated clock : ℤ) (draws : Draws) (order : List String)
  | validate (req : ValidateRequest) (clock : ℤ)
  | validateID (req : ValidateTokenIDRequest) (clock : ℤ)
  | inspect (req : InspectRequest) (clock : ℤ)
  | revokePlugin (ownerEnvHash pluginInstanceID : String) (minimumRevokeEpoch : ℕ) (now clock : ℤ)
    (order : List String)
  | revokeSurface (ownerEnvHash pluginInstanceID surfaceInstanceID : String) (now clock : ℤ)
    (order : List String)
  | revokeSurfaceGeneration (session : SurfaceSession) (now clock : ℤ) (order : List String)
  | revokeTokenID (kind : TokenKind) (tokenID : String) (now clock : ℤ)
  | revokeSessionScope (scope : SessionScope) (now clock : ℤ) (order : List String)
  | previewSessionScopeRevocation (scope : SessionScope) (order : List String)

inductive Answer where
  | minted (result : Except TokenError MintedToken)
  /-- The record of a token that was accepted. -/
  | accepted (result : Except TokenError TokenRecord)
  | inspected (result : Except TokenError TokenRecord)
  | revoked (count : ℕ) (err : Option TokenError)
  | revokedID (done : Bool)
  | counts (result : Except TokenError SessionTokenRevocationCounts)

/-- An operation whose order is not one of the map it goes over does not happen. -/
def perform : Operation → Option (Answer × TokenManager)
  | .mint req validated clock draws order =>
    if Lists order s.records.keys then
      let (result, s) := s.mint hashToken req validated clock draws order
      some (.minted result, s)
    else none
  | .validate req clock =>
    let (result, s) := s.validate hashToken req clock
    some (.accepted result, s)
  | .validateID req clock =>
    let (result, s) := s.validateID req clock
    some (.accepted result, s)
  | .inspect req clock => some (.inspected (s.inspect hashToken req clock), s)
  | .revokePlugin ownerEnvHash pluginInstanceID minimumRevokeEpoch now clock order =>
    match ownerPluginIndexKey ownerEnvHash pluginInstanceID with
    | .error e => some (.revoked 0 (some e), s)
    | .ok pluginKey =>
      if minimumRevokeEpoch = 0 ∨ maxSafeInteger < minimumRevokeEpoch then
        some (.revoked 0 (some .revision), s)
      else if Lists order (s.pluginIndex.bucket pluginKey) then
        let (result, s) :=
          s.revokePlugin pluginKey minimumRevokeEpoch (effectiveTime clock now) order
        some (.revoked result.1 result.2, s)
      else none
  | .revokeSurface ownerEnvHash pluginInstanceID surfaceInstanceID now clock order =>
    match ownerSurfaceIndexKey ownerEnvHash pluginInstanceID surfaceInstanceID with
    | .error _ => some (.revoked 0 none, s)
    | .ok surfaceKey =>
      if Lists order (s.surfaceIndex.bucket surfaceKey) then
        let (count, s) := s.revokeWhere (effectiveTime clock now) (fun _ => true) order
        some (.revoked count none, s)
      else none
  | .revokeSurfaceGeneration session now clock order =>
    match ownerSurfaceIndexKey session.ownerEnvHash session.pluginInstanceID
        session.surfaceInstanceID with
    | .error _ => some (.revoked 0 none, s)
    | .ok surfaceKey =>
      if blank session.assetSessionNonce then some (.revoked 0 none, s)
      else if Lists order (s.surfaceIndex.bucket surfaceKey) then
        let (count, s) := s.revokeWhere (effectiveTime clock now)
          (fun record => tokenMatchesSurfaceGeneration record (session.audience "")
            session.revision) order
        some (.revoked count none, s)
      else none
  | .revokeTokenID kind tokenID now clock =>
    let (done, s) := s.revokeTokenID kind tokenID (effectiveTime clock now)
    some (.revokedID done, s)
  | .revokeSessionScope scope now clock order =>
    if !scope.valid then some (.counts (.error .audience), s)
    else if Lists order (s.sessionIndex.bucket scope) then
      let (counts, s) := s.revokeSessionScope scope (effectiveTime clock now) order
      some (.counts (.ok counts), s)
    else none
  | .previewSessionScopeRevocation scope order =>
    if !scope.valid then some (.counts (.error .audience), s)
    else if Lists order (s.sessionIndex.bucket scope) then
      some (.counts (.ok (s.previewSessionScopeRevocation order)), s)
    else none

end TokenManager

end RedevPlugin.Bridge
