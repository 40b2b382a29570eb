import RedevPlugin.Authorization.Decision
import RedevPlugin.Foundation.Threads

/-! The registry of plugins in the control store, as far as it decides about authorization: a
row for each plugin, its grants and its policy. A check reads the three in separate statements.
A change of grants or policy reads them in the same way, prepares what comes next and commits it
if the revisions of the plugin are the expected ones. Enabling and disabling read a record and
write it later; the other changes are one transaction each. -/

namespace RedevPlugin.Authorization

open ControlStore Text Threads

/-! ### Tables -/

/-- A row of `plugin_records`. -/
structure PluginRow where
  key : PluginKey
  columns : AuthorizationRevisions
  deletedAt : Option Time
  /-- The record in `record_json`, if it is decoded. -/
  json : Option Plugin
  deriving DecidableEq

/-- A row of `permission_grants`. -/
structure GrantRow where
  key : PluginKey
  capabilityID : String
  revision : ℕ
  record : PermissionRecord
  deriving DecidableEq

def GrantRow.id (row : GrantRow) : PluginKey × String := (row.key, row.capabilityID)

/-- A row of `security_policies`. -/
structure PolicyRow where
  key : PluginKey
  revision : ℕ
  record : PolicyRecord

structure Database where
  ready : Bool
  plugins : Rows PluginRow.key
  grants : Rows GrantRow.id
  policies : Rows PolicyRow.key

section

variable (db : Database) (key : PluginKey)

/-- The first statement of `Get`. -/
def readRecord : Except AuthorizationError PluginRow :=
  if db.ready = false then .error .requestsBlocked
  else
    match db.plugins.find key with
    | none => .error .notFound
    | some row => if row.deletedAt = none then .ok row else .error .notFound

def capabilityBefore (a b : GrantRow) : Prop := a.capabilityID ≤ b.capabilityID

instance : DecidableRel capabilityBefore := fun a b =>
  inferInstanceAs (Decidable (a.capabilityID ≤ b.capabilityID))

/-- The second statement of `Get`. -/
def readGrants : List GrantRow :=
  (db.grants.rows.filter (·.key = key)).insertionSort capabilityBefore

/-- The third statement of `Get`. -/
def readPolicy : Option PolicyRow := db.policies.find key

def decodeAuthorizationSnapshot (row : PluginRow) (grants : List GrantRow)
    (policy : Option PolicyRow) : Except AuthorizationError AuthorizationSnapshot :=
  match row.json with
  | none => .error .incompatible
  | some plugin => .ok ⟨plugin, grants.map GrantRow.record, policy.map PolicyRow.record⟩

/-! ### Changes of grants and policies -/

structure GrantRequest where
  pluginInstanceID : String
  permissionID : String
  grantedBy : String
  now : Time
  expiresAt : Time
  deriving DecidableEq

structure RevokeRequest where
  (pluginInstanceID permissionID revokedBy reason : String)
  now : Time
  deriving DecidableEq

structure PutPolicyRequest where
  pluginInstanceID : String
  allowedPermissions : List String
  deniedMethods : List String
  now : Time
  deriving DecidableEq

def newGrant (clock : Time) (req : GrantRequest) : Except AuthorizationError PermissionRecord :=
  if trim req.pluginInstanceID = "" ∨ trim req.permissionID = "" ∨
      resourceScoped (trim req.permissionID) = true then .error .invalidPermission
  else
    .ok ⟨trim req.pluginInstanceID, trim req.permissionID, .grant, trim req.grantedBy,
      normalizeNow clock req.now, if req.expiresAt = zeroTime then none else some req.expiresAt,
      none, "", ""⟩

def revoke (clock : Time) (record : PermissionRecord) (req : RevokeRequest) :
    Except AuthorizationError PermissionRecord :=
  if trim req.pluginInstanceID = "" ∨ trim req.permissionID = "" then .error .invalidPermission
  else
    match validateRecord (normalizeRecord record) with
    | .error e => .error e
    | .ok () =>
      let record := normalizeRecord record
      if record.pluginInstanceID ≠ trim req.pluginInstanceID ∨
          record.permissionID ≠ trim req.permissionID then .error .grantNotFound
      else
        .ok { record with
          revokedAt := some (normalizeNow clock req.now), revokedBy := trim req.revokedBy
          revokedReason := trim req.reason }

def newPolicy (clock : Time) (req : PutPolicyRequest) : Except AuthorizationError PolicyRecord :=
  if trim req.pluginInstanceID = "" then .error .invalidPolicy
  else
    .ok ⟨trim req.pluginInstanceID, normalizeValues req.allowedPermissions,
      normalizeValues req.deniedMethods, normalizeNow clock req.now⟩

variable (plugin : Plugin)

/-- The plugin with a new policy revision, and a new epoch if what it may do becomes less. -/
def Plugin.bumped (epoch : ℕ) : Plugin :=
  { plugin with
    revisions := { plugin.revisions with
      policyRevision := plugin.revisions.policyRevision + 1
      revokeEpoch := plugin.revisions.revokeEpoch + epoch } }

def prepareGrantPermission (clock : Time) (snapshot : AuthorizationSnapshot) (req : GrantRequest)
    (expected : AuthorizationRevisions) : Except AuthorizationError AuthorizationSnapshot :=
  match ensureAuthorizationRevisions expected snapshot.plugin with
  | .error e => .error e
  | .ok () =>
    match newGrant clock req with
    | .error e => .error e
    | .ok grant =>
      let grants :=
        if snapshot.grants.any (·.permissionID = grant.permissionID) then
          snapshot.grants.map fun r => if r.permissionID = grant.permissionID then grant else r
        else snapshot.grants ++ [grant]
      .ok { snapshot with plugin := snapshot.plugin.bumped 0, grants }

/-- The first grant of the permission is replaced. -/
def revokeFirst (clock : Time) (req : RevokeRequest) :
    List PermissionRecord → Except AuthorizationError (List PermissionRecord)
  | [] => .error .grantNotFound
  | r :: records =>
    if r.permissionID ≠ trim req.permissionID then
      match revokeFirst clock req records with
      | .error e => .error e
      | .ok rest => .ok (r :: rest)
    else
      match revoke clock r req with
      | .error e => .error e
      | .ok revoked => .ok (revoked :: records)

def prepareRevokePermission (clock : Time) (snapshot : AuthorizationSnapshot) (req : RevokeRequest)
    (expected : AuthorizationRevisions) : Except AuthorizationError AuthorizationSnapshot :=
  match ensureAuthorizationRevisions expected snapshot.plugin with
  | .error e => .error e
  | .ok () =>
    match revokeFirst clock req snapshot.grants with
    | .error e => .error e
    | .ok grants => .ok { snapshot with plugin := snapshot.plugin.bumped 1, grants }

def prepareSecurityPolicy (clock : Time) (snapshot : AuthorizationSnapshot) (req : PutPolicyRequest)
    (expected : AuthorizationRevisions) : Except AuthorizationError AuthorizationSnapshot :=
  match ensureAuthorizationRevisions expected snapshot.plugin with
  | .error e => .error e
  | .ok () =>
    match newPolicy clock req with
    | .error e => .error e
    | .ok policy => .ok { snapshot with plugin := snapshot.plugin.bumped 1, policy := some policy }

def prepareDeleteSecurityPolicy (snapshot : AuthorizationSnapshot) (pluginInstanceID : String)
    (expected : AuthorizationRevisions) : Except AuthorizationError AuthorizationSnapshot :=
  if trim pluginInstanceID = "" then .error .invalidPolicy
  else
    match ensureAuthorizationRevisions expected snapshot.plugin with
    | .error e => .error e
    | .ok () => .ok { snapshot with plugin := snapshot.plugin.bumped 1, policy := none }

/-- `UPDATE plugin_records` of `ReplaceAuthorization`. -/
def setRevisions : Rows.Change PluginRow.key where
  apply row := { row with columns := plugin.revisions, json := some plugin }
  keeps _ := rfl

def insertGrants (key : PluginKey) (revision : ℕ) :
    List PermissionRecord → Rows GrantRow.id → Except AuthorizationError (Rows GrantRow.id)
  | [], t => .ok t
  | r :: records, t =>
    if r.permissionID = "" then .error (.invalid "grant is invalid")
    else
      match t.insert ⟨key, r.permissionID, revision, r⟩ with
      | none => .error (.invalid "grant is invalid")
      | some t' => insertGrants key revision records t'

def Database.clear : Database :=
  { db with grants := db.grants.delete (·.key = key), policies := db.policies.delete (·.key = key) }

/-- `ReplaceAuthorizationSnapshot`. -/
def replaceAuthorization (owner : String) (snapshot : AuthorizationSnapshot)
    (expected : AuthorizationRevisions) : Except AuthorizationError Database :=
  let key : PluginKey := ⟨owner, snapshot.plugin.pluginInstanceID⟩
  if db.ready = false then .error .requestsBlocked
  else if trim key.ownerEnvHash = "" ∨ trim key.pluginInstanceID = "" then
    .error (.invalid "plugin record is invalid")
  else if snapshot.plugin.revisions.policyRevision ≤ expected.policyRevision then
    .error .revisionConflict
  else if db.plugins.affected (fun row => row.key = key && row.columns = expected) ≠ 1 then
    .error .revisionConflict
  else
    let plugins := db.plugins.update (fun row => row.key = key && row.columns = expected)
      (setRevisions snapshot.plugin)
    let cleared := db.clear key
    match insertGrants key snapshot.plugin.revisions.policyRevision snapshot.grants
        cleared.grants with
    | .error e => .error e
    | .ok grants =>
      match snapshot.policy with
      | none => .ok { cleared with plugins, grants }
      | some policy =>
        match cleared.policies.insert ⟨key, snapshot.plugin.revisions.policyRevision, policy⟩ with
        | none => .error (.invalid "policy is invalid")
        | some policies => .ok { cleared with plugins, grants, policies }

/-! ### Other transactions -/

/-- What a new package of a plugin brings. -/
structure PackageRecord where
  enableState : EnableState
  activeFingerprint : String
  automaticUpdates : Bool
  deriving DecidableEq

inductive Transaction where
  /-- `InstallCommit`; a retained binding of data is activated again, or there is none. -/
  | install (key : PluginKey) (next : PackageRecord) (policyRevision : ℕ) (retained : Bool)
  | putPlugin (key : PluginKey) (next : PackageRecord)
  | setAutomaticUpdates (key : PluginKey) (expectedManagementRevision : ℕ) (enabled : Bool)
  | bumpRevokeEpoch (key : PluginKey)
  | updateExternalPackage (key : PluginKey) (next : PackageRecord) (expectedManagementRevision : ℕ)
  /-- `CommitPluginDataUpgrade` and `CommitPluginDataRestore`. -/
  | commitPluginDataVersion (expected : Plugin) (owner : String) (next : PackageRecord)
      (external : Bool)
  /-- `SwapImport` and `BindRetained`, which change the record in the same way. -/
  | bindData (key : PluginKey) (expectedManagementRevision : ℕ)
  | recoverRetained (source target : PluginKey) (managementRevision : ℕ)
    (activeFingerprint : String)
  | commitUninstall (key : PluginKey) (expectedManagementRevision : ℕ) (now : Time)
  | setReady (ready : Bool)
  deriving DecidableEq

/-- `upsertControlPlugin`: the record and its columns. -/
def Database.persist : Database :=
  { db with
    plugins := db.plugins.upsert ⟨key, plugin.revisions, plugin.deletedAt, some plugin⟩
      { apply := fun row =>
          { row with
            columns := plugin.revisions, deletedAt := plugin.deletedAt, json := some plugin }
        keeps := fun _ => rfl } }

def decodeRegistryPluginRecord (row : PluginRow) : Except AuthorizationError Plugin :=
  match row.json with
  | none => .error .incompatible
  | some plugin => .ok plugin

/-- `GetPlugin` and `getControlPluginRecord`. -/
def getPlugin : Except AuthorizationError Plugin :=
  match readRecord db key with
  | .error e => .error e
  | .ok row => decodeRegistryPluginRecord row

/-- `getControlPluginRecordIncludingDeleted`. -/
def getPluginIncludingDeleted : Except AuthorizationError Plugin :=
  if db.ready = false then .error .requestsBlocked
  else
    match db.plugins.find key with
    | none => .error .notFound
    | some row => decodeRegistryPluginRecord row

/-- The plugin with the next management revision and revoke epoch. -/
def Plugin.managed : Plugin :=
  { plugin with
    revisions := { plugin.revisions with
      managementRevision := plugin.revisions.managementRevision + 1
      revokeEpoch := plugin.revisions.revokeEpoch + 1 } }

variable (next : PackageRecord)

def PackageRecord.after (key : PluginKey) (existing : Plugin) : Plugin :=
  ⟨key.pluginInstanceID, existing.managed.revisions, next.enableState, next.activeFingerprint,
    next.automaticUpdates, none⟩

def validateEnableState : EnableState → Except AuthorizationError Unit
  | .other _ => .error .invalidEnableState
  | _ => .ok ()

/-- `PreparePluginPut` over an existing record. -/
def preparePluginPut (existing : Plugin) : Except AuthorizationError Plugin :=
  if trim key.pluginInstanceID = "" then .error (.invalid "plugin_instance_id is required")
  else
    match validateEnableState next.enableState with
    | .error e => .error e
    | .ok () => .ok (next.after key existing)

/-- The record of an installation, with the epoch of the record it replaces. -/
def PackageRecord.installed (key : PluginKey) (policyRevision epoch : ℕ) : Plugin :=
  ⟨key.pluginInstanceID, ⟨if policyRevision = 0 then 1 else policyRevision, 1, epoch⟩,
    next.enableState, next.activeFingerprint, next.automaticUpdates, none⟩

/-- The write of `InstallCommit`: over the old record, or after the deletion of its tombstone. -/
def persistInstall (retained : Bool) (plugin : Plugin) : Except AuthorizationError Database :=
  if retained = true then .ok (db.persist key plugin)
  else
    let plugins := db.plugins.delete fun row => row.key = key && row.deletedAt.isSome
    match plugins.insert ⟨key, plugin.revisions, plugin.deletedAt, some plugin⟩ with
    | none => .error .bindingConflict
    | some plugins => .ok { db with plugins }

def installCommit (policyRevision : ℕ) (retained : Bool) : Except AuthorizationError Database :=
  if next.enableState ≠ .enabled then .error (.invalid "invalid argument")
  else if trim key.pluginInstanceID = "" then .error (.invalid "plugin_instance_id is required")
  else
    match getPluginIncludingDeleted db key with
    | .ok previous =>
      if previous.deletedAt = none then .error .bindingConflict
      else
        persistInstall db key retained
          (next.installed key policyRevision previous.revisions.revokeEpoch)
    | .error .notFound => persistInstall db key retained (next.installed key policyRevision 1)
    | .error e => .error e

/-- `UPDATE plugin_records` of the whole record, if it is not deleted. -/
def setRecord : Rows.Change PluginRow.key where
  apply row :=
    { row with columns := plugin.revisions, deletedAt := plugin.deletedAt, json := some plugin }
  keeps _ := rfl

def putPlugin : Except AuthorizationError Database :=
  match getPluginIncludingDeleted db key with
  | .error e => .error e
  | .ok existing =>
    if existing.deletedAt ≠ none then .error .notFound
    else
      match preparePluginPut key next existing with
      | .error e => .error e
      | .ok plugin =>
        let live := fun row : PluginRow => row.key = key && row.deletedAt.isNone
        if db.plugins.affected live ≠ 1 then .error .notFound
        else .ok { db with plugins := db.plugins.update live (setRecord plugin) }

/-- `UPDATE plugin_records` of the record alone. -/
def setJSON : Rows.Change PluginRow.key where
  apply row := { row with json := some plugin }
  keeps _ := rfl

variable (expected : ℕ)

def setAutomaticUpdates (enabled : Bool) : Except AuthorizationError Database :=
  match getPlugin db key with
  | .error e => .error e
  | .ok plugin =>
    if expected = 0 ∨ plugin.revisions.managementRevision ≠ expected then .error .revisionConflict
    else
      let same := fun row : PluginRow =>
        row.key = key && row.json = some plugin && row.deletedAt.isNone
      if db.plugins.affected same ≠ 1 then .error .revisionConflict
      else
        .ok { db with
          plugins := db.plugins.update same (setJSON { plugin with automaticUpdates := enabled }) }

def Plugin.revoked : Plugin :=
  { plugin with
    revisions := { plugin.revisions with revokeEpoch := plugin.revisions.revokeEpoch + 1 } }

/-- `UPDATE plugin_records` of `BumpRevokeEpoch`. -/
def setEpoch : Rows.Change PluginRow.key where
  apply row :=
    { row with
      columns := { row.columns with revokeEpoch := plugin.revisions.revokeEpoch }
      json := some plugin }
  keeps _ := rfl

def bumpRevokeEpoch : Except AuthorizationError Database :=
  match getPlugin db key with
  | .error e => .error e
  | .ok plugin =>
    let same := fun row : PluginRow =>
      row.key = key &&
        row.columns.revokeEpoch = plugin.revisions.revokeEpoch && row.deletedAt.isNone
    if db.plugins.affected same ≠ 1 then .error .revisionConflict
    else .ok { db with plugins := db.plugins.update same (setEpoch plugin.revoked) }

def updateExternalPackage : Except AuthorizationError Database :=
  match getPlugin db key with
  | .error e => .error e
  | .ok existing =>
    if expected = 0 then .error (.invalid "update expected_management_revision is required")
    else if existing.deletedAt ≠ none then .error .notFound
    else if existing.revisions.managementRevision ≠ expected then .error .revisionConflict
    else .ok ((db.persist key (next.after key existing)).clear key)

def commitPluginDataVersion (expected : Plugin) (owner : String) (next : PackageRecord)
    (external : Bool) : Except AuthorizationError Database :=
  let key : PluginKey := ⟨owner, expected.pluginInstanceID⟩
  if expected.deletedAt ≠ none then .error (.invalid "invalid argument")
  else
    match getPlugin db key with
    | .error e => .error e
    | .ok current =>
      if current.activeFingerprint ≠ expected.activeFingerprint ∨
          current.revisions ≠ expected.revisions ∨ current.enableState ≠ expected.enableState then
        .error .revisionConflict
      else
        let next := if external then next else { next with enableState := current.enableState }
        match preparePluginPut key next current with
        | .error e => .error e
        | .ok plugin =>
          .ok (if external then (db.persist key plugin).clear key else db.persist key plugin)

def bindData : Except AuthorizationError Database :=
  match getPlugin db key with
  | .error e => .error e
  | .ok plugin =>
    if plugin.revisions.managementRevision ≠ expected then .error .revisionConflict
    else if plugin.enableState = .enabled then .error .bindingConflict
    else .ok (db.persist key plugin.managed)

/-- `CommitRetainedRecovery`: the record of the source is written as it is. -/
def recoverRetained (source target : PluginKey) (managementRevision : ℕ)
    (activeFingerprint : String) : Except AuthorizationError Database :=
  match getPluginIncludingDeleted db source with
  | .error e => .error e
  | .ok sourcePlugin =>
    if sourcePlugin.deletedAt = none then .error .bindingConflict
    else
      match getPlugin db target with
      | .error e => .error e
      | .ok plugin =>
        if plugin.enableState ≠ .disabledByUser ∨
            plugin.revisions.managementRevision ≠ managementRevision ∨
            plugin.activeFingerprint ≠ activeFingerprint then .error .bindingConflict
        else .ok ((db.persist source sourcePlugin).persist target plugin.managed)

def commitUninstall (now : Time) : Except AuthorizationError Database :=
  match getPlugin db key with
  | .error e => .error e
  | .ok plugin =>
    if expected = 0 ∨ plugin.revisions.managementRevision ≠ expected then .error .revisionConflict
    else .ok ((db.persist key { plugin.managed with deletedAt := some now }).clear key)

def transact : Transaction → Except AuthorizationError Database
  | .install key next policyRevision retained => installCommit db key next policyRevision retained
  | .putPlugin key next => putPlugin db key next
  | .setAutomaticUpdates key expected enabled => setAutomaticUpdates db key expected enabled
  | .bumpRevokeEpoch key => bumpRevokeEpoch db key
  | .updateExternalPackage key next expected => updateExternalPackage db key next expected
  | .commitPluginDataVersion expected owner next external =>
    commitPluginDataVersion db expected owner next external
  | .bindData key expected => bindData db key expected
  | .recoverRetained source target revision fingerprint =>
    recoverRetained db source target revision fingerprint
  | .commitUninstall key expected now => commitUninstall db key expected now
  | .setReady ready => .ok { db with ready }

def prepareEnableState (state : EnableState) : Except AuthorizationError Plugin :=
  match validateEnableState state with
  | .error e => .error e
  | .ok () => .ok { plugin.managed with enableState := state }

/-- `UPDATE plugin_records` of `SetEnableState`, which leaves the column of the policy revision and
does not look whether the plugin is deleted. -/
def setEnabled : Rows.Change PluginRow.key where
  apply row :=
    { row with
      columns := { plugin.revisions with policyRevision := row.columns.policyRevision }
      json := some plugin }
  keeps _ := rfl

def writeEnableState : Except AuthorizationError Database :=
  if db.plugins.affected (·.key = key) ≠ 1 then .error .notFound
  else .ok { db with plugins := db.plugins.update (·.key = key) (setEnabled plugin) }

end

/-! ### Calls -/

/-- What is done with a snapshot. -/
inductive Operation where
  | authorize (req : AuthorizeRequest)
  | grant (req : GrantRequest) (expected : AuthorizationRevisions)
  | revoke (req : RevokeRequest) (expected : AuthorizationRevisions)
  | putPolicy (req : PutPolicyRequest) (expected : AuthorizationRevisions)
  | deletePolicy (pluginInstanceID : String) (expected : AuthorizationRevisions)
  deriving DecidableEq

def Operation.pluginInstanceID : Operation → String
  | .authorize req | .grant req _ | .revoke req _ | .putPolicy req _ => req.pluginInstanceID
  | .deletePolicy id _ => id

def Operation.key (op : Operation) (owner : String) : PluginKey := ⟨owner, op.pluginInstanceID⟩

inductive Call where
  | readRecord (owner : String) (op : Operation)
  | readGrants (owner : String) (op : Operation) (row : PluginRow)
  | readPolicy (owner : String) (op : Operation) (row : PluginRow) (grants : List GrantRow)
  | commit (owner : String) (next : AuthorizationSnapshot) (expected : AuthorizationRevisions)
  | readEnableState (key : PluginKey) (state : EnableState)
  | writeEnableState (key : PluginKey) (plugin : Plugin)
  | transaction (t : Transaction)
  deriving DecidableEq

inductive Event where
  | read
  | decided (owner : String) (req : AuthorizeRequest)
      (result : Except AuthorizationError AuthorizationDecision)
  | committed
  | failed (e : AuthorizationError)

/-- What the environment decides: the time of the clock, or that the section fails. -/
inductive Choice where
  | clock (now : Time)
  | fault (message : String)

/-- What follows the three reads: a decision, or the transaction of a change. -/
def conclude (clock : Time) (db : Database) (owner : String) (op : Operation)
    (snapshot : AuthorizationSnapshot) : Event × Database × Option Call :=
  let change := fun (prepared : Except AuthorizationError AuthorizationSnapshot) expected =>
    match prepared with
    | .error e => (Event.failed e, db, none)
    | .ok next => (Event.read, db, some (Call.commit owner next expected))
  match op with
  | .authorize req =>
    (.decided owner req (evaluateAuthorizationSnapshot clock snapshot req), db, none)
  | .grant req expected => change (prepareGrantPermission clock snapshot req expected) expected
  | .revoke req expected => change (prepareRevokePermission clock snapshot req expected) expected
  | .putPolicy req expected => change (prepareSecurityPolicy clock snapshot req expected) expected
  | .deletePolicy id expected => change (prepareDeleteSecurityPolicy snapshot id expected) expected

def written (db : Database) : Except AuthorizationError Database → Event × Database × Option Call
  | .error e => (.failed e, db, none)
  | .ok t => (.committed, t, none)

def advance (db : Database) (c : Call) : Choice → Option (Event × Database × Option Call)
  | .fault message => some (.failed (.external message), db, none)
  | .clock now =>
    match c with
    | .readRecord owner op =>
      match readRecord db (op.key owner) with
      | .error e => some (.failed e, db, none)
      | .ok row => some (.read, db, some (.readGrants owner op row))
    | .readGrants owner op row =>
      some (.read, db, some (.readPolicy owner op row (readGrants db (op.key owner))))
    | .readPolicy owner op row grants =>
      match decodeAuthorizationSnapshot row grants (readPolicy db (op.key owner)) with
      | .error e => some (.failed e, db, none)
      | .ok snapshot => some (conclude now db owner op snapshot)
    | .commit owner next expected => some (written db (replaceAuthorization db owner next expected))
    | .readEnableState key state =>
      match getPlugin db key with
      | .error e => some (.failed e, db, none)
      | .ok plugin =>
        match prepareEnableState plugin state with
        | .error e => some (.failed e, db, none)
        | .ok next => some (.read, db, some (.writeEnableState key next))
    | .writeEnableState key plugin => some (written db (writeEnableState db key plugin))
    | .transaction t => some (written db (transact db t))

def program : Program Database Call Choice Event where
  entry
    | .readRecord _ _ | .readEnableState _ _ | .transaction _ => true
    | _ => false
  advance

end RedevPlugin.Authorization
