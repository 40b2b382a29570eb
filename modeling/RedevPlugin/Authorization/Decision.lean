import Mathlib.Data.List.Sort
import RedevPlugin.ControlStore.Intervals

/-! The decision whether a plugin may call a method. A snapshot holds the record of the plugin,
its grants and its policy. The revisions of the record must be those that the caller expects;
then the policy must allow the method and its permissions, and every permission that is not
bound to a resource must have an active grant. -/

namespace RedevPlugin.Authorization

open ControlStore Text

/-! ### Permissions -/

inductive Effect where
  | grant
  | deny
  | other (name : String)
  deriving DecidableEq

structure PermissionRecord where
  pluginInstanceID : String
  permissionID : String
  effect : Effect
  grantedBy : String
  grantedAt : Time
  expiresAt : Option Time
  revokedAt : Option Time
  revokedBy : String
  revokedReason : String
  deriving DecidableEq

/-- The values without white space at their ends, without empty and repeated ones. -/
def distinctFrom (seen : List String) : List String → List String
  | [] => []
  | value :: values =>
    if trim value = "" ∨ trim value ∈ seen then distinctFrom seen values
    else trim value :: distinctFrom (trim value :: seen) values

/-- `NormalizePermissionIDs` and `normalizePolicyValues`. -/
def normalizeValues (values : List String) : List String :=
  (distinctFrom [] values).insertionSort (· ≤ ·)

def resourceScoped (id : String) : Bool := id = "fs.selected.read" || id = "fs.selected.write"

def methodGrantIDs (ids : List String) : List String :=
  (normalizeValues ids).filter fun id => !resourceScoped id

def normalizeNow (clock now : Time) : Time := if now = zeroTime then clock else now

variable (r : PermissionRecord)

def normalizeRecord : PermissionRecord :=
  { r with
    pluginInstanceID := trim r.pluginInstanceID, permissionID := trim r.permissionID
    grantedBy := trim r.grantedBy, revokedBy := trim r.revokedBy
    revokedReason := trim r.revokedReason }

inductive AuthorizationError where
  | invalidPermission
  | grantNotFound
  | invalidPolicy
  | invalidRevisions
  /-- The revisions that were expected and those of the record. -/
  | revisionConflict
  | notFound
  | requestsBlocked
  | incompatible
  | bindingConflict
  | invalidEnableState
  | invalid (message : String)
  | external (message : String)

def validateRecord : Except AuthorizationError Unit :=
  let r := normalizeRecord r
  if r.pluginInstanceID = "" ∨ r.permissionID = "" ∨ r.grantedAt = zeroTime then
    .error .invalidPermission
  else
    match r.effect with
    | .other _ => .error .invalidPermission
    | _ => .ok ()

def active (now : Time) : Bool :=
  r.effect = .grant && r.revokedAt.isNone && r.expiresAt.all (now < ·)

/-- The map `byPermissionID` of the grants of a plugin. -/
def indexGrants (pluginInstanceID : String) (seen : List PermissionRecord) :
    List PermissionRecord → Except AuthorizationError (List PermissionRecord)
  | [] => .ok seen
  | r :: records =>
    match validateRecord (normalizeRecord r) with
    | .error _ => .error .invalidPermission
    | .ok () =>
      if (normalizeRecord r).pluginInstanceID ≠ pluginInstanceID ∨
          seen.any (·.permissionID = (normalizeRecord r).permissionID) then
        .error .invalidPermission
      else indexGrants pluginInstanceID (normalizeRecord r :: seen) records

/-- `permissions.Evaluate`: whether all are granted, and those that are missing. -/
def evaluatePermissions (clock : Time) (records : List PermissionRecord) (pluginInstanceID : String)
    (permissionIDs : List String) (now : Time) : Except AuthorizationError (Bool × List String) :=
  if trim pluginInstanceID = "" then .error .invalidPermission
  else
    let required := normalizeValues permissionIDs
    if required = [] then .ok (true, [])
    else
      match indexGrants (trim pluginInstanceID) [] records with
      | .error e => .error e
      | .ok grants =>
        let missing := required.filter fun id =>
          !(grants.any fun r => r.permissionID = id && active r (normalizeNow clock now))
        .ok (missing = [], missing)

/-! ### Policies -/

structure PolicyRecord where
  pluginInstanceID : String
  allowedPermissions : List String
  deniedMethods : List String
  updatedAt : Time
  deriving DecidableEq

inductive PolicyDenyReason where
  | methodDenied
  | permissionNotAllowed

structure PolicyEvaluation where
  allowed : Bool
  reason : Option PolicyDenyReason
  deniedMethod : String
  missingPermissions : List String

def PolicyEvaluation.allow : PolicyEvaluation := ⟨true, none, "", []⟩

def normalizePolicy (p : PolicyRecord) : PolicyRecord :=
  { p with
    pluginInstanceID := trim p.pluginInstanceID
    allowedPermissions := normalizeValues p.allowedPermissions
    deniedMethods := normalizeValues p.deniedMethods }

/-- `ValidatePolicy` of a normalised policy, and that it is the policy of the plugin. -/
def policyUsable (p : PolicyRecord) (pluginInstanceID : String) : Bool :=
  p.pluginInstanceID ≠ "" && p.updatedAt ≠ zeroTime && p.pluginInstanceID = trim pluginInstanceID

variable (policy : Option PolicyRecord)

def evaluatePermissionCeiling (pluginInstanceID : String) (required : List String) :
    Except AuthorizationError PolicyEvaluation :=
  if trim pluginInstanceID = "" then .error .invalidPolicy
  else
    match policy with
    | none => .ok .allow
    | some p =>
      let record := normalizePolicy p
      if policyUsable record pluginInstanceID = false then .error .invalidPolicy
      else if record.allowedPermissions = [] then .ok .allow
      else
        let missing := (normalizeValues required).filter fun id =>
          !record.allowedPermissions.contains id
        if missing ≠ [] then .ok ⟨false, some .permissionNotAllowed, "", missing⟩ else .ok .allow

/-- `security.Evaluate`. -/
def evaluatePolicy (pluginInstanceID method : String) (required : List String) :
    Except AuthorizationError PolicyEvaluation :=
  if trim pluginInstanceID = "" ∨ trim method = "" then .error .invalidPolicy
  else
    match policy with
    | none => .ok .allow
    | some p =>
      let record := normalizePolicy p
      if policyUsable record pluginInstanceID = false then .error .invalidPolicy
      else if trim method ∈ record.deniedMethods then
        .ok ⟨false, some .methodDenied, trim method, []⟩
      else evaluatePermissionCeiling policy pluginInstanceID required

/-! ### Decisions -/

structure AuthorizationRevisions where
  policyRevision : ℕ
  managementRevision : ℕ
  revokeEpoch : ℕ
  deriving DecidableEq

/-- A decoded plugin record, as far as its authorization depends on it. -/
structure Plugin where
  pluginInstanceID : String
  revisions : AuthorizationRevisions
  enableState : EnableState
  activeFingerprint : String
  automaticUpdates : Bool
  deletedAt : Option Time
  deriving DecidableEq

structure AuthorizationSnapshot where
  plugin : Plugin
  grants : List PermissionRecord
  policy : Option PolicyRecord
  deriving DecidableEq

structure AuthorizeRequest where
  pluginInstanceID : String
  method : String
  permissionIDs : List String
  expected : AuthorizationRevisions
  now : Time
  deriving DecidableEq

structure AuthorizationDecision where
  revisions : AuthorizationRevisions
  allowed : Bool
  missingPermissions : List String
  policyEvaluation : PolicyEvaluation

def ensureAuthorizationRevisions (expected : AuthorizationRevisions) (plugin : Plugin) :
    Except AuthorizationError Unit :=
  if expected.policyRevision = 0 ∨ expected.managementRevision = 0 then .error .invalidRevisions
  else if expected ≠ plugin.revisions then .error .revisionConflict
  else .ok ()

def evaluateAuthorizationSnapshot (clock : Time) (snapshot : AuthorizationSnapshot)
    (req : AuthorizeRequest) : Except AuthorizationError AuthorizationDecision :=
  match ensureAuthorizationRevisions req.expected snapshot.plugin with
  | .error e => .error e
  | .ok () =>
    match evaluatePolicy snapshot.policy snapshot.plugin.pluginInstanceID req.method
        req.permissionIDs with
    | .error e => .error e
    | .ok policyEvaluation =>
      match evaluatePermissions clock snapshot.grants snapshot.plugin.pluginInstanceID
          (methodGrantIDs req.permissionIDs) req.now with
      | .error e => .error e
      | .ok (granted, missing) =>
        .ok ⟨snapshot.plugin.revisions, policyEvaluation.allowed && granted, missing,
          policyEvaluation⟩

/-! ### What a decision says -/

def Granted (clock : Time) (snapshot : AuthorizationSnapshot) (req : AuthorizeRequest)
    (id : String) : Prop :=
  ∃ r ∈ snapshot.grants, trim r.permissionID = id ∧
    trim r.pluginInstanceID = trim snapshot.plugin.pluginInstanceID ∧ r.effect = .grant ∧
    r.revokedAt = none ∧ ∀ e ∈ r.expiresAt, normalizeNow clock req.now < e

/-- A policy does not deny the method and has no ceiling below its permissions. -/
def PolicyAllows (snapshot : AuthorizationSnapshot) (req : AuthorizeRequest) : Prop :=
  ∀ p ∈ snapshot.policy, trim req.method ∉ normalizeValues p.deniedMethods ∧
    (normalizeValues p.allowedPermissions = [] ∨
      ∀ id ∈ normalizeValues req.permissionIDs, id ∈ normalizeValues p.allowedPermissions)

variable {x pluginInstanceID : String} {values : List String} {records : List PermissionRecord}
  {clock : Time}

theorem mem_distinctFrom {seen} :
    x ∈ distinctFrom seen values ↔ x ∉ seen ∧ x ≠ "" ∧ ∃ value ∈ values, trim value = x := by
  induction values generalizing seen with
  | nil => simp [distinctFrom]
  | cons value values ih =>
    rw [distinctFrom]
    split_ifs with hsk
    · rw [ih, List.exists_mem_cons_iff]
      constructor
      · rintro ⟨hse, hne, hth⟩
        exact ⟨hse, hne, .inr hth⟩
      · rintro ⟨hse, hne, rfl | hth⟩
        · rcases hsk with hem | hmem
          · exact absurd hem hne
          · exact absurd hmem hse
        · exact ⟨hse, hne, hth⟩
    · rw [not_or] at hsk
      rw [List.mem_cons, ih, List.exists_mem_cons_iff, List.mem_cons, not_or]
      constructor
      · rintro (rfl | ⟨⟨-, hse⟩, hne, hth⟩)
        · exact ⟨hsk.2, hsk.1, .inl rfl⟩
        · exact ⟨hse, hne, .inr hth⟩
      · rintro ⟨hse, hne, hx | hth⟩
        · exact .inl hx.symm
        · by_cases heq : x = trim value
          · exact .inl heq
          · exact .inr ⟨⟨heq, hse⟩, hne, hth⟩

theorem mem_normalizeValues :
    x ∈ normalizeValues values ↔ x ≠ "" ∧ ∃ value ∈ values, trim value = x := by
  rw [normalizeValues, (List.perm_insertionSort _ _).mem_iff, mem_distinctFrom]
  simp

theorem mem_indexGrants {seen grants} (h : indexGrants pluginInstanceID seen records = .ok grants)
    {r} (hr : r ∈ grants) : r ∈ seen ∨ ∃ record ∈ records, r = normalizeRecord record ∧
      (normalizeRecord record).pluginInstanceID = pluginInstanceID := by
  revert h
  fun_induction indexGrants pluginInstanceID seen records <;> try rintro ⟨⟩
  · exact .inl hr
  · rename_i hbad ih
    intro h
    rw [not_or, not_not] at hbad
    rcases ih h with hmem | ⟨other, hot, hth⟩
    · rcases List.mem_cons.mp hmem with rfl | hmem
      · exact .inr ⟨_, List.mem_cons_self, rfl, hbad.1⟩
      · exact .inl hmem
    · exact .inr ⟨other, List.mem_cons_of_mem _ hot, hth⟩

theorem granted_of_evaluate {now ids missing}
    (h : evaluatePermissions clock records pluginInstanceID ids now = .ok (true, missing)) :
    ∀ id ∈ normalizeValues ids, ∃ r ∈ records, trim r.permissionID = id ∧
      trim r.pluginInstanceID = trim pluginInstanceID ∧ r.effect = .grant ∧ r.revokedAt = none ∧
      ∀ e ∈ r.expiresAt, normalizeNow clock now < e := by
  intro id hid
  unfold evaluatePermissions at h
  dsimp only at h
  split_ifs at h with hb hnone
  · simp [hnone] at hid
  · split at h
    · cases h
    rename_i grants hg
    simp only [Except.ok.injEq, Prod.mk.injEq, decide_eq_true_eq, List.filter_eq_nil_iff] at h
    have hfound := h.1 id hid
    simp only [Bool.not_eq_true, Bool.not_eq_false', List.any_eq_true, Bool.and_eq_true,
      decide_eq_true_eq] at hfound
    obtain ⟨r, hr, rfl, hactive⟩ := hfound
    rcases mem_indexGrants hg hr with hnil | ⟨record, hre, rfl, hpl⟩
    · cases hnil
    simp only [active, Bool.and_eq_true, decide_eq_true_eq, Option.isNone_iff_eq_none,
      Option.all_eq_true] at hactive
    exact ⟨record, hre, rfl, hpl, hactive.1.1, hactive.1.2, fun e he => hactive.2 e he⟩

theorem allows_of_evaluate {policy method required evaluation}
    (h : evaluatePolicy policy pluginInstanceID method required = .ok evaluation)
    (hal : evaluation.allowed = true) :
    ∀ p ∈ policy, trim method ∉ normalizeValues p.deniedMethods ∧
      (normalizeValues p.allowedPermissions = [] ∨
        ∀ id ∈ normalizeValues required, id ∈ normalizeValues p.allowedPermissions) := by
  intro p hp
  cases hp
  unfold evaluatePolicy at h
  split_ifs at h with hb
  dsimp only at h
  split_ifs at h with husable hde
  · cases h
    cases hal
  · refine ⟨hde, ?_⟩
    unfold evaluatePermissionCeiling at h
    split_ifs at h
    dsimp only at h
    split_ifs at h with hem hmi
    · exact .inl hem
    · cases h
      cases hal
    · refine .inr fun id hid => ?_
      have hnone := List.filter_eq_nil_iff.mp (not_not.mp hmi) id hid
      simpa [normalizePolicy] using hnone

theorem ensureAuthorizationRevisions_ok {expected plugin}
    (h : ensureAuthorizationRevisions expected plugin = .ok ()) : plugin.revisions = expected := by
  unfold ensureAuthorizationRevisions at h
  split_ifs at h with hz hco
  exact (not_not.mp hco).symm

/-- A decision that allows has found the expected revisions, a policy that allows, and a grant
of every permission that is not bound to a resource. -/
theorem allowed_spec {snapshot req decision}
    (h : evaluateAuthorizationSnapshot clock snapshot req = .ok decision)
    (hal : decision.allowed = true) :
    snapshot.plugin.revisions = req.expected ∧ PolicyAllows snapshot req ∧
      ∀ id ∈ normalizeValues req.permissionIDs, resourceScoped id = false →
        Granted clock snapshot req id := by
  revert h
  fun_cases evaluateAuthorizationSnapshot clock snapshot req <;> rintro ⟨⟩
  rename_i hre evaluation hpo granted missing hg
  simp only [Bool.and_eq_true] at hal
  obtain ⟨hallo, rfl⟩ := hal
  refine ⟨ensureAuthorizationRevisions_ok hre, allows_of_evaluate hpo hallo, fun id hid hsc => ?_⟩
  refine granted_of_evaluate hg id (mem_normalizeValues.mpr ?_)
  obtain ⟨hne, value, hva, rfl⟩ := mem_normalizeValues.mp hid
  refine ⟨hne, trim value, ?_, trim_trim value⟩
  exact List.mem_filter.mpr ⟨hid, by rw [hsc]; rfl⟩

end RedevPlugin.Authorization
