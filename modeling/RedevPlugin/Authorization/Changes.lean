import RedevPlugin.Authorization.Transactions

/-! What the transactions of the registry change. A section writes the grants and the policy of
at most one plugin. A plugin's row stays as it is, or it moves: to the next management revision
and epoch, to the next epoch, to a preference that no revision counts, or to a new installation. -/

namespace RedevPlugin.Authorization

open ControlStore Text Threads

/-- The plugin whose grants and policy a section may write. -/
def Call.replaced : Call → Option PluginKey
  | .commit owner next _ => some ⟨owner, next.plugin.pluginInstanceID⟩
  | .transaction (.updateExternalPackage key _ _) => some key
  | .transaction (.commitPluginDataVersion expected owner _ true) =>
    some ⟨owner, expected.pluginInstanceID⟩
  | .transaction (.commitUninstall key _ _) => some key
  | _ => none

/-- The same grants and the same policy of a plugin. -/
def SameAuthorization (key : PluginKey) (db t : Database) : Prop :=
  readGrants t key = readGrants db key ∧ readPolicy t key = readPolicy db key

theorem SameAuthorization.refl (key : PluginKey) (db : Database) : SameAuthorization key db db :=
  ⟨rfl, rfl⟩

variable {db t : Database} {key k : PluginKey} {revision policyRevision : ℕ}
  {expected : AuthorizationRevisions} {snapshot : AuthorizationSnapshot} {owner : String}
  {plugin : Plugin} {row : PluginRow} {p : PluginRow → Bool} {next : PackageRecord}
  {retained : Bool} {tx : Transaction} {clock : Time} {n : Option Call} {e : Event}

theorem sameAuthorization_of_eq (hg : t.grants = db.grants)
    (hpo : t.policies = db.policies) : SameAuthorization key db t := by
  rw [SameAuthorization, readGrants, readGrants, readPolicy, readPolicy, hg, hpo]
  exact ⟨rfl, rfl⟩

theorem filter_clear (hne : k ≠ key) :
    (db.clear k).grants.rows.filter (·.key = key) = db.grants.rows.filter (·.key = key) := by
  change (db.grants.rows.filter fun row => !(decide (row.key = k))).filter (·.key = key) = _
  rw [List.filter_filter]
  refine List.filter_congr fun row _ => ?_
  by_cases hrow : row.key = key
  · simp [hrow, Ne.symm hne]
  · simp [hrow]

theorem sameAuthorization_clear (db : Database) (hne : k ≠ key) :
    SameAuthorization key db (db.clear k) := by
  refine ⟨by rw [readGrants, readGrants, filter_clear hne], ?_⟩
  change (db.policies.delete _).find key = db.policies.find key
  rw [Rows.find_delete]
  cases hrow : db.policies.find key with
  | none => rfl
  | some row =>
    have hkey : row.key = key := Rows.key_of_find hrow
    simp [hkey, Ne.symm hne]

theorem filter_insertGrants (hne : k ≠ key) {records t u}
    (h : insertGrants k revision records t = .ok u) :
    u.rows.filter (·.key = key) = t.rows.filter (·.key = key) := by
  revert h
  fun_induction insertGrants k revision records t <;> try rintro ⟨⟩
  · rfl
  · rename_i hin ih
    intro h
    obtain ⟨hnone, rfl⟩ := Rows.insert_eq_some hin
    rw [ih h]
    simp [Rows.push, List.filter_append, hne]

theorem replaceAuthorization_same (h : replaceAuthorization db owner snapshot expected = .ok t)
    (hne : (⟨owner, snapshot.plugin.pluginInstanceID⟩ : PluginKey) ≠ key) :
    SameAuthorization key db t := by
  unfold replaceAuthorization at h
  dsimp only at h
  split_ifs at h
  split at h
  · cases h
  rename_i grants hg
  have hsame : (grants.rows.filter (·.key = key)).insertionSort capabilityBefore =
      readGrants db key := by
    rw [filter_insertGrants hne hg, filter_clear hne, readGrants]
  split at h
  · cases h
    exact ⟨hsame, (sameAuthorization_clear db hne).2⟩
  · split at h
    · cases h
    rename_i policies hpo
    cases h
    refine ⟨hsame, ?_⟩
    obtain ⟨hnone, rfl⟩ := Rows.insert_eq_some hpo
    change (Rows.push _ _ hnone).find key = readPolicy db key
    rw [Rows.find_push, if_neg (Ne.symm hne)]
    exact (sameAuthorization_clear db hne).2

theorem persistInstall_same (h : persistInstall db key retained plugin = .ok t) :
    SameAuthorization k db t := by
  revert h
  fun_cases persistInstall db key retained plugin <;> rintro ⟨⟩ <;>
    exact sameAuthorization_of_eq rfl rfl

/-- A transaction keeps the grants and the policy of every plugin that it does not replace. -/
theorem transact_same (h : transact db tx = .ok t)
    (hne : (Call.transaction tx).replaced ≠ some k) : SameAuthorization k db t := by
  cases tx with
  | install =>
    simp only [transact, installCommit] at h
    split_ifs at h
    split at h
    · split_ifs at h
      exact persistInstall_same h
    · exact persistInstall_same h
    · cases h
  | putPlugin =>
    simp only [transact, putPlugin] at h
    iterate 4 split at h <;> try cases h
    exact sameAuthorization_of_eq rfl rfl
  | setAutomaticUpdates | bumpRevokeEpoch | bindData =>
    simp only [transact, setAutomaticUpdates, bumpRevokeEpoch, bindData] at h
    split at h <;> try cases h
    split_ifs at h
    cases h
    exact sameAuthorization_of_eq rfl rfl
  | updateExternalPackage _ next =>
    simp only [transact, updateExternalPackage] at h
    split at h <;> try cases h
    rename_i existing hget
    split_ifs at h
    cases h
    have hkey : _ ≠ k := fun heq => hne (congrArg some heq)
    exact sameAuthorization_clear (db.persist _ (next.after _ existing)) hkey
  | commitPluginDataVersion expected owner _ external =>
    simp only [transact, commitPluginDataVersion] at h
    iterate 4 split at h <;> try cases h
    rename_i plugin hput
    cases external with
    | false => exact sameAuthorization_of_eq rfl rfl
    | true =>
      have hkey : (⟨owner, expected.pluginInstanceID⟩ : PluginKey) ≠ k :=
        fun heq => hne (congrArg some heq)
      exact sameAuthorization_clear (db.persist _ plugin) hkey
  | recoverRetained =>
    simp only [transact, recoverRetained] at h
    iterate 4 split at h <;> try cases h
    exact sameAuthorization_of_eq rfl rfl
  | commitUninstall =>
    simp only [transact, commitUninstall] at h
    split at h <;> try cases h
    rename_i plugin hget
    split at h <;> cases h
    have hkey : _ ≠ k := fun heq => hne (congrArg some heq)
    exact sameAuthorization_clear
      (db.persist _ { plugin.managed with deletedAt := some _ }) hkey
  | setReady =>
    cases h
    exact SameAuthorization.refl k db

/-- A change that is prepared from a snapshot: the expected revisions are those of the snapshot,
and the next policy revision goes with it. -/
def Prepared (snapshot next : AuthorizationSnapshot) (expected : AuthorizationRevisions) : Prop :=
  snapshot.plugin.revisions = expected ∧ ∃ epoch, next.plugin = snapshot.plugin.bumped epoch

/-- What a section does, by the position of its call. A check decides by its clock. -/
inductive Section (db : Database) (o : Choice) : Call → Event → Database → Option Call → Prop where
  | failed (c e) : Section db o c (.failed e) db none
  | record {owner op row} (hrow : readRecord db (op.key owner) = .ok row) :
      Section db o (.readRecord owner op) .read db (some (.readGrants owner op row))
  | grants (owner op row) :
      Section db o (.readGrants owner op row) .read db
        (some (.readPolicy owner op row (readGrants db (op.key owner))))
  | decided {owner req row grants snapshot now} (hnow : o = .clock now)
      (hsnapshot : decodeAuthorizationSnapshot row grants
        (readPolicy db ⟨owner, req.pluginInstanceID⟩) = .ok snapshot) :
      Section db o (.readPolicy owner (.authorize req) row grants)
        (.decided owner req (evaluateAuthorizationSnapshot now snapshot req)) db none
  | prepared {owner op row grants snapshot next expected} (hop : ∀ req, op ≠ .authorize req)
      (hsnapshot : decodeAuthorizationSnapshot row grants (readPolicy db (op.key owner)) =
        .ok snapshot) (hprepared : Prepared snapshot next expected) :
      Section db o (.readPolicy owner op row grants) .read db (some (.commit owner next expected))
  | replaced {owner : String} {next : AuthorizationSnapshot} {expected : AuthorizationRevisions}
      {t : Database} (hreplace : replaceAuthorization db owner next expected = .ok t) :
      Section db o (.commit owner next expected) .committed t none
  | state {key state plugin next} (hget : getPlugin db key = .ok plugin)
      (hprepare : prepareEnableState plugin state = .ok next) :
      Section db o (.readEnableState key state) .read db (some (.writeEnableState key next))
  | enabled {key : PluginKey} {plugin : Plugin} {t : Database}
      (hwrite : writeEnableState db key plugin = .ok t) :
      Section db o (.writeEnableState key plugin) .committed t none
  | transacted {tx : Transaction} {t : Database} (htransact : transact db tx = .ok t) :
      Section db o (.transaction tx) .committed t none

variable {next : AuthorizationSnapshot}

theorem prepareGrantPermission_ok {req}
    (h : prepareGrantPermission clock snapshot req expected = .ok next) :
    Prepared snapshot next expected := by
  revert h
  fun_cases prepareGrantPermission clock snapshot req expected <;> rintro ⟨⟩
  exact ⟨ensureAuthorizationRevisions_ok ‹_›, 0, rfl⟩

theorem prepareRevokePermission_ok {req}
    (h : prepareRevokePermission clock snapshot req expected = .ok next) :
    Prepared snapshot next expected := by
  revert h
  fun_cases prepareRevokePermission clock snapshot req expected <;> rintro ⟨⟩
  exact ⟨ensureAuthorizationRevisions_ok ‹_›, 1, rfl⟩

theorem prepareSecurityPolicy_ok {req}
    (h : prepareSecurityPolicy clock snapshot req expected = .ok next) :
    Prepared snapshot next expected := by
  revert h
  fun_cases prepareSecurityPolicy clock snapshot req expected <;> rintro ⟨⟩
  exact ⟨ensureAuthorizationRevisions_ok ‹_›, 1, rfl⟩

theorem prepareDeleteSecurityPolicy_ok {id}
    (h : prepareDeleteSecurityPolicy snapshot id expected = .ok next) :
    Prepared snapshot next expected := by
  revert h
  fun_cases prepareDeleteSecurityPolicy snapshot id expected <;> rintro ⟨⟩
  exact ⟨ensureAuthorizationRevisions_ok ‹_›, 1, rfl⟩

theorem conclude_section {now : Time} {op : Operation} {grants : List GrantRow}
    (hsnapshot : decodeAuthorizationSnapshot row grants (readPolicy db (op.key owner)) =
      .ok snapshot) (h : conclude now db owner op snapshot = (e, t, n)) :
    Section db (.clock now) (.readPolicy owner op row grants) e t n := by
  cases op with simp only [conclude] at h
  | authorize =>
    cases h
    exact .decided rfl hsnapshot
  | grant =>
    split at h <;> cases h
    · exact .failed _ _
    · exact .prepared (by simp) hsnapshot (prepareGrantPermission_ok (by assumption))
  | revoke =>
    split at h <;> cases h
    · exact .failed _ _
    · exact .prepared (by simp) hsnapshot (prepareRevokePermission_ok (by assumption))
  | putPolicy =>
    split at h <;> cases h
    · exact .failed _ _
    · exact .prepared (by simp) hsnapshot (prepareSecurityPolicy_ok (by assumption))
  | deletePolicy =>
    split at h <;> cases h
    · exact .failed _ _
    · exact .prepared (by simp) hsnapshot (prepareDeleteSecurityPolicy_ok (by assumption))

/-- A section fails, or it does what its position says. -/
theorem written_section {c : Call} {o : Choice} {result : Except AuthorizationError Database}
    (hok : ∀ {t}, result = .ok t → Section db o c .committed t none)
    (h : some (written db result) = some (e, t, n)) : Section db o c e t n := by
  cases result with cases h
  | error => exact .failed _ _
  | ok => exact hok rfl

theorem advance_section {c : Call} {o : Choice} (h : advance db c o = some (e, t, n)) :
    Section db o c e t n := by
  revert h
  fun_cases advance db c o <;> try rintro ⟨⟩
  · exact .failed _ _
  · exact .failed _ _
  · exact .record ‹_›
  · exact .grants _ _ _
  · exact .failed _ _
  · exact fun h => conclude_section ‹_› (Option.some.inj h)
  · exact written_section .replaced
  · exact .failed _ _
  · exact .failed _ _
  · exact .state ‹_› ‹_›
  · exact written_section .enabled
  · exact written_section .transacted

end RedevPlugin.Authorization
