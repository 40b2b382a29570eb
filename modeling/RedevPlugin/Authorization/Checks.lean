import RedevPlugin.Authorization.Changes

/-! Decisions and the states of the registry. A check reads the record of a plugin, then its
grants, then its policy, and compares the expected revisions with the record alone. If no
transaction replaces the grants and the policy in between, then the three belong to the state in
which the record was read. -/

namespace RedevPlugin.Authorization

open ControlStore Transition Threads

/-- The record, the grants and the policy of a plugin in one state. -/
def snapshotOf (db : Database) (key : PluginKey) :
    Except AuthorizationError AuthorizationSnapshot :=
  match readRecord db key with
  | .error e => .error e
  | .ok row => decodeAuthorizationSnapshot row (readGrants db key) (readPolicy db key)

/-- The plugin whose record a check has read, and not yet all the rest. -/
def Call.checked : Call → Option PluginKey
  | .readGrants owner (.authorize req) _
  | .readPolicy owner (.authorize req) _ _ => some ⟨owner, req.pluginInstanceID⟩
  | _ => none

/-- A transaction that replaces grants and policy of a plugin runs when no check of the plugin is
between its reads. -/
def Undisturbed (_ : List (Action Call Choice × Option Event)) (u : Pool Database Call)
    (l : Action Call Choice × Option Event) : Prop :=
  match l.1 with
  | .enter _ => True
  | .advance c _ => ∀ d ∈ u.calls, c.replaced = none ∨ d.checked ≠ c.replaced

instance (h : List (Action Call Choice × Option Event)) (u : Pool Database Call)
    (l : Action Call Choice × Option Event) : Decidable (Undisturbed h u l) :=
  match l with
  | (.enter _, _) => .isTrue trivial
  | (.advance c _, _) =>
    inferInstanceAs (Decidable (∀ d ∈ u.calls, c.replaced = none ∨ d.checked ≠ c.replaced))

/-- There is a state in which the plugin has the expected revisions, a policy that allows the
method, and every permission that is not bound to a resource is granted at the time. -/
def Authorized (seen : Database → Prop) (clock : Time) (owner : String) (req : AuthorizeRequest) :
    Prop :=
  ∃ db snapshot, seen db ∧ snapshotOf db ⟨owner, req.pluginInstanceID⟩ = .ok snapshot ∧
    snapshot.plugin.revisions = req.expected ∧ PolicyAllows snapshot req ∧
    ∀ id ∈ normalizeValues req.permissionIDs, resourceScoped id = false →
      Granted clock snapshot req id

/-- What a check holds is that of a state, and what it has not yet read is the same now. -/
def Held (seen : Database → Prop) (db : Database) : Call → Prop
  | .readGrants owner (.authorize req) row =>
    ∃ old, seen old ∧ readRecord old ⟨owner, req.pluginInstanceID⟩ = .ok row ∧
      SameAuthorization ⟨owner, req.pluginInstanceID⟩ old db
  | .readPolicy owner (.authorize req) row grants =>
    ∃ old, seen old ∧ readRecord old ⟨owner, req.pluginInstanceID⟩ = .ok row ∧
      readGrants old ⟨owner, req.pluginInstanceID⟩ = grants ∧
      readPolicy db ⟨owner, req.pluginInstanceID⟩ = readPolicy old ⟨owner, req.pluginInstanceID⟩
  | _ => True

variable {n : Option Call} {e : Event} {c d : Call} {o : Choice} {db t : Database}
  {seen : Database → Prop}

theorem Section.same {key} (h : Section db o c e t n) (hne : c.replaced ≠ some key) :
    SameAuthorization key db t := by
  cases h with
  | replaced hreplace =>
    exact replaceAuthorization_same hreplace fun heq => hne (congrArg some heq)
  | enabled hwrite =>
    revert hwrite
    fun_cases writeEnableState <;> rintro ⟨⟩
    exact sameAuthorization_of_eq rfl rfl
  | transacted htransact => exact transact_same htransact hne
  | _ => exact SameAuthorization.refl key db

theorem Held.step (h : Section db o c e t n) (hfree : c.replaced = none ∨ d.checked ≠ c.replaced)
    (hd : Held seen db d) : Held seen t d := by
  have hsame : ∀ key, d.checked = some key → SameAuthorization key db t := by
    intro key hkey
    refine h.same fun hrep => ?_
    rcases hfree with hnone | hne
    · simp [hnone] at hrep
    · exact hne (hkey.trans hrep.symm)
  cases d with
  | readGrants _ op =>
    cases op with
    | authorize =>
      obtain ⟨old, hse, hre, hgr, hpo⟩ := hd
      obtain ⟨hg, hp⟩ := hsame _ rfl
      exact ⟨old, hse, hre, hg.trans hgr, hp.trans hpo⟩
    | _ => trivial
  | readPolicy _ op =>
    cases op with
    | authorize =>
      obtain ⟨old, hse, hre, hgr, hpo⟩ := hd
      exact ⟨old, hse, hre, hgr, (hsame _ rfl).2.trans hpo⟩
    | _ => trivial
  | _ => trivial

theorem Held.next (hse : seen db) (hc : Held seen db c) (h : Section db o c e t (some d)) :
    Held seen t d := by
  cases h with
  | @record _ op _ hrow =>
    cases op with
    | authorize => exact ⟨db, hse, hrow, SameAuthorization.refl _ db⟩
    | _ => trivial
  | grants _ op =>
    cases op with
    | authorize =>
      obtain ⟨old, hold, hre, hg, hpo⟩ := hc
      exact ⟨old, hold, hre, hg.symm, hpo⟩
    | _ => trivial
  | prepared | state => trivial

/-- A check that allows has read a state in which the plugin is authorized. -/
theorem Held.authorized {owner req result decision} (hc : Held seen db c)
    (h : Section db o c (.decided owner req result) t n) (hres : result = .ok decision)
    (hal : decision.allowed = true) :
    ∃ clock, o = .clock clock ∧ Authorized seen clock owner req := by
  cases h with
  | @decided _ _ _ _ snapshot now hnow hsnapshot =>
    obtain ⟨old, hold, hre, hg, hpo⟩ := hc
    refine ⟨now, hnow, old, snapshot, hold, ?_, allowed_spec hres hal⟩
    unfold snapshotOf
    rw [hre]
    rw [hg, ← hpo]
    exact hsnapshot

/-- The registry starts empty, or with any tables that were committed before. -/
def checks : System (Pool Database Call) (Action Call Choice × Option Event) :=
  program.system fun _ => True

/-- In a run in which every section meets the condition, every check holds what belongs to a state
of the run, up to the check's last section. -/
theorem held_of_run (seen : Database → Prop) {u tr} (hu : u.calls = 0) (hr : checks.Run u tr)
    (hg : Guarded Undisturbed [] u tr) (hsee : ∀ v ∈ states u tr, seen v.shared) :
    ∀ c ∈ (last u tr).calls, Held seen (last u tr).shared c := by
  have hbo : Guarded (fun h v l => Undisturbed h v l ∧ seen v.shared ∧ True) [] u tr :=
    hg.and (guarded_of_forall (R := fun v : Pool Database Call => seen v.shared)
      (L := fun _ => True) hsee fun _ _ => trivial)
  refine (Program.forall_guarded (P := program)
    (I := fun db calls => ∀ c ∈ calls, Held seen db c) (E := fun _ _ => True)
    ?_ ?_ (by simp [hu]) hr hbo).1 _ (last_mem_states u tr)
  · intro h db calls c hen hC hI
    refine ⟨fun d hd => ?_, trivial⟩
    rcases Multiset.mem_cons.mp hd with rfl | hd
    · cases d <;> trivial
    · exact hI d hd
  · intro h db rest c o e t n hI hC had
    have hse := advance_section had
    refine ⟨fun d hd => ?_, trivial⟩
    rcases mem_next_add.mp hd with rfl | hd
    · exact Held.next hC.2.1 (hI c (Multiset.mem_cons_self c rest)) hse
    · have hmem := Multiset.mem_cons_of_mem (a := d) (b := c) hd
      exact Held.step hse (hC.1 d hmem) (hI d hmem)

/-- If transactions that replace grants and policy do not fall between the reads of a check, then
every check that allows a method does so by a state of the registry before its last read: one in
which the plugin has the expected revisions and is authorized, at the time of the check's clock. -/
theorem allowed_was_authorized {u : Pool Database Call}
    {a b : List ((Action Call Choice × Option Event) × Pool Database Call)}
    {l : Action Call Choice × Option Event} {t : Pool Database Call} (hu : checks.init u)
    (hr : checks.Run u (a ++ (l, t) :: b)) (hg : Guarded Undisturbed [] u (a ++ (l, t) :: b))
    {owner : String} {req : AuthorizeRequest} {decision : AuthorizationDecision}
    (hl : l.2 = some (.decided owner req (.ok decision))) (hallowed : decision.allowed = true) :
    ∃ c clock, l.1 = .advance c (.clock clock) ∧
      Authorized (fun db => ∃ v ∈ states u a, v.shared = db) clock owner req := by
  obtain ⟨hra, hrest⟩ := (checks.run_append u a _).mp hr
  obtain ⟨hga, -⟩ := (guarded_append Undisturbed [] u a _).mp hg
  have hheld := held_of_run (fun db => ∃ v ∈ states u a, v.shared = db) hu.2 hra hga
    fun v hv => ⟨v, hv, rfl⟩
  obtain ⟨c, -, rfl, -⟩ | ⟨c, o, e, db, n, rest, rfl, hcalls, hadvance, -⟩ :=
    Program.step_cases ((checks.run_cons _ _ _ _).mp hrest).1
  · cases hl
  cases hl
  rw [hcalls] at hheld
  obtain ⟨clock, rfl, hau⟩ :=
    (hheld c (Multiset.mem_cons_self c rest)).authorized (advance_section hadvance) rfl hallowed
  exact ⟨c, clock, rfl, hau⟩

def emptyDatabase : Database := ⟨true, Rows.empty, Rows.empty, Rows.empty⟩

def sampleInstall : Call := .transaction (.install ⟨"o", "p"⟩ ⟨.enabled, "f", false⟩ 1 false)

def samplePlugin : Plugin := ⟨"p", ⟨1, 1, 1⟩, .enabled, "f", false, none⟩

def sampleRow : PluginRow := ⟨⟨"o", "p"⟩, ⟨1, 1, 1⟩, none, some samplePlugin⟩

def sampleRequest (expected : AuthorizationRevisions) : AuthorizeRequest :=
  ⟨"p", "m", ["net"], expected, zeroTime⟩

def sampleGrant : Operation := .grant ⟨"p", "net", "user", 4, zeroTime⟩ ⟨1, 1, 1⟩

def sampleRecord : PermissionRecord := ⟨"p", "net", .grant, "user", 4, none, none, "", ""⟩

def sampleGrantRow : GrantRow := ⟨⟨"o", "p"⟩, "net", 2, sampleRecord⟩

def sampleGrantedRow : PluginRow := ⟨⟨"o", "p"⟩, ⟨2, 1, 1⟩, none, some (samplePlugin.bumped 0)⟩

/-- A permission is granted, from the record to the commit. -/
def sampleGranting : List (Action Call Choice) :=
  [.enter (.readRecord "o" sampleGrant), .advance (.readRecord "o" sampleGrant) (.clock 1),
    .advance (.readGrants "o" sampleGrant sampleRow) (.clock 1),
    .advance (.readPolicy "o" sampleGrant sampleRow []) (.clock 1),
    .advance (.commit "o" ⟨samplePlugin.bumped 0, [sampleRecord], none⟩ ⟨1, 1, 1⟩) (.clock 1)]

/-- A check reads a record and, after some other actions, grants and policy. -/
def sampleCheck (expected : AuthorizationRevisions) (row : PluginRow)
    (between : List (Action Call Choice)) : List (Action Call Choice) :=
  let op := Operation.authorize (sampleRequest expected)
  [.enter (.readRecord "o" op), .advance (.readRecord "o" op) (.clock 2)] ++ between ++
    [.advance (.readGrants "o" op row) (.clock 2),
      .advance (.readPolicy "o" op row [sampleGrantRow]) (.clock 2)]

def sampleTrace (actions : List (Action Call Choice)) :
    List ((Action Call Choice × Option Event) × Pool Database Call) :=
  trace program.perform ⟨emptyDatabase, 0⟩
    ([.enter sampleInstall, .advance sampleInstall (.clock 0)] ++ actions)

/-- A permission is granted first and checked then, with the revisions of the grant. -/
theorem allowed_was_authorized_granted :
    let tr := sampleTrace (sampleGranting ++ sampleCheck ⟨2, 1, 1⟩ sampleGrantedRow [])
    Authorized (fun db => ∃ v ∈ states ⟨emptyDatabase, 0⟩ (tr.take 10), v.shared = db) 2 "o"
      (sampleRequest ⟨2, 1, 1⟩) := by
  intro tr
  have hrun : checks.Run ⟨emptyDatabase, 0⟩ tr := System.run_trace _ program.perform _ _
  have hg : Guarded Undisturbed [] ⟨emptyDatabase, 0⟩ tr := by decide
  obtain ⟨_, _, ⟨⟩, hau⟩ := allowed_was_authorized (a := tr.take 10)
    (b := []) ⟨trivial, rfl⟩ hrun hg
    (by rfl : _ = some (Event.decided _ _ (.ok ⟨⟨2, 1, 1⟩, true, [], .allow⟩))) rfl
  exact hau

/-- A check reads the record, a permission is granted, and the check reads the grants: it allows,
though the permission was never granted with the expected revisions. -/
theorem check_allows_unauthorized :
    let tr := sampleTrace (sampleCheck ⟨1, 1, 1⟩ sampleRow sampleGranting)
    checks.Run ⟨emptyDatabase, 0⟩ tr ∧
      (∃ a t, tr = a ++ [((.advance (.readPolicy "o" (.authorize (sampleRequest ⟨1, 1, 1⟩))
        sampleRow [sampleGrantRow]) (.clock 2), some (.decided "o" (sampleRequest ⟨1, 1, 1⟩)
          (.ok ⟨⟨1, 1, 1⟩, true, [], .allow⟩))), t)]) ∧
      ∀ clock, ¬ Authorized (fun db => ∃ v ∈ states ⟨emptyDatabase, 0⟩ tr, v.shared = db) clock "o"
        (sampleRequest ⟨1, 1, 1⟩) := by
  intro tr
  have hnone : ∀ v ∈ states ⟨emptyDatabase, 0⟩ tr,
      ∀ snapshot ∈ (snapshotOf v.shared ⟨"o", "p"⟩).toOption,
        snapshot.plugin.revisions = ⟨1, 1, 1⟩ → snapshot.grants = [] := by decide
  refine ⟨System.run_trace _ program.perform _ _, ⟨tr.take 10, last ⟨emptyDatabase, 0⟩ tr, rfl⟩, ?_⟩
  rintro clock ⟨db, snapshot, ⟨v, hv, rfl⟩, hsnapshot, hrevisions, -, hgranted⟩
  have hthere : (snapshotOf v.shared ⟨"o", "p"⟩).toOption = some snapshot :=
    congrArg Except.toOption hsnapshot
  have hgrants := hnone v hv snapshot hthere hrevisions
  obtain ⟨r, hr, -⟩ := hgranted "net" (by decide) (by decide)
  simp [hgrants] at hr

end RedevPlugin.Authorization
