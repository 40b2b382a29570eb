import RedevPlugin.Bridge.TokenAuthority

/-! The operations of the token manager on one plugin or session leave the tokens of others
as they are. The indexes join identifiers with a NUL, so this asks for identifiers without
one; and an expired record is removed by the next `Mint`, so it asks for times that do not go
back to before that. Every token that is minted with a surface and a valid session is then
found in all four indexes. -/

namespace RedevPlugin.Bridge

open Text (trim blank)
open Transition

namespace TokenManager

variable {hashToken : String → String} {s s' : TokenManager} {op : Operation} {a : Answer}

/-! ### Checks of a token -/

/-- The record with which a check succeeds in this state, if it does. -/
def accepted (hashToken : String → String) (s : TokenManager) (check : Operation) :
    Option TokenRecord :=
  (s.perform hashToken check).bind fun x => x.1.acceptedRecord

variable {r r₀ : TokenRecord} {h x env plugin key : String} {now : ℤ} {check : Operation}

theorem passes_of_accepted (hi : Indexed s) (h : accepted hashToken s check = some r) :
    ∃ x r₀, s.Usable check.time x r₀ ∧ Passes hashToken check x r₀ r := by
  obtain ⟨⟨a, s'⟩, hpe, ha⟩ := Option.bind_eq_some_iff.mp h
  exact (perform_performs hi hpe).passes ha

theorem accepted_of_passes (hi : Indexed s) (hu : s.Usable check.time x r₀)
    (hp : Passes hashToken check x r₀ r) : accepted hashToken s check = some r := by
  cases check with
  | validate q clock =>
    obtain ⟨rfl, hkind, hva⟩ := hp
    have hload : s.loadTokenRecordLocked q.kind (effectiveTime clock q.now) (hashToken q.token) =
        .ok r₀ := loadTokenRecordLocked_ok.mpr ⟨hkind, hu⟩
    simp only [accepted, perform, validate, hload, hva]
    rfl
  | validateID q clock =>
    obtain ⟨hid, hkey, hkind, hau, hre, hco⟩ := hp
    have hload : s.loadTokenRecordLocked q.kind (effectiveTime clock q.now) x = .ok r₀ :=
      loadTokenRecordLocked_ok.mpr ⟨hkind, hu⟩
    simp only [accepted, perform, validateID, loadTokenRecordByIDLocked, if_neg hid,
      hi.ids.mpr ⟨r₀, hu.row, hkey⟩, hu.row, reduceCtorEq, if_false, hload, Except.map]
    simp [audienceMatches, hau, hre, hco, Answer.acceptedRecord]
  | inspect q clock =>
    obtain ⟨hb, rfl, hkind, rfl⟩ := hp
    have hload : s.loadTokenRecordLocked q.kind (effectiveTime clock q.now) (hashToken q.token) =
        .ok r₀ := loadTokenRecordLocked_ok.mpr ⟨hkind, hu⟩
    simp [accepted, perform, inspect, hb, hload, Answer.acceptedRecord]
  | _ => exact hp.elim

/-! ### What an operation is about -/

/-- The identifiers have no NUL, and a token is minted for a surface and a valid session. -/
def Operation.Careful : Operation → Prop
  | .mint q _ _ _ _ =>
    blank q.audience.surfaceInstanceID = false ∧ q.audience.sessionScope.valid = true ∧
      '\x00' ∉ q.audience.pluginInstanceID.toList
  | .revokePlugin env _ _ _ _ _ => '\x00' ∉ env.toList
  | .revokeSurface env plugin _ _ _ _ => '\x00' ∉ env.toList ∧ '\x00' ∉ plugin.toList
  | _ => True

instance : DecidablePred Operation.Careful := by
  intro op
  cases op <;> unfold Operation.Careful <;> infer_instance

/-- A `Mint` has not removed records that are live at this time. -/
def Operation.NotAfter : Operation → ℤ → Prop
  | .mint q _ clock _ _, time => effectiveTime clock q.now ≤ time
  | _, _ => True

variable {r' : TokenRecord} {order : List String} {selects : TokenRecord → Bool}

theorem concerns_of_later (h : Later r r') (op : Operation) : op.Concerns r' ↔ op.Concerns r := by
  cases op <;>
    simp only [Operation.Concerns, OfPlugin, h.audience, h.kind, h.tokenID]

structure CarefulRecord (r : TokenRecord) : Prop where
  surface : blank r.audience.surfaceInstanceID = false
  session : r.audience.sessionScope.valid = true
  plugin : '\x00' ∉ r.audience.pluginInstanceID.toList

def AllCareful (s : TokenManager) : Prop := ∀ {h r}, s.records.lookup h = some r → CarefulRecord r

theorem Performs.allCareful (hi : Indexed s) (hp : Performs hashToken s op a s')
    (hc : op.Careful) (hall : AllCareful s) : AllCareful s' := by
  intro h r' hr'
  rcases (hp.evolves hi).rows hr' with ⟨hmi, -⟩ | ⟨r, hr, hl⟩
  · obtain ⟨q, v, clock, draws, order, rfl, hmakes, -⟩ := hp.mints hmi
    rw [Operation.Careful, ← hmakes.audience] at hc
    exact ⟨hc.1, hc.2.1, hc.2.2⟩
  · obtain ⟨hsu, hse, hpl⟩ := hall hr
    rw [← hl.audience] at hsu hse hpl
    exact ⟨hsu, hse, hpl⟩

/-! ### Keys name one plugin -/

theorem ofPlugin_of_pluginKey (hfo : r.Formed) (hnul : '\x00' ∉ env.toList)
    (hkey : ownerPluginIndexKey env plugin = .ok key) (h : r.pluginKey = key) :
    OfPlugin r env plugin := by
  have hown := (ownerPluginIndexKey_ok.mp (hfo.key.symm.trans hfo.found)).2.2
  rw [h, (ownerPluginIndexKey_ok.mp hkey).2.2] at hown
  obtain ⟨henv, hpl⟩ := Text.join_inj (fun hmem => hnul (Text.mem_of_mem_trim hmem))
    (fun hmem => Session.notMem_of_validOwnerHash hfo.env (by decide) (Text.mem_of_mem_trim hmem))
      hown
  exact ⟨henv.symm, hpl.symm⟩

theorem ownerSurfaceIndexKey_record (hfo : r.Formed) (hc : CarefulRecord r) :
    ownerSurfaceIndexKey r.audience.ownerEnvHash r.audience.pluginInstanceID
        r.audience.surfaceInstanceID = .ok (tokenSurfaceIndexKey r.audience) ∧
      r.surfaceKey = some (tokenSurfaceIndexKey r.audience) := by
  have hown := hfo.key.symm.trans hfo.found
  have hok := ownerSurfaceIndexKey_ok.mpr ⟨r.pluginKey, hown, hc.surface, rfl⟩
  have hkey : tokenSurfaceIndexKey r.audience =
      r.pluginKey ++ String.singleton '\x00' ++ trim r.audience.surfaceInstanceID := by
    rw [tokenSurfaceIndexKey, hok]
    rfl
  refine ⟨by rw [hkey]; exact hok, ?_⟩
  rw [TokenRecord.surfaceKey, hkey, if_neg (by rw [blank_of_nul]; exact Bool.false_ne_true)]

theorem ofPlugin_of_surfaceKey {surface} (hfo : r.Formed) (hc : CarefulRecord r)
    (henv : '\x00' ∉ env.toList) (hpl : '\x00' ∉ plugin.toList)
    (hkey : ownerSurfaceIndexKey env plugin surface = .ok key) (h : r.surfaceKey = some key) :
    OfPlugin r env plugin ∧ trim r.audience.surfaceInstanceID = trim surface := by
  obtain ⟨hre, hown⟩ := ownerSurfaceIndexKey_record hfo hc
  rw [← Option.some.inj (h.symm.trans hown)] at hre
  obtain ⟨k, hk, -, heq⟩ := ownerSurfaceIndexKey_ok.mp hkey
  obtain ⟨k', hk', -, heq'⟩ := ownerSurfaceIndexKey_ok.mp hre
  rw [(ownerPluginIndexKey_ok.mp hk).2.2, String.append_assoc, String.append_assoc] at heq
  rw [(ownerPluginIndexKey_ok.mp hk').2.2, String.append_assoc, String.append_assoc] at heq'
  have hnot : ∀ {x : String}, '\x00' ∉ x.toList → '\x00' ∉ (trim x).toList :=
    fun hx hmem => hx (Text.mem_of_mem_trim hmem)
  -- the three parts are cut off one after the other
  obtain ⟨hfi, hres⟩ := Text.join_inj (hnot henv)
    (hnot (Session.notMem_of_validOwnerHash hfo.env (by decide)))
    (heq.symm.trans heq')
  rw [← String.append_assoc, ← String.append_assoc] at hres
  obtain ⟨hse, hth⟩ := Text.join_inj (hnot hpl) (hnot hc.plugin) hres
  exact ⟨⟨hfi.symm, hse.symm⟩, hth.symm⟩

/-! ### Rows of other tokens -/

/-- A revocation of records that the operation is about keeps the rows of a token. -/
theorem revoked_row_iff
    (hro : ∀ h, s'.records.lookup h = (s.records.lookup h).map (revokedBy now selects order h))
    (hsame : ∀ {h r}, s.records.lookup h = some r → h ∈ order → selects r = true → op.Concerns r)
    (hr : ¬ op.Concerns r) : s'.records.lookup h = some r ↔ s.records.lookup h = some r := by
  have hk : ∀ {r}, s.records.lookup h = some r → ¬ op.Concerns r →
      revokedBy now selects order h r = r := fun hrow hot =>
    if_neg fun hin => hot (hsame hrow hin.1 hin.2.1)
  rw [hro]
  constructor
  · intro hmap
    obtain ⟨r₀, hr₀, rfl⟩ := Option.map_eq_some_iff.mp hmap
    rw [hk hr₀ fun h₀ => hr ((concerns_of_later (later_revokedBy ..) op).mpr h₀)]
    exact hr₀
  · intro hrow
    rw [hrow, Option.map_some, hk hrow hr]

theorem insert_row_iff (hr₀ : s.records.lookup x = some r₀) (hl : Later r₀ r')
    (hr : ¬ op.Concerns r) (hc : op.Concerns r₀) :
    (s.records.insert x r').lookup h = some r ↔ s.records.lookup h = some r := by
  rw [Finmap.lookup_insert_ite]
  split_ifs with hh
  · rw [hh, hr₀]
    refine ⟨fun heq => ?_, fun heq => ?_⟩ <;> cases heq
    · exact absurd ((concerns_of_later hl op).mpr hc) hr
    · exact absurd hc hr
  · exact Iff.rfl

theorem key_of_listed {K : Type} [DecidableEq K] {m : Buckets K String} {k : K}
    {key : TokenRecord → Option K} {live : TokenRecord → Prop}
    (hm : m.Indexes s.records key live) (horder : Lists order (m.bucket k))
    (hr : s.records.lookup h = some r) (hin : h ∈ order) : key r = some k := by
  rw [← List.mem_toFinset, horder.2] at hin
  obtain ⟨r', hr', hk⟩ := hm.sound hin
  cases hr.symm.trans hr'
  exact hk

/-- The row of a token that the operation is not about, and that is live at its time, is the
same before and after. -/
theorem Performs.row_iff (hi : Indexed s) (hall : AllCareful s)
    (hp : Performs hashToken s op a s') (hc : op.Careful) (hr : ¬ op.Concerns r) {time : ℤ}
    (hli : time < r.expiresAt) (hnot : op.NotAfter time) :
    s'.records.lookup h = some r ↔ s.records.lookup h = some r := by
  have hpr : ∀ {now order}, now ≤ time → Lists order s.records.keys →
      ((s.pruneExpiredRecordsLocked now order).records.lookup h = some r ↔
        s.records.lookup h = some r) := by
    intro now order hnow horder
    rw [prune_records horder, Option.filter_eq_some_iff, decide_eq_true_iff]
    exact and_iff_left (lt_of_le_of_lt hnow hli)
  cases hp with
  | same | inspected => exact Iff.rfl
  | pruned _ _ _ _ _ _ horder => exact hpr hnot horder
  | minted _ _ _ _ _ _ horder hmakes hcheck =>
    rw [← hpr hnot horder, addRecordLocked_records, Finmap.lookup_insert_ite]
    split_ifs with hh
    · rw [hh, (mintCheck_free hcheck).1]
      refine ⟨fun heq => ?_, fun heq => by cases heq⟩
      cases heq
      exact absurd hmakes.audience hr
    · exact Iff.rfl
  | checked _ _ _ _ husable hpass hconcerns =>
    exact insert_row_iff husable.row hpass.later.1 hr hconcerns
  | revokedID _ _ now clock _ r₀ hr₀ hconcerns =>
    exact insert_row_iff hr₀ (later_revokeRecord (effectiveTime clock now) r₀) hr hconcerns
  | revokedPlugin _ _ epoch now clock order key _ hkey horder =>
    have hto := touches_revokeWhere (s.raiseFloor key epoch).2 (effectiveTime clock now)
      (fun record => record.revision.revokeEpoch < epoch) order
    obtain ⟨⟨floors, saturated, hfr⟩, -⟩ := raiseFloor_spec s key epoch
    have hrecords : (s.raiseFloor key epoch).2.records = s.records := by rw [hfr]
    refine revoked_row_iff (fun h => by rw [hto.rows, hrecords]) (fun hr₁ hin _ => ?_) hr
    exact ofPlugin_of_pluginKey (hi.formed hr₁) hc hkey
      (Option.some.inj (key_of_listed hi.plugins horder hr₁ hin))
  | revokedSurface _ _ _ _ _ order _ _ hkey horder =>
    refine revoked_row_iff (touches_revokeWhere s _ _ order).rows (fun hr₁ hin _ => ?_) hr
    exact ofPlugin_of_surfaceKey (hi.formed hr₁) (hall hr₁) hc.1 hc.2 hkey
      (key_of_listed hi.surfaces horder hr₁ hin)
  | revokedGeneration _ _ _ order =>
    refine revoked_row_iff (touches_revokeWhere s _ _ order).rows (fun _ _ hma => ?_) hr
    simp only [tokenMatchesSurfaceGeneration, Bool.and_eq_true, decide_eq_true_iff] at hma
    refine ⟨by simp_all [SurfaceSession.audience], ?_⟩
    simp_all [Audience.sessionScope, SurfaceSession.audience]
  | revokedSession scope now clock order _ horder =>
    obtain ⟨-, hro, -⟩ := revokeSessionScope_spec scope (effectiveTime clock now) hi order
    refine revoked_row_iff hro (fun hr₁ hin _ => ?_) hr
    have hk := key_of_listed hi.sessions horder hr₁ hin
    rw [TokenRecord.sessionKey] at hk
    split_ifs at hk
    exact Option.some.inj hk

/-! ### Runs -/

/-- A check of a token that the operation is not about has the same result before and after,
unless it looks back to before a `Mint`. -/
def Isolated (hashToken : String → String) (s : TokenManager) (op : Operation)
    (s' : TokenManager) : Prop :=
  ∀ check r, op.NotAfter check.time → ¬ op.Concerns r →
    (accepted hashToken s' check = some r ↔ accepted hashToken s check = some r)

/-- Every record that is not revoked is found by its id, plugin, surface and session. -/
def AllFound (s : TokenManager) : Prop :=
  ∀ h r, s.records.lookup h = some r → r.revoked = false →
    s.idIndex.lookup (tokenIDIndexKey r.kind r.tokenID) = some h ∧
      h ∈ s.pluginIndex.bucket r.pluginKey ∧
      h ∈ s.surfaceIndex.bucket (tokenSurfaceIndexKey r.audience) ∧
      h ∈ s.sessionIndex.bucket r.audience.sessionScope

def CountsPreviewed (hashToken : String → String) (s : TokenManager)
    (l : Operation × Answer) : Prop :=
  ∀ scope now clock order counts order' counts',
    l = (.revokeSessionScope scope now clock order, .counts (.ok counts)) →
    s.perform hashToken (.previewSessionScopeRevocation scope order') =
      some (.counts (.ok counts'), s) → counts = counts'

theorem Performs.isolated (hs : Indexed s) (hall : AllCareful s)
    (hp : Performs hashToken s op a s') (hc : op.Careful) : Isolated hashToken s op s' := by
  intro check r hnot hot
  have hs' := (hp.evolves hs).indexed
  have hsame : ∀ {x r₀}, Passes hashToken check x r₀ r → check.time < r₀.expiresAt →
      (s'.records.lookup x = some r₀ ↔ s.records.lookup x = some r₀) := fun hpass hli =>
    hp.row_iff hs hall hc (fun h => hot ((concerns_of_later hpass.later.1 op).mpr h)) hli hnot
  constructor
  · intro hac
    obtain ⟨x, r₀, hu, hpass⟩ := passes_of_accepted hs' hac
    exact accepted_of_passes hs { hu with row := (hsame hpass hu.live).mp hu.row } hpass
  · intro hac
    obtain ⟨x, r₀, hu, hpass⟩ := passes_of_accepted hs hac
    exact accepted_of_passes hs' { hu with row := (hsame hpass hu.live).mpr hu.row } hpass

theorem allFound (hs : Indexed s) (hall : AllCareful s) : AllFound s := by
  intro h r hr hre
  refine ⟨hs.ids.mpr ⟨r, hr, rfl⟩, hs.plugins.complete hr trivial rfl, ?_, ?_⟩
  · exact hs.surfaces.complete hr trivial (ownerSurfaceIndexKey_record (hs.formed hr) (hall hr)).2
  · exact hs.sessions.complete hr hre (by rw [TokenRecord.sessionKey, if_pos (hall hr).session])

theorem Performs.countsPreviewed (hp : Performs hashToken s op a s') :
    CountsPreviewed hashToken s (op, a) := by
  intro scope now clock order counts order' counts' hl hpr
  cases hl
  cases hp with
  | same _ _ hrefuses => cases hrefuses
  | revokedSession _ _ _ _ hva horder =>
    simp only [perform, hva, Bool.not_true, Bool.false_eq_true, if_false] at hpr
    split_ifs at hpr with horder'
    cases hpr
    exact preview_perm horder horder'

def sampleAudience (plugin surface session : String) : Audience :=
  { pluginID := "x", pluginInstanceID := plugin, pluginVersion := "1", activeFingerprint := "f"
    surfaceID := "v", surfaceInstanceID := surface, entryPath := "i", entrySHA256 := "d"
    assetSessionNonce := "n", routeRole := "r", ownerSessionHash := session, ownerUserHash := "u"
    ownerEnvHash := "e", sessionChannelIDHash := "c", runtimeGenerationID := "g" }

def sampleMint (plugin surface session : String) (now expiresAt : ℤ) (id : String)
    (order : List String) : Operation :=
  .mint { kind := .assetSession, audience := sampleAudience plugin surface session
          revision := ⟨1, 1, 1⟩, expiresAt, now } 0 0 ⟨some id, some "n", some "s"⟩ order

def sampleCheck (plugin surface session token : String) (now : ℤ) : Operation :=
  .validate { kind := .assetSession, token, audience := sampleAudience plugin surface session
              revision := ⟨1, 1, 1⟩, now } 0

def sampleOperations : List Operation :=
  [sampleMint "p" "t" "a" 1 10 "k" [], sampleMint "q" "w" "b" 2 10 "l" ["asset_session.as_k.s"],
    .revokeSurface "e" "p" "t" 3 0 ["asset_session.as_k.s"]]

/-- In every run of a manager, whatever the operations and their times, a token is used up at
most once, revoked epochs and sessions stay so, a revocation counts what a preview would
have, records are indexed under their own keys only and the limits hold. If identifiers have
no NUL and tokens are minted for a surface and a valid session, then every record that is not
revoked is in all four indexes and no operation changes what a check says about a token it is
not about, at times that are not before a `Mint`. -/
theorem run_keeps_authority {options : TokenManagerOptions}
    {tr : List ((Operation × Answer) × TokenManager)}
    (hr : (system hashToken options).Run (newTokenManager options) tr) :
    Authority (labels tr) ∧
    (∀ x ∈ steps (newTokenManager options) tr, CountsPreviewed hashToken x.1 x.2.1) ∧
    (∀ u ∈ states (newTokenManager options) tr, Indexed u ∧ Bounded u) ∧
    (Guarded (fun _ _ l => l.1.Careful) [] (newTokenManager options) tr →
      (∀ u ∈ states (newTokenManager options) tr, AllFound u) ∧
      ∀ x ∈ steps (newTokenManager options) tr, Isolated hashToken x.1 x.2.1.1 x.2.2) := by
  have hnew : Sound (newTokenManager options) := ⟨indexed_new options, bounded_new options⟩
  have hsound := Run.sound hr hnew
  refine ⟨run_labels hr hnew, ?_, hsound, fun hg => ?_⟩
  · exact hr.forall_steps (fun u l t hu hstep => (perform_performs hu.1 hstep).countsPreviewed)
      hsound
  · have hkeep : ∀ (h : List (Operation × Answer)) u l t, Indexed u ∧ AllCareful u → l.1.Careful →
        (system hashToken options).step u l t → Indexed t ∧ AllCareful t := by
      intro _ u l t hu hc hstep
      have hp := perform_performs hu.1 hstep
      exact ⟨(hp.evolves hu.1).indexed, hp.allCareful hu.1 hc hu.2⟩
    have hstart : Indexed (newTokenManager options) ∧ AllCareful (newTokenManager options) :=
      ⟨hnew.1, fun {h r} hr => by simp [newTokenManager] at hr⟩
    refine ⟨fun u hu => ?_, ?_⟩
    · have hcareful := hr.forall_states hkeep hstart hg u hu
      exact allFound hcareful.1 hcareful.2
    · exact hr.forall_guarded_steps (fun h u l t hu hc hstep => ⟨hkeep h u l t hu hc hstep,
        (perform_performs hu.1 hstep).isolated hu.1 hu.2 hc⟩) hstart hg

/-- Of two plugins with a token each, the surface of one is revoked. -/
theorem run_keeps_authority_two_plugins :
    (labels (trace (perform id) (newTokenManager {}) sampleOperations)).length = 3 ∧
    Guarded (fun _ _ l => l.1.Careful) [] (newTokenManager {})
      (trace (perform id) (newTokenManager {}) sampleOperations) ∧
    ∀ x ∈ steps (newTokenManager {}) (trace (perform id) (newTokenManager {}) sampleOperations),
      Isolated id x.1 x.2.1.1 x.2.2 := by
  have hcareful : Guarded (fun _ _ l => l.1.Careful) [] (newTokenManager {})
      (trace (perform id) (newTokenManager {}) sampleOperations) := by decide
  exact ⟨by decide, hcareful,
    ((run_keeps_authority (System.run_trace _ (perform id) _ sampleOperations)).2.2.2 hcareful).2⟩

def sampleGrant : Operation :=
  .mint { kind := .handleGrant, audience := { sampleAudience "p" "" "a" with
            handleID := "h", method := "m", resourceScope := ⟨.environment, "e", ""⟩ },
          revision := ⟨1, 1, 1⟩, expiresAt := 10, now := 1 } 0 0 ⟨some "k", some "n", some "s"⟩ []

def stateAfter (ops : List Operation) : TokenManager :=
  last (newTokenManager {}) (trace (perform id) (newTokenManager {}) ops)

/-- A revocation of a surface of `p` revokes a token of another plugin. A `Mint` for one plugin
removes an expired token of another, which then fails at an earlier time. A handle grant
without a surface is in no bucket of the surfaces. -/
theorem operations_reach_other_tokens :
    ((accepted id (stateAfter [sampleMint "p\x00s" "t" "a" 1 10 "k" []])
        (sampleCheck "p\x00s" "t" "a" "asset_session.as_k.s" 3)).isSome = true ∧
      accepted id (stateAfter [sampleMint "p\x00s" "t" "a" 1 10 "k" [],
          .revokeSurface "e" "p" "s\x00t" 2 0 ["asset_session.as_k.s"]])
        (sampleCheck "p\x00s" "t" "a" "asset_session.as_k.s" 3) = none) ∧
    ((accepted id (stateAfter [sampleMint "p" "t" "a" 1 10 "k" []])
        (sampleCheck "p" "t" "a" "asset_session.as_k.s" 3)).isSome = true ∧
      accepted id (stateAfter [sampleMint "p" "t" "a" 1 10 "k" [],
          sampleMint "q" "w" "b" 20 30 "l" ["asset_session.as_k.s"]])
        (sampleCheck "p" "t" "a" "asset_session.as_k.s" 3) = none) ∧
    (((stateAfter [sampleGrant]).records.lookup "handle_grant.hg_k.s").isSome = true ∧
      ∀ key, (stateAfter [sampleGrant]).surfaceIndex.bucket key = ∅) := by
  refine ⟨by decide, by decide, by decide, fun key => ?_⟩
  rw [show (stateAfter [sampleGrant]).surfaceIndex = .empty from rfl, Buckets.bucket_empty]

end TokenManager

end RedevPlugin.Bridge
