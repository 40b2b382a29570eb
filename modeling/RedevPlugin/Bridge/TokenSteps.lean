import RedevPlugin.Bridge.TokenIndexes

/-! What each operation of the token manager does to the records, the floors and the
sizes. An operation touches records, or removes the expired ones and possibly adds one; the
loops of the revocations are folds whose effect on a single record is found by induction. -/

namespace RedevPlugin.Bridge

open Session (SessionScope)
open Text (trim blank)

namespace TokenManager

variable {hashToken : String → String} {s : TokenManager}

/-! ### The loops of the revocations -/

/-- What a loop over `order` makes of a record. -/
def revokedBy (now : ℤ) (selects : TokenRecord → Bool) (order : List String) (h : String)
    (r : TokenRecord) : TokenRecord :=
  if h ∈ order ∧ selects r = true ∧ r.revoked = false then revokeRecord now r else r

theorem later_revokedBy (now : ℤ) (selects : TokenRecord → Bool) (order : List String)
    (h : String) (r : TokenRecord) : Later r (revokedBy now selects order h r) := by
  unfold revokedBy
  split_ifs
  · exact later_revokeRecord now r
  · exact .refl r

variable {r record r' : TokenRecord} {h pluginKey : String} {order : List String} {now clock : ℤ}
  {kind : TokenKind} {s' : TokenManager} {a : Answer} {op : Operation}

theorem revoked_revokedBy {selects} (hmem : h ∈ order) (hsel : selects r = true) :
    (revokedBy now selects order h r).revoked = true := by
  unfold revokedBy
  split_ifs with hr
  · rfl
  · cases hrev : r.revoked with
    | true => rfl
    | false => exact absurd ⟨hmem, hsel, hrev⟩ hr

/-- The record that one round leaves is left as it is by the other rounds. -/
theorem revokedBy_cons (now : ℤ) (selects : TokenRecord → Bool) (x : String)
    (order : List String) (h : String) (r : TokenRecord) :
    revokedBy now selects order h (revokedBy now selects [x] h r) =
      revokedBy now selects (x :: order) h r := by
  by_cases hx : h = x
  · subst hx
    by_cases hsel : selects r = true ∧ r.revoked = false
    · have hdo : (revokeRecord now r).revoked = true := rfl
      simp [revokedBy, hsel, hdo]
    · simp [revokedBy, hsel]
  · simp [revokedBy, hx]

theorem map_revokedBy_nil (now : ℤ) (selects : TokenRecord → Bool) (h : String)
    (o : Option TokenRecord) : o.map (revokedBy now selects [] h) = o := by
  cases o <;> simp [revokedBy]

theorem revokeRound_rows (now : ℤ) (selects : TokenRecord → Bool) (acc : ℕ × TokenManager)
    (x h : String) :
    (revokeRound now selects acc x).2.records.lookup h =
      (acc.2.records.lookup h).map (revokedBy now selects [x] h) := by
  unfold revokeRound
  by_cases hx : h = x
  · subst hx
    cases hl : acc.2.records.lookup h with
    | none => simp [hl]
    | some r => by_cases hsel : selects r = true ∧ r.revoked = false <;> simp [hl, hsel, revokedBy]
  · have hot : ∀ o : Option TokenRecord, o.map (revokedBy now selects [x] h) = o := by
      intro o
      cases o <;> simp [revokedBy, hx]
    rw [hot]
    split
    · rfl
    · split_ifs
      · exact Finmap.lookup_insert_of_ne _ hx
      · rfl

theorem revokeRound_frame (now : ℤ) (selects : TokenRecord → Bool) (acc : ℕ × TokenManager)
    (x : String) : (revokeRound now selects acc x).2 =
      { acc.2 with records := (revokeRound now selects acc x).2.records } := by
  unfold revokeRound
  split
  · rfl
  · split <;> rfl

theorem touches_revokeWhere (s : TokenManager) (now : ℤ) (selects : TokenRecord → Bool)
    (order : List String) :
    Touches s (s.revokeWhere now selects order).2 (revokedBy now selects order) := by
  have hfo : ∀ acc : ℕ × TokenManager,
      (∀ h, (order.foldl (revokeRound now selects) acc).2.records.lookup h =
        (acc.2.records.lookup h).map (revokedBy now selects order h)) ∧
      (order.foldl (revokeRound now selects) acc).2 =
        { acc.2 with records := (order.foldl (revokeRound now selects) acc).2.records } := by
    induction order with
    | nil => exact fun acc => ⟨fun h => (map_revokedBy_nil now selects h _).symm, rfl⟩
    | cons x _ ih =>
      intro acc
      obtain ⟨hro, hfr⟩ := ih (revokeRound now selects acc x)
      rw [List.foldl_cons]
      refine ⟨fun h => ?_, ?_⟩
      · rw [hro, revokeRound_rows, Option.map_map]
        congr 1
        funext r
        exact revokedBy_cons now selects x _ h r
      · rw [hfr, revokeRound_frame]
  obtain ⟨hro, hfr⟩ := hfo (0, s)
  exact ⟨hro, fun _ => later_revokedBy .., hfr⟩

/-- One round of the loop over a session revokes the record and drops it from the index. -/
theorem revokeSessionRound_spec (scope : SessionScope) (now : ℤ)
    (acc : SessionTokenRevocationCounts × TokenManager) (x : String) :
    (∀ h, (revokeSessionRound scope now acc x).2.records.lookup h =
      (acc.2.records.lookup h).map (revokedBy now (fun _ => true) [x] h)) ∧
    (revokeSessionRound scope now acc x).2 = { acc.2 with
        records := (revokeSessionRound scope now acc x).2.records
        sessionIndex := acc.2.sessionIndex.remove scope x } := by
  have hro := revokeRound_rows now (fun _ => true) (0, acc.2) x
  unfold revokeRound at hro
  unfold revokeSessionRound
  dsimp only at hro ⊢
  cases hl : acc.2.records.lookup x with rw [hl] at hro
  | none => exact ⟨hro, rfl⟩
  | some r => cases hrev : r.revoked <;> simp only [hrev] at hro ⊢ <;> exact ⟨hro, rfl⟩

/-- The loop over the session index keeps the indexes and revokes every record it meets. -/
theorem revokeSessionScope_spec (scope : SessionScope) (now : ℤ) (hi : Indexed s)
    (order : List String) :
    Indexed (s.revokeSessionScope scope now order).2 ∧
    (∀ h, (s.revokeSessionScope scope now order).2.records.lookup h =
      (s.records.lookup h).map (revokedBy now (fun _ => true) order h)) ∧
    ∃ records sessionIndex, (s.revokeSessionScope scope now order).2 =
      { s with records, sessionIndex } := by
  unfold revokeSessionScope
  generalize (fun _ => 0 : SessionTokenRevocationCounts) = counts
  induction order generalizing s counts with
  | nil => exact ⟨hi, fun h => (map_revokedBy_nil ..).symm, s.records, s.sessionIndex, rfl⟩
  | cons x _ ih =>
    obtain ⟨hrows, hfr⟩ := revokeSessionRound_spec scope now (counts, s) x
    rw [List.foldl_cons]
    generalize hro : revokeSessionRound scope now (counts, s) x = acc at hrows hfr
    obtain ⟨counts', t⟩ := acc
    dsimp only at hrows hfr
    have hto : Touches s { s with records := t.records } (revokedBy now (fun _ => true) [x]) :=
      ⟨hrows, fun _ => later_revokedBy .., rfl⟩
    have hde : ∀ r, t.records.lookup x = some r → ¬ r.revoked = false := by
      intro r hr
      rw [hrows, Option.map_eq_some_iff] at hr
      obtain ⟨r₀, -, rfl⟩ := hr
      rw [revoked_revokedBy (by simp) rfl]
      simp
    have hin : Indexed t := by
      have htou := hi.touch hto
      rw [hfr]
      exact ⟨htou.own, htou.formed, htou.ids, htou.plugins, htou.surfaces, htou.sessions.drop hde⟩
    obtain ⟨hi', hr', records, sessionIndex, heq⟩ := ih hin counts'
    refine ⟨hi', fun h => ?_, records, sessionIndex, ?_⟩
    · rw [hr', hrows, Option.map_map]
      congr 1
      funext r
      exact revokedBy_cons now _ x _ h r
    · rw [heq, hfr]

/-! ### Counts -/

theorem increment_comm (counts : SessionTokenRevocationCounts) (k k' : TokenKind) :
    (counts.increment k).increment k' = (counts.increment k').increment k := by
  have hca : ∀ (c : SessionTokenRevocationCounts) (k x : TokenKind),
      c.increment k x = c x + if x = k ∧ validTokenKind k then 1 else 0 := by
    intro c k x
    cases k with
    | other => simp [SessionTokenRevocationCounts.increment, validTokenKind]
    | _ =>
      simp only [SessionTokenRevocationCounts.increment, Function.update_apply, validTokenKind]
      split_ifs with hx <;> simp_all
  funext x
  rw [hca, hca, hca, hca]
  omega

theorem preview_perm {order' keys} (h : Lists order keys) (h' : Lists order' keys) :
    s.previewSessionScopeRevocation order = s.previewSessionScopeRevocation order' := by
  have hpe : order.Perm order' :=
    (List.perm_ext_iff_of_nodup h.1 h'.1).mpr fun x => by
      rw [← List.mem_toFinset, ← List.mem_toFinset, h.2, h'.2]
  have hco : RightCommutative s.previewRound := by
    refine ⟨fun counts x y => ?_⟩
    unfold previewRound
    cases s.records.lookup x <;> cases s.records.lookup y <;> dsimp only
    split_ifs
    all_goals first | rfl | exact increment_comm ..
  exact hpe.foldl_eq _

theorem revokeSessionScope_counts (scope : SessionScope) (now : ℤ) (hno : order.Nodup) :
    (s.revokeSessionScope scope now order).1 = s.previewSessionScopeRevocation order := by
  unfold revokeSessionScope previewSessionScopeRevocation
  generalize (fun _ => 0 : SessionTokenRevocationCounts) = counts
  have hfo : ∀ (t : TokenManager) counts, (∀ x ∈ order, t.records.lookup x = s.records.lookup x) →
      (order.foldl (revokeSessionRound scope now) (counts, t)).1 =
        order.foldl s.previewRound counts := by
    induction order with
    | nil => exact fun t counts _ => rfl
    | cons x order ih =>
      intro t counts hsame
      obtain ⟨hnot, hno⟩ := List.nodup_cons.mp hno
      have hro := (revokeSessionRound_spec scope now (counts, t) x).1
      have hco : (revokeSessionRound scope now (counts, t) x).1 = s.previewRound counts x := by
        unfold revokeSessionRound previewRound
        rw [hsame x (by simp)]
        cases s.records.lookup x with
        | none => rfl
        | some r => cases hr : r.revoked <;> simp [hr]
      rw [List.foldl_cons, List.foldl_cons, ← hco]
      generalize revokeSessionRound scope now (counts, t) x = acc at hro
      refine ih hno acc.2 acc.1 fun y hy => ?_
      have hne : y ≠ x := by
        rintro rfl
        exact hnot hy
      rw [hro, ← hsame y (by simp [hy])]
      cases t.records.lookup y <;> simp [revokedBy, hne]
  exact hfo s counts fun _ _ => rfl

/-! ### Floors -/

/-- No token of this plugin with a smaller epoch is minted: the floor is at least the epoch,
or there is no floor and none can be added any more. -/
def Barred (s : TokenManager) (pluginKey : String) (epoch : ℕ) : Prop :=
  epoch ≤ (s.pluginRevokeFloors.lookup pluginKey).getD 0 ∨
    (s.revokeFloorsSaturated = true ∧ s.pluginRevokeFloors.lookup pluginKey = none ∧
      s.options.maxRevokeFloors ≤ s.pluginRevokeFloors.size)

theorem mintCheck_barred (h : s.mintCheck pluginKey record = .ok ()) {epoch}
    (hb : s.Barred pluginKey epoch) : epoch ≤ record.revision.revokeEpoch := by
  unfold mintCheck at h
  split_ifs at h with hsat hfl
  rcases hb with hb | ⟨hs, hnone, -⟩
  · exact hb.trans (Nat.le_of_not_lt hfl)
  · exact absurd ⟨hs, hnone⟩ hsat

/-- What raising a floor leaves alone, and that it bars the plugin. -/
theorem raiseFloor_spec (s : TokenManager) (pluginKey : String) (epoch : ℕ) :
    (∃ floors saturated, (s.raiseFloor pluginKey epoch).2 =
      { s with pluginRevokeFloors := floors, revokeFloorsSaturated := saturated }) ∧
    (s.raiseFloor pluginKey epoch).2.Barred pluginKey epoch ∧
    (∀ k e, s.Barred k e → (s.raiseFloor pluginKey epoch).2.Barred k e) ∧
    ((s.pluginRevokeFloors.size : ℤ) ≤ s.options.maxRevokeFloors →
      ((s.raiseFloor pluginKey epoch).2.pluginRevokeFloors.size : ℤ) ≤
        s.options.maxRevokeFloors) := by
  unfold raiseFloor
  split_ifs with hlow hfull
  · exact ⟨⟨_, _, rfl⟩, .inr ⟨rfl, hfull⟩, fun k e hb => hb.imp_right fun h => ⟨rfl, h.2⟩, id⟩
  · refine ⟨⟨_, _, rfl⟩, .inl (by simp), fun k e hb => ?_, fun hsi => ?_⟩
    · rcases hb with hb | ⟨hsat, hnone, hsi⟩
      · refine .inl ?_
        simp only [Finmap.lookup_insert_ite]
        split_ifs with hk
        · subst hk
          exact hb.trans hlow.le
        · exact hb
      · -- a plugin without a floor gets none while the floors are full
        have hpr : s.pluginRevokeFloors.lookup pluginKey ≠ none := fun h => hfull ⟨h, hsi⟩
        have hne : k ≠ pluginKey := by
          rintro rfl
          exact hpr hnone
        refine .inr ⟨hsat, ?_, ?_⟩
        · simpa only [Finmap.lookup_insert_of_ne _ hne] using hnone
        · simpa only [Finmap.size_insert_of_some hpr] using hsi
    · simp only
      cases hl : s.pluginRevokeFloors.lookup pluginKey with
      | none =>
        rw [Finmap.size_insert hl]
        have : ¬ s.options.maxRevokeFloors ≤ s.pluginRevokeFloors.size := fun h => hfull ⟨hl, h⟩
        omega
      | some f =>
        rw [Finmap.size_insert_of_some (by simp [hl])]
        exact hsi
  · exact ⟨⟨_, _, rfl⟩, .inl (Nat.le_of_not_lt hlow), fun k e hb => hb, id⟩

/-! ### Validation -/

/-- The token has a record with which it is accepted at this time. -/
structure Usable (s : TokenManager) (time : ℤ) (h : String) (r : TokenRecord) : Prop where
  row : s.records.lookup h = some r
  unrevoked : r.revoked = false
  unused : r.consumed = false
  live : time < r.expiresAt

theorem loadTokenRecordLocked_ok :
    s.loadTokenRecordLocked kind now h = .ok r ↔ r.kind = kind ∧ s.Usable now h r := by
  unfold loadTokenRecordLocked
  constructor
  · intro hl
    split at hl
    · cases hl
    split_ifs at hl with hkind hre hex hco
    cases hl
    exact ⟨not_not.mp hkind, ‹_›, by simpa using hre, by simpa using hco, Int.not_le.mp hex⟩
  · rintro ⟨hkind, hr, hre, hco, hli⟩
    simp [hr, hkind, hre, hco, hli]

theorem consumeRecord_ok {consume} (h : consumeRecord consume now r = .ok r') :
    Later r r' ∧ (consume = true → r'.consumed = true) := by
  revert h
  fun_cases consumeRecord consume now r <;> rintro ⟨⟩
  · exact ⟨⟨rfl, rfl, rfl, rfl, rfl, rfl, rfl, id, fun _ => rfl⟩, fun _ => rfl⟩
  · exact ⟨.refl r, fun h => absurd h ‹_›⟩

theorem bindRecord_ok {channel} (h : bindRecord r channel = .ok r') : Later r r' := by
  revert h
  fun_cases bindRecord r channel <;> rintro ⟨⟩
  · exact .refl r
  · exact ⟨rfl, rfl, rfl, rfl, rfl, rfl, rfl, id, id⟩

theorem validateRecord_ok {req} (h : validateRecord req now r = .ok r') :
    Later r r' ∧ (req.consume = true → r'.consumed = true) ∧ r.audience = req.audience := by
  revert h
  fun_cases validateRecord req now r <;> try rintro ⟨⟩
  rename_i hau _ _ hbi
  intro h
  obtain ⟨hl, hc⟩ := consumeRecord_ok h
  exact ⟨(bindRecord_ok hbi).trans hl, hc, by simpa [audienceMatches] using hau⟩

/-- The time at which a check looks at the token. -/
def Operation.time : Operation → ℤ
  | .validate q clock | .validateID q clock | .inspect q clock => effectiveTime clock q.now
  | _ => 0

def Operation.consumes : Operation → Bool
  | .validate q _ | .validateID q _ => q.consume
  | _ => false

/-- The part of a check that only reads the record. -/
def Passes (hashToken : String → String) :
    Operation → String → TokenRecord → TokenRecord → Prop
  | .validate q clock, h, r₀, r =>
    h = hashToken q.token ∧ r₀.kind = q.kind ∧
      validateRecord q (effectiveTime clock q.now) r₀ = .ok r
  | .validateID q clock, _, r₀, r =>
    trim q.tokenID ≠ "" ∧
      tokenIDIndexKey r₀.kind r₀.tokenID = tokenIDIndexKey q.kind (trim q.tokenID) ∧
      r₀.kind = q.kind ∧ r₀.audience = q.audience ∧ r₀.revision = q.revision ∧
      consumeRecord q.consume (effectiveTime clock q.now) r₀ = .ok r
  | .inspect q _, h, r₀, r => blank q.token = false ∧ h = hashToken q.token ∧
    r₀.kind = q.kind ∧ r₀ = r
  | _, _, _, _ => False

theorem Passes.later (hp : Passes hashToken op h r r') :
    Later r r' ∧ (op.consumes = true → r'.consumed = true) := by
  cases op with
  | validate => exact ⟨(validateRecord_ok hp.2.2).1, (validateRecord_ok hp.2.2).2.1⟩
  | validateID => exact consumeRecord_ok hp.2.2.2.2.2
  | inspect =>
    rw [← hp.2.2.2]
    exact ⟨.refl r, nofun⟩
  | _ => exact hp.elim

/-- A record is replaced by a later version of itself. -/
theorem touches_insert (hr : s.records.lookup h = some r) (hl : Later r r') :
    Touches s { s with records := s.records.insert h r' } fun h' q => if h' = h then r' else q := by
  refine ⟨fun h' => ?_, fun {h' q} hq => ?_, rfl⟩
  · change (s.records.insert h r').lookup h' = _
    rw [Finmap.lookup_insert_ite]
    split_ifs with hh
    · rw [hh, hr]
      rfl
    · simp
  · split_ifs with hh
    · rw [hh, hr] at hq
      cases hq
      exact hl
    · exact .refl q

/-! ### What an operation does -/

def Answer.mintedRecord : Answer → Option TokenRecord
  | .minted (.ok token) => some token.record
  | _ => none

/-- The record of a successful `Validate`, `ValidateID` or `Inspect`. -/
def Answer.acceptedRecord : Answer → Option TokenRecord
  | .accepted (.ok record) | .inspected (.ok record) => some record
  | _ => none

/-- How the manager changes in one operation. -/
structure Evolves (s s' : TokenManager) (minted : Option TokenRecord) : Prop where
  indexed : Indexed s'
  options : s'.options = s.options
  rows : ∀ {h r'}, s'.records.lookup h = some r' →
    (minted = some r' ∧ r'.tokenHash = h) ∨ ∃ r, s.records.lookup h = some r ∧ Later r r'
  barred : ∀ k e, s.Barred k e → s'.Barred k e

theorem Evolves.refl (hi : Indexed s) : Evolves s s none :=
  ⟨hi, rfl, fun {_ r'} hr => .inr ⟨r', hr, .refl r'⟩, fun _ _ h => h⟩

theorem Evolves.of_touches {f} (hi : Indexed s) (ht : Touches s s' f) : Evolves s s' none := by
  have hin := hi.touch ht
  refine ⟨hin, by rw [ht.frame], fun {h r'} hr => .inr ?_, fun k e hb => ?_⟩
  · rw [ht.rows, Option.map_eq_some_iff] at hr
    obtain ⟨r, hr, rfl⟩ := hr
    exact ⟨r, hr, ht.later hr⟩
  · rw [ht.frame]
    exact hb

theorem prune_row (hr : (s.pruneExpiredRecordsLocked now order).records.lookup h = some r) :
    s.records.lookup h = some r := by
  rw [prune_rows] at hr
  split_ifs at hr
  exacts [(Option.filter_eq_some_iff.mp hr).1, hr]

theorem Evolves.of_prune (hi : Indexed s) (now : ℤ) (order : List String) :
    Evolves s (s.pruneExpiredRecordsLocked now order) none := by
  obtain ⟨hin, hopt, hfl, hsa⟩ := prune_keeps now hi order
  refine ⟨hin, hopt, fun {h r'} hr => .inr ⟨r', prune_row hr, .refl r'⟩, fun k e hb => ?_⟩
  unfold Barred
  rw [hopt, hfl, hsa]
  exact hb

theorem mintCheck_free (h : s.mintCheck pluginKey record = .ok ()) :
    s.records.lookup record.tokenHash = none ∧
      s.idIndex.lookup (tokenIDIndexKey record.kind record.tokenID) = none ∧
      (s.records.size : ℤ) < s.options.maxRecords ∧
      ((s.pluginIndex.bucket pluginKey).card : ℤ) < s.options.maxRecordsPerPlugin := by
  unfold mintCheck at h
  split_ifs at h with hsat hfl hrecords hpl hha hid
  refine ⟨by simpa using hha, by simpa using hid, Int.not_le.mp hrecords, Int.not_le.mp hpl⟩

/-- The plugin of a record, as the revocations name it. -/
def OfPlugin (r : TokenRecord) (env plugin : String) : Prop :=
  trim r.audience.ownerEnvHash = trim env ∧ trim r.audience.pluginInstanceID = trim plugin

/-- The tokens that an operation is about: those of its audience, of the plugin, surface or
session it revokes, or the one it names. -/
def Operation.Concerns : Operation → TokenRecord → Prop
  | .mint q _ _ _ _, r | .validate q _, r | .validateID q _, r => r.audience = q.audience
  | .revokePlugin env plugin _ _ _ _, r => OfPlugin r env plugin
  | .revokeSurface env plugin surface _ _ _, r =>
    OfPlugin r env plugin ∧ trim r.audience.surfaceInstanceID = trim surface
  | .revokeSurfaceGeneration session _ _ _, r =>
    r.audience.pluginInstanceID = session.pluginInstanceID ∧
      r.audience.sessionScope = (session.audience "").sessionScope
  | .revokeTokenID kind id _ _, r => r.kind = kind ∧ r.tokenID = id
  | .revokeSessionScope scope _ _ _, r => r.audience.sessionScope = scope
  | .inspect _ _, _ | .previewSessionScopeRevocation _ _, _ => False

/-- The answers that come without a change, other than those of `Inspect`. -/
def Refuses : Operation → Answer → Prop
  | .revokePlugin .., a => ∃ n e, a = .revoked n (some e) ∧ e ≠ .revokeFloorCapacity
  | .revokeSessionScope .., a => a = .counts (.error .audience)
  | _, a => a.acceptedRecord = none ∧ a.mintedRecord = none

theorem Refuses.quiet (h : Refuses op a) : a.acceptedRecord = none ∧ a.mintedRecord = none := by
  cases op with
  | revokePlugin =>
    obtain ⟨n, e, rfl, -⟩ := h
    exact ⟨rfl, rfl⟩
  | revokeSessionScope =>
    cases h
    exact ⟨rfl, rfl⟩
  | _ => exact h

inductive Performs (hashToken : String → String) (s : TokenManager) :
    Operation → Answer → TokenManager → Prop where
  | same (op : Operation) (a : Answer) (hrefuses : Refuses op a) : Performs hashToken s op a s
  | inspected (q clock h r) (husable : s.Usable (effectiveTime clock q.now) h r)
    (hpass : Passes hashToken (.inspect q clock) h r r) :
    Performs hashToken s (.inspect q clock) (.inspected (.ok r)) s
  | pruned (q v clock draws order e) (horder : Lists order s.records.keys) :
    Performs hashToken s (.mint q v clock draws order) (.minted (.error e))
      (s.pruneExpiredRecordsLocked (effectiveTime clock q.now) order)
  | minted (q v clock draws order token) (horder : Lists order s.records.keys)
    (hmakes : q.Makes clock token.record)
    (hcheck : (s.pruneExpiredRecordsLocked (effectiveTime clock q.now) order).mintCheck
      token.record.pluginKey token.record = .ok ()) :
    Performs hashToken s (.mint q v clock draws order) (.minted (.ok token))
      ((s.pruneExpiredRecordsLocked (effectiveTime clock q.now) order).addRecordLocked token.record)
  | checked (op : Operation) (h : String) (r r' : TokenRecord) (husable : s.Usable op.time h r)
    (hpass : Passes hashToken op h r r') (hconcerns : op.Concerns r) :
    Performs hashToken s op (.accepted (.ok r')) { s with records := s.records.insert h r' }
  | revokedPlugin (env plugin epoch now clock order key n)
    (hkey : ownerPluginIndexKey env plugin = .ok key)
    (horder : Lists order (s.pluginIndex.bucket key)) :
    Performs hashToken s (.revokePlugin env plugin epoch now clock order)
      (.revoked n (s.raiseFloor key epoch).1)
      ((s.raiseFloor key epoch).2.revokeWhere (effectiveTime clock now)
        (fun record => record.revision.revokeEpoch < epoch) order).2
  | revokedSurface (env plugin surface now clock order key n)
    (hkey : ownerSurfaceIndexKey env plugin surface = .ok key)
    (horder : Lists order (s.surfaceIndex.bucket key)) :
    Performs hashToken s (.revokeSurface env plugin surface now clock order) (.revoked n none)
      (s.revokeWhere (effectiveTime clock now) (fun _ => true) order).2
  | revokedGeneration (session now clock order n) :
    Performs hashToken s (.revokeSurfaceGeneration session now clock order) (.revoked n none)
      (s.revokeWhere (effectiveTime clock now)
        (fun record => tokenMatchesSurfaceGeneration record (session.audience "")
          session.revision) order).2
  | revokedID (kind id now clock h r) (hr : s.records.lookup h = some r)
    (hconcerns : r.kind = kind ∧ r.tokenID = id) :
    Performs hashToken s (.revokeTokenID kind id now clock) (.revokedID true)
      { s with records := s.records.insert h (revokeRecord (effectiveTime clock now) r) }
  | revokedSession (scope now clock order) (hscope : scope.valid = true)
    (horder : Lists order (s.sessionIndex.bucket scope)) :
    Performs hashToken s (.revokeSessionScope scope now clock order)
      (.counts (.ok (s.previewSessionScopeRevocation order)))
      (s.revokeSessionScope scope (effectiveTime clock now) order).2

/-- `Mint` fails and leaves the records, fails and removes expired ones, or removes expired
ones and adds the record. -/
theorem mint_performs {q v draws result} (horder : Lists order s.records.keys)
    (h : s.mint hashToken q v clock draws order = (result, s')) :
    Performs hashToken s (.mint q v clock draws order) (.minted result) s' := by
  unfold mint at h
  split at h
  · cases h
    exact .same _ _ ⟨rfl, rfl⟩
  · rename_i record cleartext hprepare
    have hmakes := prepareMint_ok hprepare
    rw [hmakes.formed.found, hmakes.issuedAt] at h
    dsimp only at h
    split at h <;> cases h
    · exact .pruned q v clock draws order _ horder
    · exact .minted q v clock draws order ⟨record, cleartext⟩ horder hmakes ‹_›

theorem validate_performs {q result} (h : s.validate hashToken q clock = (result, s')) :
    Performs hashToken s (.validate q clock) (.accepted result) s' := by
  revert h
  fun_cases validate hashToken s q clock <;> rintro ⟨⟩
  · exact .same _ _ ⟨rfl, rfl⟩
  · exact .same _ _ ⟨rfl, rfl⟩
  · rename_i hload _ hva
    obtain ⟨hkind, husable⟩ := loadTokenRecordLocked_ok.mp hload
    exact .checked _ _ _ _ husable ⟨rfl, hkind, hva⟩ (validateRecord_ok hva).2.2

theorem validateID_performs (hi : Indexed s) {q result} (h : s.validateID q clock = (result, s')) :
    Performs hashToken s (.validateID q clock) (.accepted result) s' := by
  have hre : ∀ e, Performs hashToken s (.validateID q clock) (.accepted (.error e)) s :=
    fun e => .same _ _ ⟨rfl, rfl⟩
  simp only [validateID, loadTokenRecordByIDLocked] at h
  split_ifs at h with hem
  · cases h
    exact hre _
  cases hid : s.idIndex.lookup (tokenIDIndexKey q.kind (trim q.tokenID)) with
  | none =>
    cases hid ▸ h
    exact hre _
  | some x =>
    -- the index has no entry without a record
    obtain ⟨r, hr, hkey⟩ := hi.ids.mp hid
    simp only [hid, hr, reduceCtorEq, if_false] at h
    cases hload : s.loadTokenRecordLocked q.kind (effectiveTime clock q.now) x with
    | error =>
      cases hload ▸ h
      exact hre _
    | ok =>
      obtain ⟨hkind, husable⟩ := loadTokenRecordLocked_ok.mp hload
      cases hr.symm.trans husable.row
      simp only [hload, Except.map] at h
      split_ifs at h with hau hrev
      · cases h
        exact hre _
      · cases h
        exact hre _
      have hau : r.audience = q.audience := by simpa [audienceMatches] using hau
      split at h <;> cases h
      · exact hre _
      · exact .checked _ x r _ husable ⟨hem, hkey, hkind, hau, not_not.mp hrev, ‹_›⟩ hau

theorem ownerPluginIndexKey_error {env plugin e} (h : ownerPluginIndexKey env plugin = .error e) :
    e = .missingAudience := by
  unfold ownerPluginIndexKey at h
  dsimp only at h
  split_ifs at h
  exact (Except.error.inj h).symm

theorem revokeTokenID_performs {id done}
    (h : s.revokeTokenID kind id (effectiveTime clock now) = (done, s')) :
    Performs hashToken s (.revokeTokenID kind id now clock) (.revokedID done) s' := by
  revert h
  fun_cases revokeTokenID s kind id (effectiveTime clock now) <;> rintro ⟨⟩
  case case5 hr hma =>
    push Not at hma
    exact .revokedID kind id now clock _ _ hr ⟨hma.1, hma.2.1⟩
  all_goals exact .same _ _ ⟨rfl, rfl⟩

theorem inspect_performs {q} :
    Performs hashToken s (.inspect q clock) (.inspected (s.inspect hashToken q clock)) s := by
  unfold inspect
  split_ifs with hb
  · exact .same _ _ ⟨rfl, rfl⟩
  · cases hload : s.loadTokenRecordLocked q.kind (effectiveTime clock q.now)
        (hashToken q.token) with
    | error => exact .same _ _ ⟨rfl, rfl⟩
    | ok r =>
      obtain ⟨hkind, husable⟩ := loadTokenRecordLocked_ok.mp hload
      exact .inspected q clock _ r husable ⟨by simpa using hb, rfl, hkind, rfl⟩

theorem perform_performs (hi : Indexed s) (h : s.perform hashToken op = some (a, s')) :
    Performs hashToken s op a s' := by
  revert h
  fun_cases perform hashToken s op <;> rintro ⟨⟩
  · exact mint_performs ‹_› ‹_›
  · exact validate_performs ‹_›
  · exact validateID_performs hi ‹_›
  · exact inspect_performs
  · rename_i e hkey
    refine .same _ _ ⟨0, e, rfl, ?_⟩
    rw [ownerPluginIndexKey_error hkey]
    simp
  · exact .same _ _ ⟨0, .revision, rfl, by simp⟩
  · rename_i hrevoke
    cases hrevoke
    exact .revokedPlugin _ _ _ _ _ _ _ _ ‹_› ‹_›
  · exact .same _ _ ⟨rfl, rfl⟩
  · rename_i hrevoke
    rw [← show _ = s' from congr(($hrevoke).2)]
    exact .revokedSurface _ _ _ _ _ _ _ _ ‹_› ‹_›
  · exact .same _ _ ⟨rfl, rfl⟩
  · exact .same _ _ ⟨rfl, rfl⟩
  · rename_i hrevoke
    rw [← show _ = s' from congr(($hrevoke).2)]
    exact .revokedGeneration _ _ _ _ _
  · exact revokeTokenID_performs ‹_›
  · exact .same _ _ rfl
  · rename_i scope now clock order hva horder counts hrevoke
    obtain ⟨rfl, rfl⟩ : _ = counts ∧ _ = s' := Prod.ext_iff.mp hrevoke
    rw [revokeSessionScope_counts scope _ horder.1]
    exact .revokedSession scope now clock order (by simpa using hva) horder
  · exact .same _ _ ⟨rfl, rfl⟩
  · exact .same _ _ ⟨rfl, rfl⟩

theorem Performs.evolves (hi : Indexed s) (h : Performs hashToken s op a s') :
    Evolves s s' a.mintedRecord := by
  cases h with
  | same _ _ hrefuses =>
    rw [hrefuses.quiet.2]
    exact .refl hi
  | inspected => exact .refl hi
  | pruned => exact .of_prune hi _ _
  | minted q _ clock _ order _ _ hmakes hcheck =>
    have hpr := Evolves.of_prune hi (effectiveTime clock q.now) order
    obtain ⟨hfree, hid, -, -⟩ := mintCheck_free hcheck
    refine ⟨indexed_addRecordLocked hpr.indexed hmakes.formed hfree hid, hpr.options,
      fun {h r'} hr => ?_, fun k e hb => hpr.barred k e hb⟩
    rw [addRecordLocked_records] at hr
    rcases Finmap.lookup_of_insert hr with ⟨hh, rfl⟩ | hr
    · exact .inl ⟨rfl, hh.symm⟩
    · exact .inr ⟨r', prune_row hr, .refl r'⟩
  | checked _ _ _ _ husable hpass => exact .of_touches hi (touches_insert husable.row hpass.later.1)
  | revokedPlugin _ _ epoch now clock order key =>
    obtain ⟨⟨floors, saturated, hfr⟩, -, hba, -⟩ := raiseFloor_spec s key epoch
    have hra : Indexed (s.raiseFloor key epoch).2 := by
      rw [hfr]
      exact ⟨hi.own, hi.formed, hi.ids, hi.plugins, hi.surfaces, hi.sessions⟩
    have hto := Evolves.of_touches hra (touches_revokeWhere (s.raiseFloor key epoch).2
      (effectiveTime clock now) (fun record => record.revision.revokeEpoch < epoch) order)
    refine ⟨hto.indexed, hto.options.trans (by rw [hfr]), fun {h r'} hr => ?_,
      fun k e hb => hto.barred k e (hba k e hb)⟩
    rw [hfr] at hr hto
    exact hto.rows hr
  | revokedSurface =>
    exact .of_touches hi (touches_revokeWhere ..)
  | revokedGeneration => exact .of_touches hi (touches_revokeWhere ..)
  | revokedID _ _ _ _ _ r hr =>
    exact .of_touches hi (touches_insert hr (later_revokeRecord _ r))
  | revokedSession =>
    obtain ⟨hin, hro, records, sessionIndex, hfr⟩ := revokeSessionScope_spec _ _ hi _
    refine ⟨hin, by rw [hfr], fun {h r'} hr => .inr ?_, fun k e hb => ?_⟩
    · rw [hro, Option.map_eq_some_iff] at hr
      obtain ⟨r, hr, rfl⟩ := hr
      exact ⟨r, hr, later_revokedBy ..⟩
    · rw [hfr]
      exact hb

end TokenManager

end RedevPlugin.Bridge
