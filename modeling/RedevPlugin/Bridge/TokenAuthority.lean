import RedevPlugin.Bridge.TokenSteps
import RedevPlugin.Foundation.Transition

/-! What the token manager guarantees over whole runs, for any operations at any times. A
token is used up once, by its text or by its id; the epochs and sessions that were revoked
stay so; the indexes find the records under their own keys; the limits hold. -/

namespace RedevPlugin.Bridge

open Session (SessionScope)
open Transition

namespace TokenManager

variable {hashToken : String → String} {s s' : TokenManager} {op : Operation} {a : Answer}

/-- The manager of these options, with any operations one after the other. -/
def system (hashToken : String → String) (options : TokenManagerOptions) :
    System TokenManager (Operation × Answer) :=
  .ofOption (· = newTokenManager options) (perform hashToken)

/-! ### Limits -/

structure Bounded (s : TokenManager) : Prop where
  records : (s.records.size : ℤ) ≤ s.options.maxRecords
  plugins : ∀ k, ((s.pluginIndex.bucket k).card : ℤ) ≤ s.options.maxRecordsPerPlugin
  floors : (s.pluginRevokeFloors.size : ℤ) ≤ s.options.maxRevokeFloors

theorem bounded_new (options : TokenManagerOptions) : Bounded (newTokenManager options) := by
  have hpos : 0 ≤ (normalizeTokenManagerOptions options).maxRecords ∧
      0 ≤ (normalizeTokenManagerOptions options).maxRecordsPerPlugin ∧
      0 ≤ (normalizeTokenManagerOptions options).maxRevokeFloors := by
    unfold normalizeTokenManagerOptions
    dsimp only
    split_ifs <;> refine ⟨?_, ?_, ?_⟩ <;> omega
  constructor <;> simp [newTokenManager, hpos]

theorem indexed_new (options : TokenManagerOptions) : Indexed (newTokenManager options) := by
  refine ⟨?_, ?_, ?_, .nil, .nil, .nil⟩ <;> simp [newTokenManager]

/-- Without a new record there are no more records than before. -/
theorem Evolves.size_le (he : Evolves s s' none) : s'.records.size ≤ s.records.size := by
  refine Finmap.size_le fun h hr => ?_
  obtain ⟨r', hr'⟩ := Option.isSome_iff_exists.mp hr
  rcases he.rows hr' with ⟨hnone, -⟩ | ⟨r, hr, -⟩
  · cases hnone
  · rw [hr]
    rfl

theorem Evolves.bucket_subset (hi : Indexed s) (he : Evolves s s' none) (k : String) :
    s'.pluginIndex.bucket k ⊆ s.pluginIndex.bucket k := by
  intro h hmem
  obtain ⟨r', hr', hk⟩ := he.indexed.plugins.sound hmem
  rcases he.rows hr' with ⟨hnone, -⟩ | ⟨r, hr, hl⟩
  · cases hnone
  · exact hi.plugins.complete hr trivial (by rw [← hl.pluginKey]; exact hk)

theorem Evolves.bounded (hi : Indexed s) (hb : Bounded s) (he : Evolves s s' none)
    (hfl : (s'.pluginRevokeFloors.size : ℤ) ≤ s.options.maxRevokeFloors) : Bounded s' := by
  constructor <;> rw [he.options]
  · exact le_trans (by exact_mod_cast he.size_le) hb.records
  · intro k
    exact le_trans (by exact_mod_cast Finset.card_le_card (he.bucket_subset hi k)) (hb.plugins k)
  · exact hfl

theorem bounded_addRecordLocked (hb : Bounded s) {record} (hfo : record.Formed)
    (hcheck : s.mintCheck record.pluginKey record = .ok ()) :
    Bounded (s.addRecordLocked record) := by
  obtain ⟨hfree, -, hsi, hpl⟩ := mintCheck_free hcheck
  refine ⟨?_, fun k => ?_, hb.floors⟩
  · rw [addRecordLocked_records, Finmap.size_insert hfree]
    exact hsi
  · rw [addRecordLocked_pluginIndex, addTokenIndexEntry, blank_pluginKey hfo,
      if_neg Bool.false_ne_true, Buckets.bucket_add]
    split_ifs with hk
    · have hca := Finset.card_insert_le record.tokenHash (s.pluginIndex.bucket record.pluginKey)
      change _ ≤ s.options.maxRecordsPerPlugin
      omega
    · exact hb.plugins k

theorem Performs.bounded (hi : Indexed s) (hb : Bounded s) (h : Performs hashToken s op a s') :
    Bounded s' := by
  have he := h.evolves hi
  have hpr : ∀ now order, Bounded (s.pruneExpiredRecordsLocked now order) := by
    intro now order
    refine Evolves.bounded hi hb (.of_prune hi now order) ?_
    rw [(prune_keeps now hi order).2.2.1]
    exact hb.floors
  cases h with
  | same | inspected => exact hb
  | pruned => exact hpr ..
  | minted _ _ _ _ _ _ _ hmakes hcheck =>
    exact bounded_addRecordLocked (hpr ..) hmakes.formed hcheck
  | checked | revokedID => exact Evolves.bounded hi hb he hb.floors
  | revokedSurface | revokedGeneration =>
    refine Evolves.bounded hi hb he ?_
    rw [(touches_revokeWhere ..).frame]
    exact hb.floors
  | revokedPlugin =>
    refine Evolves.bounded hi hb he ?_
    rw [(touches_revokeWhere ..).frame]
    exact (raiseFloor_spec s _ _).2.2.2 hb.floors
  | revokedSession =>
    refine Evolves.bounded hi hb he ?_
    obtain ⟨-, -, records, sessionIndex, hfr⟩ := revokeSessionScope_spec _ _ hi _
    rw [hfr]
    exact hb.floors

def Sound (s : TokenManager) : Prop := Indexed s ∧ Bounded s

theorem Sound.step (hs : Sound s) (h : s.perform hashToken op = some (a, s')) : Sound s' := by
  have hp := perform_performs hs.1 h
  exact ⟨(hp.evolves hs.1).indexed, hp.bounded hs.1 hs.2⟩

variable {tr : List ((Operation × Answer) × TokenManager)} {options : TokenManagerOptions}
  {r : TokenRecord} {h env plugin key : String} {order : List String} {now clock : ℤ}
  {scope : SessionScope} {epoch : ℕ}

theorem Run.sound (hr : (system hashToken options).Run s tr) (hs : Sound s) :
    ∀ u ∈ states s tr, Sound u :=
  hr.forall_states (fun _ _ _ _ hu _ hstep => hu.step hstep) hs (guarded_true [] s tr)

/-! ### Tokens that are used up or revoked -/

def Mints (h : String) (l : Operation × Answer) : Prop :=
  ∃ r, l.2.mintedRecord = some r ∧ r.tokenHash = h

/-- The label of a validation that uses up this token. -/
def Consumes (h : String) (l : Operation × Answer) : Prop :=
  l.1.consumes = true ∧ ∃ r, l.2 = .accepted (.ok r) ∧ r.tokenHash = h

/-- The token is refused: every record of it is revoked or used up. -/
def Dead (s : TokenManager) (h : String) : Prop :=
  ∀ r, s.records.lookup h = some r → r.revoked = true ∨ r.consumed = true

/-- What is accepted has a record that passes the check. -/
theorem Performs.passes (hp : Performs hashToken s op a s') (ha : a.acceptedRecord = some r) :
    ∃ x r₀, s.Usable op.time x r₀ ∧ Passes hashToken op x r₀ r := by
  cases hp with try cases ha
  | same _ _ hrefuses =>
    simp [hrefuses.quiet.1] at ha
  | inspected _ _ x _ husable hpass => exact ⟨x, r, husable, hpass⟩
  | checked _ x r₀ _ husable hpass => exact ⟨x, r₀, husable, hpass⟩

theorem Performs.accepted (hi : Indexed s) (hp : Performs hashToken s op a s')
    (ha : a.acceptedRecord = some r) :
    ∃ r₀, s.records.lookup r.tokenHash = some r₀ ∧ Later r₀ r ∧ r₀.revoked = false ∧
      r₀.consumed = false := by
  obtain ⟨x, r₀, husable, hpass⟩ := hp.passes ha
  have hl := hpass.later.1
  rw [hl.tokenHash, hi.own husable.row]
  exact ⟨r₀, husable.row, hl, husable.unrevoked, husable.unused⟩

theorem Performs.dead_of_consumes (hi : Indexed s) (hp : Performs hashToken s op a s')
    (hc : Consumes h (op, a)) : Dead s' h := by
  obtain ⟨hco, r, rfl, rfl⟩ := hc
  intro q hq
  generalize ha : Answer.accepted (.ok r) = a at hp
  cases hp with
  | checked _ _ _ _ husable hpass =>
    cases ha
    obtain ⟨hl, hus⟩ := hpass.later
    rw [hl.tokenHash, hi.own husable.row, Finmap.lookup_insert] at hq
    cases hq
    exact .inr (hus hco)
  | same _ _ hrefuses =>
    subst ha
    cases hrefuses.quiet.1
  | _ => cases ha

/-- Along a run, the record of a token is the one it was before unless it is minted again. -/
theorem Run.row (hr : (system hashToken options).Run s tr) (hs : Sound s)
    (hm : ∀ l ∈ labels tr, ¬ Mints h l) {r'} (hr' : (last s tr).records.lookup h = some r') :
    ∃ r, s.records.lookup h = some r ∧ Later r r' := by
  induction tr generalizing s with
  | nil => exact ⟨r', hr', .refl r'⟩
  | cons x tr ih =>
    rw [labels_cons, List.forall_mem_cons] at hm
    obtain ⟨r₁, hr₁, hl₁⟩ := ih hr.2 (hs.step hr.1) hm.2 hr'
    rcases ((perform_performs hs.1 hr.1).evolves hs.1).rows hr₁ with ⟨hmi, hh⟩ | ⟨r, hr, hl⟩
    · exact absurd ⟨r₁, hmi, hh⟩ hm.1
    · exact ⟨r, hr, hl.trans hl₁⟩

/-- A token that is accepted after a run was neither revoked nor used up before it, unless it
was minted in between. -/
theorem Run.accepted (hr : (system hashToken options).Run s tr) (hs : Sound s)
    (hp : (last s tr).perform hashToken op = some (a, s')) (ha : a.acceptedRecord = some r)
    (hm : ∀ l ∈ labels tr, ¬ Mints r.tokenHash l) :
    ∃ r₀, s.records.lookup r.tokenHash = some r₀ ∧ Later r₀ r ∧ r₀.revoked = false ∧
      r₀.consumed = false := by
  have hla := (Run.sound hr hs _ (last_mem_states s tr)).1
  obtain ⟨r₁, hr₁, hl₁, hre, hco⟩ := (perform_performs hla hp).accepted hla ha
  obtain ⟨r₀, hr₀, hl₀⟩ := Run.row hr hs hm hr₁
  refine ⟨r₀, hr₀, hl₀.trans hl₁, ?_, ?_⟩ <;> refine Bool.eq_false_iff.mpr fun h => ?_
  · simp [hl₀.revoked h] at hre
  · simp [hl₀.consumed h] at hco

/-! ### Epochs that are revoked -/

/-- Nothing of the plugin below the epoch can be minted, and what is there is revoked. -/
structure Closed (s : TokenManager) (key : String) (epoch : ℕ) : Prop where
  barred : s.Barred key epoch
  revoked : ∀ {h r}, s.records.lookup h = some r → r.pluginKey = key →
    r.revision.revokeEpoch < epoch → r.revoked = true

theorem pluginKey_of_ofPlugin (hfo : r.Formed)
    (hkey : ownerPluginIndexKey env plugin = .ok key) (h : OfPlugin r env plugin) :
    r.pluginKey = key := by
  have hown := ownerPluginIndexKey_ok.mp (hfo.key.symm.trans hfo.found)
  rw [hown.2.2, (ownerPluginIndexKey_ok.mp hkey).2.2, h.1, h.2]

theorem Performs.mints (hp : Performs hashToken s op a s') (hr : a.mintedRecord = some r) :
    ∃ q v clock draws order, op = .mint q v clock draws order ∧ q.Makes clock r ∧
      (s.pruneExpiredRecordsLocked (effectiveTime clock q.now) order).mintCheck r.pluginKey r =
        .ok () := by
  cases hp with
  | same _ _ hrefuses =>
    simp [hrefuses.quiet.2] at hr
  | minted q v clock draws order _ _ hmakes hcheck =>
    cases hr
    exact ⟨q, v, clock, draws, order, rfl, hmakes, hcheck⟩
  | inspected | pruned | checked | revokedPlugin | revokedSurface | revokedGeneration | revokedID
  | revokedSession => cases hr

section

variable (hi : Indexed s)

include hi

/-- A minted record passed the checks, whatever was pruned before. -/
theorem Performs.minted_record (hp : Performs hashToken s op a s') (hr : a.mintedRecord = some r) :
    r.Formed ∧ ∀ k e, s.Barred k e → r.pluginKey = k → e ≤ r.revision.revokeEpoch := by
  obtain ⟨q, v, clock, draws, order, -, hmakes, hcheck⟩ := hp.mints hr
  refine ⟨hmakes.formed, fun k e hb hk => ?_⟩
  have hpr := (Evolves.of_prune hi (effectiveTime clock q.now) order).barred k e hb
  rw [← hk] at hpr
  exact mintCheck_barred hcheck hpr

theorem Performs.closed (hp : Performs hashToken s op a s') (hc : Closed s key epoch) :
    Closed s' key epoch := by
  have he := hp.evolves hi
  refine ⟨he.barred key epoch hc.barred, fun {h r'} hr' hk hep => ?_⟩
  rcases he.rows hr' with ⟨hmi, -⟩ | ⟨r, hr, hl⟩
  · have hfl := (hp.minted_record hi hmi).2 key epoch hc.barred hk
    omega
  · rw [hl.revision] at hep
    exact hl.revoked (hc.revoked hr (hl.pluginKey ▸ hk) hep)

/-- `RevokePlugin` closes the epochs below its own, also when it could not keep the floor. -/
theorem Performs.closed_of_revokePlugin {n e}
    (hp : Performs hashToken s (.revokePlugin env plugin epoch now clock order) (.revoked n e) s')
    (herr : e = none ∨ e = some .revokeFloorCapacity) :
    ∃ key, ownerPluginIndexKey env plugin = .ok key ∧ Closed s' key epoch := by
  cases hp with
  | same _ _ hrefuses =>
    obtain ⟨n', e', heq, hne⟩ := hrefuses
    cases heq
    rcases herr with h | h
    · cases h
    · exact absurd (Option.some.inj h) hne
  | revokedPlugin _ _ _ _ _ _ key _ hkey horder =>
    obtain ⟨⟨floors, saturated, hfr⟩, hb, -, -⟩ := raiseFloor_spec s key epoch
    have hto := touches_revokeWhere (s.raiseFloor key epoch).2 (effectiveTime clock now)
      (·.revision.revokeEpoch < epoch) order
    refine ⟨key, hkey, ?_, fun {h r'} hr' hk hep => ?_⟩
    · rw [hto.frame]
      exact hb
    · rw [hto.rows, Option.map_eq_some_iff] at hr'
      obtain ⟨r, hr, rfl⟩ := hr'
      have hl := later_revokedBy (effectiveTime clock now)
        (·.revision.revokeEpoch < epoch) order h r
      rw [hfr] at hr
      have hmem : h ∈ order := by
        rw [← List.mem_toFinset, horder.2]
        exact hi.plugins.complete hr trivial (by rw [← hk, hl.pluginKey])
      rw [hl.revision] at hep
      exact revoked_revokedBy hmem (by simpa using hep)

theorem Performs.not_accepted_of_closed (hp : Performs hashToken s op a s')
    (hc : Closed s key epoch) (ha : a.acceptedRecord = some r) (hk : r.pluginKey = key) :
    epoch ≤ r.revision.revokeEpoch := by
  obtain ⟨r₀, hr₀, hl, hre, -⟩ := hp.accepted hi ha
  by_contra hlow
  simp [hc.revoked hr₀ (hl.pluginKey ▸ hk) (by rw [← hl.revision]; omega)] at hre

/-- What a step of a run says about the records it mints or accepts. -/
theorem Performs.formed_of_answer (hp : Performs hashToken s op a s')
    (h : a.mintedRecord = some r ∨ a.acceptedRecord = some r) : r.Formed := by
  rcases h with h | h
  · exact (hp.minted_record hi h).1
  · obtain ⟨r₀, hr₀, hl, -⟩ := hp.accepted hi h
    exact hl.formed (hi.formed hr₀)

end

/-! ### Runs -/

/-- A label of a run, with the states around its step and the rest of the run. -/
theorem Run.split (hr : (system hashToken options).Run s tr) (hs : Sound s) {b c l}
    (h : labels tr = b ++ l :: c) : ∃ p t q, labels p = b ∧ labels q = c ∧ Sound (last s p) ∧
      (last s p).perform hashToken l.1 = some (l.2, t) ∧ Sound t ∧
      (system hashToken options).Run s p ∧ (system hashToken options).Run t q := by
  obtain ⟨p, t, q, rfl, hp, hq⟩ := exists_split_of_labels h
  obtain ⟨hrun, hstep, hre⟩ := ((system hashToken options).run_append s p _).mp hr
  have hla := Run.sound hrun hs _ (last_mem_states s p)
  exact ⟨p, t, q, hp, hq, hla, hstep, hla.step hstep, hrun, hre⟩

/-- What the labels of a run say, whatever the operations and their times. -/
structure Authority (labels : List (Operation × Answer)) : Prop where
  /-- A token is used up once, by its text or by its id, until it is minted again. -/
  singleUse : ∀ {b l c l' d h}, labels = b ++ l :: (c ++ l' :: d) → Consumes h l → Consumes h l' →
    ∃ m ∈ c, Mints h m
  /-- After `RevokePlugin` nothing of the plugin below the epoch is minted or accepted. -/
  plugins : ∀ {b env plugin epoch now clock order n e c},
    labels = b ++ (.revokePlugin env plugin epoch now clock order, .revoked n e) :: c →
    e = none ∨ e = some .revokeFloorCapacity →
    ∀ m ∈ c, ∀ r, m.2.mintedRecord = some r ∨ m.2.acceptedRecord = some r →
      OfPlugin r env plugin → epoch ≤ r.revision.revokeEpoch
  /-- After `RevokeSessionScope` no token of the session from before is accepted. -/
  sessions : ∀ {b scope now clock order counts c l d r},
    labels = b ++ (.revokeSessionScope scope now clock order, .counts (.ok counts)) ::
      (c ++ l :: d) →
    l.2.acceptedRecord = some r → r.audience.sessionScope = scope →
    ∃ m ∈ c, Mints r.tokenHash m

theorem Performs.revoked_session (hi : Indexed s) {counts}
    (hp : Performs hashToken s (.revokeSessionScope scope now clock order)
      (.counts (.ok counts)) s')
    (hr : s'.records.lookup h = some r) (hscope : r.audience.sessionScope = scope) :
    r.revoked = true := by
  cases hp with
  | same _ _ hrefuses => cases hrefuses
  | revokedSession _ _ _ _ hva horder =>
    rw [(revokeSessionScope_spec _ _ hi _).2.1, Option.map_eq_some_iff] at hr
    obtain ⟨r₀, hr₀, rfl⟩ := hr
    have hl := later_revokedBy (effectiveTime clock now) (fun _ => true) order h r₀
    cases hre : r₀.revoked with
    | true => exact hl.revoked hre
    | false =>
      have hkey : r₀.sessionKey = some scope := by
        rw [TokenRecord.sessionKey, ← hl.audience, hscope, if_pos hva]
      have hmem := hi.sessions.complete hr₀ hre hkey
      rw [← horder.2, List.mem_toFinset] at hmem
      exact revoked_revokedBy hmem rfl

theorem Run.closed (hr : (system hashToken options).Run s tr) (hs : Sound s)
    (hc : Closed s key epoch) : Closed (last s tr) key epoch := by
  induction tr generalizing s with
  | nil => exact hc
  | cons x tr ih => exact ih hr.2 (hs.step hr.1) ((perform_performs hs.1 hr.1).closed hs.1 hc)

theorem run_labels (hr : (system hashToken options).Run s tr) (hs : Sound s) :
    Authority (labels tr) := by
  refine ⟨fun {b l c l' d h} hla hc hc' => ?_, fun {b env plugin epoch now clock order n e c}
    hla herr m hm r hans hof => ?_, fun {b scope now clock order counts c l d r} hla ha
    hscope => ?_⟩
  · obtain ⟨p, t, q, -, hq, hu, hstep, ht, -, hres⟩ := Run.split hr hs hla
    obtain ⟨p', t', q', rfl, -, -, hstep', -, hb, -⟩ := Run.split hres ht hq
    by_contra hnone
    push Not at hnone
    obtain ⟨-, r, ha, rfl⟩ := hc'
    obtain ⟨r₀, hr₀, -, hre, hco⟩ := Run.accepted hb ht hstep' (r := r) (by rw [ha]; rfl) hnone
    have hdo := (perform_performs hu.1 hstep).dead_of_consumes hu.1 hc r₀ hr₀
    simp [hre, hco] at hdo
  · obtain ⟨p, t, q, -, rfl, hu, hstep, ht, -, hres⟩ := Run.split hr hs hla
    obtain ⟨key, hkey, hclosed⟩ := (perform_performs hu.1 hstep).closed_of_revokePlugin hu.1 herr
    obtain ⟨b', c', hsp⟩ := List.mem_iff_append.mp hm
    obtain ⟨p', t', q', -, -, hu', hstep', -, hb, -⟩ := Run.split hres ht hsp
    have hp' := perform_performs hu'.1 hstep'
    have hlat := Run.closed hb ht hclosed
    have hk := pluginKey_of_ofPlugin (hp'.formed_of_answer hu'.1 hans) hkey hof
    rcases hans with hans | hans
    · exact (hp'.minted_record hu'.1 hans).2 key epoch hlat.barred hk
    · exact hp'.not_accepted_of_closed hu'.1 hlat hans hk
  · obtain ⟨p, t, q, -, hq, hu, hstep, ht, -, hres⟩ := Run.split hr hs hla
    obtain ⟨p', t', q', rfl, -, -, hstep', -, hb, -⟩ := Run.split hres ht hq
    by_contra hnone
    push Not at hnone
    obtain ⟨r₀, hr₀, hl, hre, -⟩ := Run.accepted hb ht hstep' ha hnone
    have hdo := (perform_performs hu.1 hstep).revoked_session hu.1 hr₀
      (by rw [Audience.sessionScope, ← hl.audience]; exact hscope)
    simp [hre] at hdo

end TokenManager

end RedevPlugin.Bridge
