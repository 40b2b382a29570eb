import RedevPlugin.Bridge.Tokens

/-! The records of the token manager and its indexes. Every operation changes a record in
its marks of use and revocation only, removes expired records or adds a new one; so the
indexes always find the records under their own keys and under no other. -/

namespace RedevPlugin.Bridge

open Session (SessionScope validOwnerHash)
open Text (trim blank)

/-! ### Keys -/

theorem nul_text : "\x00" = String.singleton '\x00' := by decide

theorem ownerPluginIndexKey_ok {env plugin key} : ownerPluginIndexKey env plugin = .ok key ↔
      blank env = false ∧ blank plugin = false ∧
        key = trim env ++ String.singleton '\x00' ++ trim plugin := by
  unfold ownerPluginIndexKey
  simp only [Text.trim_eq_empty_iff, nul_text]
  cases blank env <;> cases blank plugin <;> simp [eq_comm]

theorem ownerSurfaceIndexKey_ok {env plugin surface key} :
    ownerSurfaceIndexKey env plugin surface = .ok key ↔
      ∃ pluginKey, ownerPluginIndexKey env plugin = .ok pluginKey ∧ blank surface = false ∧
        key = pluginKey ++ String.singleton '\x00' ++ trim surface := by
  unfold ownerSurfaceIndexKey
  cases ownerPluginIndexKey env plugin with
  | error => simp
  | ok =>
    simp only [Text.trim_eq_empty_iff, nul_text]
    cases blank surface <;> simp [eq_comm]

theorem blank_of_nul {a b} : blank (a ++ String.singleton '\x00' ++ b) = false :=
  Text.blank_eq_false (c := '\x00') (by simp) (by decide)

/-! ### Records as they are minted -/

/-- What minting checks. -/
structure TokenRecord.Formed (r : TokenRecord) : Prop where
  kind : validTokenKind r.kind = true
  use : r.use = defaultTokenUse r.kind
  env : validOwnerHash r.audience.ownerEnvHash = true
  key : tokenPluginIndexKey r.kind r.audience =
    ownerPluginIndexKey r.audience.ownerEnvHash r.audience.pluginInstanceID
  found : tokenPluginIndexKey r.kind r.audience = .ok r.pluginKey
  named : blank r.audience.pluginInstanceID = false

theorem validateTokenAudience_ok {kind a} (h : validateTokenAudience kind a = .ok ()) :
    blank a.ownerEnvHash = false ∧ validOwnerHash a.ownerEnvHash = true ∧
      tokenPluginIndexKey kind a = ownerPluginIndexKey a.ownerEnvHash a.pluginInstanceID := by
  unfold validateTokenAudience at h
  split at h
  · cases h
  rename_i henv
  split at h
  · cases h
  rename_i hscope
  split at h
  · cases h
  rename_i hfi
  have hb : blank a.ownerUserHash = false ∧ blank a.ownerEnvHash = false := by
    cases kind with
    | other => cases henv
    | _ =>
      simp only [requiredFields, List.any_append, List.any_cons, Bool.or_eq_true] at hfi
      push Not at hfi
      simp_all
  have hva : validOwnerHash a.ownerEnvHash = true := by
    simp only [hb.1, hb.2, Session.ResourceScope.valid] at hscope
    simp_all
  refine ⟨hb.2, hva, ?_⟩
  rw [tokenPluginIndexKey, henv]
  unfold tokenAudienceOwnerEnvHash at henv
  cases kind with
  | other => cases henv
  | handleGrant =>
    dsimp only at h henv
    split_ifs at h with hma
    split_ifs at henv
    cases henv
    push Not at hma
    rw [hma.1]
  | _ =>
    dsimp only at henv
    split_ifs at henv
    cases henv
    simp only [ownerPluginIndexKey, Text.trim_trim]

theorem validateMintRequest_ok {req clock} (h : validateMintRequest req clock = .ok ()) :
    validTokenKind req.kind = true ∧ blank req.audience.pluginInstanceID = false ∧
      validateTokenAudience req.kind req.audience = .ok () := by
  revert h
  fun_cases validateMintRequest req clock <;> rintro ⟨⟩
  rename_i hkind _ hb hau _ _ _ _
  exact ⟨by simpa using hkind, Bool.eq_false_iff.mpr fun hp => by simp [hp] at hb, hau⟩

/-- The record is the one that the request asks for. -/
structure MintRequest.Makes (req : MintRequest) (clock : ℤ) (record : TokenRecord) : Prop where
  formed : record.Formed
  kind : record.kind = req.kind
  audience : record.audience = req.audience
  revision : record.revision = req.revision
  expiresAt : record.expiresAt = req.expiresAt
  issuedAt : record.issuedAt = effectiveTime clock req.now
  unused : record.consumed = false
  unrevoked : record.revoked = false
  id : blank record.tokenID = false

namespace TokenManager

variable {hashToken : String → String} {s : TokenManager}

theorem prepareMint_ok {req validated clock draws record cleartext}
    (h : s.prepareMint hashToken req validated clock draws = .ok (record, cleartext)) :
    req.Makes clock record := by
  unfold prepareMint at h
  split at h
  · cases h
  rename_i hva
  dsimp only at h
  split_ifs at h
  split at h <;> cases h
  obtain ⟨hkind, hpl, hau⟩ := validateMintRequest_ok hva
  obtain ⟨hb, henv, hkey⟩ := validateTokenAudience_ok hau
  have hok := ownerPluginIndexKey_ok.mpr ⟨hb, hpl, rfl⟩
  refine ⟨⟨hkind, rfl, henv, hkey, ?_, hpl⟩, rfl, rfl, rfl, rfl, rfl, rfl, rfl, ?_⟩
  · rw [TokenRecord.pluginKey, hkey, hok]
    rfl
  · cases req.kind <;> exact Text.blank_eq_false (c := '_') (by simp [idText]) (by decide)

end TokenManager

/-! ### What happens to a record -/

/-- The same token, with marks that were added. -/
structure Later (r r' : TokenRecord) : Prop where
  kind : r'.kind = r.kind
  tokenID : r'.tokenID = r.tokenID
  tokenHash : r'.tokenHash = r.tokenHash
  audience : r'.audience = r.audience
  revision : r'.revision = r.revision
  expiresAt : r'.expiresAt = r.expiresAt
  use : r'.use = r.use
  revoked : r.revoked = true → r'.revoked = true
  consumed : r.consumed = true → r'.consumed = true

namespace Later

variable {r r' r'' : TokenRecord}

theorem refl (r : TokenRecord) : Later r r := ⟨rfl, rfl, rfl, rfl, rfl, rfl, rfl, id, id⟩

theorem trans (h : Later r r') (h' : Later r' r'') : Later r r'' :=
  ⟨h'.kind.trans h.kind, h'.tokenID.trans h.tokenID, h'.tokenHash.trans h.tokenHash,
    h'.audience.trans h.audience, h'.revision.trans h.revision, h'.expiresAt.trans h.expiresAt,
    h'.use.trans h.use, fun hr => h'.revoked (h.revoked hr), fun hc => h'.consumed (h.consumed hc)⟩

theorem pluginKey (h : Later r r') : r'.pluginKey = r.pluginKey := by
  rw [TokenRecord.pluginKey, TokenRecord.pluginKey, h.kind, h.audience]

theorem formed (h : Later r r') (hr : r.Formed) : r'.Formed := by
  refine ⟨h.kind ▸ hr.kind, ?_, h.audience ▸ hr.env, ?_, ?_, h.audience ▸ hr.named⟩
  · rw [h.use, h.kind, hr.use]
  · rw [h.kind, h.audience, hr.key]
  · rw [h.pluginKey, h.kind, h.audience, hr.found]

end Later

theorem later_revokeRecord (now : ℤ) (r : TokenRecord) :
    Later r (TokenManager.revokeRecord now r) :=
  ⟨rfl, rfl, rfl, rfl, rfl, rfl, rfl, fun _ => rfl, id⟩

/-! ### The invariant of the indexes -/

def TokenRecord.surfaceKey (r : TokenRecord) : Option String :=
  if blank (tokenSurfaceIndexKey r.audience) then none else some (tokenSurfaceIndexKey r.audience)

/-- The scope under which a record is found by its session, if that is a valid one. -/
def TokenRecord.sessionKey (r : TokenRecord) : Option SessionScope :=
  if r.audience.sessionScope.valid then some r.audience.sessionScope else none

open TokenRecord (pluginKey surfaceKey sessionKey)

structure Indexed (s : TokenManager) : Prop where
  own : ∀ {h r}, s.records.lookup h = some r → r.tokenHash = h
  formed : ∀ {h r}, s.records.lookup h = some r → r.Formed
  ids : ∀ {key h}, s.idIndex.lookup key = some h ↔
    ∃ r, s.records.lookup h = some r ∧ tokenIDIndexKey r.kind r.tokenID = key
  plugins : s.pluginIndex.Indexes s.records (fun r => some r.pluginKey) fun _ => True
  surfaces : s.surfaceIndex.Indexes s.records surfaceKey fun _ => True
  sessions : s.sessionIndex.Indexes s.records sessionKey fun r => r.revoked = false

/-- Only the marks of records change. -/
structure Touches (s s' : TokenManager) (f : String → TokenRecord → TokenRecord) : Prop where
  rows : ∀ h, s'.records.lookup h = (s.records.lookup h).map (f h)
  later : ∀ {h r}, s.records.lookup h = some r → Later r (f h r)
  frame : s' = { s with records := s'.records }

theorem Indexed.touch {s s' f} (hi : Indexed s) (ht : Touches s s' f) : Indexed s' := by
  obtain ⟨hro, hla, hfr⟩ := ht
  have hold : ∀ {h r'}, s'.records.lookup h = some r' →
      ∃ r, s.records.lookup h = some r ∧ Later r r' := by
    intro h r' hr'
    rw [hro, Option.map_eq_some_iff] at hr'
    obtain ⟨r, hr, rfl⟩ := hr'
    exact ⟨r, hr, hla hr⟩
  rw [hfr]
  refine ⟨fun {h r'} hr' => ?_, fun {h r'} hr' => ?_, fun {key h} => ?_, ?_, ?_, ?_⟩
  · obtain ⟨r, hr, hl⟩ := hold hr'
    exact hl.tokenHash.trans (hi.own hr)
  · obtain ⟨r, hr, hl⟩ := hold hr'
    exact hl.formed (hi.formed hr)
  · rw [hi.ids]
    constructor
    · rintro ⟨r, hr, hkey⟩
      refine ⟨f h r, by rw [hro, hr]; rfl, ?_⟩
      rw [(hla hr).kind, (hla hr).tokenID, hkey]
    · rintro ⟨r', hr', hkey⟩
      obtain ⟨r, hr, hl⟩ := hold hr'
      exact ⟨r, hr, by rw [← hl.kind, ← hl.tokenID, hkey]⟩
  · exact hi.plugins.rows hro (fun hr => by rw [(hla hr).pluginKey]) fun _ h => h
  · refine hi.surfaces.rows hro (fun hr => ?_) fun _ h => h
    rw [surfaceKey, surfaceKey, (hla hr).audience]
  · refine hi.sessions.rows hro (fun hr => ?_) fun {h r} hr hl => ?_
    · rw [sessionKey, sessionKey, (hla hr).audience]
    · exact Bool.eq_false_iff.mpr fun hrev => by simp [(hla hr).revoked hrev] at hl

/-! ### Adding and removing records -/

variable {r : TokenRecord}

theorem surfaceKey_of_ne {k} (h : r.surfaceKey = some k) : k = tokenSurfaceIndexKey r.audience := by
  unfold surfaceKey at h
  split_ifs at h
  exact (Option.some.inj h).symm

theorem sessionKey_of_ne {k} (h : r.sessionKey = some k) : k = tokenSessionIndexKey r.audience := by
  unfold sessionKey at h
  split_ifs at h with hva
  rw [tokenSessionIndexKey, tokenAudienceSessionScope, if_pos hva, Option.some.inj h]

theorem blank_pluginKey (h : r.Formed) : blank r.pluginKey = false := by
  rw [(ownerPluginIndexKey_ok.mp (h.key.symm.trans h.found)).2.2]
  exact blank_of_nul

theorem addTokenSessionIndexEntry_eq {index a h} :
    addTokenSessionIndexEntry index (tokenSessionIndexKey a) h =
      if a.sessionScope.valid then index.add a.sessionScope h else index := by
  unfold addTokenSessionIndexEntry tokenSessionIndexKey tokenAudienceSessionScope
  cases hv : a.sessionScope.valid with
  | false => rfl
  | true => simp [hv]

namespace TokenManager

variable {hashToken : String → String} {s : TokenManager}

theorem addRecordLocked_records (s : TokenManager) (r : TokenRecord) :
    (s.addRecordLocked r).records = s.records.insert r.tokenHash r := rfl

theorem addRecordLocked_pluginIndex (s : TokenManager) (r : TokenRecord) :
    (s.addRecordLocked r).pluginIndex =
      addTokenIndexEntry s.pluginIndex r.pluginKey r.tokenHash := by
  rw [addRecordLocked]

theorem indexed_addRecordLocked (hi : Indexed s) {record} (hfo : record.Formed)
    (hfree : s.records.lookup record.tokenHash = none)
    (hid : s.idIndex.lookup (tokenIDIndexKey record.kind record.tokenID) = none) :
    Indexed (s.addRecordLocked record) := by
  have hca : ∀ {h r}, (s.addRecordLocked record).records.lookup h = some r →
      (h = record.tokenHash ∧ r = record) ∨ s.records.lookup h = some r := by
    intro h r hr
    rw [addRecordLocked_records, Finmap.lookup_insert_ite] at hr
    split_ifs at hr with hh
    · exact .inl ⟨hh, (Option.some.inj hr).symm⟩
    · exact .inr hr
  refine ⟨fun {h r} hr => ?_, fun {h r} hr => ?_, fun {key h} => ?_, ?_, ?_, ?_⟩
  · rcases hca hr with ⟨rfl, rfl⟩ | hr
    · rfl
    · exact hi.own hr
  · rcases hca hr with ⟨rfl, rfl⟩ | hr
    · exact hfo
    · exact hi.formed hr
  · change (s.idIndex.insert _ _).lookup key = some h ↔
      ∃ r, (s.records.insert _ _).lookup h = some r ∧ _
    rw [Finmap.lookup_insert_ite]
    constructor
    · intro hkey
      split_ifs at hkey with hk
      · cases hkey
        exact ⟨record, Finmap.lookup_insert _, hk.symm⟩
      · obtain ⟨r, hr, hkey⟩ := hi.ids.mp hkey
        refine ⟨r, ?_, hkey⟩
        rwa [Finmap.lookup_insert_of_ne _ (by rintro rfl; simp [hfree] at hr)]
    · rintro ⟨r, hr, hkey⟩
      rcases hca hr with ⟨rfl, rfl⟩ | hr
      · rw [if_pos hkey.symm]
      · have hold := hi.ids.mpr ⟨r, hr, hkey⟩
        rwa [if_neg (by rintro rfl; simp [hid] at hold)]
  · rw [addRecordLocked_pluginIndex, addRecordLocked_records, addTokenIndexEntry,
      blank_pluginKey hfo, if_neg Bool.false_ne_true]
    exact hi.plugins.insert_some hfree (k := record.pluginKey) rfl
  · simp only [addRecordLocked, addTokenIndexEntry]
    split_ifs with hb
    · exact hi.surfaces.insert_none hfree (by rw [surfaceKey, if_pos hb])
    · exact hi.surfaces.insert_some hfree (by rw [surfaceKey, if_neg hb])
  · simp only [addRecordLocked, addTokenSessionIndexEntry_eq]
    split_ifs with hva
    · exact hi.sessions.insert_some hfree (by rw [sessionKey, if_pos hva])
    · exact hi.sessions.insert_none hfree (by rw [sessionKey, if_neg hva])

theorem indexed_removeRecordLocked (hi : Indexed s) {h record}
    (hr : s.records.lookup h = some record) : Indexed (s.removeRecordLocked h record) := by
  refine ⟨fun {h' r} hr' => hi.own (Finmap.lookup_of_erase hr').2,
    fun {h' r} hr' => hi.formed (Finmap.lookup_of_erase hr').2, fun {key h'} => ?_, ?_, ?_, ?_⟩
  · change (s.idIndex.erase _).lookup key = some h' ↔
      ∃ r, (s.records.erase _).lookup h' = some r ∧ _
    have hown : s.idIndex.lookup (tokenIDIndexKey record.kind record.tokenID) = some h :=
      hi.ids.mpr ⟨record, hr, rfl⟩
    constructor
    · intro hkey
      obtain ⟨hne, hkey⟩ := Finmap.lookup_of_erase hkey
      obtain ⟨r, hr', hkey'⟩ := hi.ids.mp hkey
      refine ⟨r, ?_, hkey'⟩
      rwa [Finmap.lookup_erase_ne (by rintro rfl; cases hr.symm.trans hr'; exact hne hkey'.symm)]
    · rintro ⟨r, hr', hkey⟩
      obtain ⟨hne, hr'⟩ := Finmap.lookup_of_erase hr'
      have hold := hi.ids.mpr ⟨r, hr', hkey⟩
      rwa [Finmap.lookup_erase_ne
        (by rintro rfl; exact hne (Option.some.inj (hold.symm.trans hown)))]
  · exact hi.plugins.erase hr fun k' hk => (Option.some.inj hk).symm
  · exact hi.surfaces.erase hr fun k' hk => surfaceKey_of_ne hk
  · exact hi.sessions.erase hr fun k' hk => sessionKey_of_ne hk

/-! ### Expired records -/

theorem pruneRecord_rows (now : ℤ) (s : TokenManager) (h h' : String) :
    (pruneRecord now s h).records.lookup h' =
      if h' = h then (s.records.lookup h').filter fun r => now < r.expiresAt
      else s.records.lookup h' := by
  unfold pruneRecord
  by_cases hh : h' = h
  · subst hh
    cases hl : s.records.lookup h' with
    | none => simp [hl]
    | some r =>
      by_cases hli : now < r.expiresAt <;> simp [hl, hli, removeRecordLocked, Option.filter]
  · rw [if_neg hh]
    repeat' split
    · rfl
    · rfl
    · exact Finmap.lookup_erase_ne hh

theorem prune_rows (now : ℤ) (s : TokenManager) (order : List String) (h : String) :
    (s.pruneExpiredRecordsLocked now order).records.lookup h =
      if h ∈ order then (s.records.lookup h).filter fun r => now < r.expiresAt
      else s.records.lookup h := by
  unfold pruneExpiredRecordsLocked
  induction order generalizing s with
  | nil => simp
  | cons x order ih =>
    rw [List.foldl_cons, ih, pruneRecord_rows]
    by_cases hx : h = x
    · subst hx
      by_cases ho : h ∈ order <;> simp [ho, Option.filter_filter]
    · simp [hx]

/-- Once all keys were visited, the records that are left are those that have not expired. -/
theorem prune_records {now order} (ho : Lists order s.records.keys) (h : String) :
    (s.pruneExpiredRecordsLocked now order).records.lookup h =
      (s.records.lookup h).filter fun r => now < r.expiresAt := by
  rw [prune_rows]
  split_ifs with hmem
  · rfl
  · rw [← List.mem_toFinset, ho.2, Finmap.mem_keys, ← Finmap.lookup_eq_none] at hmem
    rw [hmem]
    rfl

/-- What the loop over the expired records leaves alone, and what it keeps. -/
theorem prune_keeps (now : ℤ) (hi : Indexed s) (order : List String) :
    Indexed (s.pruneExpiredRecordsLocked now order) ∧
      (s.pruneExpiredRecordsLocked now order).options = s.options ∧
      (s.pruneExpiredRecordsLocked now order).pluginRevokeFloors = s.pluginRevokeFloors ∧
      (s.pruneExpiredRecordsLocked now order).revokeFloorsSaturated = s.revokeFloorsSaturated := by
  refine List.foldlRecOn order (pruneRecord now) (motive := fun t => Indexed t ∧
    t.options = s.options ∧ t.pluginRevokeFloors = s.pluginRevokeFloors ∧
    t.revokeFloorsSaturated = s.revokeFloorsSaturated) ⟨hi, rfl, rfl, rfl⟩ fun t ht x _ => ?_
  unfold pruneRecord
  split
  · exact ht
  · split_ifs
    · exact ht
    · exact ⟨indexed_removeRecordLocked ht.1 ‹_›, ht.2⟩

end TokenManager

end RedevPlugin.Bridge
