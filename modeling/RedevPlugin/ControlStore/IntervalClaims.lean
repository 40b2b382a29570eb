import RedevPlugin.ControlStore.Intervals

/-! Claims of background intervals over whole runs. A claim that is valid was made by a call
that no finish, no recovery and no new plan of its plugin has followed, so it is the only one
and is finished once. A recovery schedules every claimed plan a full interval after its own
time; if the clock does not go back, that is after every period that was claimed before. -/

namespace RedevPlugin.ControlStore

open Session Transition
open Rows (find_eq_some mem_of_find key_of_find find_upsert find_delete find_update empty)
open Option (bind_eq_some_iff map_eq_some_iff any_some map_some)
open List (forall_mem_cons filterMap_cons map_cons nodup_cons mem_map)

variable {s t : Store} {k : PluginKey} {now : Time}

/-! ### What reconciling leaves -/

theorem mapKey_inj {k k'} (hk : validOwnerHash k.ownerEnvHash = true)
    (hk' : validOwnerHash k'.ownerEnvHash = true) (h : mapKey k = mapKey k') : k = k' := by
  obtain ⟨howner, hin⟩ := Text.join_inj (notMem_of_validOwnerHash hk (by decide))
    (notMem_of_validOwnerHash hk' (by decide)) h
  cases k
  cases k'
  cases howner
  cases hin
  rfl

/-- The record that a plan is derived from: enabled, runnable and with an interval. -/
def plannedRecord (row : RecordRow) : Option IntervalRecord :=
  match row.json with
  | .refused _ => none
  | .record record =>
    match record.background with
    | none => none
    | some entry =>
      if row.enabled = true ∧ row.deletedAt = none ∧ entry.strategy = .interval ∧
          runnablePluginRecord record = true then
        some ⟨row.key, row.binding, entry⟩
      else none

variable {record : IntervalRecord} {records : Records} {i i' : Intervals}
  {existing : String → Option IntervalPlan} {plans : List IntervalPlan} {rows : List IntervalRow}
  {row : IntervalRow} {plan : IntervalPlan} {answer : Answer} {call : Call} {u : Store}

theorem plannedRecord_key {row} (h : plannedRecord row = some record) : record.key = row.key := by
  revert h
  fun_cases plannedRecord row <;> rintro ⟨⟩
  rfl

theorem intervalRecord_eq {row o} (hsel : row.selected = true) (h : intervalRecord row = .ok o) :
    o = plannedRecord row := by
  simp only [RecordRow.selected, Bool.and_eq_true, Option.isNone_iff_eq_none,
    decide_eq_true_eq] at hsel
  unfold intervalRecord at h
  unfold plannedRecord
  cases hj : row.json with rw [hj] at h
  | refused => cases h
  | record record =>
    dsimp only at h ⊢
    split_ifs at h with hbad
    simp only [not_or, ne_eq, not_not] at hbad
    cases hen : record.background with rw [hen] at h
    | none =>
      cases h
      rfl
    | some entry =>
      dsimp only at h ⊢
      split_ifs at h with hgood
      · cases h
        rw [if_pos ⟨hsel.1.1, hsel.1.2, hgood.1, hgood.2⟩, hbad.2.1]
      · cases h
        rw [if_neg fun hall => hgood ⟨hall.2.2.1, hall.2.2.2⟩]

theorem plannedRecord_eq_none {row} (hsel : row.selected = false) : plannedRecord row = none := by
  unfold plannedRecord
  split
  · rfl
  · rename_i record hj
    split
    · rfl
    · rename_i entry hent
      rw [if_neg]
      rintro ⟨hen, hde, hstr, -⟩
      simp [RecordRow.selected, hen, hde, hj, RecordJSON.strategy, hent, hstr] at hsel

theorem intervalRecords_eq {rows records} (hsel : ∀ row ∈ rows, row.selected = true)
    (h : intervalRecords rows = .ok records) : records = rows.filterMap plannedRecord := by
  revert h
  fun_induction intervalRecords rows generalizing records <;> rintro ⟨⟩
  · rfl
  · rename_i ho _ hre ih
    rw [forall_mem_cons] at hsel
    rw [ih hsel.2 hre, intervalRecord_eq hsel.1 ho, filterMap_cons]
    cases plannedRecord _ <;> rfl

theorem filterMap_selected (rows : List RecordRow) :
    (rows.filter RecordRow.selected).filterMap plannedRecord = rows.filterMap plannedRecord := by
  rw [List.filterMap_filter]
  congr 1
  funext row
  split_ifs with hsel
  · rfl
  · rw [plannedRecord_eq_none (Bool.not_eq_true _ ▸ hsel)]

/-- The record that the plan of a key is derived from. -/
def planned (records : Records) (k : PluginKey) : Option IntervalRecord :=
  (records.find k).bind plannedRecord

theorem mem_planned :
    record ∈ records.rows.filterMap plannedRecord ↔ planned records record.key = some record := by
  rw [List.mem_filterMap, planned]
  constructor
  · rintro ⟨row, hrow, hpl⟩
    rw [find_eq_some.mpr ⟨hrow, (plannedRecord_key hpl).symm⟩]
    exact hpl
  · intro h
    obtain ⟨row, hrow, hpl⟩ := bind_eq_some_iff.mp h
    exact ⟨row, mem_of_find hrow, hpl⟩

theorem planned_key (h : planned records k = some record) : record.key = k := by
  obtain ⟨row, hrow, hpl⟩ := bind_eq_some_iff.mp h
  rw [plannedRecord_key hpl, key_of_find hrow]

theorem planned_keys_nodup (records : Records) :
    ((records.rows.filterMap plannedRecord).map IntervalRecord.key).Nodup := by
  obtain ⟨rows, hno⟩ := records
  induction rows with
  | nil => exact List.nodup_nil
  | cons _ rows ih =>
    rw [map_cons, nodup_cons] at hno
    rw [filterMap_cons]
    cases hpl : plannedRecord _ with
    | none => exact ih hno.2
    | some record =>
      rw [map_cons, nodup_cons]
      refine ⟨fun hmem => hno.1 ?_, ih hno.2⟩
      obtain ⟨other, hot, hkey⟩ := mem_map.mp hmem
      obtain ⟨row', hrow', hp'⟩ := List.mem_filterMap.mp hot
      refine mem_map.mpr ⟨row', hrow', ?_⟩
      rw [← plannedRecord_key hpl, ← plannedRecord_key hp', hkey]

/-- The plan of a record: one with its revisions is kept. -/
def settled (now : Time) (record : IntervalRecord) : Option IntervalRow → IntervalRow
  | none => planRow record now
  | some old => if old.binding = record.binding then old else planRow record now

theorem insertPlan_find (h : insertPlan record now i = .ok i') (k : PluginKey) :
    i'.find k = if k = record.key then some (settled now record (i.find k)) else i.find k := by
  unfold insertPlan at h
  split_ifs at h
  cases h
  rw [find_upsert]
  change (if k = record.key then _ else _) = _
  split_ifs with hk
  · cases hfind : i.find k with
    | none => rfl
    | some old =>
      have hold : old.key = record.key := (key_of_find hfind).trans hk
      simp only [Option.elim_some, settled]
      split_ifs
      · rfl
      · rw [hold]
        rfl
  · rfl

theorem reconcileRecord_find
    (hex : existing (mapKey record.key) = (i.find record.key).map planOfRow)
    (h : reconcileRecord existing now record i = .ok i') (k : PluginKey) :
    i'.find k = if k = record.key then some (settled now record (i.find k)) else i.find k := by
  unfold reconcileRecord at h
  split at h
  · exact insertPlan_find h k
  · rename_i current hcu
    split_ifs at h with hb
    · cases h
      split_ifs with hk
      · obtain ⟨old, hold, rfl⟩ := map_eq_some_iff.mp (hex.symm.trans hcu)
        rw [hk, hold, settled, if_pos]
        exact hb
      · rfl
    · exact insertPlan_find h k

theorem reconcileRecords_find {records} (hno : (records.map IntervalRecord.key).Nodup)
    (hex : ∀ record ∈ records, existing (mapKey record.key) = (i.find record.key).map planOfRow)
    (h : reconcileRecords existing now records i = .ok i') (k : PluginKey) :
    (∀ record ∈ records, record.key = k → i'.find k = some (settled now record (i.find k))) ∧
      ((∀ record ∈ records, record.key ≠ k) → i'.find k = i.find k) := by
  induction records generalizing i with
  | nil =>
    cases h
    simp
  | cons record records ih =>
    rw [map_cons, nodup_cons, mem_map, not_exists] at hno
    rw [forall_mem_cons] at hex
    unfold reconcileRecords at h
    split at h
    · cases h
    rename_i i₁ hfi
    have hfind := reconcileRecord_find hex.1 hfi
    have hot : ∀ other ∈ records, i₁.find other.key = i.find other.key := by
      intro other hmem
      rw [hfind, if_neg fun heq => hno.1 other ⟨hmem, heq⟩]
    obtain ⟨hth, hel⟩ := ih hno.2 (fun other hmem => by rw [hot other hmem, hex.2 other hmem]) h
    refine ⟨?_, fun hne => ?_⟩
    · rw [forall_mem_cons]
      constructor
      · rintro rfl
        rw [hel fun other hmem heq => hno.1 other ⟨hmem, heq⟩, hfind, if_pos rfl]
      · rintro other hmem rfl
        rw [hth other hmem rfl, hot other hmem]
    · rw [forall_mem_cons] at hne
      rw [hel hne.2, hfind, if_neg hne.1.symm]

theorem deleteStale_find {valid} (k : PluginKey) : (deleteStale valid plans i).find k =
      if ∃ plan ∈ plans, plan.key = k ∧ mapKey k ∉ valid then none else i.find k := by
  induction plans generalizing i with
  | nil => simp [deleteStale]
  | cons plan plans ih =>
    rw [deleteStale, ih]
    simp only [List.mem_cons, exists_eq_or_imp]
    by_cases hre : ∃ p ∈ plans, p.key = k ∧ mapKey k ∉ valid
    · rw [if_pos hre, if_pos (.inr hre)]
    · simp only [hre, or_false, if_false]
      by_cases hva : mapKey plan.key ∈ valid
      · rw [if_pos hva, if_neg]
        rintro ⟨rfl, hno⟩
        exact hno hva
      · rw [if_neg hva, find_delete]
        cases hfind : i.find k with
        | none => split_ifs <;> rfl
        | some row =>
          rw [Option.filter_some, key_of_find hfind]
          by_cases hkey : plan.key = k
          · subst hkey
            simp [hva]
          · simp [hkey, Ne.symm hkey]

theorem readIntervalPlans_ok (h : readIntervalPlans rows = .ok plans) :
    plans = rows.map planOfRow ∧ ∀ row ∈ rows, 1000 ≤ row.intervalMS := by
  revert h
  fun_induction readIntervalPlans rows generalizing plans <;> rintro ⟨⟩
  · simp
  · rename_i hrow _ hre ih
    unfold validateIntervalPlan at hrow
    split_ifs at hrow with hbad
    simp only [not_or, planOfRow] at hbad
    rw [(ih hre).1, forall_mem_cons]
    exact ⟨rfl, by omega, (ih hre).2⟩

theorem existingPlan_eq (hk : validOwnerHash k.ownerEnvHash = true)
    (how : ∀ row ∈ i.rows, validOwnerHash row.key.ownerEnvHash = true) :
    existingPlan (i.rows.map planOfRow) (mapKey k) = (i.find k).map planOfRow := by
  have hke : ∀ row ∈ i.rows, mapKey (planOfRow row).key = mapKey k ↔ row.key = k := by
    intro row hrow
    exact ⟨fun heq => mapKey_inj (how row hrow) hk heq, fun heq => congrArg mapKey heq⟩
  unfold existingPlan
  cases hfind : i.find k with
  | none =>
    rw [Option.map_none, List.find?_eq_none]
    intro plan hpl
    obtain ⟨row, hrow, rfl⟩ := mem_map.mp (List.mem_reverse.mp hpl)
    simpa [hke row hrow] using Rows.find_eq_none.mp hfind row hrow
  | some =>
    cases hpl : (i.rows.map planOfRow).reverse.find? fun plan => mapKey plan.key = mapKey k with
    | none =>
      have hno := List.find?_eq_none.mp hpl (planOfRow _)
        (List.mem_reverse.mpr (List.mem_map_of_mem (mem_of_find hfind)))
      exact absurd ((hke _ (mem_of_find hfind)).mpr (key_of_find hfind)) (by simpa using hno)
    | some plan =>
      have hmem := List.mem_of_find?_eq_some hpl
      obtain ⟨row', hrow', rfl⟩ := mem_map.mp (List.mem_reverse.mp hmem)
      have hkey : row'.key = k := (hke row' hrow').mp (by simpa using List.find?_some hpl)
      rw [find_eq_some.mpr ⟨hrow', hkey⟩] at hfind
      cases hfind
      rfl

/-- The owners of records are valid, and every plan has its record. -/
structure Sound (s : Store) : Prop where
  owners : ∀ row ∈ s.records.rows, validOwnerHash row.key.ownerEnvHash = true
  linked : ∀ k row, s.intervals.find k = some row → ∃ record, s.records.find k = some record

theorem Sound.owner_of_row (hs : Sound s) (h : row ∈ s.intervals.rows) :
    validOwnerHash row.key.ownerEnvHash = true := by
  obtain ⟨record, hre⟩ := hs.linked row.key row (find_eq_some.mpr ⟨h, rfl⟩)
  rw [← key_of_find hre]
  exact hs.owners record (mem_of_find hre)

theorem Sound.owner_of_planned (hs : Sound s) (h : planned s.records k = some record) :
    validOwnerHash k.ownerEnvHash = true := by
  obtain ⟨row, hrow, -⟩ := bind_eq_some_iff.mp h
  rw [← key_of_find hrow]
  exact hs.owners row (mem_of_find hrow)

/-- Reconciling leaves the plans of the enabled runnable records with an interval, and of those
the ones that have the revisions of the record as they were. -/
theorem reconcileIntervals_find (hs : Sound s) (h : reconcileIntervals s now = .ok t) :
    t.records = s.records ∧ ∀ k, t.intervals.find k =
        (planned s.records k).map fun record => settled now record (s.intervals.find k) := by
  revert h
  fun_cases reconcileIntervals s now <;> rintro ⟨⟩
  rename_i records hrecords plans hpla i hi
  refine ⟨rfl, fun k => ?_⟩
  have hrecords := intervalRecords_eq (fun row hrow => (List.mem_filter.mp hrow).2) hrecords
  rw [filterMap_selected] at hrecords
  obtain ⟨rfl, -⟩ := readIntervalPlans_ok hpla
  have hmem : ∀ record, record ∈ records ↔ planned s.records record.key = some record :=
    fun record => hrecords ▸ mem_planned
  have hfind := reconcileRecords_find (hrecords ▸ planned_keys_nodup s.records)
    (fun record hre => existingPlan_eq (hs.owner_of_planned ((hmem record).mp hre))
      fun row hrow => hs.owner_of_row hrow) hi k
  rw [deleteStale_find]
  cases hpl : planned s.records k with
  | none =>
    have hnot : ∀ record ∈ records, record.key ≠ k := by
      rintro record hre rfl
      simp [(hmem record).mp hre] at hpl
    rw [hfind.2 hnot]
    cases hrow : s.intervals.find k with
    | none => split_ifs <;> rfl
    | some row =>
      refine if_pos ⟨planOfRow row, List.mem_map_of_mem (mem_of_find hrow),
        show row.key = k from key_of_find hrow, fun hva => ?_⟩
      obtain ⟨record, hre, hkey⟩ := mem_map.mp hva
      have howner := key_of_find hrow ▸ hs.owner_of_row (mem_of_find hrow)
      exact hnot record hre (mapKey_inj (hs.owner_of_planned ((hmem record).mp hre)) howner hkey)
  | some record =>
    have hkey := planned_key hpl
    have hre : record ∈ records := (hmem record).mpr (hkey.symm ▸ hpl)
    rw [if_neg, hfind.1 record hre hkey]
    · rfl
    · rintro ⟨plan, -, -, hin⟩
      exact hin (mem_map.mpr ⟨record, hre, by rw [hkey]⟩)

/-! ### What a call does -/

theorem IntervalPlan.names_iff :
    plan.names row = true ↔ row.key = plan.key ∧ row.binding = plan.binding ∧
      row.intervalMS = plan.intervalMS ∧ row.maxRuntimeMS = plan.maxRuntimeMS := by
  simp only [IntervalPlan.names, Bool.and_eq_true, decide_eq_true_eq, and_assoc]

theorem IntervalPlan.claims_iff :
    plan.claims row = true ↔ plan.names row = true ∧ row.claimID = plan.claimID := by
  simp [IntervalPlan.claims]

theorem IntervalPlan.key_of_claims (h : plan.claims row = true) : row.key = plan.key :=
  (names_iff.mp (claims_iff.mp h).1).1

open IntervalPlan (names_iff names claims_iff claims key_of_claims)

theorem claimable_iff :
    claimable records plan now row = true ↔ plan.names row = true ∧
      row.nextRun = unixMilli plan.nextRun ∧ row.claimID = "" ∧ row.nextRun ≤ unixMilli now ∧
      recordAllows records row = true := by
  simp only [claimable, Bool.and_eq_true, decide_eq_true_eq, and_assoc]

/-- What a call does to the plans, row by row. -/
inductive Performs (s : Store) : Call → Answer → Store → Prop
  | failed (call e) : Performs s call (.failed e) s
  | reconciled {t : Store} (now : Time) (hrecords : t.records = s.records)
      (hfind : ∀ k, t.intervals.find k =
        (planned s.records k).map fun record => settled now record (s.intervals.find k)) :
      Performs s (.reconcile now) .reconciled t
  | claimed {t claim ok} (plan nonce now)
      (hclaim : claim = { plan with claimID := encodeToString nonce.bytes, claimedAt := now })
      (hok : ok = (s.intervals.find plan.key).any (claimable s.records plan now))
      (hrecords : t.records = s.records)
      (hfind : ∀ k, t.intervals.find k = (s.intervals.find k).map fun row =>
        if claimable s.records plan now row then (claimRow claim now).apply row else row) :
      Performs s (.claim plan nonce now) (.claimed claim ok) t
  | finished {t ok} (plan now outcome) (hready : s.ready = true) (hid : plan.claimID ≠ "")
      (hok : ok = (s.intervals.find plan.key).any plan.claims) (hrecords : t.records = s.records)
      (hfind : ∀ k, t.intervals.find k = (s.intervals.find k).map fun row =>
        if plan.claims row then (finishRow plan now outcome).apply row else row) :
      Performs s (.finish plan now outcome) (.finished ok) t
  | recovered {t : Store} (now : Time) (hlimits : ∀ row ∈ s.intervals.rows, 1000 ≤ row.intervalMS)
      (hrecords : t.records = s.records)
      (hfind : ∀ k, t.intervals.find k = (s.intervals.find k).map fun row =>
        if row.claimID ≠ "" then (recoverRow now).apply row else row) :
      Performs s (.recover now) .recovered t
  | put {t : Store} (row : RecordRow) (howner : validOwnerHash row.key.ownerEnvHash = true)
      (hrecords : t.records =
        s.records.upsert row ⟨fun old => { row with key := old.key }, fun _ => rfl⟩)
      (hintervals : t.intervals = s.intervals) : Performs s (.putRecord row) .done t
  | deleted {t : Store} (key : PluginKey)
      (hrecords : t.records = s.records.delete fun row => row.key = key)
      (hintervals : t.intervals = s.intervals.delete fun row => row.key = key) :
      Performs s (.deleteRecord key) .done t
  | readied {t : Store} (ready : Bool) (hrecords : t.records = s.records)
      (hintervals : t.intervals = s.intervals) : Performs s (.setReady ready) .done t

theorem perform_performs (hs : Sound s) (h : perform s call = some (answer, t)) :
    Performs s call answer t := by
  revert h
  fun_cases perform s call <;> rintro ⟨⟩
  · exact .failed _ _
  · obtain ⟨hrecords, hfind⟩ := reconcileIntervals_find hs ‹_›
    exact .reconciled _ hrecords hfind
  · exact .failed _ _
  · rename_i plan _ now _ _ hu
    unfold claimInterval at hu
    split_ifs at hu with hready hz
    cases hu
    refine .claimed plan _ now rfl ?_ rfl fun k => find_update k
    rw [Rows.affected_eq fun row hrow =>
      (names_iff.mp (claimable_iff.mp hrow).1).1]
    cases (s.intervals.find plan.key).any (claimable s.records plan now) <;> rfl
  · exact .failed _ _
  · rename_i plan _ _ _ hu
    unfold finishInterval at hu
    split_ifs at hu with hready hz hk
    cases hu
    refine .finished plan _ _ (by simpa using hready) (fun hid => hz (.inl hid)) ?_ rfl
      fun k => find_update k
    rw [Rows.affected_eq fun row hrow => key_of_claims hrow]
    cases (s.intervals.find plan.key).any plan.claims <;> rfl
  · exact .failed _ _
  · rename_i hu
    unfold recoverIntervalClaims at hu
    split_ifs at hu with hready hz
    split at hu <;> cases hu
    refine .recovered _ (readIntervalPlans_ok ‹_›).2 rfl fun k => ?_
    simp [find_update]
  · exact .put _ ‹_› rfl rfl
  · exact .deleted _ rfl rfl
  · exact .readied _ rfl rfl
  · exact .failed _ _

theorem Performs.sound (h : Performs s call answer t) (hs : Sound s) : Sound t := by
  have hsame : t.records = s.records →
      (∀ k row, t.intervals.find k = some row → ∃ record, s.records.find k = some record) →
      Sound t := fun hrecords hli => ⟨hrecords ▸ hs.owners, hrecords ▸ hli⟩
  have hma : ∀ {f : IntervalRow → IntervalRow}, t.records = s.records →
      (∀ k, t.intervals.find k = (s.intervals.find k).map f) → Sound t := by
    intro f hrecords hfind
    refine hsame hrecords fun k row hrow => ?_
    rw [hfind] at hrow
    obtain ⟨old, hold, -⟩ := map_eq_some_iff.mp hrow
    exact hs.linked k old hold
  cases h with
  | failed => exact hs
  | reconciled _ hrecords hfind =>
    refine hsame hrecords fun k row hrow => ?_
    rw [hfind] at hrow
    obtain ⟨record, hpl, -⟩ := map_eq_some_iff.mp hrow
    obtain ⟨recordRow, hre, -⟩ := bind_eq_some_iff.mp hpl
    exact ⟨recordRow, hre⟩
  | claimed _ _ _ _ _ hrecords hfind
  | finished _ _ _ _ _ _ hrecords hfind =>
    exact hma hrecords hfind
  | recovered _ _ hrecords hfind => exact hma hrecords hfind
  | readied _ hrecords hintervals => exact hsame hrecords (hintervals ▸ hs.linked)
  | put _ howner hrecords hintervals =>
    refine ⟨fun other hot => ?_, fun k i hi => ?_⟩
    · have hfind := find_eq_some.mpr ⟨hot, rfl⟩
      rw [hrecords, find_upsert] at hfind
      split_ifs at hfind with hkey
      · rw [hkey]
        exact howner
      · exact hs.owners other (mem_of_find hfind)
    · rw [hintervals] at hi
      rw [hrecords, find_upsert]
      split_ifs with hkey
      · exact ⟨_, rfl⟩
      · exact hs.linked k i hi
  | deleted _ hrecords hintervals =>
    refine ⟨fun other hot => ?_, fun k i hi => ?_⟩
    · rw [hrecords] at hot
      exact hs.owners other (List.mem_filter.mp hot).1
    · rw [hintervals, find_delete, Option.filter_eq_some_iff] at hi
      obtain ⟨record, hre⟩ := hs.linked k i hi.1
      refine ⟨record, ?_⟩
      rw [hrecords, find_delete, Option.filter_eq_some_iff]
      refine ⟨hre, ?_⟩
      rw [key_of_find hre, ← key_of_find hi.1]
      exact hi.2

theorem validateIntervalClaim_iff :
    validateIntervalClaim s plan = .ok () ↔ s.ready = true ∧ plan.claimID ≠ "" ∧
      ∃ row, s.intervals.find plan.key = some row ∧ plan.claims row = true := by
  have hco : s.intervals.affected plan.claims = 1 ↔ _ :=
    Rows.affected_eq_one fun row hrow => key_of_claims hrow
  rw [← hco, validateIntervalClaim]
  split_ifs with hready hid hone
  · simp [hready]
  · simp [hid]
  · simp [hone]
  · simp only [ne_eq, not_not] at hone
    simpa [hone, hid] using hready

/-! ### Where claims come from -/

abbrev Step := Store × (Call × Answer) × Store

/-- The step ends the claim of a plugin: it is finished or recovered, or there is another plan
or none. -/
def Ends (k : PluginKey) (x : Step) : Prop :=
  (∃ plan now outcome, x.2.1 = (.finish plan now outcome, .finished true) ∧ plan.key = k) ∨
  (∃ now, x.2.1 = (.recover now, .recovered)) ∨
  (x.1.intervals.find k).map IntervalRow.binding ≠ (x.2.2.intervals.find k).map IntervalRow.binding

/-- The step makes a claim, and the plan is what it gave, as far as later calls compare it. -/
def Makes (plan : IntervalPlan) (x : Step) : Prop :=
  ∃ asked nonce now claim, x.2.1 = (.claim asked nonce now, .claimed claim true) ∧
    claim.key = plan.key ∧ claim.binding = plan.binding ∧ claim.intervalMS = plan.intervalMS ∧
    claim.maxRuntimeMS = plan.maxRuntimeMS ∧ claim.claimID = plan.claimID

/-- The claim was made in this history and has not ended since. -/
def Live (plan : IntervalPlan) (h : List Step) : Prop :=
  ∃ a x b, h = a ++ x :: b ∧ Makes plan x ∧ ∀ y ∈ b, ¬ Ends plan.key y

theorem Live.snoc {h} (hli : Live plan h) {x} (hx : ¬ Ends plan.key x) : Live plan (h ++ [x]) := by
  obtain ⟨a, y, b, rfl, hmakes, hb⟩ := hli
  refine ⟨a, y, b ++ [x], by simp, hmakes, ?_⟩
  simp only [List.mem_append, List.mem_singleton]
  rintro z (hz | rfl)
  · exact hb z hz
  · exact hx

/-- A row that has a claim after a step had it before, and the step has not ended it; or the
step has made it. -/
theorem Performs.claim_origin (h : Performs s call answer t)
    (hrow : t.intervals.find plan.key = some row) (hcl : plan.claims row = true)
    (hid : plan.claimID ≠ "") :
    (∃ old, s.intervals.find plan.key = some old ∧ plan.claims old = true ∧
      ¬ Ends plan.key (s, (call, answer), t)) ∨ Makes plan (s, (call, answer), t) := by
  have hro : row.claimID ≠ "" := (claims_iff.mp hcl).2 ▸ hid
  have hk : (∀ plan' now outcome, (call, answer) ≠ (.finish plan' now outcome, .finished true) ∨
        plan'.key ≠ plan.key) →
      (∀ now, (call, answer) ≠ (.recover now, .recovered)) →
      s.intervals.find plan.key = some row →
      ∃ old, s.intervals.find plan.key = some old ∧ plan.claims old = true ∧
        ¬ Ends plan.key (s, (call, answer), t) := by
    intro hfi hre hold
    refine ⟨row, hold, hcl, ?_⟩
    rintro (⟨plan', now, outcome, hcall, hkey⟩ | ⟨now, hcall⟩ | hb)
    · exact (hfi plan' now outcome).elim (fun hne => hne hcall) fun hne => hne hkey
    · exact hre now hcall
    · exact hb (by rw [hold, hrow])
  cases h with
  | failed => exact .inl (hk (by simp) (by simp) hrow)
  | reconciled _ _ hfind =>
    rw [hfind] at hrow
    obtain ⟨record, hpl, hse⟩ := map_eq_some_iff.mp hrow
    cases hold : s.intervals.find plan.key with
    | none =>
      rw [hold] at hse
      subst hse
      exact absurd rfl hro
    | some old =>
      rw [hold, settled] at hse
      split_ifs at hse <;> subst hse
      · exact .inl (hold ▸ hk (by simp) (by simp) hold)
      · exact absurd rfl hro
  | @claimed _ claim _ asked nonce now hclaim hok _ hfind =>
    rw [hfind] at hrow
    obtain ⟨old, hold, heq⟩ := map_eq_some_iff.mp hrow
    split_ifs at heq with hma
    · right
      have hna := names_iff.mp (claimable_iff.mp hma).1
      have hn' := names_iff.mp (claims_iff.mp hcl).1
      have hask : asked.key = plan.key := hna.1.symm.trans (key_of_find hold)
      subst heq
      refine ⟨asked, nonce, now, claim, ?_, ?_⟩
      · rw [hok, hask, hold, any_some, hma]
      · subst hclaim
        exact ⟨hask, hna.2.1.symm.trans hn'.2.1, hna.2.2.1.symm.trans hn'.2.2.1,
          hna.2.2.2.symm.trans hn'.2.2.2, (claims_iff.mp hcl).2⟩
    · subst heq
      exact .inl (hk (by simp) (by simp) hold)
  | finished _ _ _ _ _ hok _ hfind =>
    rw [hfind] at hrow
    obtain ⟨old, hold, heq⟩ := map_eq_some_iff.mp hrow
    split_ifs at heq with hma <;> subst heq
    · exact absurd rfl hro
    · refine .inl (hk (fun p n o => ?_) (by simp) hold)
      by_cases hkey : p.key = plan.key
      · refine .inl fun heq => ?_
        cases heq
        rw [hkey, hold] at hok
        exact hma (by simpa using hok.symm)
      · exact .inr hkey
  | recovered _ _ _ hfind =>
    rw [hfind] at hrow
    obtain ⟨old, hold, heq⟩ := map_eq_some_iff.mp hrow
    split_ifs at heq with hma <;> subst heq
    · exact absurd rfl hro
    · exact absurd hro hma
  | put _ _ _ hintervals | readied _ _ hintervals =>
    exact .inl (hk (by simp) (by simp) (hintervals ▸ hrow))
  | deleted _ _ hintervals =>
    rw [hintervals, find_delete, Option.filter_eq_some_iff] at hrow
    exact .inl (hk (by simp) (by simp) hrow.1)

/-! ### Runs -/

abbrev Label := Call × Answer

/-- A store whose table of plans was just made. -/
def Fresh (s : Store) : Prop :=
  s.intervals = empty ∧ ∀ row ∈ s.records.rows, validOwnerHash row.key.ownerEnvHash = true

theorem Fresh.sound (h : Fresh s) : Sound s := by
  refine ⟨h.2, fun k row hrow => ?_⟩
  simp [h.1] at hrow

theorem step_performs {l : Label} (hs : Sound s) (h : intervalSystem.step s l t) :
    Performs s l.1 l.2 t := perform_performs hs h

variable {tr : List (Label × Store)}

theorem run_sound (hu : Sound u) (hr : intervalSystem.Run u tr) : ∀ v ∈ states u tr, Sound v :=
  hr.forall_states (C := fun _ _ _ => True) (fun _ _ _ _ hs _ h => (step_performs hs h).sound hs) hu
    (guarded_true [] u tr)

/-- A valid claim was made in the run and has not ended since. -/
theorem live_of_valid (hu : Fresh u) (hr : intervalSystem.Run u tr)
    (h : validateIntervalClaim (last u tr) plan = .ok ()) : Live plan (steps u tr) := by
  obtain ⟨-, hid, row, hrow, hcl⟩ := validateIntervalClaim_iff.mp h
  have hinv := hr.invariant_steps (h := [])
    (I := fun h v => Sound v ∧ ∀ plan row, v.intervals.find plan.key = some row →
      plan.claims row = true → plan.claimID ≠ "" → Live plan h)
    (fun h v l w hI hstep => ?_) ⟨hu.sound, fun plan row hrow => ?_⟩
  · exact hinv.2 plan row hrow hcl hid
  · have hpe := step_performs hI.1 hstep
    refine ⟨hpe.sound hI.1, fun plan row hrow hcl hid => ?_⟩
    rcases hpe.claim_origin hrow hcl hid with ⟨old, hold, hc', hen⟩ | hmakes
    · exact (hI.2 plan old hold hc' hid).snoc hen
    · exact ⟨h, _, [], rfl, hmakes, by simp⟩
  · simp [hu.1] at hrow

/-- A claim that a step made, with the time of the call. -/
def claimOf : Label → Option (IntervalPlan × Time)
  | (.claim _ _ now, .claimed claim true) => some (claim, now)
  | _ => none

def claimsMade (h : List Label) : List (IntervalPlan × Time) := h.filterMap claimOf

/-- A recovery does not come at a time before that of an earlier claim. -/
def ClockForward (h : List Label) (_ : Store) (l : Label) : Prop :=
  match l.1 with
  | .recover now => ∀ c ∈ claimsMade h, unixMilli c.2 ≤ unixMilli now
  | _ => True

instance (h : List Label) (s : Store) (l : Label) : Decidable (ClockForward h s l) := by
  unfold ClockForward
  split <;> infer_instance

/-- What a claim needs: an enabled record with the revisions of the plan, and that its time has
come. -/
theorem Performs.claim_allowed {claim : IntervalPlan} {nonce : Nonce}
    (h : Performs s (.claim plan nonce now) (.claimed claim true) t) :
    claim.nextRun = plan.nextRun ∧ unixMilli plan.nextRun ≤ unixMilli now ∧
      (∃ row, s.intervals.find plan.key = some row ∧ row.binding = plan.binding ∧
        row.claimID = "" ∧ row.nextRun = unixMilli plan.nextRun) ∧
      ∃ record, s.records.find plan.key = some record ∧ record.enabled = true ∧
        record.deletedAt = none ∧ record.binding = plan.binding := by
  cases h with
  | claimed _ _ _ hclaim hok =>
    obtain ⟨row, hrow, hma⟩ := (Option.any_eq_true _ _).mp hok.symm
    obtain ⟨hna, hnext, hid, hdue, hal⟩ := claimable_iff.mp hma
    obtain ⟨hkey, hb, -⟩ := names_iff.mp hna
    refine ⟨by rw [hclaim], hnext ▸ hdue, ⟨row, hrow, hb, hid, hnext⟩, ?_⟩
    simp only [recordAllows, List.any_eq_true, Bool.and_eq_true, decide_eq_true_eq,
      Option.isNone_iff_eq_none] at hal
    obtain ⟨record, hmem, ⟨⟨hrec, hre⟩, hen⟩, hde⟩ := hal
    exact ⟨record, find_eq_some.mpr ⟨hmem, hrec.trans hkey⟩, hen, hde, hre.trans hb⟩

theorem Performs.finish_valid {outcome : Outcome}
    (h : Performs s (.finish plan now outcome) (.finished true) t) :
    validateIntervalClaim s plan = .ok () ∧ validateIntervalClaim t plan ≠ .ok () := by
  cases h with
  | finished _ _ _ hready hid hok _ hfind =>
    obtain ⟨row, hrow, hma⟩ := (Option.any_eq_true _ _).mp hok.symm
    refine ⟨validateIntervalClaim_iff.mpr ⟨hready, hid, row, hrow, hma⟩, fun hva => ?_⟩
    obtain ⟨-, -, row', hrow', hcl⟩ := validateIntervalClaim_iff.mp hva
    rw [hfind, hrow, map_some, if_pos hma] at hrow'
    cases hrow'
    exact hid (claims_iff.mp hcl).2.symm

/-- A recovery leaves no valid claim, and what was claimed is due an interval after it. -/
theorem Performs.recover_spec (h : Performs s (.recover now) .recovered t) :
    (∀ plan, validateIntervalClaim t plan ≠ .ok ()) ∧
      ∀ k row, s.intervals.find k = some row → row.claimID ≠ "" →
        ∃ row', t.intervals.find k = some row' ∧ row'.nextRun = unixMilli now + row.intervalMS ∧
          unixMilli now < row'.nextRun := by
  cases h with
  | recovered now hlimits _ hfind =>
    refine ⟨fun plan hva => ?_, fun k row hrow hid => ?_⟩
    · obtain ⟨-, hid, row, hrow, hcl⟩ := validateIntervalClaim_iff.mp hva
      have hro := (claims_iff.mp hcl).2
      rw [hfind] at hrow
      obtain ⟨old, -, rfl⟩ := map_eq_some_iff.mp hrow
      split_ifs at hro with hold
      · exact hid hro.symm
      · exact hid (hro.symm.trans (not_not.mp hold))
    · have hlimit := hlimits row (mem_of_find hrow)
      refine ⟨(recoverRow now).apply row, by rw [hfind, hrow, map_some, if_pos hid], rfl, ?_⟩
      change unixMilli now < unixMilli now + row.intervalMS
      omega

theorem due_of_claimsMade (hu : Sound u) (hr : intervalSystem.Run u tr) :
    ∀ c ∈ claimsMade (labels tr), unixMilli c.1.nextRun ≤ unixMilli c.2 := by
  have hinv := hr.invariant (h := []) (C := fun _ _ _ => True)
    (I := fun h v => Sound v ∧ ∀ c ∈ claimsMade h, unixMilli c.1.nextRun ≤ unixMilli c.2)
    (fun h v l w hI _ hstep => ?_) ⟨hu, by simp [claimsMade]⟩ (guarded_true [] u tr)
  · exact hinv.2
  · have hpe := step_performs hI.1 hstep
    refine ⟨hpe.sound hI.1, fun c hc => ?_⟩
    rw [claimsMade, List.filterMap_append, List.mem_append] at hc
    rcases hc with hc | hc
    · exact hI.2 c hc
    · rw [List.mem_filterMap] at hc
      obtain ⟨l', hl', hc⟩ := hc
      cases List.mem_singleton.mp hl'
      unfold claimOf at hc
      split at hc
      · rename_i heq
        cases hc
        cases heq
        obtain ⟨hnext, hdue, -⟩ := hpe.claim_allowed
        rw [hnext]
        exact hdue
      · cases hc

/-- In every run of a store with a fresh table of plans: two valid claims of a plugin are the
same; a valid claim, and so one that is finished, was made in the run and has not ended since;
a claim is made only for an enabled record with the revisions of the plan when its time has
come; a recovery leaves no valid claim and schedules what was claimed an interval later, which
is after every period claimed before if the clock does not go back; and reconciling leaves the
plans of the enabled runnable records with an interval, those with the same revisions as they
were. -/
theorem interval_claims_safe {u : Store} {tr : List (Label × Store)} (hu : Fresh u)
    (hr : intervalSystem.Run u tr) :
    (∀ v ∈ states u tr, ∀ p q : IntervalPlan, validateIntervalClaim v p = .ok () →
      validateIntervalClaim v q = .ok () → p.key = q.key →
      p.claimID = q.claimID ∧ p.binding = q.binding ∧ p.intervalMS = q.intervalMS ∧
        p.maxRuntimeMS = q.maxRuntimeMS) ∧
    (∀ a b plan, tr = a ++ b → validateIntervalClaim (last u a) plan = .ok () →
      Live plan (steps u a)) ∧
    (∀ x ∈ steps u tr, ∀ plan now outcome, x.2.1 = (.finish plan now outcome, .finished true) →
        validateIntervalClaim x.1 plan = .ok () ∧ validateIntervalClaim x.2.2 plan ≠ .ok ()) ∧
    (∀ x ∈ steps u tr, ∀ plan nonce now claim,
      x.2.1 = (.claim plan nonce now, .claimed claim true) →
        unixMilli plan.nextRun ≤ unixMilli now ∧
        (∃ row, x.1.intervals.find plan.key = some row ∧ row.binding = plan.binding ∧
          row.claimID = "" ∧ row.nextRun = unixMilli plan.nextRun) ∧
        ∃ record, x.1.records.find plan.key = some record ∧ record.enabled = true ∧
          record.deletedAt = none ∧ record.binding = plan.binding) ∧
    (∀ a now t b, tr = a ++ ((.recover now, .recovered), t) :: b →
      (∀ plan, validateIntervalClaim t plan ≠ .ok ()) ∧
      ∀ k row, (last u a).intervals.find k = some row → row.claimID ≠ "" →
        ∃ row', t.intervals.find k = some row' ∧ row'.nextRun = unixMilli now + row.intervalMS ∧
          (Guarded ClockForward [] u tr → ∀ c ∈ claimsMade (labels a), c.1.key = k →
            unixMilli c.1.nextRun < row'.nextRun)) ∧
    ∀ x ∈ steps u tr, ∀ now, x.2.1 = (.reconcile now, .reconciled) → ∀ k, x.2.2.intervals.find k =
        (planned x.1.records k).map fun record => settled now record (x.1.intervals.find k) := by
  have hsound := run_sound hu.sound hr
  have hsteps := hr.forall_steps (P := fun s l t => Performs s l.1 l.2 t)
    (fun s l t hs h => step_performs hs h) hsound
  refine ⟨fun v _ p q hp hq hkey => ?_, fun a b plan htr hvalid => ?_, ?_, ?_,
    fun a now t b htr => ?_, ?_⟩
  · obtain ⟨-, -, row, hrow, hclaims⟩ := validateIntervalClaim_iff.mp hp
    obtain ⟨-, -, row', hrow', hclaims'⟩ := validateIntervalClaim_iff.mp hq
    rw [hkey, hrow'] at hrow
    cases hrow
    obtain ⟨hnames, hid⟩ := claims_iff.mp hclaims
    obtain ⟨hnames', hid'⟩ := claims_iff.mp hclaims'
    obtain ⟨-, hbinding, hinterval, hruntime⟩ := names_iff.mp hnames
    obtain ⟨-, hbinding', hinterval', hruntime'⟩ := names_iff.mp hnames'
    exact ⟨hid.symm.trans hid', hbinding.symm.trans hbinding', hinterval.symm.trans hinterval',
      hruntime.symm.trans hruntime'⟩
  · subst htr
    exact live_of_valid hu ((intervalSystem.run_append u a b).mp hr).1 hvalid
  · rintro ⟨v, l, w⟩ hx plan now outcome rfl
    exact (hsteps _ hx).finish_valid
  · rintro ⟨v, l, w⟩ hx plan nonce now claim rfl
    exact (hsteps _ hx).claim_allowed.2
  · subst htr
    obtain ⟨ha, hstep, -⟩ := (intervalSystem.run_append u a _).mp hr
    have hlast := run_sound hu.sound ha _ (last_mem_states u a)
    obtain ⟨hinvalid, hnext⟩ := (step_performs hlast hstep).recover_spec
    refine ⟨hinvalid, fun k row hrow hid => ?_⟩
    obtain ⟨row', hrow', hdue, hafter⟩ := hnext k row hrow hid
    refine ⟨row', hrow', hdue, fun hg c hc _ => ?_⟩
    have hforward : ∀ c ∈ claimsMade (labels a), unixMilli c.2 ≤ unixMilli now :=
      ((guarded_append ClockForward [] u a _).mp hg).2.1
    have hbefore := hforward c hc
    have hclaimed := due_of_claimsMade hu.sound ha c hc
    omega
  · rintro ⟨v, l, w⟩ hx now rfl
    cases hsteps _ hx with
    | reconciled _ _ hfind => exact hfind

def sampleKey : PluginKey := ⟨"env", "p"⟩

def sampleBinding : Binding := ⟨"package", 1, 1, 0⟩

/-- An enabled plugin that runs every minute. -/
def sampleRecord : RecordRow :=
  ⟨sampleKey, sampleBinding, true, none, .record ⟨"p", sampleBinding, .enabled, false,
    some ⟨.interval, 60000, 1000⟩, ["/index.html"], true, .userApproved⟩⟩

def sampleStore : Store := ⟨true, ⟨[sampleRecord], by decide⟩, empty⟩

def samplePlan : IntervalPlan :=
  ⟨sampleKey, sampleBinding, 60000, 1000, timeOfUnixMilli 60001, "", zeroTime, zeroTime, .none⟩

def sampleNonce (digit : Fin 16) : Nonce := ⟨List.replicate 24 (0, digit), by simp⟩

/-- The plan is made and claimed when it is due; then the claim is recovered and the plugin is
claimed again, at the given times. -/
def sampleRun (recovered again : Time) (plan : IntervalPlan) : List (Label × Store) :=
  trace perform sampleStore
    [.reconcile (timeOfUnixMilli 1), .claim samplePlan (sampleNonce 1) (timeOfUnixMilli 60001),
      .recover recovered, .claim plan (sampleNonce 2) again]

theorem interval_claims_safe_recovered :
    let tr := sampleRun (timeOfUnixMilli 60002) (timeOfUnixMilli 120002)
      { samplePlan with nextRun := timeOfUnixMilli 120002 }
    (claimsMade (labels tr)).length = 2 ∧ Guarded ClockForward [] sampleStore tr ∧
      ∀ a now t b, tr = a ++ ((.recover now, .recovered), t) :: b →
        ∀ k row, (last sampleStore a).intervals.find k = some row → row.claimID ≠ "" →
          ∃ row', t.intervals.find k = some row' ∧ ∀ c ∈ claimsMade (labels a), c.1.key = k →
            unixMilli c.1.nextRun < row'.nextRun := by
  intro tr
  have hforward : Guarded ClockForward [] sampleStore tr := by decide
  refine ⟨by decide, hforward, fun a now t b htr k row hrow hid => ?_⟩
  obtain ⟨-, -, -, -, hrecover, -⟩ := interval_claims_safe (u := sampleStore)
    ⟨rfl, by decide⟩ (System.run_trace _ perform _ _)
  obtain ⟨row', hrow', -, hafter⟩ := (hrecover a now t b htr).2 k row hrow hid
  exact ⟨row', hrow', hafter hforward⟩

/-- A claim of the period at 60001 is recovered when the clock has gone back to 1, and the same
period is claimed again. -/
theorem recovery_repeats_period :
    let tr := sampleRun (timeOfUnixMilli 1) (timeOfUnixMilli 60001) samplePlan
    (claimsMade (labels tr)).map (fun c => (c.1.key, c.1.binding, unixMilli c.1.nextRun)) =
      [(sampleKey, sampleBinding, 60001), (sampleKey, sampleBinding, 60001)] := by
  decide

end RedevPlugin.ControlStore
