import RedevPlugin.Scheduler.Shrinking

/-! The session indexes of the scheduler. `Tracks` says that an index lists, for
each scope, the ids whose entry in a table has that scope. The queued and the
active index track their tables in every run, whatever ids come back, so that a
revocation finds every queued and every active job of its scope. The index of
publishing requests is the caller's matter: the scheduler only adds an id when a
completion begins and removes it when one ends. -/

namespace RedevPlugin.Scheduler

open Finmap (lookup_insert_ite lookup_erase_ite lookup_of_insert lookup_of_erase lookup_eq_none
  lookup mem_insert mem_erase mem_of_lookup_eq_some)

variable {V : Type} {index : SessionIndex} {table : Table RequestId V}
  {scopeOf : V → Option SessionScope} {limits : SchedulerLimits} {s t : SchedulerState}

variable {sc : SessionScope} {id' : RequestId} {job : InvocationJob} {l : Op × Output}
  {id : RequestId}

theorem mem_addSessionRequest {scope} : id' ∈ (addSessionRequest index scope id).ids sc ↔
      id' ∈ index.ids sc ∨ scope = some sc ∧ id' = id := by
  cases scope with
  | none => simp [addSessionRequest]
  | some scope =>
    simp only [addSessionRequest, SessionIndex.ids, lookup_insert_ite, Option.some.injEq]
    by_cases hs : sc = scope
    · subst hs
      simp [or_comm]
    · simp [hs, Ne.symm hs]

theorem mem_removeSessionRequest {scope} : id' ∈ (removeSessionRequest index scope id).ids sc ↔
      id' ∈ index.ids sc ∧ ¬ (scope = some sc ∧ id' = id) := by
  cases scope with
  | none => simp [removeSessionRequest]
  | some scope =>
    simp only [removeSessionRequest, Option.some.injEq]
    by_cases hs : sc = scope
    · subst hs
      cases hl : index.lookup sc with
      | none => simp [SessionIndex.ids, hl]
      | some ids =>
        have hmem : id' ∈ ids.erase id ↔ id' ∈ ids ∧ ¬ id' = id := by
          rw [Finset.mem_erase, and_comm]
        simp only [SessionIndex.ids, hl, Option.getD_some, true_and, ← hmem]
        split_ifs with he <;> simp [he]
    · cases index.lookup scope with
      | none => simp [Ne.symm hs]
      | some ids =>
        dsimp only
        split_ifs <;> simp [SessionIndex.ids, hs, Ne.symm hs]

theorem ids_addSessionRequest {scope} (h : index.ids sc = ∅) (hs : scope ≠ some sc) :
    (addSessionRequest index scope id).ids sc = ∅ := by
  rw [Finset.eq_empty_iff_forall_notMem]
  intro id' hid
  simpa [h, hs] using mem_addSessionRequest.mp hid

theorem ids_removeSessionRequest {scope} (h : index.ids sc = ∅) :
    (removeSessionRequest index scope id).ids sc = ∅ := by
  rw [Finset.eq_empty_iff_forall_notMem]
  intro id' hid
  simpa [h] using (mem_removeSessionRequest.mp hid).1

variable {scope : SessionScope}

theorem mem_erase_ids :
    id ∈ SessionIndex.ids (index.erase scope) sc ↔ sc ≠ scope ∧ id ∈ index.ids sc := by
  simp only [SessionIndex.ids, lookup_erase_ite]
  split_ifs with hs <;> simp [hs]

/-- The index lists the ids of the table by the scope of their entry. -/
def Tracks (index : SessionIndex) (table : Table RequestId V)
    (scopeOf : V → Option SessionScope) : Prop :=
  ∀ scope id, id ∈ index.ids scope ↔ ∃ v, table.lookup id = some v ∧ scopeOf v = some scope

namespace Tracks

theorem empty (scopeOf : V → Option SessionScope) : Tracks ∅ ∅ scopeOf := by
  intro scope id
  simp [SessionIndex.ids]

section

variable (h : Tracks index table scopeOf)

include h

theorem insert (hid : table.lookup id = none) (v : V) :
    Tracks (addSessionRequest index (scopeOf v) id) (table.insert id v) scopeOf := by
  intro scope id'
  rw [mem_addSessionRequest, h scope id', lookup_insert_ite]
  by_cases he : id' = id
  · subst he
    simp [hid]
  · simp [he]

theorem erase {v} (hv : table.lookup id = some v) :
    Tracks (removeSessionRequest index (scopeOf v) id) (table.erase id) scopeOf := by
  intro scope id'
  rw [mem_removeSessionRequest, h scope id', lookup_erase_ite]
  by_cases he : id' = id
  · subst he
    simp [hv]
  · simp [he]

/-- Erasing a scope from the index and its ids from the table. -/
theorem erase_scope {table'}
    (ht : ∀ id, table'.lookup id = if id ∈ index.ids scope then none else table.lookup id) :
    Tracks (index.erase scope) table' scopeOf := by
  intro sc id
  rw [mem_erase_ids, h sc id, ht id]
  constructor
  · rintro ⟨hne, v, hv, hs⟩
    refine ⟨v, ?_, hs⟩
    rw [if_neg, hv]
    rw [h scope id]
    rintro ⟨v', hv', hs'⟩
    rw [hv] at hv'
    cases hv'
    rw [hs] at hs'
    exact hne (Option.some.inj hs')
  · rintro ⟨v, hv, hs⟩
    split_ifs at hv with hmem
    refine ⟨?_, v, hv, hs⟩
    rintro rfl
    exact hmem ((h sc id).mpr ⟨v, hv, hs⟩)

end

end Tracks

/-! ### What the operations do to the sessions -/

/-- The part of the scheduler's state that knows session scopes. -/
structure SessionView where
  queued : Table RequestId InvocationJob
  active : Table RequestId ActiveInvocation
  queuedIds : SessionIndex
  activeIds : SessionIndex
  publishingIds : SessionIndex
  revoked : Finset SessionScope

def SchedulerState.sessions (s : SchedulerState) : SessionView where
  queued := s.queuedByRequest
  active := s.active
  queuedIds := s.queuedBySession
  activeIds := s.activeBySession
  publishingIds := s.publishingBySession
  revoked := s.revokedSessions

/-- What holds between the tables and the indexes in every run. -/
structure SessionView.Indexed (v : SessionView) : Prop where
  key : ∀ id job, v.queued.lookup id = some job → job.requestId = id
  apart : ∀ id ∈ v.queued, id ∉ v.active
  queued : Tracks v.queuedIds v.queued InvocationJob.sessionScope
  active : Tracks v.activeIds v.active ActiveInvocation.sessionScope
  fenced : ∀ scope ∈ v.revoked, v.queuedIds.ids scope = ∅

theorem SessionView.Indexed.init : SessionView.Indexed (SchedulerState.sessions {}) where
  key := by simp [SchedulerState.sessions]
  apart _ h := absurd h Finmap.notMem_empty
  queued := Tracks.empty _
  active := Tracks.empty _
  fenced _ h := absurd h (Finset.notMem_empty _)

@[simp] theorem sessions_remember (s : SchedulerState) (id : RequestId) :
    (rememberRecentRequestId s id).sessions = s.sessions := by
  obtain ⟨order, ids, he⟩ := rememberRecentRequestId_eq s id
  rw [he]
  rfl

@[simp] theorem sessions_compactOrder (s : SchedulerState) :
    (compactOrder s).sessions = s.sessions := by
  obtain ⟨order, stale, he⟩ := compactOrder_eq s
  rw [he]
  rfl

@[simp] theorem sessions_compactPluginQueue (s : SchedulerState) (p : PluginInstanceId) :
    (compactPluginQueue s p).sessions = s.sessions := by
  obtain ⟨queues, he⟩ := compactPluginQueue_eq s p
  rw [he]
  rfl

@[simp] theorem sessions_dropEmptyQueues (ps : List PluginInstanceId) (s : SchedulerState) :
    (dropEmptyQueues ps s).sessions = s.sessions := by
  induction ps generalizing s with
  | nil => rfl
  | cons p ps ih =>
    unfold dropEmptyQueues
    split_ifs
    · exact ih (dropQueue s p)
    · exact ih s

def SessionView.admitJob (v : SessionView) (job : InvocationJob) : SessionView :=
  { v with
    queued := v.queued.insert job.requestId job
    queuedIds := addSessionRequest v.queuedIds job.sessionScope job.requestId }

theorem enqueue_sessions (h : enqueue limits job s = .ok (none, t)) :
    Admitted limits s job ∧ t.sessions = s.sessions.admitJob job := by
  rcases enqueue_cases h with ⟨error, -, he, -⟩ | ⟨ha, -, s', hpu, rfl⟩
  · cases he
  rcases pushRequest_cases hpu with ⟨queue, -, rfl⟩ | ⟨-, -, rfl⟩ <;> exact ⟨ha, rfl⟩

/-- A taken job: its entry in the queued table moves to the active table. -/
def SessionView.start (v : SessionView) (p : PluginInstanceId) (job : InvocationJob) :
    SessionView :=
  { v with
    queued := v.queued.erase job.requestId
    queuedIds := removeSessionRequest v.queuedIds job.sessionScope job.requestId
    active := v.active.insert job.requestId ⟨p, job.cancellation, job.sessionScope⟩
    activeIds := addSessionRequest v.activeIds job.sessionScope job.requestId }

theorem take_sessions_taken (hv : s.sessions.Indexed) (h : take limits s = .ok (.taken job, t)) :
    s.sessions.queued.lookup job.requestId = some job ∧
      ∃ p, t.sessions = s.sessions.start p job := by
  obtain ⟨step⟩ := take_taken h
  obtain ⟨skipped, -, -, hjob, -⟩ := popLive_eq_ok step.pop_eq
  have hid : job.requestId = step.requestId := hv.key _ _ hjob
  refine ⟨hid ▸ hjob, step.token.pluginInstanceId, ?_⟩
  have hs := congrArg SchedulerState.sessions step.state_eq
  rw [hs, SessionView.start, hid]
  simp only [SchedulerState.sessions, activate, hid]

theorem take_sessions_idle {outcome} (h : take limits s = .ok (outcome, t))
    (hidle : ∀ job, outcome ≠ .taken job) : t.sessions = s.sessions := by
  obtain ⟨-, stale, rfl⟩ := take_idle h hidle
  rfl

/-- A completion that begins: its entry leaves the active table and its id is
publishing. -/
def SessionView.finish (v : SessionView) (id : RequestId) (scope : Option SessionScope) :
    SessionView :=
  { v with
    active := v.active.erase id, activeIds := removeSessionRequest v.activeIds scope id
    publishingIds := addSessionRequest v.publishingIds scope id }

theorem beginCompletion_sessions {completion} (h : beginCompletion id s = .ok (completion, t))
    {invocation} (ha : s.sessions.active.lookup id = some invocation) :
    completion = ⟨id, invocation.sessionScope,
        invocation.sessionScope.any (fun scope => scope ∈ s.sessions.revoked)⟩ ∧
      t.sessions = s.sessions.finish id invocation.sessionScope := by
  obtain ⟨scope, s', hr, rfl, rfl⟩ := beginCompletion_cases h
  rcases removeActive_cases hr with ⟨hnone, -⟩ | ⟨invocation', count, hso, -, rfl, rfl⟩
  · exact absurd (ha.symm.trans hnone) (by simp)
  obtain rfl : invocation = invocation' := Option.some.inj (ha.symm.trans hso)
  rw [sessions_remember]
  exact ⟨rfl, rfl⟩

theorem revokeQueued_sessions {ids jobs} (h : revokeQueued ids s = .ok (jobs, t)) :
    t.sessions = { s.sessions with queued := t.sessions.queued } ∧
      (∀ id, t.sessions.queued.lookup id =
        if id ∈ ids then none else s.sessions.queued.lookup id) ∧
      ∀ job ∈ jobs, ∃ id ∈ ids, s.sessions.queued.lookup id = some job := by
  induction ids generalizing s jobs with
  | nil =>
    cases h
    exact ⟨rfl, by simp, by simp⟩
  | cons id ids ih =>
    rcases revokeQueued_cons_cases h with ⟨hnone, hre⟩ | ⟨job, s', jobs', hj, hone, hre, rfl⟩ <;>
      obtain ⟨heq, hlo, hjo⟩ := ih hre
    · refine ⟨heq, fun id' => ?_, fun job hjob => ?_⟩
      · rw [hlo id']
        by_cases he : id' = id
        · subst he
          have hg : s.sessions.queued.lookup id' = none := hnone
          simp [hg]
        · simp [he]
      · obtain ⟨id', hid', hl⟩ := hjo job hjob
        exact ⟨id', List.mem_cons_of_mem _ hid', hl⟩
    · obtain ⟨queue, live, queued, -, -, -, rfl⟩ := revokeOne_cases hone
      rw [sessions_remember] at heq hlo hjo
      have hq : (entombed s id job queue live queued).sessions.queued =
        s.sessions.queued.erase id := rfl
      refine ⟨heq, fun id' => ?_, fun j hjob => ?_⟩
      · rw [hlo id', hq, lookup_erase_ite]
        by_cases he : id' = id <;> simp [he]
      · rcases List.mem_cons.mp hjob with rfl | hjob
        · exact ⟨id, List.mem_cons_self, hj⟩
        · obtain ⟨id', hid', hl⟩ := hjo j hjob
          exact ⟨id', List.mem_cons_of_mem _ hid', (lookup_of_erase hl).2⟩

/-- A revoked scope: its queued jobs are gone and it stays fenced. -/
structure SessionView.Revokes (v w : SessionView) (scope : SessionScope) : Prop where
  lookup : ∀ id, w.queued.lookup id =
    if id ∈ v.queuedIds.ids scope then none else v.queued.lookup id
  eq : w = { v with
    queued := w.queued, queuedIds := v.queuedIds.erase scope, revoked := insert scope v.revoked }

/-- A revocation fires the handles of the jobs the indexes list for its scope. -/
theorem revokeSession_sessions {iteration disposition}
    (h : revokeSession iteration scope s = .ok (disposition, t)) :
    s.sessions.Revokes t.sessions scope ∧ ∀ handle ∈ disposition.canceled,
      (∃ id ∈ s.sessions.queuedIds.ids scope, ∃ job,
        s.sessions.queued.lookup id = some job ∧ job.cancellation = handle) ∨
      ∃ id, (id ∈ s.sessions.activeIds.ids scope ∨ id ∈ s.sessions.publishingIds.ids scope) ∧
        ∃ a, s.sessions.active.lookup id = some a ∧ a.cancellation = handle := by
  obtain ⟨jobs, s', hr, ht, -, hrunning, hcanceled⟩ := revokeSession_cases h
  obtain ⟨heq, hlo, hj⟩ := revokeQueued_sessions hr
  have hview : t.sessions = s'.sessions := by
    rw [ht, sessions_compactOrder, sessions_dropEmptyQueues]
  rw [hview]
  refine ⟨⟨fun id => ?_, heq⟩, fun handle hh => ?_⟩
  · rw [hlo id]
    simp only [iteration.mem_toList]
    rfl
  · have hactive : t.active = s.active := congrArg SessionView.active (hview.trans heq)
    have hids : t.activeBySession = s.activeBySession :=
      congrArg SessionView.activeIds (hview.trans heq)
    have hpub : t.publishingBySession = s.publishingBySession :=
      congrArg SessionView.publishingIds (hview.trans heq)
    rw [hcanceled, hrunning, hactive, hids, hpub, List.mem_append, List.mem_map,
      List.mem_filterMap] at hh
    rcases hh with ⟨job, hjob, rfl⟩ | ⟨id, hid, hca⟩
    · obtain ⟨id, hid, hl⟩ := hj job hjob
      exact .inl ⟨id, (iteration.mem_toList _ _).mp hid, job, hl, rfl⟩
    · obtain ⟨a, ha, rfl⟩ := Option.map_eq_some_iff.mp hca
      rw [List.mem_append, iteration.mem_toList, iteration.mem_toList] at hid
      exact .inr ⟨id, hid, a, ha, rfl⟩

/-- A queued job that is cancelled: its entry leaves the queued table. -/
def SessionView.drop (v : SessionView) (id : RequestId) (job : InvocationJob) : SessionView :=
  { v with
    queued := v.queued.erase id, queuedIds := removeSessionRequest v.queuedIds job.sessionScope id }

theorem cancel_sessions {disposition} (h : cancel id s = .ok (disposition, t)) :
    (∃ job, disposition = .queued job ∧ s.sessions.queued.lookup id = some job ∧
      t.sessions = s.sessions.drop id job) ∨
    (id ∉ s.sessions.queued ∧ t = s ∧
      ((∃ a, s.sessions.active.lookup id = some a ∧ disposition = .running a.cancellation) ∨
        id ∉ s.sessions.active ∧ (disposition = .complete ∨ disposition = .missing))) := by
  rcases cancel_cases h with ⟨job, hj, rfl, hok⟩ | ⟨hq, rfl, hd⟩
  · refine .inl ⟨job, rfl, hj, ?_⟩
    obtain ⟨queue, live, queued, -, -, -, rfl⟩ := cancelQueued_cases hok
    rw [sessions_remember, sessions_compactOrder]
    split_ifs
    · rfl
    · rw [sessions_compactPluginQueue]
      rfl
  · refine .inr ⟨lookup_eq_none.mp hq, rfl, ?_⟩
    rcases hd with ⟨a, ha, rfl⟩ | ⟨ha, -, rfl⟩ | ⟨ha, -, rfl⟩
    · exact .inl ⟨a, ha, rfl⟩
    · exact .inr ⟨lookup_eq_none.mp ha, .inl rfl⟩
    · exact .inr ⟨lookup_eq_none.mp ha, .inr rfl⟩

variable {a : ActiveInvocation}

/-- A job becomes active only by being taken from the queue. -/
theorem active_of_step (hs : Invariant s) (hstep : (system limits).step s l t)
    (ha : t.active.lookup id = some a) :
    s.active.lookup id = some a ∨
      ∃ job, s.queuedByRequest.lookup id = some job ∧
        a.pluginInstanceId = job.pluginInstanceId := by
  obtain ⟨op, out⟩ := l
  cases op with
  | enqueue =>
    obtain ⟨r, hok, rfl⟩ := map_output_eq_ok.mp hstep
    rcases enqueue_cases hok with ⟨error, -, -, rfl⟩ | ⟨-, rfl, -⟩
    · exact .inl ha
    · have hview := congrArg SessionView.active (enqueue_sessions hok).2
      exact .inl ((congrArg (lookup id) hview).symm.trans ha)
  | take =>
    obtain ⟨outcome, hok, rfl⟩ := map_output_eq_ok.mp hstep
    by_cases hta : ∃ job, outcome = .taken job
    · obtain ⟨job, rfl⟩ := hta
      obtain ⟨step⟩ := take_taken hok
      obtain ⟨skipped, hids, -, hjob, -⟩ := popLive_eq_ok step.pop_eq
      have hkey : job.requestId = step.requestId := hs.queues.key _ _ hjob
      have hpl : job.pluginInstanceId = step.token.pluginInstanceId :=
        hs.queues.unique hjob step.lookup_eq (by rw [hids]; simp)
      have hactive := congrArg SchedulerState.active step.state_eq
      rw [hactive, activate] at ha
      rcases lookup_of_insert ha with ⟨he, rfl⟩ | ha
      · exact .inr ⟨job, by rw [he, hkey]; exact hjob, hpl.symm⟩
      · exact .inl ha
    · push Not at hta
      have hview := congrArg SessionView.active (take_sessions_idle hok hta)
      exact .inl ((congrArg (lookup id) hview).symm.trans ha)
  | beginCompletion =>
    obtain ⟨completion, hok, rfl⟩ := map_output_eq_ok.mp hstep
    obtain ⟨scope, s', hr, -, rfl⟩ := beginCompletion_cases hok
    obtain ⟨order, ids, he⟩ := rememberRecentRequestId_eq { s' with
      publishingBySession := addSessionRequest s'.publishingBySession scope _ } _
    rw [he] at ha
    rcases removeActive_cases hr with ⟨-, -, rfl⟩ | ⟨invocation, count, -, -, -, rfl⟩
    · exact .inl ha
    · exact .inl (lookup_of_erase ha).2
  | endCompletion =>
    cases hstep
    exact .inl ha
  | cancel =>
    obtain ⟨disposition, hok, rfl⟩ := map_output_eq_ok.mp hstep
    rcases cancel_sessions hok with ⟨job, -, -, hview⟩ | ⟨-, rfl, -⟩
    · exact .inl ((congrArg (lookup id) (congrArg SessionView.active hview)).symm.trans ha)
    · exact .inl ha
  | revokeSession =>
    obtain ⟨disposition, hok, rfl⟩ := map_output_eq_ok.mp hstep
    have hview : t.sessions.active = s.sessions.active := by
      rw [(revokeSession_sessions hok).1.eq]
    exact .inl ((congrArg (lookup id) hview).symm.trans ha)
  | shutdown =>
    obtain ⟨jobs, hok, rfl⟩ := map_output_eq_ok.mp hstep
    obtain ⟨left, -, rfl⟩ := shutdown_cases hok
    exact .inl ha

/-- A job becomes queued only by being accepted. -/
theorem queued_of_step (hstep : (system limits).step s l t)
    (hj : t.queuedByRequest.lookup id = some job) :
    s.queuedByRequest.lookup id = some job ∨
      l = (.enqueue job, .enqueued none) ∧ id = job.requestId := by
  cases step_kind hstep with
  | rejected => exact .inl hj
  | @accepted job' _ _ hok =>
    have hview := congrArg SessionView.queued (enqueue_sessions hok).2
    have hl : (s.queuedByRequest.insert job'.requestId job').lookup id = some job :=
      (congrArg (lookup id) hview).symm.trans hj
    rcases lookup_of_insert hl with ⟨he, rfl⟩ | hl
    · exact .inr ⟨rfl, he⟩
    · exact .inl hl
  | took step => exact .inl (step.shrinks.job id job hj)
  | idle _ _ hr =>
    obtain ⟨stale, rfl⟩ := hr
    exact .inl hj
  | settled _ _ hset => exact .inl (hset.job id job hj)

/-! ### The indexes in every run -/

namespace SessionView.Indexed

variable {v w : SessionView}

variable {job : InvocationJob}

theorem admitJob (h : v.Indexed) (hq : job.requestId ∉ v.queued) (ha : job.requestId ∉ v.active)
    (hr : ∀ scope, job.sessionScope = some scope → scope ∉ v.revoked) :
    (v.admitJob job).Indexed where
  key id j hl := by
    rcases lookup_of_insert hl with ⟨he, rfl⟩ | hl
    · exact he.symm
    · exact h.key id j hl
  apart id hid := by
    rcases mem_insert.mp hid with rfl | hid
    · exact ha
    · exact h.apart id hid
  queued := h.queued.insert (lookup_eq_none.mpr hq) job
  active := h.active
  fenced scope hs := ids_addSessionRequest (h.fenced scope hs) fun hscope => hr scope hscope hs

theorem start (h : v.Indexed) (p : PluginInstanceId)
    (hj : v.queued.lookup job.requestId = some job) : (v.start p job).Indexed where
  key id j hl := h.key id j (lookup_of_erase hl).2
  apart id hid := by
    obtain ⟨hne, hid⟩ := mem_erase.mp hid
    intro hm
    rcases mem_insert.mp hm with he | hm
    · exact hne he
    · exact h.apart id hid hm
  queued := h.queued.erase hj
  active := by
    have hnot : job.requestId ∉ v.active := h.apart _ (mem_of_lookup_eq_some hj)
    exact h.active.insert (lookup_eq_none.mpr hnot) ⟨p, job.cancellation, job.sessionScope⟩
  fenced scope hs := ids_removeSessionRequest (h.fenced scope hs)

theorem drop (h : v.Indexed) (hj : v.queued.lookup id = some job) : (v.drop id job).Indexed where
  key id' j hl := h.key id' j (lookup_of_erase hl).2
  apart id' hid := h.apart id' (mem_erase.mp hid).2
  queued := h.queued.erase hj
  active := h.active
  fenced scope hs := ids_removeSessionRequest (h.fenced scope hs)

theorem finish (h : v.Indexed)
    (ha : v.active.lookup id = some a) : (v.finish id a.sessionScope).Indexed where
  key := h.key
  apart id hid hm := h.apart id hid (mem_erase.mp hm).2
  queued := h.queued
  active := h.active.erase ha
  fenced := h.fenced

theorem revoke (h : v.Indexed) (hr : v.Revokes w scope) : w.Indexed := by
  have hlo : ∀ id job, w.queued.lookup id = some job → v.queued.lookup id = some job := by
    intro id job hl
    rw [hr.lookup] at hl
    split_ifs at hl
    exact hl
  rw [hr.eq]
  constructor
  · exact fun id job hl => h.key id job (hlo id job hl)
  · intro id hid
    obtain ⟨job, hl⟩ := Finmap.mem_iff.mp hid
    exact h.apart id (mem_of_lookup_eq_some (hlo id job hl))
  · exact h.queued.erase_scope hr.lookup
  · exact h.active
  · intro sc hs
    rw [Finset.eq_empty_iff_forall_notMem]
    intro id hid
    obtain ⟨hne, hid⟩ := mem_erase_ids.mp hid
    rcases Finset.mem_insert.mp hs with he | hs
    · exact hne he
    · simp [h.fenced sc hs] at hid

end SessionView.Indexed

/-! ### Live jobs -/

/-- The job with the id is queued or active, with this scope and this flag. -/
def SessionView.Live (v : SessionView) (id : RequestId) (scope : Option SessionScope)
    (handle : CancellationId) : Prop :=
  (∃ job, v.queued.lookup id = some job ∧ job.sessionScope = scope ∧ job.cancellation = handle) ∨
    ∃ a, v.active.lookup id = some a ∧ a.sessionScope = scope ∧ a.cancellation = handle

namespace SessionView.Live

variable {v w : SessionView} {id : RequestId} {scope scope' : Option SessionScope}
  {handle handle' : CancellationId}

theorem unique (hv : v.Indexed) (h : v.Live id scope handle) (h' : v.Live id scope' handle') :
    scope = scope' := by
  rcases h with ⟨job, hl, rfl, rfl⟩ | ⟨a, hl, rfl, rfl⟩ <;>
    rcases h' with ⟨job', hl', rfl, rfl⟩ | ⟨a', hl', rfl, rfl⟩
  · cases hl.symm.trans hl'
    rfl
  · exact absurd (mem_of_lookup_eq_some hl') (hv.apart id (mem_of_lookup_eq_some hl))
  · exact absurd (mem_of_lookup_eq_some hl) (hv.apart id (mem_of_lookup_eq_some hl'))
  · cases hl.symm.trans hl'
    rfl

variable {job : InvocationJob}

theorem of_admitJob (h : (v.admitJob job).Live id scope handle) :
    (id = job.requestId ∧ scope = job.sessionScope ∧ handle = job.cancellation) ∨
      v.Live id scope handle := by
  rcases h with ⟨j, hl, rfl, rfl⟩ | h
  · rw [SessionView.admitJob] at hl
    rcases lookup_of_insert hl with ⟨he, rfl⟩ | hl
    · exact .inl ⟨he, rfl, rfl⟩
    · exact .inr (.inl ⟨j, hl, rfl, rfl⟩)
  · exact .inr (.inr h)

theorem of_start {p} (hj : v.queued.lookup job.requestId = some job)
    (h : (v.start p job).Live id scope handle) : v.Live id scope handle := by
  rcases h with ⟨j, hl, rfl, rfl⟩ | ⟨a, hl, rfl, rfl⟩
  · exact .inl ⟨j, (lookup_of_erase hl).2, rfl, rfl⟩
  · rw [SessionView.start] at hl
    rcases lookup_of_insert hl with ⟨he, rfl⟩ | hl
    · exact .inl ⟨job, he ▸ hj, rfl, rfl⟩
    · exact .inr ⟨a, hl, rfl, rfl⟩

theorem of_finish {id' sc} (h : (v.finish id' sc).Live id scope handle) :
    v.Live id scope handle := by
  rcases h with h | ⟨a, hl, rfl, rfl⟩
  · exact .inl h
  · exact .inr ⟨a, (lookup_of_erase hl).2, rfl, rfl⟩

theorem of_revoke {sc} (hr : v.Revokes w sc) (h : w.Live id scope handle) :
    v.Live id scope handle := by
  rcases h with ⟨j, hl, rfl, rfl⟩ | ⟨a, hl, rfl, rfl⟩
  · rw [hr.lookup] at hl
    split_ifs at hl
    exact .inl ⟨j, hl, rfl, rfl⟩
  · rw [hr.eq] at hl
    exact .inr ⟨a, hl, rfl, rfl⟩

end SessionView.Live

/-! ### Drained sessions -/

/-- The scope is revoked and its jobs are gone. -/
structure SessionView.Drained (v : SessionView) (scope : SessionScope) : Prop where
  revoked : scope ∈ v.revoked
  active : v.activeIds.ids scope = ∅
  publishing : v.publishingIds.ids scope = ∅

namespace SessionView.Drained

variable {v w : SessionView} {scope : SessionScope}

section

variable (h : v.Drained scope) (hv : v.Indexed)

include h hv

theorem not_live {handle} : ¬ v.Live id (some scope) handle := by
  rintro (⟨job, hl, hs, -⟩ | ⟨a, hl, hs, -⟩)
  · have hid : id ∈ v.queuedIds.ids scope := (hv.queued scope id).mpr ⟨job, hl, hs⟩
    simp [hv.fenced scope h.revoked] at hid
  · have hid : id ∈ v.activeIds.ids scope := (hv.active scope id).mpr ⟨a, hl, hs⟩
    simp [h.active] at hid

theorem start {p job} (hj : v.queued.lookup job.requestId = some job) :
    (v.start p job).Drained scope where
  revoked := h.revoked
  publishing := h.publishing
  active := ids_addSessionRequest h.active fun hs => h.not_live hv (.inl ⟨job, hj, hs, rfl⟩)

theorem finish (ha : v.active.lookup id = some a) : (v.finish id a.sessionScope).Drained scope where
  revoked := h.revoked
  active := ids_removeSessionRequest h.active
  publishing := ids_addSessionRequest h.publishing fun hs => h.not_live hv (.inr ⟨a, ha, hs, rfl⟩)

end

theorem revoke (h : v.Drained scope) {sc} (hr : v.Revokes w sc) : w.Drained scope := by
  rw [hr.eq]
  exact ⟨Finset.mem_insert_of_mem h.revoked, h.active, h.publishing⟩

end SessionView.Drained

end RedevPlugin.Scheduler
