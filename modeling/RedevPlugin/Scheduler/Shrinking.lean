import RedevPlugin.Scheduler.Coherence
import RedevPlugin.Scheduler.Scan

/-! What an operation other than `enqueue` can do to the queues: take ids and
jobs out. `Shrinks` says it once for all of them; `Settles` adds, for those other
than `take`, that tokens and active counts only go as well. Order, limits and
fairness are then argued from these and not from the operations. -/

namespace RedevPlugin.Scheduler

open SchedulerState (liveCount activeCount queues order)

variable {limits : SchedulerLimits} {s t u : SchedulerState}

structure PluginQueue.Shrinks (queue queue' : PluginQueue) : Prop where
  requestIds : queue'.requestIds.Sublist queue.requestIds
  generation : queue'.generation = queue.generation
  live : queue'.live ≤ queue.live

theorem PluginQueue.Shrinks.refl (queue : PluginQueue) : queue.Shrinks queue :=
  ⟨.refl _, rfl, le_rfl⟩

/-- Every queue of `t` is what is left of a queue of `s`, and every job of `t`
was queued in `s`. -/
structure Shrinks (s t : SchedulerState) : Prop where
  queue : ∀ p queue', t.queues.lookup p = some queue' →
    ∃ queue, s.queues.lookup p = some queue ∧ queue.Shrinks queue'
  job : ∀ id job, t.queuedByRequest.lookup id = some job → s.queuedByRequest.lookup id = some job

structure Settles (s t : SchedulerState) : Prop extends Shrinks s t where
  order : t.order.Sublist s.order
  active : ∀ p, t.activeCount p ≤ s.activeCount p

namespace Shrinks

variable {p : PluginInstanceId}

theorem of_insert {queue queue'} (hq : t.queues = s.queues.insert p queue')
    (hp : s.queues.lookup p = some queue) (hs : queue.Shrinks queue')
    (hj : ∀ id job, t.queuedByRequest.lookup id = some job →
      s.queuedByRequest.lookup id = some job) : Shrinks s t := by
  refine ⟨?_, hj⟩
  intro p' q hl
  rw [hq] at hl
  rcases Finmap.lookup_of_insert hl with ⟨he, rfl⟩ | hl
  · exact ⟨queue, he ▸ hp, hs⟩
  · exact ⟨q, hl, .refl q⟩

theorem of_erase (hq : t.queues = s.queues.erase p)
    (hj : ∀ id job, t.queuedByRequest.lookup id = some job →
      s.queuedByRequest.lookup id = some job) : Shrinks s t := by
  refine ⟨?_, hj⟩
  intro p' q hl
  rw [hq] at hl
  exact ⟨q, (Finmap.lookup_of_erase hl).2, .refl q⟩

theorem generation (h : Shrinks s t) {g} (hg : generations t.queues p = some g) :
    generations s.queues p = some g := by
  obtain ⟨queue', hq', rfl⟩ := Option.map_eq_some_iff.mp hg
  obtain ⟨queue, hq, hs⟩ := h.queue p queue' hq'
  rw [generations_of_lookup hq, hs.generation]

theorem liveCount_le (h : Shrinks s t) (p : PluginInstanceId) : t.liveCount p ≤ s.liveCount p := by
  cases hq' : t.queues.lookup p with
  | none => simp [liveCount, hq']
  | some =>
    obtain ⟨queue, hq, hs⟩ := h.queue p _ hq'
    simpa [liveCount, hq, hq'] using hs.live

end Shrinks

variable {job : InvocationJob}

namespace Settles

theorem of_eq (hq : t.queues = s.queues) (hj : t.queuedByRequest = s.queuedByRequest)
    (ho : t.order.Sublist s.order) (ha : ∀ p, t.activeCount p ≤ s.activeCount p) :
    Settles s t := by
  refine ⟨⟨fun p queue hl => ⟨queue, hq ▸ hl, .refl queue⟩, fun id job hl => ?_⟩, ho, ha⟩
  rwa [← hj]

theorem refl (s : SchedulerState) : Settles s s := of_eq rfl rfl (.refl _) fun _ => le_rfl

theorem trans (h : Settles s t) (h' : Settles t u) : Settles s u := by
  refine ⟨⟨?_, fun id job hl => h.job id job (h'.job id job hl)⟩, h'.order.trans h.order,
    fun p => (h'.active p).trans (h.active p)⟩
  intro p queue'' hl
  obtain ⟨queue', hl', hs'⟩ := h'.queue p queue'' hl
  obtain ⟨queue, hq, hs⟩ := h.queue p queue' hl'
  exact ⟨queue, hq, hs'.requestIds.trans hs.requestIds, hs'.generation.trans hs.generation,
    hs'.live.trans hs.live⟩

section

variable (s) (id : RequestId) (p : PluginInstanceId)

theorem remember : Settles s (rememberRecentRequestId s id) := by
  obtain ⟨order, ids, he⟩ := rememberRecentRequestId_eq s id
  rw [he]
  exact of_eq rfl rfl (.refl _) fun _ => le_rfl

theorem compactOrder : Settles s (compactOrder s) := by
  unfold Scheduler.compactOrder
  split_ifs
  · exact refl s
  · exact of_eq rfl rfl List.filter_sublist fun _ => le_rfl

theorem compactPluginQueue : Settles s (compactPluginQueue s p) := by
  unfold Scheduler.compactPluginQueue
  cases hq : s.queues.lookup p with
  | none => exact refl s
  | some queue =>
    simp only
    split_ifs
    · exact ⟨.of_insert rfl hq ⟨List.filter_sublist, rfl, le_rfl⟩ fun _ _ h => h, .refl _,
        fun _ => le_rfl⟩
    · exact refl s

theorem dropQueue : Settles s (dropQueue s p) :=
  ⟨.of_erase rfl fun _ _ h => h, .refl _, fun _ => le_rfl⟩

end

theorem entombed {queue live} (hq : s.queues.lookup job.pluginInstanceId = some queue)
    (hli : queue.live = live + 1) (requestId : RequestId) (queued : ℕ) :
    Settles s (entombed s requestId job queue live queued) :=
  ⟨.of_insert rfl hq ⟨.refl _, rfl, hli ▸ Nat.le_succ live⟩
    fun _ _ h => (Finmap.lookup_of_erase h).2, .refl _, fun _ => le_rfl⟩

variable {requestId : RequestId} {jobs : List InvocationJob}

theorem removeActive {scope} (h : removeActive s requestId = .ok (scope, t)) : Settles s t := by
  rcases removeActive_cases h with ⟨-, -, rfl⟩ | ⟨invocation, count, -, hc, -, rfl⟩
  · exact refl _
  · refine of_eq rfl rfl (.refl _) fun p => ?_
    simp only [activeCount]
    by_cases hp : p = invocation.pluginInstanceId
    · subst hp
      rw [hc]
      split_ifs <;> simp
    · split_ifs
      · rw [Finmap.lookup_erase_ne hp]
      · rw [Finmap.lookup_insert_of_ne _ hp]

theorem beginCompletion {completion} (h : beginCompletion requestId s = .ok (completion, t)) :
    Settles s t := by
  obtain ⟨scope, s', hr, -, rfl⟩ := beginCompletion_cases h
  refine (removeActive hr).trans (Settles.trans ?_ (remember _ _))
  exact of_eq rfl rfl (.refl _) fun _ => le_rfl

theorem cancelQueued (h : cancelQueued s requestId job = .ok t) : Settles s t := by
  obtain ⟨queue, live, queued, hq, hli, -, rfl⟩ := cancelQueued_cases h
  have hent : Settles s { Scheduler.entombed s requestId job queue live queued with
      queuedBySession := removeSessionRequest s.queuedBySession job.sessionScope requestId } :=
    (entombed hq hli requestId queued).trans (of_eq rfl rfl (.refl _) fun _ => le_rfl)
  refine (Settles.trans ?_ (compactOrder _)).trans (remember _ _)
  split_ifs
  · exact hent.trans (dropQueue _ _)
  · exact hent.trans (compactPluginQueue _ _)

theorem cancel {disposition} (h : cancel requestId s = .ok (disposition, t)) : Settles s t := by
  rcases cancel_cases h with ⟨job, -, -, h⟩ | ⟨-, rfl, -⟩
  · exact cancelQueued h
  · exact refl _

theorem revokeQueued {ids s} (h : revokeQueued ids s = .ok (jobs, t)) : Settles s t := by
  induction ids generalizing s jobs with
  | nil =>
    cases h
    exact refl _
  | cons _ ids ih =>
    rcases revokeQueued_cons_cases h with ⟨-, h⟩ | ⟨job, s', jobs', -, hone, hre, -⟩
    · exact ih h
    · obtain ⟨queue, live, queued, hq, hli, -, rfl⟩ := revokeOne_cases hone
      exact ((entombed hq hli _ queued).trans (remember _ _)).trans (ih hre)

theorem dropEmptyQueues (ps : List PluginInstanceId) (s : SchedulerState) :
    Settles s (dropEmptyQueues ps s) := by
  induction ps generalizing s with
  | nil => exact refl s
  | cons p ps ih =>
    unfold Scheduler.dropEmptyQueues
    split_ifs
    · exact (dropQueue s p).trans (ih _)
    · exact ih s

theorem revokeSession {iteration scope disposition}
    (h : revokeSession iteration scope s = .ok (disposition, t)) : Settles s t := by
  obtain ⟨jobs, s', hr, rfl, -⟩ := revokeSession_cases h
  have hsta : Settles s { s with
      revokedSessions := insert scope s.revokedSessions
      queuedBySession := s.queuedBySession.erase scope } :=
    of_eq rfl rfl (.refl _) fun _ => le_rfl
  exact ((hsta.trans (revokeQueued hr)).trans (dropEmptyQueues _ _)).trans (compactOrder _)

theorem shutdown (h : shutdown s = .ok (jobs, t)) : Settles s t := by
  obtain ⟨left, hz, rfl⟩ := shutdown_cases h
  refine ⟨⟨fun p queue hl => by simp at hl, fun id job hl => ?_⟩, List.nil_sublist _,
    fun _ => le_rfl⟩
  simp [Finmap.eq_empty_of_size hz] at hl

end Settles

/-- A `take` that hands out no job only moves tokens. -/
theorem take_idle {outcome} (h : take limits s = .ok (outcome, t))
    (hidle : ∀ job, outcome ≠ .taken job) :
    (∀ x ∈ s.order, Passed limits s x) ∧ Reordered s t (s.order.filter s.validToken) := by
  simpa using takeScan_idle (List.append_nil _).symm h hidle

/-- What a `take` that hands out `job` did: it served the first token it could,
popped the first live id of that queue and put the token, if its queue is still
there, at the back. -/
structure TakeStep (limits : SchedulerLimits) (s t : SchedulerState) (job : InvocationJob) where
  passed : List QueueToken
  token : QueueToken
  rest : List QueueToken
  queue : PluginQueue
  requestId : RequestId
  ids : List RequestId
  (left live queued stale : ℕ)
  order_eq : s.order = passed ++ token :: rest
  passed_of_mem : ∀ x ∈ passed, Passed limits s x
  lookup_eq : s.queues.lookup token.pluginInstanceId = some queue
  generation_eq : queue.generation = token.generation
  below : s.activeCount token.pluginInstanceId < limits.perPluginConcurrency
  pop_eq : popLive s.queuedByRequest queue.requestIds queue.tombstones =
    .ok (requestId, job, ids, left)
  live_eq : queue.live = live + 1
  queued_eq : s.queued = queued + 1
  state_eq : t = activate
    { s with order := rest ++ passed.filter s.validToken, staleOrderTokens := stale }
    token.pluginInstanceId { queue with requestIds := ids, live, tombstones := left }
    requestId job queued

theorem take_taken (h : take limits s = .ok (.taken job, t)) :
    Nonempty (TakeStep limits s t job) := by
  obtain ⟨passed, token, rest, queue, ho, hp, hq, hg, hlim, u, ⟨stale, rfl⟩, ht⟩ :=
    takeScan_taken (List.append_nil _).symm h
  obtain ⟨requestId, ids, left, live, queued, hpop, hli, hqu, rfl⟩ := takeLive_cases ht
  rw [List.append_nil] at *
  exact ⟨⟨passed, token, rest, queue, requestId, ids, left, live, queued, stale, ho, hp, hq, hg,
    hlim, hpop, hli, hqu, rfl⟩⟩

namespace TakeStep

variable {job : InvocationJob}

section

variable (h : TakeStep limits s t job)

include h

theorem queues_eq :
    t.queues = if h.live = 0 then s.queues.erase h.token.pluginInstanceId
      else s.queues.insert h.token.pluginInstanceId
        { h.queue with requestIds := h.ids, live := h.live, tombstones := h.left } :=
  congrArg queues h.state_eq

theorem jobs_eq : t.queuedByRequest = s.queuedByRequest.erase h.requestId :=
  congrArg SchedulerState.queuedByRequest h.state_eq

theorem order_after :
    t.order = if h.live = 0 then h.rest ++ h.passed.filter s.validToken
      else h.rest ++ h.passed.filter s.validToken ++ [h.token] := by
  have ho := congrArg order h.state_eq
  simp only [activate, h.generation_eq] at ho
  exact ho

theorem shrinks : Shrinks s t := by
  have hjob : ∀ id j, t.queuedByRequest.lookup id = some j →
      s.queuedByRequest.lookup id = some j := by
    intro id j hl
    rw [h.jobs_eq] at hl
    exact (Finmap.lookup_of_erase hl).2
  have hq := h.queues_eq
  split_ifs at hq with hz
  · exact .of_erase hq hjob
  · refine .of_insert hq h.lookup_eq ⟨?_, rfl, h.live_eq ▸ Nat.le_succ h.live⟩ hjob
    obtain ⟨skipped, hids, -⟩ := popLive_eq_ok h.pop_eq
    rw [hids]
    exact (List.sublist_cons_self _ _).trans (List.sublist_append_right _ _)

/-- The plugin of the token gains an active invocation and loses a live one. -/
theorem activeCount_eq (p : PluginInstanceId) :
    t.activeCount p = s.activeCount p + if p = h.token.pluginInstanceId then 1 else 0 := by
  have ha := congrArg SchedulerState.activeByPlugin h.state_eq
  rw [activeCount, ha, activate, Finmap.lookup_insert_ite]
  split_ifs with hp
  · rw [hp]
    rfl
  · rfl

theorem liveCount_eq (p : PluginInstanceId) :
    s.liveCount p = t.liveCount p + if p = h.token.pluginInstanceId then 1 else 0 := by
  simp only [liveCount, h.queues_eq]
  by_cases hp : p = h.token.pluginInstanceId
  · rw [hp, h.lookup_eq, if_pos rfl]
    split_ifs with hz
    · simp [Finmap.lookup_erase, h.live_eq, hz]
    · simp [Finmap.lookup_insert, h.live_eq]
  · rw [if_neg hp]
    split_ifs
    · rw [Finmap.lookup_erase_ne hp, Nat.add_zero]
    · rw [Finmap.lookup_insert_of_ne _ hp, Nat.add_zero]

end

end TakeStep

inductive StepKind (limits : SchedulerLimits) (s : SchedulerState) :
    Op × Output → SchedulerState → Prop
  | rejected (job error) : StepKind limits s (.enqueue job, .enqueued (some error)) s
  | accepted {job : InvocationJob} {t : SchedulerState} (admitted : Admitted limits s job)
    (enqueued : enqueue limits job s = .ok (none, t)) :
    StepKind limits s (.enqueue job, .enqueued none) t
  | took {job : InvocationJob} {t : SchedulerState} (step : TakeStep limits s t job) :
    StepKind limits s (.take, .took (.taken job)) t
  | idle {outcome t} (none : ∀ job, outcome ≠ .taken job)
    (passed : ∀ x ∈ s.order, Passed limits s x)
    (reordered : Reordered s t (s.order.filter s.validToken)) :
    StepKind limits s (.take, .took outcome) t
  | settled {op out t} (accepted : accepted (op, out) = []) (took : ∀ outcome, out ≠ .took outcome)
    (settles : Settles s t) : StepKind limits s (op, out) t

theorem step_kind {l : Op × Output} (h : (system limits).step s l t) : StepKind limits s l t := by
  obtain ⟨op, out⟩ := l
  cases op with
  | enqueue =>
    obtain ⟨r, hok, rfl⟩ := map_output_eq_ok.mp h
    rcases enqueue_cases hok with ⟨error, -, rfl, rfl⟩ | ⟨ha, rfl, -⟩
    · exact .rejected _ error
    · exact .accepted ha hok
  | take =>
    obtain ⟨outcome, hok, rfl⟩ := map_output_eq_ok.mp h
    by_cases ht : ∃ job, outcome = .taken job
    · obtain ⟨job, rfl⟩ := ht
      obtain ⟨step⟩ := take_taken hok
      exact .took step
    · push Not at ht
      obtain ⟨hp, hr⟩ := take_idle hok ht
      exact .idle ht hp hr
  | beginCompletion =>
    obtain ⟨completion, hok, rfl⟩ := map_output_eq_ok.mp h
    exact .settled rfl (by simp) (.beginCompletion hok)
  | endCompletion =>
    cases h
    exact .settled rfl (by simp) (.of_eq rfl rfl (.refl _) fun _ => le_rfl)
  | cancel =>
    obtain ⟨disposition, hok, rfl⟩ := map_output_eq_ok.mp h
    exact .settled rfl (by simp) (.cancel hok)
  | revokeSession =>
    obtain ⟨disposition, hok, rfl⟩ := map_output_eq_ok.mp h
    exact .settled rfl (by simp) (.revokeSession hok)
  | shutdown =>
    obtain ⟨jobs, hok, rfl⟩ := map_output_eq_ok.mp h
    exact .settled rfl (by simp) (.shutdown hok)

end RedevPlugin.Scheduler
