import RedevPlugin.Scheduler.Operations

/-! What each operation can do, said once: for every operation that returns, the
branch it took, the checks that let it take the branch and the state it left.
Later proofs split an operation with these lemmas and do not unfold it. -/

namespace RedevPlugin.Scheduler

variable {limits : SchedulerLimits} {s t : SchedulerState}

variable {n : ℕ} {job : InvocationJob} {queue : PluginQueue} {p : PluginInstanceId}
  {requestId : RequestId} {r : Option InvocationJob} {jobs : List InvocationJob}

/-! ### Enqueue -/

structure Admitted (limits : SchedulerLimits) (s : SchedulerState) (job : InvocationJob) :
    Prop where
  running : s.shutdown = false
  notRevoked : ∀ scope, job.sessionScope = some scope → scope ∉ s.revokedSessions
  capacity : s.queued < limits.queueCapacity
  pluginCapacity : s.activeCount job.pluginInstanceId + s.liveCount job.pluginInstanceId <
    limits.perPluginCapacity
  notActive : job.requestId ∉ s.active
  notRecent : job.requestId ∉ s.recentRequestIds
  notQueued : job.requestId ∉ s.queuedByRequest

theorem checkedPred_succ (n : ℕ) (message : Panic) : checkedPred (n + 1) message = .ok n := rfl

theorem checkedPred_ok {m message} (h : checkedPred m message = .ok n) : m = n + 1 := by
  cases m with
  | zero => cases h
  | succ m => rw [Except.ok.inj h]

theorem enqueueError_eq_none : enqueueError limits s job = none ↔ Admitted limits s job := by
  unfold enqueueError
  constructor
  · intro h
    split_ifs at h with h1 h2 h3 h4 h5
    push Not at h5
    refine ⟨by simpa using h1, ?_, by omega, by omega, h5.1, h5.2.1, h5.2.2⟩
    intro scope hs hm
    exact h2 (by simp [hs, hm])
  · rintro ⟨h1, h2, h3, h4, h5, h6, h7⟩
    have hscope : ¬ (job.sessionScope.any (fun scope => scope ∈ s.revokedSessions)) = true := by
      cases hs : job.sessionScope with
      | none => simp
      | some => simpa using h2 _ hs
    rw [if_neg (by simp [h1]), if_neg hscope, if_neg (by omega), if_neg (by omega),
      if_neg (by simp [h5, h6, h7])]

theorem enqueue_cases {r} (h : enqueue limits job s = .ok (r, t)) :
    (∃ error, enqueueError limits s job = some error ∧ r = some error ∧ t = s) ∨
      (Admitted limits s job ∧ r = none ∧ ∃ s',
        pushRequest s job.pluginInstanceId job.requestId = .ok s' ∧ t = indexQueued s' job) := by
  revert h
  fun_cases enqueue limits job s <;> rintro ⟨⟩
  · exact .inl ⟨_, ‹_›, rfl, rfl⟩
  · exact .inr ⟨enqueueError_eq_none.mp ‹_›, rfl, _, ‹_›, rfl⟩

theorem enqueue_rejected (ha : ¬ Admitted limits s job) :
    ∃ error, enqueue limits job s = .ok (some error, s) := by
  cases he : enqueueError limits s job with
  | none => exact absurd (enqueueError_eq_none.mp he) ha
  | some error => exact ⟨error, by simp [enqueue, he]⟩

theorem enqueue_admitted (ha : Admitted limits s job) :
    enqueue limits job s = (pushRequest s job.pluginInstanceId job.requestId).map
      (fun s' => (none, indexQueued s' job)) := by
  simp only [enqueue, enqueueError_eq_none.mpr ha]
  cases pushRequest s job.pluginInstanceId job.requestId <;> rfl

theorem pushRequest_some (hq : s.queues.lookup p = some queue) (requestId : RequestId) :
    pushRequest s p requestId = .ok { s with
      queues := s.queues.insert p
        { queue with requestIds := queue.requestIds ++ [requestId], live := queue.live + 1 } } := by
  simp only [pushRequest, hq]

theorem pushRequest_none (hq : s.queues.lookup p = none) (hg : s.nextQueueGeneration < u64Max)
    (requestId : RequestId) :
    pushRequest s p requestId = .ok { s with
      nextQueueGeneration := s.nextQueueGeneration + 1
      queues := s.queues.insert p ⟨[requestId], 1, 0, s.nextQueueGeneration + 1⟩
      order := s.order ++ [⟨p, s.nextQueueGeneration + 1⟩] } := by
  simp only [pushRequest, hq, if_pos hg]

theorem pushRequest_cases (h : pushRequest s p requestId = .ok t) :
    (∃ queue, s.queues.lookup p = some queue ∧ t = { s with
      queues := s.queues.insert p
        { queue with requestIds := queue.requestIds ++ [requestId], live := queue.live + 1 } }) ∨
      (s.queues.lookup p = none ∧ s.nextQueueGeneration < u64Max ∧ t = { s with
        nextQueueGeneration := s.nextQueueGeneration + 1
        queues := s.queues.insert p ⟨[requestId], 1, 0, s.nextQueueGeneration + 1⟩
        order := s.order ++ [⟨p, s.nextQueueGeneration + 1⟩] }) := by
  revert h
  fun_cases pushRequest s p requestId <;> rintro ⟨⟩
  · exact .inl ⟨_, ‹_›, rfl⟩
  · exact .inr ⟨‹_›, ‹_›, rfl⟩

/-! ### Take -/

theorem takeLive_cases (h : takeLive s p queue = .ok (job, t)) :
    ∃ requestId rest left live queued, popLive s.queuedByRequest queue.requestIds queue.tombstones =
        .ok (requestId, job, rest, left) ∧
      queue.live = live + 1 ∧ s.queued = queued + 1 ∧
      t = activate s p { queue with requestIds := rest, live, tombstones := left }
        requestId job queued := by
  revert h
  fun_cases takeLive s p queue <;> rintro ⟨⟩
  exact ⟨_, _, _, _, _, ‹_›, checkedPred_ok ‹_›, checkedPred_ok ‹_›, rfl⟩

theorem dropStale_cases (h : dropStale s = .ok (r, t)) :
    r = none ∧ ∃ stale, s.staleOrderTokens = stale + 1 ∧
      t = { s with staleOrderTokens := stale } := by
  unfold dropStale at h
  split at h <;> cases h
  exact ⟨rfl, _, checkedPred_ok ‹_›, rfl⟩

/-- One scanned token is stale and dropped, is put back because its plugin runs
at its limit, or yields a job. -/
theorem scanToken_cases {token} (h : scanToken limits s token = .ok (r, t)) :
    (s.validToken token = false ∧ r = none ∧ ∃ stale, s.staleOrderTokens = stale + 1 ∧
      t = { s with staleOrderTokens := stale }) ∨
    (∃ queue, s.queues.lookup token.pluginInstanceId = some queue ∧
      queue.generation = token.generation ∧
      limits.perPluginConcurrency ≤ s.activeCount token.pluginInstanceId ∧ r = none ∧
      t = { s with order := s.order ++ [token] }) ∨
    (∃ queue job, s.queues.lookup token.pluginInstanceId = some queue ∧
      queue.generation = token.generation ∧
      s.activeCount token.pluginInstanceId < limits.perPluginConcurrency ∧ r = some job ∧
      takeLive s token.pluginInstanceId queue = .ok (job, t)) := by
  revert h
  fun_cases scanToken limits s token <;> try rintro ⟨⟩
  · exact fun h => .inl ⟨by simp_all [SchedulerState.validToken], dropStale_cases h⟩
  · exact .inr (.inl ⟨_, ‹_›, ‹_›, ‹_›, rfl, rfl⟩)
  · exact .inr (.inr ⟨_, _, ‹_›, ‹_›, not_le.mp ‹_›, rfl, ‹_›⟩)
  · exact fun h => .inl ⟨by simp_all [SchedulerState.validToken], dropStale_cases h⟩

theorem takeScan_succ_cases {outcome} (h : takeScan limits (n + 1) s = .ok (outcome, t)) :
    (s.order = [] ∧ outcome = .closed ∧ t = s) ∨
    ∃ token rest, s.order = token :: rest ∧
      ((∃ job, scanToken limits { s with order := rest } token = .ok (some job, t) ∧
        outcome = .taken job) ∨
      ∃ s', scanToken limits { s with order := rest } token = .ok (none, s') ∧
        takeScan limits n s' = .ok (outcome, t)) := by
  rw [takeScan] at h
  split at h
  · cases h
    exact .inl ⟨‹_›, rfl, rfl⟩
  · refine .inr ⟨_, _, ‹_›, ?_⟩
    split at h
    · cases h
    · cases h
      exact .inl ⟨_, ‹_›, rfl⟩
    · exact .inr ⟨_, ‹_›, h⟩

/-! ### Completion -/

theorem removeActive_cases {scope} (h : removeActive s requestId = .ok (scope, t)) :
    (s.active.lookup requestId = none ∧ scope = none ∧ t = s) ∨
    ∃ invocation count, s.active.lookup requestId = some invocation ∧
      s.activeByPlugin.lookup invocation.pluginInstanceId = some (count + 1) ∧
      scope = invocation.sessionScope ∧ t = { s with
        active := s.active.erase requestId
        activeBySession := removeSessionRequest s.activeBySession invocation.sessionScope requestId
        activeByPlugin :=
          if count = 0 then s.activeByPlugin.erase invocation.pluginInstanceId
          else s.activeByPlugin.insert invocation.pluginInstanceId count } := by
  revert h
  fun_cases removeActive s requestId <;> rintro ⟨⟩
  · exact .inl ⟨‹_›, rfl, rfl⟩
  · rename_i hc _ _
    exact .inr ⟨_, _, ‹_›, checkedPred_ok ‹_› ▸ hc, rfl, rfl⟩

theorem beginCompletion_cases {completion} (h : beginCompletion requestId s = .ok (completion, t)) :
    ∃ scope s', removeActive s requestId = .ok (scope, s') ∧
      completion = ⟨requestId, scope, scope.any (fun scope => scope ∈ s'.revokedSessions)⟩ ∧
      t = rememberRecentRequestId { s' with
          publishingBySession := addSessionRequest s'.publishingBySession scope requestId }
        requestId := by
  unfold beginCompletion at h
  split at h <;> cases h
  exact ⟨_, _, ‹_›, rfl, rfl⟩

/-! ### Cancel and revoke -/

theorem entomb_cases {queue'} (h : entomb queue = .ok queue') : ∃ live, queue.live = live + 1 ∧
      queue' = { queue with live, tombstones := queue.tombstones + 1 } := by
  unfold entomb at h
  split at h <;> cases h
  exact ⟨_, checkedPred_ok ‹_›, rfl⟩

/-- The state after a queued job of `queue` was removed, before any clean-up. -/
def entombed (s : SchedulerState) (requestId : RequestId) (job : InvocationJob)
    (queue : PluginQueue) (live queued : ℕ) : SchedulerState :=
  { s with
    queuedByRequest := s.queuedByRequest.erase requestId
    queues := s.queues.insert job.pluginInstanceId
      { queue with live, tombstones := queue.tombstones + 1 }
    queued }

theorem match_entomb_cases {p : PluginInstanceId} {missing : Panic}
    {after : PluginQueue → ℕ → SchedulerState}
    (h : (match s.queues.lookup p with
      | none => .error missing
      | some queue => match entomb queue, checkedPred s.queued subtractOverflow with
        | .ok queue, .ok queued => .ok (after queue queued)
        | _, _ => .error subtractOverflow) = Except.ok t) :
    ∃ queue live queued, s.queues.lookup p = some queue ∧ queue.live = live + 1 ∧
      s.queued = queued + 1 ∧
      t = after { queue with live, tombstones := queue.tombstones + 1 } queued := by
  split at h
  · cases h
  split at h
  · rename_i he hn
    cases h
    obtain ⟨live, hl, rfl⟩ := entomb_cases he
    exact ⟨_, live, _, ‹_›, hl, checkedPred_ok hn, rfl⟩
  · cases h

theorem cancelQueued_cases (h : cancelQueued s requestId job = .ok t) :
    ∃ queue live queued, s.queues.lookup job.pluginInstanceId = some queue ∧
      queue.live = live + 1 ∧ s.queued = queued + 1 ∧
      t = rememberRecentRequestId (compactOrder (if live = 0 then
          dropQueue { entombed s requestId job queue live queued with
            queuedBySession := removeSessionRequest s.queuedBySession job.sessionScope requestId }
            job.pluginInstanceId
        else compactPluginQueue { entombed s requestId job queue live queued with
            queuedBySession := removeSessionRequest s.queuedBySession job.sessionScope requestId }
            job.pluginInstanceId)) job.requestId :=
  match_entomb_cases h

theorem cancel_cases {disposition} (h : cancel requestId s = .ok (disposition, t)) :
    (∃ job, s.queuedByRequest.lookup requestId = some job ∧ disposition = .queued job ∧
      cancelQueued s requestId job = .ok t) ∨
    (s.queuedByRequest.lookup requestId = none ∧ t = s ∧
      ((∃ invocation, s.active.lookup requestId = some invocation ∧
        disposition = .running invocation.cancellation) ∨
      (s.active.lookup requestId = none ∧ requestId ∈ s.recentRequestIds ∧
        disposition = .complete) ∨
      (s.active.lookup requestId = none ∧ requestId ∉ s.recentRequestIds ∧
        disposition = .missing))) := by
  revert h
  fun_cases cancel requestId s <;> rintro ⟨⟩
  · exact .inl ⟨_, ‹_›, rfl, ‹_›⟩
  · exact .inr ⟨‹_›, rfl, .inl ⟨_, ‹_›, rfl⟩⟩
  · exact .inr ⟨‹_›, rfl, .inr (.inl ⟨‹_›, ‹_›, rfl⟩)⟩
  · exact .inr ⟨‹_›, rfl, .inr (.inr ⟨‹_›, ‹_›, rfl⟩)⟩

theorem revokeOne_cases (h : revokeOne s requestId job = .ok t) :
    ∃ queue live queued, s.queues.lookup job.pluginInstanceId = some queue ∧
      queue.live = live + 1 ∧ s.queued = queued + 1 ∧
      t = rememberRecentRequestId (entombed s requestId job queue live queued) requestId :=
  match_entomb_cases h

theorem revokeQueued_cons_cases {rest} (h : revokeQueued (requestId :: rest) s = .ok (jobs, t)) :
    (s.queuedByRequest.lookup requestId = none ∧ revokeQueued rest s = .ok (jobs, t)) ∨
    ∃ job s' jobs', s.queuedByRequest.lookup requestId = some job ∧
      revokeOne s requestId job = .ok s' ∧ revokeQueued rest s' = .ok (jobs', t) ∧
      jobs = job :: jobs' := by
  rw [revokeQueued] at h
  split at h
  · exact .inl ⟨‹_›, h⟩
  · rename_i hj
    split at h
    · cases h
    rename_i hr
    split at h <;> cases h
    exact .inr ⟨_, _, _, hj, hr, ‹_›, rfl⟩

theorem revokeSession_cases {iteration scope disposition}
    (h : revokeSession iteration scope s = .ok (disposition, t)) :
    ∃ jobs s', revokeQueued (iteration.toList (s.queuedBySession.ids scope)) { s with
          revokedSessions := insert scope s.revokedSessions
          queuedBySession := s.queuedBySession.erase scope } = .ok (jobs, s') ∧
      t = compactOrder (dropEmptyQueues
        (iteration.toList (jobs.map InvocationJob.pluginInstanceId).toFinset) s') ∧
      disposition.queued = jobs ∧
      disposition.runningRequestIds = iteration.toList (t.activeBySession.ids scope) ++
        iteration.toList (t.publishingBySession.ids scope) ∧
      disposition.canceled = jobs.map InvocationJob.cancellation ++
        disposition.runningRequestIds.filterMap
          (fun id => (t.active.lookup id).map ActiveInvocation.cancellation) := by
  unfold revokeSession at h
  split at h <;> cases h
  exact ⟨_, _, ‹_›, rfl, rfl, rfl, rfl⟩

theorem shutdown_cases (h : shutdown s = .ok (jobs, t)) :
    ∃ left, left.size = 0 ∧ t = { s with
        shutdown := true, queues := ∅, queuedByRequest := left, order := [], queuedBySession := ∅
        activeBySession := ∅, publishingBySession := ∅, staleOrderTokens := 0, queued := 0 } := by
  simp only [shutdown] at h
  split_ifs at h with hz
  cases h
  exact ⟨_, hz, rfl⟩

/-! ### Perform -/

/-- What `perform` does with the result of an operation. -/
theorem map_output_eq_ok {α : Type} {x : Except Panic (α × SchedulerState)} {f : α → Output}
    {out : Output} :
    x.map (fun r => (f r.1, r.2)) = .ok (out, t) ↔ ∃ a, x = .ok (a, t) ∧ out = f a := by
  rcases x with message | ⟨a, s'⟩
  · simp [Except.map]
  · simp only [Except.map, Except.ok.injEq, Prod.mk.injEq]
    constructor
    · rintro ⟨rfl, rfl⟩
      exact ⟨a, ⟨rfl, rfl⟩, rfl⟩
    · rintro ⟨b, ⟨rfl, rfl⟩, rfl⟩
      exact ⟨rfl, rfl⟩

end RedevPlugin.Scheduler
