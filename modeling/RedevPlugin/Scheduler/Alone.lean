import RedevPlugin.Scheduler.Replay
import RedevPlugin.Scheduler.Sessions

/-! A job served alone. In a scheduler with nothing waiting, a job can be
enqueued, taken and completed without a trace: only the recent window and the
generation counter move, and a revocation of a scope without jobs finds nothing. -/

namespace RedevPlugin.Scheduler

variable {limits : SchedulerLimits} {s : SchedulerState} {job : InvocationJob}

/-- The plugin has nothing in the scheduler and nothing is waiting. -/
structure Vacant (limits : SchedulerLimits) (s : SchedulerState) (p : PluginInstanceId) : Prop where
  running : s.shutdown = false
  noQueue : s.queues.lookup p = none
  noOrder : s.order = []
  noActive : s.activeByPlugin.lookup p = none
  capacity : s.queued < limits.queueCapacity
  concurrency : 0 < limits.perPluginConcurrency
  pluginCapacity : 0 < limits.perPluginCapacity
  generation : s.nextQueueGeneration < u64Max

def queuedAlone (s : SchedulerState) (job : InvocationJob) : SchedulerState :=
  { s with
    nextQueueGeneration := s.nextQueueGeneration + 1
    queues := s.queues.insert job.pluginInstanceId
      ⟨[job.requestId], 1, 0, s.nextQueueGeneration + 1⟩
    order := [⟨job.pluginInstanceId, s.nextQueueGeneration + 1⟩]
    queuedBySession := addSessionRequest s.queuedBySession job.sessionScope job.requestId
    queuedByRequest := s.queuedByRequest.insert job.requestId job
    queued := s.queued + 1 }

def takenAlone (s : SchedulerState) (job : InvocationJob) : SchedulerState :=
  { s with
    nextQueueGeneration := s.nextQueueGeneration + 1
    queuedBySession := removeSessionRequest
      (addSessionRequest s.queuedBySession job.sessionScope job.requestId)
      job.sessionScope job.requestId
    active := s.active.insert job.requestId
      ⟨job.pluginInstanceId, job.cancellation, job.sessionScope⟩
    activeBySession := addSessionRequest s.activeBySession job.sessionScope job.requestId
    activeByPlugin := s.activeByPlugin.insert job.pluginInstanceId 1 }

def begunAlone (s : SchedulerState) (job : InvocationJob) : SchedulerState :=
  { takenAlone s job with
    active := s.active, activeByPlugin := s.activeByPlugin
    activeBySession := removeSessionRequest (takenAlone s job).activeBySession job.sessionScope
      job.requestId
    publishingBySession := addSessionRequest s.publishingBySession job.sessionScope job.requestId }

namespace Vacant

section

variable (h : Vacant limits s job.pluginInstanceId)

include h

theorem activeCount : s.activeCount job.pluginInstanceId = 0 := by
  simp [SchedulerState.activeCount, h.noActive]

theorem admitted (hrec : RecentInv s) (hf : FreshId s job.requestId)
    (hs : ∀ scope, job.sessionScope = some scope → scope ∉ s.revokedSessions) :
    Admitted limits s job := by
  refine ⟨h.running, hs, h.capacity, ?_, hf.notActive, ?_, hf.notQueued⟩
  · simpa [h.activeCount, SchedulerState.liveCount, h.noQueue] using h.pluginCapacity
  · simpa [hrec.ids] using hf.notRecent

theorem enqueue (ha : Admitted limits s job) :
    enqueue limits job s = .ok (none, queuedAlone s job) := by
  rw [enqueue_admitted ha, pushRequest_none h.noQueue h.generation]
  simp only [Except.map, indexQueued, queuedAlone, h.noOrder, List.nil_append]

theorem take (hf : FreshId s job.requestId) :
    take limits (queuedAlone s job) = .ok (.taken job, takenAlone s job) := by
  have hco : ¬ limits.perPluginConcurrency ≤ 0 := Nat.not_le.mpr h.concurrency
  have hj : s.queuedByRequest.lookup job.requestId = none := Finmap.lookup_eq_none.mpr hf.notQueued
  simp only [Scheduler.take, queuedAlone, List.length_singleton, takeScan, scanToken,
    Finmap.lookup_insert, if_true, SchedulerState.activeCount, if_neg hco, takeLive, popLive,
    checkedPred_succ, activate, takenAlone, Finmap.erase_insert_self,
    Finmap.erase_of_lookup_none h.noQueue, Finmap.erase_of_lookup_none hj, h.noActive, h.noOrder,
    Option.getD_none]

theorem beginCompletion (hf : FreshId s job.requestId) :
    beginCompletion job.requestId (takenAlone s job) = .ok (⟨job.requestId, job.sessionScope,
          job.sessionScope.any (fun scope => scope ∈ s.revokedSessions)⟩,
        rememberRecentRequestId (begunAlone s job) job.requestId) := by
  have ha : s.active.lookup job.requestId = none := Finmap.lookup_eq_none.mpr hf.notActive
  simp only [Scheduler.beginCompletion, removeActive, takenAlone, Finmap.lookup_insert, checkedPred,
    if_true, Finmap.erase_insert_self, Finmap.erase_of_lookup_none ha,
    Finmap.erase_of_lookup_none h.noActive, begunAlone]

end

end Vacant

/-- Only the window and the generation counter moved. -/
def passed (s : SchedulerState) (ids : List RequestId) : SchedulerState :=
  { s with
    nextQueueGeneration := s.nextQueueGeneration + ids.length
    recentRequestOrder := window (s.recentRequestOrder ++ ids)
    recentRequestIds := (window (s.recentRequestOrder ++ ids)).toFinset }

theorem passed_passed (s : SchedulerState) (ids more : List RequestId) :
    passed (passed s ids) more = passed s (ids ++ more) := by
  simp only [passed, window_window_append, List.append_assoc, List.length_append, Nat.add_assoc]

theorem passed_nil (hrec : RecentInv s) : passed s [] = s := by
  simp [passed, window_of_length_le hrec.length_le, ← hrec.ids]

theorem endCompletion_begunAlone (hrec : RecentInv s) {id} (hid : id ∉ s.recentRequestOrder)
    (p : PluginInstanceId) (handle : CancellationId) : endCompletion ⟨id, none, false⟩
        (rememberRecentRequestId (begunAlone s ⟨id, p, none, handle⟩) id) = passed s [id] ∧
      RecentInv (passed s [id]) := by
  have hrec' : RecentInv { s with nextQueueGeneration := s.nextQueueGeneration + 1 } :=
    ⟨hrec.ids, hrec.nodup, hrec.length_le⟩
  have he := hrec'.remember_of_notMem hid
  have hk := hrec'.remember id
  rw [he] at hk
  exact ⟨he, hk⟩

theorem HashOrder.toList_empty (iteration : HashOrder) : iteration.toList ∅ = [] := by
  rw [List.eq_nil_iff_forall_not_mem]
  intro id hid
  simpa using (iteration.mem_toList ∅ id).mp hid

theorem revokeSession_of_empty (iteration : HashOrder) {scope}
    (hq : s.queuedBySession.ids scope = ∅) (ha : s.activeBySession.ids scope = ∅)
    (hp : s.publishingBySession.ids scope = ∅) :
    ∃ t, revokeSession iteration scope s = .ok (⟨[], [], []⟩, t) ∧
      t.sessions = { s.sessions with
        revoked := insert scope s.revokedSessions
        queuedIds := s.queuedBySession.erase scope } := by
  unfold revokeSession
  simp only [hq, iteration.toList_empty, revokeQueued, List.map_nil, List.toFinset_nil,
    dropEmptyQueues]
  obtain ⟨order, stale, he⟩ := compactOrder_eq { s with
    revokedSessions := insert scope s.revokedSessions
    queuedBySession := s.queuedBySession.erase scope }
  simp only [he, ha, hp, iteration.toList_empty]
  exact ⟨_, rfl, rfl⟩

end RedevPlugin.Scheduler
