import RedevPlugin.Runtime.Steps

/-! Who holds a request id. A worker's job is in the scheduler's active table
until its completion begins, and its id is in the index of publishing requests
until the completion ends; each live job has a flag of its own; an I/O route has
the scope of the live job with its parent's id. The last three hold as long as an
id is admitted again only after its earlier holders let go of it. -/

namespace RedevPlugin.Runtime

open Scheduler
open Function (update update_self update_of_ne)
open SchedulerState (sessions)
open Finmap (mem_insert mem_of_lookup_eq_some mem_erase)

variable {n : ℕ} {v w : SessionView} {workers : Fin n → Worker}

def Worker.requestId : Worker → Option RequestId
  | .idle => none
  | .running job => some job.requestId
  | .publishing completion _ => some completion.requestId

/-- No completion in flight has the id. -/
def NotPublishing (workers : Fin n → Worker) (id : RequestId) : Prop :=
  ∀ i completion sent, workers i = .publishing completion sent → completion.requestId ≠ id

section Update

variable {i k : Fin n} {x y : Worker}

theorem update_cases (hk : update workers i y k = x) : k = i ∧ y = x ∨ k ≠ i ∧ workers k = x := by
  by_cases hki : k = i
  · subst hki
    exact .inl ⟨rfl, (update_self ..).symm.trans hk⟩
  · exact .inr ⟨hki, (update_of_ne hki ..).symm.trans hk⟩

/-- A worker in another state than the one that was set is not the one that it was set for. -/
theorem worker_of_update (hk : update workers i y k = x) (hne : y ≠ x) : k ≠ i ∧ workers k = x :=
  (update_cases hk).resolve_left fun h => hne h.2

theorem update_worker (hk : workers k = x) (hne : workers i ≠ x) (y : Worker) :
    update workers i y k = x := by
  rw [update_of_ne (by rintro rfl; exact hne hk), hk]

end Update

structure WorkerInv (v : SessionView) (workers : Fin n → Worker) : Prop where
  running : ∀ i job, workers i = .running job →
    ∃ a, v.active.lookup job.requestId = some a ∧ a.sessionScope = job.sessionScope ∧
      a.cancellation = job.cancellation
  active : ∀ id ∈ v.active, ∃ i job, workers i = .running job ∧ job.requestId = id
  publishing : ∀ i completion sent, workers i = .publishing completion sent →
    completion.requestId ∉ v.queued ∧ completion.requestId ∉ v.active ∧
      ∀ scope, completion.sessionScope = some scope →
        completion.requestId ∈ v.publishingIds.ids scope
  once : ∀ i j id, (workers i).requestId = some id → (workers j).requestId = some id → i = j
  published : ∀ scope id, id ∈ v.publishingIds.ids scope → ∃ i completion sent,
    workers i = .publishing completion sent ∧ completion.requestId = id ∧
      completion.sessionScope = some scope

namespace WorkerInv

theorem init : WorkerInv (sessions {}) (fun _ : Fin n => Worker.idle) where
  running := by simp
  active _ h := absurd h Finmap.notMem_empty
  publishing := by simp
  once := by simp [Worker.requestId]
  published := by simp [sessions, SessionIndex.ids]

variable {job : InvocationJob} {i : Fin n} {completion : InvocationCompletion}

section

variable (h : WorkerInv v workers)

include h

theorem admitJob (hp : NotPublishing workers job.requestId) :
    WorkerInv (v.admitJob job) workers where
  running := h.running
  active := h.active
  publishing i completion sent hi := by
    obtain ⟨hq, ha, hs⟩ := h.publishing i completion sent hi
    refine ⟨fun hm => ?_, ha, hs⟩
    rcases mem_insert.mp hm with he | hm
    · exact hp i completion sent hi he
    · exact hq hm
  once := h.once
  published := h.published

theorem not_queued (hv : v.Indexed) {id} (hi : (workers i).requestId = some id) :
    id ∉ v.queued := by
  cases hw : workers i with
  | idle => simp [hw, Worker.requestId] at hi
  | running =>
    rw [hw] at hi
    cases hi
    obtain ⟨a, ha, -⟩ := h.running i _ hw
    exact fun hq => hv.apart _ hq (mem_of_lookup_eq_some ha)
  | publishing =>
    rw [hw] at hi
    cases hi
    exact (h.publishing i _ _ hw).1

theorem once_update {y}
    (hy : ∀ k id, y.requestId = some id → (workers k).requestId = some id → k = i) (k l : Fin n)
    (id : RequestId) (hk : (update workers i y k).requestId = some id)
    (hl : (update workers i y l).requestId = some id) : k = l := by
  rcases update_cases (x := update workers i y k) rfl with ⟨hki, hyk⟩ | ⟨-, hwk⟩ <;>
    rcases update_cases (x := update workers i y l) rfl with ⟨hli, hyl⟩ | ⟨-, hwl⟩
  · exact hki.trans hli.symm
  · exact hki.trans (hy l id (hyk ▸ hk) (hwl ▸ hl)).symm
  · exact (hy k id (hyl ▸ hl) (hwk ▸ hk)).trans hli.symm
  · exact h.once k l id (hwk ▸ hk) (hwl ▸ hl)

theorem start (hv : v.Indexed) {p} (hi : workers i = .idle)
    (hj : v.queued.lookup job.requestId = some job) :
    WorkerInv (v.start p job) (update workers i (.running job)) where
  running k job' hk := by
    rw [SessionView.start, Finmap.lookup_insert_ite]
    rcases update_cases hk with ⟨rfl, ⟨⟩⟩ | ⟨-, hk⟩
    · simp
    · have hne : job'.requestId ≠ job.requestId := fun he =>
        h.not_queued hv (i := k) (by rw [hk]; rfl) (he ▸ mem_of_lookup_eq_some hj)
      rw [if_neg hne]
      exact h.running k job' hk
  active id hid := by
    rcases mem_insert.mp hid with rfl | hid
    · exact ⟨i, job, update_self .., rfl⟩
    · obtain ⟨k, job', hk, hid'⟩ := h.active id hid
      exact ⟨k, job', update_worker hk (by simp [hi]) _, hid'⟩
  publishing k completion sent hk := by
    obtain ⟨hq, ha, hs⟩ := h.publishing k completion sent (worker_of_update hk (by simp)).2
    refine ⟨fun hm => hq (mem_erase.mp hm).2, fun hm => ?_, hs⟩
    rcases mem_insert.mp hm with he | hm
    · exact hq (he ▸ mem_of_lookup_eq_some hj)
    · exact ha hm
  once := h.once_update fun k id hid hk => by
    cases hid
    exact absurd (mem_of_lookup_eq_some hj) (h.not_queued hv hk)
  published scope id hid := by
    obtain ⟨k, completion, sent, hk, hre⟩ := h.published scope id hid
    exact ⟨k, completion, sent, update_worker hk (by simp [hi]) _, hre⟩

theorem finish (hv : v.Indexed) {a} (hi : workers i = .running job)
    (ha : v.active.lookup job.requestId = some a) (hid : completion.requestId = job.requestId)
    (hs : completion.sessionScope = a.sessionScope) :
    WorkerInv (v.finish job.requestId a.sessionScope)
      (update workers i (.publishing completion false)) where
  running k job' hk := by
    obtain ⟨hki, hk⟩ := worker_of_update hk (by simp)
    have hne : job'.requestId ≠ job.requestId := fun he =>
      hki (h.once k i _ (by rw [hk]; rfl) (by rw [hi, he]; rfl))
    obtain ⟨a', ha', hs'⟩ := h.running k job' hk
    exact ⟨a', by rw [SessionView.finish, Finmap.lookup_erase_ne hne, ha'], hs'⟩
  active id hid' := by
    obtain ⟨hne, hid'⟩ := mem_erase.mp hid'
    obtain ⟨k, job', hk, rfl⟩ := h.active id hid'
    exact ⟨k, job', update_worker hk (by rintro he; cases hi.symm.trans he; exact hne rfl) _, rfl⟩
  publishing k completion' sent hk := by
    rcases update_cases hk with ⟨rfl, ⟨⟩⟩ | ⟨-, hk⟩
    · rw [hid]
      refine ⟨fun hq => hv.apart _ hq (mem_of_lookup_eq_some ha), ?_, ?_⟩
      · simp [SessionView.finish, mem_erase]
      · intro scope hscope
        exact mem_addSessionRequest.mpr (.inr ⟨hs ▸ hscope, rfl⟩)
    · obtain ⟨hq, hact, hpub⟩ := h.publishing k completion' sent hk
      exact ⟨hq, fun hm => hact (mem_erase.mp hm).2,
        fun scope hscope => mem_addSessionRequest.mpr (.inl (hpub scope hscope))⟩
  once := h.once_update fun k id hid' hk =>
    h.once k i id hk (by simpa [Worker.requestId, hi, hid] using hid')
  published scope id hmem := by
    rcases mem_addSessionRequest.mp hmem with hmem | ⟨hscope, rfl⟩
    · obtain ⟨k, completion', sent, hk, hre⟩ := h.published scope id hmem
      exact ⟨k, completion', sent, update_worker hk (by simp [hi]) _, hre⟩
    · exact ⟨i, completion, false, update_self .., hid, hs.trans hscope⟩

theorem publish (hi : workers i = .publishing completion false) :
    WorkerInv v (update workers i (.publishing completion true)) := by
  have hba : ∀ k completion' sent, update workers i (.publishing completion true) k =
      .publishing completion' sent → ∃ sent', workers k = .publishing completion' sent' := by
    intro k completion' sent hk
    rcases update_cases hk with ⟨rfl, ⟨⟩⟩ | ⟨-, hk⟩
    · exact ⟨false, hi⟩
    · exact ⟨sent, hk⟩
  refine ⟨fun k job hk => ?_, fun id hid => ?_, fun k completion' sent hk => ?_,
    h.once_update fun k id hid hk => ?_, fun scope id hid => ?_⟩
  · exact h.running k job (worker_of_update hk (by simp)).2
  · obtain ⟨k, job, hk, hid⟩ := h.active id hid
    exact ⟨k, job, update_worker hk (by simp [hi]) _, hid⟩
  · obtain ⟨sent', hk'⟩ := hba k completion' sent hk
    exact h.publishing k completion' sent' hk'
  · exact h.once k i id hk (by simpa [Worker.requestId, hi] using hid)
  · obtain ⟨k, completion', sent, hk, hre⟩ := h.published scope id hid
    by_cases hki : k = i
    · subst hki
      rw [hi] at hk
      cases hk
      exact ⟨k, completion, true, update_self .., hre⟩
    · exact ⟨k, completion', sent, by rw [update_of_ne hki, hk], hre⟩

theorem release {sent} (hi : workers i = .publishing completion sent) :
    WorkerInv { v with publishingIds :=
        removeSessionRequest v.publishingIds completion.sessionScope completion.requestId }
      (update workers i .idle) := by
  refine ⟨fun k job hk => ?_, fun id hid => ?_, fun k completion' sent' hk => ?_,
    h.once_update fun _ _ hid => (by cases hid), fun scope id hid => ?_⟩
  · exact h.running k job (worker_of_update hk (by simp)).2
  · obtain ⟨k, job, hk, hid⟩ := h.active id hid
    exact ⟨k, job, update_worker hk (by simp [hi]) _, hid⟩
  · obtain ⟨hki, hk⟩ := worker_of_update hk (by simp)
    obtain ⟨hq, ha, hs⟩ := h.publishing k completion' sent' hk
    -- the ended completion has another id, so this one stays in the index
    have hne : completion'.requestId ≠ completion.requestId := fun he =>
      hki (h.once k i _ (by rw [hk]; rfl) (by rw [hi, he]; rfl))
    exact ⟨hq, ha, fun scope hscope =>
      mem_removeSessionRequest.mpr ⟨hs scope hscope, fun hx => hne hx.2⟩⟩
  · obtain ⟨hid, hnot⟩ := mem_removeSessionRequest.mp hid
    obtain ⟨k, completion', sent', hk, hid', hs'⟩ := h.published scope id hid
    refine ⟨k, completion', sent', update_worker hk ?_ _, hid', hs'⟩
    rintro he
    cases hi.symm.trans he
    exact hnot ⟨hs', hid'.symm⟩

theorem drop (id : RequestId) (job : InvocationJob) : WorkerInv (v.drop id job) workers where
  running := h.running
  active := h.active
  publishing i completion sent hi := by
    obtain ⟨hq, hre⟩ := h.publishing i completion sent hi
    exact ⟨fun hm => hq (mem_erase.mp hm).2, hre⟩
  once := h.once
  published := h.published

theorem revoke {scope} (hr : v.Revokes w scope) : WorkerInv w workers := by
  have hq : ∀ id, id ∈ w.queued → id ∈ v.queued := by
    intro id hid
    obtain ⟨job, hl⟩ := Finmap.mem_iff.mp hid
    rw [hr.lookup] at hl
    split_ifs at hl
    exact mem_of_lookup_eq_some hl
  rw [hr.eq]
  refine ⟨h.running, h.active, fun i completion sent hi => ?_, h.once, h.published⟩
  obtain ⟨hnot, hre⟩ := h.publishing i completion sent hi
  exact ⟨fun hm => hnot (hq _ hm), hre⟩

end

end WorkerInv

/-- The tables, their indexes and the workers agree. -/
structure Held (s : RuntimeState n) : Prop where
  indexed : s.scheduler.sessions.Indexed
  workers : WorkerInv s.scheduler.sessions s.workers

namespace Held

variable {c : RuntimeConfig} {s t : RuntimeState n}

theorem init : Held ({} : RuntimeState n) := ⟨SessionView.Indexed.init, WorkerInv.init⟩

variable {completion : InvocationCompletion} {i : Fin n}

theorem began (h : Held s) {job scheduler} (hi : s.workers i = .running job)
    (hok : Scheduler.beginCompletion job.requestId s.scheduler = .ok (completion, scheduler)) :
    Held ({ s with scheduler }.setWorker i (.publishing completion false)) := by
  obtain ⟨a, ha, -⟩ := h.workers.running _ _ hi
  obtain ⟨hc, hv⟩ := beginCompletion_sessions hok ha
  refine ⟨?_, ?_⟩
  all_goals simp only [RuntimeState.setWorker, hv]
  · exact h.indexed.finish ha
  · exact h.workers.finish h.indexed hi ha (by rw [hc]) (by rw [hc])

theorem ended (h : Held s) {sent} (hi : s.workers i = .publishing completion sent) : Held ({ s with
      scheduler := Scheduler.endCompletion completion s.scheduler }.setWorker i .idle) :=
  ⟨⟨h.indexed.key, h.indexed.apart, h.indexed.queued, h.indexed.active, h.indexed.fenced⟩,
    h.workers.release hi⟩

/-- An id is admitted only when no completion of an earlier job with it is in
flight; the other steps ask for nothing. -/
theorem effect (h : Held s) {op out} (he : Effect c s op out t)
    (hg : ∀ id p scope, op = .enqueue id p scope →
      Admitted c.scheduler s.scheduler (s.newJob id p scope) → NotPublishing s.workers id) :
    Held t := by
  cases he with
  | admitted hok =>
    obtain ⟨ha, hv⟩ := enqueue_sessions hok
    refine ⟨?_, ?_⟩
    all_goals rw [hv]
    · exact h.indexed.admitJob ha.notQueued ha.notActive ha.notRevoked
    · exact h.workers.admitJob (hg _ _ _ rfl ha)
  | taken hi hok =>
    obtain ⟨hj, p, hv⟩ := take_sessions_taken h.indexed hok
    refine ⟨?_, ?_⟩
    all_goals simp only [RuntimeState.setWorker, hv]
    · exact h.indexed.start p hj
    · exact h.workers.start h.indexed hi hj
  | idled hidle hok =>
    have hv := take_sessions_idle hok hidle
    exact ⟨hv ▸ h.indexed, hv ▸ h.workers⟩
  | began hi hok => exact h.began hi hok
  | published hi => exact ⟨h.indexed, h.workers.publish hi⟩
  | ended hi => exact h.ended hi
  | revoked _ hok =>
    obtain ⟨hr, -⟩ := revokeSession_sessions hok
    exact ⟨h.indexed.revoke hr, h.workers.revoke hr⟩
  | _ => exact ⟨h.indexed, h.workers⟩

end Held

/-- Live jobs have different flags, all handed out already. -/
structure HandleInv (v : SessionView) (next : CancellationId) : Prop where
  below : ∀ {id scope handle}, v.Live id scope handle → handle < next
  owner : ∀ {id scope id' scope' handle}, v.Live id scope handle → v.Live id' scope' handle →
    id = id'

namespace HandleInv

variable {next next' : CancellationId}

theorem init : HandleInv (sessions {}) 0 := by
  have hnone : ∀ id scope handle, ¬ (sessions {}).Live id scope handle := by
    rintro id scope handle (⟨_, hl, -⟩ | ⟨_, hl, -⟩) <;> simp [sessions] at hl
  exact ⟨fun h => absurd h (hnone _ _ _), fun h => absurd h (hnone _ _ _)⟩

theorem mono (h : HandleInv v next)
    (hli : ∀ id scope handle, w.Live id scope handle → v.Live id scope handle)
    (hnext : next ≤ next') : HandleInv w next' :=
  ⟨fun hl => (h.below (hli _ _ _ hl)).trans_le hnext,
    fun hl hl' => h.owner (hli _ _ _ hl) (hli _ _ _ hl')⟩

theorem admitJob (h : HandleInv v next) {job} (hj : job.cancellation = next) :
    HandleInv (v.admitJob job) (next + 1) where
  below hl := by
    rcases hl.of_admitJob with ⟨-, -, rfl⟩ | hl
    · exact hj ▸ Nat.lt_succ_self next
    · exact (h.below hl).trans (Nat.lt_succ_self next)
  owner hl hl' := by
    rcases hl.of_admitJob with ⟨rfl, -, rfl⟩ | hl <;> rcases hl'.of_admitJob with ⟨rfl, -, he⟩ | hl'
    · rfl
    · exact absurd (h.below hl') (hj ▸ lt_irrefl _)
    · exact absurd (h.below hl) (he ▸ hj ▸ lt_irrefl _)
    · exact h.owner hl hl'

end HandleInv

def ContainCall.parents (call : ContainCall) : Finset (RequestId × String) :=
  match call.phase with
  | .cancelRoutes parents => parents
  | _ => ∅

/-- A route has the scope of the live job it belongs to, and so have the parents
a revocation is about to cancel. -/
structure RouteInv (v : SessionView) (routes : List (ℕ × PendingIORoute))
    (containing : Option ContainCall) : Prop where
  live : ∀ r ∈ routes, ∀ scope handle, v.Live r.2.parentRequestId scope handle →
    scope = r.2.sessionScope
  siblings : ∀ r ∈ routes, ∀ r' ∈ routes, r.2.parentRequestId = r'.2.parentRequestId →
    r.2.sessionScope = r'.2.sessionScope
  pending : ∀ call, containing = some call → ∀ parent ∈ call.parents,
    (∀ scope handle, v.Live parent.1 scope handle → scope = some call.scope) ∧
      ∀ r ∈ routes, r.2.parentRequestId = parent.1 → r.2.sessionScope = some call.scope

namespace RouteInv

variable {routes routes' : List (ℕ × PendingIORoute)} {containing containing' : Option ContainCall}

theorem init : RouteInv v [] none := ⟨by simp, by simp, by simp⟩

section

variable (h : RouteInv v routes containing)

include h

/-- Fewer live jobs, fewer routes and fewer parents. -/
theorem mono (hli : ∀ id scope handle, w.Live id scope handle → v.Live id scope handle)
    (hro : routes' ⊆ routes)
    (hcall : ∀ call', containing' = some call' → call'.parents = ∅ ∨
      ∃ call, containing = some call ∧ call'.scope = call.scope ∧ call'.parents ⊆ call.parents) :
    RouteInv w routes' containing' where
  live r hr scope handle hl := h.live r (hro hr) scope handle (hli _ _ _ hl)
  siblings r hr r' hr' := h.siblings r (hro hr) r' (hro hr')
  pending call' hc parent hp := by
    rcases hcall call' hc with hem | ⟨call, hcall, hscope, hsub⟩
    · simp [hem] at hp
    · obtain ⟨hl, hr⟩ := h.pending call hcall parent (hsub hp)
      rw [hscope]
      exact ⟨fun scope handle hlw => hl scope handle (hli _ _ _ hlw), fun r hmem => hr r (hro hmem)⟩

theorem admitJob {job} (hro : ∀ r ∈ routes, r.2.parentRequestId ≠ job.requestId)
    (hpending : ∀ call, containing = some call → ∀ parent ∈ call.parents,
      parent.1 ≠ job.requestId) : RouteInv (v.admitJob job) routes containing where
  live r hr scope handle hl := by
    rcases hl.of_admitJob with ⟨he, -⟩ | hl
    · exact absurd he (hro r hr)
    · exact h.live r hr scope handle hl
  siblings := h.siblings
  pending call hc parent hp := by
    refine ⟨fun scope handle hl => ?_, (h.pending call hc parent hp).2⟩
    rcases hl.of_admitJob with ⟨he, -⟩ | hl
    · exact absurd he (hpending call hc parent hp)
    · exact (h.pending call hc parent hp).1 scope handle hl

theorem push (hv : v.Indexed) {id route handle}
    (hli : v.Live route.parentRequestId route.sessionScope handle) :
    RouteInv v (routes ++ [(id, route)]) containing where
  live r hr scope handle' hl := by
    rcases List.mem_append.mp hr with hr | hr
    · exact h.live r hr scope handle' hl
    · cases List.mem_singleton.mp hr
      exact hl.unique hv hli
  siblings r hr r' hr' he := by
    have hnew : ∀ r ∈ routes, r.2.parentRequestId = route.parentRequestId →
        r.2.sessionScope = route.sessionScope := fun r hr he =>
      (h.live r hr _ _ (he ▸ hli)).symm
    rcases List.mem_append.mp hr with hr | hr <;> rcases List.mem_append.mp hr' with hr' | hr'
    · exact h.siblings r hr r' hr' he
    · cases List.mem_singleton.mp hr'
      exact hnew r hr he
    · cases List.mem_singleton.mp hr
      exact (hnew r' hr' he.symm).symm
    · rw [List.mem_singleton] at hr hr'
      rw [hr, hr']
  pending call hc parent hp := by
    obtain ⟨hl, hro⟩ := h.pending call hc parent hp
    refine ⟨hl, fun r hr he => ?_⟩
    rcases List.mem_append.mp hr with hr | hr
    · exact hro r hr he
    · cases List.mem_singleton.mp hr
      exact hl _ handle (he ▸ hli)

end

/-- The parents `cancel_session` collects. -/
theorem collect {routes : PendingIORouteState} (h : RouteInv v routes.active containing)
    (scope : SessionScope) (sequence : ℕ) :
    RouteInv v routes.active
      (some ⟨scope, sequence, .cancelRoutes (routes.sessionParents scope)⟩) where
  live := h.live
  siblings := h.siblings
  pending call hc parent hp := by
    cases hc
    simp only [ContainCall.parents, PendingIORouteState.sessionParents, List.mem_toFinset,
      List.mem_map, List.mem_filter, decide_eq_true_eq] at hp
    obtain ⟨r, ⟨hr, hs⟩, rfl⟩ := hp
    exact ⟨fun sc handle hl => (h.live r hr sc handle hl).trans hs,
      fun r' hr' he => (h.siblings r' hr' r hr he).trans hs⟩

end RouteInv

end RedevPlugin.Runtime
