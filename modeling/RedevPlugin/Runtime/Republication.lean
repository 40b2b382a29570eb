import RedevPlugin.Runtime.Containment
import RedevPlugin.Scheduler.Alone

/-! Containment over whole runs, and how a reused id escapes it. While the
response of a request is being sent, other requests can push its id out of the
recent window; a second request with the id is then admitted, and the end of the
first completion takes the id out of the publishing index although the second one
is still publishing. A revocation of the session drains at once, and the second
response goes out after it. -/

namespace RedevPlugin.Runtime

open Scheduler Transition

variable {n : ℕ} {c : RuntimeConfig} {s : RuntimeState n}

/-- The state when worker `i` has begun to complete a job it was alone with. -/
def RuntimeState.begun (s : RuntimeState n) (i : Fin n) (id : RequestId) (p : PluginInstanceId)
    (scope : Option SessionScope) : RuntimeState n :=
  { s with
    scheduler := rememberRecentRequestId (begunAlone s.scheduler (s.newJob id p scope)) id
    nextCancellation := s.nextCancellation + 1 }.setWorker i (.publishing ⟨id, scope, false⟩ false)

open RuntimeState (begun setWorker newJob contain drained publish)

variable {p : PluginInstanceId} {id : RequestId} {i : Fin n}

/-- An idle worker takes a job through to its completion. -/
theorem exists_begun (scope : Option SessionScope) (hi : s.workers i = .idle)
    (hv : Vacant c.scheduler s.scheduler p) (hrec : RecentInv s.scheduler)
    (hf : FreshId s.scheduler id) (hs : s.scheduler.revokedSessions = ∅) :
    ∃ tr, (system c n).Run s tr ∧ last s tr = s.begun i id p scope := by
  have ha : Admitted c.scheduler s.scheduler (s.newJob id p scope) :=
    Vacant.admitted hv hrec hf (by simp [hs])
  have henq : Scheduler.enqueue c.scheduler ⟨id, p, scope, s.nextCancellation⟩ s.scheduler =
      .ok (none, queuedAlone s.scheduler (s.newJob id p scope)) := Vacant.enqueue hv ha
  have hta : Scheduler.take c.scheduler (queuedAlone s.scheduler (s.newJob id p scope)) =
      .ok (.taken (s.newJob id p scope), takenAlone s.scheduler (s.newJob id p scope)) :=
    Vacant.take hv hf
  have hb : Scheduler.beginCompletion id (takenAlone s.scheduler (s.newJob id p scope)) =
      .ok (⟨id, scope, scope.any (fun scope => scope ∈ s.scheduler.revokedSessions)⟩,
        rememberRecentRequestId (begunAlone s.scheduler (s.newJob id p scope)) id) :=
    Vacant.beginCompletion hv hf
  have hsu : scope.any (fun scope => scope ∈ s.scheduler.revokedSessions) = false := by
    simp [hs]
  let queued : RuntimeState n :=
    { s with
      scheduler := queuedAlone s.scheduler (s.newJob id p scope)
      nextCancellation := s.nextCancellation + 1 }
  let running : RuntimeState n :=
    { queued with scheduler := takenAlone s.scheduler (s.newJob id p scope) }.setWorker i
      (.running (s.newJob id p scope))
  have hw : running.workers i = .running (s.newJob id p scope) := Function.update_self ..
  refine ⟨[((.enqueue id p scope, .enqueued none), queued),
    ((.take i, .took (.taken (s.newJob id p scope))), running),
    ((.beginCompletion i, .began ⟨id, scope, false⟩), s.begun i id p scope)],
    ⟨?_, ?_, ?_, trivial⟩, rfl⟩
  · change s.enqueue c id p scope = _
    simp only [RuntimeState.enqueue, henq]
    rfl
  · change queued.take c i = _
    unfold RuntimeState.take
    rw [show queued.workers i = .idle from hi]
    simp only [show queued.scheduler = queuedAlone s.scheduler (s.newJob id p scope) from rfl, hta]
    rfl
  · change running.beginCompletion i = _
    unfold RuntimeState.beginCompletion
    rw [hw]
    simp only [show running.scheduler = takenAlone s.scheduler (s.newJob id p scope) from rfl,
      show (s.newJob id p scope).requestId = id from rfl, hb, hsu]
    simp [begun, setWorker, running, queued]

/-- The state when an idle worker has served jobs without a session. -/
def RuntimeState.passed (s : RuntimeState n) (ids : List RequestId) : RuntimeState n :=
  { s with
    scheduler := Scheduler.passed s.scheduler ids
    nextCancellation := s.nextCancellation + ids.length }

section

variable (hi : s.workers i = .idle) (hv : Vacant c.scheduler s.scheduler p)
  (hrec : RecentInv s.scheduler)

include hi hv hrec

theorem exists_passed_one (hs : s.scheduler.revokedSessions = ∅) (hf : FreshId s.scheduler id) :
    ∃ tr, (system c n).Run s tr ∧ last s tr = s.passed [id] := by
  obtain ⟨tr, hr, hla⟩ := exists_begun (c := c) none hi hv hrec hf hs
  refine ⟨tr ++ [((.endCompletion i, .ended), s.passed [id])],
    (System.run_append _ _ _ _).mpr ⟨hr, ?_, trivial⟩, by simp⟩
  rw [hla]
  change (s.begun i id p none).endCompletion i = _
  unfold RuntimeState.endCompletion
  rw [show (s.begun i id p none).workers i = .publishing ⟨id, none, false⟩ false from
    Function.update_self ..]
  have hend := (endCompletion_begunAlone hrec hf.notRecent p s.nextCancellation).1
  have hwo : Function.update (Function.update s.workers i (.publishing ⟨id, none, false⟩ false))
      i .idle = s.workers := by
    rw [Function.update_idem, ← hi, Function.update_eq_self]
  simp [begun, setWorker, RuntimeState.passed, newJob, hend, hwo]

/-- An idle worker serves jobs without a session, one after the other. -/
theorem exists_passed {ids} (hs : s.scheduler.revokedSessions = ∅) (hno : ids.Nodup)
    (hfresh : ∀ id ∈ ids, FreshId s.scheduler id)
    (hgen : s.scheduler.nextQueueGeneration + ids.length < u64Max) :
    ∃ tr, (system c n).Run s tr ∧ last s tr = s.passed ids := by
  induction ids generalizing s with
  | nil => exact ⟨[], trivial, by simp [RuntimeState.passed, passed_nil hrec]⟩
  | cons id ids ih =>
    obtain ⟨hnot, hno⟩ := List.nodup_cons.mp hno
    rw [List.length_cons] at hgen
    have hf := hfresh id List.mem_cons_self
    obtain ⟨tr, hr, hla⟩ := exists_passed_one hi hv hrec hs hf
    have hv' : Vacant c.scheduler (s.passed [id]).scheduler p :=
      ⟨hv.running, hv.noQueue, hv.noOrder, hv.noActive, hv.capacity, hv.concurrency,
        hv.pluginCapacity, by
          simp only [RuntimeState.passed, Scheduler.passed, List.length_singleton]
          omega⟩
    have hrec' : RecentInv (s.passed [id]).scheduler :=
      (endCompletion_begunAlone hrec hf.notRecent p 0).2
    obtain ⟨tr', hr', hl'⟩ := ih (s := s.passed [id]) hi hv' hrec' hs hno (fun a ha => by
        obtain ⟨h1, h2, h3, h4⟩ := hfresh a (List.mem_cons_of_mem _ ha)
        refine ⟨h1, h2, h3, fun hm => ?_⟩
        rcases List.mem_append.mp ((window_sublist _).subset hm) with hm | hm
        · exact h4 hm
        · exact hnot (List.mem_singleton.mp hm ▸ ha))
      (by
        simp only [RuntimeState.passed, Scheduler.passed, List.length_singleton]
        omega)
    refine ⟨tr ++ tr', (System.run_append _ _ _ _).mpr ⟨hr, hla ▸ hr'⟩, ?_⟩
    rw [last_append, hla, hl']
    simp only [RuntimeState.passed, passed_passed, List.singleton_append, List.length_cons,
      List.length_nil, Nat.zero_add, Nat.add_assoc, Nat.add_comm 1]

end

/-- A revocation of an idle runtime whose indexes hold nothing of the scope is
acknowledged, and leaves the workers alone. -/
theorem exists_acknowledged (scope : SessionScope) (hcall : s.containing = none)
    (hre : s.records = ∅) (hcap : 0 < c.maxScopes) (hro : s.routes.active = [])
    (hq : s.scheduler.sessions.queuedIds.ids scope = ∅)
    (ha : s.scheduler.sessions.activeIds.ids scope = ∅)
    (hp : s.scheduler.sessions.publishingIds.ids scope = ∅) :
    ∃ tr, (system c n).Run s tr ∧ (last s tr).workers = s.workers ∧
      Acknowledged (labels tr) scope 1 ⟨0, 0, 0, 0, 0, 0⟩ := by
  let iteration : HashOrder := ⟨Finset.toList, Finset.nodup_toList, fun _ _ => Finset.mem_toList⟩
  obtain ⟨scheduler, hok, hview⟩ := revokeSession_of_empty iteration hq ha hp
  have hdrained : sessionDrained scope scheduler = true := by
    have hact : scheduler.activeBySession.ids scope = ∅ :=
      (congrArg (fun v => SessionIndex.ids (SessionView.activeIds v) scope) hview).trans ha
    have hpub : scheduler.publishingBySession.ids scope = ∅ :=
      (congrArg (fun v => SessionIndex.ids (SessionView.publishingIds v) scope) hview).trans hp
    simp [sessionDrained, hact, hpub]
  let opened : RuntimeState n := { s with containing := some ⟨scope, 1, .cancelRoutes ∅⟩ }
  let fenced : RuntimeState n :=
    { opened with
      revokedSessions := insert scope s.revokedSessions, containing := some ⟨scope, 1, .revoke⟩ }
  let revoked : RuntimeState n :=
    { fenced with
      scheduler, canceled := s.canceled ∪ ∅
      records := s.records.insert scope ⟨1, ⟨0, 0, 0, 0, 0, 0⟩, false⟩
      containing := some ⟨scope, 1, .drain ⟨0, 0, 0, 0, 0, 0⟩⟩ }
  let done : RuntimeState n :=
    { revoked with
      records := revoked.records.insert scope ⟨1, ⟨0, 0, 0, 0, 0, 0⟩, true⟩, containing := none }
  refine ⟨[((.contain scope 1, .continued), opened), ((.fence, .continued), fenced),
    ((.revokeSession iteration, .continued), revoked),
    ((.drained, .returned scope 1 (.ok ⟨0, 0, 0, 0, 0, 0⟩)), done)], ⟨?_, ?_, ?_, ?_, trivial⟩, rfl,
    .drained, by simp⟩
  · have hpa : s.routes.sessionParents scope = ∅ := by
      simp [PendingIORouteState.sessionParents, hro]
    have hlookup : s.records.lookup scope = none := by simp [hre]
    have hsi : ¬ c.maxScopes ≤ s.records.size := by simp [hre]; omega
    change s.contain c scope 1 = _
    simp only [contain, hcall, hlookup, if_neg hsi, hpa]
    rfl
  · rfl
  · change fenced.revokeSession iteration = _
    simp only [RuntimeState.revokeSession, fenced, opened, hok]
    rfl
  · have hlookup : revoked.records.lookup scope = some ⟨1, ⟨0, 0, 0, 0, 0, 0⟩, false⟩ :=
      Finmap.lookup_insert s.records
    change revoked.drained = _
    simp only [drained, hlookup, show revoked.scheduler = scheduler from rfl, hdrained,
      if_true, show revoked.containing = some ⟨scope, 1, .drain ⟨0, 0, 0, 0, 0, 0⟩⟩ from rfl]
    rfl

/-- **Containment.** In every run in which an admitted id is held by nothing
else, after any part of the run: a scope acknowledged as revoked has no job left,
the next step neither admits nor publishes one of its jobs and repeats the
acknowledgement; and every step of a revocation spares the other scopes. -/
theorem contained_of_unheld {tr : List ((Op n × Output) × RuntimeState n)}
    (hr : (system c n).Run {} tr) (hg : Guarded (fun _ s l => Unheld c s l.1) [] {} tr)
    {before after : List ((Op n × Output) × RuntimeState n)} (htr : tr = before ++ after) :
    (∀ scope sequence counts, Acknowledged (labels before) scope sequence counts →
      Contained scope (last {} before)) ∧
    ∀ l t rest, after = (l, t) :: rest →
      (∀ scope sequence counts, Acknowledged (labels before) scope sequence counts →
        Silent scope l ∧ Repeats scope sequence counts (last {} before) l t) ∧
      ∀ scope, callScope (last {} before) l.1 = some scope → Spares scope (last {} before) t := by
  subst htr
  rw [System.run_append] at hr
  rw [guarded_append] at hg
  have hp : Promised ([] ++ labels before) (last {} before) :=
    hr.1.invariant (fun h s l t hi hg hs => hi.step hg hs) Promised.init hg.1
  refine ⟨fun scope sequence counts ha => hp.contained (hp.drained _ _ _ ha), ?_⟩
  rintro l t rest rfl
  have hstep := hr.2.1
  refine ⟨fun scope sequence counts ha => ⟨hp.silent hstep (hp.drained _ _ _ ha),
    (hp.recorded _ _ _ ha).repeats hstep⟩, fun scope hscope => ?_⟩
  exact hp.spares (hp.toRuntimeInv.step hg.2.1 hstep) hstep hscope

def session : SessionScope := ⟨"session", "user", "env", "channel"⟩

/-- Two workers, room for two queued jobs, the routes of two workers. -/
def roomy : RuntimeConfig := ⟨.new 2 1, ⟨2, 4⟩, 65536, "g1"⟩

/-- Worker 0 runs a job of the session and a second one waits; worker 1 runs a job
of another one. -/
def busy : List (Op 2) :=
  [.enqueue "a" "p" (some session), .take 0,
    .enqueue "c" "q" (some { session with sessionChannelIdHash := "other" }), .take 1,
    .enqueue "b" "r" (some session)]

noncomputable def listed : HashOrder where
  toList ids := if ids ⊆ {"a", "b", "r"} then ["a", "b", "r"].filter (· ∈ ids) else ids.toList
  nodup ids := by
    split
    · exact List.Nodup.filter _ (by decide)
    · exact ids.nodup_toList
  mem_toList ids id := by
    split
    · rename_i h
      simpa using fun hid => by simpa using h hid
    · exact Finset.mem_toList

noncomputable def busyRun : List ((Op 2 × Output) × RuntimeState 2) :=
  trace (perform roomy) {} (busy ++ [.contain session 1, .fence, .revokeSession listed,
    .beginCompletion 0, .endCompletion 0, .drained])

theorem unheld_of_empty (scope : Option SessionScope) (hroutes : s.routes.active = [])
    (hcall : s.containing = none) (hqueues : s.scheduler.queues = ∅)
    (hworkers : ∀ i, (s.workers i).requestId ≠ some id) : Unheld c s (.enqueue id p scope) :=
  fun _ => ⟨fun i _ _ hw he => hworkers i (by simp [hw, Worker.requestId, he]), by simp [hroutes],
    by simp [hcall], by simp [Unlisted, hqueues]⟩

theorem busyRun_unheld : Guarded (fun _ s l => Unheld roomy s l.1) [] {} busyRun :=
  ⟨unheld_of_empty _ rfl rfl rfl (by decide), trivial,
    unheld_of_empty _ rfl rfl (by decide) (by decide), trivial,
    unheld_of_empty _ rfl rfl (by decide) (by decide), trivial, trivial, trivial, trivial, trivial,
    trivial, trivial⟩

/-- The revocation finds the two jobs of the session; the job of the other one goes on. -/
theorem busy_session_contained :
    Acknowledged (labels busyRun) session 1 ⟨1, 1, 0, 0, 0, 0⟩ ∧
      Contained session (last {} busyRun) ∧
      Spares session (last {} (busyRun.take 7)) (last {} (busyRun.take 8)) ∧
      ∃ job, (last {} busyRun).workers 1 = .running job ∧
        job.cancellation ∉ (last {} busyRun).canceled := by
  have hrun : (system roomy 2).Run {} busyRun := System.run_trace _ (perform roomy) _ _
  have hack : Acknowledged (labels busyRun) session 1 ⟨1, 1, 0, 0, 0, 0⟩ :=
    ⟨.drained, List.mem_of_getElem? (by rfl : (labels busyRun)[10]? = _)⟩
  refine ⟨hack, (contained_of_unheld hrun busyRun_unheld (List.append_nil _).symm).1
    session 1 _ hack,
    ?_, _, rfl, by decide +kernel⟩
  exact ((contained_of_unheld hrun busyRun_unheld (List.take_append_drop 7 _).symm).2 _ _ _ rfl).2
    session rfl

/-- Two workers, room for one queued job, the routes of two workers. -/
def pair : RuntimeConfig := ⟨.new 1 1, ⟨2, 4⟩, 65536, "g1"⟩

/-- Worker 0 sends the response of a request of the session. -/
def sending : RuntimeState 2 := begun {} 0 "a" "p" (some session)

theorem sending_scheduler : sending.scheduler = { begunAlone {} ⟨"a", "p", some session, 0⟩ with
      recentRequestOrder := ["a"], recentRequestIds := {"a"} } := rfl

theorem sending_vacant (p : PluginInstanceId) : Vacant pair.scheduler sending.scheduler p :=
  ⟨rfl, by simp [sending_scheduler, begunAlone, takenAlone], rfl,
    by simp [sending_scheduler, begunAlone, takenAlone], by decide, by decide, by decide, by decide⟩

theorem sending_freshId (hid : id ≠ "a") : FreshId sending.scheduler id :=
  ⟨fun p queue hq => by simp [sending_scheduler, begunAlone, takenAlone] at hq, Finmap.notMem_empty,
    Finmap.notMem_empty, by simpa [sending_scheduler] using hid⟩

theorem exists_sending : ∃ tr, (system pair 2).Run {} tr ∧ last {} tr = sending :=
  exists_begun (some session) rfl
    ⟨rfl, by simp, rfl, by simp, by decide, by decide, by decide, by decide⟩ RecentInv.init
    ⟨fun p queue hq => by simp at hq, Finmap.notMem_empty, Finmap.notMem_empty, by simp⟩ rfl

/-- The window has turned over, and worker 1 sends the response of a second
request with the id. -/
def sendingTwice (ids : List RequestId) : RuntimeState 2 :=
  (sending.passed ids).begun 1 "a" "p" (some session)

/-- Ids that push the first one out of the window. -/
theorem exists_turnover : ∃ ids : List RequestId, ids.Nodup ∧ "a" ∉ ids ∧
    window (["a"] ++ ids) = ids ∧ 1 + ids.length + 1 < u64Max := by
  refine ⟨fillers, fillers_nodup, notMem_fillers (by decide), window_fillers, ?_⟩
  simp [fillers, recentRequestReplayCapacity, u64Max]

theorem passed_recent (ids : List RequestId) :
    (sending.passed ids).scheduler.recentRequestOrder = window (["a"] ++ ids) := by
  simp only [RuntimeState.passed, passed, sending_scheduler]

theorem exists_sendingTwice :
    ∃ ids tr, (system pair 2).Run {} tr ∧ last {} tr = sendingTwice ids := by
  obtain ⟨ids, hno, hnot, hwi, hgen⟩ := exists_turnover
  obtain ⟨tr, hr, hla⟩ := exists_sending
  have hnext : sending.scheduler.nextQueueGeneration = 1 := rfl
  obtain ⟨tr', hr', hl'⟩ := exists_passed (c := pair) (i := 1) rfl (sending_vacant "r")
    ⟨rfl, by decide, by decide⟩ rfl hno (fun id hid => sending_freshId fun he => hnot (he ▸ hid))
    (by rw [hnext]; omega)
  have hre := (passed_recent ids).trans hwi
  -- the id of the first request has left the window
  have hfresh : FreshId (sending.passed ids).scheduler "a" :=
    ⟨fun p queue hq => by
        simp [RuntimeState.passed, passed, sending_scheduler, begunAlone, takenAlone] at hq,
      Finmap.notMem_empty, Finmap.notMem_empty, by rwa [hre]⟩
  have hrec : RecentInv (sending.passed ids).scheduler := by
    refine ⟨rfl, by rwa [hre], ?_⟩
    exact length_window_le _
  have hv : Vacant pair.scheduler (sending.passed ids).scheduler "p" := by
    obtain ⟨h1, h2, h3, h4, h5, h6, h7, -⟩ := sending_vacant "p"
    exact ⟨h1, h2, h3, h4, h5, h6, h7, by simp only [RuntimeState.passed, passed, hnext]; omega⟩
  obtain ⟨tr₂, hr₂, hlast₂⟩ := exists_begun (c := pair) (i := 1) (some session) rfl hv hrec hfresh
    rfl
  refine ⟨ids, tr ++ tr' ++ tr₂, ?_, by rw [last_append, last_append, hla, hl', hlast₂]; rfl⟩
  rw [System.run_append, System.run_append, last_append, hla, hl']
  exact ⟨⟨hr, hr'⟩, hr₂⟩

/-- The first completion ends while the second response is on its way. -/
def endedOnce (ids : List RequestId) : RuntimeState 2 :=
  { sendingTwice ids with
    scheduler := endCompletion ⟨"a", some session, false⟩ (sendingTwice ids).scheduler }.setWorker
      0 .idle

/-- Nothing of the session is in the indexes then. -/
theorem endedOnce_empty (ids : List RequestId) :
    (endedOnce ids).scheduler.sessions.queuedIds.ids session = ∅ ∧
      (endedOnce ids).scheduler.sessions.activeIds.ids session = ∅ ∧
      (endedOnce ids).scheduler.sessions.publishingIds.ids session = ∅ := by
  have hview : (sendingTwice ids).scheduler.sessions =
      (begunAlone sending.scheduler ⟨"a", "p", some session, 0⟩).sessions := by
    simp only [sendingTwice, begun, setWorker, sessions_remember]
    rfl
  have hended : (endedOnce ids).scheduler.sessions = { (sendingTwice ids).scheduler.sessions with
        publishingIds := removeSessionRequest (sendingTwice ids).scheduler.sessions.publishingIds
          (some session) "a" } := rfl
  rw [hended, hview]
  exact ⟨rfl, rfl, rfl⟩

/-- **A response after containment.** A request of the session is answered after
the revocation of the session was acknowledged. -/
theorem published_after_containment :
    ∃ before t, (system pair 2).Run {}
        (before ++ [((.publish 1, .published ⟨"a", some session, false⟩), t)]) ∧
      Acknowledged (labels before) session 1 ⟨0, 0, 0, 0, 0, 0⟩ := by
  obtain ⟨ids, tr, hr, hlast⟩ := exists_sendingTwice
  obtain ⟨hq, ha, hp⟩ := endedOnce_empty ids
  obtain ⟨tr', hr', hworkers, op, hack⟩ := exists_acknowledged (c := pair) session rfl rfl
    (by decide) rfl hq ha hp
  have hw : (last (endedOnce ids) tr').workers 1 =
      .publishing ⟨"a", some session, false⟩ false := by
    rw [hworkers]
    rfl
  refine ⟨tr ++ ((.endCompletion 0, .ended), endedOnce ids) :: tr',
    (last (endedOnce ids) tr').setWorker 1 (.publishing ⟨"a", some session, false⟩ true),
    ?_, op, ?_⟩
  · rw [System.run_append, System.run_append, last_append, hlast]
    refine ⟨⟨hr, rfl, hr'⟩, ?_, trivial⟩
    change (last (endedOnce ids) tr').publish 1 = _
    simp only [publish, hw]
    rfl
  · simp only [labels_append, labels_cons, List.mem_append, List.mem_cons]
    exact .inr (.inr hack)

end RedevPlugin.Runtime
