import RedevPlugin.Runtime.Holders
import RedevPlugin.Scheduler.Integrity

/-! What the acknowledgement of a revocation promises. Once `contain` returned
`Ok` for a scope, no job of the scope is queued, active or publishing, none is
admitted, and no response of one goes out; a repeated call returns the counts it
returned and a call with a lower sequence is stale; and no call touches the jobs
of another scope. A step keeps these promises if it admits an id only after the
completions, routes and queues that still know it from an earlier request let go
of it. -/

namespace RedevPlugin.Runtime

open Scheduler Transition
open RuntimeState (setWorker contain)

variable {n : ℕ} {c : RuntimeConfig} {s t : RuntimeState n}

/-! ### What containment says -/

/-- No job of the scope is left in the runtime. -/
structure Contained (scope : SessionScope) (s : RuntimeState n) : Prop where
  queued : ∀ id job, s.scheduler.queuedByRequest.lookup id = some job →
    job.sessionScope ≠ some scope
  active : ∀ id a, s.scheduler.active.lookup id = some a → a.sessionScope ≠ some scope
  running : ∀ i job, s.workers i = .running job → job.sessionScope ≠ some scope
  publishing : ∀ i completion sent, s.workers i = .publishing completion sent →
    completion.sessionScope ≠ some scope

/-- A step that neither admits a job of the scope nor publishes a response of
one. -/
def Silent (scope : SessionScope) (l : Op n × Output) : Prop :=
  (∀ id p, l.1 = .enqueue id p (some scope) → ∃ error, l.2 = .enqueued (some error)) ∧
    ∀ completion, l.2 = .published completion → completion.sessionScope ≠ some scope

/-- A step that, if it calls `contain` again after `sequence` was acknowledged
with `counts`, changes nothing and returns the same counts for the same sequence,
unless a higher one is on record, and an error for a lower one. -/
def Repeats (scope : SessionScope) (sequence : ℕ) (counts : SessionRevokeAckCounts)
    (s : RuntimeState n) (l : Op n × Output) (t : RuntimeState n) : Prop :=
  (∀ m, l.1 = .contain scope m → m < sequence → l.2 = .returned scope m (.error .stale) ∧ t = s) ∧
  (l.1 = .contain scope sequence → t = s ∧
    ((∀ record, s.records.lookup scope = some record → record.sequence = sequence) →
      l.2 = .returned scope sequence (.ok counts)) ∧
    ((∃ record, s.records.lookup scope = some record ∧ sequence < record.sequence) →
      l.2 = .returned scope sequence (.error .stale)))

/-- The scope a step of the control thread is revoking. -/
def callScope (s : RuntimeState n) : Op n → Option SessionScope
  | .contain scope _ => some scope
  | .cancelParent _ | .fence | .revokeSession _ | .drained | .drainTimeout =>
    s.containing.map ContainCall.scope
  | _ => none

/-- A step that leaves the jobs of every other scope where they are: queued in
the queue of their plugin, active, in the hand of their worker, with their flag
not fired and their routes open. -/
structure Spares (scope : SessionScope) (s t : RuntimeState n) : Prop where
  queued : ∀ id job, s.scheduler.queuedByRequest.lookup id = some job →
    job.sessionScope ≠ some scope → t.scheduler.queuedByRequest.lookup id = some job ∧
      ∃ queue, t.scheduler.queues.lookup job.pluginInstanceId = some queue ∧ id ∈ queue.requestIds
  active : ∀ id a, s.scheduler.active.lookup id = some a → a.sessionScope ≠ some scope →
    t.scheduler.active.lookup id = some a
  workers : t.workers = s.workers
  flags : ∀ id sc handle, s.scheduler.sessions.Live id sc handle → sc ≠ some scope →
    handle ∈ t.canceled → handle ∈ s.canceled
  routes : ∀ r ∈ s.routes.active, r.2.sessionScope ≠ some scope → r ∈ t.routes.active

/-- The call returned `Ok` with these counts. -/
def Acknowledged (h : List (Op n × Output)) (scope : SessionScope) (sequence : ℕ)
    (counts : SessionRevokeAckCounts) : Prop :=
  ∃ op, (op, Output.returned scope sequence (.ok counts)) ∈ h

/-- An admitted id is not held by a completion in flight, by an open route, by a
parent that `cancel_session` is about to cancel, or by a queue that still lists
it. -/
def Unheld (c : RuntimeConfig) (s : RuntimeState n) : Op n → Prop
  | .enqueue id p scope => Admitted c.scheduler s.scheduler (s.newJob id p scope) →
    NotPublishing s.workers id ∧ (∀ r ∈ s.routes.active, r.2.parentRequestId ≠ id) ∧
      (∀ call, s.containing = some call → ∀ parent ∈ call.parents, parent.1 ≠ id) ∧
      Unlisted s.scheduler.queues id
  | _ => True

/-! ### Records -/

/-- The records agree with the fence and with the call in progress. -/
structure RecordInv (v : SessionView) (records : Table SessionScope SessionRevokeRecord)
    (containing : Option ContainCall) : Prop where
  fenced : ∀ scope record, records.lookup scope = some record → scope ∈ v.revoked
  drain : ∀ scope sequence counts, containing = some ⟨scope, sequence, .drain counts⟩ →
    ∃ record, records.lookup scope = some record ∧ record.sequence = sequence ∧
      record.counts = counts
  ahead : ∀ call, containing = some call → (∀ counts, call.phase ≠ .drain counts) →
    ∀ record, records.lookup call.scope = some record → record.sequence < call.sequence

namespace RecordInv

variable {v w : SessionView} {records : Table SessionScope SessionRevokeRecord}
  {containing : Option ContainCall}

theorem init : RecordInv v ∅ none := ⟨by simp, by simp, by simp⟩

section

variable (h : RecordInv v records containing)

include h

theorem mono (hr : v.revoked ⊆ w.revoked) : RecordInv w records containing :=
  ⟨fun scope record hl => hr (h.fenced scope record hl), h.drain, h.ahead⟩

theorem close : RecordInv v records none := ⟨h.fenced, by simp, by simp⟩

/-- A call that goes on in a phase before the drain. -/
theorem advance {call} (hphase : ∀ counts, call.phase ≠ .drain counts)
    (hah : ∀ record, records.lookup call.scope = some record →
      record.sequence < call.sequence) : RecordInv v records (some call) where
  fenced := h.fenced
  drain scope sequence counts he := by
    cases he
    exact absurd rfl (hphase counts)
  ahead call' he _ record hl := by
    cases he
    exact hah record hl

end

/-- A call whose scope is on record goes on draining. -/
theorem toDrain (hf : ∀ scope record, records.lookup scope = some record → scope ∈ v.revoked)
    {scope record} (hr : records.lookup scope = some record) :
    RecordInv v records (some ⟨scope, record.sequence, .drain record.counts⟩) where
  fenced := hf
  drain scope' sequence counts he := by
    cases he
    exact ⟨record, hr, rfl, rfl⟩
  ahead call he hphase := by
    cases he
    exact absurd rfl (hphase _)

end RecordInv

/-! ### The invariant -/

structure RuntimeInv (s : RuntimeState n) : Prop extends Held s where
  scheduler : Invariant s.scheduler
  handles : HandleInv s.scheduler.sessions s.nextCancellation
  routes : RouteInv s.scheduler.sessions s.routes.active s.containing
  records : RecordInv s.scheduler.sessions s.records s.containing

theorem RuntimeInv.init : RuntimeInv ({} : RuntimeState n) :=
  ⟨Held.init, Invariant.init, HandleInv.init, RouteInv.init, RecordInv.init⟩

namespace RuntimeInv

variable {scheduler : SchedulerState} {job : InvocationJob} {i : Fin n}
  {completion : InvocationCompletion} {l : Op n × Output}

section

variable (h : RuntimeInv s)

include h

theorem admitted {id p scope} (hg : Unheld c s (.enqueue id p scope))
    (hok : Scheduler.enqueue c.scheduler (s.newJob id p scope) s.scheduler =
      .ok (none, scheduler)) :
    RuntimeInv { s with scheduler, nextCancellation := s.nextCancellation + 1 } := by
  obtain ⟨ha, hv⟩ := enqueue_sessions hok
  obtain ⟨hpub, hro, hpending, hli⟩ := hg ha
  have hinv := (h.scheduler.step (l := (.enqueue (s.newJob id p scope), .enqueued none))
    (fun _ => hli) (map_output_eq_ok.mpr ⟨none, hok, rfl⟩)).1
  have hheld := h.toHeld.effect (.admitted hok) fun _ _ _ he _ => by
    cases he
    exact hpub
  refine ⟨hheld, hinv, ?_, ?_, ?_⟩
  all_goals rw [hv]
  · exact h.handles.admitJob rfl
  · exact h.routes.admitJob hro hpending
  · exact h.records.mono (Finset.Subset.refl _)

/-- A step of a worker after which no more is live. -/
theorem worked {w} (ht : Held ({ s with scheduler }.setWorker i w)) (hinv : Invariant scheduler)
    (hli : ∀ id scope handle, scheduler.sessions.Live id scope handle →
      s.scheduler.sessions.Live id scope handle)
    (hre : s.scheduler.sessions.revoked ⊆ scheduler.sessions.revoked) :
    RuntimeInv ({ s with scheduler }.setWorker i w) :=
  ⟨ht, hinv, h.handles.mono hli le_rfl, h.routes.mono hli (List.Subset.refl _)
      fun call hc => .inr ⟨call, hc, rfl, Finset.Subset.refl _⟩,
    h.records.mono hre⟩

theorem taken (hi : s.workers i = .idle)
    (hok : Scheduler.take c.scheduler s.scheduler = .ok (.taken job, scheduler)) :
    RuntimeInv ({ s with scheduler }.setWorker i (.running job)) := by
  obtain ⟨hj, p, hv⟩ := take_sessions_taken h.indexed hok
  have hinv := (h.scheduler.step (l := (.take, .took (.taken job))) trivial
    (map_output_eq_ok.mpr ⟨_, hok, rfl⟩)).1
  refine h.worked (h.toHeld.effect (.taken hi hok) nofun) hinv ?_ ?_ <;> rw [hv]
  · exact fun id scope handle hl => hl.of_start hj
  · exact Finset.Subset.refl _

theorem began (hi : s.workers i = .running job)
    (hok : Scheduler.beginCompletion job.requestId s.scheduler = .ok (completion, scheduler)) :
    RuntimeInv ({ s with scheduler }.setWorker i (.publishing completion false)) := by
  obtain ⟨a, ha, -⟩ := h.workers.running i job hi
  obtain ⟨hc, hv⟩ := beginCompletion_sessions hok ha
  obtain ⟨_, _, hok', hinv, -⟩ := h.scheduler.beginCompletion job.requestId
  cases hok.symm.trans hok'
  refine h.worked (h.toHeld.began hi hok) hinv ?_ ?_ <;> rw [hv]
  · exact fun id scope handle hl => hl.of_finish
  · exact Finset.Subset.refl _

theorem ended {sent} (hi : s.workers i = .publishing completion sent) : RuntimeInv ({ s with
      scheduler := Scheduler.endCompletion completion s.scheduler }.setWorker i .idle) := by
  have hba : BaseInv (Scheduler.endCompletion completion s.scheduler) :=
    ⟨h.scheduler.queues, h.scheduler.order, h.scheduler.queued, h.scheduler.active,
      h.scheduler.apart⟩
  exact h.worked (h.toHeld.ended hi) ⟨hba, h.scheduler.live_pos⟩ (fun _ _ _ hl => hl)
    (Finset.Subset.refl _)

variable {scope : SessionScope}

theorem revoked {sequence iteration disposition}
    (hok : Scheduler.revokeSession iteration scope s.scheduler = .ok (disposition, scheduler))
    (counts : SessionRevokeAckCounts) :
    RuntimeInv { s with
      scheduler, canceled := s.canceled ∪ disposition.canceled.toFinset
      records := s.records.insert scope ⟨sequence, counts, false⟩
      containing := some ⟨scope, sequence, .drain counts⟩ } := by
  obtain ⟨hr, -⟩ := revokeSession_sessions hok
  obtain ⟨_, _, hok', hinv, -⟩ := h.scheduler.revokeSession iteration scope
  cases hok.symm.trans hok'
  have hli : ∀ id scope handle, scheduler.sessions.Live id scope handle →
      s.scheduler.sessions.Live id scope handle := fun id scope handle hl => hl.of_revoke hr
  have hre : scheduler.sessions.revoked = insert scope s.scheduler.sessions.revoked := by
    rw [hr.eq]
  refine ⟨⟨h.indexed.revoke hr, h.workers.revoke hr⟩, hinv, h.handles.mono hli le_rfl,
    h.routes.mono hli (List.Subset.refl _) fun call hc => .inl (by cases hc; rfl), ?_⟩
  refine RecordInv.toDrain (fun sc record hl => ?_) (Finmap.lookup_insert s.records)
  rw [hre]
  rcases Finmap.lookup_of_insert hl with ⟨rfl, -⟩ | hl
  · exact Finset.mem_insert_self _ _
  · exact Finset.mem_insert_of_mem (h.records.fenced sc record hl)

theorem step (hg : Unheld c s l.1) (hstep : (system c n).step s l t) : RuntimeInv t := by
  obtain ⟨op, out⟩ := l
  -- the steps of the control thread other than the revocation keep the first four parts
  have hcall : ∀ {containing : Option ContainCall} {routes : PendingIORouteState}
      {records : Table SessionScope SessionRevokeRecord} {fence : Finset SessionScope},
      RouteInv s.scheduler.sessions routes.active containing →
      RecordInv s.scheduler.sessions records containing →
      RuntimeInv { s with
        containing, routes, records
        revokedSessions := fence } :=
    fun hro hrecords =>
      ⟨⟨h.indexed, h.workers⟩, h.scheduler, h.handles, hro, hrecords⟩
  have hro : ∀ {containing : Option ContainCall} {routes : PendingIORouteState},
      routes.active ⊆ s.routes.active →
      (∀ call', containing = some call' → call'.parents = ∅ ∨ ∃ call, s.containing = some call ∧
        call'.scope = call.scope ∧ call'.parents ⊆ call.parents) →
      RouteInv s.scheduler.sessions routes.active containing :=
    fun hsub hc => h.routes.mono (fun _ _ _ hl => hl) hsub hc
  cases effect_of_step hstep with
  | rejected =>
    exact ⟨⟨h.indexed, h.workers⟩, h.scheduler,
      h.handles.mono (fun _ _ _ hl => hl) (Nat.le_succ _), h.routes, h.records⟩
  | admitted hok => exact h.admitted hg hok
  | taken hi hok => exact h.taken hi hok
  | @idled w _ _ hidle hok =>
    have hv := take_sessions_idle hok hidle
    have hinv := (h.scheduler.step (l := (.take, .took _)) trivial
      (map_output_eq_ok.mpr ⟨_, hok, rfl⟩)).1
    exact ⟨h.toHeld.effect (.idled (w := w) hidle hok) nofun, hinv, hv ▸ h.handles, hv ▸ h.routes,
      hv ▸ h.records⟩
  | began hi hok => exact h.began hi hok
  | published hi =>
    exact ⟨⟨h.indexed, h.workers.publish hi⟩, h.scheduler, h.handles, h.routes, h.records⟩
  | ended hi => exact h.ended hi
  | registered hi =>
    obtain ⟨a, ha, hs, -⟩ := h.workers.running _ _ hi
    exact ⟨⟨h.indexed, h.workers⟩, h.scheduler, h.handles,
      h.routes.push h.indexed (.inr ⟨a, ha, hs, rfl⟩), h.records⟩
  | rerouted _ _ _ hsub =>
    exact hcall (hro hsub fun call hc => .inr ⟨call, hc, rfl, Finset.Subset.refl _⟩) h.records
  | stale | repeated | exhausted => exact h
  | resumed hr hc =>
    exact hcall (hro (List.Subset.refl _) fun call hc => .inl (by cases hc; rfl))
      (RecordInv.toDrain h.records.fenced hr)
  | opened hr => exact hcall (h.routes.collect _ _) (h.records.advance (by simp) hr)
  | parentFailed =>
    exact hcall (hro (List.Subset.refl _) (by simp)) h.records.close
  | parentCanceled hcl =>
    have hah := h.records.ahead _ hcl (by simp)
    refine hcall (hro (PendingIORouteState.moveCanceled_active_subset _ _) fun call hc => ?_)
      (h.records.advance (by simp) hah)
    cases hc
    exact .inr ⟨_, hcl, rfl, Finset.erase_subset _ _⟩
  | fenced hcl =>
    have hah := h.records.ahead _ hcl (by simp)
    exact hcall (hro (List.Subset.refl _) fun call hc => .inl (by cases hc; rfl))
      (h.records.advance (by simp) hah)
  | revoked _ hok => exact h.revoked hok _
  | drained _ _ hr =>
    refine hcall (hro (List.Subset.refl _) (by simp)) ⟨fun sc record hl => ?_, by simp, by simp⟩
    rcases Finmap.lookup_of_insert hl with ⟨rfl, -⟩ | hl
    · exact h.records.fenced _ _ hr
    · exact h.records.fenced sc record hl
  | timedOut => exact hcall (hro (List.Subset.refl _) (by simp)) h.records.close

/-! ### After an acknowledgement -/

theorem drained_step (hstep : (system c n).step s l t)
    (hd : s.scheduler.sessions.Drained scope) : t.scheduler.sessions.Drained scope := by
  obtain ⟨op, out⟩ := l
  cases effect_of_step hstep with
  | admitted hok =>
    rw [(enqueue_sessions hok).2]
    exact ⟨hd.revoked, hd.active, hd.publishing⟩
  | taken _ hok =>
    obtain ⟨hj, p, hv⟩ := take_sessions_taken h.indexed hok
    simp only [setWorker, hv]
    exact hd.start h.indexed hj
  | idled hidle hok =>
    rw [take_sessions_idle hok hidle]
    exact hd
  | began hi hok =>
    obtain ⟨a, ha, -⟩ := h.workers.running _ _ hi
    simp only [setWorker, (beginCompletion_sessions hok ha).2]
    exact hd.finish h.indexed ha
  | ended => exact ⟨hd.revoked, hd.active, ids_removeSessionRequest hd.publishing⟩
  | revoked _ hok => exact hd.revoke (revokeSession_sessions hok).1
  | _ => exact hd

theorem contained (hd : s.scheduler.sessions.Drained scope) : Contained scope s where
  queued _ job hl hs := hd.not_live h.indexed (.inl ⟨job, hl, hs, rfl⟩)
  active _ a hl hs := hd.not_live h.indexed (.inr ⟨a, hl, hs, rfl⟩)
  running i job hi hs := by
    obtain ⟨a, ha, hsa, -⟩ := h.workers.running i job hi
    exact hd.not_live h.indexed (.inr ⟨a, ha, hsa.trans hs, rfl⟩)
  publishing i completion sent hi hs := by
    have hid := (h.workers.publishing i completion sent hi).2.2 scope hs
    simp [hd.publishing] at hid

theorem silent (hstep : (system c n).step s l t)
    (hd : s.scheduler.sessions.Drained scope) : Silent scope l := by
  obtain ⟨op, out⟩ := l
  have he := effect_of_step hstep
  constructor
  · rintro id p rfl
    cases he with
    | rejected => exact ⟨_, rfl⟩
    | admitted hok => exact absurd hd.revoked ((enqueue_sessions hok).1.notRevoked scope rfl)
    | rerouted hop => exact hop.elim
  · rintro completion rfl
    cases he with
    | published hi => exact (h.contained hd).publishing _ completion false hi
    | rerouted _ _ hpub => exact absurd rfl (hpub completion)

end

end RuntimeInv

/-- What an acknowledgement leaves on record. -/
def Recorded (s : RuntimeState n) (scope : SessionScope) (sequence : ℕ)
    (counts : SessionRevokeAckCounts) : Prop :=
  ∃ record, s.records.lookup scope = some record ∧ sequence ≤ record.sequence ∧
    (record.sequence = sequence → record.counts = counts ∧ record.complete = true)

namespace Recorded

variable {scope : SessionScope} {sequence : ℕ} {counts : SessionRevokeAckCounts}

variable {l : Op n × Output}

theorem step (h : Recorded s scope sequence counts) (hi : RuntimeInv s)
    (hstep : (system c n).step s l t) : Recorded t scope sequence counts := by
  obtain ⟨op, out⟩ := l
  obtain ⟨record, hr, hle, hsame⟩ := h
  cases effect_of_step hstep with
  | @revoked sc seq _ _ _ cnt hcl =>
    by_cases he : scope = sc
    · -- only a call with a higher sequence gets here
      subst he
      have hlt : record.sequence < seq := hi.records.ahead _ hcl (by simp) record hr
      exact ⟨⟨seq, cnt, false⟩, Finmap.lookup_insert s.records, by simp only; omega,
        fun hx => absurd hx (by simp only; omega)⟩
    · exact ⟨record, by rw [← hr]; exact Finmap.lookup_insert_of_ne _ he, hle, hsame⟩
  | @drained sc _ _ _ _ _ hr' =>
    by_cases he : scope = sc
    · subst he
      cases hr.symm.trans hr'
      exact ⟨{ record with complete := true }, Finmap.lookup_insert s.records, hle,
        fun hx => ⟨(hsame hx).1, rfl⟩⟩
    · exact ⟨record, by rw [← hr]; exact Finmap.lookup_insert_of_ne _ he, hle, hsame⟩
  | _ => exact ⟨record, hr, hle, hsame⟩

theorem repeats (h : Recorded s scope sequence counts) (hstep : (system c n).step s l t) :
    Repeats scope sequence counts s l t := by
  obtain ⟨op, out⟩ := l
  obtain ⟨record, hr, hle, hsame⟩ := h
  have hpe : perform c s op = some (out, t) := hstep
  constructor
  · rintro m rfl hm
    have hlt : m < record.sequence := by omega
    cases hc : s.containing with
    | some call => simp [perform, contain, hc] at hpe
    | none =>
      simp only [perform, contain, hc, hr, if_pos hlt] at hpe
      cases hpe
      exact ⟨rfl, rfl⟩
  · rintro rfl
    cases hc : s.containing with
    | some call => simp [perform, contain, hc] at hpe
    | none =>
      rcases Nat.lt_or_eq_of_le hle with hlt | heq
      · simp only [perform, contain, hc, hr, if_pos hlt, Option.some.injEq, Prod.mk.injEq] at hpe
        refine ⟨hpe.2.symm, fun hall => ?_, fun _ => hpe.1.symm⟩
        exact absurd (hall record hr) (by omega)
      · obtain ⟨hcou, hco⟩ := hsame heq.symm
        simp only [perform, contain, hc, hr, heq, lt_irrefl, if_false, if_true,
          hco, hcou, Option.some.injEq, Prod.mk.injEq] at hpe
        refine ⟨hpe.2.symm, fun _ => hpe.1.symm ▸ heq ▸ rfl, ?_⟩
        rintro ⟨record', hr', hlt⟩
        cases hr.symm.trans hr'
        omega

end Recorded

/-! ### Other scopes -/

namespace RuntimeInv

variable {disposition : SessionRevokeDisposition} {iteration : HashOrder} {scope : SessionScope}

/-- A step of the control thread that leaves the scheduler alone. -/
theorem spares_of_routes (h : RuntimeInv s) (hs : t.scheduler = s.scheduler)
    (hw : t.workers = s.workers) (hc : t.canceled = s.canceled)
    (hr : ∀ r ∈ s.routes.active, r.2.sessionScope ≠ some scope → r ∈ t.routes.active) :
    Spares scope s t where
  queued id job hl _ := by
    rw [hs]
    exact ⟨hl, h.scheduler.coherent.listed id job hl⟩
  active id a hl _ := by rw [hs, hl]
  workers := hw
  flags _ _ _ _ _ hm := hc ▸ hm
  routes := hr

/-- A revocation fires the flags of live jobs of its scope only. -/
theorem revoked_scope (h : RuntimeInv s) {scheduler}
    (hok : Scheduler.revokeSession iteration scope s.scheduler = .ok (disposition, scheduler))
    {handle} (hh : handle ∈ disposition.canceled) :
    ∃ id, s.scheduler.sessions.Live id (some scope) handle := by
  rcases (revokeSession_sessions hok).2 handle hh with
    ⟨id, hid, job, hl, rfl⟩ | ⟨id, hid | hid, a, hl, rfl⟩
  · obtain ⟨job', hl', hs⟩ := (h.indexed.queued scope id).mp hid
    cases hl.symm.trans hl'
    exact ⟨id, .inl ⟨job, hl, hs, rfl⟩⟩
  · obtain ⟨a', hl', hs⟩ := (h.indexed.active scope id).mp hid
    cases hl.symm.trans hl'
    exact ⟨id, .inr ⟨a, hl, hs, rfl⟩⟩
  · -- a publishing id is not active as long as nobody else holds it
    obtain ⟨i, completion, sent, hi, rfl, -⟩ := h.workers.published scope id hid
    exact absurd (Finmap.mem_of_lookup_eq_some hl) (h.workers.publishing i completion sent hi).2.1

theorem spares_revoked (h : RuntimeInv s) (ht : RuntimeInv t)
    (hok : Scheduler.revokeSession iteration scope s.scheduler = .ok (disposition, t.scheduler))
    (hw : t.workers = s.workers) (hc : t.canceled = s.canceled ∪ disposition.canceled.toFinset)
    (hr : t.routes = s.routes) : Spares scope s t where
  queued id job hl hs := by
    have hrev := (revokeSession_sessions hok).1
    have hl' : t.scheduler.queuedByRequest.lookup id = some job := by
      refine (hrev.lookup id).trans ?_
      rw [if_neg, ← hl]
      · rfl
      · intro hid
        obtain ⟨job', hj', hs'⟩ := (h.indexed.queued scope id).mp hid
        cases hl.symm.trans hj'
        exact hs hs'
    exact ⟨hl', ht.scheduler.coherent.listed id job hl'⟩
  active id a hl _ := by
    have hactive : t.scheduler.sessions.active = s.scheduler.sessions.active := by
      rw [(revokeSession_sessions hok).1.eq]
    exact (congrArg (Finmap.lookup id) hactive).trans hl
  workers := hw
  flags id sc handle hli hs hm := by
    rw [hc, Finset.mem_union, List.mem_toFinset] at hm
    rcases hm with hm | hm
    · exact hm
    · obtain ⟨id', hl'⟩ := h.revoked_scope hok hm
      obtain rfl := h.handles.owner hli hl'
      exact absurd (hli.unique h.indexed hl') hs
  routes r hmem _ := hr ▸ hmem

theorem spares (h : RuntimeInv s) (ht : RuntimeInv t) {l} (hstep : (system c n).step s l t)
    (hscope : callScope s l.1 = some scope) : Spares scope s t := by
  obtain ⟨op, out⟩ := l
  have hsame : ∀ r ∈ s.routes.active, r.2.sessionScope ≠ some scope → r ∈ s.routes.active :=
    fun r hr _ => hr
  cases effect_of_step hstep with
  | rejected | admitted | taken | idled | began | published | ended | registered => cases hscope
  | rerouted hop => cases op <;> first | exact hop.elim | cases hscope
  | stale | repeated | exhausted | resumed | opened | parentFailed | fenced | drained | timedOut =>
    exact h.spares_of_routes rfl rfl rfl hsame
  | parentCanceled hcl hmem =>
    simp only [callScope, hcl, Option.map_some, Option.some.injEq] at hscope
    subst hscope
    refine h.spares_of_routes rfl rfl rfl fun r hr hs => List.mem_filter.mpr ⟨hr, ?_⟩
    simp only [PendingIORouteState.ofParent, Bool.not_eq_true', decide_eq_false_iff_not, not_and]
    intro he
    exact absurd ((h.routes.pending _ hcl _ hmem).2 r hr he) hs
  | revoked hcl hok =>
    simp only [callScope, hcl, Option.map_some, Option.some.injEq] at hscope
    subst hscope
    exact h.spares_revoked ht hok rfl rfl rfl

end RuntimeInv

/-! ### Runs -/

/-- The invariant with what the records and the acknowledgements so far promise. -/
structure Promised (h : List (Op n × Output)) (s : RuntimeState n) : Prop extends
    RuntimeInv s where
  complete : ∀ scope record, s.records.lookup scope = some record → record.complete = true →
    s.scheduler.sessions.Drained scope
  drained : ∀ scope sequence counts, Acknowledged h scope sequence counts →
    s.scheduler.sessions.Drained scope
  recorded : ∀ scope sequence counts, Acknowledged h scope sequence counts →
    Recorded s scope sequence counts

namespace Promised

variable {h : List (Op n × Output)}

theorem init : Promised [] ({} : RuntimeState n) :=
  ⟨RuntimeInv.init, by simp, by simp [Acknowledged], by simp [Acknowledged]⟩

variable {l : Op n × Output}

theorem complete_step (hp : Promised h s) (hstep : (system c n).step s l t)
    (scope : SessionScope) (record : SessionRevokeRecord)
    (hr : t.records.lookup scope = some record) (hc : record.complete = true) :
    t.scheduler.sessions.Drained scope := by
  have hold : s.records.lookup scope = some record → t.scheduler.sessions.Drained scope :=
    fun hr => hp.toRuntimeInv.drained_step hstep (hp.complete scope record hr hc)
  obtain ⟨op, out⟩ := l
  cases effect_of_step hstep with
  | revoked =>
    rcases Finmap.lookup_of_insert hr with ⟨-, rfl⟩ | hr
    · cases hc
    · exact hold hr
  | drained _ hd hr' =>
    rcases Finmap.lookup_of_insert hr with ⟨rfl, -⟩ | hr
    · simp only [sessionDrained, decide_eq_true_eq] at hd
      exact ⟨hp.records.fenced _ _ hr', hd.1, hd.2⟩
    · exact hold hr
  | _ => exact hold hr

/-- A call that returns `Ok` leaves its scope drained and its counts on record. -/
theorem acknowledge (hp : Promised h s) {op scope sequence counts}
    (hstep : (system c n).step s (op, .returned scope sequence (.ok counts)) t) :
    t.scheduler.sessions.Drained scope ∧ Recorded t scope sequence counts := by
  obtain ⟨record, hr, hseq, hco, hc⟩ : ∃ record, t.records.lookup scope = some record ∧
      record.sequence = sequence ∧ record.counts = counts ∧ record.complete = true := by
    cases effect_of_step hstep with
    | rerouted _ hout => exact absurd rfl (hout scope sequence _)
    | repeated hr hc => exact ⟨_, hr, rfl, rfl, hc⟩
    | drained hcl _ hr =>
      obtain ⟨record', hr', hseq, hco⟩ := hp.records.drain _ _ _ hcl
      cases hr.symm.trans hr'
      exact ⟨_, Finmap.lookup_insert s.records, hseq, hco, rfl⟩
  exact ⟨hp.complete_step hstep scope record hr hc, record, hr, hseq.ge, fun _ => ⟨hco, hc⟩⟩

theorem step (hp : Promised h s) (hg : Unheld c s l.1) (hstep : (system c n).step s l t) :
    Promised (h ++ [l]) t := by
  have hack : ∀ scope sequence counts, Acknowledged (h ++ [l]) scope sequence counts →
      t.scheduler.sessions.Drained scope ∧ Recorded t scope sequence counts := by
    rintro scope sequence counts ⟨op, hm⟩
    rcases List.mem_append.mp hm with hm | hm
    · exact ⟨hp.toRuntimeInv.drained_step hstep (hp.drained _ _ _ ⟨op, hm⟩),
        (hp.recorded _ _ _ ⟨op, hm⟩).step hp.toRuntimeInv hstep⟩
    · cases List.mem_singleton.mp hm
      exact hp.acknowledge hstep
  exact ⟨hp.toRuntimeInv.step hg hstep, hp.complete_step hstep,
    fun scope sequence counts ha => (hack scope sequence counts ha).1,
    fun scope sequence counts ha => (hack scope sequence counts ha).2⟩

end Promised

end RedevPlugin.Runtime
