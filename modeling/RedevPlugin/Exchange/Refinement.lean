import RedevPlugin.Exchange.Projection

/-! Host and runtime refine the protocol of each request: every step of a thread
that leaves the generation alive is, for each request, a move of its protocol. -/

namespace RedevPlugin.Exchange

open Scheduler Transition RedevPlugin.Runtime RedevPlugin.Host ExchangeState
open Function (update update_self update_of_ne)
open Finmap (mem_of_lookup_eq_some lookup_insert lookup_insert_of_ne lookup_erase lookup_erase_ne
  mem_insert mem_erase)
open MainPhase (about idle)
open Option (some)
open Request (Move)

variable {n : ℕ} {limits : RuntimeLimits} {g : String} {s t : ExchangeState n}

/-! ### The flag about to be fired -/

namespace Refined

theorem firing_step (h : Refined s) {op out} (hs : Step limits g s op out t) :
    ∀ r handle, t.main = .firing r handle →
      ∀ w job, t.runtime.workers w = .running job → job.requestId = r →
        job.cancellation = handle := by
  intro r handle hm k job hk hid
  -- a worker that another step leaves running was running before
  have hke : ∀ {w : Fin n} {x : Worker}, (∀ job, x ≠ .running job) → s.main = .firing r handle →
      update s.runtime.workers w x k = .running job → job.cancellation = handle := by
    intro w x hx hma hk
    have hkw : k ≠ w := by
      rintro rfl
      rw [update_self] at hk
      exact hx job hk
    rw [update_of_ne hkw] at hk
    exact h.firing r handle hma k job hk hid
  cases hs with
  | cancelRunning _ _ hc =>
    cases hm
    rcases cancel_sessions hc with ⟨job, he, -⟩ | ⟨-, rfl, ⟨a, ha, he⟩ | ⟨-, hd⟩⟩
    · cases he
    · cases he
      obtain ⟨a', ha', -, hca⟩ := h.held.workers.running k job hk
      rw [hid] at ha'
      cases ha.symm.trans ha'
      exact hca.symm
    · rcases hd with hd | hd <;> cases hd
  | cancelQueued | cancelComplete | fired | routesCanceled | posted => cases hm
  | @took w _ runtime hr =>
    cases RuntimeState.take_effect hr with
    | @taken _ job' _ _ hok =>
      by_cases hkw : k = w
      · subst hkw
        have hjob : Worker.running job' = .running job := (update_self ..).symm.trans hk
        cases hjob
        -- a queued job is not one the main thread is cancelling
        obtain ⟨hj, -⟩ := take_sessions_taken h.held.indexed hok
        have hqu : (s.request r).queued = true := by
          simp [request, ← hid, mem_of_lookup_eq_some hj]
        have hma := ((h.sound r).queued hqu).1
        have hs : s.main = .firing r handle := hm
        simp [request, hs, about] at hma
      · have hk' : s.runtime.workers k = .running job := (update_of_ne hkw ..).symm.trans hk
        exact h.firing r handle hm k job hk' hid
    | idled => exact h.firing r handle hm k job hk hid
    | rerouted hop => cases hop
  | began _ hr =>
    cases RuntimeState.beginCompletion_effect (c := ExchangeState.config limits g) hr with
    | began => exact hke (by simp) hm hk
    | rerouted hop => cases hop
  | published | ended => exact hke (by simp) hm hk
  | enqueued _ _ hr | rejected _ _ hr =>
    have hwo := congrFun (RuntimeState.enqueue_frame hr).2 k
    exact h.firing r handle hm k job (hwo.symm.trans hk) hid
  | controlled hop hr =>
    rw [(control_routes hop hr).1] at hk
    exact h.firing r handle hm k job hk hid
  | resulted | acknowledged =>
    rw [deliver_rest] at hm hk
    exact h.firing r handle hm k job hk hid
  | _ => exact h.firing r handle hm k job hk hid

end Refined

/-! ### Moves -/

/-- The step is a move of the request, or none. -/
def Moves (s : ExchangeState n) (l : ExchangeOp n × ExchangeOutput) (t : ExchangeState n)
    (r : RequestId) : Prop :=
  ∃ e, sees r s l e ∧ Move r (s.request r) e (t.request r)

section

variable {l : ExchangeOp n × ExchangeOutput} {r : RequestId}

theorem Moves.other (h : Move r (s.request r) .other (t.request r)) : Moves s l t r :=
  ⟨.other, trivial, h⟩

theorem Moves.none (h : t.request r = s.request r) : Moves s l t r := .other (h ▸ .idle)

theorem Moves.about (id : RequestId) (hse : Move id (s.request id) .other (t.request id))
    (hot : id ≠ r → t.request r = s.request r) : Moves s l t r := by
  by_cases hr : id = r
  · exact .other (hr ▸ hse)
  · exact .none (hot hr)

/-- A step about one request that posts a frame about it. -/
theorem Moves.posted {u : ExchangeState n} {frame : RuntimeFrame} (id : RequestId)
    (hid : frame.about = id)
    (hse : Move id (s.request id) .other
      { u.request id with toHost := (u.request id).toHost ++ [frame] })
    (hot : id ≠ r → u.request r = s.request r) : Moves s l (u.post frame) r :=
  .about id (request_post_self u frame hid ▸ hse) fun hr =>
    (request_post_of_ne u frame (hid ▸ hr)).trans (hot hr)

/-- A step that may fire flags and may drop the queued job. -/
theorem Moves.flagged (keep : Bool) (ht : t.request r =
      { s.request r with queued := (s.request r).queued && keep, hand := t.hand r })
    (hh : t.hand r = s.hand r ∨ t.hand r = (s.hand r).map Hand.fire) : Moves s l t r :=
  .other (ht ▸ .revoked hh)

theorem Moves.positioned (h : Held s.runtime) {w p} (hp : p ≠ .starting)
    (hc : ∀ job request, s.runtime.workers w = .running job → p = .checked request →
      job.cancellation ∉ s.runtime.canceled)
    (ht : t.request r = { s.request r with hand := t.hand r })
    (hwo : t.runtime.workers = s.runtime.workers)
    (hcanceled : t.runtime.canceled = s.runtime.canceled)
    (hpos : t.positions = update s.positions w p) : Moves s l t r := by
  rcases hand_of_position h hwo hcanceled hpos r with hsame | ⟨job, hw, rfl, hs, hth⟩
  · exact .none (by rw [ht, hsame]; rfl)
  · refine .other ?_
    rw [ht, hth]
    exact .moved hs hp fun request he => by simpa using hc job request hw he

/-! ### Callers of the host -/

namespace Refined

variable {i : Invocation} {id parent : RequestId} {call : OpenCall} {disposition : CancelAck}
  {rest : List RuntimeFrame} {request : IORequest} {frame : FlightFrame} {rid : String}
  {flights : CompileFlights} {p : PluginInstanceId} {runtime : RuntimeState n} {c : RuntimeConfig}
  {scheduler : SchedulerState} {job : InvocationJob} {m : MainPhase} {handle : CancellationId}
  {w : Fin n} {out : ExchangeOutput} {completion : InvocationCompletion} {op : Runtime.Op n}

theorem request_compiling (threads : Table RequestId CompileThread) :
    ({ s with compiling := threads }).request r = { s.request r with thread := threads.lookup r } :=
  rfl

theorem request_flights (flights : CompileFlights) :
    ({ s with compileFlights := flights }).request r =
    { s.request r with flight := flights.lookup (artifactRequestIdOf r) } := rfl

theorem key_ne (hr : id ≠ r) : artifactRequestIdOf r ≠ artifactRequestIdOf id :=
  fun he => hr (artifactRequestIdOf_injective he).symm

theorem moves_refused (h : Refined s) (hid : i.requestId ∉ s.issued) :
    Moves s l { s with issued := s.issued.insert i.requestId i } r := by
  refine .about i.requestId ?_ fun hr => ?_
  · have hmo := Move.refused (r := i.requestId) (i := i)
      ((h.sound i.requestId).fresh (Finmap.lookup_eq_none.mpr hid))
    simp only [request, lookup_insert] at hmo ⊢
    exact hmo
  · simp only [request, lookup_insert_of_ne _ (Ne.symm hr)]
    rfl

theorem moves_opened (h : Refined s) (hid : i.requestId ∉ s.issued) :
    Moves s l { s with
      issued := s.issued.insert i.requestId i
      calls := s.calls.insert i.requestId ⟨i, .opened⟩
      pendingInvocations := addPendingInvocation s.pendingInvocations i
      compileFlights := s.compileFlights.insert (artifactRequestIdOf i.requestId)
        (newIntent i.requestId i.artifact) } r := by
  refine .about i.requestId ?_ fun hr => ?_
  · have hmo := Move.opened (r := i.requestId) (i := i)
      ((h.sound i.requestId).fresh (Finmap.lookup_eq_none.mpr hid))
    simp only [request, lookup_insert, Option.map_some] at hmo ⊢
    exact hmo
  · simp only [request, lookup_insert_of_ne _ (Ne.symm hr), lookup_insert_of_ne _ (key_ne hr)]
    rfl

theorem moves_written (h : Refined s) (hc : s.calls.lookup id = some ⟨i, .opened⟩) :
    Moves s l ((s.setPhase id ⟨i, .opened⟩ .waiting).write (.invoke i)) r := by
  have hid : i.requestId = id := h.requestId_of_call hc
  refine .about id ?_ fun hr => ?_
  · rw [request_write_self _ (.invoke i) (congrArg some hid), request_setPhase_self]
    exact .written (by simp [request, hc])
  · have hab : (HostFrame.invoke i).about ≠ some r := fun he =>
      hr (hid.symm.trans (some.inj he))
    rw [request_write_of_ne _ _ hab, request_setPhase_of_ne _ _ _ (Ne.symm hr)]

theorem moves_abandoned (h : Refined s) (hc : s.calls.lookup id = some ⟨i, .opened⟩) :
    Moves s l { s.unregister ⟨i, .opened⟩ with
      compileFlights := s.compileFlights.erase (artifactRequestIdOf id) } r := by
  have hid : i.requestId = id := h.requestId_of_call hc
  refine .about id ?_ fun hr => ?_
  · rw [request_flights (s.compileFlights.erase _), request_unregister_self _ hid, lookup_erase]
    exact .abandoned (by simp [request, hc])
  · rw [request_flights (s.compileFlights.erase _),
      request_unregister_of_ne _ (fun he => hr (he.trans hid).symm), lookup_erase_ne (key_ne hr)]
    rfl

theorem moves_canceled (hc : s.calls.lookup id = some call)
    (hp : call.phase = .waiting ∨ call.phase = .resulted) :
    Moves s l ((s.setPhase id call .canceling).write (.cancelInvoke id)) r := by
  refine .about id ?_ fun hr => ?_
  · rw [request_write_self _ (.cancelInvoke id) rfl, request_setPhase_self]
    exact .canceled (by simpa [request, hc] using hp)
  · have hab : (HostFrame.cancelInvoke id).about ≠ some r := fun he => hr (some.inj he)
    rw [request_write_of_ne _ _ hab, request_setPhase_of_ne _ _ _ (Ne.symm hr)]

theorem moves_reconciled (h : Refined s) (hc : s.calls.lookup id = some call)
    (hp : call.phase = .acknowledged disposition) :
    Moves s l { s.setPhase id call .reconciled with
      compileFlights := reconcileCompileFlightAfterCancelAck id disposition s.compileFlights }
      r := by
  refine .about id ?_ fun hr => ?_
  · have hfl : (reconcileCompileFlightAfterCancelAck id disposition s.compileFlights).lookup
        (artifactRequestIdOf id) = if disposition = .running then (s.request id).flight
          else (s.request id).flight.filter (·.registered) := by
      cases disposition with
      | running => rfl
      | queued | complete => exact lookup_removeUnregistered (h.sound id).flight
    rw [request_flights (reconcileCompileFlightAfterCancelAck ..), request_setPhase_self, hfl]
    exact .reconciled (by simp [request, hc, hp])
  · have hfl : (reconcileCompileFlightAfterCancelAck id disposition s.compileFlights).lookup
        (artifactRequestIdOf r) = s.compileFlights.lookup (artifactRequestIdOf r) := by
      unfold reconcileCompileFlightAfterCancelAck
      split_ifs
      · exact lookup_removeUnregistered_of_ne fun f hf he =>
          hr (he.symm.trans ((h.sound r).flight f hf))
      · rfl
    rw [request_flights (reconcileCompileFlightAfterCancelAck ..),
      request_setPhase_of_ne _ _ _ (Ne.symm hr), hfl]
    rfl

theorem moves_returned (h : Refined s) (hc : s.calls.lookup id = some call)
    (hp : call.phase = .resulted ∨ call.phase = .reconciled) :
    Moves s l (s.unregister call) r := by
  have hid := h.requestId_of_call hc
  refine .about id ?_ fun hr => request_unregister_of_ne _ fun he => hr (he.trans hid).symm
  rw [request_unregister_self _ hid]
  exact .returned (by simpa [request, hc] using hp)

/-! ### The host's read loop -/

theorem moves_resulted (h : Refined s) (ho : s.outbox = .result id :: rest) :
    Moves s l (({ s with
      outbox := rest
      compileFlights := removeUnregisteredCompileFlightIntent id s.compileFlights }).deliver
        id .waiting .resulted) r := by
  have ht := fun r => request_flights (s := { s with outbox := rest }) (r := r)
    (removeUnregisteredCompileFlightIntent id s.compileFlights)
  refine .about id ?_ fun hr => ?_
  · rw [(request_deliver (r := id) _ id .waiting .resulted).2, ht,
      lookup_removeUnregistered (h.sound id).flight]
    exact .resulted ((request_read ho).1 rfl)
  · rw [(request_deliver _ id .waiting .resulted).1 (Ne.symm hr), ht, (request_read ho).2 hr,
      lookup_removeUnregistered_of_ne fun f hf he => hr (he.symm.trans ((h.sound r).flight f hf))]
    rfl

theorem moves_acknowledged (ho : s.outbox = .cancelAck id disposition :: rest) :
    Moves s l ({ s with outbox := rest }.deliver id .canceling (.acknowledged disposition)) r := by
  refine .about id ?_ fun hr => ?_
  · rw [(request_deliver (r := id) _ id .canceling (.acknowledged disposition)).2]
    exact .acknowledged ((request_read ho).1 rfl)
  · rw [(request_deliver _ id .canceling (.acknowledged disposition)).1 (Ne.symm hr),
      (request_read ho).2 hr]

/-- The key a flight frame in the queue names is that of its parent. -/
theorem key_of_flight (h : Refined s)
    (hf : .flightRegister frame ∈ s.outbox ∨ .flightComplete frame ∈ s.outbox) :
    frame.artifactRequestId = artifactRequestIdOf frame.parentRequestId := by
  refine (h.sound frame.parentRequestId).frames frame (hf.imp ?_ ?_) <;>
    exact fun hm => List.mem_filter.mpr ⟨hm, by simp [RuntimeFrame.about]⟩

theorem key_of_handle (h : Refined s) (hf : .openHandle rid parent ∈ s.outbox) :
    rid = artifactRequestIdOf parent :=
  (h.sound parent).handles rid (List.mem_filter.mpr ⟨hf, by simp [RuntimeFrame.about]⟩)

/-- A frame that changes only the flight of the request it is about. -/
theorem moves_flight {frame} (ho : s.outbox = frame :: rest) {flight}
    (artifacts : List (String × RequestId))
    (hse : flights.lookup (artifactRequestIdOf frame.about) = flight)
    (hmo : Move frame.about (s.request frame.about) .other
      { ({ s with outbox := rest }).request frame.about with flight })
    (hot : ∀ key, key ≠ artifactRequestIdOf frame.about →
      flights.lookup key = s.compileFlights.lookup key) :
    Moves s l { s with outbox := rest, compileFlights := flights, artifacts } r := by
  have ht := fun r => request_flights (s := { s with outbox := rest }) (r := r) flights
  refine .about frame.about ?_ fun hr => ?_
  · subst hse
    exact hmo
  · refine (ht r).trans ?_
    rw [(request_read ho).2 hr, hot _ (key_ne hr)]
    rfl

theorem moves_flightRegistered (h : Refined s) (ho : s.outbox = .flightRegister frame :: rest)
    (hf : registerCompileFlight frame s.compileFlights = .ok flights) :
    Moves s l { s with outbox := rest, compileFlights := flights } r := by
  have hkey : frame.artifactRequestId = artifactRequestIdOf frame.parentRequestId :=
    h.key_of_flight (.inl (ho ▸ List.mem_cons_self))
  obtain ⟨flight, hl, rfl⟩ := registerCompileFlight_ok hf
  rw [hkey] at hl ⊢
  exact moves_flight ho _ (lookup_insert _) (.flightRegistered ((request_read ho).1 rfl) hl)
    fun _ => lookup_insert_of_ne _

theorem moves_flightCompleted (h : Refined s) (ho : s.outbox = .flightComplete frame :: rest)
    (hf : completeCompileFlight frame s.compileFlights = .ok flights) :
    Moves s l { s with outbox := rest, compileFlights := flights } r := by
  have hkey : frame.artifactRequestId = artifactRequestIdOf frame.parentRequestId :=
    h.key_of_flight (.inr (ho ▸ List.mem_cons_self))
  obtain ⟨flight, hl, -, rfl⟩ := completeCompileFlight_ok hf
  rw [hkey]
  exact moves_flight ho _ (lookup_erase _ _) (.flightCompleted ((request_read ho).1 rfl))
    fun _ => lookup_erase_ne

theorem moves_claimed (h : Refined s) (ho : s.outbox = .openHandle rid parent :: rest)
    (hf : claimCompileFlightArtifact rid parent s.compileFlights = .ok flights)
    (artifacts : List (String × RequestId)) :
    Moves s l { s with outbox := rest, compileFlights := flights, artifacts } r := by
  have hkey : rid = artifactRequestIdOf parent := h.key_of_handle (ho ▸ List.mem_cons_self)
  obtain ⟨flight, hl, -, -, -, rfl⟩ := claimCompileFlightArtifact_ok hf
  subst hkey
  exact moves_flight ho _ (lookup_insert _) (.claimed ((request_read ho).1 rfl) hl)
    fun _ => lookup_insert_of_ne _

/-! ### The runtime's main thread -/

theorem main_of_idle (hm : s.main = .idle) : (s.request r).main = .idle := by
  simp [request, hm, about]

variable {rest : List HostFrame}

theorem moves_enqueued (hm : s.main = .idle) (hi : s.inbox = .invoke i :: rest)
    (hr : s.runtime.enqueue c i.requestId p i.sessionScope = some (.enqueued none, runtime)) :
    Moves s l { s with runtime, inbox := rest } r := by
  cases RuntimeState.enqueue_effect hr with
  | rerouted hop => cases hop
  | @admitted _ _ _ scheduler hok =>
    obtain ⟨-, hv⟩ := enqueue_sessions hok
    have ht : ∀ r, ({ s with
        runtime := { s.runtime with
          scheduler, nextCancellation := s.runtime.nextCancellation + 1 }
        inbox := rest }).request r =
        { ({ s with inbox := rest }).request r with
          queued := r ∈ scheduler.sessions.queued } := fun _ => rfl
    refine .about i.requestId ?_ fun hid => ?_
    · have hqu : i.requestId ∈ scheduler.sessions.queued := by
        rw [hv]
        exact mem_insert.mpr (.inl rfl)
      rw [ht, decide_eq_true hqu]
      exact .enqueued (main_of_idle hm) ((request_input hi).1 rfl)
    · have hqu : r ∈ scheduler.sessions.queued ↔ r ∈ s.runtime.scheduler.sessions.queued := by
        rw [hv]
        exact mem_insert.trans (or_iff_right (Ne.symm hid))
      rw [ht, (request_input hi).2 (fun he => hid (some.inj he)), decide_eq_decide.mpr hqu]
      rfl

theorem moves_rejected (hi : s.inbox = .invoke i :: rest) {error : EnqueueError}
    (hr : s.runtime.enqueue c i.requestId p i.sessionScope =
      some (.enqueued (some error), runtime)) :
    Moves s l (({ s with runtime, inbox := rest }).post (.result i.requestId)) r := by
  cases RuntimeState.enqueue_effect hr with
  | rerouted hop => cases hop
  | rejected =>
    exact .posted _ rfl (.rejected ((request_input hi).1 rfl)) fun hr =>
      (request_input hi).2 fun he => hr (some.inj he)

theorem moves_cancelQueued (h : Refined s) (hm : s.main = .idle)
    (hi : s.inbox = .cancelInvoke id :: rest)
    (hc : Scheduler.cancel id s.runtime.scheduler = .ok (.queued job, scheduler)) :
    Moves s l { s with
      inbox := rest
      runtime := { s.runtime with
        scheduler, canceled := insert job.cancellation s.runtime.canceled }
      outbox := s.outbox ++ [.result job.requestId]
      main := .acknowledging id .queued } r := by
  rcases cancel_sessions hc with ⟨job', he, hj, hv⟩ | ⟨-, -, ⟨a, -, he⟩ | ⟨-, he | he⟩⟩
  swap; · cases he
  swap; · cases he
  swap; · cases he
  cases he
  have hid : job.requestId = id := h.held.indexed.key id job hj
  let u : ExchangeState n := { s with
    inbox := rest
    runtime := { s.runtime with scheduler, canceled := insert job.cancellation s.runtime.canceled }
    main := .acknowledging id .queued }
  have hha : u.hand r = s.hand r ∨ u.hand r = (s.hand r).map Hand.fire :=
    hand_of_canceled (s := s) (t := u) rfl rfl (Finset.subset_insert _ _) r
  have hu : u.request r = { ({ s with inbox := rest }).request r with
      queued := r ∈ scheduler.sessions.queued
      hand := u.hand r
      main := if id = r then .acknowledging id .queued else .idle } := by
    simp only [request, u, about, some.injEq]
  change Moves s l (u.post (.result job.requestId)) r
  by_cases hr : id = r
  · subst hr
    have hqu : (s.request id).queued = true := by
      simp [request, mem_of_lookup_eq_some hj]
    have hnone : s.hand id = none := ((h.sound id).queued hqu).2
    have hsame : u.hand id = s.hand id := by
      rcases hha with he | he
      · exact he
      · rw [he, hnone, Option.map_none]
    have hg : id ∉ scheduler.sessions.queued := by
      rw [hv]
      exact fun hmem => (mem_erase.mp hmem).1 rfl
    refine .other ?_
    rw [request_post_self u (.result job.requestId) hid, hu, hsame, if_pos rfl,
      decide_eq_false hg, hid]
    exact .cancelQueued (main_of_idle hm) ((request_input hi).1 rfl) hqu
  · have hk : r ∈ scheduler.sessions.queued ↔ r ∈ s.runtime.scheduler.sessions.queued := by
      rw [hv]
      exact mem_erase.trans (and_iff_right (Ne.symm hr))
    have hpo := request_post_of_ne u (.result job.requestId) (r := r) fun he => hr (hid ▸ he)
    refine .flagged true ?_ ?_
    · rw [hpo, hu, (request_input hi).2 (fun he => hr (some.inj he)), if_neg hr,
        decide_eq_decide.mpr hk, ← main_of_idle (r := r) hm, Bool.and_true]
      rfl
    · exact hha

/-- The main thread takes a cancellation up without touching the scheduler. -/
theorem moves_canceling (hi : s.inbox = .cancelInvoke id :: rest)
    (hm : s.main = .idle) (hab : m.about = some id)
    (hmo : Move id (s.request id) .other { ({ s with inbox := rest }).request id with main := m }) :
    Moves s l { s with inbox := rest, main := m } r := by
  refine .about id ?_ fun hr => ?_
  · simp only [request, hab, if_true] at hmo ⊢
    exact hmo
  · have hne : m.about ≠ some r := fun he => hr (some.inj (hab.symm.trans he))
    have hma := main_of_idle (r := r) hm
    rw [← (request_input hi).2 (fun he => hr (some.inj he))] at hma ⊢
    simp only [request, if_neg hne] at hma ⊢
    rw [hma]
    rfl

theorem moves_cancelRunning (h : Refined s) (hm : s.main = .idle)
    (hi : s.inbox = .cancelInvoke id :: rest)
    (hc : Scheduler.cancel id s.runtime.scheduler = .ok (.running handle, scheduler)) :
    Moves s l { s with
      inbox := rest, runtime := { s.runtime with scheduler }, main := .firing id handle } r := by
  rcases cancel_sessions hc with ⟨job, he, -⟩ | ⟨-, rfl, ⟨a, ha, -⟩ | ⟨-, he | he⟩⟩
  · cases he
  · obtain ⟨w, job, hw, hid⟩ := h.held.workers.active id (mem_of_lookup_eq_some ha)
    have hha := hand_running h.held hw
    rw [hid] at hha
    exact moves_canceling hi hm (m := .firing id handle) rfl
      (.cancelRunning (main_of_idle hm) ((request_input hi).1 rfl) hha)
  · cases he
  · cases he

theorem moves_cancelComplete (h : Refined s) (hm : s.main = .idle) {disposition}
    (hi : s.inbox = .cancelInvoke id :: rest)
    (hd : disposition = .complete ∨ disposition = .missing)
    (hc : Scheduler.cancel id s.runtime.scheduler = .ok (disposition, scheduler)) :
    Moves s l { s with
      inbox := rest, runtime := { s.runtime with scheduler }
      main := .acknowledging id .complete } r := by
  rcases cancel_sessions hc with ⟨job, rfl, -⟩ | ⟨hq, rfl, ⟨a, -, rfl⟩ | ⟨hactive, -⟩⟩
  · rcases hd with hd | hd <;> cases hd
  · rcases hd with hd | hd <;> cases hd
  · refine moves_canceling hi hm (m := .acknowledging id .complete) rfl
      (.cancelComplete (main_of_idle hm) ((request_input hi).1 rfl) (decide_eq_false hq)
        fun position fired hh => hactive ?_)
    -- a running job is active
    obtain ⟨w, hw⟩ := exists_of_hand hh
    have hid := requestId_of_handOf hw
    cases hwo : s.runtime.workers w with
    | idle | publishing => simp [handOf, hwo] at hw
    | running job =>
      rw [hwo] at hid
      obtain ⟨a, ha, -⟩ := h.held.workers.running w job hwo
      cases hid
      exact mem_of_lookup_eq_some ha

theorem moves_fired (h : Refined s) (hm : s.main = .firing id handle) :
    Moves s (.fire, l.2) { s with
      runtime := { s.runtime with canceled := insert handle s.runtime.canceled }
      main := .cancelingRoutes id } r := by
  let u : ExchangeState n := { s with
    runtime := { s.runtime with canceled := insert handle s.runtime.canceled }
    main := .cancelingRoutes id }
  by_cases hr : id = r
  · subst hr
    have hha : u.hand id = (s.hand id).map Hand.fire := by
      refine hand_of_fired rfl rfl fun w job hw hid => ?_
      rw [h.firing id handle hm w job hw hid]
      exact Finset.mem_insert_self _ _
    have hu : u.request id =
        { s.request id with main := .cancelingRoutes id, hand := (s.hand id).map Hand.fire } := by
      rw [← hha]
      simp only [request, u, about, if_true]
    have hma : (s.request id).main = .firing id handle := by
      simp [request, hm, about]
    refine ⟨.fired, rfl, ?_⟩
    rw [hu]
    exact .fired hma
  · have hu : u.request r = { s.request r with hand := u.hand r } := by
      simp only [request, u, hm, about, some.injEq, if_neg hr]
    refine .flagged true ?_ (hand_of_canceled (s := s) (t := u) rfl rfl
      (Finset.subset_insert _ _) r)
    rw [hu, Bool.and_true]

theorem request_main (hm : s.main.about = some id) (hab : m.about = some id ∨ m = .idle) :
    (id = r → ({ s with main := m }).request r = { s.request r with main := m }) ∧
    (id ≠ r → ({ s with main := m }).request r = s.request r) := by
  refine ⟨fun hr => ?_, fun hr => ?_⟩
  · have hse : (if m.about = some r then m else .idle) = m := by
      rcases hab with he | rfl
      · rw [he, hr, if_pos rfl]
      · exact ite_self _
    simp only [request, hse]
    rfl
  · have hne : s.main.about ≠ some r := fun he => hr (some.inj (hm.symm.trans he))
    have hidle : (if m.about = some r then m else .idle) = idle := by
      rcases hab with he | rfl
      · exact if_neg fun he' => hr (some.inj (he.symm.trans he'))
      · exact ite_self _
    simp only [request, hidle, if_neg hne]
    rfl

theorem moves_routesCanceled (hm : s.main = .cancelingRoutes id) (routes : PendingIORouteState) :
    Moves s l { s with
      runtime := { s.runtime with routes }, main := .acknowledging id .running } r := by
  have hab : s.main.about = some id := by rw [hm]; rfl
  have hma := fun r => request_main (r := r) (m := .acknowledging id .running) hab (.inl rfl)
  refine .about id ?_ (hma r).2
  change Move id _ _ (({ s with main := .acknowledging id .running }).request id)
  rw [(hma id).1 rfl]
  exact .routesCanceled (by simp [request, hm, about])

theorem moves_posted (hm : s.main = .acknowledging id disposition) :
    Moves s l (({ s with main := .idle }).post (.cancelAck id disposition)) r := by
  have hab : s.main.about = some id := by rw [hm]; rfl
  refine .posted id rfl ?_ (request_main hab (.inr rfl)).2
  exact .posted (by simp [request, hm, about])

/-! ### Workers -/

/-- A worker takes another state; a request that it had neither before nor after
is in the same hand. -/
theorem hand_of_update {x} (hwo : t.runtime.workers = update s.runtime.workers w x)
    (hpos : ∀ k, k ≠ w → t.positions k = s.positions k)
    (hcanceled : t.runtime.canceled = s.runtime.canceled)
    (hs : (s.runtime.workers w).requestId ≠ some r) (ht : x.requestId ≠ some r) :
    t.hand r = s.hand r := by
  refine hand_of_worker (w := w) (fun k hk => ?_) hs ?_
  · exact handOf_congr (by rw [hwo, update_of_ne hk]) (hpos k hk) hcanceled
  · rwa [hwo, update_self]

section

variable (hpos : t.positions = update s.positions w .starting)
  (hcanceled : t.runtime.canceled = s.runtime.canceled)
  (hreq : t.request r = { s.request r with
    queued := r ∈ t.runtime.scheduler.sessions.queued
    hand := t.hand r }) (hidle : s.runtime.workers w = .idle)

include hpos hcanceled hreq hidle

theorem moves_took (ht : Held t.runtime)
    (hj : s.runtime.scheduler.sessions.queued.lookup job.requestId = some job)
    (hqu : t.runtime.scheduler.sessions.queued =
      s.runtime.scheduler.sessions.queued.erase job.requestId)
    (hwo : t.runtime.workers = update s.runtime.workers w (.running job)) :
    Moves s l t r := by
  by_cases hr : job.requestId = r
  · subst hr
    have hw : t.runtime.workers w = .running job := by rw [hwo, update_self]
    have hha := hand_running ht hw
    rw [hpos, update_self] at hha
    have hg : job.requestId ∉ t.runtime.scheduler.sessions.queued := by
      rw [hqu]
      exact fun hmem => (mem_erase.mp hmem).1 rfl
    refine .other ?_
    rw [hreq, hha, decide_eq_false hg]
    exact .took (by simp [request, mem_of_lookup_eq_some hj])
  · have hke : r ∈ t.runtime.scheduler.sessions.queued ↔
        r ∈ s.runtime.scheduler.sessions.queued := by
      rw [hqu]
      exact mem_erase.trans (and_iff_right (Ne.symm hr))
    have hha : t.hand r = s.hand r := by
      refine hand_of_update hwo (fun k hk => by rw [hpos, update_of_ne hk])
        hcanceled (by simp [hidle, Worker.requestId]) ?_
      exact fun he => hr (some.inj he)
    refine .none ?_
    rw [hreq, hha, decide_eq_decide.mpr hke]
    rfl

/-- A worker that finds nothing to take. -/
theorem moves_idled (hse : t.runtime.scheduler.sessions = s.runtime.scheduler.sessions)
    (hwo : t.runtime.workers = s.runtime.workers) : Moves s l t r := by
  have hha : t.hand r = s.hand r := by
    refine hand_of_worker (w := w) (fun k hk => ?_) (by simp [hidle, Worker.requestId])
      (by simp [hwo, hidle, Worker.requestId])
    exact handOf_congr (by rw [hwo]) (by rw [hpos, update_of_ne hk]) hcanceled
  refine .none ?_
  rw [hreq, hha, hse]
  rfl

end

section

variable (h : Refined s)

include h

/-- A worker with a job goes to another position: its own request is seen there. -/
theorem hand_setPosition (p : Position) (hw : s.runtime.workers w = .running job) :
    (s.setPosition w p).hand job.requestId =
        some (.running p (job.cancellation ∈ s.runtime.canceled)) ∧
      ∀ r, job.requestId ≠ r → (s.setPosition w p).hand r = s.hand r := by
  have hne : ∀ r, job.requestId ≠ r → (s.runtime.workers w).requestId ≠ some r := by
    intro r hr he
    rw [hw] at he
    exact hr (some.inj he)
  refine ⟨?_, fun r hr => ?_⟩
  · have hha := hand_running (s := s.setPosition w p) h.held hw
    rwa [setPosition_self] at hha
  · exact hand_of_worker (w := w)
      (fun k hk => handOf_congr rfl (setPosition_of_ne s p hk) rfl) (hne r hr) (hne r hr)

theorem moves_led (artifact : ArtifactRequest) (hw : s.runtime.workers w = .running job)
    (hp : s.positions w = .starting) :
    Moves s l (({ s with compiling := s.compiling.insert job.requestId .loading }.setPosition w
      .compiling).post (.flightRegister (compileFlightRegisterFrame job.requestId artifact)))
      r := by
  have hu : ∀ r, ({ s with compiling := s.compiling.insert job.requestId .loading }.setPosition w
      .compiling).request r = { s.request r with
        thread := (s.compiling.insert job.requestId .loading).lookup r
        hand := (s.setPosition w .compiling).hand r } := fun _ => rfl
  obtain ⟨hse, hot⟩ := h.hand_setPosition .compiling hw
  have hs := hand_running h.held hw
  rw [hp] at hs
  refine .posted job.requestId rfl ?_ fun hr => ?_
  · rw [hu, hse, lookup_insert]
    exact .led hs
  · rw [hu, lookup_insert_of_ne _ (Ne.symm hr), hot r hr]
    rfl

theorem moves_sent (hw : s.runtime.workers w = .running job)
    (hp : s.positions w = .checked request) :
    Moves s l ((s.setPosition w (.waiting request)).post (.io job.requestId request)) r := by
  have hu : ∀ r, (s.setPosition w (.waiting request)).request r =
      { s.request r with hand := (s.setPosition w (.waiting request)).hand r } := fun _ => rfl
  obtain ⟨hse, hot⟩ := h.hand_setPosition (.waiting request) hw
  have hs := hand_running h.held hw
  rw [hp] at hs
  refine .posted job.requestId rfl ?_ fun hr => ?_
  · rw [hu, hse]
    exact .sent hs
  · rw [hu, hot r hr]
    rfl

theorem moves_began (ht : Held t.runtime) (hw : s.runtime.workers w = .running job)
    (hid : completion.requestId = job.requestId)
    (hsu : completion.suppressResponse =
      job.sessionScope.any (fun scope => scope ∈ s.runtime.scheduler.revokedSessions))
    (hwo : t.runtime.workers = update s.runtime.workers w (.publishing completion false))
    (hpos : t.positions = s.positions) (hcanceled : t.runtime.canceled = s.runtime.canceled)
    (hreq : t.request r = { s.request r with hand := t.hand r }) :
    Moves s (.beginCompletion w, out) t r := by
  by_cases hr : job.requestId = r
  · have htw : t.runtime.workers w = .publishing completion false := by
      rw [hwo, update_self]
    have hha := hand_publishing ht htw
    rw [hid, hr] at hha
    refine ⟨.began completion.suppressResponse, ⟨w, job, rfl, hw, hr, hsu⟩, ?_⟩
    rw [hreq, hha]
    exact .began (hr ▸ hand_running h.held hw)
  · refine .none ?_
    rw [hreq, hand_of_update hwo (fun k _ => by rw [hpos]) hcanceled
      (by rw [hw]; exact fun he => hr (some.inj he))
      (fun he => hr (hid.symm.trans (some.inj he)))]
    rfl

theorem moves_published (hw : s.runtime.workers w = .publishing completion false)
    (hc : completion.suppressResponse = false) :
    Moves s l (({ s with runtime := s.runtime.setWorker w (.publishing completion true) }).post
      (.result completion.requestId)) r := by
  let u : ExchangeState n :=
    { s with runtime := s.runtime.setWorker w (.publishing completion true) }
  have hu : ∀ r, u.request r = { s.request r with hand := u.hand r } := fun _ => rfl
  have hheld : Held u.runtime := ⟨h.held.indexed, h.held.workers.publish hw⟩
  refine .posted (u := u) completion.requestId rfl ?_ fun hr => ?_
  · have huw : u.runtime.workers w = .publishing completion true := update_self ..
    have hs := hand_publishing h.held hw
    rw [hc] at hs
    rw [hu, hand_publishing hheld huw, hc]
    exact .published hs
  · have hha : u.hand r = s.hand r :=
      hand_of_update (s := s) (t := u) rfl (fun _ _ => rfl) rfl
        (by rw [hw]; exact fun he => hr (some.inj he)) (fun he => hr (some.inj he))
    rw [hu, hha]
    rfl

theorem moves_ended {sent} (hw : s.runtime.workers w = .publishing completion sent)
    (hs : sent = true ∨ completion.suppressResponse = true)
    (hwo : t.runtime.workers = update s.runtime.workers w .idle) (hpos : t.positions = s.positions)
    (hcanceled : t.runtime.canceled = s.runtime.canceled)
    (hreq : t.request r = { s.request r with hand := t.hand r }) : Moves s l t r := by
  by_cases hr : completion.requestId = r
  · subst hr
    have hnone : t.hand completion.requestId = none := by
      refine hand_eq_none fun k hk => ?_
      by_cases hkw : k = w
      · subst hkw
        rw [hwo, update_self] at hk
        cases hk
      · rw [hwo, update_of_ne hkw] at hk
        exact hkw (h.held.workers.once k w _ hk (by rw [hw]; rfl))
    refine .other ?_
    rw [hreq, hnone]
    exact .ended (hand_publishing h.held hw) hs
  · refine .none ?_
    rw [hreq, hand_of_update hwo (fun k _ => by rw [hpos]) hcanceled
      (by rw [hw]; exact fun he => hr (some.inj he)) (by simp [Worker.requestId])]
    rfl

end

/-! ### Compile threads and the control thread -/

theorem moves_artifactLoaded (hi : s.inbox = .artifact rid parent :: rest)
    (hc : s.compiling.lookup parent = some .requested) :
    Moves s l { s with inbox := rest, compiling := s.compiling.insert parent .loaded } r := by
  have hin : ∀ r, ({ s with inbox := rest }).request r = s.request r := fun _ =>
    (request_input hi).2 (by simp [HostFrame.about])
  have ht := fun r => request_compiling (s := { s with inbox := rest }) (r := r)
    (s.compiling.insert parent .loaded)
  refine .about parent ?_ fun hr => ?_
  · rw [ht, hin, lookup_insert]
    exact .artifactLoaded hc
  · rw [ht, hin, lookup_insert_of_ne _ (Ne.symm hr)]
    rfl

theorem moves_artifactRequested (hc : s.compiling.lookup id = some .loading) :
    Moves s l (({ s with compiling := s.compiling.insert id .requested }).post
      (.openHandle (artifactRequestIdOf id) id)) r := by
  refine .posted id rfl ?_ fun hr => ?_
  · rw [request_compiling (s.compiling.insert ..), lookup_insert]
    exact .artifactRequested hc
  · rw [request_compiling (s.compiling.insert ..), lookup_insert_of_ne _ (Ne.symm hr)]
    rfl

theorem moves_flightEnded {thread : CompileThread} (artifact : ArtifactRequest)
    (hc : s.compiling.lookup id = some thread) :
    Moves s l (({ s with compiling := s.compiling.erase id }).post
      (.flightComplete (compileFlightCompleteFrame id artifact))) r := by
  refine .posted id rfl ?_ fun hr => ?_
  · rw [request_compiling (s.compiling.erase _), lookup_erase]
    exact .flightEnded hc
  · rw [request_compiling (s.compiling.erase _), lookup_erase_ne (Ne.symm hr)]
    rfl

/-- The control thread admits nothing and takes no flag back. -/
theorem control_frame {out} (hop : isControl op = true)
    (hr : Runtime.perform c s.runtime op = some (out, runtime)) :
    runtime.workers = s.runtime.workers ∧ s.runtime.canceled ⊆ runtime.canceled ∧
      ∀ r, r ∈ runtime.scheduler.sessions.queued → r ∈ s.runtime.scheduler.sessions.queued := by
  have he : Effect c s.runtime op out runtime := effect_of_step (l := (op, out)) hr
  cases he with
  | rejected | admitted | taken | idled | began | published | ended | registered => cases hop
  | rerouted hop' => cases op <;> simp [isControl, Op.routing] at hop hop'
  | revoked _ hok =>
    obtain ⟨hrev, -⟩ := revokeSession_sessions hok
    refine ⟨rfl, Finset.subset_union_left, fun r hr => ?_⟩
    obtain ⟨job, hj⟩ := Finmap.mem_iff.mp hr
    rw [hrev.lookup] at hj
    split_ifs at hj
    exact mem_of_lookup_eq_some hj
  | _ => exact ⟨rfl, Finset.Subset.refl _, fun _ hr => hr⟩

theorem moves_controlled {out} (hop : isControl op = true)
    (hr : Runtime.perform c s.runtime op = some (out, runtime)) :
    Moves s l { s with runtime } r := by
  obtain ⟨hwo, hcanceled, hqu⟩ := control_frame hop hr
  refine .flagged (decide (r ∈ runtime.scheduler.sessions.queued)) ?_
    (hand_of_canceled (s := s) (t := { s with runtime }) hwo rfl hcanceled r)
  have hand : ((s.request r).queued && decide (r ∈ runtime.scheduler.sessions.queued)) =
      decide (r ∈ runtime.scheduler.sessions.queued) := by
    by_cases hmem : r ∈ runtime.scheduler.sessions.queued
    · simp [request, hmem, hqu r hmem]
    · simp [hmem]
  rw [hand]
  rfl

/-! ### All steps -/

theorem moves (h : Refined s) {op} (hs : Step limits g s op out t) (he : t.ended = false)
    (r : RequestId) : Moves s (op, out) t r := by
  have ht : Held t.runtime := h.held_step hs
  cases hs with
  | refused _ hid => exact h.moves_refused hid
  | opened _ hid => exact h.moves_opened hid
  | written hc => exact h.moves_written hc
  | abandoned hc => exact h.moves_abandoned hc
  | canceled hc hp => exact moves_canceled hc hp
  | reconciled hc => exact h.moves_reconciled hc rfl
  | returned hc hp => exact h.moves_returned hc hp
  | violated | failed => cases he
  | served ho => exact .about _ (.served ((request_read ho).1 rfl)) (request_read ho).2
  | resulted ho => exact h.moves_resulted ho
  | acknowledged ho => exact moves_acknowledged ho
  | flightRegistered ho hf => exact h.moves_flightRegistered ho hf
  | flightCompleted ho hf => exact h.moves_flightCompleted ho hf
  | claimed ho hf => exact h.moves_claimed ho hf _
  | answered | artifactOpened =>
    refine .none ?_
    rw [request_write_of_ne _ _ (by simp [HostFrame.about])]
    rfl
  | enqueued hm hi hr => exact moves_enqueued hm hi hr
  | rejected _ hi hr => exact moves_rejected hi hr
  | cancelQueued hm hi hc => exact h.moves_cancelQueued hm hi hc
  | cancelRunning hm hi hc => exact h.moves_cancelRunning hm hi hc
  | cancelComplete hm hi hd hc => exact h.moves_cancelComplete hm hi hd hc
  | consumed _ hi => exact .none ((request_input hi).2 (by simp [HostFrame.about]))
  | artifactLoaded _ hi _ hc => exact moves_artifactLoaded hi hc
  | fired hm => exact h.moves_fired (l := (.fire, .done)) hm
  | routesCanceled hm => exact moves_routesCanceled hm _
  | posted hm => exact moves_posted hm
  | took hr =>
    obtain ⟨hidle, -⟩ := RuntimeState.take_frame hr
    cases RuntimeState.take_effect hr with
    | rerouted hop => cases hop
    | idled hnot hok =>
      exact moves_idled rfl rfl rfl hidle (take_sessions_idle hok hnot) rfl
    | taken _ hok =>
      obtain ⟨hj, p, hv⟩ := take_sessions_taken h.held.indexed hok
      exact moves_took rfl rfl rfl hidle ht hj (congrArg SessionView.queued hv) rfl
  | led hw hp => exact h.moves_led _ hw hp
  | compiled | registered | checkFailed | checkCanceled | resumed =>
    exact .positioned h.held (by simp) (by simp) rfl rfl rfl rfl
  | checkPassed hw _ hc =>
    refine .positioned h.held (by simp) (fun job request hw' _ => ?_) rfl rfl rfl rfl
    rw [hw] at hw'
    cases hw'
    exact hc
  | sent hw hp => exact h.moves_sent hw hp
  | began _ hr =>
    cases RuntimeState.beginCompletion_effect (c := ExchangeState.config limits g) hr with
    | rerouted hop => cases hop
    | began hw hok =>
      obtain ⟨a, ha, hscope, -⟩ := h.held.workers.running _ _ hw
      obtain ⟨hc, hv⟩ := beginCompletion_sessions hok ha
      have hqu := congrArg SessionView.queued hv
      refine h.moves_began ht hw (by rw [hc]) (by rw [hc, hscope]; rfl) rfl rfl rfl ?_
      simp only [request, RuntimeState.setWorker, hqu]
      rfl
  | published hw hc => exact h.moves_published hw hc
  | ended hw hsent => exact h.moves_ended hw hsent rfl rfl rfl rfl
  | artifactRequested hc => exact moves_artifactRequested hc
  | flightEnded hc => exact moves_flightEnded _ hc
  | controlled hop hr => exact moves_controlled hop hr
  | slotReleased | unregistered => exact .none rfl

/-- A step that leaves the generation alive keeps the invariant. -/
theorem step (h : Refined s) {op} (hs : Step limits g s op out t) (he : t.ended = false) :
    Refined t where
  held := h.held_step hs
  issued := h.issued_step hs
  calls := h.calls_step hs
  flights := h.flights_step hs
  firing := h.firing_step hs
  sound r := by
    obtain ⟨e, -, hm⟩ := h.moves hs he r
    exact (h.sound r).move hm

end Refined

end

/-- Host and runtime refine the protocol of every request. -/
theorem exchange_refines (limits : RuntimeLimits) (g : String) :
    Simulation (exchange limits g) Request.protocol (fun r s => s.request r) sees
      (fun s => s.ended = false) Refined where
  init s hs := by
    subst hs
    exact ⟨Refined.init, request_init⟩
  running s l t hs := (ExchangeState.perform_step hs).1
  step s l t h hs he := ⟨h.step (step_of_exchange hs) he, h.moves (step_of_exchange hs) he⟩

/-- Whatever host and runtime do, each request follows its protocol until the end. -/
theorem requests_follow_protocol (limits : RuntimeLimits) (g : String) {tr}
    (hr : (exchange limits g).Run {} tr) (he : (last {} tr).ended = false) (r : RequestId) :
    ∃ tr', (Request.protocol r).Run {} tr' ∧ states {} tr' = (states {} tr).map (·.request r) := by
  have h := (exchange_refines limits g).exists_run r Refined.init hr he
  rwa [request_init] at h

theorem requests_follow_protocol_started :
    ∃ tr', (Request.protocol "a").Run {} tr' ∧ states {} tr' =
      (states {} (exchangeRun oneWorker "g" (startOps none))).map (·.request "a") :=
  requests_follow_protocol oneWorker "g" (System.run_trace _ _ _ _) rfl "a"

end RedevPlugin.Exchange
