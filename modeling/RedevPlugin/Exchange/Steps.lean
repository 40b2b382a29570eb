import RedevPlugin.Exchange.System
import RedevPlugin.Runtime.Steps

/-! What a step of host and runtime can do: one case for each way a thread can
move, with the checks it passed and the state it leaves. -/

namespace RedevPlugin.Exchange

open Scheduler Transition RedevPlugin.Runtime RedevPlugin.Host
open ExchangeState (config)

variable {n : ℕ} {limits : RuntimeLimits} {g : String} {s t : ExchangeState n}

/-- The operations of the control thread. -/
def isControl : Runtime.Op n → Bool
  | .contain .. | .cancelParent _ | .fence | .revokeSession _ | .drained | .drainTimeout => true
  | _ => false

inductive Step (limits : RuntimeLimits) (g : String) (s : ExchangeState n) :
    ExchangeOp n → ExchangeOutput → ExchangeState n → Prop
  | refused {inv i message} (hi : i = { inv with invocationId := Text.trim inv.invocationId })
      (hid : i.requestId ∉ s.issued) :
      Step limits g s (.openCall inv) (.refused message)
        { s with issued := s.issued.insert i.requestId i }
  | opened {inv i} (hi : i = { inv with invocationId := Text.trim inv.invocationId })
      (hid : i.requestId ∉ s.issued)
      (hpending : i.prewarm = false → i.invocationId ∉ s.pendingInvocations) :
      Step limits g s (.openCall inv) .done
        { s with
          issued := s.issued.insert i.requestId i
          calls := s.calls.insert i.requestId ⟨i, .opened⟩
          pendingInvocations := ExchangeState.addPendingInvocation s.pendingInvocations i
          compileFlights := s.compileFlights.insert (artifactRequestIdOf i.requestId)
            (newIntent i.requestId i.artifact) }
  | written {id i} (hc : s.calls.lookup id = some ⟨i, .opened⟩) :
      Step limits g s (.writeCall id) .done
        ((s.setPhase id ⟨i, .opened⟩ .waiting).write (.invoke i))
  | abandoned {id i} (hc : s.calls.lookup id = some ⟨i, .opened⟩) :
      Step limits g s (.abandonCall id) .done
        { s.unregister ⟨i, .opened⟩ with
          compileFlights := s.compileFlights.erase (artifactRequestIdOf id) }
  | canceled {id call} (hc : s.calls.lookup id = some call)
      (hp : call.phase = .waiting ∨ call.phase = .resulted) :
      Step limits g s (.cancelCall id) .done
        ((s.setPhase id call .canceling).write (.cancelInvoke id))
  | reconciled {id i disposition} (hc : s.calls.lookup id = some ⟨i, .acknowledged disposition⟩) :
      Step limits g s (.reconcile id) .done
        { s.setPhase id ⟨i, .acknowledged disposition⟩ .reconciled with
          compileFlights := reconcileCompileFlightAfterCancelAck id disposition s.compileFlights }
  | returned {id call} (hc : s.calls.lookup id = some call)
      (hp : call.phase = .resulted ∨ call.phase = .reconciled) :
      Step limits g s (.returnCall id) .done (s.unregister call)
  | violated {frame violation rest} (ho : s.outbox = frame :: rest)
      (hv : { s with outbox := rest }.accept frame = .error violation) :
      Step limits g s .readFrame (.violated frame violation) s.fail
  | served {parent request rest} (ho : s.outbox = .io parent request :: rest)
      (hd : dispatchRuntimeIOFrame s.pendingInvocations s.serving.length n request = none) :
      Step limits g s .readFrame (.read (.io parent request))
        { s with outbox := rest, serving := s.serving ++ [⟨request, false⟩] }
  | resulted {id rest} (ho : s.outbox = .result id :: rest) :
      Step limits g s .readFrame (.read (.result id))
        ({ s with
          outbox := rest
          compileFlights := removeUnregisteredCompileFlightIntent id s.compileFlights }.deliver
            id .waiting .resulted)
  | acknowledged {id disposition rest} (ho : s.outbox = .cancelAck id disposition :: rest) :
      Step limits g s .readFrame (.read (.cancelAck id disposition))
        ({ s with outbox := rest }.deliver id .canceling (.acknowledged disposition))
  | flightRegistered {frame flights rest} (ho : s.outbox = .flightRegister frame :: rest)
      (hf : registerCompileFlight frame s.compileFlights = .ok flights) :
      Step limits g s .readFrame (.read (.flightRegister frame))
        { s with outbox := rest, compileFlights := flights }
  | flightCompleted {frame flights rest} (ho : s.outbox = .flightComplete frame :: rest)
      (hf : completeCompileFlight frame s.compileFlights = .ok flights) :
      Step limits g s .readFrame (.read (.flightComplete frame))
        { s with outbox := rest, compileFlights := flights }
  | claimed {rid parent flights rest} (ho : s.outbox = .openHandle rid parent :: rest)
      (hf : claimCompileFlightArtifact rid parent s.compileFlights = .ok flights) :
      Step limits g s .readFrame (.read (.openHandle rid parent))
        { s with
          outbox := rest, compileFlights := flights, artifacts := s.artifacts ++ [(rid, parent)] }
  | answered {id e} (he : e ∈ s.serving) (hid : e.request.requestId = id)
      (hw : e.written = false) :
      Step limits g s (.answer id) .done
        ({ s with serving := s.serving.erase e ++ [{ e with written := true }] }.write
          (.answer (responseFrame e.request)))
  | slotReleased {id e} (he : e ∈ s.serving) (hw : e.written = true) :
      Step limits g s (.releaseSlot id) .done { s with serving := s.serving.erase e }
  | artifactOpened {rid parent} (ha : (rid, parent) ∈ s.artifacts) :
      Step limits g s (.openArtifact rid parent) .done
        ({ s with artifacts := s.artifacts.erase (rid, parent) }.write (.artifact rid parent))
  | failed : Step limits g s .endGeneration .done s.fail
  | enqueued {i rest runtime} (hm : s.main = .idle) (hi : s.inbox = .invoke i :: rest)
      (hr : s.runtime.enqueue (config limits g) i.requestId
        (Text.trim i.pluginInstanceId) i.sessionScope = some (.enqueued none, runtime)) :
      Step limits g s .readInput (.input (.invoke i)) { s with runtime, inbox := rest }
  | rejected {i rest error runtime} (hm : s.main = .idle) (hi : s.inbox = .invoke i :: rest)
      (hr : s.runtime.enqueue (config limits g) i.requestId
        (Text.trim i.pluginInstanceId) i.sessionScope = some (.enqueued (some error), runtime)) :
      Step limits g s .readInput (.input (.invoke i))
        ({ s with runtime, inbox := rest }.post (.result i.requestId))
  | cancelQueued {id job scheduler rest} (hm : s.main = .idle)
      (hi : s.inbox = .cancelInvoke id :: rest)
      (hc : Scheduler.cancel id s.runtime.scheduler = .ok (.queued job, scheduler)) :
      Step limits g s .readInput (.input (.cancelInvoke id))
        { s with
          inbox := rest
          runtime := { s.runtime with
            scheduler, canceled := insert job.cancellation s.runtime.canceled }
          outbox := s.outbox ++ [.result job.requestId]
          main := .acknowledging id .queued }
  | cancelRunning {id handle scheduler rest} (hm : s.main = .idle)
      (hi : s.inbox = .cancelInvoke id :: rest)
      (hc : Scheduler.cancel id s.runtime.scheduler = .ok (.running handle, scheduler)) :
      Step limits g s .readInput (.input (.cancelInvoke id))
        { s with inbox := rest, runtime := { s.runtime with scheduler }, main := .firing id handle }
  | cancelComplete {id disposition scheduler rest} (hm : s.main = .idle)
      (hi : s.inbox = .cancelInvoke id :: rest)
      (hd : disposition = .complete ∨ disposition = .missing)
      (hc : Scheduler.cancel id s.runtime.scheduler = .ok (disposition, scheduler)) :
      Step limits g s .readInput (.input (.cancelInvoke id))
        { s with
          inbox := rest, runtime := { s.runtime with scheduler }
          main := .acknowledging id .complete }
  | consumed {frame routes rest} (hm : s.main = .idle) (hi : s.inbox = .answer frame :: rest)
      (hr : s.runtime.routes.consume frame = .ok routes) :
      Step limits g s .readInput (.input (.answer frame))
        { s with inbox := rest, runtime := { s.runtime with routes } }
  | artifactLoaded {rid parent rest} (hm : s.main = .idle)
      (hi : s.inbox = .artifact rid parent :: rest) (hrid : rid = artifactRequestIdOf parent)
      (hc : s.compiling.lookup parent = some .requested) :
      Step limits g s .readInput (.input (.artifact rid parent))
        { s with inbox := rest, compiling := s.compiling.insert parent .loaded }
  | fired {id handle} (hm : s.main = .firing id handle) :
      Step limits g s .fire .done
        { s with
          runtime := { s.runtime with canceled := insert handle s.runtime.canceled }
          main := .cancelingRoutes id }
  | routesCanceled {id routes} (hm : s.main = .cancelingRoutes id)
      (hr : s.runtime.routes.cancelParent (config limits g).routes id g = .ok routes) :
      Step limits g s .cancelRoutes .done
        { s with runtime := { s.runtime with routes }, main := .acknowledging id .running }
  | posted {id disposition} (hm : s.main = .acknowledging id disposition) :
      Step limits g s .acknowledge .done ({ s with main := .idle }.post (.cancelAck id disposition))
  | took {w out runtime}
      (hr : s.runtime.take (config limits g) w = some (out, runtime)) :
      Step limits g s (.take w) (.runtime out) ({ s with runtime }.setPosition w .starting)
  | led {w job i} (hw : s.runtime.workers w = .running job) (hp : s.positions w = .starting)
      (hi : s.issued.lookup job.requestId = some i) :
      Step limits g s (.lead w) .done
        (({ s with compiling := s.compiling.insert job.requestId .loading }.setPosition w
          .compiling).post (.flightRegister (compileFlightRegisterFrame job.requestId i.artifact)))
  | compiled {w job} (hw : s.runtime.workers w = .running job)
      (hp : s.positions w = .starting ∨ s.positions w = .compiling) :
      Step limits g s (.compiled w) .done (s.setPosition w .executing)
  | unregistered {w call message} :
      Step limits g s (.register w call) (.refused message) s
  | registered {w call job i request responseType routes id}
      (hw : s.runtime.workers w = .running job) (hp : s.positions w = .executing)
      (hi : s.issued.lookup job.requestId = some i) (hprewarm : i.prewarm = false)
      (hreq : rawIORequest i.invocationId s.runtime.routes.nextRequestId call =
        .ok (request, responseType))
      (hr : s.runtime.routes.register (config limits g).routes
        (RuntimeState.routeOf (config limits g) job i.invocationId responseType
          request.resourceId) = .ok (id, routes)) :
      Step limits g s (.register w call) .done
        ({ s with runtime := { s.runtime with routes } }.setPosition w
          (.registered request))
  | checkFailed {w job request message} (hw : s.runtime.workers w = .running job)
      (hp : s.positions w = .registered request) (hc : job.cancellation ∈ s.runtime.canceled) :
      Step limits g s (.check w) (.refused message) (s.setPosition w .executing)
  | checkCanceled {w job request routes message} (hw : s.runtime.workers w = .running job)
      (hp : s.positions w = .registered request) (hc : job.cancellation ∈ s.runtime.canceled)
      (hr : s.runtime.routes.cancelParent (config limits g).routes job.requestId g = .ok routes) :
      Step limits g s (.check w) (.refused message)
        ({ s with runtime := { s.runtime with routes } }.setPosition w .executing)
  | checkPassed {w job request} (hw : s.runtime.workers w = .running job)
      (hp : s.positions w = .registered request) (hc : job.cancellation ∉ s.runtime.canceled) :
      Step limits g s (.check w) .done (s.setPosition w (.checked request))
  | sent {w job request} (hw : s.runtime.workers w = .running job)
      (hp : s.positions w = .checked request) :
      Step limits g s (.send w) .done
        ((s.setPosition w (.waiting request)).post (.io job.requestId request))
  | resumed {w request} (hp : s.positions w = .waiting request) :
      Step limits g s (.resume w) .done (s.setPosition w .executing)
  | began {w out runtime} (hp : s.positions w = .starting ∨ s.positions w = .executing)
      (hr : s.runtime.beginCompletion w = some (out, runtime)) :
      Step limits g s (.beginCompletion w) (.runtime out) { s with runtime }
  | published {w completion} (hw : s.runtime.workers w = .publishing completion false)
      (hc : completion.suppressResponse = false) :
      Step limits g s (.publish w) (.runtime (.published completion))
        ({ s with runtime := s.runtime.setWorker w (.publishing completion true) }.post
          (.result completion.requestId))
  | ended {w completion sent} (hw : s.runtime.workers w = .publishing completion sent)
      (hs : sent = true ∨ completion.suppressResponse = true) :
      Step limits g s (.endCompletion w) (.runtime .ended)
        { s with runtime := ({ s.runtime with
            scheduler := Scheduler.endCompletion completion s.runtime.scheduler } :
              RuntimeState n).setWorker w .idle }
  | artifactRequested {id} (hc : s.compiling.lookup id = some .loading) :
      Step limits g s (.requestArtifact id) .done
        ({ s with compiling := s.compiling.insert id .requested }.post
          (.openHandle (artifactRequestIdOf id) id))
  | flightEnded {id thread i} (hc : s.compiling.lookup id = some thread)
      (hi : s.issued.lookup id = some i) :
      Step limits g s (.completeFlight id) .done
        ({ s with compiling := s.compiling.erase id }.post
          (.flightComplete (compileFlightCompleteFrame id i.artifact)))
  | controlled {op out runtime} (hop : isControl op = true)
      (hr : Runtime.perform (config limits g) s.runtime op = some (out, runtime)) :
      Step limits g s (.control op) (.runtime out) { s with runtime }

namespace ExchangeState

variable {out : ExchangeOutput}

theorem openCall_step {inv} (h : s.openCall limits inv = some (out, t)) :
    Step limits g s (.openCall inv) out t := by
  unfold openCall at h
  simp only at h
  split_ifs at h with hid hpending hfl hcap <;> cases h
  · exact .refused rfl hid
  · exact .refused rfl hid
  · exact .refused rfl hid
  · refine .opened rfl hid fun hp hm => hpending ?_
    simp only at hp hm
    simp [hp, hm]

variable {frame : RuntimeFrame} {phase : CallerPhase} {call : OpenCall} {id r : RequestId}
  {w : Fin n}

theorem accept_step {rest} (ho : s.outbox = frame :: rest)
    (h : { s with outbox := rest }.accept frame = .ok t) :
    Step limits g s .readFrame (.read frame) t := by
  revert h
  fun_cases accept { s with outbox := rest } frame <;> rintro ⟨⟩
  · exact .served ho ‹_›
  · exact .resulted ho
  · exact .acknowledged ho
  · exact .flightRegistered ho ‹_›
  · exact .flightCompleted ho ‹_›
  · exact .claimed ho ‹_›

theorem accept_error {violation} (h : s.accept frame = .error violation) :
    (∃ parent request, frame = .io parent request ∧ dispatchRuntimeIOFrame s.pendingInvocations
      s.serving.length n request = some violation) ∨
    violation ∈ [.flightRegistration, .flightCompletion, .flightArtifact] := by
  revert h
  fun_cases accept s frame <;> rintro ⟨⟩
  · exact .inl ⟨_, _, rfl, ‹_›⟩
  · exact .inr (by simp [registerCompileFlight_error ‹_›])
  · exact .inr (by simp [completeCompileFlight_error ‹_›])
  · exact .inr (by simp [claimCompileFlightArtifact_error ‹_›])

/-- A frame for a caller changes at most the phase of its call. -/
theorem deliver_eq (s : ExchangeState n) (id : RequestId) (expected phase : CallerPhase) :
    s.deliver id expected phase = s ∨ ∃ call, s.calls.lookup id = some call ∧
      call.phase = expected ∧ s.deliver id expected phase = s.setPhase id call phase := by
  unfold deliver
  cases hc : s.calls.lookup id with
  | none => exact .inl rfl
  | some call =>
    by_cases hp : call.phase = expected
    · exact .inr ⟨call, rfl, hp, if_pos hp⟩
    · exact .inl (if_neg hp)

theorem setPhase_calls {call'} (hid : s.calls.lookup id = some call')
    (h : (s.setPhase id call' phase).calls.lookup r = some call) :
    ∃ before, s.calls.lookup r = some before ∧ before.invocation = call.invocation := by
  rcases Finmap.lookup_of_insert h with ⟨hr, rfl⟩ | h
  · exact ⟨call', hr ▸ hid, rfl⟩
  · exact ⟨call, h, rfl⟩

theorem deliver_calls {expected} (h : (s.deliver id expected phase).calls.lookup r = some call) :
    ∃ before, s.calls.lookup r = some before ∧ before.invocation = call.invocation := by
  rcases deliver_eq s id expected phase with he | ⟨call', hc, -, he⟩
  · exact ⟨call, he ▸ h, rfl⟩
  · rw [he] at h
    exact setPhase_calls hc h

/-- A frame for a caller is delivered to the calls alone. -/
theorem deliver_rest (s : ExchangeState n) (id : RequestId) (expected phase : CallerPhase) :
    s.deliver id expected phase = { s with calls := (s.deliver id expected phase).calls } := by
  rcases deliver_eq s id expected phase with he | ⟨call, -, -, he⟩ <;> rw [he]
  rfl

section Issued

variable {op : ExchangeOp n} {i : Invocation} (hs : Step limits g s op out t)

include hs

/-- An id is issued for an invocation whose own id is trimmed, and only once. -/
theorem issued_before (hi : t.issued.lookup r = some i) : s.issued.lookup r = some i ∨
    r = i.requestId ∧ Text.trim i.invocationId = i.invocationId := by
  cases hs with
  | refused he | opened he =>
    rcases Finmap.lookup_of_insert hi with ⟨hr, rfl⟩ | hi
    · exact .inr ⟨hr, by rw [he]; exact Text.trim_trim _⟩
    · exact .inl hi
  | resulted | acknowledged => exact .inl (by rwa [deliver_rest] at hi)
  | _ => exact .inl hi

theorem issued_after (hi : s.issued.lookup r = some i) : t.issued.lookup r = some i := by
  cases hs with
  | refused _ hid | opened _ hid =>
    rwa [Finmap.lookup_insert_of_ne]
    rintro rfl
    exact hid (Finmap.mem_of_lookup_eq_some hi)
  | resulted | acknowledged => rwa [deliver_rest]
  | _ => exact hi

end Issued

theorem readFrame_step (h : s.readFrame = some (out, t)) : Step limits g s .readFrame out t := by
  revert h
  fun_cases readFrame s <;> rintro ⟨⟩
  · exact .violated ‹_› ‹_›
  · exact accept_step ‹_› ‹_›

theorem cancelInvoke_step {rest} (hm : s.main = .idle) (hi : s.inbox = .cancelInvoke id :: rest)
    (h : { s with inbox := rest }.cancelInvoke id = some t) :
    Step limits g s .readInput (.input (.cancelInvoke id)) t := by
  unfold cancelInvoke at h
  split at h <;> cases h
  next hc => exact .cancelQueued hm hi hc
  next hc => exact .cancelRunning hm hi hc
  next disposition scheduler hq hr hc =>
    refine .cancelComplete hm hi ?_ hc
    cases disposition with
    | queued => exact absurd rfl (hq _)
    | running => exact absurd rfl (hr _)
    | complete => exact .inl rfl
    | missing => exact .inr rfl

theorem readInput_step (h : s.readInput (config limits g) = some (out, t)) :
    Step limits g s .readInput out t := by
  revert h
  fun_cases s.readInput (config limits g) <;> try rintro ⟨⟩
  · exact .enqueued ‹_› ‹_› ‹_›
  · exact .rejected ‹_› ‹_› ‹_›
  · intro h
    obtain ⟨t', ht, ⟨⟩⟩ := Option.map_eq_some_iff.mp h
    exact cancelInvoke_step ‹_› ‹_› ht
  · rename_i hr
    unfold RuntimeState.consume at hr
    split at hr <;> cases hr
    exact .consumed ‹_› ‹_› ‹_›
  · rename_i hc
    exact .artifactLoaded ‹_› ‹_› hc.1 hc.2

theorem take_step (h : s.take (config limits g) w = some (out, t)) :
    Step limits g s (.take w) out t := by
  unfold take at h
  split at h <;> cases h
  exact .took ‹_›

theorem lead_step (h : s.lead w = some (out, t)) : Step limits g s (.lead w) out t := by
  revert h
  fun_cases s.lead w <;> rintro ⟨⟩
  exact .led ‹_› ‹_› ‹_›

theorem compiled_step (h : s.compiled w = some (out, t)) : Step limits g s (.compiled w) out t := by
  revert h
  fun_cases s.compiled w <;> rintro ⟨⟩
  · exact .compiled ‹_› (.inl ‹_›)
  · exact .compiled ‹_› (.inr ‹_›)

theorem register_step {call} (h : s.register (config limits g) w call = some (out, t)) :
    Step limits g s (.register w call) out t := by
  revert h
  fun_cases s.register (config limits g) w call <;> rintro ⟨⟩
  · exact .unregistered
  · exact .unregistered
  · exact .registered ‹_› ‹_› ‹_› (by simp_all) ‹_› ‹_›

theorem check_step (h : s.check (config limits g) w = some (out, t)) :
    Step limits g s (.check w) out t := by
  revert h
  fun_cases s.check (config limits g) w <;> rintro ⟨⟩
  · exact .checkFailed ‹_› ‹_› ‹_›
  · exact .checkCanceled ‹_› ‹_› ‹_› ‹_›
  · exact .checkPassed ‹_› ‹_› ‹_›

theorem send_step (h : s.send w = some (out, t)) : Step limits g s (.send w) out t := by
  unfold send at h
  split at h <;> cases h
  exact .sent ‹_› ‹_›

theorem resume_step (h : s.resume w = some (out, t)) : Step limits g s (.resume w) out t := by
  revert h
  fun_cases s.resume w <;> rintro ⟨⟩
  exact .resumed ‹_›

theorem beginCompletion_step (h : s.beginCompletion w = some (out, t)) :
    Step limits g s (.beginCompletion w) out t := by
  revert h
  fun_cases s.beginCompletion w <;> rintro ⟨⟩
  exact .began ‹_› ‹_›

theorem publish_step (h : s.publish w = some (out, t)) : Step limits g s (.publish w) out t := by
  unfold publish at h
  split at h <;> cases h
  rename_i hr
  revert hr
  fun_cases s.runtime.publish w <;> rintro ⟨⟩
  exact .published ‹_› (by simp_all)

theorem endCompletion_step (h : s.endCompletion w = some (out, t)) :
    Step limits g s (.endCompletion w) out t := by
  revert h
  fun_cases s.endCompletion w <;> rintro ⟨⟩
  rename_i hw hs _ _ hr
  simp only [RuntimeState.endCompletion, hw] at hr
  cases hr
  exact .ended hw (by simpa using hs)

theorem completeFlight_step (h : s.completeFlight id = some (out, t)) :
    Step limits g s (.completeFlight id) out t := by
  unfold completeFlight at h
  split at h <;> cases h <;> exact .flightEnded ‹_› ‹_›

theorem control_step {op} (h : s.control (config limits g) op = some (out, t)) :
    Step limits g s (.control op) out t := by
  revert h
  fun_cases s.control (config limits g) op <;> try rintro ⟨⟩
  all_goals
    intro h
    split at h <;> cases h
    exact .controlled rfl ‹_›

/-- Every step is one of the cases, and the generation has not ended before it. -/
theorem perform_step {op} (h : s.perform limits g op = some (out, t)) :
    s.ended = false ∧ Step limits g s op out t := by
  unfold perform at h
  split_ifs at h with he
  refine ⟨by simpa using he, ?_⟩
  cases op with dsimp only at h
  | openCall => exact openCall_step h
  | writeCall =>
    simp only [writeCall] at h
    split at h <;> cases h
    exact .written ‹_›
  | abandonCall =>
    simp only [abandonCall] at h
    split at h <;> cases h
    exact .abandoned ‹_›
  | cancelCall id =>
    revert h
    fun_cases s.cancelCall id <;> rintro ⟨⟩
    exact .canceled ‹_› ‹_›
  | reconcile =>
    simp only [reconcile] at h
    split at h <;> cases h
    exact .reconciled ‹_›
  | returnCall id =>
    revert h
    fun_cases s.returnCall id <;> rintro ⟨⟩
    exact .returned ‹_› ‹_›
  | readFrame => exact readFrame_step h
  | answer =>
    simp only [answer] at h
    split at h <;> cases h
    next e hf =>
      have hp := List.find?_some hf
      simp only [decide_eq_true_eq] at hp
      exact .answered (List.mem_of_find?_eq_some hf) hp.1 hp.2
  | releaseSlot =>
    simp only [releaseSlot] at h
    split at h <;> cases h
    next e hf =>
      have hp := List.find?_some hf
      simp only [decide_eq_true_eq] at hp
      exact .slotReleased (List.mem_of_find?_eq_some hf) hp.2
  | openArtifact =>
    simp only [openArtifact] at h
    split_ifs at h with ha
    cases h
    exact .artifactOpened ha
  | endGeneration =>
    cases h
    exact .failed
  | readInput => exact readInput_step h
  | fire =>
    simp only [fire] at h
    split at h <;> cases h
    exact .fired ‹_›
  | cancelRoutes =>
    revert h
    fun_cases s.cancelRoutes (config limits g) <;> rintro ⟨⟩
    exact .routesCanceled ‹_› ‹_›
  | acknowledge =>
    simp only [acknowledge] at h
    split at h <;> cases h
    exact .posted ‹_›
  | take => exact take_step h
  | lead => exact lead_step h
  | compiled => exact compiled_step h
  | register => exact register_step h
  | check => exact check_step h
  | send => exact send_step h
  | resume => exact resume_step h
  | beginCompletion => exact beginCompletion_step h
  | publish => exact publish_step h
  | endCompletion => exact endCompletion_step h
  | requestArtifact =>
    simp only [requestArtifact] at h
    split at h <;> cases h
    exact .artifactRequested ‹_›
  | completeFlight => exact completeFlight_step h
  | control => exact control_step h

end ExchangeState

/-- The control thread leaves the workers alone, and the routes unless it cancels
those of a parent. -/
theorem control_routes {c : RuntimeConfig} {r r' : RuntimeState n} {op : Runtime.Op n}
    {out : Runtime.Output} (hop : isControl op = true)
    (h : Runtime.perform c r op = some (out, r')) :
    r'.workers = r.workers ∧ (r'.routes = r.routes ∨ ∃ parent, op = .cancelParent parent ∧
      r'.routes = r.routes.moveCanceled (PendingIORouteState.ofParent parent.1 parent.2)) := by
  have he : Effect c r op out r' := effect_of_step (l := (op, out)) h
  cases he with
  | parentCanceled => exact ⟨rfl, .inr ⟨_, rfl, rfl⟩⟩
  | rerouted hop' => cases op <;> simp [isControl, Op.routing] at hop hop'
  | rejected | admitted | taken | idled | began | published | ended | registered => cases hop
  | _ => exact ⟨rfl, .inl rfl⟩

theorem step_of_exchange {s t l} (h : (exchange limits g).step s l t) : Step limits g s l.1 l.2 t :=
  (ExchangeState.perform_step h).2

end RedevPlugin.Exchange
