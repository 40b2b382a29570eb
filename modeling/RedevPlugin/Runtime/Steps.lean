import RedevPlugin.Runtime.Revocation
import RedevPlugin.Scheduler.Sessions

/-! What each step of the runtime can do, said once: the thread's position and
the checks that let it take the step, and the state it leaves. -/

namespace RedevPlugin.Runtime

open Scheduler Transition

namespace PendingIORouteState

variable {limits : RouteLimits} {s t : PendingIORouteState}

theorem register_cases {route requestId} (h : s.register limits route = .ok (requestId, t)) :
    s.active.length < limits.activeCapacity ∧ requestId = s.nextRequestId ∧ t = s.push route := by
  unfold register at h
  split_ifs at h with h1 h2 h3 h4
  simp only [Except.ok.injEq, Prod.mk.injEq] at h
  exact ⟨by omega, h.1.symm, h.2.symm⟩

variable {runtimeGenerationId : String} {parentRequestId : RequestId} {frame : Frame}

theorem cancelParent_cases (h : s.cancelParent limits parentRequestId runtimeGenerationId = .ok t) :
    s.canceled.length + s.active.countP (ofParent parentRequestId runtimeGenerationId) ≤
        limits.canceledCapacity ∧
      t = s.moveCanceled (ofParent parentRequestId runtimeGenerationId) := by
  unfold cancelParent at h
  split_ifs at h with h1
  simp only [Except.ok.injEq] at h
  exact ⟨by omega, h.symm⟩

theorem remove_active_subset (requestId : ℕ) (s : PendingIORouteState) :
    (s.remove requestId).active ⊆ s.active := List.filter_sublist.subset

theorem moveCanceled_active_subset (s : PendingIORouteState) (select : ℕ × PendingIORoute → Bool) :
    (s.moveCanceled select).active ⊆ s.active := List.filter_sublist.subset

theorem cancelParent_active_subset
    (h : s.cancelParent limits parentRequestId runtimeGenerationId = .ok t) :
    t.active ⊆ s.active := by
  obtain ⟨-, rfl⟩ := cancelParent_cases h
  exact moveCanceled_active_subset _ _

theorem fst_mem_of_lookup {β : Type*} {l : List (ℕ × β)} {id : ℕ} {b : β}
    (h : l.lookup id = some b) : id ∈ l.map Prod.fst := by
  obtain ⟨l₁, l₂, rfl, -⟩ := List.lookup_eq_some_iff.mp h
  simp

/-- An answer takes its own route out of one of the tables. -/
theorem consume_cases (h : s.consume frame = .ok t) :
    t.nextRequestId = s.nextRequestId ∧
      (∀ r ∈ t.active, r ∈ s.active ∧ r.1 ≠ frame.requestId) ∧
      ∀ r ∈ t.canceled, r ∈ s.canceled ∧ r.1 ≠ frame.requestId := by
  have hdi := (List.nodup_append.mp s.distinct).2.2
  revert h
  fun_cases s.consume frame <;> rintro ⟨⟩
  · have hmem := fst_mem_of_lookup ‹_›
    refine ⟨rfl, fun r hr => ?_, fun r hr => ⟨hr, fun he => ?_⟩⟩
    · obtain ⟨hr, hne⟩ := List.mem_filter.mp hr
      exact ⟨hr, of_decide_eq_true hne⟩
    · exact hdi _ hmem _ (List.mem_map_of_mem hr) he.symm
  · have hmem := fst_mem_of_lookup ‹s.canceled.lookup _ = some _›
    refine ⟨rfl, fun r hr => ⟨hr, fun he => ?_⟩, fun r hr => ?_⟩
    · exact hdi _ (List.mem_map_of_mem hr) _ hmem he
    · obtain ⟨hr, hne⟩ := List.mem_filter.mp hr
      exact ⟨hr, of_decide_eq_true hne⟩

end PendingIORouteState

variable {n : ℕ} {c : RuntimeConfig}

/-- The job `enqueue` builds. -/
def RuntimeState.newJob (s : RuntimeState n) (requestId : RequestId)
    (pluginInstanceId : PluginInstanceId) (sessionScope : Option SessionScope) : InvocationJob :=
  ⟨requestId, pluginInstanceId, sessionScope, s.nextCancellation⟩

def Op.routing : Op n → Prop
  | .register .. | .cancelOwn _ | .remove .. | .consume _ => True
  | _ => False

inductive Effect (c : RuntimeConfig) (s : RuntimeState n) : Op n → Output → RuntimeState n → Prop
  | rejected {id p scope error} (hnot : ¬ Admitted c.scheduler s.scheduler (s.newJob id p scope)) :
    Effect c s (.enqueue id p scope) (.enqueued (some error))
      { s with nextCancellation := s.nextCancellation + 1 }
  | admitted {id p scope scheduler}
    (hok : Scheduler.enqueue c.scheduler (s.newJob id p scope) s.scheduler =
      .ok (none, scheduler)) :
    Effect c s (.enqueue id p scope) (.enqueued none)
      { s with scheduler, nextCancellation := s.nextCancellation + 1 }
  | taken {w job scheduler} (hw : s.workers w = .idle)
    (hok : Scheduler.take c.scheduler s.scheduler = .ok (.taken job, scheduler)) :
    Effect c s (.take w) (.took (.taken job))
      ({ s with scheduler }.setWorker w (.running job))
  | idled {w outcome scheduler} (hidle : ∀ job, outcome ≠ .taken job)
    (hok : Scheduler.take c.scheduler s.scheduler = .ok (outcome, scheduler)) :
    Effect c s (.take w) (.took outcome) { s with scheduler }
  | began {w job completion scheduler} (hw : s.workers w = .running job)
    (hok : Scheduler.beginCompletion job.requestId s.scheduler = .ok (completion, scheduler)) :
    Effect c s (.beginCompletion w) (.began completion)
      ({ s with scheduler }.setWorker w (.publishing completion false))
  | published {w completion} (hw : s.workers w = .publishing completion false) :
    Effect c s (.publish w) (.published completion)
      (s.setWorker w (.publishing completion true))
  | ended {w completion sent} (hw : s.workers w = .publishing completion sent) :
    Effect c s (.endCompletion w) .ended
      ({ s with scheduler := Scheduler.endCompletion completion s.scheduler }.setWorker w .idle)
  | registered {w job invocationId responseType resourceId requestId}
    (hw : s.workers w = .running job) :
    Effect c s (.register w invocationId responseType resourceId) (.routed (.ok requestId))
      { s with routes :=
          s.routes.push (RuntimeState.routeOf c job invocationId responseType resourceId) }
  | rerouted {op out routes} (hop : op.routing)
    (hout : ∀ scope sequence result, out ≠ .returned scope sequence result)
    (hpub : ∀ completion, out ≠ .published completion) (hsub : routes.active ⊆ s.routes.active) :
    Effect c s op out { s with routes }
  | stale {scope sequence record} (hr : s.records.lookup scope = some record)
    (hlt : sequence < record.sequence) :
    Effect c s (.contain scope sequence) (.returned scope sequence (.error .stale)) s
  | repeated {scope record} (hr : s.records.lookup scope = some record)
    (hc : record.complete = true) :
    Effect c s (.contain scope record.sequence)
      (.returned scope record.sequence (.ok record.counts)) s
  | resumed {scope record} (hr : s.records.lookup scope = some record)
    (hc : record.complete = false) :
    Effect c s (.contain scope record.sequence) .continued
      { s with containing := some ⟨scope, record.sequence, .drain record.counts⟩ }
  | exhausted {scope sequence} (hr : s.records.lookup scope = none) :
    Effect c s (.contain scope sequence) (.returned scope sequence (.error .capacity)) s
  | opened {scope sequence}
    (hr : ∀ record, s.records.lookup scope = some record → record.sequence < sequence) :
    Effect c s (.contain scope sequence) .continued { s with
      containing := some ⟨scope, sequence, .cancelRoutes (s.routes.sessionParents scope)⟩ }
  | parentFailed {scope sequence parents parent message}
    (hcall : s.containing = some ⟨scope, sequence, .cancelRoutes parents⟩) :
    Effect c s (.cancelParent parent) (.returned scope sequence (.error (.containment message)))
      { s with containing := none }
  | parentCanceled {scope sequence parents parent}
    (hcall : s.containing = some ⟨scope, sequence, .cancelRoutes parents⟩)
    (hmem : parent ∈ parents) :
    Effect c s (.cancelParent parent) .continued { s with
      routes := s.routes.moveCanceled (PendingIORouteState.ofParent parent.1 parent.2)
      containing := some ⟨scope, sequence, .cancelRoutes (parents.erase parent)⟩ }
  | fenced {scope sequence parents}
    (hcall : s.containing = some ⟨scope, sequence, .cancelRoutes parents⟩) :
    Effect c s .fence .continued { s with
      revokedSessions := insert scope s.revokedSessions
      containing := some ⟨scope, sequence, .revoke⟩ }
  | revoked {scope sequence iteration disposition scheduler counts}
    (hcall : s.containing = some ⟨scope, sequence, .revoke⟩)
    (hok : Scheduler.revokeSession iteration scope s.scheduler = .ok (disposition, scheduler)) :
    Effect c s (.revokeSession iteration) .continued { s with
      scheduler, canceled := s.canceled ∪ disposition.canceled.toFinset
      records := s.records.insert scope ⟨sequence, counts, false⟩
      containing := some ⟨scope, sequence, .drain counts⟩ }
  | drained {scope sequence counts record}
    (hcall : s.containing = some ⟨scope, sequence, .drain counts⟩)
    (hdrained : sessionDrained scope s.scheduler = true)
    (hr : s.records.lookup scope = some record) :
    Effect c s .drained (.returned scope sequence (.ok counts)) { s with
      records := s.records.insert scope { record with complete := true }, containing := none }
  | timedOut {scope sequence counts}
    (hcall : s.containing = some ⟨scope, sequence, .drain counts⟩) :
    Effect c s .drainTimeout (.returned scope sequence (.error .drainTimeout))
      { s with containing := none }

namespace RuntimeState

variable {s t : RuntimeState n} {out : Output}

variable {scope : Option SessionScope} {p : PluginInstanceId} {id : RequestId} {w : Fin n}
  {r r' : RuntimeState n}

theorem enqueue_effect (h : s.enqueue c id p scope = some (out, t)) :
    Effect c s (.enqueue id p scope) out t := by
  revert h
  fun_cases s.enqueue c id p scope <;> rintro ⟨⟩
  rename_i hok
  rcases enqueue_cases hok with ⟨error, he, rfl, rfl⟩ | ⟨-, rfl, -⟩
  · refine .rejected fun ha => ?_
    rw [newJob] at ha
    simp [enqueueError_eq_none.mpr ha] at he
  · exact .admitted hok

theorem take_effect (h : s.take c w = some (out, t)) : Effect c s (.take w) out t := by
  revert h
  fun_cases s.take c w <;> rintro ⟨⟩
  · exact .taken ‹_› ‹_›
  · rename_i hidle _
    exact .idled (fun job he => hidle job (he ▸ rfl)) ‹_›

theorem beginCompletion_effect (h : s.beginCompletion w = some (out, t)) :
    Effect c s (.beginCompletion w) out t := by
  revert h
  fun_cases s.beginCompletion w <;> rintro ⟨⟩
  exact .began ‹_› ‹_›

theorem publish_effect (h : s.publish w = some (out, t)) : Effect c s (.publish w) out t := by
  revert h
  fun_cases s.publish w <;> rintro ⟨⟩
  exact .published ‹_›

theorem endCompletion_effect (h : s.endCompletion w = some (out, t)) :
    Effect c s (.endCompletion w) out t := by
  revert h
  fun_cases s.endCompletion w <;> rintro ⟨⟩
  exact .ended ‹_›

theorem register_effect {invocationId responseType resourceId}
    (h : s.register c w invocationId responseType resourceId = some (out, t)) :
    Effect c s (.register w invocationId responseType resourceId) out t := by
  revert h
  fun_cases s.register c w invocationId responseType resourceId <;> rintro ⟨⟩
  · exact .rerouted trivial (by simp) (by simp) (List.Subset.refl _)
  · obtain ⟨-, -, rfl⟩ := PendingIORouteState.register_cases ‹_›
    exact .registered ‹_›

theorem cancelOwn_effect (h : s.cancelOwn c w = some (out, t)) :
    Effect c s (.cancelOwn w) out t := by
  revert h
  fun_cases s.cancelOwn c w <;> rintro ⟨⟩
  · exact .rerouted trivial (by simp) (by simp) (List.Subset.refl _)
  · exact .rerouted trivial (by simp) (by simp)
      (PendingIORouteState.cancelParent_active_subset ‹_›)

theorem remove_effect {requestId} (h : s.remove w requestId = some (out, t)) :
    Effect c s (.remove w requestId) out t := by
  revert h
  fun_cases s.remove w requestId <;> rintro ⟨⟩
  exact .rerouted trivial (by simp) (by simp) (PendingIORouteState.remove_active_subset _ _)

theorem consume_effect {frame} (h : s.consume frame = some (out, t)) :
    Effect c s (.consume frame) out t := by
  revert h
  fun_cases s.consume frame <;> rintro ⟨⟩
  exact .rerouted trivial (by simp) (by simp) fun r hr =>
    ((PendingIORouteState.consume_cases ‹_›).2.1 r hr).1

theorem contain_effect {scope sequence} (h : s.contain c scope sequence = some (out, t)) :
    Effect c s (.contain scope sequence) out t := by
  revert h
  fun_cases s.contain c scope sequence <;> rintro ⟨⟩
  · exact .stale ‹_› ‹_›
  · subst ‹sequence = _›
    exact .repeated ‹_› ‹_›
  · subst ‹sequence = _›
    exact .resumed ‹_› (by simp_all)
  · rename_i hr _ _
    refine .opened fun record' hr' => ?_
    cases hr.symm.trans hr'
    omega
  · exact .exhausted ‹_›
  · rename_i hr _
    exact .opened fun record hr' => absurd (hr.symm.trans hr') (by simp)

theorem cancelParent_effect {parent} (h : s.cancelParent c parent = some (out, t)) :
    Effect c s (.cancelParent parent) out t := by
  revert h
  fun_cases s.cancelParent c parent <;> rintro ⟨⟩
  · exact .parentFailed ‹_›
  · obtain ⟨-, rfl⟩ := PendingIORouteState.cancelParent_cases ‹_›
    exact .parentCanceled ‹_› ‹_›

theorem fence_effect (h : s.fence = some (out, t)) : Effect c s .fence out t := by
  revert h
  fun_cases fence s <;> rintro ⟨⟩
  exact .fenced ‹_›

theorem revokeSession_effect {iteration} (h : s.revokeSession iteration = some (out, t)) :
    Effect c s (.revokeSession iteration) out t := by
  revert h
  fun_cases s.revokeSession iteration <;> rintro ⟨⟩
  exact .revoked ‹_› ‹_›

theorem drained_effect (h : s.drained = some (out, t)) : Effect c s .drained out t := by
  revert h
  fun_cases drained s <;> rintro ⟨⟩
  exact .drained ‹_› ‹_› ‹_›

theorem drainTimeout_effect (h : s.drainTimeout = some (out, t)) :
    Effect c s .drainTimeout out t := by
  revert h
  fun_cases drainTimeout s <;> rintro ⟨⟩
  exact .timedOut ‹_›

variable {out : Output}

theorem take_frame {c} (h : r.take c w = some (out, r')) :
    r.workers w = .idle ∧ r'.routes = r.routes ∧ ∀ k, k ≠ w → r'.workers k = r.workers k := by
  revert h
  fun_cases r.take c w <;> rintro ⟨⟩
  · exact ⟨‹_›, rfl, fun k hk => Function.update_of_ne hk ..⟩
  · exact ⟨‹_›, rfl, fun _ _ => rfl⟩

theorem beginCompletion_frame (h : r.beginCompletion w = some (out, r')) :
    r'.routes = r.routes ∧ ∀ k, k ≠ w → r'.workers k = r.workers k := by
  revert h
  fun_cases r.beginCompletion w <;> rintro ⟨⟩
  exact ⟨rfl, fun k hk => Function.update_of_ne hk ..⟩

theorem enqueue_frame {c} (h : r.enqueue c id p scope = some (out, r')) :
    r'.routes = r.routes ∧ r'.workers = r.workers := by
  cases enqueue_effect h with
  | rejected | admitted => exact ⟨rfl, rfl⟩
  | rerouted hop => cases hop

end RuntimeState

theorem effect_of_step {s t l} (h : (system c n).step s l t) : Effect c s l.1 l.2 t := by
  obtain ⟨op, out⟩ := l
  cases op with
  | enqueue => exact RuntimeState.enqueue_effect h
  | take => exact RuntimeState.take_effect h
  | beginCompletion => exact RuntimeState.beginCompletion_effect h
  | publish => exact RuntimeState.publish_effect h
  | endCompletion => exact RuntimeState.endCompletion_effect h
  | register => exact RuntimeState.register_effect h
  | cancelOwn => exact RuntimeState.cancelOwn_effect h
  | remove => exact RuntimeState.remove_effect h
  | consume => exact RuntimeState.consume_effect h
  | contain => exact RuntimeState.contain_effect h
  | cancelParent => exact RuntimeState.cancelParent_effect h
  | fence => exact RuntimeState.fence_effect h
  | revokeSession => exact RuntimeState.revokeSession_effect h
  | drained => exact RuntimeState.drained_effect h
  | drainTimeout => exact RuntimeState.drainTimeout_effect h

end RedevPlugin.Runtime
