import RedevPlugin.Exchange.Protocol
import RedevPlugin.Exchange.Steps
import RedevPlugin.Foundation.Simulation
import RedevPlugin.Runtime.Holders

/-! Host and runtime seen through one request. `request` reads off a state of the
exchange what it knows of one request, and every step of the exchange is, for
each request, a move of its protocol or no move. -/

namespace RedevPlugin.Exchange

open Scheduler Transition RedevPlugin.Runtime RedevPlugin.Host

variable {n : ℕ} {limits : RuntimeLimits} {g : String} {s t : ExchangeState n}

theorem artifactRequestIdOf_injective : Function.Injective artifactRequestIdOf := by
  intro a b h
  have hl := congrArg String.toList h
  simp only [artifactRequestIdOf, String.toList_append, List.append_cancel_right_eq] at hl
  exact String.toList_injective hl

namespace ExchangeState

/-- The request in the hand of one worker. -/
def handOf (s : ExchangeState n) (r : RequestId) (w : Fin n) : Option Hand :=
  match s.runtime.workers w with
  | .idle => none
  | .running job =>
    if job.requestId = r then
      some (.running (s.positions w) (job.cancellation ∈ s.runtime.canceled))
    else none
  | .publishing completion sent =>
    if completion.requestId = r then some (.publishing completion.suppressResponse sent) else none

def hand (s : ExchangeState n) (r : RequestId) : Option Hand :=
  (List.finRange n).findSome? (s.handOf r)

def request (r : RequestId) (s : ExchangeState n) : Request where
  issued := s.issued.lookup r
  call := (s.calls.lookup r).map OpenCall.phase
  flight := s.compileFlights.lookup (artifactRequestIdOf r)
  toRuntime := s.inbox.filter (fun f => f.about = some r)
  toHost := s.outbox.filter (fun f => f.about = r)
  main := if s.main.about = some r then s.main else .idle
  queued := r ∈ s.runtime.scheduler.sessions.queued
  hand := s.hand r
  thread := s.compiling.lookup r

end ExchangeState

open ExchangeState

/-! ### Hands -/

section Hands

variable {r : RequestId} {w : Fin n}

variable {job : InvocationJob} {sent : Bool} {completion : InvocationCompletion} {x : Hand}

theorem handOf_running (hw : s.runtime.workers w = .running job) :
    s.handOf job.requestId w =
      some (.running (s.positions w) (job.cancellation ∈ s.runtime.canceled)) := by
  simp [handOf, hw]

theorem handOf_eq_none (h : (s.runtime.workers w).requestId ≠ some r) : s.handOf r w = none := by
  unfold handOf
  cases hw : s.runtime.workers w with
  | idle => rfl
  | running | publishing => exact if_neg fun he => h (by rw [hw, ← he]; rfl)

theorem requestId_of_handOf (h : s.handOf r w = some x) :
    (s.runtime.workers w).requestId = some r := by
  by_contra hne
  rw [handOf_eq_none hne] at h
  cases h

theorem hand_congr (h : ∀ w, t.handOf r w = s.handOf r w) : t.hand r = s.hand r := by
  unfold hand
  congr 1
  funext w
  exact h w

theorem hand_eq_none (h : ∀ w, (s.runtime.workers w).requestId ≠ some r) : s.hand r = none := by
  rw [hand, List.findSome?_eq_none_iff]
  exact fun w _ => handOf_eq_none (h w)

theorem exists_of_hand (h : s.hand r = some x) : ∃ w, s.handOf r w = some x := by
  obtain ⟨w, -, hw⟩ := List.exists_of_findSome?_eq_some h
  exact ⟨w, hw⟩

/-- A request is in the hand of one worker only. -/
theorem hand_eq_some (h : Held s.runtime) (hwo : t.runtime.workers = s.runtime.workers)
    (hw : t.handOf r w = some x) : t.hand r = some x := by
  have hid := requestId_of_handOf hw
  cases ht : t.hand r with
  | none =>
    rw [hand, List.findSome?_eq_none_iff] at ht
    rw [ht w (List.mem_finRange w)] at hw
    cases hw
  | some y =>
    obtain ⟨w', hw'⟩ := exists_of_hand ht
    have hid' := requestId_of_handOf hw'
    rw [hwo] at hid hid'
    obtain rfl := h.workers.once w w' r hid hid'
    rw [← hw, ← hw']

theorem hand_running (h : Held s.runtime) (hw : s.runtime.workers w = .running job) :
    s.hand job.requestId =
      some (.running (s.positions w) (job.cancellation ∈ s.runtime.canceled)) :=
  hand_eq_some h rfl (handOf_running hw)

theorem hand_publishing (h : Held s.runtime)
    (hw : s.runtime.workers w = .publishing completion sent) :
    s.hand completion.requestId = some (.publishing completion.suppressResponse sent) :=
  hand_eq_some (w := w) h rfl (by simp [handOf, hw])

theorem handOf_congr {k} (hwo : t.runtime.workers k = s.runtime.workers k)
    (hpos : t.positions k = s.positions k) (hcanceled : t.runtime.canceled = s.runtime.canceled) :
    t.handOf r k = s.handOf r k := by
  simp only [handOf, hwo, hpos, hcanceled]

/-- A worker whose request is another one is not seen. -/
theorem hand_of_worker (hot : ∀ k, k ≠ w → t.handOf r k = s.handOf r k)
    (hs : (s.runtime.workers w).requestId ≠ some r)
    (ht : (t.runtime.workers w).requestId ≠ some r) : t.hand r = s.hand r := by
  refine hand_congr fun k => ?_
  by_cases hk : k = w
  · subst hk
    rw [handOf_eq_none hs, handOf_eq_none ht]
  · exact hot k hk

theorem hand_of_position (h : Held s.runtime) {p} (hwo : t.runtime.workers = s.runtime.workers)
    (hcanceled : t.runtime.canceled = s.runtime.canceled)
    (hpos : t.positions = Function.update s.positions w p) (r : RequestId) :
    t.hand r = s.hand r ∨ ∃ job, s.runtime.workers w = .running job ∧ job.requestId = r ∧
      s.hand r = some (.running (s.positions w) (job.cancellation ∈ s.runtime.canceled)) ∧
      t.hand r = some (.running p (job.cancellation ∈ s.runtime.canceled)) := by
  have hot : ∀ k, k ≠ w → t.handOf r k = s.handOf r k := by
    intro k hk
    exact handOf_congr (by rw [hwo]) (by rw [hpos, Function.update_of_ne hk]) hcanceled
  by_cases hid : (s.runtime.workers w).requestId = some r
  · cases hw : s.runtime.workers w with
    | idle =>
      rw [hw] at hid
      cases hid
    | publishing =>
      refine .inl (hand_congr fun k => ?_)
      by_cases hk : k = w
      · subst hk
        simp only [handOf, hwo, hw]
      · exact hot k hk
    | running job =>
      rw [hw] at hid
      cases hid
      refine .inr ⟨job, rfl, rfl, hand_running h hw, hand_eq_some h hwo (w := w) ?_⟩
      rw [handOf_running (hwo ▸ hw), hpos, Function.update_self, hcanceled]
  · exact .inl (hand_of_worker hot hid (hwo ▸ hid))

theorem findSome?_map {α β : Type*} {f f' : α → Option β} {g : β → β} (l : List α)
    (h : ∀ a, f' a = f a ∨ f' a = (f a).map g) :
    l.findSome? f' = l.findSome? f ∨ l.findSome? f' = (l.findSome? f).map g := by
  induction l with
  | nil => exact .inl rfl
  | cons a l ih =>
    simp only [List.findSome?_cons]
    cases hf : f a with
    | none =>
      have hf' : f' a = none := by rcases h a with h | h <;> simp [h, hf]
      simpa only [hf'] using ih
    | some b =>
      rcases h a with h | h
      · exact .inl (by rw [h, hf])
      · exact .inr (by rw [h, hf]; rfl)

section

variable (hwo : t.runtime.workers = s.runtime.workers) (hpos : t.positions = s.positions)

include hwo hpos

theorem hand_of_canceled (hsub : s.runtime.canceled ⊆ t.runtime.canceled) (r : RequestId) :
    t.hand r = s.hand r ∨ t.hand r = (s.hand r).map Hand.fire := by
  refine findSome?_map _ fun w => ?_
  simp only [handOf, hwo, hpos]
  cases s.runtime.workers w with
  | idle | publishing => exact .inl rfl
  | running job =>
    by_cases hid : job.requestId = r
    · simp only [if_pos hid, Option.map_some, Hand.fire, Option.some.injEq, Hand.running.injEq,
        true_and]
      by_cases hs : job.cancellation ∈ s.runtime.canceled
      · exact .inl (by simp [hs, hsub hs])
      · by_cases ht : job.cancellation ∈ t.runtime.canceled
        · exact .inr (by simp [ht])
        · exact .inl (by simp [hs, ht])
    · exact .inl (by simp only [if_neg hid])

theorem hand_of_fired (hfi : ∀ w job, s.runtime.workers w = .running job → job.requestId = r →
      job.cancellation ∈ t.runtime.canceled) : t.hand r = (s.hand r).map Hand.fire := by
  rw [hand, hand, List.map_findSome?]
  congr 1
  funext w
  simp only [handOf, hwo, hpos, Function.comp_apply]
  cases hw : s.runtime.workers w with
  | idle => rfl
  | publishing completion =>
    by_cases hid : completion.requestId = r <;> simp [hid, Hand.fire]
  | running job =>
    by_cases hid : job.requestId = r
    · simp [hid, Hand.fire, hfi w job hw hid]
    · simp [hid]

end

end Hands

/-! ### What each part of a step does to a request -/

section Parts

variable {r : RequestId}

/-- A frame taken from the front of the queue to the host. -/
theorem request_read {frame rest} (ho : s.outbox = frame :: rest) :
    (frame.about = r → (s.request r).toHost =
      frame :: ({ s with outbox := rest }.request r).toHost) ∧
    (frame.about ≠ r → { s with outbox := rest }.request r = s.request r) := by
  refine ⟨fun h => ?_, fun h => ?_⟩
  · simp [request, ho, h]
  · simp only [request, ho, List.filter_cons, h, decide_false, Bool.false_eq_true, if_false]
    rfl

/-- A frame taken from the front of the queue to the runtime. -/
theorem request_input {frame rest} (hi : s.inbox = frame :: rest) :
    (frame.about = some r → (s.request r).toRuntime =
      frame :: ({ s with inbox := rest }.request r).toRuntime) ∧
    (frame.about ≠ some r → { s with inbox := rest }.request r = s.request r) := by
  refine ⟨fun h => ?_, fun h => ?_⟩
  · simp [request, hi, h]
  · simp only [request, hi, List.filter_cons, h, decide_false, Bool.false_eq_true, if_false]
    rfl

variable (s) {call : OpenCall}

theorem request_post_self (frame : RuntimeFrame) (h : frame.about = r) :
    (s.post frame).request r = { s.request r with toHost := (s.request r).toHost ++ [frame] } := by
  simp [request, post, h, -Request.mk.injEq]
  rfl

theorem request_post_of_ne (frame : RuntimeFrame) (h : frame.about ≠ r) :
    (s.post frame).request r = s.request r := by
  simp [request, post, h, -Request.mk.injEq]
  rfl

theorem request_write_self (frame : HostFrame) (h : frame.about = some r) :
    (s.write frame).request r =
      { s.request r with toRuntime := (s.request r).toRuntime ++ [frame] } := by
  simp [request, write, h, -Request.mk.injEq]
  rfl

theorem request_write_of_ne (frame : HostFrame) (h : frame.about ≠ some r) :
    (s.write frame).request r = s.request r := by
  simp [request, write, h, -Request.mk.injEq]
  rfl

theorem request_setPhase_self (call : OpenCall) (phase : CallerPhase) :
    (s.setPhase r call phase).request r = { s.request r with call := some phase } := by
  simp only [request, setPhase, Finmap.lookup_insert, Option.map_some]
  rfl

theorem request_setPhase_of_ne {id} (call : OpenCall) (phase : CallerPhase)
    (h : r ≠ id) : (s.setPhase id call phase).request r = s.request r := by
  simp only [request, setPhase, Finmap.lookup_insert_of_ne _ h]
  rfl

theorem request_unregister_self (h : call.invocation.requestId = r) :
    (s.unregister call).request r = { s.request r with call := none } := by
  simp only [request, unregister, h, Finmap.lookup_erase, Option.map_none]
  rfl

theorem request_unregister_of_ne (h : r ≠ call.invocation.requestId) :
    (s.unregister call).request r = s.request r := by
  simp only [request, unregister, Finmap.lookup_erase_ne h]
  rfl

/-- The calls get another entry for one request. -/
theorem request_deliver (id : RequestId) (expected phase : CallerPhase) :
    (r ≠ id → (s.deliver id expected phase).request r = s.request r) ∧
    (s.deliver id expected phase).request id = { s.request id with
      call := if (s.request id).call = some expected then some phase
        else (s.request id).call } := by
  refine ⟨fun h => ?_, ?_⟩
  · rcases deliver_eq s id expected phase with he | ⟨call, -, -, he⟩
    · rw [he]
    · rw [he, request_setPhase_of_ne _ _ _ h]
  · unfold deliver
    cases hc : s.calls.lookup id with
    | none => simp [hc, request]
    | some call =>
      have hse : (s.request id).call = some call.phase := by simp [request, hc]
      by_cases hp : call.phase = expected
      · simp [request_setPhase_self, hse, hp]
      · simp only [if_neg hp, hse, Option.some.injEq]
        rw [← hse]

end Parts

/-! ### The simulation -/

/-- What holds across requests: the runtime's tables and workers agree, a request
id stands for one invocation, and the main thread is about to fire the flag of
the job that runs. Each request keeps the order of its protocol. -/
structure Refined (s : ExchangeState n) : Prop where
  held : Held s.runtime
  issued : ∀ r i, s.issued.lookup r = some i → i.requestId = r
  calls : ∀ r call, s.calls.lookup r = some call → s.issued.lookup r = some call.invocation
  flights : ∀ k ∈ s.compileFlights, ∃ r, k = artifactRequestIdOf r
  firing : ∀ r handle, s.main = .firing r handle → ∀ w job, s.runtime.workers w = .running job →
    job.requestId = r → job.cancellation = handle
  sound : ∀ r, Request.Sound r (s.request r)

/-- The event a step is for a request. -/
def sees (r : RequestId) (s : ExchangeState n) (l : ExchangeOp n × ExchangeOutput) :
    Request.Event → Prop
  | .fired => l.1 = .fire
  | .began suppressed => ∃ w job, l.1 = .beginCompletion w ∧ s.runtime.workers w = .running job ∧
      job.requestId = r ∧ suppressed =
        job.sessionScope.any (fun scope => scope ∈ s.runtime.scheduler.revokedSessions)
  | .other => True

theorem request_init (r : RequestId) : ({} : ExchangeState n).request r = {} := by
  have hha : ({} : ExchangeState n).hand r = none :=
    hand_eq_none fun w => by simp [Worker.requestId]
  simp only [request, hha, SchedulerState.sessions]
  rfl

theorem Refined.init : Refined ({} : ExchangeState n) where
  held := Held.init
  issued := by simp
  calls := by simp
  flights _ h := absurd h Finmap.notMem_empty
  firing := by simp
  sound r := by
    rw [request_init]
    exact Request.Sound.init r

/-! ### What a step does across requests -/

/-- A flight in the table after a step was there before, claimed if it was, or its
call is the one just opened. -/
theorem flight_before {out op f k} (hs : Step limits g s op out t)
    (hf : t.compileFlights.lookup k = some f) : (∃ f', s.compileFlights.lookup k = some f' ∧
      (f'.artifactRequested = true → f.artifactRequested = true)) ∨
    ∃ r, r ∉ s.issued ∧ k = artifactRequestIdOf r := by
  have hsame : s.compileFlights.lookup k = some f → ∃ f', s.compileFlights.lookup k = some f' ∧
      (f'.artifactRequested = true → f.artifactRequested = true) := fun hl => ⟨f, hl, id⟩
  cases hs with
  | opened _ hid =>
    simp only [Finmap.lookup_insert_ite] at hf
    split_ifs at hf with hk
    · exact .inr ⟨_, hid, hk⟩
    · exact .inl (hsame hf)
  | abandoned => exact .inl (hsame (Finmap.lookup_of_erase hf).2)
  | reconciled =>
    simp only [reconcileCompileFlightAfterCancelAck] at hf
    split_ifs at hf
    · exact .inl (hsame (lookup_of_removeUnregistered hf))
    · exact .inl (hsame hf)
  | resulted =>
    rw [deliver_rest] at hf
    exact .inl (hsame (lookup_of_removeUnregistered hf))
  | acknowledged =>
    rw [deliver_rest] at hf
    exact .inl (hsame hf)
  | flightRegistered _ hr =>
    obtain ⟨flight, hl, rfl⟩ := registerCompileFlight_ok hr
    rcases Finmap.lookup_of_insert hf with ⟨hk, rfl⟩ | hf
    · exact .inl ⟨flight, hk ▸ hl, id⟩
    · exact .inl (hsame hf)
  | flightCompleted _ hc =>
    obtain ⟨flight, -, -, rfl⟩ := completeCompileFlight_ok hc
    exact .inl (hsame (Finmap.lookup_of_erase hf).2)
  | claimed _ hc =>
    obtain ⟨flight, hl, -, -, -, rfl⟩ := claimCompileFlightArtifact_ok hc
    rcases Finmap.lookup_of_insert hf with ⟨hk, rfl⟩ | hf
    · exact .inl ⟨flight, hk ▸ hl, fun _ => rfl⟩
    · exact .inl (hsame hf)
  | violated | failed => simp [fail] at hf
  | _ => exact .inl (hsame hf)

namespace Refined

/-- A request at the front of the queue to the runtime is in nobody's hand. -/
theorem notPublishing (h : Refined s) {i rest} (hi : s.inbox = .invoke i :: rest) :
    NotPublishing s.runtime.workers i.requestId := by
  have hmem : .invoke i ∈ (s.request i.requestId).toRuntime := by
    simp [request, hi, HostFrame.about]
  have hha : s.hand i.requestId = none := ((h.sound _).unread i hmem).2.2.2.1
  intro w completion sent hw hid
  have hso := hand_publishing h.held hw
  rw [hid, hha] at hso
  cases hso

variable {out : ExchangeOutput} {op : ExchangeOp n}

theorem held_step (h : Refined s) (hs : Step limits g s op out t) : Held t.runtime := by
  have hk : ∀ {u : RuntimeState n}, u.scheduler = s.runtime.scheduler →
      u.workers = s.runtime.workers → Held u := by
    intro u hu hw
    exact ⟨by rw [hu]; exact h.held.indexed, by rw [hu, hw]; exact h.held.workers⟩
  cases hs with
  | enqueued _ hi hr | rejected _ hi hr =>
    refine h.held.effect (RuntimeState.enqueue_effect hr) fun id p scope he _ => ?_
    cases he
    exact h.notPublishing hi
  | cancelQueued _ _ hc =>
    rcases cancel_sessions hc with ⟨job, -, hj, hv⟩ | ⟨-, rfl, -⟩
    · refine ⟨?_, ?_⟩
      all_goals simp only [hv]
      · exact h.held.indexed.drop hj
      · exact h.held.workers.drop _ _
    · exact hk rfl rfl
  | cancelRunning _ _ hc =>
    rcases cancel_sessions hc with ⟨job, he, -⟩ | ⟨-, rfl, -⟩
    · cases he
    · exact hk rfl rfl
  | cancelComplete _ _ hd hc =>
    rcases cancel_sessions hc with ⟨job, rfl, -⟩ | ⟨-, rfl, -⟩
    · rcases hd with hd | hd <;> cases hd
    · exact hk rfl rfl
  | took hr => exact h.held.effect (RuntimeState.take_effect hr) nofun
  | began _ hr =>
    exact h.held.effect
      (RuntimeState.beginCompletion_effect (c := ExchangeState.config limits g) hr) nofun
  | published hw =>
    exact ⟨h.held.indexed, h.held.workers.publish hw⟩
  | ended hw => exact h.held.ended hw
  | @controlled op out _ hop hr =>
    refine h.held.effect (effect_of_step (l := (op, out)) hr) fun id p scope he _ => ?_
    subst he
    cases hop
  | resulted | acknowledged =>
    rw [deliver_rest]
    exact hk rfl rfl
  | _ => exact hk rfl rfl

theorem requestId_of_call (h : Refined s) {id call} (hc : s.calls.lookup id = some call) :
    call.invocation.requestId = id :=
  h.issued id _ (h.calls id call hc)

section

variable (h : Refined s) (hs : Step limits g s op out t)

include h hs

theorem issued_step : ∀ r i, t.issued.lookup r = some i → i.requestId = r := by
  intro r i hi
  rcases issued_before hs hi with hi | ⟨hr, -⟩
  exacts [h.issued r i hi, hr.symm]

/-- An open call is the one its id was issued for. -/
theorem calls_step :
    ∀ r call, t.calls.lookup r = some call → t.issued.lookup r = some call.invocation := by
  intro r call hc
  have hsame : (∃ before, s.calls.lookup r = some before ∧
      before.invocation = call.invocation) → t.issued.lookup r = some call.invocation := by
    rintro ⟨before, hb, he⟩
    rw [← he]
    exact issued_after hs (h.calls r before hb)
  cases hs with
  | opened =>
    simp only [Finmap.lookup_insert_ite] at hc ⊢
    split_ifs at hc ⊢ with hr
    · cases hc
      rfl
    · exact h.calls r call hc
  | written hid | reconciled hid | canceled hid => exact hsame (setPhase_calls hid hc)
  | abandoned | returned => exact h.calls r call (Finmap.lookup_of_erase hc).2
  | resulted | acknowledged =>
    have hbe := deliver_calls hc
    exact hsame hbe
  | violated | failed => simp [fail] at hc
  | _ => exact hsame ⟨call, hc, rfl⟩

theorem flights_step : ∀ k ∈ t.compileFlights, ∃ r, k = artifactRequestIdOf r := by
  intro k hk
  obtain ⟨f, hf⟩ := Finmap.mem_iff.mp hk
  rcases flight_before hs hf with ⟨f', hf', -⟩ | ⟨r, -, he⟩
  · exact h.flights k (Finmap.mem_of_lookup_eq_some hf')
  · exact ⟨r, he⟩

end

end Refined

end RedevPlugin.Exchange
