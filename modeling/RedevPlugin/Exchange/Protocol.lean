import RedevPlugin.Exchange.System

/-! The protocol of one request. A request is opened by its caller in the host,
sent, queued and run by the runtime, and answered by one result, unless its
session is revoked; it may be cancelled on the way, and the worker that runs it
may call the host and lead the compilation of its module. This module is that
protocol by itself: what one request has in the host, in the two queues and in
the runtime, and the moves it can make. Nothing of the other requests is in it:
they only decide when a move is made. -/

namespace RedevPlugin.Exchange

open Scheduler Transition

/-! ### What is about a request -/

def RuntimeFrame.about : RuntimeFrame → RequestId
  | .io parent _ => parent
  | .result requestId | .cancelAck requestId _ => requestId
  | .flightRegister frame | .flightComplete frame => frame.parentRequestId
  | .openHandle _ parentRequestId => parentRequestId

/-- Answers and artifacts are about something the runtime already waits for. -/
def HostFrame.about : HostFrame → Option RequestId
  | .invoke invocation => some invocation.requestId
  | .cancelInvoke requestId => some requestId
  | _ => none

def MainPhase.about : MainPhase → Option RequestId
  | .idle => none
  | .firing requestId _ | .cancelingRoutes requestId | .acknowledging requestId _ => some requestId

inductive Hand where
  | running (position : Position) (fired : Bool)
  | publishing (suppressed sent : Bool)

def Hand.fire : Hand → Hand
  | .running position _ => .running position true
  | .publishing suppressed sent => .publishing suppressed sent

/-- Firing leaves the worker where it is. -/
theorem Hand.running_of_fire {hand p b} (h : hand.map Hand.fire = some (.running p b)) :
    b = true ∧ ∃ b', hand = some (.running p b') := by
  obtain ⟨x, hx, hfi⟩ := Option.map_eq_some_iff.mp h
  cases x with cases hfi
  | running => exact ⟨rfl, _, hx⟩

structure Request where
  issued : Option Invocation := none
  call : Option CallerPhase := none
  flight : Option PendingCompileFlight := none
  toRuntime : List HostFrame := []
  toHost : List RuntimeFrame := []
  main : MainPhase := .idle
  queued : Bool := false
  hand : Option Hand := none
  thread : Option CompileThread := none

namespace Request

/-! ### Moves -/

/-- The moves a condition may speak about. -/
inductive Event where
  | fired
  | began (suppressed : Bool)
  | other

/-- The moves of the request with id `r`. -/
inductive Move (r : RequestId) (q : Request) : Event → Request → Prop
  | idle : Move r q .other q
  | refused {i} (hq : q = {}) : Move r q .other { q with issued := some i }
  | opened {i} (hq : q = {}) :
      Move r q .other { q with
        issued := some i, call := some .opened, flight := some (newIntent r i.artifact) }
  | written {i} (hc : q.call = some .opened) :
      Move r q .other { q with call := some .waiting, toRuntime := q.toRuntime ++ [.invoke i] }
  | abandoned (hc : q.call = some .opened) :
      Move r q .other { q with call := none, flight := none }
  | canceled (hc : q.call = some .waiting ∨ q.call = some .resulted) :
      Move r q .other { q with
        call := some .canceling, toRuntime := q.toRuntime ++ [.cancelInvoke r] }
  | reconciled {d} (hc : q.call = some (.acknowledged d)) :
      Move r q .other { q with
        call := some .reconciled
        flight := if d = .running then q.flight else q.flight.filter (·.registered) }
  | returned (hc : q.call = some .resulted ∨ q.call = some .reconciled) :
      Move r q .other { q with call := none }
  | served {request rest} (ho : q.toHost = .io r request :: rest) :
      Move r q .other { q with toHost := rest }
  | resulted {rest} (ho : q.toHost = .result r :: rest) :
      Move r q .other { q with
        toHost := rest
        flight := q.flight.filter (·.registered)
        call := if q.call = some .waiting then some .resulted else q.call }
  | acknowledged {d rest} (ho : q.toHost = .cancelAck r d :: rest) :
      Move r q .other { q with
        toHost := rest
        call := if q.call = some .canceling then some (.acknowledged d) else q.call }
  | flightRegistered {frame flight rest} (ho : q.toHost = .flightRegister frame :: rest)
      (hf : q.flight = some flight) :
      Move r q .other { q with toHost := rest, flight := some { flight with registered := true } }
  | flightCompleted {frame rest} (ho : q.toHost = .flightComplete frame :: rest) :
      Move r q .other { q with toHost := rest, flight := none }
  | claimed {rid flight rest} (ho : q.toHost = .openHandle rid r :: rest)
      (hf : q.flight = some flight) :
      Move r q .other { q with
        toHost := rest, flight := some { flight with artifactRequested := true } }
  | enqueued {i rest} (hm : q.main = .idle) (hi : q.toRuntime = .invoke i :: rest) :
      Move r q .other { q with toRuntime := rest, queued := true }
  | rejected {i rest} (hi : q.toRuntime = .invoke i :: rest) :
      Move r q .other { q with toRuntime := rest, toHost := q.toHost ++ [.result r] }
  | cancelQueued {rest} (hm : q.main = .idle) (hi : q.toRuntime = .cancelInvoke r :: rest)
      (hq : q.queued = true) :
      Move r q .other { q with
        toRuntime := rest, queued := false, toHost := q.toHost ++ [.result r]
        main := .acknowledging r .queued }
  | cancelRunning {handle position fired rest} (hm : q.main = .idle)
      (hi : q.toRuntime = .cancelInvoke r :: rest)
      (hh : q.hand = some (.running position fired)) :
      Move r q .other { q with toRuntime := rest, main := .firing r handle }
  | cancelComplete {rest} (hm : q.main = .idle) (hi : q.toRuntime = .cancelInvoke r :: rest)
      (hq : q.queued = false) (hh : ∀ position fired, q.hand ≠ some (.running position fired)) :
      Move r q .other { q with toRuntime := rest, main := .acknowledging r .complete }
  | fired {handle} (hm : q.main = .firing r handle) :
      Move r q .fired { q with main := .cancelingRoutes r, hand := q.hand.map Hand.fire }
  | routesCanceled (hm : q.main = .cancelingRoutes r) :
      Move r q .other { q with main := .acknowledging r .running }
  | posted {d} (hm : q.main = .acknowledging r d) :
      Move r q .other { q with main := .idle, toHost := q.toHost ++ [.cancelAck r d] }
  | took {fired} (hq : q.queued = true) :
      Move r q .other { q with queued := false, hand := some (.running .starting fired) }
  | led {artifact fired} (hh : q.hand = some (.running .starting fired)) :
      Move r q .other { q with
        hand := some (.running .compiling fired), thread := some .loading
        toHost := q.toHost ++ [.flightRegister (compileFlightRegisterFrame r artifact)] }
  | moved {p p' fired} (hh : q.hand = some (.running p fired)) (hp : p' ≠ .starting)
      (hc : ∀ request, p' = .checked request → fired = false) :
      Move r q .other { q with hand := some (.running p' fired) }
  | sent {request fired} (hh : q.hand = some (.running (.checked request) fired)) :
      Move r q .other { q with
        hand := some (.running (.waiting request) fired), toHost := q.toHost ++ [.io r request] }
  | began {p fired suppressed} (hh : q.hand = some (.running p fired)) :
      Move r q (.began suppressed) { q with hand := some (.publishing suppressed false) }
  | published (hh : q.hand = some (.publishing false false)) :
      Move r q .other { q with
        hand := some (.publishing false true), toHost := q.toHost ++ [.result r] }
  | ended {suppressed sent} (hh : q.hand = some (.publishing suppressed sent))
      (hs : sent = true ∨ suppressed = true) :
      Move r q .other { q with hand := none }
  | artifactRequested (ht : q.thread = some .loading) :
      Move r q .other { q with
        thread := some .requested, toHost := q.toHost ++ [.openHandle (artifactRequestIdOf r) r] }
  | artifactLoaded (ht : q.thread = some .requested) :
      Move r q .other { q with thread := some .loaded }
  | flightEnded {thread artifact} (ht : q.thread = some thread) :
      Move r q .other { q with
        thread := none
        toHost := q.toHost ++ [.flightComplete (compileFlightCompleteFrame r artifact)] }
  /-- The control thread may drop the queued job and may fire the flag. -/
  | revoked {keep hand} (hh : hand = q.hand ∨ hand = q.hand.map Hand.fire) :
      Move r q .other { q with queued := q.queued && keep, hand }

/-- The protocol of the request with id `r`. -/
def protocol (r : RequestId) : System Request Event where
  init q := q = {}
  step := Move r

/-! ### Frames to the host -/

def isRegister : RuntimeFrame → Bool
  | .flightRegister _ => true
  | _ => false

/-- A frame that the move from `q` to `q'` sends to the host. -/
inductive Sent (r : RequestId) (q q' : Request) : RuntimeFrame → Prop
  | result : Sent r q q' (.result r)
  | ack {d} : Sent r q q' (.cancelAck r d)
  | io {request fired} (hh : q.hand = some (.running (.checked request) fired)) :
      Sent r q q' (.io r request)
  | register {artifact fired} (hh : q.hand = some (.running .starting fired))
      (ht : q'.thread ≠ none) :
      Sent r q q' (.flightRegister (compileFlightRegisterFrame r artifact))
  | handle : Sent r q q' (.openHandle (artifactRequestIdOf r) r)
  | complete {artifact} (ht : q.thread ≠ none) :
      Sent r q q' (.flightComplete (compileFlightCompleteFrame r artifact))

section

variable {r : RequestId} {q q' : Request} {e : Event} (hm : Move r q e q')

include hm

/-- The frames to the host are a queue. -/
theorem toHost_move : q'.toHost = q.toHost ∨ (∃ f, q.toHost = f :: q'.toHost) ∨
    ∃ f, Sent r q q' f ∧ q'.toHost = q.toHost ++ [f] := by
  cases hm with
  | served ho | resulted ho | acknowledged ho | flightRegistered ho | flightCompleted ho
  | claimed ho => exact .inr (.inl ⟨_, ho⟩)
  | rejected | cancelQueued | published => exact .inr (.inr ⟨_, .result, rfl⟩)
  | posted => exact .inr (.inr ⟨_, .ack, rfl⟩)
  | led hh => exact .inr (.inr ⟨_, .register hh (by simp), rfl⟩)
  | sent hh => exact .inr (.inr ⟨_, .io hh, rfl⟩)
  | artifactRequested => exact .inr (.inr ⟨_, .handle, rfl⟩)
  | flightEnded ht => exact .inr (.inr ⟨_, .complete (by simp [ht]), rfl⟩)
  | _ => exact .inl rfl

theorem mem_toHost_move {f} (hf : f ∈ q'.toHost) : f ∈ q.toHost ∨ Sent r q q' f := by
  rcases toHost_move hm with he | ⟨g, he⟩ | ⟨g, hg, he⟩
  · exact .inl (he ▸ hf)
  · exact .inl (he ▸ List.mem_cons_of_mem _ hf)
  · rw [he, List.mem_append, List.mem_singleton] at hf
    rcases hf with hf | rfl
    exacts [.inl hf, .inr hg]

theorem pairwise_move {R} (h : q.toHost.Pairwise R)
    (hs : ∀ f, Sent r q q' f → ∀ a ∈ q.toHost, R a f) : q'.toHost.Pairwise R := by
  rcases toHost_move hm with he | ⟨g, he⟩ | ⟨g, hg, he⟩
  · exact he ▸ h
  · exact (he ▸ h).of_cons
  · rw [he, List.pairwise_append]
    simpa [h] using hs g hg

/-- A flight is that of the call just opened, or was there before; it is registered
only by the frame just read. -/
theorem flight_before {f} (hf : q'.flight = some f) :
    (f.registered = false ∧ q'.call = some .opened ∧ f.parentRequestId = r) ∨
      ∃ f₀, q.flight = some f₀ ∧ f₀.parentRequestId = f.parentRequestId ∧
        (f₀.registered = f.registered ∨
          f.registered = true ∧ ∃ g ∈ q.toHost, isRegister g = true) := by
  cases hm with try cases hf
  | opened => exact .inl ⟨rfl, rfl, rfl⟩
  | reconciled =>
    split_ifs at hf
    · exact .inr ⟨f, hf, rfl, .inl rfl⟩
    · exact .inr ⟨f, (Option.filter_eq_some_iff.mp hf).1, rfl, .inl rfl⟩
  | resulted => exact .inr ⟨f, (Option.filter_eq_some_iff.mp hf).1, rfl, .inl rfl⟩
  | flightRegistered ho hfl =>
    exact .inr ⟨_, hfl, rfl, .inr ⟨rfl, _, ho ▸ List.mem_cons_self, rfl⟩⟩
  | claimed _ hfl => exact .inr ⟨_, hfl, rfl, .inl rfl⟩
  | _ => exact .inr ⟨f, hf, rfl, .inl rfl⟩

end

/-! ### Order -/

/-- A request is in one place at a time: nothing is known of it before its call
is opened, or outside the host before the invocation is sent, or outside the
queue before the invocation is read; and only its own frames speak of it. -/
structure Sound (r : RequestId) (q : Request) : Prop where
  fresh : q.issued = none → q = {}
  opened : q.call = some .opened → q.toRuntime = [] ∧ q.toHost = [] ∧ q.main = .idle ∧
    q.queued = false ∧ q.hand = none ∧ q.thread = none
  unread : ∀ i, .invoke i ∈ q.toRuntime → q.toHost = [] ∧ q.main = .idle ∧ q.queued = false ∧
    q.hand = none ∧ q.thread = none
  first : ∀ i, .invoke i ∉ q.toRuntime.tail
  queued : q.queued = true → q.main = .idle ∧ q.hand = none
  flight : ∀ f, q.flight = some f → f.parentRequestId = r
  frames : ∀ frame, .flightRegister frame ∈ q.toHost ∨ .flightComplete frame ∈ q.toHost →
    frame.artifactRequestId = artifactRequestIdOf r
  handles : ∀ rid, .openHandle rid r ∈ q.toHost → rid = artifactRequestIdOf r

namespace Sound

variable {r : RequestId} {q q' : Request} {e : Event}

theorem init (r : RequestId) : Sound r {} := by
  constructor <;> simp

section

variable (h : Sound r q)

include h

/-- A request that was never issued makes no move but to be issued. -/
theorem fresh_move (hm : Move r q e q') : q'.issued = none → q' = {} := by
  intro hnone
  cases hm with
  | refused | opened => cases hnone
  | idle => exact h.fresh hnone
  | revoked hh =>
    obtain rfl := h.fresh hnone
    rcases hh with rfl | rfl <;> rfl
  | _ =>
    have hb := h.fresh hnone
    simp_all

/-- Before the invocation is written only the host moves. -/
theorem opened_move (hm : Move r q e q') :
    q'.call = some .opened → q'.toRuntime = [] ∧ q'.toHost = [] ∧ q'.main = .idle ∧
      q'.queued = false ∧ q'.hand = none ∧ q'.thread = none := by
  intro hc
  cases hm with
  | opened hq => simp [hq]
  | refused hq => simp [hq] at hc
  | written | abandoned | canceled | reconciled | returned => cases hc
  | resulted ho | acknowledged ho =>
    have hope : q.call = some .opened := by
      split_ifs at hc
      · cases hc
      · exact hc
    simp [(h.opened hope).2.1] at ho
  | idle => exact h.opened hc
  | revoked hh =>
    have hb := h.opened hc
    rcases hh with rfl | rfl <;> simp_all
  | _ => simp_all [h.opened hc]

theorem unread_tail {f rest} (hi : q.toRuntime = f :: rest) : ∀ i, .invoke i ∉ rest := by
  intro i
  have hfi := h.first i
  rwa [hi] at hfi

/-- Before the invocation is read the runtime does not move. -/
theorem unread_move (hm : Move r q e q') :
    ∀ i, .invoke i ∈ q'.toRuntime → q'.toHost = [] ∧ q'.main = .idle ∧ q'.queued = false ∧
      q'.hand = none ∧ q'.thread = none := by
  intro i hi
  cases hm with
  | refused hq | opened hq => simp [hq]
  | written hc => exact (h.opened hc).2
  | canceled =>
    have hi : .invoke i ∈ q.toRuntime := by simpa using hi
    exact h.unread i hi
  | enqueued _ hre | rejected hre | cancelQueued _ hre | cancelRunning _ hre
  | cancelComplete _ hre =>
    exact absurd hi (h.unread_tail hre i)
  | idle | abandoned | reconciled | returned => exact h.unread i hi
  | revoked hh =>
    have hb := h.unread i hi
    rcases hh with rfl | rfl <;> simp_all
  | _ =>
    have hb := h.unread i hi
    simp_all

theorem first_move (hm : Move r q e q') : ∀ i, .invoke i ∉ q'.toRuntime.tail := by
  intro i
  cases hm with
  | written hc => simp [(h.opened hc).1]
  | canceled =>
    have hfi := h.first i
    cases hq : q.toRuntime with
    | nil => simp
    | cons f rest => simpa [hq] using hfi
  | enqueued _ hre | rejected hre | cancelQueued _ hre | cancelRunning _ hre
  | cancelComplete _ hre =>
    exact fun hi => h.unread_tail hre i (List.mem_of_mem_tail hi)
  | _ => exact h.first i

theorem queued_move (hm : Move r q e q') : q'.queued = true → q'.main = .idle ∧ q'.hand = none := by
  intro hq
  cases hm with
  | enqueued _ hre =>
    have hi := h.unread _ (hre ▸ List.mem_cons_self)
    exact ⟨hi.2.1, hi.2.2.2.1⟩
  | cancelQueued | took => cases hq
  | revoked hh =>
    obtain ⟨hma, hha⟩ := h.queued (by simp_all)
    rcases hh with rfl | rfl <;> simp [hma, hha]
  | refused hb | opened hb => simp [hb] at hq
  | _ =>
    have hpl := h.queued hq
    simp_all

theorem flight_move (hm : Move r q e q') : ∀ f, q'.flight = some f → f.parentRequestId = r := by
  intro f hf
  obtain ⟨-, -, hr⟩ | ⟨f₀, hf₀, hpa, -⟩ := flight_before hm hf
  · exact hr
  · exact hpa ▸ h.flight f₀ hf₀

theorem frames_move (hm : Move r q e q') : ∀ frame,
    .flightRegister frame ∈ q'.toHost ∨ .flightComplete frame ∈ q'.toHost →
      frame.artifactRequestId = artifactRequestIdOf r := by
  intro frame hf
  rcases hf with hf | hf <;> rcases mem_toHost_move hm hf with hf | hf
  · exact h.frames frame (.inl hf)
  · cases hf
    rfl
  · exact h.frames frame (.inr hf)
  · cases hf
    rfl

theorem handles_move (hm : Move r q e q') :
    ∀ rid, .openHandle rid r ∈ q'.toHost → rid = artifactRequestIdOf r := by
  intro rid hf
  rcases mem_toHost_move hm hf with hf | hf
  · exact h.handles rid hf
  · cases hf
    rfl

theorem move (hm : Move r q e q') : Sound r q' :=
  ⟨h.fresh_move hm, h.opened_move hm, h.unread_move hm, h.first_move hm, h.queued_move hm,
    h.flight_move hm, h.frames_move hm, h.handles_move hm⟩

end

end Sound

end Request

end RedevPlugin.Exchange
