import RedevPlugin.Exchange.Refinement

/-! The invocations the host knows and the I/O requests that name them. The host
drops the entry of an invocation when its call returns, on a result or on the
acknowledgement of a cancellation, and a request that names a dropped one ends
the generation. A worker reads its flag before it sends, but the flag may be
fired and the cancellation acknowledged between the two. In runs where no flag is
fired there, the entry outlives every request of its invocation. -/

namespace RedevPlugin.Exchange

open Scheduler Transition RedevPlugin.Runtime RedevPlugin.Host ExchangeState

/-- A frame on which a call may return. -/
def RuntimeFrame.settles : RuntimeFrame → Bool
  | .result _ | .cancelAck .. => true
  | _ => false

def CallerPhase.settled : CallerPhase → Bool
  | .resulted | .acknowledged _ | .reconciled => true
  | _ => false

open CallerPhase (settled)

def MainPhase.settled : MainPhase → Bool
  | .cancelingRoutes _ | .acknowledging .. => true
  | _ => false

namespace Request

variable {r : RequestId} {q q' : Request} {e : Event}

/-- The call of the request has returned, or may return on what is under way. -/
def Settled (q : Request) : Prop :=
  (∃ f ∈ q.toHost, f.settles = true) ∨ q.call.any settled = true ∨
    (q.call = none ∧ q.issued ≠ none) ∨ q.main.settled = true

/-- Nothing starts the request, and a worker that runs it has its flag fired. -/
structure Still (q : Request) : Prop where
  unread : ∀ i, .invoke i ∉ q.toRuntime
  unqueued : q.queued = false
  fired : ∀ p b, q.hand = some (.running p b) → b = true

/-- A settled request is still. -/
def Quiet (q : Request) : Prop := q.Settled → q.Still

/-- A worker about to send has a request that is not settled; no I/O request is
behind a frame that settles; and the call of one under way is open. -/
structure Active (q : Request) : Prop where
  checked : ∀ request b, q.hand = some (.running (.checked request) b) → ¬ q.Settled
  ordered : q.toHost.Pairwise (fun a b => a.settles = true → isIoFrame b = false)
  expected : ∀ f ∈ q.toHost, isIoFrame f = true → q.call = some .waiting ∨ q.call = some .canceling

/-- The flag of the request is fired while no worker is between reading it and
sending. -/
def FiresUnchecked (r : RequestId) (q : Request) (e : Event) : Prop :=
  e = .fired → ∀ handle, q.main = .firing r handle →
    ∀ request b, q.hand ≠ some (.running (.checked request) b)

theorem Active.init : Active {} where
  checked := by simp
  ordered := .nil
  expected := by simp

theorem Settled.mono (h : q'.Settled) (hf : ∀ f ∈ q'.toHost, f.settles = true → f ∈ q.toHost)
    (hc : q'.call = q.call) (hi : q'.issued = q.issued)
    (hm : q'.main.settled = true → q.main.settled = true) : q.Settled := by
  unfold Settled at *
  rw [← hc, ← hi]
  rcases h with ⟨f, hmem, hse⟩ | hcall | hnone | hma
  · exact .inl ⟨f, hf f hmem hse, hse⟩
  · exact .inr (.inl hcall)
  · exact .inr (.inr (.inl hnone))
  · exact .inr (.inr (.inr (hm hma)))

/-- A request is settled by a move after which no worker runs it, or by the fired
flag. -/
theorem settled_move (hs : Sound r q) (hm : Move r q e q') (hset : q'.Settled) :
    q.Settled ∨ (∀ i, .invoke i ∉ q'.toRuntime) ∧ q'.queued = false ∧
      ∀ p b, q'.hand = some (.running p b) → e = .fired ∧ b = true := by
  cases hm with
  | refused hb => simp [hb]
  | opened hb => simp [Settled, hb, settled, MainPhase.settled] at hset
  | written hc =>
    obtain ⟨-, hho, hma, -⟩ := hs.opened hc
    simp [Settled, hho, hma, settled, MainPhase.settled] at hset
  | abandoned hc =>
    obtain ⟨hrt, -, -, hqu, hha, -⟩ := hs.opened hc
    simp [hrt, hqu, hha]
  | reconciled hc => exact .inl (.inr (.inl (by simp [hc, settled])))
  | returned hc =>
    left
    rcases hc with hc | hc <;> exact .inr (.inl (by simp [hc, settled]))
  | canceled =>
    rcases hset with hf | hcall | hnone | hma
    · exact .inl (.inl hf)
    · cases hcall
    · cases hnone.1
    · exact .inl (.inr (.inr (.inr hma)))
  | resulted ho | acknowledged ho =>
    exact .inl (.inl ⟨_, ho ▸ List.mem_cons_self, rfl⟩)
  | served ho | flightRegistered ho | flightCompleted ho | claimed ho =>
    exact .inl (hset.mono (fun f hf _ => ho ▸ List.mem_cons_of_mem _ hf) rfl rfl id)
  | rejected hi =>
    obtain ⟨-, -, hqu, hha, -⟩ := hs.unread _ (hi ▸ List.mem_cons_self)
    exact .inr ⟨hs.unread_tail hi, hqu, by simp [hha]⟩
  | cancelQueued _ hi hq => exact .inr ⟨hs.unread_tail hi, rfl, by simp [(hs.queued hq).2]⟩
  | cancelComplete _ hi hq hh => exact .inr ⟨hs.unread_tail hi, hq, fun p b h => (hh p b h).elim⟩
  | cancelRunning => exact .inl (hset.mono (fun f hf _ => hf) rfl rfl (by simp [MainPhase.settled]))
  | fired hma =>
    refine .inr ⟨fun i hi => ?_, ?_, fun p b hh => ⟨rfl, (Hand.running_of_fire hh).1⟩⟩
    · simp [(hs.unread i hi).2.1] at hma
    · exact Bool.eq_false_iff.mpr fun hq => by simp [(hs.queued hq).1] at hma
  | routesCanceled hma | posted hma =>
    exact .inl (.inr (.inr (.inr (by rw [hma]; rfl))))
  | published hh =>
    refine .inr ⟨fun i hi => ?_, ?_, by simp⟩
    · simp [(hs.unread i hi).2.2.2.1] at hh
    · exact Bool.eq_false_iff.mpr fun hq => by simp [(hs.queued hq).2] at hh
  | led | sent | artifactRequested | flightEnded =>
    refine .inl (hset.mono (fun f hf hse => ?_) rfl rfl id)
    rcases List.mem_append.mp hf with hf | hf
    · exact hf
    · cases List.mem_singleton.mp hf
      cases hse
  | _ => exact .inl hset

/-- A settled request stays still. -/
theorem Still.move (hs : Sound r q) (h : Still q) (hm : Move r q e q')
    (hset : q'.Settled) : Still q' := by
  cases hm with
  | opened hb => simp [Settled, hb, settled, MainPhase.settled] at hset
  | written hc =>
    obtain ⟨-, hho, hma, -⟩ := hs.opened hc
    simp [Settled, hho, hma, settled, MainPhase.settled] at hset
  | canceled => exact ⟨by simpa using h.unread, h.unqueued, h.fired⟩
  | enqueued _ hi => exact absurd (hi ▸ List.mem_cons_self) (h.unread _)
  | rejected hi | cancelRunning _ hi | cancelComplete _ hi =>
    exact ⟨hs.unread_tail hi, h.unqueued, h.fired⟩
  | cancelQueued _ _ hq | took hq => simp [h.unqueued] at hq
  | fired => exact ⟨h.unread, h.unqueued, fun p b hh => (Hand.running_of_fire hh).1⟩
  | led hh | moved hh | sent hh =>
    refine ⟨h.unread, h.unqueued, fun p b hrun => ?_⟩
    cases hrun
    exact h.fired _ _ hh
  | began | published | ended => exact ⟨h.unread, h.unqueued, by simp⟩
  | revoked hh =>
    refine ⟨h.unread, by simp [h.unqueued], fun p b hrun => ?_⟩
    rcases hh with rfl | rfl
    · exact h.fired p b hrun
    · exact (Hand.running_of_fire hrun).1
  | _ => exact ⟨h.unread, h.unqueued, h.fired⟩

theorem Quiet.init : Quiet {} := fun _ => by constructor <;> simp

theorem Quiet.move (hs : Sound r q) (h : Quiet q) (hm : Move r q e q') : Quiet q' := by
  intro hset
  rcases settled_move hs hm hset with hb | ⟨hunr, hun, hfi⟩
  · exact (h hb).move hs hm hset
  · exact ⟨hunr, hun, fun p b hh => (hfi p b hh).2⟩

/-- A worker that read its flag before the move was about to send then. -/
theorem checked_move {request b} (hm : Move r q e q')
    (hh : q'.hand = some (.running (.checked request) b)) :
    (∃ b', q.hand = some (.running (.checked request) b')) ∨
      b = false ∧ ∃ p, q.hand = some (.running p false) := by
  cases hm with
  | refused hb | opened hb => simp [hb] at hh
  | took | led | sent | began | published | ended => cases hh
  | moved hp _ hc =>
    cases hh
    obtain rfl := hc _ rfl
    exact .inr ⟨rfl, _, hp⟩
  | fired => exact .inl (Hand.running_of_fire hh).2
  | revoked hha =>
    rcases hha with rfl | rfl
    · exact .inl ⟨b, hh⟩
    · exact .inl (Hand.running_of_fire hh).2
  | _ => exact .inl ⟨b, hh⟩

theorem Active.checked_move (hs : Sound r q) (hq : Quiet q) (h : Active q)
    (hg : FiresUnchecked r q e) (hm : Move r q e q') (request : IORequest) (b : Bool)
    (hh : q'.hand = some (.running (.checked request) b)) : ¬ q'.Settled := by
  intro hset
  rcases settled_move hs hm hset with hbe | ⟨-, -, hfi⟩
  · rcases Request.checked_move hm hh with ⟨b', hb'⟩ | ⟨-, p, hrun⟩
    · exact h.checked request b' hb' hbe
    · simpa using (hq hbe).fired p false hrun
  · obtain ⟨rfl, rfl⟩ := hfi _ _ hh
    rcases Request.checked_move hm hh with ⟨b', hbe⟩ | ⟨hb, -⟩
    · cases hm with
      | fired hma => exact hg rfl _ hma request b' hbe
    · cases hb

theorem Active.ordered_move (h : Active q) (hm : Move r q e q') :
    q'.toHost.Pairwise (fun a b => a.settles = true → isIoFrame b = false) := by
  refine pairwise_move hm h.ordered fun f hf a ha hse => ?_
  cases hf with
  | io hh => exact absurd (.inl ⟨a, ha, hse⟩) (h.checked _ _ hh)
  | _ => rfl

/-- A request that a worker runs and that is not settled has an open call. -/
theorem call_of_running (hs : Sound r q) (hset : ¬ q.Settled) {hand} (hh : q.hand = some hand) :
    q.call = some .waiting ∨ q.call = some .canceling := by
  have hiss : q.issued ≠ none := fun hnone => by simp [hs.fresh hnone] at hh
  have hope : q.call ≠ some .opened := fun hc => by simp [(hs.opened hc).2.2.2.2.1] at hh
  simp only [Settled, not_or] at hset
  obtain ⟨-, hcall, hnone, -⟩ := hset
  cases hc : q.call with
  | none => exact absurd ⟨hc, hiss⟩ hnone
  | some phase =>
    cases phase <;> simp_all [settled]

theorem Active.expected_move (hs : Sound r q) (h : Active q) (hm : Move r q e q') :
    ∀ f ∈ q'.toHost, isIoFrame f = true → q'.call = some .waiting ∨ q'.call = some .canceling := by
  intro f hf hio
  -- the frame that settles is in front of every other one
  have hla : ∀ g rest, q.toHost = g :: rest → g.settles = true → f ∈ rest → False := by
    intro g rest ho hse hre
    have hor := h.ordered
    rw [ho] at hor
    simp [List.rel_of_pairwise_cons hor hre hse] at hio
  have hold : f ∈ q.toHost → q.call = some .waiting ∨ q.call = some .canceling :=
    fun hmem => h.expected f hmem hio
  have hnew := mem_toHost_move hm hf
  cases hm with
  | refused hb | opened hb => simp [hb] at hf
  | written => exact .inl rfl
  | abandoned hc | reconciled hc =>
    simp only [hc, Option.some.injEq, reduceCtorEq, or_self] at hold
    exact (hold hf).elim
  | returned hc =>
    rcases hc with hc | hc <;> simp only [hc, Option.some.injEq, reduceCtorEq, or_self] at hold
    all_goals exact (hold hf).elim
  | canceled => exact .inr rfl
  | resulted ho | acknowledged ho => exact (hla _ _ ho rfl hf).elim
  | _ =>
    rcases hnew with hf | hf
    · exact hold hf
    · cases hf with
      | io hh => exact (call_of_running hs (h.checked _ _ hh) hh :)
      | _ => cases hio

theorem Active.move (hs : Sound r q) (hq : Quiet q) (h : Active q) (hg : FiresUnchecked r q e)
    (hm : Move r q e q') : Active q' :=
  ⟨h.checked_move hs hq hg hm, h.ordered_move hm, h.expected_move hs hm⟩

end Request

variable {n : ℕ} {limits : RuntimeLimits} {g : String} {s t : ExchangeState n}

/-- The invocation a worker or a frame speaks for. -/
def SpeaksFor (s : ExchangeState n) (r : RequestId) (request : IORequest) : Prop :=
  ∃ i, s.issued.lookup r = some i ∧ i.prewarm = false ∧ request.invocationId = i.invocationId

/-- An open call has its entry, and requests name the invocation of their job. -/
structure Bound (s : ExchangeState n) : Prop where
  trimmed : ∀ r i, s.issued.lookup r = some i → Text.trim i.invocationId = i.invocationId
  entries : ∀ r call, s.calls.lookup r = some call → call.invocation.prewarm = false →
    s.pendingInvocations.lookup call.invocation.invocationId = some call.invocation
  workers : ∀ w job request, s.runtime.workers w = .running job →
    s.positions w = .registered request ∨ s.positions w = .checked request →
      SpeaksFor s job.requestId request
  frames : ∀ r request, .io r request ∈ s.outbox → SpeaksFor s r request

variable {r : RequestId}

namespace Bound

theorem init : Bound ({} : ExchangeState n) := by
  constructor <;> simp

variable {out : ExchangeOutput} {op : ExchangeOp n} {request : IORequest}

theorem trimmed_step (h : Bound s) (hs : Step limits g s op out t) :
    ∀ r i, t.issued.lookup r = some i → Text.trim i.invocationId = i.invocationId := by
  intro r i hi
  rcases issued_before hs hi with hi | ⟨-, htr⟩
  exacts [h.trimmed r i hi, htr]

theorem entries_step (hr : Refined s) (h : Bound s) (hs : Step limits g s op out t) :
    ∀ r call, t.calls.lookup r = some call → call.invocation.prewarm = false →
      t.pendingInvocations.lookup call.invocation.invocationId = some call.invocation := by
  intro r call hc hprewarm
  have hsame : (∃ before, s.calls.lookup r = some before ∧
      before.invocation = call.invocation) →
      s.pendingInvocations.lookup call.invocation.invocationId = some call.invocation := by
    rintro ⟨before, hb, he⟩
    rw [← he] at hprewarm ⊢
    exact h.entries r before hb hprewarm
  -- the entry that is dropped is that of the call itself
  have hdr : ∀ gone, s.calls.lookup gone.invocation.requestId = some gone →
      (s.unregister gone).calls.lookup r = some call →
      (s.unregister gone).pendingInvocations.lookup call.invocation.invocationId =
        some call.invocation := by
    intro gone hg hl
    obtain ⟨hne, hl⟩ := Finmap.lookup_of_erase hl
    have hen := h.entries r call hl hprewarm
    simp only [unregister]
    split_ifs with hco
    · rw [Finmap.lookup_erase_ne]
      · exact hen
      · intro he
        simp only [Bool.and_eq_true, decide_eq_true_eq] at hco
        rw [he, hco.2] at hen
        refine hne ?_
        rw [← hr.requestId_of_call hl, Option.some.inj hen]
    · exact hen
  cases hs with
  | @opened _ _ _ _ hpending =>
    simp only [Finmap.lookup_insert_ite] at hc
    simp only [addPendingInvocation]
    split_ifs at hc with hnew
    · cases hc
      simp only at hprewarm
      simp [hprewarm]
    · have hen := h.entries r call hc hprewarm
      split_ifs with hp
      · exact hen
      · rw [Finmap.lookup_insert_of_ne]
        · exact hen
        · intro he
          exact hpending (by simpa using hp) (he ▸ Finmap.mem_of_lookup_eq_some hen)
  | written hid | reconciled hid | canceled hid => exact hsame (setPhase_calls hid hc)
  | abandoned hid | returned hid =>
    refine hdr _ ?_ hc
    rwa [hr.requestId_of_call hid]
  | resulted | acknowledged =>
    have hbe := deliver_calls hc
    rw [deliver_rest]
    exact hsame hbe
  | violated | failed => simp [fail] at hc
  | _ => exact h.entries r call hc hprewarm

theorem speaksFor_step (hs : Step limits g s op out t)
    (h : SpeaksFor s r request) : SpeaksFor t r request :=
  let ⟨i, hi, hre⟩ := h
  ⟨i, issued_after hs hi, hre⟩

theorem frames_step (h : Bound s) (hs : Step limits g s op out t) :
    ∀ r request, .io r request ∈ t.outbox → SpeaksFor t r request := by
  intro r request hf
  have hk : .io r request ∈ s.outbox → SpeaksFor t r request :=
    fun hmem => speaksFor_step hs (h.frames r request hmem)
  have hstep := hs
  cases hs with
  | served ho | flightRegistered ho | flightCompleted ho | claimed ho =>
    exact hk (ho ▸ List.mem_cons_of_mem _ hf)
  | resulted ho | acknowledged ho =>
    rw [deliver_rest] at hf
    exact hk (ho ▸ List.mem_cons_of_mem _ hf)
  | rejected | cancelQueued | posted | led | published | artifactRequested | flightEnded =>
    exact hk (by simpa [ExchangeState.post, setPosition] using hf)
  | sent hw hp =>
    rcases List.mem_append.mp hf with hf | hf
    · exact hk hf
    · simp only [List.mem_singleton, RuntimeFrame.io.injEq] at hf
      obtain ⟨rfl, rfl⟩ := hf
      exact speaksFor_step hstep (h.workers _ _ _ hw (.inr hp))
  | _ => exact hk hf

/-- A worker keeps its request from the registration of the route on. -/
theorem workers_step (h : Bound s) (hs : Step limits g s op out t) :
    ∀ w job request, t.runtime.workers w = .running job →
      t.positions w = .registered request ∨ t.positions w = .checked request →
      SpeaksFor t job.requestId request := by
  intro w job request hw hp
  have hke : t.runtime.workers w = s.runtime.workers w → t.positions w = s.positions w →
      SpeaksFor t job.requestId request := by
    intro hwo hpos
    exact speaksFor_step hs (h.workers w job request (hwo ▸ hw) (hpos ▸ hp))
  have hstep := hs
  cases hs with
  | resulted | acknowledged =>
    exact hke (by rw [deliver_rest]) (by rw [deliver_rest])
  | enqueued _ _ hr | rejected _ _ hr =>
    exact hke (congrFun (RuntimeState.enqueue_frame hr).2 w) rfl
  | controlled hop hr => exact hke (congrFun (control_routes hop hr).1 w) rfl
  | @took k _ _ hr =>
    by_cases hk : w = k
    · subst hk
      simp at hp
    · exact hke ((RuntimeState.take_frame hr).2.2 w hk) (setPosition_of_ne _ _ hk)
  | @began k _ _ hpos hr =>
    by_cases hk : w = k
    · subst hk
      rcases hpos with hpos | hpos <;> simp [hpos] at hp
    · exact hke ((RuntimeState.beginCompletion_frame hr).2 w hk) rfl
  | @published k | @ended k =>
    by_cases hk : w = k
    · subst hk
      simp [RuntimeState.setWorker, ExchangeState.post] at hw
    · exact hke (Function.update_of_ne hk ..) rfl
  | @registered k _ job' i _ _ _ _ hw' _ hi hprewarm hreq =>
    by_cases hk : w = k
    · subst hk
      simp only [setPosition_self, Position.registered.injEq, reduceCtorEq, or_false] at hp
      subst hp
      obtain rfl : job' = job := Worker.running.inj (hw'.symm.trans hw)
      exact ⟨i, hi, hprewarm, (rawIORequest_ids hreq).2⟩
    · exact hke rfl (setPosition_of_ne _ _ hk)
  | @checkPassed k job' _ hw' hp' =>
    by_cases hk : w = k
    · subst hk
      simp only [setPosition_self, Position.checked.injEq, reduceCtorEq, false_or] at hp
      subst hp
      obtain rfl : job' = job := Worker.running.inj (hw'.symm.trans hw)
      exact speaksFor_step hstep (h.workers w _ _ hw' (.inl hp'))
    · exact hke rfl (setPosition_of_ne _ _ hk)
  | @led k | @compiled k | @checkFailed k
  | @checkCanceled k | @sent k | @resumed k =>
    by_cases hk : w = k
    · subst hk
      simp [ExchangeState.post] at hp
    · exact hke rfl (setPosition_of_ne _ _ hk)
  | _ => exact hke rfl rfl

theorem step (hr : Refined s) (h : Bound s) (hs : Step limits g s op out t) : Bound t :=
  ⟨h.trimmed_step hs, h.entries_step hr hs, h.workers_step hs, h.frames_step hs⟩

end Bound

/-- The request for which a worker has read the flag and not sent yet. -/
def aboutToSend (s : ExchangeState n) (w : Fin n) : Option RequestId :=
  match s.runtime.workers w, s.positions w with
  | .running job, .checked _ => some job.requestId
  | _, _ => none

/-- The main thread fires the flag of a request only while no worker is about to
send for it. -/
def firesUnchecked (s : ExchangeState n) : ExchangeOp n → Bool
  | .fire =>
    match s.main with
    | .firing r _ => decide (∀ w, aboutToSend s w ≠ some r)
    | _ => true
  | _ => true

variable {request : IORequest}

theorem aboutToSend_of_hand {b} (h : s.hand r = some (.running (.checked request) b)) :
    ∃ w, aboutToSend s w = some r := by
  obtain ⟨w, hw⟩ := exists_of_hand h
  refine ⟨w, ?_⟩
  unfold handOf at hw
  unfold aboutToSend
  cases hwo : s.runtime.workers w with
  | idle => simp [hwo] at hw
  | publishing =>
    simp only [hwo] at hw
    split_ifs at hw
    cases hw
  | running =>
    simp only [hwo] at hw
    split_ifs at hw with hid
    simp only [Option.some.injEq, Hand.running.injEq] at hw
    simp [hw.1, hid]

/-- What the guard says of each request. -/
theorem firesUnchecked_request {l} (hg : firesUnchecked s l.1 = true) (r : RequestId)
    (e : Request.Event) (he : sees r s l e) : (s.request r).FiresUnchecked r e := by
  rintro rfl handle hma request b hh
  obtain ⟨w, hw⟩ := aboutToSend_of_hand hh
  have hfi : s.main = .firing r handle := by
    simp only [ExchangeState.request] at hma
    split_ifs at hma with hr
    exact hma
  change l.1 = .fire at he
  simp only [he, firesUnchecked, hfi, decide_eq_true_eq] at hg
  exact hg w hw

/-- A request that the host has not read, or that a worker is about to send. -/
def UnderWay (s : ExchangeState n) (r : RequestId) (request : IORequest) : Prop :=
  .io r request ∈ s.outbox ∨ ∃ w job, s.runtime.workers w = .running job ∧ job.requestId = r ∧
    s.positions w = .checked request

theorem entry_of_underWay (hr : Refined s) (hb : Bound s) (ha : ∀ r, (s.request r).Active)
    (h : UnderWay s r request) :
    ∃ i, s.pendingInvocations.lookup (Text.trim request.invocationId) = some i ∧
      i.requestId = r ∧ i.invocationId = Text.trim request.invocationId := by
  have hcall : (s.request r).call = some .waiting ∨ (s.request r).call = some .canceling := by
    rcases h with h | ⟨w, job, hw, rfl, hp⟩
    · exact (ha r).expected _ (List.mem_filter.mpr ⟨h, by simp [RuntimeFrame.about]⟩) rfl
    · have hha : (s.request job.requestId).hand = _ := hand_running hr.held hw
      rw [hp] at hha
      exact Request.call_of_running (hr.sound _) ((ha _).checked _ _ hha) hha
  obtain ⟨call, hc⟩ : ∃ call, s.calls.lookup r = some call := by
    rcases hcall with hcall | hcall <;>
      exact (Option.map_eq_some_iff.mp hcall).imp fun call h => h.1
  obtain ⟨i, hi, hprewarm, hid⟩ : SpeaksFor s r request := by
    rcases h with h | ⟨w, job, hw, rfl, hp⟩
    · exact hb.frames r request h
    · exact hb.workers w job request hw (.inr hp)
  obtain rfl : call.invocation = i := Option.some.inj ((hr.calls r call hc).symm.trans hi)
  rw [hid, hb.trimmed r _ hi]
  exact ⟨_, hb.entries r call hc hprewarm, hr.issued r _ hi, rfl⟩

/-- Only an I/O request can name an invocation that is not active. -/
theorem accept_inactive {frame} (h : s.accept frame = .error .invocationNotActive) :
    ∃ parent request, frame = .io parent request ∧
      ∀ i, s.pendingInvocations.lookup (Text.trim request.invocationId) = some i →
        i.invocationId ≠ Text.trim request.invocationId := by
  rcases accept_error h with ⟨parent, request, rfl, hd⟩ | hv
  · refine ⟨parent, request, rfl, ?_⟩
    rcases dispatchRuntimeIOFrame_some hd with hv | hsl
    · simp at hv
    rcases takeIORouteSlot_some hsl with ⟨-, hnone⟩ | ⟨hv, -⟩
    · exact hnone
    · cases hv
  · simp at hv

/-- In runs where no flag is fired between a worker's look at it and its send, the
host has the entry of every I/O request under way, and refuses none of them for an
invocation that is not active. -/
theorem io_requests_active (limits : RuntimeLimits) (g : String)
    {tr : List ((ExchangeOp limits.workerCount × ExchangeOutput) ×
      ExchangeState limits.workerCount)}
    (hr : (exchange limits g).Run {} tr)
    (hg : Guarded (fun _ s l => firesUnchecked s l.1) [] {} tr) :
    (∀ u ∈ states {} tr, u.ended = false → ∀ r request, UnderWay u r request →
      ∃ i, u.pendingInvocations.lookup (Text.trim request.invocationId) = some i ∧
        i.requestId = r) ∧
    ∀ op frame, (op, ExchangeOutput.violated frame .invocationNotActive) ∉ labels tr := by
  have hsim := (exchange_refines limits g).and (J := Bound)
    (fun s hs => by rw [hs]; exact Bound.init)
    (fun s l t hs hb ht => hb.step hs (step_of_exchange ht))
  have hall := hsim.forall_views (I := fun r q => q.Sound r ∧ q.Quiet ∧ q.Active)
    (G := Request.FiresUnchecked)
    (fun r q hq => by rw [hq]; exact ⟨.init r, .init, .init⟩)
    (fun r q e q' hI he hm => ⟨hI.1.move hm, hI.2.1.move hI.1 hm, hI.2.2.move hI.1 hI.2.1 he hm⟩)
    (fun _ s l _ hg r e he => firesUnchecked_request hg r e he) rfl hr hg
  have hentry : ∀ u ∈ states {} tr, u.ended = false → ∀ r request, UnderWay u r request →
      ∃ i, u.pendingInvocations.lookup (Text.trim request.invocationId) = some i ∧
        i.requestId = r ∧ i.invocationId = Text.trim request.invocationId := by
    intro u hu he r request h
    obtain ⟨⟨hrefined, hbound⟩, hviews⟩ := hall u hu he
    exact entry_of_underWay hrefined hbound (fun r => (hviews r).2.2) h
  refine ⟨fun u hu he r request h => ?_, fun op frame hm => ?_⟩
  · obtain ⟨i, hi, hid, -⟩ := hentry u hu he r request h
    exact ⟨i, hi, hid⟩
  · obtain ⟨s, t, hstep⟩ := exists_step_of_label hm
    refine hr.forall_steps (P := fun _ l _ => l ≠ (op, .violated frame .invocationNotActive)) ?_
      hentry _ hstep rfl
    rintro s l t hs ht rfl
    have hended : s.ended = false := (perform_step ht).1
    cases step_of_exchange ht with
    | violated ho hv =>
      obtain ⟨parent, request, rfl, hnone⟩ := accept_inactive hv
      obtain ⟨i, hi, -, hid⟩ := hs hended parent request (.inl (ho ▸ List.mem_cons_self))
      exact hnone i hi hid

/-- A request is cancelled after the worker has sent and before it sends again. -/
theorem io_requests_active_canceled :
    (labels (exchangeRun oneWorker "g" (startOps none ++ [.register 0 (.read 7 16), .check 0,
      .send 0, .cancelCall "a", .readInput, .fire, .cancelRoutes, .acknowledge,
      .readFrame]))).getLast?.map Prod.snd =
        some (.read (.io "a" ⟨.ioRead, 1, "v", 7, 16, 0, 0, 0, 0⟩)) ∧
    ∀ op frame, (op, ExchangeOutput.violated frame .invocationNotActive) ∉
      labels (exchangeRun oneWorker "g" (startOps none ++ [.register 0 (.read 7 16), .check 0,
        .send 0, .cancelCall "a", .readInput, .fire, .cancelRoutes, .acknowledge, .readFrame])) :=
  ⟨rfl, (io_requests_active oneWorker "g" (System.run_trace _ _ _ _) (by decide)).2⟩

/-- The flag is fired and the cancellation acknowledged after the worker has read
the flag; its request then names an invocation the host has dropped. -/
theorem request_after_acknowledgement :
    validateRuntimeLimits oneWorker = .ok () ∧
      ∃ tr, (exchange oneWorker "g").Run {} tr ∧
        (labels tr).getLast? = some (.readFrame,
          .violated (.io "a" ⟨.ioRead, 1, "v", 7, 16, 0, 0, 0, 0⟩) .invocationNotActive) :=
  ⟨rfl, exchangeRun oneWorker "g" (startOps none ++ [.register 0 (.read 7 16), .check 0,
    .cancelCall "a", .readInput, .fire, .cancelRoutes, .acknowledge, .readFrame, .reconcile "a",
    .returnCall "a", .send 0, .readFrame]), System.run_trace _ _ _ _, rfl⟩

end RedevPlugin.Exchange
