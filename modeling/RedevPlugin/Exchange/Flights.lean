import RedevPlugin.Exchange.Refinement

/-! The host's compile flights along a run. The intent of an invocation is removed
on its result, or on the acknowledgement of a cancellation that found the job
queued or complete; a registered flight only on its completion. A job whose
session is revoked has no result. Its intent is then removed by the cancellation
of the call, unless that has found the job running: such an intent stays until
the generation ends. In runs where no result is suppressed after that, a request
that is finished leaves nothing. -/

namespace RedevPlugin.Exchange

open Scheduler Transition RedevPlugin.Runtime RedevPlugin.Host ExchangeState

/-! ### Cancellations under way -/

def isCancel : HostFrame → Bool
  | .cancelInvoke _ => true
  | _ => false

def isAck : RuntimeFrame → Bool
  | .cancelAck .. => true
  | _ => false

def isComplete : RuntimeFrame → Bool
  | .flightComplete _ => true
  | _ => false

namespace Request

variable {r : RequestId} {q q' : Request} {e : Event}

/-- The cancellations on their way to the runtime, in it and on their way back. -/
def cancellations (q : Request) : ℕ :=
  q.toRuntime.countP isCancel + (if q.main = .idle then 0 else 1) + q.toHost.countP isAck

/-- A cancellation is under way exactly while the caller waits for it. -/
def Canceling (q : Request) : Prop := q.cancellations = if q.call = some .canceling then 1 else 0

theorem Canceling.init : Canceling {} := rfl

theorem Canceling.acknowledged (h : Canceling q) {d rest} (ho : q.toHost = .cancelAck r d :: rest) :
    q.call = some .canceling := by
  by_contra hc
  unfold Canceling cancellations at h
  rw [ho, List.countP_cons_of_pos rfl, if_neg hc] at h
  omega

theorem Canceling.move (h : Canceling q) (hm : Move r q e q') : Canceling q' := by
  have hco := h
  unfold Canceling cancellations at h ⊢
  cases hm with
  | refused hb | opened hb => simp [hb]
  | canceled hc =>
    have hidle : q.call ≠ some .canceling := by rcases hc with hc | hc <;> simp [hc]
    simp only [if_neg hidle] at h
    simp only [List.countP_append, List.countP_singleton, isCancel, if_true]
    omega
  | returned hc => rcases hc with hc | hc <;> simpa [hc] using h
  | resulted ho =>
    rw [ho, List.countP_cons_of_neg (by simp [isAck])] at h
    by_cases hc : q.call = some .waiting <;> simpa [hc] using h
  | acknowledged ho =>
    have hcall := hco.acknowledged ho
    rw [ho, List.countP_cons_of_pos rfl] at h
    simp only [hcall, if_true, Option.some.injEq, reduceCtorEq, if_false] at h ⊢
    omega
  | cancelQueued hma hi | cancelRunning hma hi | cancelComplete hma hi =>
    rw [hi, hma, List.countP_cons_of_pos rfl] at h
    simp only [if_true] at h
    simp [isAck]
    omega
  | posted hma =>
    rw [hma] at h
    simp at h
    simp [isAck]
    omega
  | _ => simp_all [isCancel, isAck]

/-! ### Registered flights -/

/-- The completion of the flight is sent or will be. -/
def Completes (q : Request) : Prop := q.thread ≠ none ∨ ∃ f ∈ q.toHost, isComplete f = true

/-- A flight is registered before it is completed, by a worker that found no
module, and once it is announced its completion will come. -/
structure Flying (q : Request) : Prop where
  registered : ∀ f, q.flight = some f → f.registered = true → q.Completes
  announced : ∀ f ∈ q.toHost, isRegister f = true → q.Completes
  ordered : q.toHost.Pairwise (fun a b => isComplete a = true → isRegister b = false)
  starting : (q.queued = true ∨ ∃ b, q.hand = some (.running .starting b)) →
    q.thread = none ∧ ∀ f ∈ q.toHost, isComplete f = false

theorem Flying.init : Flying {} := by
  constructor <;> simp [Completes]

/-- A completion is under way until the host reads it. -/
theorem Completes.move (h : Completes q) (hm : Move r q e q') :
    q'.Completes ∨ q'.flight = none ∧ ∃ f, q.toHost = f :: q'.toHost ∧ isComplete f = true := by
  have hre : ∀ {f rest}, q.toHost = f :: rest → isComplete f = false →
      q.thread ≠ none ∨ ∃ f ∈ rest, isComplete f = true := by
    intro f rest ho hf
    refine h.imp id ?_
    rintro ⟨f', hf', hco⟩
    rw [ho] at hf'
    rcases List.mem_cons.mp hf' with rfl | hf'
    · simp [hf] at hco
    · exact ⟨f', hf', hco⟩
  have hap : ∀ f, q.thread ≠ none ∨ ∃ f' ∈ q.toHost ++ [f], isComplete f' = true := by
    intro f
    exact h.imp id fun ⟨f', hf', hco⟩ => ⟨f', List.mem_append_left _ hf', hco⟩
  cases hm with
  | refused hb | opened hb => simp [hb, Completes] at h
  | served ho | resulted ho | acknowledged ho | flightRegistered ho | claimed ho =>
    exact .inl (hre ho rfl)
  | flightCompleted ho => exact .inr ⟨rfl, _, ho, rfl⟩
  | rejected | cancelQueued | posted | sent | published => exact .inl (hap _)
  | led | artifactRequested | artifactLoaded => exact .inl (.inl (by simp))
  | flightEnded => exact .inl (.inr ⟨_, List.mem_append_right _ List.mem_cons_self, rfl⟩)
  | _ => exact .inl h

variable {f : PendingCompileFlight}

theorem registered_move (hm : Move r q e q') (hf : q'.flight = some f)
    (hreg : f.registered = true) :
    (∃ f, q.flight = some f ∧ f.registered = true) ∨ ∃ f ∈ q.toHost, isRegister f = true := by
  obtain ⟨hnot, -⟩ | ⟨f₀, hf₀, -, heq | ⟨-, hmem⟩⟩ := flight_before hm hf
  · cases hreg.symm.trans hnot
  · exact .inl ⟨f₀, hf₀, heq.trans hreg⟩
  · exact .inr hmem

section

variable (h : Flying q) (hm : Move r q e q')

include h hm

theorem Flying.registered_move : ∀ f, q'.flight = some f → f.registered = true → q'.Completes := by
  intro f hf hreg
  have hco : q.Completes := by
    rcases Request.registered_move hm hf hreg with ⟨f, hf, hreg⟩ | ⟨f, hf, hreg⟩
    · exact h.registered f hf hreg
    · exact h.announced f hf hreg
  rcases hco.move hm with hk | ⟨hnone, -⟩
  · exact hk
  · simp [hnone] at hf

theorem Flying.announced_move : ∀ f ∈ q'.toHost, isRegister f = true → q'.Completes := by
  intro f hf hreg
  have hold : f ∈ q.toHost → q'.Completes := by
    intro hmem
    rcases (h.announced f hmem hreg).move hm with hk | ⟨-, g, ho, hg⟩
    · exact hk
    · -- nothing is registered behind its completion
      have hor := h.ordered
      rw [ho] at hor
      simp [List.rel_of_pairwise_cons hor hf hg] at hreg
  rcases mem_toHost_move hm hf with hf | hf
  · exact hold hf
  · cases hf with
    | register _ ht => exact .inl ht
    | _ => cases hreg

theorem Flying.ordered_move :
    q'.toHost.Pairwise (fun a b => isComplete a = true → isRegister b = false) := by
  refine pairwise_move hm h.ordered fun f hf a ha hco => ?_
  cases hf with
  | register hh => simp [(h.starting (.inr ⟨_, hh⟩)).2 a ha] at hco
  | _ => rfl

end

/-- A worker that starts the request had it before, or took it from the queue. -/
theorem starting_before (hs : Sound r q) (hm : Move r q e q')
    (h : q'.queued = true ∨ ∃ b, q'.hand = some (.running .starting b)) :
    (q.queued = true ∨ ∃ b, q.hand = some (.running .starting b)) ∨
      q.toHost = [] ∧ q.thread = none ∧ q'.toHost = [] ∧ q'.thread = none := by
  cases hm with
  | refused hb | opened hb => simp [hb]
  | enqueued _ hi =>
    obtain ⟨hho, -, -, -, hth⟩ := hs.unread _ (hi ▸ List.mem_cons_self)
    exact .inr ⟨hho, hth, hho, hth⟩
  | took hq | cancelQueued _ _ hq => exact .inl (.inl hq)
  | led | sent | began | published | ended => exact .inl (h.imp id (by simp))
  | moved _ hp =>
    refine .inl (h.imp id ?_)
    rintro ⟨b, hh⟩
    cases hh
    exact absurd rfl hp
  | fired => exact .inl (h.imp id fun ⟨b, hh⟩ => (Hand.running_of_fire hh).2)
  | revoked hha =>
    refine .inl (h.imp (by simp_all) ?_)
    rintro ⟨b, hh⟩
    rcases hha with rfl | rfl
    · exact ⟨b, hh⟩
    · exact (Hand.running_of_fire hh).2
  | _ => exact .inl h

theorem Flying.starting_move (hs : Sound r q) (h : Flying q) (hm : Move r q e q')
    (hsta : q'.queued = true ∨ ∃ b, q'.hand = some (.running .starting b)) :
    q'.thread = none ∧ ∀ f ∈ q'.toHost, isComplete f = false := by
  rcases starting_before hs hm hsta with hbe | ⟨-, -, hho, hth⟩
  · obtain ⟨hth, hnone⟩ := h.starting hbe
    refine ⟨?_, fun f hf => ?_⟩
    · cases hm with
      | led hh =>
        rcases hsta with hq | ⟨b, hh'⟩
        · simp [(hs.queued hq).2] at hh
        · cases hh'
      | artifactRequested ht | artifactLoaded ht => simp [hth] at ht
      | flightEnded => rfl
      | _ => exact hth
    · rcases mem_toHost_move hm hf with hf | hf
      · exact hnone f hf
      · cases hf with
        | complete ht => exact absurd hth ht
        | _ => rfl
  · exact ⟨hth, by simp [hho]⟩

theorem Flying.move (hs : Sound r q) (h : Flying q) (hm : Move r q e q') : Flying q' :=
  ⟨h.registered_move hm, h.announced_move hm, h.ordered_move hm, h.starting_move hs hm⟩

/-! ### Intents -/

/-- A frame, a place of the main thread or of the caller on which the intent is
removed, or a worker that will send such a frame. -/
def clearingFrame : RuntimeFrame → Bool
  | .result _ => true
  | .cancelAck _ d => d ≠ .running
  | _ => false

def clearingMain : MainPhase → Bool
  | .acknowledging _ d => d ≠ .running
  | _ => false

def clearingCall : CallerPhase → Bool
  | .opened | .waiting => true
  | .acknowledged d => d ≠ .running
  | _ => false

def clearingHand : Hand → Bool
  | .running .. => true
  | .publishing suppressed sent => !suppressed && !sent

@[simp] theorem any_clearingHand_fire (hand : Option Hand) :
    (hand.map Hand.fire).any clearingHand = hand.any clearingHand := by
  cases hand with
  | none => rfl
  | some x => cases x <;> rfl

/-- Something will remove an intent that is not registered. -/
def Owed (q : Request) : Prop :=
  q.call.any clearingCall = true ∨ (∃ f ∈ q.toRuntime, isCancel f = true) ∨
    clearingMain q.main = true ∨ q.hand.any clearingHand = true ∨
    ∃ f ∈ q.toHost, clearingFrame f = true

/-- The removal of every intent is owed. -/
def Clearing (q : Request) : Prop := ∀ f, q.flight = some f → f.registered = false → q.Owed

/-- A result is suppressed only while the caller waits for it, or its cancellation
has not been read. -/
def SuppressesUnread (q : Request) (e : Event) : Prop :=
  e = .began true → q.call = some .waiting ∨ ∃ f ∈ q.toRuntime, isCancel f = true

theorem Clearing.init : Clearing {} := by simp [Clearing]

theorem Owed.mono (h : q.Owed)
    (hcall : q.call.any clearingCall = true → q'.call.any clearingCall = true)
    (hrt : ∀ f ∈ q.toRuntime, isCancel f = true → f ∈ q'.toRuntime)
    (hma : clearingMain q.main = true → clearingMain q'.main = true)
    (hha : q.hand.any clearingHand = true → q'.hand.any clearingHand = true)
    (hho : ∀ f ∈ q.toHost, clearingFrame f = true → f ∈ q'.toHost) : q'.Owed := by
  rcases h with h | ⟨f, hf, hc⟩ | h | h | ⟨f, hf, hc⟩
  · exact .inl (hcall h)
  · exact .inr (.inl ⟨f, hrt f hf hc, hc⟩)
  · exact .inr (.inr (.inl (hma h)))
  · exact .inr (.inr (.inr (.inl (hha h))))
  · exact .inr (.inr (.inr (.inr ⟨f, hho f hf hc, hc⟩)))

/-- An intent that is not registered was there before, unless the call is opened. -/
theorem unregistered_before (hm : Move r q e q') (hf : q'.flight = some f)
    (hreg : f.registered = false) :
    q'.call = some .opened ∨ ∃ f, q.flight = some f ∧ f.registered = false := by
  obtain ⟨-, hope, -⟩ | ⟨f₀, hf₀, -, heq | ⟨hyes, -⟩⟩ := flight_before hm hf
  · exact .inl hope
  · exact .inr ⟨f₀, hf₀, heq.trans hreg⟩
  · cases hreg.symm.trans hyes

theorem Owed.move (hc : Canceling q) (h : Owed q) (hg : SuppressesUnread q e)
    (hm : Move r q e q') (hf : ∃ f, q'.flight = some f ∧ f.registered = false) : Owed q' := by
  obtain ⟨f, hf, hreg⟩ := hf
  have hap : ∀ g, ∀ f ∈ q.toHost, clearingFrame f = true → f ∈ q.toHost ++ [g] :=
    fun g f hf _ => List.mem_append_left _ hf
  have hres : ∀ {g rest}, q.toHost = g :: rest → clearingFrame g = false →
      ∀ f ∈ q.toHost, clearingFrame f = true → f ∈ rest := by
    intro g rest ho hg f hf hcl
    rw [ho] at hf
    rcases List.mem_cons.mp hf with rfl | hf
    · simp [hg] at hcl
    · exact hf
  have hre : ∀ {g rest}, q.toRuntime = g :: rest → isCancel g = false →
      ∀ f ∈ q.toRuntime, isCancel f = true → f ∈ rest := by
    intro g rest hi hg f hf hca
    rw [hi] at hf
    rcases List.mem_cons.mp hf with rfl | hf
    · simp [hg] at hca
    · exact hf
  cases hm with
  | refused hb => simp [hb] at hf
  | abandoned | flightCompleted => cases hf
  | resulted => simp [(Option.filter_eq_some_iff.mp hf).2] at hreg
  | flightRegistered =>
    cases hf
    cases hreg
  | opened | written => exact .inl rfl
  | canceled => exact .inr (.inl ⟨_, List.mem_append_right _ List.mem_cons_self, rfl⟩)
  | @reconciled d hcall =>
    by_cases hd : d = .running
    · exact h.mono (by simp [hcall, hd, clearingCall]) (fun _ h _ => h) id id (fun _ h _ => h)
    · rw [if_neg hd] at hf
      simp [(Option.filter_eq_some_iff.mp hf).2] at hreg
  | returned hcall =>
    refine h.mono ?_ (fun _ h _ => h) id id (fun _ h _ => h)
    rcases hcall with hcall | hcall <;> simp [hcall, clearingCall]
  | @acknowledged d _ ho =>
    have hcall := hc.acknowledged ho
    by_cases hd : d = .running
    · refine h.mono ?_ (fun _ h _ => h) id id (hres ho (by simp [clearingFrame, hd]))
      simp [hcall, clearingCall]
    · exact .inl (by simp [hcall, clearingCall, hd])
  | served ho | claimed ho => exact h.mono id (fun _ h _ => h) id id (hres ho rfl)
  | enqueued _ hi => exact h.mono id (hre hi rfl) id id (fun _ h _ => h)
  | rejected | cancelQueued | published =>
    exact .inr (.inr (.inr (.inr ⟨_, List.mem_append_right _ List.mem_cons_self, rfl⟩)))
  | cancelRunning _ _ hh => exact .inr (.inr (.inr (.inl (by simp [hh, clearingHand]))))
  | cancelComplete => exact .inr (.inr (.inl rfl))
  | fired hma =>
    exact h.mono id (fun _ h _ => h) (by simp [hma, clearingMain]) (by simp) (fun _ h _ => h)
  | routesCanceled hma =>
    exact h.mono id (fun _ h _ => h) (by simp [hma, clearingMain]) id (fun _ h _ => h)
  | @posted d hma =>
    by_cases hd : d = .running
    · exact h.mono id (fun _ h _ => h) (by simp [hma, hd, clearingMain]) id (hap _)
    · exact .inr (.inr (.inr (.inr ⟨_, List.mem_append_right _ List.mem_cons_self,
        by simp [clearingFrame, hd]⟩)))
  | took | led | moved | sent => exact .inr (.inr (.inr (.inl rfl)))
  | @began _ _ suppressed =>
    cases suppressed with
    | false => exact .inr (.inr (.inr (.inl rfl)))
    | true =>
      rcases hg rfl with hcall | hca
      · exact .inl (by simp [hcall, clearingCall])
      · exact .inr (.inl hca)
  | ended hh hs =>
    refine h.mono id (fun _ h _ => h) id ?_ (fun _ h _ => h)
    rcases hs with rfl | rfl <;> simp [hh, clearingHand]
  | artifactRequested | flightEnded => exact h.mono id (fun _ h _ => h) id id (hap _)
  | revoked hh =>
    refine h.mono id (fun _ h _ => h) id ?_ (fun _ h _ => h)
    rcases hh with rfl | rfl <;> simp
  | _ => exact h

theorem Clearing.move (hc : Canceling q) (h : Clearing q) (hg : SuppressesUnread q e)
    (hm : Move r q e q') : Clearing q' := by
  intro f hf hreg
  rcases unregistered_before hm hf hreg with hope | ⟨f', hf', hreg'⟩
  · exact .inl (by simp [hope, clearingCall])
  · exact (h f' hf' hreg').move hc hg hm ⟨f, hf, hreg⟩

/-- The runtime is done with the request and the host has dealt with all its
frames; an open call could still be cancelled and acknowledged. -/
structure Finished (q : Request) : Prop where
  toRuntime : q.toRuntime = []
  toHost : q.toHost = []
  main : q.main = .idle
  queued : q.queued = false
  hand : q.hand = none
  thread : q.thread = none
  call : q.call = none ∨ q.call = some .resulted ∨ q.call = some .reconciled

theorem Finished.flight_eq_none (h : Finished q) (hf : Flying q) (hc : Clearing q) :
    q.flight = none := by
  cases hfl : q.flight with
  | none => rfl
  | some f =>
    cases hreg : f.registered with
    | true => simpa [Completes, h.thread, h.toHost] using hf.registered f hfl hreg
    | false =>
      have how := hc f hfl hreg
      rcases h.call with hcall | hcall | hcall <;>
        simp [Owed, hcall, h.toRuntime, h.main, h.hand, h.toHost, clearingCall, clearingMain] at how

end Request

/-! ### Flights in the host's table -/

variable {n : ℕ} {limits : RuntimeLimits} {g : String} {s t : ExchangeState n}

/-- The result of a running job whose session is revoked is suppressed; its
completion then begins only while its caller waits, or while the cancellation of
the call is still to be read. -/
def suppressesUnread (s : ExchangeState n) : ExchangeOp n → Bool
  | .beginCompletion w =>
    match s.runtime.workers w with
    | .running job =>
      !job.sessionScope.any (fun scope => scope ∈ s.runtime.scheduler.revokedSessions) ||
        decide ((s.calls.lookup job.requestId).map OpenCall.phase = some .waiting) ||
        decide (.cancelInvoke job.requestId ∈ s.inbox)
    | _ => true
  | _ => true

variable {l : ExchangeOp n × ExchangeOutput} {f : PendingCompileFlight} {k : String}
  {out : ExchangeOutput} {op : ExchangeOp n}

theorem suppressesUnread_request (hg : suppressesUnread s l.1 = true) (r : RequestId)
    (e : Request.Event) (he : sees r s l e) : (s.request r).SuppressesUnread e := by
  rintro rfl
  obtain ⟨w, job, hop, hw, rfl, hre⟩ := he
  simp only [hop, suppressesUnread, hw, ← hre, Bool.not_true, Bool.false_or, Bool.or_eq_true,
    decide_eq_true_eq] at hg
  refine hg.imp id fun hm => ⟨_, List.mem_filter.mpr ⟨hm, ?_⟩, rfl⟩
  simp [HostFrame.about]

/-- The artifact a step claims. -/
def claimOf : ExchangeOp n × ExchangeOutput → Option String
  | (_, .read (.openHandle requestId _)) => some requestId
  | _ => none

/-- A registered flight is removed only by its completion, or with the table. -/
theorem flight_after (h : Refined s) (hfly : ∀ r, (s.request r).Flying)
    (hs : Step limits g s op out t) (hf : s.compileFlights.lookup k = some f)
    (hreg : f.registered = true) :
    t.ended = true ∨ (∃ f', t.compileFlights.lookup k = some f' ∧ f'.registered = true) ∨
      ∃ frame, (op, out) = (.readFrame, .read (.flightComplete frame)) ∧
        f.matchesFrame ":complete" frame = true := by
  have hke : t.compileFlights.lookup k = some f →
      ∃ f', t.compileFlights.lookup k = some f' ∧ f'.registered = true := fun hl => ⟨f, hl, hreg⟩
  cases hs with
  | @opened _ i _ hid =>
    refine .inr (.inl (hke ?_))
    rw [Finmap.lookup_insert_of_ne]
    · exact hf
    · rintro rfl
      have hb := (h.sound i.requestId).fresh (Finmap.lookup_eq_none.mpr hid)
      have hnone : s.compileFlights.lookup (artifactRequestIdOf i.requestId) = none :=
        congrArg Request.flight hb
      simp [hnone] at hf
  | @abandoned id _ hc =>
    refine .inr (.inl (hke ?_))
    rw [Finmap.lookup_erase_ne]
    · exact hf
    · rintro rfl
      -- nothing of a call that is not written is registered
      have hope := (h.sound id).opened (by simp [request, hc])
      have hco := (hfly id).registered f hf hreg
      simp [Request.Completes, hope] at hco
  | reconciled =>
    refine .inr (.inl (hke ?_))
    simp only [reconcileCompileFlightAfterCancelAck]
    split_ifs
    · exact removeUnregistered_of_registered hf hreg
    · exact hf
  | resulted =>
    refine .inr (.inl (hke ?_))
    rw [deliver_rest]
    exact removeUnregistered_of_registered hf hreg
  | acknowledged =>
    refine .inr (.inl (hke ?_))
    rw [deliver_rest]
    exact hf
  | flightRegistered _ hr =>
    obtain ⟨flight, -, rfl⟩ := registerCompileFlight_ok hr
    simp only [Finmap.lookup_insert_ite]
    split_ifs
    · exact .inr (.inl ⟨_, rfl, rfl⟩)
    · exact .inr (.inl ⟨f, hf, hreg⟩)
  | @flightCompleted frame _ _ _ hc =>
    obtain ⟨flight, hl, hma, rfl⟩ := completeCompileFlight_ok hc
    by_cases hk : k = frame.artifactRequestId
    · subst hk
      obtain rfl : flight = f := Option.some.inj (hl.symm.trans hf)
      exact .inr (.inr ⟨frame, rfl, hma⟩)
    · exact .inr (.inl (hke ((Finmap.lookup_erase_ne hk).trans hf)))
  | claimed _ hc =>
    obtain ⟨flight, hl, hreg', -, -, rfl⟩ := claimCompileFlightArtifact_ok hc
    simp only [Finmap.lookup_insert_ite]
    split_ifs
    · exact .inr (.inl ⟨_, rfl, hreg'⟩)
    · exact .inr (.inl ⟨f, hf, hreg⟩)
  | violated | failed => exact .inl rfl
  | _ => exact .inr (.inl (hke hf))

/-- What was claimed belongs to an issued request and is marked while its flight
lasts. -/
structure Claimed (h : List (ExchangeOp n × ExchangeOutput)) (s : ExchangeState n) : Prop where
  once : (h.filterMap claimOf).Nodup
  marked : ∀ k ∈ h.filterMap claimOf, (∃ r ∈ s.issued, k = artifactRequestIdOf r) ∧
    ∀ f, s.compileFlights.lookup k = some f → f.artifactRequested = true

theorem Claimed.step (hr : Refined s) {h} (hc : Claimed h s) (hs : Step limits g s op out t) :
    Claimed (h ++ [(op, out)]) t := by
  have hold : ∀ k ∈ h.filterMap claimOf, (∃ r ∈ t.issued, k = artifactRequestIdOf r) ∧
      ∀ f, t.compileFlights.lookup k = some f → f.artifactRequested = true := by
    intro k hk
    obtain ⟨⟨r, hiss, he⟩, hma⟩ := hc.marked k hk
    obtain ⟨i, hi⟩ := Finmap.mem_iff.mp hiss
    refine ⟨⟨r, Finmap.mem_of_lookup_eq_some (issued_after hs hi), he⟩, fun f hf => ?_⟩
    rcases flight_before hs hf with ⟨f', hf', himp⟩ | ⟨r', hr', he'⟩
    · exact himp (hma f' hf')
    · rw [he] at he'
      exact absurd (artifactRequestIdOf_injective he' ▸ hiss) hr'
  cases hclaim : claimOf (op, out) with
  | none =>
    have hsame : (h ++ [(op, out)]).filterMap claimOf = h.filterMap claimOf := by
      simp [hclaim]
    exact ⟨hsame ▸ hc.once, hsame ▸ hold⟩
  | some rid =>
    have hmo : (h ++ [(op, out)]).filterMap claimOf = h.filterMap claimOf ++ [rid] := by
      simp [hclaim]
    cases hs with cases hclaim
    | @claimed _ parent _ _ ho hf =>
      obtain ⟨flight, hl, -, hun, -, rfl⟩ := claimCompileFlightArtifact_ok hf
      have hnew : rid ∉ h.filterMap claimOf := by
        intro hm
        simp [(hc.marked rid hm).2 flight hl] at hun
      have hiss : parent ∈ s.issued := by
        by_contra hnot
        have hb := (hr.sound parent).fresh (Finmap.lookup_eq_none.mpr hnot)
        have hho : s.outbox.filter (fun f => f.about = parent) = [] := congrArg Request.toHost hb
        simp [ho, RuntimeFrame.about] at hho
      have hkey := hr.key_of_handle (ho ▸ List.mem_cons_self)
      refine ⟨hmo ▸ List.nodup_append_comm.mp (List.nodup_cons.mpr ⟨hnew, hc.once⟩), ?_⟩
      intro k hk
      rw [hmo, List.mem_append, List.mem_singleton] at hk
      rcases hk with hk | rfl
      · exact hold k hk
      · refine ⟨⟨parent, hiss, hkey⟩, fun f hf' => ?_⟩
        simp only [Finmap.lookup_insert, Option.some.injEq] at hf'
        rw [← hf']

theorem flights_of_ended (hs : Step limits g s op out t) (he : s.ended = false)
    (ht : t.ended = true) : t.compileFlights = ∅ := by
  have hrunning : s.ended = true → t.compileFlights = ∅ := fun hs => by simp [he] at hs
  cases hs with
  | violated | failed => rfl
  | resulted | acknowledged =>
    rw [deliver_rest] at ht
    exact hrunning ht
  | _ => exact hrunning ht

/-- A registered flight is removed only by its completion or with the generation,
and an artifact is claimed once, by the parent of its flight. -/
structure FlightsKept (s : ExchangeState n) (l : ExchangeOp n × ExchangeOutput)
    (t : ExchangeState n) : Prop where
  registered : ∀ k f, s.compileFlights.lookup k = some f → f.registered = true →
    t.ended = true ∨ (∃ f', t.compileFlights.lookup k = some f' ∧ f'.registered = true) ∨
      ∃ frame, l = (.readFrame, .read (.flightComplete frame)) ∧
        f.matchesFrame ":complete" frame = true
  claimed : ∀ op k parent, l = (op, .read (.openHandle k parent)) →
    ∃ f, s.compileFlights.lookup k = some f ∧ f.registered = true ∧
      f.artifactRequested = false ∧ f.parentRequestId = parent

theorem flightsKept_step (h : Refined s) (hfly : ∀ r, (s.request r).Flying)
    (hs : Step limits g s l.1 l.2 t) : FlightsKept s l t where
  registered _ _ hf hreg := flight_after h hfly hs hf hreg
  claimed := by
    rintro op k parent rfl
    cases hs with
    | claimed _ hf =>
      obtain ⟨flight, hl, hreg, hun, hpa, -⟩ := claimCompileFlightArtifact_ok hf
      exact ⟨flight, hl, hreg, hun, hpa.symm⟩

/-- What is in the table for a request is the flight its protocol speaks of. -/
theorem flight_of_parent (h : Refined s) (hf : s.compileFlights.lookup k = some f) :
    (s.request f.parentRequestId).flight = some f := by
  obtain ⟨r, rfl⟩ := h.flights k (Finmap.mem_of_lookup_eq_some hf)
  rw [(h.sound r).flight f hf]
  exact hf

/-- A finished request leaves no flight in runs where no result is suppressed once
the cancellation of its call has found the job running. In every run a registered
flight is removed only by its completion or with the generation, an artifact is
claimed by the parent of its flight, and none is claimed twice. -/
theorem flights_never_leak (limits : RuntimeLimits) (g : String)
    {tr : List ((ExchangeOp limits.workerCount × ExchangeOutput) ×
      ExchangeState limits.workerCount)}
    (hr : (exchange limits g).Run {} tr) :
    (Guarded (fun _ s l => suppressesUnread s l.1) [] {} tr →
      ∀ u ∈ states {} tr, ∀ r, (u.request r).Finished →
        ∀ k f, u.compileFlights.lookup k = some f → f.parentRequestId ≠ r) ∧
    (∀ x ∈ steps {} tr, FlightsKept x.1 x.2.1 x.2.2) ∧
    ((labels tr).filterMap claimOf).Nodup := by
  have hsim := exchange_refines limits g
  have hflying := hsim.forall_views (I := fun r q => q.Sound r ∧ q.Flying)
    (G := fun _ _ _ => True) (C := fun _ _ _ => True)
    (fun r q hq => by rw [hq]; exact ⟨.init r, .init⟩)
    (fun r q e q' hI _ hm => ⟨hI.1.move hm, hI.2.move hI.1 hm⟩) (fun _ _ _ _ _ _ _ _ => trivial)
    rfl hr (guarded_true _ _ _)
  refine ⟨fun hg u hu r hfinished k f hf hparent => ?_, ?_, ?_⟩
  · have hended := hr.forall_states (C := fun _ _ _ => True) (h := [])
      (I := fun u => u.ended = true → u.compileFlights = ∅)
      (fun _ s l t _ _ ht => flights_of_ended (step_of_exchange ht) (perform_step ht).1)
      (fun he => by cases he) (guarded_true _ _ _)
    have hclearing := hsim.forall_views
      (I := fun r q => q.Sound r ∧ q.Canceling ∧ q.Flying ∧ q.Clearing)
      (G := fun _ => Request.SuppressesUnread)
      (fun r q hq => by rw [hq]; exact ⟨.init r, .init, .init, .init⟩)
      (fun r q e q' hI he hm => ⟨hI.1.move hm, hI.2.1.move hm, hI.2.2.1.move hI.1 hm,
        hI.2.2.2.move hI.2.1 he hm⟩)
      (fun _ s l _ hg r e he => suppressesUnread_request hg r e he) rfl hr hg
    cases he : u.ended with
    | true => simp [hended u hu he] at hf
    | false =>
      obtain ⟨hrefined, hviews⟩ := hclearing u hu he
      obtain ⟨-, -, hfly, hclear⟩ := hviews r
      have hflight := flight_of_parent hrefined hf
      simp [hparent, hfinished.flight_eq_none hfly hclear] at hflight
  · refine hr.forall_steps (fun s l t hs ht => ?_) hflying
    obtain ⟨hrefined, hviews⟩ := hs (perform_step ht).1
    exact flightsKept_step hrefined (fun r => (hviews r).2) (step_of_exchange ht)
  · have hclaimed := hr.invariant (C := fun _ _ _ => True) (h := [])
      (I := fun h s => (s.ended = false → Refined s) ∧ Claimed h s) ?_
      ⟨fun _ => .init, .nil, by simp⟩ (guarded_true _ _ _)
    · exact hclaimed.2.once
    · intro h s l t hI _ ht
      have hrefined := hI.1 (perform_step ht).1
      exact ⟨fun he => (hsim.step s l t hrefined ht he).1, hI.2.step hrefined (step_of_exchange ht)⟩

/-- An order that can be evaluated on the empty set. -/
def sortedOrder : HashOrder where
  toList s := if s = ∅ then [] else s.sort (· ≤ ·)
  nodup s := by
    split_ifs
    · exact .nil
    · exact s.sort_nodup _
  mem_toList s a := by
    split_ifs with h
    · simp [h]
    · exact s.mem_sort _

def scope : SessionScope := ⟨"o", "u", "e", "c"⟩

/-- The session is revoked while its job runs. -/
def revokeOps : List (ExchangeOp 1) :=
  [.control (.contain scope 1), .control .fence, .control (.revokeSession sortedOrder)]

/-- The result is suppressed while the caller waits; its cancellation then removes
the intent. -/
theorem flights_never_leak_suppressed :
    (last {} (exchangeRun oneWorker "g" (startOps (some scope) ++ revokeOps ++
      [.beginCompletion 0, .endCompletion 0, .cancelCall "a", .readInput, .acknowledge, .readFrame,
        .reconcile "a"]))).compileFlights.lookup "a:artifact" = none ∧
    ∀ u ∈ states {} (exchangeRun oneWorker "g" (startOps (some scope) ++ revokeOps ++
        [.beginCompletion 0, .endCompletion 0, .cancelCall "a", .readInput, .acknowledge,
          .readFrame, .reconcile "a"])),
      ∀ r, (u.request r).Finished → ∀ k f, u.compileFlights.lookup k = some f →
        f.parentRequestId ≠ r :=
  ⟨rfl, (flights_never_leak oneWorker "g" (System.run_trace _ _ _ _)).1 (by decide)⟩

/-- The result is suppressed after the cancellation has found the job running: the
call has returned, the worker is idle, no frame is under way and the intent stays. -/
theorem suppressed_result_leaks_intent :
    validateRuntimeLimits oneWorker = .ok () ∧
      ∃ tr, (exchange oneWorker "g").Run {} tr ∧ (last {} tr).ended = false ∧
        ((last {} tr).request "a").Finished ∧
        ((last {} tr).compileFlights.lookup "a:artifact").map
          PendingCompileFlight.parentRequestId = some "a" :=
  ⟨rfl, exchangeRun oneWorker "g" (startOps (some scope) ++ [.cancelCall "a", .readInput, .fire,
    .cancelRoutes, .acknowledge, .readFrame, .reconcile "a", .returnCall "a"] ++ revokeOps ++
    [.beginCompletion 0, .endCompletion 0]), System.run_trace _ _ _ _, rfl,
    ⟨rfl, rfl, rfl, rfl, rfl, rfl, .inl rfl⟩, rfl⟩

end RedevPlugin.Exchange
