import RedevPlugin.Exchange.Steps

/-! The cancelled routes of the runtime. A cancelled route waits in its table for
an answer it drops. A worker registers its route before it sends the request, and
if the routes of its job are cancelled in between, or the worker then finds its
flag fired and does not send at all, the table holds a route that no answer is
under way for. In runs without such a cancellation, every cancelled route has its
request or its answer under way. -/

namespace RedevPlugin.Exchange

open Scheduler Transition RedevPlugin.Runtime RedevPlugin.Host
open ExchangeState (post setPosition_self setPosition_of_ne write deliver_eq config)
open PendingIORouteState (ofParent consume_cases cancelParent_cases register_cases cancelParent)
open List (mem_append mem_map)

variable {n : ℕ} {limits : RuntimeLimits} {g : String} {s t : ExchangeState n}

/-! ### Requests under way -/

/-- The route whose request a worker has not sent yet. -/
def Position.unsent : Position → Option ℕ
  | .registered request | .checked request => some request.requestId
  | _ => none

def Unsent (s : ExchangeState n) (id : ℕ) : Prop := ∃ w, (s.positions w).unsent = some id

instance (s : ExchangeState n) (id : ℕ) : Decidable (Unsent s id) :=
  inferInstanceAs (Decidable (∃ w, (s.positions w).unsent = some id))

def requestOf : RuntimeFrame → Option ℕ
  | .io _ request => some request.requestId
  | _ => none

def answerOf : HostFrame → Option ℕ
  | .answer frame => some frame.requestId
  | _ => none

def servedOf (e : Serving) : Option ℕ := if e.written then none else some e.request.requestId

/-- The requests that were sent and whose answer the runtime has not read. -/
def outstanding (s : ExchangeState n) : List ℕ :=
  s.outbox.filterMap requestOf ++ s.serving.filterMap servedOf ++ s.inbox.filterMap answerOf

/-- The routes of a parent, if any, belong to requests that were sent. -/
def sentRoutes (s : ExchangeState n) (parent : RequestId) (g : String) : Bool :=
  s.runtime.routes.active.all
    (fun r => !ofParent parent g r || !decide (Unsent s r.1))

/-- Routes are cancelled, by the main thread, by a worker that reads its flag or
by the control thread, only when all requests of their parent are sent. -/
def routesSent (g : String) (s : ExchangeState n) : ExchangeOp n → Bool
  | .cancelRoutes =>
    match s.main with
    | .cancelingRoutes id => sentRoutes s id g
    | _ => true
  | .check w =>
    match s.runtime.workers w with
    | .running job => job.cancellation ∉ s.runtime.canceled || sentRoutes s job.requestId g
    | _ => true
  | .control (.cancelParent parent) => sentRoutes s parent.1 parent.2
  | _ => true

variable {parent : RequestId} {rest : List RuntimeFrame} {e : Serving}

theorem not_unsent_of_sentRoutes (h : sentRoutes s parent g = true) {r}
    (hr : r ∈ s.runtime.routes.active) (hp : ofParent parent g r = true) : ¬ Unsent s r.1 := by
  have hall := List.all_eq_true.mp h r hr
  simpa [hp] using hall

theorem outstanding_post (frame : RuntimeFrame) : outstanding s ⊆ outstanding (s.post frame) := by
  intro id hid
  simp only [outstanding, post, List.filterMap_append, mem_append] at hid ⊢
  tauto

variable {w : Fin n} {job : InvocationJob} {request : IORequest} {p : Position}

/-- A worker that is not about to send after its move was not moved into it. -/
theorem unsent_of_setPosition (hp : p.unsent = none) {k id}
    (h : ((s.setPosition w p).positions k).unsent = some id) :
    (s.positions k).unsent = some id := by
  by_cases hkw : k = w
  · subst hkw
    simp [setPosition_self, hp] at h
  · rwa [setPosition_of_ne _ _ hkw] at h

/-! ### The invariant -/

/-- A worker about to send runs the job its route belongs to; every other active
route, and every cancelled one, has its request or its answer under way. -/
structure Answerable (g : String) (s : ExchangeState n) : Prop where
  below : ∀ w id, (s.positions w).unsent = some id → id < s.runtime.routes.nextRequestId
  running : ∀ w id, (s.positions w).unsent = some id → ∃ job, s.runtime.workers w = .running job
  owner : ∀ r ∈ s.runtime.routes.active, ∀ w job, (s.positions w).unsent = some r.1 →
    s.runtime.workers w = .running job → ofParent job.requestId g r = true
  active : ∀ r ∈ s.runtime.routes.active, Unsent s r.1 ∨ r.1 ∈ outstanding s
  canceled : ∀ r ∈ s.runtime.routes.canceled, r.1 ∈ outstanding s

namespace Answerable

theorem init (g : String) : Answerable g ({} : ExchangeState n) where
  below w id h := by cases h
  running w id h := by cases h
  owner r hr := by cases hr
  active r hr := by cases hr
  canceled r hr := by cases hr

section

variable (h : Answerable g s)

include h

/-- A step after which there are no new routes, every worker that was about to
send still is, with its job, and no request is lost. -/
theorem mono (hnext : t.runtime.routes.nextRequestId = s.runtime.routes.nextRequestId)
    (hactive : t.runtime.routes.active ⊆ s.runtime.routes.active)
    (hpos : ∀ w, (t.positions w).unsent = (s.positions w).unsent)
    (hwo : ∀ w, (s.positions w).unsent ≠ none → t.runtime.workers w = s.runtime.workers w)
    (hout : outstanding s ⊆ outstanding t)
    (hcanceled : ∀ r ∈ t.runtime.routes.canceled, r.1 ∈ outstanding t) : Answerable g t where
  below w id hw := by
    rw [hnext]
    exact h.below w id (hpos w ▸ hw)
  running w id hw := by
    rw [hpos w] at hw
    rw [hwo w (by simp [hw])]
    exact h.running w id hw
  owner r hr w job hw hj := by
    rw [hpos w] at hw
    rw [hwo w (by simp [hw])] at hj
    exact h.owner r (hactive hr) w job hw hj
  active r hr := by
    rcases h.active r (hactive hr) with ⟨w, hw⟩ | ho
    · exact .inl ⟨w, (hpos w).trans hw⟩
    · exact .inr (hout ho)
  canceled := hcanceled

theorem frame (hro : t.runtime.routes = s.runtime.routes)
    (hpos : ∀ w, (t.positions w).unsent = (s.positions w).unsent)
    (hwo : ∀ w, (s.positions w).unsent ≠ none → t.runtime.workers w = s.runtime.workers w)
    (hout : outstanding s ⊆ outstanding t) : Answerable g t := by
  refine h.mono ?_ ?_ hpos hwo hout ?_ <;> rw [hro]
  · exact List.Subset.refl _
  · exact fun r hr => hout (h.canceled r hr)

/-- Routes whose requests are sent may be cancelled. -/
theorem moved {select} (hsent : ∀ r ∈ s.runtime.routes.active, select r = true → ¬ Unsent s r.1)
    (hro : t.runtime.routes = s.runtime.routes.moveCanceled select)
    (hpos : t.positions = s.positions) (hwo : t.runtime.workers = s.runtime.workers)
    (hout : outstanding t = outstanding s) : Answerable g t := by
  refine h.mono ?_ ?_ (fun w => by rw [hpos]) (fun w _ => by rw [hwo])
    (fun _ hid => by rwa [hout]) ?_
  · rw [hro]
    rfl
  · rw [hro]
    exact PendingIORouteState.moveCanceled_active_subset _ _
  · rw [hro, hout]
    intro r hr
    rcases mem_append.mp hr with hr | hr
    · exact h.canceled r hr
    · obtain ⟨r', hr', rfl⟩ := mem_map.mp hr
      obtain ⟨hmem, hsel⟩ := List.mem_filter.mp hr'
      exact (h.active r' hmem).resolve_left (hsent r' hmem hsel)

/-- Only a worker with a running job is about to send. -/
theorem unsent_none (hw : ∀ job, s.runtime.workers w ≠ .running job) :
    (s.positions w).unsent = none := by
  cases hp : (s.positions w).unsent with
  | none => rfl
  | some id =>
    obtain ⟨job, hj⟩ := h.running w id hp
    exact absurd hj (hw job)

/-- A worker is no longer about to send, and the request of its route is under way. -/
theorem settled (hp : p.unsent = none) (hout : outstanding s ⊆ outstanding t)
    (hrt : t.runtime = s.runtime) (hpos : t.positions = (s.setPosition w p).positions)
    (hg : ∀ r ∈ s.runtime.routes.active, (s.positions w).unsent = some r.1 → r.1 ∈ outstanding t) :
    Answerable g t := by
  have hun : ∀ {k id}, (t.positions k).unsent = some id → (s.positions k).unsent = some id :=
    fun hk => unsent_of_setPosition hp (hpos ▸ hk)
  refine ⟨fun k id hk => hrt ▸ h.below k id (hun hk), fun k id hk => hrt ▸ h.running k id (hun hk),
    fun r hr k job hk hj => h.owner r (hrt ▸ hr) k job (hun hk) (hrt ▸ hj), fun r hr => ?_,
    fun r hr => hout (h.canceled r (hrt ▸ hr))⟩
  rw [hrt] at hr
  rcases h.active r hr with ⟨k, hk⟩ | ho
  · by_cases hkw : k = w
    · exact .inr (hg r hr (hkw ▸ hk))
    · exact .inl ⟨k, by rw [hpos, setPosition_of_ne _ _ hkw, hk]⟩
  · exact .inr (hout ho)

/-- A worker may give up sending if its route is no longer active. -/
theorem dropped (hp : p.unsent = none)
    (hg : ∀ r ∈ s.runtime.routes.active, (s.positions w).unsent ≠ some r.1) :
    Answerable g (s.setPosition w p) :=
  h.settled hp (fun _ => id) rfl rfl fun r hr he => absurd he (hg r hr)

/-- A worker moves between positions in which it is not about to send. -/
theorem positioned (hp : p.unsent = none) (hw : (s.positions w).unsent = none) :
    Answerable g (s.setPosition w p) :=
  h.dropped hp fun r _ he => by simp [hw] at he

theorem registered {route} (hw : s.runtime.workers w = .running job)
    (hid : request.requestId = s.runtime.routes.nextRequestId) (hp : ofParent job.requestId g
      (s.runtime.routes.nextRequestId, route) = true) (hpos : (s.positions w).unsent = none) :
    Answerable g ({ s with runtime := { s.runtime with
      routes := s.runtime.routes.push route } }.setPosition w (.registered request)) := by
  let u : ExchangeState n :=
    { s with runtime := { s.runtime with routes := s.runtime.routes.push route } }
  have hse : ((u.setPosition w (.registered request)).positions w).unsent =
      some s.runtime.routes.nextRequestId := by
    rw [setPosition_self, ← hid]
    rfl
  have hot : ∀ k id, ((u.setPosition w (.registered request)).positions k).unsent = some id →
      k = w ∧ id = s.runtime.routes.nextRequestId ∨ (s.positions k).unsent = some id := by
    intro k id hk
    by_cases hkw : k = w
    · subst hkw
      rw [hse] at hk
      cases hk
      exact .inl ⟨rfl, rfl⟩
    · rw [setPosition_of_ne _ _ hkw] at hk
      exact .inr hk
  constructor
  · intro k id hk
    rcases hot k id hk with ⟨-, rfl⟩ | hk
    · exact Nat.lt_succ_self _
    · exact Nat.lt_succ_of_lt (h.below k id hk)
  · intro k id hk
    rcases hot k id hk with ⟨rfl, -⟩ | hk
    · exact ⟨job, hw⟩
    · exact h.running k id hk
  · intro r hr k job' hk hj
    rcases mem_append.mp hr with hr | hr
    · rcases hot k r.1 hk with ⟨-, hnext⟩ | hk
      · have hlt := s.runtime.routes.below r.1 (List.mem_append_left _ (List.mem_map_of_mem hr))
        omega
      · exact h.owner r hr k job' hk hj
    · cases List.mem_singleton.mp hr
      rcases hot k _ hk with ⟨rfl, -⟩ | hk
      · cases hw.symm.trans hj
        exact hp
      · exact absurd (h.below k _ hk) (lt_irrefl _)
  · intro r hr
    rcases mem_append.mp hr with hr | hr
    · rcases h.active r hr with ⟨k, hk⟩ | ho
      · refine .inl ⟨k, ?_⟩
        have hkw : k ≠ w := by
          rintro rfl
          simp [hpos] at hk
        exact (congrArg Position.unsent (u.setPosition_of_ne _ hkw)).trans hk
      · exact .inr ho
    · cases List.mem_singleton.mp hr
      exact .inl ⟨w, hse⟩
  · exact h.canceled

theorem sent (hp : s.positions w = .checked request) :
    Answerable g ((s.setPosition w (.waiting request)).post (.io job.requestId request)) := by
  refine h.settled (p := .waiting request) rfl (outstanding_post _) rfl rfl fun r _ hk => ?_
  rw [hp] at hk
  simp [outstanding, post, requestOf, ← Option.some.inj hk]

/-- An answer is read, and its route goes. -/
theorem consumed {frame routes rest} (hi : s.inbox = .answer frame :: rest)
    (hr : s.runtime.routes.consume frame = .ok routes) :
    Answerable g { s with inbox := rest, runtime := { s.runtime with routes } } := by
  obtain ⟨hnext, hactive, hcanceled⟩ := consume_cases hr
  have hout : ∀ id ∈ outstanding s, id ≠ frame.requestId → id ∈ outstanding
      { s with inbox := rest, runtime := { s.runtime with routes } } := by
    intro id hid hne
    have han : answerOf (.answer frame) = some frame.requestId := rfl
    simp only [outstanding, hi, List.filterMap_cons_some han, mem_append, List.mem_cons] at hid ⊢
    tauto
  constructor
  · intro w id hw
    exact hnext.symm ▸ h.below w id hw
  · exact h.running
  · exact fun r hr w job hw hj => h.owner r (hactive r hr).1 w job hw hj
  · intro r hr
    obtain ⟨hr, hne⟩ := hactive r hr
    exact (h.active r hr).imp_right fun ho => hout _ ho hne
  · intro r hr
    obtain ⟨hr, hne⟩ := hcanceled r hr
    exact hout _ (h.canceled r hr) hne

end

end Answerable

/-! ### Steps -/

theorem outstanding_write (frame : HostFrame) : outstanding s ⊆ outstanding (s.write frame) := by
  intro id hid
  simp only [outstanding, write, List.filterMap_append, mem_append] at hid ⊢
  tauto

/-- The host reads a frame that is no request. -/
theorem outstanding_read {frame} (ho : s.outbox = frame :: rest) (hf : requestOf frame = none) :
    outstanding s ⊆ outstanding { s with outbox := rest } := by
  simp [outstanding, ho, hf]

/-- The runtime reads a frame that is no answer. -/
theorem outstanding_input {frame rest} (hi : s.inbox = frame :: rest) (hf : answerOf frame = none) :
    outstanding s ⊆ outstanding { s with inbox := rest } := by
  simp [outstanding, hi, hf]

theorem outstanding_served {request} (ho : s.outbox = .io parent request :: rest) :
    outstanding s ⊆ outstanding
      { s with outbox := rest, serving := s.serving ++ [⟨request, false⟩] } := by
  intro id hid
  have hre : requestOf (.io parent request) = some request.requestId := rfl
  have hse : servedOf ⟨request, false⟩ = some request.requestId := rfl
  simp only [outstanding, ho, List.filterMap_cons_some hre, List.filterMap_append,
    List.filterMap_cons_some hse, List.filterMap_nil, mem_append, List.mem_cons] at hid ⊢
  tauto

theorem outstanding_answered (hw : e.written = false) :
    outstanding s ⊆ outstanding
      ({ s with serving := s.serving.erase e ++ [{ e with written := true }] }.write
        (.answer (responseFrame e.request))) := by
  intro id hid
  simp only [outstanding, write, List.filterMap_append, mem_append, List.mem_filterMap] at hid ⊢
  rcases hid with (hid | ⟨e', he', hid⟩) | hid
  · exact .inl (.inl hid)
  · by_cases hee : e' = e
    · subst hee
      simp only [servedOf, hw] at hid
      exact .inr (.inr ⟨.answer (responseFrame e'.request), by simp, hid⟩)
    · exact .inl (.inr (.inl ⟨e', (List.mem_erase_of_ne hee).mpr he', hid⟩))
  · exact .inr (.inl hid)

theorem outstanding_released (hw : e.written = true) :
    outstanding s ⊆ outstanding { s with serving := s.serving.erase e } := by
  intro id hid
  simp only [outstanding, mem_append, List.mem_filterMap] at hid ⊢
  rcases hid with (hid | ⟨e', he', hid⟩) | hid
  · exact .inl (.inl hid)
  · have hee : e' ≠ e := by
      rintro rfl
      simp [servedOf, hw] at hid
    exact .inl (.inr ⟨e', (List.mem_erase_of_ne hee).mpr he', hid⟩)
  · exact .inr hid

/-- A worker that gives up sending under the guard has no active route. -/
theorem Answerable.gone (h : Answerable g s)
    (hw : s.runtime.workers w = .running job) (hs : sentRoutes s job.requestId g = true) :
    ∀ r ∈ s.runtime.routes.active, (s.positions w).unsent ≠ some r.1 := by
  intro r hr he
  exact not_unsent_of_sentRoutes hs hr (h.owner r hr w job he hw) ⟨w, he⟩

theorem sentRoutes_of_check
    (hg : routesSent g s (.check w) = true) (hw : s.runtime.workers w = .running job)
    (hc : job.cancellation ∈ s.runtime.canceled) : sentRoutes s job.requestId g = true := by
  simp only [routesSent, hw] at hg
  simpa [hc] using hg

theorem Answerable.step (h : Answerable g s) {op out} (hg : routesSent g s op = true)
    (hs : Step limits g s op out t) : Answerable g t := by
  have hke : ∀ {u : ExchangeState n}, u.runtime.routes = s.runtime.routes →
      u.positions = s.positions → u.runtime.workers = s.runtime.workers →
      outstanding s ⊆ outstanding u → Answerable g u :=
    fun hr hp hw ho => h.frame hr (fun w => by rw [hp]) (fun w _ => by rw [hw]) ho
  cases hs with
  | written | canceled | artifactOpened =>
    exact hke rfl rfl rfl (outstanding_write _)
  | served ho => exact hke rfl rfl rfl (outstanding_served ho)
  | resulted ho | acknowledged ho =>
    rcases deliver_eq _ _ _ _ with he | ⟨call, -, -, he⟩ <;>
      exact he ▸ hke rfl rfl rfl (outstanding_read ho rfl)
  | flightRegistered ho | flightCompleted ho | claimed ho =>
    exact hke rfl rfl rfl (outstanding_read ho rfl)
  | answered _ _ hw => exact hke rfl rfl rfl (outstanding_answered hw)
  | slotReleased _ hw => exact hke rfl rfl rfl (outstanding_released hw)
  | enqueued _ hi hr =>
    obtain ⟨hro, hwo⟩ := RuntimeState.enqueue_frame hr
    exact hke hro rfl hwo (outstanding_input hi rfl)
  | rejected _ hi hr =>
    obtain ⟨hro, hwo⟩ := RuntimeState.enqueue_frame hr
    exact hke hro rfl hwo fun _ hid =>
      outstanding_post _ (outstanding_input hi rfl hid)
  | cancelQueued _ hi =>
    exact hke rfl rfl rfl fun _ hid =>
      outstanding_post _ (outstanding_input hi rfl hid)
  | cancelRunning _ hi | cancelComplete _ hi | artifactLoaded _ hi =>
    exact hke rfl rfl rfl (outstanding_input hi rfl)
  | consumed _ hi hr => exact h.consumed hi hr
  | routesCanceled hm hr =>
    obtain ⟨-, rfl⟩ := cancelParent_cases hr
    simp only [routesSent, hm] at hg
    exact h.moved (fun r hr hp => not_unsent_of_sentRoutes hg hr hp) rfl rfl rfl rfl
  | posted | artifactRequested | flightEnded =>
    exact hke rfl rfl rfl (outstanding_post _)
  | took hr =>
    obtain ⟨hidle, hro, hwo⟩ := RuntimeState.take_frame hr
    have hnone := h.unsent_none (fun job => by rw [hidle]; exact nofun)
    refine (h.positioned (p := .starting) rfl hnone).frame hro (fun _ => rfl) ?_ fun _ => id
    intro k hk
    refine hwo k ?_
    rintro rfl
    exact hk (by rw [setPosition_self]; rfl)
  | led _ hp =>
    have hled := h.positioned (p := .compiling) rfl (by rw [hp]; rfl)
    exact hled.frame rfl (fun _ => rfl) (fun _ _ => rfl) (outstanding_post _)
  | compiled _ hp => exact h.positioned rfl (by rcases hp with hp | hp <;> rw [hp] <;> rfl)
  | registered hw hp _ _ hreq hr =>
    obtain ⟨-, -, rfl⟩ := register_cases hr
    refine h.registered hw (rawIORequest_ids hreq).1 ?_ (by rw [hp]; rfl)
    simp [ofParent, RuntimeState.routeOf, config]
  | checkFailed hw _ hc =>
    exact h.dropped rfl (h.gone hw (sentRoutes_of_check hg hw hc))
  | @checkCanceled _ _ _ _ _ hw _ hc hr =>
    obtain ⟨-, rfl⟩ := cancelParent_cases hr
    have hsent := sentRoutes_of_check hg hw hc
    -- the worker's own route is gone before the others are cancelled
    refine (h.dropped (p := .executing) rfl (h.gone hw hsent)).moved ?_ rfl rfl rfl rfl
    rintro r hr hsel ⟨k, hk⟩
    exact not_unsent_of_sentRoutes hsent hr hsel ⟨k, unsent_of_setPosition (p := .executing) rfl hk⟩
  | @checkPassed w _ _ _ hp =>
    refine h.frame rfl (fun k => ?_) (fun _ _ => rfl) fun _ => id
    by_cases hkw : k = w
    · subst hkw
      rw [setPosition_self, hp]
      rfl
    · rw [setPosition_of_ne _ _ hkw]
  | sent _ hp => exact h.sent hp
  | resumed hp => exact h.positioned rfl (by rw [hp]; rfl)
  | began hp hr =>
    obtain ⟨hro, hwo⟩ := RuntimeState.beginCompletion_frame hr
    refine h.frame hro (fun _ => rfl) (fun k hk => hwo k ?_) fun _ => id
    rintro rfl
    rcases hp with hp | hp <;> rw [hp] at hk <;> exact hk rfl
  | published hw =>
    refine h.frame rfl (fun _ => rfl) (fun k hk => Function.update_of_ne ?_ ..) (outstanding_post _)
    rintro rfl
    exact hk (h.unsent_none (fun job => by rw [hw]; exact nofun))
  | ended hw =>
    refine h.frame rfl (fun _ => rfl) (fun k hk => Function.update_of_ne ?_ ..) fun _ => id
    rintro rfl
    exact hk (h.unsent_none (fun job => by rw [hw]; exact nofun))
  | controlled hop hr =>
    obtain ⟨hwo, hro | ⟨parent, rfl, hro⟩⟩ := control_routes hop hr
    · exact hke hro rfl hwo fun _ => id
    · exact h.moved (fun r hr hp => not_unsent_of_sentRoutes hg hr hp) hro rfl hwo rfl
  | _ => exact hke rfl rfl rfl fun _ => id

/-! ### Runs -/

/-- A cancellation that fails for want of room counts outstanding requests only. -/
theorem Answerable.canceled_full (h : Answerable g s) {c message}
    (hs : sentRoutes s parent g = true)
    (he : s.runtime.routes.cancelParent c parent g = .error message) :
    c.canceledCapacity < (outstanding s).length := by
  let routes := s.runtime.routes
  let moved := routes.active.filter (ofParent parent g)
  have hfull : c.canceledCapacity < routes.canceled.length + moved.length := by
    unfold cancelParent at he
    split_ifs at he with hlt
    rwa [List.countP_eq_length_filter] at hlt
  have hno : (routes.canceled.map Prod.fst ++ moved.map Prod.fst).Nodup := by
    have hsub : (moved.map Prod.fst ++ routes.canceled.map Prod.fst).Sublist
        (routes.active.map Prod.fst ++ routes.canceled.map Prod.fst) :=
      (List.filter_sublist.map _).append (.refl _)
    exact List.perm_append_comm.nodup_iff.mp (routes.distinct.sublist hsub)
  have hsu : routes.canceled.map Prod.fst ++ moved.map Prod.fst ⊆ outstanding s := by
    intro id hid
    rcases mem_append.mp hid with hid | hid <;> obtain ⟨r, hr, rfl⟩ := mem_map.mp hid
    · exact h.canceled r hr
    · obtain ⟨hr, hp⟩ := List.mem_filter.mp hr
      exact (h.active r hr).resolve_left (not_unsent_of_sentRoutes hs hr hp)
  have hle := (List.subperm_of_subset hno hsu).length_le
  rw [List.length_append, List.length_map, List.length_map] at hle
  omega

/-- In a run that cancels no route before its request is sent, every cancelled
route has its request or its answer under way; none is left when nothing is under
way, and a cancellation fails for want of room only when more requests are under
way than the table has room for. -/
theorem canceled_routes_outstanding (limits : RuntimeLimits) (g : String)
    {tr : List ((ExchangeOp limits.workerCount × ExchangeOutput) ×
      ExchangeState limits.workerCount)}
    (hr : (exchange limits g).Run {} tr)
    (hg : Guarded (fun _ s l => routesSent g s l.1) [] {} tr) :
    ∀ u ∈ states {} tr, (∀ r ∈ u.runtime.routes.canceled, r.1 ∈ outstanding u) ∧
      (outstanding u = [] → u.runtime.routes.canceled = []) ∧
      ∀ parent message, sentRoutes u parent g = true →
        u.runtime.routes.cancelParent (config limits g).routes parent g = .error message →
        (config limits g).routes.canceledCapacity < (outstanding u).length := by
  have hstep : ∀ (h : List (ExchangeOp limits.workerCount × ExchangeOutput)) s l t,
      Answerable g s → routesSent g s l.1 = true → (exchange limits g).step s l t →
      Answerable g t :=
    fun _ _ _ _ hs hsent hstep => hs.step hsent (step_of_exchange hstep)
  intro u hu
  have h := System.Run.forall_states hstep (Answerable.init g) hr hg u hu
  refine ⟨h.canceled, fun hnone => ?_, fun parent message hs he => h.canceled_full hs he⟩
  rw [List.eq_nil_iff_forall_not_mem]
  intro r hr
  simpa [hnone] using h.canceled r hr

/-- The route is cancelled while its request is being served. -/
theorem canceled_routes_outstanding_served :
    (last {} (exchangeRun oneWorker "g" (startOps none ++ [.register 0 (.read 7 16), .check 0,
      .send 0, .readFrame, .cancelCall "a", .readInput, .fire,
      .cancelRoutes]))).runtime.routes.canceled = [(1, ⟨"v", .ioReadResult, 7⟩)] ∧
    ∀ u ∈ states {} (exchangeRun oneWorker "g" (startOps none ++ [.register 0 (.read 7 16),
      .check 0, .send 0, .readFrame, .cancelCall "a", .readInput, .fire, .cancelRoutes])),
      (∀ r ∈ u.runtime.routes.canceled, r.1 ∈ outstanding u) ∧
      (outstanding u = [] → u.runtime.routes.canceled = []) ∧
      ∀ parent message, sentRoutes u parent "g" = true →
        u.runtime.routes.cancelParent (config oneWorker "g").routes parent "g" = .error message →
        (config oneWorker "g").routes.canceledCapacity < (outstanding u).length :=
  ⟨rfl, canceled_routes_outstanding oneWorker "g" (System.run_trace _ _ _ _) (by decide)⟩

/-- A worker registers a route, its invocation is cancelled, and it reads the
flag: the route is cancelled and no request was ever sent. -/
theorem unsent_route_canceled :
    ∃ tr, (exchange oneWorker "g").Run {} tr ∧
      (∀ frame ∈ (last {} tr).outbox, requestOf frame = none) ∧
      outstanding (last {} tr) = [] ∧
      (last {} tr).runtime.routes.canceled = [(1, ⟨"v", .ioReadResult, 7⟩)] :=
  ⟨exchangeRun oneWorker "g" (startOps none ++ [.register 0 (.read 7 16), .cancelCall "a",
    .readInput, .fire, .check 0]), System.run_trace _ _ _ _, by decide, rfl, rfl⟩

end RedevPlugin.Exchange
