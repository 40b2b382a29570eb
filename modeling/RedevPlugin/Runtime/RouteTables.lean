import RedevPlugin.Runtime.Steps

/-! Runs of the table of I/O routes. Every route has a channel to the worker that waits for its
answer; what is sent on a channel is part of what an operation does. `cancel_session` collects the
parents of a session and cancels them one by one in the order of a hash set; it stops at the first
that fails, and what was cancelled before stays so. -/

namespace RedevPlugin.Runtime.PendingIORouteState

open Scheduler Transition

/-- What the receiver of a route gets. -/
abbrev Message := Except String Frame

def invocationCanceled : Message :=
  .error "RUNTIME_INVOCATION_CANCELED: runtime invocation was canceled"

structure Output where
  registered : Option ℕ := none
  sent : List (ℕ × Message) := []
  result : Except String Unit := .ok ()

inductive Op where
  | register (route : PendingIORoute)
  | remove (requestId : ℕ)
  /-- `closed` says that the receiver of the route is gone. -/
  | consume (frame : Frame) (closed : Bool)
  | cancelParent (parentRequestId : RequestId) (runtimeGenerationId : String)
  | cancelSession (scope : SessionScope) (order : List (RequestId × String))
  | shutdown

def activeIds (s : PendingIORouteState) : List ℕ := s.active.map Prod.fst

/-- `message` for the waiting workers of the selected routes. -/
def sends (s : PendingIORouteState) (select : ℕ × PendingIORoute → Bool) (message : Message) :
    List (ℕ × Message) :=
  (s.active.filter select).map fun r => (r.1, message)

def cancelParents (limits : RouteLimits) : List (RequestId × String) → PendingIORouteState →
    Output × PendingIORouteState
  | [], s => ({}, s)
  | (parent, generation) :: rest, s =>
    match s.cancelParent limits parent generation with
    | .error message => ({ result := .error message }, s)
    | .ok t =>
      let (out, u) := cancelParents limits rest t
      ({ out with sent := s.sends (ofParent parent generation) invocationCanceled ++ out.sent }, u)

def shutdownRoutes (s : PendingIORouteState) : PendingIORouteState :=
  { s.restrict [] [] (List.nil_sublist _) (List.nil_sublist _) with shutdown := true }

def perform (limits : RouteLimits) (s : PendingIORouteState) :
    Op → Option (Output × PendingIORouteState)
  | .register route =>
    match s.register limits route with
    | .error message => some ({ result := .error message }, s)
    | .ok (requestId, t) => some ({ registered := some requestId }, t)
  | .remove requestId => some ({}, s.remove requestId)
  | .consume frame closed =>
    match s.consume frame with
    | .error message => some ({ result := .error message }, s)
    | .ok t =>
      if (s.active.lookup frame.requestId).isNone then some ({}, t)
      else if closed then some ({ result := .error "runtime I/O response route closed" }, t)
      else some ({ sent := [(frame.requestId, .ok frame)] }, t)
  | .cancelParent parent generation => some (cancelParents limits [(parent, generation)] s)
  | .cancelSession scope order =>
    if order.Nodup ∧ order.toFinset = s.sessionParents scope then
      some (cancelParents limits order s)
    else none
  | .shutdown => some ({ sent := s.sends (fun _ => true) (.error "runtime is shutting down") },
      s.shutdownRoutes)

abbrev Label := Op × Output

def system (limits : RouteLimits) : System PendingIORouteState Label :=
  .ofOption (· = {}) (perform limits)

/-- What an operation can do: a new route gets the next id, and a message goes to a route that is
active before and not after. -/
structure Moves (limits : RouteLimits) (s : PendingIORouteState) (out : Output)
    (t : PendingIORouteState) : Prop where
  next : s.nextRequestId ≤ t.nextRequestId
  registered : ∀ id ∈ out.registered, id = s.nextRequestId ∧ id < t.nextRequestId
  active : ∀ id ∈ t.activeIds, id ∈ s.activeIds ∧ id ∉ out.sent.map Prod.fst ∨ id ∈ out.registered
  sent : ∀ id ∈ out.sent.map Prod.fst, id ∈ s.activeIds
  once : (out.sent.map Prod.fst).Nodup
  activeLength : s.active.length ≤ limits.activeCapacity → t.active.length ≤ limits.activeCapacity
  canceledLength : s.canceled.length ≤ limits.canceledCapacity →
    t.canceled.length ≤ limits.canceledCapacity

variable {limits : RouteLimits} {s t u : PendingIORouteState} {out : Output}

theorem mem_sends {select message id} :
    id ∈ (s.sends select message).map Prod.fst ↔ ∃ r ∈ s.active, select r = true ∧ r.1 = id := by
  simp [sends, and_assoc]

theorem activeIds_nodup (s : PendingIORouteState) : s.activeIds.Nodup :=
  (List.nodup_append.mp s.distinct).1

/-- Routes go, and nobody is told. -/
theorem Moves.quiet (hnext : t.nextRequestId = s.nextRequestId) (hactive : t.active ⊆ s.active)
    (hcanceled : t.canceled ⊆ s.canceled) (result : Except String Unit) :
    Moves limits s { result } t where
  next := hnext.ge
  registered := nofun
  active _ hid := .inl ⟨List.map_subset _ hactive hid, List.not_mem_nil⟩
  sent := nofun
  once := .nil
  activeLength h := (List.subperm_of_subset t.activeIds_nodup.of_map hactive).length_le.trans h
  canceledLength h :=
    (List.subperm_of_subset (List.nodup_append.mp t.distinct).2.1.of_map
      hcanceled).length_le.trans h

/-- The selected routes go, and their receivers are told. -/
theorem Moves.told (select : ℕ × PendingIORoute → Bool) (message : Message)
    (hnext : t.nextRequestId = s.nextRequestId)
    (hactive : t.active = s.active.filter fun r => !select r)
    (hcanceled : s.canceled.length ≤ limits.canceledCapacity →
      t.canceled.length ≤ limits.canceledCapacity) :
    Moves limits s { sent := s.sends select message } t where
  next := hnext.ge
  registered := nofun
  active id hid := by
    rw [activeIds, hactive] at hid
    obtain ⟨r, hr, rfl⟩ := List.mem_map.mp hid
    obtain ⟨hr, hnot⟩ := List.mem_filter.mp hr
    refine .inl ⟨List.mem_map_of_mem hr, fun hsent => ?_⟩
    obtain ⟨r', hr', hse, hid⟩ := mem_sends.mp hsent
    -- the ids of the table are distinct
    cases List.inj_on_of_nodup_map s.activeIds_nodup hr' hr hid
    simp [hse] at hnot
  sent id hid := by
    obtain ⟨r, hr, -, rfl⟩ := mem_sends.mp hid
    exact List.mem_map_of_mem hr
  once := by
    rw [sends, List.map_map]
    exact s.activeIds_nodup.sublist (List.filter_sublist.map _)
  activeLength h := (hactive ▸ List.length_filter_le _ _).trans h
  canceledLength := hcanceled

theorem Moves.trans {sent} (h : Moves limits s { sent } t) (h' : Moves limits t out u)
    (hnone : out.registered = none) : Moves limits s { out with sent := sent ++ out.sent } u where
  next := h.next.trans h'.next
  registered := by simp [hnone]
  active id hid := by
    simp only [hnone, Option.mem_def, reduceCtorEq, or_false, List.map_append, List.mem_append,
      not_or]
    obtain ⟨hid, hnot⟩ := (h'.active id hid).resolve_right (by simp [hnone])
    obtain ⟨hid, hnot'⟩ := (h.active id hid).resolve_right (by simp)
    exact ⟨hid, hnot', hnot⟩
  sent id hid := by
    rw [List.map_append] at hid
    rcases List.mem_append.mp hid with hid | hid
    · exact h.sent id hid
    · exact ((h.active id (h'.sent id hid)).resolve_right (by simp)).1
  once := by
    rw [List.map_append]
    refine List.nodup_append.mpr ⟨h.once, h'.once, fun id hid id' hid' he => ?_⟩
    exact ((h.active id' (h'.sent id' hid')).resolve_right (by simp)).2 (he ▸ hid)
  activeLength := h'.activeLength ∘ h.activeLength
  canceledLength := h'.canceledLength ∘ h.canceledLength

theorem moves_cancelParents (limits : RouteLimits) (order : List (RequestId × String))
    (s : PendingIORouteState) :
    (cancelParents limits order s).1.registered = none ∧
      Moves limits s (cancelParents limits order s).1 (cancelParents limits order s).2 := by
  induction order generalizing s with
  | nil => exact ⟨rfl, .quiet rfl (.refl _) (.refl _) _⟩
  | cons parent rest ih =>
    rw [cancelParents]
    split
    · exact ⟨rfl, .quiet rfl (.refl _) (.refl _) _⟩
    · rename_i t hca
      obtain ⟨hro, rfl⟩ := cancelParent_cases hca
      obtain ⟨hnone, hre⟩ := ih (s.moveCanceled (ofParent parent.1 parent.2))
      refine ⟨hnone, Moves.trans (t := s.moveCanceled _) (.told _ _ rfl rfl fun _ => ?_) hre hnone⟩
      rwa [moveCanceled, List.length_append, List.length_map, ← List.countP_eq_length_filter]

theorem moves_consume {frame} (hok : s.consume frame = .ok t) (result : Except String Unit) :
    Moves limits s { result } t := by
  obtain ⟨hnext, hactive, hcanceled⟩ := consume_cases hok
  exact .quiet hnext (fun r hr => (hactive r hr).1) (fun r hr => (hcanceled r hr).1) _

theorem perform_moves {op} (h : s.perform limits op = some (out, t)) : Moves limits s out t := by
  revert h
  fun_cases s.perform limits op <;> try rintro ⟨⟩
  · exact .quiet rfl (.refl _) (.refl _) _
  · obtain ⟨hroo, rfl, rfl⟩ := register_cases ‹_›
    refine ⟨Nat.le_succ _, by rintro _ ⟨⟩; exact ⟨rfl, Nat.lt_succ_self _⟩, fun id hid => ?_,
      nofun, .nil, fun _ => ?_, fun h => h⟩
    · simp only [activeIds, push, List.map_append, List.mem_append] at hid
      refine hid.imp (fun hid => ⟨hid, List.not_mem_nil⟩) fun hid => ?_
      rw [List.mem_singleton.mp hid]
      rfl
    · rw [push, List.length_append]
      exact hroo
  · exact .quiet (s := s) (t := s.remove _) rfl (remove_active_subset _ s) (.refl _) _
  · exact .quiet rfl (.refl _) (.refl _) _
  · exact moves_consume ‹_› _
  · exact moves_consume ‹_› _
  · rename_i frame _ hfree _ hok
    obtain ⟨-, hactive, -⟩ := consume_cases hok
    have hmem : frame.requestId ∈ s.activeIds := by
      cases hro : s.active.lookup frame.requestId with
      | none => simp [hro] at hfree
      | some route => exact fst_mem_of_lookup hro
    refine { moves_consume hok (.ok ()) with
      active := fun id hid => .inl ?_, sent := ?_, once := by simp }
    · obtain ⟨r, hr, rfl⟩ := List.mem_map.mp hid
      exact ⟨List.mem_map_of_mem (hactive r hr).1, by simpa using (hactive r hr).2⟩
    · simpa using hmem
  · rename_i parent generation
    intro h
    have hmo := (moves_cancelParents limits [(parent, generation)] s).2
    rwa [Option.some.inj h] at hmo
  · rename_i order _
    intro h
    have hmo := (moves_cancelParents limits order s).2
    rwa [Option.some.inj h] at hmo
  · refine .told _ _ rfl ?_ fun _ => Nat.zero_le _
    simp [shutdownRoutes, restrict]

def registeredIds (h : List Label) : List ℕ := h.filterMap fun l => l.2.registered

def sentIds (h : List Label) : List ℕ := h.flatMap fun l => l.2.sent.map Prod.fst

structure Ledger (h : List Label) (s : PendingIORouteState) : Prop where
  ordered : (registeredIds h).Pairwise (· < ·)
  below : ∀ id ∈ registeredIds h, id < s.nextRequestId
  known : ∀ id ∈ s.activeIds, id ∈ registeredIds h
  sent : ∀ id ∈ sentIds h, id ∈ registeredIds h ∧ id ∉ s.activeIds
  once : (sentIds h).Nodup

theorem Ledger.step {h l} (hl : Ledger h s) (hm : Moves limits s l.2 t) : Ledger (h ++ [l]) t := by
  have hre : registeredIds (h ++ [l]) = registeredIds h ++ l.2.registered.toList := by
    cases hr : l.2.registered <;> simp [registeredIds, hr]
  have hsent : sentIds (h ++ [l]) = sentIds h ++ l.2.sent.map Prod.fst := by simp [sentIds]
  have hg : ∀ id ∈ sentIds h, id ∉ t.activeIds := by
    intro id hid hactive
    rcases hm.active id hactive with hactive | hnew
    · exact (hl.sent id hid).2 hactive.1
    · have hlt := hl.below id (hl.sent id hid).1
      have := (hm.registered id hnew).1
      omega
  refine ⟨?_, ?_, ?_, ?_, ?_⟩
  · rw [hre]
    refine List.pairwise_append.mpr ⟨hl.ordered, by cases l.2.registered <;> simp, ?_⟩
    intro a ha b hb
    have hlt := hl.below a ha
    have := (hm.registered b (by simpa using hb)).1
    omega
  · rw [hre]
    intro id hid
    rcases List.mem_append.mp hid with hid | hid
    · exact (hl.below id hid).trans_le hm.next
    · exact (hm.registered id (by simpa using hid)).2
  · rw [hre]
    intro id hid
    exact List.mem_append.mpr ((hm.active id hid).imp (fun h => hl.known id h.1) (by simpa using ·))
  · rw [hre, hsent]
    intro id hid
    rcases List.mem_append.mp hid with hid | hid
    · exact ⟨List.mem_append_left _ (hl.sent id hid).1, hg id hid⟩
    · have hold := hm.sent id hid
      refine ⟨List.mem_append_left _ (hl.known id hold), fun hactive => ?_⟩
      rcases hm.active id hactive with hactive | hnew
      · exact hactive.2 hid
      · have hlt := s.below id (List.mem_append_left _ hold)
        have := (hm.registered id hnew).1
        omega
  · rw [hsent]
    refine List.nodup_append.mpr ⟨hl.once, hm.once, fun id hid id' hid' he => ?_⟩
    exact (hl.sent id hid).2 (he ▸ hm.sent id' hid')

/-- What is said about the answer to a route, active or cancelled. -/
def expected (s : PendingIORouteState) (requestId : ℕ) : Option CanceledIORoute :=
  match s.active.lookup requestId with
  | some route => some route.toCanceled
  | none => s.canceled.lookup requestId

def Frame.identity (frame : Frame) : Option CanceledIORoute :=
  frame.metadata.map fun identity => ⟨identity.invocationId, frame.frameType, identity.resourceId⟩

/-- The rules for one operation: a frame that is not the answer of its route changes nothing, and
`cancel_parent` takes all routes of its parent or fails and leaves everything as it was. -/
def StepSafe (s : PendingIORouteState) (l : Label) (t : PendingIORouteState) : Prop :=
  (∀ frame closed, l.1 = .consume frame closed →
    (s.expected frame.requestId = none ∨ s.expected frame.requestId ≠ frame.identity) →
    t = s ∧ l.2.sent = []) ∧
  ∀ parent generation, l.1 = .cancelParent parent generation →
    (t = s ∧ l.2.sent = []) ∨
    (l.2.sent = s.sends (ofParent parent generation) invocationCanceled ∧
      t = s.moveCanceled (ofParent parent generation))

theorem consume_of_mismatch {frame}
    (h : s.expected frame.requestId = none ∨ s.expected frame.requestId ≠ frame.identity) :
    ∃ message, s.consume frame = .error message := by
  unfold consume
  split
  · exact ⟨_, rfl⟩
  rename_i identity hide
  have hfr : frame.identity = some ⟨identity.invocationId, frame.frameType,
      identity.resourceId⟩ := by
    rw [Frame.identity]
    revert hide
    fun_cases ioResultIdentity frame.metadata <;> rintro ⟨⟩
    simp_all
  rw [hfr, expected] at h
  split
  · rename_i route hro
    simp only [hro, reduceCtorEq, false_or] at h
    exact ⟨_, if_neg fun heq => h (congrArg some heq)⟩
  · rename_i hro
    simp only [hro] at h
    split
    · rename_i route hcanceled
      simp only [hcanceled, reduceCtorEq, false_or] at h
      exact ⟨_, if_neg fun heq => h (congrArg some heq)⟩
    · exact ⟨_, rfl⟩

theorem perform_stepSafe {l} (h : s.perform limits l.1 = some (l.2, t)) : StepSafe s l t := by
  obtain ⟨op, out⟩ := l
  refine ⟨?_, ?_⟩
  · rintro frame closed rfl hmi
    obtain ⟨message, her⟩ := consume_of_mismatch hmi
    simp only [perform, her] at h
    cases h
    exact ⟨rfl, rfl⟩
  · rintro parent generation rfl
    simp only [perform, cancelParents] at h
    split at h <;> cases h
    · exact .inl ⟨rfl, rfl⟩
    · obtain ⟨-, rfl⟩ := cancelParent_cases ‹_›
      exact .inr ⟨List.append_nil _, rfl⟩

/-- In every run of the table request ids are never used again, the two tables are disjoint and
within their capacities, each receiver of a registered route gets at most one message, an answer
that does not fit its route changes nothing, and `cancel_parent` moves all routes of its parent or
none. -/
theorem io_routes_safe (limits : RouteLimits) {tr : List (Label × PendingIORouteState)}
    (hr : (system limits).Run {} tr) :
    (registeredIds (labels tr)).Pairwise (· < ·) ∧
    (∀ s ∈ states {} tr, s.active.length ≤ limits.activeCapacity ∧
      s.canceled.length ≤ limits.canceledCapacity ∧
      ∀ id ∈ s.activeIds, id ∉ s.canceled.map Prod.fst) ∧
    (sentIds (labels tr)).Nodup ∧ sentIds (labels tr) ⊆ registeredIds (labels tr) ∧
    ∀ x ∈ steps {} tr, StepSafe x.1 x.2.1 x.2.2 := by
  have hledger : Ledger ([] ++ labels tr) (last {} tr) :=
    hr.invariant (I := Ledger) (fun _ _ _ _ hl _ hstep => hl.step (perform_moves hstep))
      ⟨.nil, nofun, nofun, nofun, .nil⟩ (guarded_true [] {} tr)
  have hstates := hr.forall_states (I := fun s => s.active.length ≤ limits.activeCapacity ∧
      s.canceled.length ≤ limits.canceledCapacity)
    (fun _ s l t h _ hstep => ⟨(perform_moves hstep).activeLength h.1,
      (perform_moves hstep).canceledLength h.2⟩)
    ⟨Nat.zero_le _, Nat.zero_le _⟩ (guarded_true [] {} tr)
  refine ⟨hledger.ordered, fun s hs => ⟨(hstates s hs).1, (hstates s hs).2, ?_⟩, hledger.once,
    fun id hid => (hledger.sent id hid).1, ?_⟩
  · exact fun id hid hid' => (List.nodup_append.mp s.distinct).2.2 id hid id hid' rfl
  · exact hr.forall_steps (I := fun _ => True) (fun _ _ _ _ hstep => perform_stepSafe hstep)
      fun _ _ => trivial

/-- Two routes of one parent are cancelled while the other table has room for one only; after the
late answer of an earlier route there is room. -/
theorem io_routes_safe_canceled :
    let route : PendingIORoute := ⟨"a", "v", "g", none, .ioReadResult, 7⟩
    let ops : List Op := [.register route, .cancelParent "a" "g", .register route,
      .register route, .cancelParent "a" "g", .consume ⟨.ioReadResult, 1, some ⟨"v", 7⟩⟩ false,
      .cancelParent "a" "g"]
    let tr := trace (perform ⟨2, 2⟩) {} ops
    sentIds (labels tr) = [1, 2, 3] ∧ (sentIds (labels tr)).Nodup :=
  ⟨by decide, (io_routes_safe ⟨2, 2⟩ (System.run_trace _ _ _ _)).2.2.1⟩

end RedevPlugin.Runtime.PendingIORouteState
