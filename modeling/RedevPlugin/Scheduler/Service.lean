import RedevPlugin.Foundation.Sequences
import RedevPlugin.Scheduler.Integrity
import RedevPlugin.Scheduler.Shrinking

/-! The order and the limits of service, in runs that accept no request id
twice. The queue of a plugin stands for the list of its waiting jobs, tombstones
left out; against that list `enqueue` appends, `take` pops the front and every
other operation only removes, so each plugin is served first in, first out. The
checks of `enqueue` and `take` keep the counts within the configured limits. -/

namespace RedevPlugin.Scheduler

open Transition
open Multiset (card mem_coe mem_add)
open List (append_nil nodup_nil nodup_append flatMap_append)

variable {limits : SchedulerLimits} {s t : SchedulerState}

/-! ### Waiting jobs -/

def waitingIds (s : SchedulerState) (p : PluginInstanceId) : List RequestId :=
  ((s.queues.lookup p).map PluginQueue.requestIds).getD []

/-- The queued jobs of a plugin, in the order of its queue. -/
def waitingJobs (s : SchedulerState) (p : PluginInstanceId) : List InvocationJob :=
  (waitingIds s p).filterMap s.queuedByRequest.lookup

variable {p : PluginInstanceId} {job : InvocationJob} {id : RequestId} {gone : List InvocationJob}

theorem waitingIds_of_lookup {queue} (h : s.queues.lookup p = some queue) :
    waitingIds s p = queue.requestIds := by
  simp [waitingIds, h]

theorem waitingIds_of_none (h : s.queues.lookup p = none) : waitingIds s p = [] := by
  simp [waitingIds, h]

theorem Invariant.nodup_waitingIds (h : Invariant s) (p : PluginInstanceId) :
    (waitingIds s p).Nodup := by
  cases hq : s.queues.lookup p with
  | none => simp [waitingIds_of_none hq]
  | some =>
    rw [waitingIds_of_lookup hq]
    exact (h.queues.ok p _ hq).nodup

/-- A queued job waits in the queue of its plugin. -/
theorem Invariant.mem_waitingIds (h : Invariant s) (hj : s.queuedByRequest.lookup id = some job) :
    id ∈ waitingIds s job.pluginInstanceId := by
  obtain ⟨queue, hq, hid⟩ := h.queues.home id job hj
  rwa [waitingIds_of_lookup hq]

theorem Invariant.plugin_of_mem_waitingIds (h : Invariant s)
    (hj : s.queuedByRequest.lookup id = some job) (hid : id ∈ waitingIds s p) :
    job.pluginInstanceId = p := by
  cases hq : s.queues.lookup p with
  | none => simp [waitingIds_of_none hq] at hid
  | some queue =>
    rw [waitingIds_of_lookup hq] at hid
    exact h.queues.unique hj hq hid

theorem Invariant.mem_waitingJobs (h : Invariant s) :
    job ∈ waitingJobs s p ↔
      s.queuedByRequest.lookup job.requestId = some job ∧ job.pluginInstanceId = p := by
  rw [waitingJobs, List.mem_filterMap]
  constructor
  · rintro ⟨id, hid, hj⟩
    rw [h.queues.key id job hj]
    exact ⟨hj, h.plugin_of_mem_waitingIds hj hid⟩
  · rintro ⟨hj, rfl⟩
    exact ⟨job.requestId, h.mem_waitingIds hj, hj⟩

theorem Shrinks.waitingIds_sublist (h : Shrinks s t) (p : PluginInstanceId) :
    (waitingIds t p).Sublist (waitingIds s p) := by
  cases hq' : t.queues.lookup p with
  | none =>
    rw [waitingIds_of_none hq']
    exact List.nil_sublist _
  | some =>
    obtain ⟨queue, hq, hs⟩ := h.queue p _ hq'
    rw [waitingIds_of_lookup hq, waitingIds_of_lookup hq']
    exact hs.requestIds

theorem Shrinks.waitingJobs_eq (h : Shrinks s t) (hs : Invariant s) (ht : Invariant t)
    (p : PluginInstanceId) :
    waitingJobs t p = (waitingJobs s p).filter (fun job => job.requestId ∈ t.queuedByRequest) := by
  have hk : (waitingIds s p).filter (fun id => id ∈ t.queuedByRequest) =
      (waitingIds t p).filter (fun id => id ∈ t.queuedByRequest) := by
    refine (h.waitingIds_sublist p).filter_eq (hs.nodup_waitingIds p) fun id hid hm => ?_
    obtain ⟨job, hj⟩ := Finmap.mem_iff.mp (of_decide_eq_true hm)
    have hp := hs.plugin_of_mem_waitingIds (h.job id job hj) hid
    exact hp ▸ ht.mem_waitingIds hj
  have hle : waitingJobs t p =
      ((waitingIds t p).filter (fun id => id ∈ t.queuedByRequest)).filterMap
        s.queuedByRequest.lookup := by
    rw [waitingJobs, List.filterMap_filter]
    refine List.filterMap_congr fun id _ => ?_
    cases hj : t.queuedByRequest.lookup id with
    | none => simp [Finmap.lookup_eq_none.mp hj]
    | some => simp [Finmap.mem_of_lookup_eq_some hj, h.job id _ hj]
  have hri : (waitingJobs s p).filter (fun job => job.requestId ∈ t.queuedByRequest) =
      ((waitingIds s p).filter (fun id => id ∈ t.queuedByRequest)).filterMap
        s.queuedByRequest.lookup := by
    rw [waitingJobs, List.filter_filterMap, List.filterMap_filter]
    refine List.filterMap_congr fun id _ => ?_
    cases hj : s.queuedByRequest.lookup id with
    | none => simp
    | some => simp only [Option.filter_some, hs.queues.key id _ hj]
  rw [hle, hri, hk]

/-! ### Limits -/

/-- The live count of a plugin's queue counts queued jobs of the plugin. -/
theorem Invariant.liveCount_le (h : Invariant s) (p : PluginInstanceId) :
    s.liveCount p ≤ s.queuedByRequest.count (fun job => job.pluginInstanceId == p) := by
  cases hq : s.queues.lookup p with
  | none => simp [SchedulerState.liveCount, hq]
  | some queue =>
    have hok := h.queues.ok p queue hq
    have hli : s.liveCount p = queue.live := by simp [SchedulerState.liveCount, hq]
    rw [hli, hok.live, List.countP_eq_length_filter, ← Finmap.card_keysWith,
      ← List.toFinset_card_of_nodup (hok.nodup.filter _)]
    refine Finset.card_le_card fun id hid => Finmap.mem_keysWith.mpr ?_
    rw [List.mem_toFinset, List.mem_filter] at hid
    simpa only [liveFor, Option.any_eq_true] using hid.2

structure WithinLimits (limits : SchedulerLimits) (s : SchedulerState) : Prop where
  concurrency : ∀ p, s.activeCount p ≤ limits.perPluginConcurrency
  capacity : ∀ p, s.activeCount p + s.liveCount p ≤ limits.perPluginCapacity
  queued : s.queued ≤ limits.queueCapacity

theorem WithinLimits.init (limits : SchedulerLimits) : WithinLimits limits {} :=
  ⟨fun _ => Nat.zero_le _, fun _ => Nat.zero_le _, Nat.zero_le _⟩

theorem enqueue_activeCount {r} (h : enqueue limits job s = .ok (r, t)) (p : PluginInstanceId) :
    t.activeCount p = s.activeCount p := by
  rcases enqueue_cases h with ⟨_, -, -, rfl⟩ | ⟨-, -, s', hpu, rfl⟩
  · rfl
  · rcases pushRequest_cases hpu with ⟨queue, -, rfl⟩ | ⟨-, -, rfl⟩ <;> rfl

theorem enqueue_liveCount_le (h : enqueue limits job s = .ok (none, t)) (p : PluginInstanceId) :
    t.liveCount p ≤ s.liveCount p + if p = job.pluginInstanceId then 1 else 0 := by
  rcases enqueue_cases h with ⟨_, -, he, -⟩ | ⟨-, -, s', hpu, rfl⟩
  · cases he
  rcases pushRequest_cases hpu with ⟨queue, hq, rfl⟩ | ⟨hq, -, rfl⟩ <;>
    simp only [indexQueued, SchedulerState.liveCount, Finmap.lookup_insert_ite] <;>
    split_ifs with hp <;> (try subst hp) <;> simp [hq]

theorem WithinLimits.step (h : WithinLimits limits s) {l} (hstep : (system limits).step s l t)
    (hs : Invariant s) (ht : Invariant t)
    (hv : s.queuedByRequest.values + accepted l = departed l + t.queuedByRequest.values) :
    WithinLimits limits t := by
  have hca := congrArg card hv
  simp only [Multiset.card_add, Multiset.coe_card] at hca
  have hsq : s.queued = card s.queuedByRequest.values := hs.queued
  have htq : t.queued = card t.queuedByRequest.values := ht.queued
  have hq := h.queued
  cases step_kind hstep with
  | rejected => exact h
  | @accepted _ _ ha hok =>
    simp only [accepted, List.length_singleton] at hca
    have hc := ha.capacity
    refine ⟨fun p => ?_, fun p => ?_, by omega⟩
    · rw [enqueue_activeCount hok]
      exact h.concurrency p
    · have hli := enqueue_liveCount_le hok p
      have hcap := h.capacity p
      rw [enqueue_activeCount hok]
      split_ifs at hli with hp
      · have hpc := ha.pluginCapacity
        rw [← hp] at hpc
        omega
      · omega
  | took step =>
    simp only [accepted, List.length_nil] at hca
    refine ⟨fun p => ?_, fun p => ?_, by omega⟩
    · have hb := step.below
      have hc := h.concurrency p
      rw [step.activeCount_eq p]
      split_ifs with hp
      · rw [← hp] at hb
        omega
      · omega
    · have hli := step.liveCount_eq p
      have hcap := h.capacity p
      rw [step.activeCount_eq p]
      omega
  | idle _ _ hr =>
    obtain ⟨stale, rfl⟩ := hr
    exact ⟨h.concurrency, h.capacity, h.queued⟩
  | settled hacc _ hset =>
    rw [hacc, List.length_nil] at hca
    refine ⟨fun p => (hset.active p).trans (h.concurrency p), fun p => ?_, by omega⟩
    exact (Nat.add_le_add (hset.active p) (hset.liveCount_le p)).trans (h.capacity p)

/-! ### First in, first out -/

/-- The job of plugin `p` a step takes. -/
def takenOf (p : PluginInstanceId) : Op × Output → List InvocationJob
  | (_, .took (.taken job)) => if job.pluginInstanceId = p then [job] else []
  | _ => []

/-- The jobs a step removes from the queue without running them. -/
def removed : Op × Output → List InvocationJob
  | (_, .canceled (.queued job)) => [job]
  | (_, .revoked disposition) => disposition.queued
  | (_, .stopped jobs) => jobs
  | _ => []

def acceptedOf (p : PluginInstanceId) (ls : List (Op × Output)) : List InvocationJob :=
  (acceptedJobs ls).filter (fun job => job.pluginInstanceId = p)

/-- Plugin `p` has been served first in, first out: what it was accepted for,
less what was cancelled, revoked or shut down, is what was taken, in order, and
then what waits. -/
def ServedFifo (p : PluginInstanceId) (ls : List (Op × Output)) (s : SchedulerState) : Prop :=
  List.Fifo (acceptedOf p ls) (ls.flatMap removed) (ls.flatMap (takenOf p)) (waitingJobs s p)

/-- A queued job is gone after a step just when the step handed it out. -/
theorem Invariant.mem_queued_iff (hs : Invariant s) (h : Shrinks s t)
    (hv : s.queuedByRequest.values = gone + t.queuedByRequest.values)
    (hj : s.queuedByRequest.lookup job.requestId = some job) :
    job.requestId ∈ t.queuedByRequest ↔ job ∉ gone := by
  have hno : s.queuedByRequest.values.Nodup := Finmap.values_nodup hs.queues.key
  have hmem : job ∈ s.queuedByRequest.values := Finmap.mem_values.mpr ⟨_, hj⟩
  rw [hv] at hno hmem
  constructor
  · intro hm hg
    obtain ⟨job', hj'⟩ := Finmap.mem_iff.mp hm
    obtain rfl := Option.some.inj (hj.symm.trans (h.job _ _ hj'))
    exact Multiset.disjoint_left.mp (Multiset.nodup_add.mp hno).2.2 (mem_coe.mpr hg)
      (Finmap.mem_values.mpr ⟨_, hj'⟩)
  · intro hg
    rcases mem_add.mp hmem with hm | hm
    · exact absurd (mem_coe.mp hm) hg
    obtain ⟨id, hid⟩ := Finmap.mem_values.mp hm
    rw [hs.queues.key id job (h.job id job hid)]
    exact Finmap.mem_of_lookup_eq_some hid

theorem Shrinks.waitingJobs_eq_filter (h : Shrinks s t) (hs : Invariant s) (ht : Invariant t)
    (hv : s.queuedByRequest.values = gone + t.queuedByRequest.values) (p : PluginInstanceId) :
    waitingJobs t p = (waitingJobs s p).filter (fun job => job ∉ gone) := by
  rw [h.waitingJobs_eq hs ht]
  refine List.filter_congr fun job hjob => ?_
  exact decide_eq_decide.mpr (hs.mem_queued_iff h hv (hs.mem_waitingJobs.mp hjob).1)

theorem enqueue_waitingIds (h : enqueue limits job s = .ok (none, t)) (p : PluginInstanceId) :
    waitingIds t p = waitingIds s p ++
      if p = job.pluginInstanceId then [job.requestId] else [] := by
  rcases enqueue_cases h with ⟨_, -, he, -⟩ | ⟨-, -, s', hpu, rfl⟩
  · cases he
  rcases pushRequest_cases hpu with ⟨queue, hq, rfl⟩ | ⟨hq, -, rfl⟩ <;>
    simp only [waitingIds, indexQueued, Finmap.lookup_insert_ite] <;>
    split_ifs with hp <;> (try subst hp) <;> simp [hq]

theorem enqueue_waitingJobs (h : enqueue limits job s = .ok (none, t))
    (hun : ∀ p, job.requestId ∉ waitingIds s p) (p : PluginInstanceId) :
    waitingJobs t p = waitingJobs s p ++ if p = job.pluginInstanceId then [job] else [] := by
  have hj : t.queuedByRequest = s.queuedByRequest.insert job.requestId job := by
    rcases enqueue_cases h with ⟨_, -, he, -⟩ | ⟨-, -, s', hpu, rfl⟩
    · cases he
    rcases pushRequest_cases hpu with ⟨queue, -, rfl⟩ | ⟨-, -, rfl⟩ <;> rfl
  have hold : (waitingIds s p).filterMap t.queuedByRequest.lookup = waitingJobs s p := by
    refine List.filterMap_congr fun id hid => ?_
    rw [hj, Finmap.lookup_insert_of_ne]
    rintro rfl
    exact hun p hid
  rw [waitingJobs, enqueue_waitingIds h p, List.filterMap_append, hold]
  split_ifs <;> simp [hj]

theorem TakeStep.plugin_eq (h : TakeStep limits s t job) (hs : Invariant s) :
    job.pluginInstanceId = h.token.pluginInstanceId :=
  (hs.queues.pop h.lookup_eq h.live_eq h.pop_eq).1

theorem TakeStep.exists_waitingJobs (h : TakeStep limits s t job) (hs : Invariant s) :
    ∃ rest, waitingJobs s job.pluginInstanceId = job :: rest := by
  obtain ⟨skipped, hids, hnone, hj, -⟩ := popLive_eq_ok h.pop_eq
  refine ⟨h.ids.filterMap s.queuedByRequest.lookup, ?_⟩
  rw [waitingJobs, h.plugin_eq hs, waitingIds_of_lookup h.lookup_eq, hids, List.filterMap_append,
    List.filterMap_eq_nil_iff.mpr hnone, List.nil_append]
  exact List.filterMap_cons_some hj

theorem departed_eq_removed {op out} (h : ∀ outcome, out ≠ .took outcome) :
    departed (op, out) = removed (op, out) := by
  cases out with
  | took => exact absurd rfl (h _)
  | canceled disposition => cases disposition <;> rfl
  | _ => rfl

theorem plugin_of_mem_taken {ls : List (Op × Output)} (h : job ∈ ls.flatMap (takenOf p)) :
    job.pluginInstanceId = p := by
  obtain ⟨⟨op, out⟩, -, hj⟩ := List.mem_flatMap.mp h
  cases out with
  | took outcome =>
    cases outcome with
    | taken =>
      simp only [takenOf] at hj
      split_ifs at hj with hp
      · rwa [List.mem_singleton.mp hj]
      · cases hj
    | _ => cases hj
  | _ => cases hj

theorem accepted_map_nodup (l : Op × Output) :
    ((accepted l).map InvocationJob.requestId).Nodup := by
  unfold accepted
  split <;> simp

/-! ### Runs that accept no id twice -/

def acceptedIds (ls : List (Op × Output)) : List RequestId :=
  (acceptedJobs ls).map InvocationJob.requestId

structure Service (limits : SchedulerLimits) (ls : List (Op × Output)) (s : SchedulerState) : Prop
    extends Accounted ls s where
  distinct : (acceptedIds ls).Nodup
  listed : ∀ p, ∀ id ∈ waitingIds s p, id ∈ acceptedIds ls
  within : WithinLimits limits s
  fifo : ∀ p, ServedFifo p ls s

/-- The step accepts no id that was accepted before. -/
def NewId (ls : List (Op × Output)) (l : Op × Output) : Prop :=
  ∀ job ∈ accepted l, job.requestId ∉ acceptedIds ls

theorem acceptedIds_append (ls ls' : List (Op × Output)) :
    acceptedIds (ls ++ ls') = acceptedIds ls ++ acceptedIds ls' := by
  simp [acceptedIds, acceptedJobs]

theorem nodup_acceptedIds_left {ls ls'} (h : (acceptedIds (ls ++ ls')).Nodup) :
    (acceptedIds ls).Nodup := by
  rw [acceptedIds_append] at h
  exact (nodup_append.mp h).1

theorem acceptedIds_singleton (l : Op × Output) :
    acceptedIds [l] = (accepted l).map InvocationJob.requestId := by
  simp [acceptedIds, acceptedJobs]

theorem guarded_newId {ls tr} (h : (acceptedIds (ls ++ labels tr)).Nodup) (s : SchedulerState) :
    Guarded (fun ls _ l => NewId ls l) ls s tr := by
  induction tr generalizing ls s with
  | nil => trivial
  | cons x tr ih =>
    obtain ⟨l, t⟩ := x
    rw [labels_cons, ← List.singleton_append, ← List.append_assoc] at h
    refine ⟨?_, ih h t⟩
    have hpa := nodup_acceptedIds_left h
    rw [acceptedIds_append, acceptedIds_singleton] at hpa
    intro job hjob hmem
    exact (nodup_append.mp hpa).2.2 _ hmem _ (List.mem_map_of_mem hjob) rfl

namespace Service

variable {ls : List (Op × Output)} {l : Op × Output}

theorem init (limits : SchedulerLimits) : Service limits [] {} where
  toAccounted := Accounted.init
  distinct := nodup_nil
  listed _ id hid := by simp [waitingIds] at hid
  within := WithinLimits.init limits
  fifo _ := rfl

theorem unlisted (h : Service limits ls s) {id} (hid : id ∉ acceptedIds ls) :
    Unlisted s.queues id := by
  intro p queue hq hm
  exact hid (h.listed p id (by rwa [waitingIds_of_lookup hq]))

theorem reusable (h : Service limits ls s) (hnew : NewId ls l)
    (hstep : (system limits).step s l t) : Reusable limits s l.1 := by
  obtain ⟨op, out⟩ := l
  cases op with
  | enqueue =>
    intro ha
    obtain ⟨r, hok, rfl⟩ := map_output_eq_ok.mp hstep
    rcases enqueue_cases hok with ⟨_, he, -⟩ | ⟨-, rfl, -⟩
    · simp [enqueueError_eq_none.mpr ha] at he
    · exact h.unlisted (hnew _ (by simp [accepted]))
  | _ => trivial

variable {job : InvocationJob}

theorem departed_subset (h : Service limits ls s) (hjob : job ∈ ls.flatMap removed) :
    job ∈ acceptedJobs ls := by
  have hdep : job ∈ departedJobs ls := by
    obtain ⟨l, hl, hj⟩ := List.mem_flatMap.mp hjob
    refine List.mem_flatMap.mpr ⟨l, hl, ?_⟩
    obtain ⟨op, out⟩ := l
    cases out with
    | took outcome => cases outcome <;> simp [removed] at hj
    | _ => rwa [departed_eq_removed (by simp)]
  have hmem : job ∈ (acceptedJobs ls : Multiset InvocationJob) := by
    rw [h.balance]
    exact mem_add.mpr (.inl (mem_coe.mpr hdep))
  exact mem_coe.mp hmem

theorem nodup_acceptedOf (h : Service limits ls s) (p : PluginInstanceId) :
    (acceptedOf p ls).Nodup :=
  (List.Nodup.of_map _ h.distinct).filter _

theorem servedFifo_accepted (h : Service limits ls s) (hnew : job.requestId ∉ acceptedIds ls)
    (hok : enqueue limits job s = .ok (none, t)) (p : PluginInstanceId) :
    ServedFifo p (ls ++ [(.enqueue job, .enqueued none)]) t := by
  have hfi := h.fifo p
  have hun : ∀ p, job.requestId ∉ waitingIds s p := fun p hm => hnew (h.listed p _ hm)
  simp only [ServedFifo, acceptedOf, acceptedJobs, flatMap_append, List.flatMap_singleton,
    accepted, removed, takenOf, append_nil, List.filter_append] at hfi ⊢
  rw [enqueue_waitingJobs hok hun p]
  split_ifs with hp
  · rw [List.filter_cons_of_pos (by simp [hp]), List.filter_nil]
    exact hfi.push fun hm => hnew (List.mem_map_of_mem (h.departed_subset hm))
  · rw [List.filter_cons_of_neg (by simpa using fun he => hp he.symm), List.filter_nil,
      append_nil, append_nil]
    exact hfi

/-- A step that accepts, takes and removes nothing. -/
theorem servedFifo_quiet {p} (h : ServedFifo p ls s) (hwa : waitingJobs t p = waitingJobs s p)
    (hacc : accepted l = []) (hta : takenOf p l = []) (hrem : removed l = []) :
    ServedFifo p (ls ++ [l]) t := by
  simp only [ServedFifo, acceptedOf, acceptedJobs, flatMap_append, List.flatMap_singleton,
    hacc, hta, hrem, append_nil, hwa]
  exact h

theorem servedFifo_took (h : Service limits ls s) (ht : Invariant t)
    (step : TakeStep limits s t job)
    (hv : s.queuedByRequest.values = ([job] : List InvocationJob) + t.queuedByRequest.values)
    (p : PluginInstanceId) : ServedFifo p (ls ++ [(.take, .took (.taken job))]) t := by
  have hfi := h.fifo p
  have hwa := step.shrinks.waitingJobs_eq_filter h.toInvariant ht hv p
  obtain ⟨rest, hre⟩ := step.exists_waitingJobs h.toInvariant
  simp only [ServedFifo, acceptedOf, acceptedJobs, flatMap_append, List.flatMap_singleton,
    accepted, removed, takenOf, append_nil] at hfi ⊢
  split_ifs with hp
  · subst hp
    rw [hre] at hfi hwa
    have hno : (job :: rest).Nodup := by
      have hall := (h.nodup_acceptedOf job.pluginInstanceId).filter (· ∉ ls.flatMap removed)
      exact (nodup_append.mp (hfi ▸ hall)).2.1
    have hnot : rest.filter (fun a => a ∉ [job]) = rest := by
      refine List.filter_eq_self.mpr fun a ha => ?_
      have hne : a ≠ job := fun he => (List.nodup_cons.mp hno).1 (he ▸ ha)
      simpa using hne
    rw [List.filter_cons_of_neg (by simp), hnot] at hwa
    rw [hwa]
    exact hfi.pop
  · rw [List.filter_eq_self.mpr] at hwa
    · rwa [hwa, append_nil]
    · intro a ha
      have hne : a ≠ job := by
        rintro rfl
        exact hp (h.toInvariant.mem_waitingJobs.mp ha).2
      simpa using hne

theorem servedFifo_settled (h : Service limits ls s) (ht : Invariant t) (hs : Shrinks s t)
    {op : Op} {out : Output} (hacc : accepted (op, out) = []) (hto : ∀ o, out ≠ .took o)
    (hv : s.queuedByRequest.values = departed (op, out) + t.queuedByRequest.values)
    (p : PluginInstanceId) : ServedFifo p (ls ++ [(op, out)]) t := by
  have hfi := h.fifo p
  have hta : takenOf p (op, out) = [] := by
    cases out with
    | took => exact absurd rfl (hto _)
    | _ => rfl
  rw [departed_eq_removed hto] at hv
  simp only [ServedFifo, acceptedOf, acceptedJobs, flatMap_append, List.flatMap_singleton,
    hacc, hta, append_nil] at hfi ⊢
  rw [hs.waitingJobs_eq_filter h.toInvariant ht hv p]
  refine hfi.remove fun job hjob hg => ?_
  -- a job that was taken no longer waits, so no step can remove it
  refine hfi.disjoint (h.nodup_acceptedOf p) hjob (h.toInvariant.mem_waitingJobs.mpr ⟨?_, ?_⟩)
  · have hmem : job ∈ s.queuedByRequest.values := by
      rw [hv]
      exact mem_add.mpr (.inl (mem_coe.mpr hg))
    obtain ⟨id, hid⟩ := Finmap.mem_values.mp hmem
    rwa [h.queues.key id job hid]
  · exact plugin_of_mem_taken hjob

theorem step (h : Service limits ls s) (hnew : NewId ls l) (hstep : (system limits).step s l t) :
    Service limits (ls ++ [l]) t := by
  have hre := h.reusable hnew hstep
  obtain ⟨ht, hv⟩ := h.toInvariant.step hre hstep
  refine ⟨h.toAccounted.step hre hstep, ?_, ?_, h.within.step hstep h.toInvariant ht hv, ?_⟩
  · rw [acceptedIds_append, acceptedIds_singleton]
    refine nodup_append.mpr ⟨h.distinct, accepted_map_nodup l, ?_⟩
    rintro a ha b hb rfl
    obtain ⟨job, hjob, rfl⟩ := List.mem_map.mp hb
    exact hnew job hjob ha
  · intro p id hid
    rw [acceptedIds_append, acceptedIds_singleton, List.mem_append]
    cases step_kind hstep with
    | rejected => exact .inl (h.listed p id hid)
    | @accepted _ _ _ hok =>
      rw [enqueue_waitingIds hok p, List.mem_append] at hid
      rcases hid with hid | hid
      · exact .inl (h.listed p id hid)
      · refine .inr ?_
        split_ifs at hid <;> simp_all [accepted]
    | took step => exact .inl (h.listed p id ((step.shrinks.waitingIds_sublist p).subset hid))
    | idle _ _ hr =>
      obtain ⟨stale, rfl⟩ := hr
      exact .inl (h.listed p id hid)
    | settled _ _ hset => exact .inl (h.listed p id ((hset.waitingIds_sublist p).subset hid))
  · intro p
    cases step_kind hstep with
    | rejected => exact servedFifo_quiet (h.fifo p) rfl rfl rfl rfl
    | @accepted job _ _ hok => exact h.servedFifo_accepted (hnew job (by simp [accepted])) hok p
    | took step => exact h.servedFifo_took ht step (by simpa [accepted, departed] using hv) p
    | @idle outcome _ hidle _ hr =>
      obtain ⟨stale, rfl⟩ := hr
      cases outcome with
      | taken => exact absurd rfl (hidle _)
      | _ => exact servedFifo_quiet (h.fifo p) rfl rfl rfl rfl
    | settled hacc hto hset =>
      refine h.servedFifo_settled ht hset.toShrinks hacc hto ?_ p
      simpa [hacc] using hv

end Service

end RedevPlugin.Scheduler
