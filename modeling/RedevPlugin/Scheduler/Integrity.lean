import RedevPlugin.Scheduler.Replay
import RedevPlugin.Scheduler.Scan

/-! When the scheduler's bookkeeping is coherent. `Coherent` is what its tables
promise each other. A run stays coherent just as long as no admitted request
carries an id that a plugin queue still lists as a tombstone; while it does, an
operation panics only when the queue generations are used up, and every accepted
job is handed out once or still queued. The recent window does not exclude a
tombstone's id: a cancelled request can outlive it behind a waiting job. -/

namespace RedevPlugin.Scheduler

open Transition
open Finmap (lookup_insert insert lookup_insert_ite lookup_of_insert notMem_empty)
open Except (map ok)

structure Coherent (s : SchedulerState) : Prop where
  queued : s.queued = s.queuedByRequest.size
  listed : ∀ id job, s.queuedByRequest.lookup id = some job →
    ∃ queue, s.queues.lookup job.pluginInstanceId = some queue ∧ id ∈ queue.requestIds
  only : ∀ id job, s.queuedByRequest.lookup id = some job →
    ∀ p queue, s.queues.lookup p = some queue → id ∈ queue.requestIds → p = job.pluginInstanceId
  live : ∀ p queue, s.queues.lookup p = some queue →
    queue.live = queue.requestIds.countP (liveFor s.queuedByRequest p)
  tombstones : ∀ p queue, s.queues.lookup p = some queue →
    queue.tombstones = queue.requestIds.countP (fun id => !liveFor s.queuedByRequest p id)
  token : ∀ p queue, s.queues.lookup p = some queue → s.order.count ⟨p, queue.generation⟩ = 1
  stale : s.staleOrderTokens = s.order.countP (fun token => !s.validToken token)
  active : ∀ p, s.activeCount p = s.active.count (fun a => a.pluginInstanceId == p)

variable {limits : SchedulerLimits} {s t : SchedulerState}

theorem Invariant.coherent (h : Invariant s) : Coherent s where
  queued := h.queued
  listed := h.queues.home
  only _ _ hj _ _ hq hid := (h.queues.unique hj hq hid).symm
  live p queue hq := (h.queues.ok p queue hq).live
  tombstones p queue hq := (h.queues.ok p queue hq).tombstones
  token p queue hq := h.order.one p _ (generations_of_lookup hq)
  stale := by
    rw [h.order.stale_eq]
    exact List.countP_congr_mem fun token _ => by rw [validToken_eq]
  active := h.active.count

/-- Admitting an id that a queue lists breaks the bookkeeping at once: the id is
listed by a second plugin, or twice by its own. -/
theorem Invariant.not_coherent_enqueue (h : Invariant s) {job} (ha : Admitted limits s job)
    (hli : ¬ Unlisted s.queues job.requestId)
    (hok : Scheduler.enqueue limits job s = .ok (none, t)) :
    ¬ Coherent t := by
  intro hc
  simp only [Unlisted, not_forall, not_not] at hli
  obtain ⟨p, queue, hq, hid⟩ := hli
  have hnone : s.queuedByRequest.lookup job.requestId = none :=
    Finmap.lookup_eq_none.mpr ha.notQueued
  rcases enqueue_cases hok with ⟨error, -, he, -⟩ | ⟨-, -, s', hpu, rfl⟩
  · cases he
  rcases pushRequest_cases hpu with ⟨queue', hq', rfl⟩ | ⟨hq', -, rfl⟩
  · by_cases hp : p = job.pluginInstanceId
    · -- its own queue: the id is counted live twice, the counter went up by one
      subst hp
      obtain rfl := Option.some.inj (hq.symm.trans hq')
      have hok := h.queues.ok _ queue hq
      have hse : liveFor (s.queuedByRequest.insert job.requestId job) job.pluginInstanceId
          job.requestId = true := by
        simp [liveFor_of_lookup (lookup_insert s.queuedByRequest)]
      have hfl := List.countP_flip hok.nodup hid hse (liveFor_of_none hnone _)
        fun id _ hne => liveFor_insert_of_ne hne job _
      have hliv := hc.live job.pluginInstanceId _ (lookup_insert s.queues)
      simp only [indexQueued, List.countP_append, List.countP_singleton, hse, if_true] at hliv
      have hold := hok.live
      omega
    · exact hp (hc.only job.requestId job (lookup_insert s.queuedByRequest) p queue
        ((Finmap.lookup_insert_of_ne s.queues hp).trans hq) hid)
  · have hp : p ≠ job.pluginInstanceId := by
      rintro rfl
      simp [hq] at hq'
    exact hp (hc.only job.requestId job (lookup_insert s.queuedByRequest) p queue
      ((Finmap.lookup_insert_of_ne s.queues hp).trans hq) hid)

/-- An operation returns unless it needs a queue generation and none is left. -/
theorem Invariant.perform_isOk_iff (h : Invariant s) (op : Op) :
    (∃ out t, Scheduler.perform limits s op = .ok (out, t)) ↔ GenerationLeft limits s op := by
  cases op with
  | enqueue job =>
    simp only [GenerationLeft, Scheduler.perform]
    by_cases ha : Admitted limits s job
    · rw [enqueue_admitted ha]
      cases hq : s.queues.lookup job.pluginInstanceId with
      | some queue => simp [pushRequest_some hq, map]
      | none =>
        simp only [pushRequest, hq, ha, true_implies]
        split_ifs with hg <;> simp [map, hg]
    · obtain ⟨error, he⟩ := enqueue_rejected ha
      simp [he, ha, map]
  | _ => exact iff_of_true (h.perform_isOk trivial trivial) trivial

theorem Invariant.reusable_of_coherent (h : Invariant s) {op out}
    (hok : Scheduler.perform limits s op = .ok (out, t)) (hc : Coherent t) :
    Reusable limits s op := by
  cases op with
  | enqueue job =>
    intro ha
    by_contra hli
    simp only [Scheduler.perform] at hok
    cases he : Scheduler.enqueue limits job s with
    | error => simp [he, map] at hok
    | ok r =>
      obtain ⟨r, t'⟩ := r
      rcases enqueue_cases he with ⟨error, herr, -⟩ | ⟨-, rfl, -⟩
      · simp [enqueueError_eq_none.mpr ha] at herr
      · simp only [he, map, ok.injEq, Prod.mk.injEq] at hok
        exact h.not_coherent_enqueue ha hli (hok.2 ▸ he) hc
  | _ => trivial

/-- The accepted jobs of a run, and those it handed out. -/
def acceptedJobs (ls : List (Op × Output)) : List InvocationJob := ls.flatMap accepted
def departedJobs (ls : List (Op × Output)) : List InvocationJob := ls.flatMap departed

theorem Invariant.step (h : Invariant s) {l} (hre : Reusable limits s l.1)
    (hstep : (system limits).step s l t) :
    Invariant t ∧
      s.queuedByRequest.values + accepted l = departed l + t.queuedByRequest.values := by
  obtain ⟨op, out⟩ := l
  have hgen := (h.perform_isOk_iff op).mp ⟨out, t, hstep⟩
  obtain ⟨out', t', hok, hinv, hv⟩ := h.perform hre hgen
  obtain ⟨rfl, rfl⟩ : out' = out ∧ t' = t := by
    have he := hok.symm.trans hstep
    simpa using he
  exact ⟨hinv, hv⟩

/-- The invariant with the account of the jobs of the run so far. -/
structure Accounted (ls : List (Op × Output)) (s : SchedulerState) : Prop extends Invariant s where
  balance : (acceptedJobs ls : Multiset InvocationJob) = departedJobs ls + s.queuedByRequest.values

theorem Accounted.init : Accounted [] {} := ⟨Invariant.init, rfl⟩

theorem Accounted.step {ls l} (h : Accounted ls s) (hre : Reusable limits s l.1)
    (hstep : (system limits).step s l t) : Accounted (ls ++ [l]) t := by
  obtain ⟨hinv, hv⟩ := h.toInvariant.step hre hstep
  refine ⟨hinv, ?_⟩
  simp only [acceptedJobs, departedJobs, List.flatMap_append, List.flatMap_singleton,
    ← Multiset.coe_add, add_assoc, ← hv]
  have hb := h.balance
  simp only [acceptedJobs, departedJobs] at hb
  rw [hb, add_assoc]

/-- **The bookkeeping of the scheduler.** Along any run from the empty state,
all states are coherent just when no admitted request's id is still listed by a
queue. In such a run an operation returns just when it needs no queue generation
or one is left, and the accepted jobs are those handed out, once each, and those
still queued. -/
theorem coherent_iff_reusable {tr : List ((Op × Output) × SchedulerState)}
    (hr : (system limits).Run {} tr) :
    (Guarded (fun _ s l => Reusable limits s l.1) [] {} tr ↔ ∀ u ∈ states {} tr, Coherent u) ∧
      (Guarded (fun _ s l => Reusable limits s l.1) [] {} tr →
        (∀ op, (∃ out t, perform limits (last {} tr) op = .ok (out, t)) ↔
          GenerationLeft limits (last {} tr) op) ∧
        (acceptedJobs (labels tr) : Multiset InvocationJob) =
          departedJobs (labels tr) + (last {} tr).queuedByRequest.values) := by
  constructor
  · exact hr.guarded_iff (fun h s l t hi hg hs => Accounted.step hi hg hs)
      (fun h s hi => hi.toInvariant.coherent)
      (fun h s l t hi hs hc => hi.toInvariant.reusable_of_coherent hs hc) Accounted.init
  · intro hg
    have hi : Accounted ([] ++ labels tr) (last {} tr) :=
      hr.invariant (fun h s l t hi hg hs => Accounted.step hi hg hs) Accounted.init hg
    exact ⟨hi.toInvariant.perform_isOk_iff, hi.balance⟩

def bareJob (id : RequestId) (p : PluginInstanceId) : InvocationJob := ⟨id, p, none, 0⟩

/-- One job of `p` waits behind the tombstone of a cancelled one. -/
def waiting : SchedulerState where
  queues := insert "p" ⟨["a", "b"], 1, 1, 1⟩ ∅
  order := [⟨"p", 1⟩]
  queuedByRequest := insert "b" (bareJob "b" "p") ∅
  recentRequestIds := {"a"}
  recentRequestOrder := ["a"]
  nextQueueGeneration := 1
  queued := 1

def waitingRun : List ((Op × Output) × SchedulerState) :=
  [((.enqueue (bareJob "a" "p"), .enqueued none),
      { queues := insert "p" ⟨["a"], 1, 0, 1⟩ ∅, order := [⟨"p", 1⟩]
        queuedByRequest := insert "a" (bareJob "a" "p") ∅, nextQueueGeneration := 1, queued := 1 }),
    ((.enqueue (bareJob "b" "p"), .enqueued none),
      { queues := insert "p" ⟨["a", "b"], 2, 0, 1⟩ ∅, order := [⟨"p", 1⟩]
        queuedByRequest := insert "b" (bareJob "b" "p") (insert "a" (bareJob "a" "p") ∅)
        nextQueueGeneration := 1, queued := 2 }),
    ((.cancel "a", .canceled (.queued (bareJob "a" "p"))), waiting)]

theorem waitingRun_run : (system (.new 2 1)).Run {} waitingRun := ⟨rfl, rfl, rfl, trivial⟩

theorem waitingRun_reusable :
    Guarded (fun _ s l => Reusable (.new 2 1) s l.1) [] {} waitingRun := by
  refine ⟨fun _ p queue hq => by simp at hq, fun _ p queue hq => ?_, trivial, trivial⟩
  rcases lookup_of_insert hq with ⟨-, rfl⟩ | hq
  · decide
  · simp at hq

theorem waitingRun_coherent :
    (system (.new 2 1)).Run {} waitingRun ∧ ∀ u ∈ states {} waitingRun, Coherent u :=
  ⟨waitingRun_run, (coherent_iff_reusable waitingRun_run).1.mp waitingRun_reusable⟩

theorem waiting_invariant : Invariant waiting := by
  have hi : Accounted ([] ++ labels waitingRun) (last {} waitingRun) :=
    waitingRun_run.invariant (fun h s l t hi hg hs => Accounted.step hi hg hs) Accounted.init
      waitingRun_reusable
  exact hi.toInvariant

/-- As many ids as the recent window holds. -/
def fillers : List RequestId :=
  (List.range recentRequestReplayCapacity).map fun i => String.ofList (List.replicate (i + 1) 'x')

theorem fillers_nodup : fillers.Nodup := by
  refine List.Nodup.map (fun i j h => ?_) List.nodup_range
  have hl := congrArg String.length h
  simpa using hl

theorem notMem_fillers {id} (h : id.toList.head? ≠ some 'x') : id ∉ fillers := by
  intro hm
  obtain ⟨i, -, rfl⟩ := List.mem_map.mp hm
  simp [List.replicate_succ] at h

theorem window_fillers : window (["a"] ++ fillers) = fillers := by
  have hlen : (["a"] ++ fillers).length - recentRequestReplayCapacity = 1 := by
    simp [fillers]
  rw [window, hlen, List.singleton_append, List.drop_succ_cons, List.drop_zero]

theorem waiting_freshId {id} (hid : id ∈ fillers) : FreshId waiting id := by
  have ha : id ≠ "a" := fun h => notMem_fillers (by decide) (h ▸ hid)
  have hb : id ≠ "b" := fun h => notMem_fillers (by decide) (h ▸ hid)
  refine ⟨?_, notMem_empty, ?_, by simpa [waiting] using ha⟩
  · intro p queue hq
    rcases lookup_of_insert hq with ⟨-, rfl⟩ | hq
    · simp [ha, hb]
    · simp at hq
  · intro hm
    rcases Finmap.mem_insert.mp hm with h | h
    · exact hb h
    · exact notMem_empty h

/-- `waiting` with another order and window. -/
def waitingWith (order : List QueueToken) (stale next : ℕ) (recent : List RequestId) :
    SchedulerState :=
  { waiting with
    order, staleOrderTokens := stale, nextQueueGeneration := next, recentRequestOrder := recent
    recentRequestIds := recent.toFinset }

variable {order : List QueueToken} {stale next : ℕ} {recent : List RequestId}

theorem Churned.eq_waitingWith {s ids} (h : Churned waiting s ids) :
    ∃ order stale, s = waitingWith order stale (1 + ids.length) (window (["a"] ++ ids)) :=
  h

/-- The id of the cancelled job leaves the window while its tombstone stays. -/
theorem exists_forgotten :
    ∃ tr order stale next recent, (system (.new 2 1)).Run {} tr ∧
      last {} tr = waitingWith order stale next recent ∧
      Invariant (waitingWith order stale next recent) ∧ "a" ∉ recent ∧ next < u64Max := by
  have hro : Room (.new 2 1) waiting "r" := ⟨rfl, rfl, rfl, by decide, by decide⟩
  have hrec : RecentInv waiting := ⟨rfl, by decide, by decide⟩
  have hnext : 1 + fillers.length < u64Max := by
    simp [fillers, recentRequestReplayCapacity, u64Max]
  have hgen : waiting.nextQueueGeneration + fillers.length ≤ u64Max := by
    rw [show waiting.nextQueueGeneration = 1 from rfl]
    exact hnext.le
  obtain ⟨tr, hr, hc, hi⟩ := exists_churn waiting_invariant hrec hro fillers_nodup
    (fun id hid => waiting_freshId hid) hgen
  obtain ⟨order, stale, hs⟩ := hc.eq_waitingWith
  rw [window_fillers] at hs
  refine ⟨waitingRun ++ tr, order, stale, _, fillers,
    (System.run_append _ _ _ _).mpr ⟨waitingRun_run, hr⟩, ?_, hs ▸ hi, notMem_fillers (by decide),
    hnext⟩
  exact hs

/-- The token of `p` is in the order, behind stale tokens only. -/
theorem waitingWith_order (hi : Invariant (waitingWith order stale next recent)) :
    ∃ gone rest, order = gone ++ ⟨"p", 1⟩ :: rest ∧ gone.length ≤ stale ∧
      ∀ x ∈ gone, x ≠ ⟨"p", 1⟩ ∧ x.generation ≤ next := by
  have hone : order.count ⟨"p", 1⟩ = 1 := hi.order.one "p" 1 rfl
  have hsta : stale = order.countP (fun x => !current (generations waiting.queues) x) :=
    hi.order.stale_eq
  have hmem : (⟨"p", 1⟩ : QueueToken) ∈ order := List.count_pos_iff.mp (by rw [hone]; decide)
  obtain ⟨gone, rest, rfl⟩ := List.append_of_mem hmem
  have hnot : (⟨"p", 1⟩ : QueueToken) ∉ gone := by
    rw [List.count_append, List.count_cons_self] at hone
    exact List.count_eq_zero.mp (by omega)
  have hgo : ∀ x ∈ gone, x ≠ ⟨"p", 1⟩ := fun x hx he => hnot (he ▸ hx)
  refine ⟨gone, rest, rfl, ?_,
    fun x hx => ⟨hgo x hx, hi.order.token_le x (List.mem_append_left _ hx)⟩⟩
  have hall : gone.countP (fun x => !current (generations waiting.queues) x) = gone.length := by
    refine List.countP_eq_length.mpr fun x hx => ?_
    have hne := hgo x hx
    obtain ⟨p, g⟩ := x
    simp only [current, generations, waiting, lookup_insert_ite]
    split_ifs with hp
    · have hg : 1 ≠ g := fun he => hne (by rw [hp, ← he])
      simp [hg]
    · simp
  rw [hsta, List.countP_append, hall]
  omega

/-- `waitingWith` after `a` was enqueued for plugin `q`. -/
def reusedWith (order : List QueueToken) (stale next : ℕ) (recent : List RequestId) :
    SchedulerState :=
  { waitingWith (order ++ [⟨"q", next + 1⟩]) stale (next + 1) recent with
    queues := insert "q" ⟨["a"], 1, 0, next + 1⟩ waiting.queues
    queuedByRequest := insert "a" (bareJob "a" "q") waiting.queuedByRequest, queued := 2 }

theorem waitingWith_reuse (hi : Invariant (waitingWith order stale next recent))
    (ha : "a" ∉ recent) (hnext : next < u64Max) :
    enqueue (.new 2 1) (bareJob "a" "q") (waitingWith order stale next recent) =
        .ok (none, reusedWith order stale next recent) ∧
      ¬ Coherent (reusedWith order stale next recent) := by
  have hadm : Admitted (.new 2 1) (waitingWith order stale next recent) (bareJob "a" "q") :=
    ⟨rfl, fun _ h => (by cases h), Nat.one_lt_two, Nat.two_pos, notMem_empty,
      fun h => ha (List.mem_toFinset.mp h), (by decide : "a" ∉ waiting.queuedByRequest)⟩
  have hpu : pushRequest (waitingWith order stale next recent) "q" "a" = .ok _ :=
    pushRequest_none rfl hnext "a"
  have hok : enqueue (.new 2 1) (bareJob "a" "q") (waitingWith order stale next recent) =
      .ok (none, reusedWith order stale next recent) :=
    (enqueue_admitted hadm).trans (congrArg (map _) hpu)
  have hli : ¬ Unlisted (waitingWith order stale next recent).queues "a" :=
    fun h => h "p" ⟨["a", "b"], 1, 1, 1⟩ rfl (by decide)
  exact ⟨hok, hi.not_coherent_enqueue hadm hli hok⟩

/-- The next `take` finds `a` in the queue of `p` and drops that queue, in which
`b` waits. -/
theorem reusedWith_take (hi : Invariant (waitingWith order stale next recent)) :
    ∃ v, take (.new 2 1) (reusedWith order stale next recent) = .ok (.taken (bareJob "a" "q"), v) ∧
      v.queues.lookup "p" = none ∧ v.queuedByRequest.lookup "b" = some (bareJob "b" "p") := by
  obtain ⟨gone, rest, rfl, hco, hgo⟩ := waitingWith_order hi
  have horder : (reusedWith (gone ++ ⟨"p", 1⟩ :: rest) stale next recent).order =
      gone ++ (⟨"p", 1⟩ :: (rest ++ [⟨"q", next + 1⟩])) := List.append_assoc _ _ _
  have hsta : ∀ x ∈ gone,
      (reusedWith (gone ++ ⟨"p", 1⟩ :: rest) stale next recent).validToken x = false := by
    intro x hx
    obtain ⟨hne, hle⟩ := hgo x hx
    obtain ⟨p, g⟩ := x
    simp only [SchedulerState.validToken, reusedWith, waiting, lookup_insert_ite]
    split_ifs with hq hp
    · have hg : next + 1 ≠ g := by
        simp only at hle
        omega
      simp [hg]
    · have hg : 1 ≠ g := fun he => hne (by rw [hp, ← he])
      simp [hg]
    · simp
  have hlen : (reusedWith (gone ++ ⟨"p", 1⟩ :: rest) stale next recent).order.length =
      gone.length + (rest.length + 1 + 1) := by
    rw [horder]
    simp
  rw [take, hlen, takeScan_stale _ horder hsta hco]
  exact ⟨_, rfl, rfl, rfl⟩

/-- The cancelled id `a` comes back for plugin `q` while the queue of `p` still
lists it. The state is no longer coherent; the next `take` pops the tombstone of
`p` as the job of `q` and drops the queue of `p` with its waiting job `b`, so
that cancelling `b` panics. -/
theorem reused_id_loses_job :
    ∃ tr, (system (.new 2 1)).Run {} tr ∧ ¬ Coherent (last {} tr) ∧
      ∃ v, perform (.new 2 1) (last {} tr) .take = .ok (.took (.taken (bareJob "a" "q")), v) ∧
        perform (.new 2 1) v (.cancel "b") =
          .error "queued invocation references a plugin queue" := by
  obtain ⟨tr, order, stale, next, recent, hr, hs, hi, ha, hnext⟩ := exists_forgotten
  obtain ⟨hok, hbad⟩ := waitingWith_reuse hi ha hnext
  obtain ⟨v, htake, hq, hb⟩ := reusedWith_take hi
  refine ⟨tr ++ [((.enqueue (bareJob "a" "q"), .enqueued none),
    reusedWith order stale next recent)], ?_, ?_, v, ?_, ?_⟩
  · refine (System.run_append _ _ _ _).mpr ⟨hr, ?_, trivial⟩
    rw [hs]
    simp only [system, perform, hok, map]
  · rwa [last_append, last_cons, last_nil]
  · simp only [last_append, last_cons, last_nil, perform, htake, map]
  · simp only [perform, cancel, hb, cancelQueued, bareJob, hq, map]

end RedevPlugin.Scheduler
