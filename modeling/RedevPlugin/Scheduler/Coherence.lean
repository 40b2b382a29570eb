import RedevPlugin.Scheduler.Cases
import RedevPlugin.Scheduler.Order
import RedevPlugin.Scheduler.Queues

/-! The representation invariant of the scheduler and its preservation.
`BaseInv` relates the tables to each other; `Invariant` adds that every queue
holds a live job, which is what a valid token promises to `take`. The two are
kept apart because a session revocation empties queues before it drops them.
Every operation other than `enqueue` returns and keeps the invariant; `enqueue`
returns when a generation is left for the queue it may have to make, and keeps
the invariant when the id it admits is listed by no queue. -/

namespace RedevPlugin.Scheduler

open Finmap (lookup_insert_ite lookup_insert lookup_of_insert lookup_of_erase size_erase mem_erase
  lookup_eq_none mem_insert values_erase)
open Except (map)

/-- The active counts by plugin are those of the active table, without zeros. -/
structure ActiveInv (active : Table RequestId ActiveInvocation)
    (byPlugin : Table PluginInstanceId ℕ) : Prop where
  count : ∀ p, (byPlugin.lookup p).getD 0 = active.count (fun a => a.pluginInstanceId == p)
  pos : ∀ p n, byPlugin.lookup p = some n → 0 < n

namespace ActiveInv

variable {active : Table RequestId ActiveInvocation} {byPlugin : Table PluginInstanceId ℕ}

theorem empty : ActiveInv ∅ ∅ := ⟨fun _ => rfl, fun p n h => by simp at h⟩

variable {id : RequestId} {a : ActiveInvocation}

theorem insert (h : ActiveInv active byPlugin) (hid : active.lookup id = none)
    (a : ActiveInvocation) :
    ActiveInv (active.insert id a)
      (byPlugin.insert a.pluginInstanceId ((byPlugin.lookup a.pluginInstanceId).getD 0 + 1)) := by
  constructor
  · intro p
    rw [Finmap.count_insert hid, ← h.count p, lookup_insert_ite]
    by_cases hp : p = a.pluginInstanceId
    · subst hp
      simp
    · have hp' : (a.pluginInstanceId == p) = false := by simpa using fun he => hp he.symm
      simp [hp, hp']
  · intro p n hn
    rcases lookup_of_insert hn with ⟨-, rfl⟩ | hn
    · omega
    · exact h.pos p n hn

theorem erase (h : ActiveInv active byPlugin) {n} (hid : active.lookup id = some a)
    (hn : byPlugin.lookup a.pluginInstanceId = some (n + 1)) :
    ActiveInv (active.erase id) (if n = 0 then byPlugin.erase a.pluginInstanceId
        else byPlugin.insert a.pluginInstanceId n) := by
  constructor
  · intro p
    have hc := h.count p
    rw [Finmap.count_erase hid] at hc
    by_cases hp : p = a.pluginInstanceId
    · subst hp
      rw [hn] at hc
      simp only [Option.getD_some, beq_self_eq_true, if_true, Nat.add_right_cancel_iff] at hc
      split_ifs with hz
      · rw [Finmap.lookup_erase, ← hc, hz, Option.getD_none]
      · rw [lookup_insert, ← hc, Option.getD_some]
    · have hp' : (a.pluginInstanceId == p) = false := by simpa using fun he => hp he.symm
      rw [hp'] at hc
      simp only [Bool.false_eq_true, if_false, Nat.add_zero] at hc
      split_ifs with hz
      · rw [Finmap.lookup_erase_ne hp, hc]
      · rw [Finmap.lookup_insert_of_ne _ hp, hc]
  · intro p m hm
    split_ifs at hm with hz
    · exact h.pos p m (lookup_of_erase hm).2
    · rcases lookup_of_insert hm with ⟨-, rfl⟩ | hm
      · omega
      · exact h.pos p m hm

/-- The count an active invocation is part of exists and is positive. -/
theorem exists_count (h : ActiveInv active byPlugin) (hid : active.lookup id = some a) :
    ∃ n, byPlugin.lookup a.pluginInstanceId = some (n + 1) := by
  have hpos : 0 < active.count (fun b => b.pluginInstanceId == a.pluginInstanceId) :=
    Finmap.count_pos hid (by simp)
  rw [← h.count a.pluginInstanceId] at hpos
  cases hl : byPlugin.lookup a.pluginInstanceId with
  | none => simp [hl] at hpos
  | some n =>
    rw [hl, Option.getD_some] at hpos
    exact ⟨n - 1, by rw [Nat.sub_add_cancel hpos]⟩

end ActiveInv

structure BaseInv (s : SchedulerState) : Prop where
  queues : QueueInv s.queues s.queuedByRequest
  order : OrderInv (generations s.queues) s.order s.staleOrderTokens s.nextQueueGeneration
  queued : s.queued = s.queuedByRequest.size
  active : ActiveInv s.active s.activeByPlugin
  apart : ∀ id ∈ s.queuedByRequest, id ∉ s.active

structure Invariant (s : SchedulerState) : Prop extends BaseInv s where
  live_pos : ∀ p queue, s.queues.lookup p = some queue → 0 < queue.live

variable {limits : SchedulerLimits} {s t : SchedulerState}

theorem Invariant.init : Invariant {} where
  queues := QueueInv.empty
  order := OrderInv.empty 0
  queued := rfl
  active := ActiveInv.empty
  apart := fun id hid => absurd hid (Finmap.notMem_empty)
  live_pos := by simp

theorem Invariant.live_insert (h : Invariant s) {p queue} (hli : 0 < queue.live) :
    ∀ p' queue', (s.queues.insert p queue).lookup p' = some queue' → 0 < queue'.live := by
  intro p' queue' hl
  rcases lookup_of_insert hl with ⟨-, rfl⟩ | hl
  · exact hli
  · exact h.live_pos p' queue' hl

/-! ### The helpers -/

section

variable (s) (requestId : RequestId) (p : PluginInstanceId)

theorem rememberRecentRequestId_eq :
    ∃ order ids, rememberRecentRequestId s requestId =
      { s with recentRequestOrder := order, recentRequestIds := ids } := by
  unfold rememberRecentRequestId
  split_ifs <;> exact ⟨_, _, rfl⟩

@[simp] theorem rememberRecentRequestId_queuedByRequest :
    (rememberRecentRequestId s requestId).queuedByRequest = s.queuedByRequest := by
  obtain ⟨order, ids, he⟩ := rememberRecentRequestId_eq s requestId
  rw [he]

theorem compactOrder_eq :
    ∃ order stale, compactOrder s = { s with order, staleOrderTokens := stale } := by
  unfold compactOrder
  split_ifs <;> exact ⟨_, _, rfl⟩

theorem compactPluginQueue_eq :
    ∃ queues, compactPluginQueue s p = { s with queues } := by
  unfold compactPluginQueue
  cases s.queues.lookup p with
  | none => exact ⟨_, rfl⟩
  | some queue =>
    simp only
    split_ifs <;> exact ⟨_, rfl⟩

@[simp] theorem compactOrder_queuedByRequest :
    (compactOrder s).queuedByRequest = s.queuedByRequest := by
  obtain ⟨order, stale, he⟩ := compactOrder_eq s
  rw [he]

@[simp] theorem compactPluginQueue_queuedByRequest :
    (compactPluginQueue s p).queuedByRequest = s.queuedByRequest := by
  obtain ⟨queues, he⟩ := compactPluginQueue_eq s p
  rw [he]

end

theorem BaseInv.remember (h : BaseInv s) (requestId : RequestId) :
    BaseInv (rememberRecentRequestId s requestId) := by
  obtain ⟨order, ids, he⟩ := rememberRecentRequestId_eq s requestId
  rw [he]
  exact ⟨h.queues, h.order, h.queued, h.active, h.apart⟩

theorem Invariant.remember (h : Invariant s) (requestId : RequestId) :
    Invariant (rememberRecentRequestId s requestId) := by
  refine ⟨h.toBaseInv.remember requestId, ?_⟩
  obtain ⟨order, ids, he⟩ := rememberRecentRequestId_eq s requestId
  rw [he]
  exact h.live_pos

theorem Invariant.compactOrder (h : Invariant s) : Invariant (compactOrder s) := by
  unfold Scheduler.compactOrder
  split_ifs
  · exact h
  · have hf : s.order.filter s.validToken = s.order.filter (current (generations s.queues)) := by
      rw [funext (validToken_eq s)]
    refine ⟨⟨h.queues, ?_, h.queued, h.active, h.apart⟩, h.live_pos⟩
    rw [hf]
    exact h.order.compact

theorem Invariant.compactPluginQueue (h : Invariant s) (p : PluginInstanceId) :
    Invariant (compactPluginQueue s p) := by
  unfold Scheduler.compactPluginQueue
  cases hq : s.queues.lookup p with
  | none => exact h
  | some queue =>
    simp only
    split_ifs
    · exact ⟨⟨h.queues.compact hq, h.order.of_eq (generations_replace hq rfl), h.queued, h.active,
        h.apart⟩, h.live_insert (h.live_pos p queue hq)⟩
    · exact h

variable {queue : PluginQueue} {live queued : ℕ} {job : InvocationJob} {requestId : RequestId}
  {queues : Table PluginInstanceId PluginQueue} {rest : List QueueToken} {token : QueueToken}
  {op : Op}

theorem BaseInv.dropQueue (h : BaseInv s) {p} (hq : s.queues.lookup p = some queue)
    (hli : queue.live = 0) : BaseInv (dropQueue s p) := by
  refine ⟨h.queues.drop hq hli, ?_, h.queued, h.active, h.apart⟩
  rw [Scheduler.dropQueue, generations_erase]
  exact h.order.drop (generations_of_lookup hq)

theorem BaseInv.entombed (h : BaseInv s) (hj : s.queuedByRequest.lookup requestId = some job)
    (hq : s.queues.lookup job.pluginInstanceId = some queue) (hli : queue.live = live + 1)
    (hqu : s.queued = queued + 1) : BaseInv (entombed s requestId job queue live queued) := by
  refine ⟨h.queues.entomb hj hq hli, ?_, ?_, h.active, ?_⟩
  · exact h.order.of_eq (generations_replace hq rfl)
  · have hs := h.queued
    rw [size_erase hj] at hs
    simp only [Scheduler.entombed]
    omega
  · exact fun id hid => h.apart id (mem_erase.mp hid).2

/-! ### Enqueue -/

/-- The id of an admitted request is listed by no queue: no tombstone of an
earlier request with that id is left. -/
def Reusable (limits : SchedulerLimits) (s : SchedulerState) : Op → Prop
  | .enqueue job => Admitted limits s job → Unlisted s.queues job.requestId
  | _ => True

/-- A generation is left for the queue an admitted request has to make. -/
def GenerationLeft (limits : SchedulerLimits) (s : SchedulerState) : Op → Prop
  | .enqueue job => Admitted limits s job → s.queues.lookup job.pluginInstanceId = none →
      s.nextQueueGeneration < u64Max
  | _ => True

theorem BaseInv.indexQueued (h : BaseInv s) (ha : Admitted limits s job) {order next}
    (hq : QueueInv queues (s.queuedByRequest.insert job.requestId job))
    (ho : OrderInv (generations queues) order s.staleOrderTokens next) :
    BaseInv (indexQueued { s with queues, order, nextQueueGeneration := next }
      job) := by
  refine ⟨hq, ho, ?_, h.active, ?_⟩
  · simp only [Scheduler.indexQueued, h.queued,
      Finmap.size_insert (lookup_eq_none.mpr ha.notQueued)]
  · intro id hid
    rcases mem_insert.mp hid with rfl | hid
    · exact ha.notActive
    · exact h.apart id hid

/-- An admitted request that no queue lists is enqueued. -/
theorem Invariant.enqueue (h : Invariant s) (ha : Admitted limits s job)
    (hun : Unlisted s.queues job.requestId)
    (hgen : s.queues.lookup job.pluginInstanceId = none → s.nextQueueGeneration < u64Max) :
    ∃ t, enqueue limits job s = .ok (none, t) ∧ Invariant t ∧
      t.queuedByRequest = s.queuedByRequest.insert job.requestId job := by
  rw [enqueue_admitted ha]
  cases hq : s.queues.lookup job.pluginInstanceId with
  | some queue =>
    rw [pushRequest_some hq]
    exact ⟨_, rfl, ⟨h.toBaseInv.indexQueued ha (h.queues.push hq hun)
      (h.order.of_eq (generations_replace hq rfl)), h.live_insert (Nat.succ_pos _)⟩, rfl⟩
  | none =>
    rw [pushRequest_none hq (hgen hq)]
    refine ⟨_, rfl, ⟨h.toBaseInv.indexQueued ha ?_ ?_, h.live_insert Nat.one_pos⟩, rfl⟩
    · -- a new queue is an empty queue that the request is pushed to
      have hem := h.queues.insert_empty hq (s.nextQueueGeneration + 1)
      have hun' : Unlisted (s.queues.insert job.pluginInstanceId
          ⟨[], 0, 0, s.nextQueueGeneration + 1⟩) job.requestId := by
        intro p queue hl
        rcases lookup_of_insert hl with ⟨-, rfl⟩ | hl
        · simp
        · exact hun p queue hl
      have hpu := hem.push (lookup_insert s.queues) hun'
      rwa [Finmap.insert_insert] at hpu
    · exact (h.order.create (generations_of_none hq)).of_eq (generations_insert _ _ _)

/-! ### Take -/

/-- The state after a job was taken from the queue whose token led the order. -/
theorem Invariant.activate (h : Invariant s) (ho : s.order = token :: rest)
    (hq : s.queues.lookup token.pluginInstanceId = some queue)
    (hg : queue.generation = token.generation) {left} (hli : queue.live = live + 1)
    (hqu : s.queued = queued + 1) {ids}
    (hpop : popLive s.queuedByRequest queue.requestIds queue.tombstones =
      .ok (requestId, job, ids, left)) :
    Invariant (activate { s with order := rest } token.pluginInstanceId
      { queue with requestIds := ids, live, tombstones := left } requestId job queued) := by
  obtain ⟨-, hj, hqi⟩ := h.queues.pop hq hli hpop
  have hkey : job.requestId = requestId := h.queues.key requestId job hj
  have hnone : s.active.lookup job.requestId = none :=
    lookup_eq_none.mpr (hkey ▸ h.apart _ (Finmap.mem_of_lookup_eq_some hj))
  have horder : OrderInv (generations s.queues) (token :: rest) s.staleOrderTokens
      s.nextQueueGeneration := ho ▸ h.order
  have hsi := h.queued
  rw [size_erase hj] at hsi
  refine ⟨⟨?_, ?_, ?_, h.active.insert hnone _, ?_⟩, ?_⟩
  · simp only [Scheduler.activate]
    split_ifs with hz
    · have hdr := hqi.drop (lookup_insert s.queues) hz
      rwa [Finmap.erase_insert_self] at hdr
    · exact hqi
  · simp only [Scheduler.activate]
    split_ifs with hz
    · exact (horder.leave (current_iff.mpr (hg ▸ generations_of_lookup hq))).of_eq
        (generations_erase _ _)
    · have hto : (⟨token.pluginInstanceId, queue.generation⟩ : QueueToken) = token := by rw [hg]
      rw [hto]
      exact horder.rotate.of_eq (generations_replace hq rfl)
  · simp only [Scheduler.activate]
    omega
  · intro id hid
    simp only [Scheduler.activate] at hid ⊢
    obtain ⟨hne, hid⟩ := mem_erase.mp hid
    rw [mem_insert, not_or]
    exact ⟨by rwa [hkey], h.apart id hid⟩
  · intro p queue' hl
    simp only [Scheduler.activate] at hl
    split_ifs at hl with hz
    · exact h.live_pos p queue' (lookup_of_erase hl).2
    · exact h.live_insert (Nat.pos_of_ne_zero hz) p queue' hl

/-- One iteration of the scan returns and hands out what it removes. -/
theorem Invariant.scanToken (h : Invariant s) (ho : s.order = token :: rest)
    (limits : SchedulerLimits) :
    ∃ r t, scanToken limits { s with order := rest } token = .ok (r, t) ∧ Invariant t ∧
      s.queuedByRequest.values = r.toList + t.queuedByRequest.values := by
  have horder : OrderInv (generations s.queues) (token :: rest) s.staleOrderTokens
      s.nextQueueGeneration := ho ▸ h.order
  have hdr : current (generations s.queues) token = false →
      ∃ r t, dropStale { s with order := rest } = .ok (r, t) ∧ Invariant t ∧
        s.queuedByRequest.values = r.toList + t.queuedByRequest.values := by
    intro hc
    obtain ⟨stale, hs⟩ := Nat.exists_eq_succ_of_ne_zero (horder.stale_pos hc).ne'
    refine ⟨none, { s with order := rest, staleOrderTokens := stale }, ?_, ?_, by simp⟩
    · simp [dropStale, hs, checkedPred]
    · exact ⟨⟨h.queues, (hs ▸ horder).popStale hc, h.queued, h.active, h.apart⟩, h.live_pos⟩
  unfold Scheduler.scanToken
  cases hq : s.queues.lookup token.pluginInstanceId with
  | none => exact hdr (by simp [current, generations_of_none hq])
  | some =>
    simp only
    split_ifs with hg hfull
    · refine ⟨none, { s with order := rest ++ [token] }, rfl, ?_, by simp⟩
      exact ⟨⟨h.queues, horder.rotate, h.queued, h.active, h.apart⟩, h.live_pos⟩
    · have hpos := h.live_pos _ _ hq
      obtain ⟨⟨id, job, ids, left⟩, hpop⟩ := (h.queues.ok _ _ hq).popLive_isOk hpos
      obtain ⟨live, hli⟩ := Nat.exists_eq_succ_of_ne_zero hpos.ne'
      have hj := (h.queues.pop hq hli hpop).2.1
      obtain ⟨queued, hqu⟩ : ∃ queued, s.queued = queued + 1 := ⟨_, h.queued.trans (size_erase hj)⟩
      refine ⟨some job, _, ?_, h.activate ho hq hg hli hqu hpop, ?_⟩
      · simp [takeLive, hpop, hli, hqu, checkedPred_succ]
      · exact values_erase hj
    · exact hdr (by simp [current, generations_of_lookup hq, hg])

/-- The job a scan hands out, if any. -/
def TakeOutcome.jobs : TakeOutcome → List InvocationJob
  | .taken job => [job]
  | _ => []

theorem Invariant.takeScan (h : Invariant s) (limits : SchedulerLimits) (n : ℕ) :
    ∃ outcome t, takeScan limits n s = .ok (outcome, t) ∧ Invariant t ∧
      s.queuedByRequest.values = outcome.jobs + t.queuedByRequest.values := by
  induction n generalizing s with
  | zero =>
    refine ⟨_, s, rfl, h, ?_⟩
    cases s.shutdown <;> simp [TakeOutcome.jobs]
  | succ n ih =>
    rw [Scheduler.takeScan]
    cases ho : s.order with
    | nil => exact ⟨.closed, s, rfl, h, by simp [TakeOutcome.jobs]⟩
    | cons token rest =>
      obtain ⟨r, t, hs, ht, hv⟩ := h.scanToken ho limits
      simp only [hs]
      cases r with
      | some => exact ⟨.taken _, t, rfl, ht, hv⟩
      | none =>
        obtain ⟨outcome, t', hok, hinv, hv'⟩ := ih ht
        exact ⟨outcome, t', hok, hinv, by simpa using hv.trans (by simpa using hv')⟩

/-! ### Completion -/

theorem Invariant.removeActive (h : Invariant s) (requestId : RequestId) :
    ∃ scope t, removeActive s requestId = .ok (scope, t) ∧ Invariant t ∧
      t.queuedByRequest = s.queuedByRequest := by
  unfold Scheduler.removeActive
  cases ha : s.active.lookup requestId with
  | none => exact ⟨none, s, rfl, h, rfl⟩
  | some invocation =>
    obtain ⟨n, hn⟩ := h.active.exists_count ha
    simp only [hn, checkedPred_succ]
    refine ⟨_, _, rfl, ⟨⟨h.queues, h.order, h.queued, h.active.erase ha hn, ?_⟩, h.live_pos⟩, rfl⟩
    exact fun id hid hm => h.apart id hid (mem_erase.mp hm).2

theorem Invariant.beginCompletion (h : Invariant s) (requestId : RequestId) :
    ∃ completion t, beginCompletion requestId s = .ok (completion, t) ∧ Invariant t ∧
      t.queuedByRequest = s.queuedByRequest := by
  obtain ⟨scope, s', hr, h', hq⟩ := h.removeActive requestId
  unfold Scheduler.beginCompletion
  simp only [hr]
  refine ⟨_, _, rfl, Invariant.remember ?_ requestId, ?_⟩
  · exact ⟨⟨h'.queues, h'.order, h'.queued, h'.active, h'.apart⟩, h'.live_pos⟩
  · rw [← hq]
    exact rememberRecentRequestId_queuedByRequest _ _

/-! ### Cancel and revoke -/

theorem BaseInv.exists_queue (h : BaseInv s) (hj : s.queuedByRequest.lookup requestId = some job) :
    ∃ queue live queued, s.queues.lookup job.pluginInstanceId = some queue ∧
      queue.live = live + 1 ∧ s.queued = queued + 1 := by
  obtain ⟨queue, hq, hid⟩ := h.queues.home requestId job hj
  have hpos : 0 < queue.live := by
    rw [(h.queues.ok _ queue hq).live]
    exact List.countP_pos_iff.mpr ⟨requestId, hid, by simp [liveFor_of_lookup hj]⟩
  exact ⟨queue, queue.live - 1, _, hq, (Nat.sub_add_cancel hpos).symm,
    h.queued.trans (size_erase hj)⟩

/-- A queue without a live job belongs to one of the plugins `ps`. -/
def EmptyOnly (s : SchedulerState) (ps : PluginInstanceId → Prop) : Prop :=
  ∀ p queue, s.queues.lookup p = some queue → queue.live = 0 → ps p

theorem Invariant.emptyOnly (h : Invariant s) : EmptyOnly s (fun _ => False) :=
  fun p queue hq hz => absurd hz (h.live_pos p queue hq).ne'

theorem BaseInv.toInvariant (h : BaseInv s) (he : EmptyOnly s (fun _ => False)) : Invariant s :=
  ⟨h, fun p queue hq => Nat.pos_of_ne_zero fun hz => he p queue hq hz⟩

namespace EmptyOnly

variable {ps : PluginInstanceId → Prop}

theorem mono (h : EmptyOnly s ps) {qs} (hm : ∀ p, ps p → qs p) : EmptyOnly s qs :=
  fun p queue hq hz => hm p (h p queue hq hz)

theorem entombed (h : EmptyOnly s ps) (requestId : RequestId) (job : InvocationJob)
    (queue : PluginQueue) (live queued : ℕ) :
    EmptyOnly (entombed s requestId job queue live queued)
      (fun p => ps p ∨ p = job.pluginInstanceId ∧ live = 0) := by
  intro p queue' hl hz
  simp only [Scheduler.entombed] at hl
  rcases lookup_of_insert hl with ⟨hp, rfl⟩ | hl
  · exact .inr ⟨hp, hz⟩
  · exact .inl (h p queue' hl hz)

theorem dropQueue (h : EmptyOnly s ps) (p : PluginInstanceId) :
    EmptyOnly (dropQueue s p) (fun p' => p' ≠ p ∧ ps p') := by
  intro p' queue hl hz
  obtain ⟨hne, hl⟩ := lookup_of_erase hl
  exact ⟨hne, h p' queue hl hz⟩

end EmptyOnly

theorem Invariant.cancelQueued (h : Invariant s)
    (hj : s.queuedByRequest.lookup requestId = some job) :
    ∃ t, cancelQueued s requestId job = .ok t ∧ Invariant t ∧
      t.queuedByRequest = s.queuedByRequest.erase requestId := by
  obtain ⟨queue, live, queued, hq, hli, hqu⟩ := h.exists_queue hj
  have hem := h.emptyOnly.entombed requestId job queue live queued
  have hba := h.toBaseInv.entombed hj hq hli hqu
  replace hba : BaseInv { entombed s requestId job queue live queued with
      queuedBySession := removeSessionRequest s.queuedBySession job.sessionScope requestId } :=
    ⟨hba.queues, hba.order, hba.queued, hba.active, hba.apart⟩
  unfold Scheduler.cancelQueued
  simp only [hq, Scheduler.entomb, hli, hqu, checkedPred_succ]
  refine ⟨_, rfl, Invariant.remember (Invariant.compactOrder ?_) _, ?_⟩
  · split_ifs with hz
    · apply (hba.dropQueue (lookup_insert s.queues) hz).toInvariant
      exact (hem.dropQueue job.pluginInstanceId).mono
        fun p ⟨hne, hp⟩ => hp.elim id fun hp => hne hp.1
    · apply (hba.toInvariant _).compactPluginQueue
      exact hem.mono fun p hp => hp.elim id fun hp => hz hp.2
  · rw [rememberRecentRequestId_queuedByRequest, compactOrder_queuedByRequest]
    split_ifs
    · rfl
    · rw [compactPluginQueue_queuedByRequest]

theorem BaseInv.revokeOne (h : BaseInv s) (hj : s.queuedByRequest.lookup requestId = some job) :
    ∃ t, revokeOne s requestId job = .ok t ∧ BaseInv t ∧
      t.queuedByRequest = s.queuedByRequest.erase requestId ∧
      ∀ ps, EmptyOnly s ps → EmptyOnly t (fun p => ps p ∨ p = job.pluginInstanceId) := by
  obtain ⟨queue, live, queued, hq, hli, hqu⟩ := h.exists_queue hj
  unfold Scheduler.revokeOne
  simp only [hq, Scheduler.entomb, hli, hqu, checkedPred_succ]
  refine ⟨_, rfl, (h.entombed hj hq hli hqu).remember requestId, ?_, ?_⟩
  · rw [rememberRecentRequestId_queuedByRequest]
  · intro ps he
    have hem := (he.entombed requestId job queue live queued).mono fun p hp => hp.imp_right And.left
    obtain ⟨order, ids, heq⟩ := rememberRecentRequestId_eq
      (Scheduler.entombed s requestId job queue live queued) requestId
    simp only [Scheduler.entombed] at heq
    rw [heq]
    exact hem

/-- The first loop of a revocation hands out the jobs it removes; only their
plugins can be left with an empty queue. -/
theorem BaseInv.revokeQueued (h : BaseInv s) (ids : List RequestId) {ps} (he : EmptyOnly s ps) :
    ∃ jobs t, revokeQueued ids s = .ok (jobs, t) ∧ BaseInv t ∧
      s.queuedByRequest.values = jobs + t.queuedByRequest.values ∧
      EmptyOnly t (fun p => ps p ∨ p ∈ jobs.map InvocationJob.pluginInstanceId) := by
  induction ids generalizing s ps with
  | nil => exact ⟨[], s, rfl, h, by simp, he.mono fun p hp => .inl hp⟩
  | cons _ rest ih =>
    unfold Scheduler.revokeQueued
    cases hj : s.queuedByRequest.lookup _ with
    | none => exact ih h he
    | some job =>
      obtain ⟨s', hs', h', hq', he'⟩ := h.revokeOne hj
      obtain ⟨jobs, t, hr, ht, hv, het⟩ := ih h' (he' ps he)
      simp only [hs', hr]
      refine ⟨job :: jobs, t, rfl, ht, ?_, ?_⟩
      · rw [values_erase hj, ← hq', hv, ← Multiset.cons_coe, Multiset.cons_add]
      · refine het.mono fun p hp => ?_
        simp only [List.map_cons, List.mem_cons]
        tauto

theorem BaseInv.dropEmptyQueues (h : BaseInv s) {ps} (he : EmptyOnly s (· ∈ ps)) :
    Invariant (dropEmptyQueues ps s) ∧
      (dropEmptyQueues ps s).queuedByRequest = s.queuedByRequest := by
  induction ps generalizing s with
  | nil => exact ⟨h.toInvariant (he.mono fun p hp => by cases hp), rfl⟩
  | cons p rest ih =>
    unfold Scheduler.dropEmptyQueues
    cases hq : s.queues.lookup p with
    | none =>
      simp only [Option.any_none, Bool.false_eq_true, if_false]
      apply ih h
      intro p' queue hl hz
      refine (List.mem_cons.mp (he p' queue hl hz)).resolve_left ?_
      rintro rfl
      simp [hq] at hl
    | some queue =>
      simp only [Option.any_some, beq_iff_eq]
      split_ifs with hz
      · apply ih (h.dropQueue hq hz)
        exact (he.dropQueue p).mono fun p' ⟨hne, hp⟩ => (List.mem_cons.mp hp).resolve_left hne
      · apply ih h
        intro p' queue' hl hz'
        refine (List.mem_cons.mp (he p' queue' hl hz')).resolve_left ?_
        rintro rfl
        rw [hq] at hl
        cases hl
        exact hz hz'

theorem Invariant.revokeSession (h : Invariant s) (iteration : HashOrder) (scope : SessionScope) :
    ∃ disposition t, revokeSession iteration scope s = .ok (disposition, t) ∧ Invariant t ∧
      s.queuedByRequest.values = disposition.queued + t.queuedByRequest.values := by
  have hba : BaseInv { s with
      revokedSessions := insert scope s.revokedSessions
      queuedBySession := s.queuedBySession.erase scope } :=
    ⟨h.queues, h.order, h.queued, h.active, h.apart⟩
  obtain ⟨jobs, s', hr, h', hv, he⟩ :=
    hba.revokeQueued (iteration.toList (s.queuedBySession.ids scope)) h.emptyOnly
  have hmem : EmptyOnly s'
      (· ∈ iteration.toList (jobs.map InvocationJob.pluginInstanceId).toFinset) :=
    he.mono fun p hp => by simpa [iteration.mem_toList] using hp
  obtain ⟨hinv, hq⟩ := h'.dropEmptyQueues hmem
  unfold Scheduler.revokeSession
  simp only [hr]
  refine ⟨_, _, rfl, hinv.compactOrder, ?_⟩
  rw [compactOrder_queuedByRequest, hq]
  exact hv

/-! ### Shutdown -/

theorem drainQueue_values (ids : List RequestId) (jobs : Table RequestId InvocationJob) :
    jobs.values = (drainQueue ids jobs).1 + (drainQueue ids jobs).2.values := by
  induction ids generalizing jobs with
  | nil => simp [drainQueue]
  | cons _ ids ih =>
    unfold drainQueue
    cases hj : jobs.lookup _ with
    | none => exact ih jobs
    | some job =>
      rw [values_erase hj, ih (jobs.erase _), ← Multiset.cons_coe, Multiset.cons_add]

theorem drainQueue_lookup (ids : List RequestId) (jobs : Table RequestId InvocationJob)
    (id : RequestId) :
    (drainQueue ids jobs).2.lookup id = if id ∈ ids then none else jobs.lookup id := by
  induction ids generalizing jobs with
  | nil => simp [drainQueue]
  | cons a ids ih =>
    unfold drainQueue
    cases hj : jobs.lookup a with
    | none =>
      simp only [ih jobs, List.mem_cons]
      by_cases ha : id = a
      · subst ha
        simp [hj]
      · simp [ha]
    | some job =>
      simp only [ih (jobs.erase a), List.mem_cons, Finmap.lookup_erase_ite]
      by_cases ha : id = a <;> simp [ha]

theorem drainQueues_values (queues : Table PluginInstanceId PluginQueue)
    (ps : List PluginInstanceId) (jobs : Table RequestId InvocationJob) :
    jobs.values = (drainQueues queues ps jobs).1 + (drainQueues queues ps jobs).2.values := by
  induction ps generalizing jobs with
  | nil => simp [drainQueues]
  | cons p ps ih =>
    simp only [drainQueues]
    rw [← Multiset.coe_add, add_assoc, ← ih, ← drainQueue_values]

/-- A job is gone once a plugin whose queue lists it was drained. -/
theorem drainQueues_lookup {id ps jobs}
    (h : (∃ p ∈ ps, ∃ queue, queues.lookup p = some queue ∧ id ∈ queue.requestIds) ∨
      jobs.lookup id = none) : (drainQueues queues ps jobs).2.lookup id = none := by
  induction ps generalizing jobs with
  | nil => exact h.resolve_left (by simp)
  | cons p ps ih =>
    apply ih
    rw [drainQueue_lookup]
    rcases h with ⟨p', hp, queue, hq, hid⟩ | h
    · rcases List.mem_cons.mp hp with rfl | hp
      · exact .inr (by simp [hq, hid])
      · exact .inl ⟨p', hp, queue, hq, hid⟩
    · exact .inr (by simp [h])

theorem Invariant.shutdown (h : Invariant s) :
    ∃ jobs t, shutdown s = .ok (jobs, t) ∧ Invariant t ∧
      s.queuedByRequest.values = jobs + t.queuedByRequest.values := by
  have hem : (drainQueues s.queues (s.queues.keys.sort (· ≤ ·)) s.queuedByRequest).2 = ∅ := by
    apply Finmap.ext_lookup
    intro id
    rw [Finmap.lookup_empty]
    apply drainQueues_lookup
    cases hj : s.queuedByRequest.lookup id with
    | none => exact .inr rfl
    | some job =>
      obtain ⟨queue, hq, hid⟩ := h.queues.home id job hj
      refine .inl ⟨job.pluginInstanceId, ?_, queue, hq, hid⟩
      rw [Finset.mem_sort]
      exact Finmap.mem_keys.mpr (Finmap.mem_of_lookup_eq_some hq)
  have hv := drainQueues_values s.queues (s.queues.keys.sort (· ≤ ·)) s.queuedByRequest
  unfold Scheduler.shutdown
  simp only [hem, Finmap.size_empty, if_true]
  refine ⟨_, _, rfl, ⟨⟨QueueInv.empty, OrderInv.empty _, rfl, h.active, ?_⟩, by simp⟩, ?_⟩
  · exact fun id hid => absurd hid Finmap.notMem_empty
  · rwa [hem] at hv

/-! ### Every operation -/

section

variable (h : Invariant s) (hre : Reusable limits s op) (hgen : GenerationLeft limits s op)

include h hre hgen

/-- A reusable operation returns, keeps the invariant, and accounts for every
queued job: what was queued and what is accepted is what leaves and what is
still queued. -/
theorem Invariant.perform :
    ∃ out t, perform limits s op = .ok (out, t) ∧ Invariant t ∧
      s.queuedByRequest.values + accepted (op, out) =
        departed (op, out) + t.queuedByRequest.values := by
  cases op with
  | enqueue job =>
    by_cases ha : Admitted limits s job
    · obtain ⟨t, ht, hinv, hq⟩ := h.enqueue ha (hre ha) (hgen ha)
      refine ⟨.enqueued none, t, by simp [Scheduler.perform, ht, map], hinv, ?_⟩
      rw [hq, Finmap.values_insert (lookup_eq_none.mpr ha.notQueued)]
      simp [accepted, departed, ← Multiset.singleton_add, add_comm]
    · obtain ⟨error, he⟩ := enqueue_rejected ha
      exact ⟨.enqueued (some error), s, by simp [Scheduler.perform, he, map], h,
        by simp [accepted, departed]⟩
  | take =>
    obtain ⟨outcome, t, ht, hinv, hv⟩ := h.takeScan limits s.order.length
    refine ⟨.took outcome, t, by simp [Scheduler.perform, take, ht, map], hinv, ?_⟩
    rw [hv]
    cases outcome <;> simp [accepted, departed, TakeOutcome.jobs]
  | beginCompletion requestId =>
    obtain ⟨completion, t, ht, hinv, hq⟩ := h.beginCompletion requestId
    exact ⟨.began completion, t, by simp [Scheduler.perform, ht, map], hinv,
      by simp [accepted, departed, hq]⟩
  | endCompletion =>
    exact ⟨.ended, _, rfl, ⟨⟨h.queues, h.order, h.queued, h.active, h.apart⟩, h.live_pos⟩,
      by simp [accepted, departed, endCompletion]⟩
  | cancel requestId =>
    simp only [Scheduler.perform, cancel]
    cases hj : s.queuedByRequest.lookup requestId with
    | some job =>
      obtain ⟨t, ht, hinv, hq⟩ := h.cancelQueued hj
      refine ⟨.canceled (.queued job), t, by simp [ht, map], hinv, ?_⟩
      rw [hq, values_erase hj]
      simp [accepted, departed]
    | none =>
      cases s.active.lookup requestId with
      | some invocation => exact ⟨_, _, rfl, h, by simp [accepted, departed]⟩
      | none =>
        by_cases hr : requestId ∈ s.recentRequestIds
        · exact ⟨.canceled .complete, s, by simp [hr, map], h, by simp [accepted, departed]⟩
        · exact ⟨.canceled .missing, s, by simp [hr, map], h, by simp [accepted, departed]⟩
  | revokeSession iteration scope =>
    obtain ⟨disposition, t, ht, hinv, hv⟩ := h.revokeSession iteration scope
    exact ⟨.revoked disposition, t, by simp [Scheduler.perform, ht, map], hinv,
      by simp [accepted, departed, hv]⟩
  | shutdown =>
    obtain ⟨jobs, t, ht, hinv, hv⟩ := h.shutdown
    exact ⟨.stopped jobs, t, by simp [Scheduler.perform, ht, map], hinv,
      by simp [accepted, departed, hv]⟩

theorem Invariant.perform_isOk : ∃ out t, Scheduler.perform limits s op = .ok (out, t) := by
  obtain ⟨out, t, hok, -⟩ := h.perform hre hgen
  exact ⟨out, t, hok⟩

end

end RedevPlugin.Scheduler
