import RedevPlugin.Scheduler.Coherence

/-! The window of recent request ids. A completed, cancelled or revoked id is
remembered until 1024 younger ones push it out; after that `enqueue` takes the
id again. `RecentInv` says what the window holds, and `exists_churn` that a
scheduler with room for one more job can be driven through any number of fresh
ids, each enqueued and cancelled, without a change outside the window, the
order and the generation counter. -/

namespace RedevPlugin.Scheduler

open Transition

variable {limits : SchedulerLimits} {s t : SchedulerState}

structure RecentInv (s : SchedulerState) : Prop where
  ids : s.recentRequestIds = s.recentRequestOrder.toFinset
  nodup : s.recentRequestOrder.Nodup
  length_le : s.recentRequestOrder.length ≤ recentRequestReplayCapacity

/-- The youngest ids of a list that fit the window. -/
def window (ids : List RequestId) : List RequestId :=
  ids.drop (ids.length - recentRequestReplayCapacity)

theorem length_window_le (ids : List RequestId) :
    (window ids).length ≤ recentRequestReplayCapacity := by
  rw [window, List.length_drop]
  omega

variable {ids : List RequestId} {id : RequestId} {p : PluginInstanceId}

theorem window_of_length_le (h : ids.length ≤ recentRequestReplayCapacity) : window ids = ids := by
  rw [window, Nat.sub_eq_zero_of_le h, List.drop_zero]

theorem window_sublist (ids : List RequestId) : (window ids).Sublist ids := List.drop_sublist _ _

/-- Windowing as ids arrive or once at the end is the same. -/
theorem window_window_append (ids more : List RequestId) :
    window (window ids ++ more) = window (ids ++ more) := by
  unfold window
  generalize recentRequestReplayCapacity = c
  have hle : ids.length - c ≤ ids.length := Nat.sub_le _ _
  have hlen : ids.length - c + (ids.length + more.length - (ids.length - c) - c) =
      ids.length + more.length - c := by omega
  rw [← List.drop_append_of_le_length hle, List.drop_drop, List.length_drop, List.length_append,
    hlen]

/-- The eviction loop keeps the window. -/
theorem evictRecent_eq (h : ids.Nodup) :
    evictRecent ids ids.toFinset = (window ids, (window ids).toFinset) := by
  induction ids with
  | nil => rfl
  | cons oldest rest ih =>
    unfold evictRecent
    split_ifs with hlen
    · obtain ⟨hnot, hno⟩ := List.nodup_cons.mp h
      have her : (oldest :: rest).toFinset.erase oldest = rest.toFinset := by
        rw [List.toFinset_cons, Finset.erase_insert (by simpa using hnot)]
      have hwi : window (oldest :: rest) = window rest := by
        rw [List.length_cons] at hlen
        rw [window, window, List.length_cons, Nat.succ_sub (by omega), List.drop_succ_cons]
      rw [her, ih hno, hwi]
    · rw [window_of_length_le (by omega)]

-- unfolding a window compares its length with the capacity in unary
attribute [irreducible] window

theorem RecentInv.init : RecentInv {} := ⟨rfl, List.nodup_nil, by simp⟩

theorem RecentInv.remember_of_notMem (h : RecentInv s) (hid : id ∉ s.recentRequestOrder) :
    rememberRecentRequestId s id = { s with
      recentRequestOrder := window (s.recentRequestOrder ++ [id])
      recentRequestIds := (window (s.recentRequestOrder ++ [id])).toFinset } := by
  have hno : (s.recentRequestOrder ++ [id]).Nodup := by
    rw [List.nodup_append_comm]
    exact List.nodup_cons.mpr ⟨hid, h.nodup⟩
  have hset : insert id s.recentRequestIds = (s.recentRequestOrder ++ [id]).toFinset := by
    rw [h.ids, List.toFinset_append, Finset.union_comm]
    rfl
  rw [rememberRecentRequestId, if_neg (by simpa [h.ids] using hid)]
  simp only [hset, evictRecent_eq hno]

theorem RecentInv.remember (h : RecentInv s) (id : RequestId) :
    RecentInv (rememberRecentRequestId s id) := by
  by_cases hid : id ∈ s.recentRequestOrder
  · rwa [rememberRecentRequestId, if_pos (by simpa [h.ids] using hid)]
  · rw [h.remember_of_notMem hid]
    have hno : (s.recentRequestOrder ++ [id]).Nodup := by
      rw [List.nodup_append_comm]
      exact List.nodup_cons.mpr ⟨hid, h.nodup⟩
    exact ⟨rfl, (window_sublist (s.recentRequestOrder ++ [id])).nodup hno,
      length_window_le (s.recentRequestOrder ++ [id])⟩

/-- The scheduler has room for one job of a plugin that has none. -/
structure Room (limits : SchedulerLimits) (s : SchedulerState) (p : PluginInstanceId) : Prop where
  running : s.shutdown = false
  noQueue : s.queues.lookup p = none
  noActive : s.activeCount p = 0
  capacity : s.queued < limits.queueCapacity
  pluginCapacity : 0 < limits.perPluginCapacity

/-- No table and no queue of the scheduler knows the id. -/
structure FreshId (s : SchedulerState) (id : RequestId) : Prop where
  unlisted : Unlisted s.queues id
  notActive : id ∉ s.active
  notQueued : id ∉ s.queuedByRequest
  notRecent : id ∉ s.recentRequestOrder

/-- `t` is `s` after the ids were remembered: only the window, the order and the
generation counter moved. -/
def Churned (s t : SchedulerState) (ids : List RequestId) : Prop :=
  ∃ order stale, t = { s with
    order, staleOrderTokens := stale, nextQueueGeneration := s.nextQueueGeneration + ids.length
    recentRequestOrder := window (s.recentRequestOrder ++ ids)
    recentRequestIds := (window (s.recentRequestOrder ++ ids)).toFinset }

theorem exists_churn_one (h : Invariant s) (hrec : RecentInv s) (hro : Room limits s p)
    (hfresh : FreshId s id) (hgen : s.nextQueueGeneration < u64Max) :
    ∃ tr, (system limits).Run s tr ∧ Churned s (last s tr) [id] ∧ Invariant (last s tr) ∧
      RecentInv (last s tr) := by
  have ha : Admitted limits s ⟨id, p, none, 0⟩ := by
    refine ⟨hro.running, by simp, hro.capacity, ?_, hfresh.notActive, ?_, hfresh.notQueued⟩
    · have hli : s.liveCount p = 0 := by simp [SchedulerState.liveCount, hro.noQueue]
      simpa [hro.noActive, hli] using hro.pluginCapacity
    · simpa [hrec.ids] using hfresh.notRecent
  obtain ⟨u, hu, hinv, hjo⟩ := h.enqueue ha hfresh.unlisted (fun _ => hgen)
  have hj : u.queuedByRequest.lookup id = some ⟨id, p, none, 0⟩ := by
    rw [hjo, Finmap.lookup_insert]
  obtain ⟨t, ht, hti, -⟩ := hinv.cancelQueued hj
  have hstep : (system limits).Run s [((.enqueue ⟨id, p, none, 0⟩, .enqueued none), u),
        ((.cancel id, .canceled (.queued ⟨id, p, none, 0⟩)), t)] := by
    simp [system, perform, hu, Except.map, cancel, hj, ht]
  -- the states the two steps leave, from the inversion lemmas
  rcases enqueue_cases hu with ⟨error, -, he, -⟩ | ⟨-, -, s', hpu, rfl⟩
  · cases he
  rcases pushRequest_cases hpu with ⟨queue, hq, -⟩ | ⟨-, -, rfl⟩
  · simp [hro.noQueue] at hq
  obtain ⟨queue, live, queued, hq, hli, hqu, rfl⟩ := cancelQueued_cases ht
  simp only [indexQueued, Finmap.lookup_insert, Option.some.injEq] at hq
  subst hq
  obtain rfl : live = 0 := by
    simp only at hli
    omega
  obtain rfl : queued = s.queued := by
    simp only [indexQueued] at hqu
    omega
  simp only [if_true] at hti hstep
  generalize hX : dropQueue _ _ = X at hti hstep
  obtain ⟨order, stale, hX'⟩ : ∃ order stale, compactOrder X = { s with
      order, staleOrderTokens := stale
      nextQueueGeneration := s.nextQueueGeneration + 1 } := by
    obtain ⟨order, stale, he⟩ := compactOrder_eq X
    refine ⟨order, stale, ?_⟩
    rw [he, ← hX]
    simp only [dropQueue, entombed, indexQueued, removeSessionRequest, addSessionRequest,
      Finmap.erase_insert_self, Finmap.erase_of_lookup_none hro.noQueue,
      Finmap.erase_of_lookup_none (Finmap.lookup_eq_none.mpr hfresh.notQueued)]
  rw [hX'] at hti hstep
  have hrec' : RecentInv { s with
      order, staleOrderTokens := stale
      nextQueueGeneration := s.nextQueueGeneration + 1 } := ⟨hrec.ids, hrec.nodup, hrec.length_le⟩
  refine ⟨_, hstep, ⟨order, stale, ?_⟩, hti, hrec'.remember id⟩
  exact hrec'.remember_of_notMem hfresh.notRecent

theorem Churned.room (h : Churned s t ids) (hro : Room limits s p) : Room limits t p := by
  obtain ⟨order, stale, rfl⟩ := h
  exact ⟨hro.running, hro.noQueue, hro.noActive, hro.capacity, hro.pluginCapacity⟩

theorem Churned.trans {u more} (h : Churned s t ids) (h' : Churned t u more) :
    Churned s u (ids ++ more) := by
  obtain ⟨order, stale, rfl⟩ := h
  obtain ⟨order', stale', rfl⟩ := h'
  refine ⟨order', stale', ?_⟩
  simp only [window_window_append, List.append_assoc, List.length_append, Nat.add_assoc]

/-- Any fresh ids can be pushed through the window. -/
theorem exists_churn (h : Invariant s) (hrec : RecentInv s) (hro : Room limits s p)
    (hno : ids.Nodup) (hfresh : ∀ id ∈ ids, FreshId s id)
    (hgen : s.nextQueueGeneration + ids.length ≤ u64Max) :
    ∃ tr, (system limits).Run s tr ∧ Churned s (last s tr) ids ∧ Invariant (last s tr) := by
  induction ids generalizing s with
  | nil =>
    refine ⟨[], trivial, ⟨s.order, s.staleOrderTokens, ?_⟩, h⟩
    simp [last_nil, window_of_length_le hrec.length_le, ← hrec.ids]
  | cons _ ids ih =>
    obtain ⟨hnot, hno⟩ := List.nodup_cons.mp hno
    rw [List.length_cons] at hgen
    obtain ⟨tr, hr, hc, hi, hrec'⟩ :=
      exists_churn_one h hrec hro (hfresh _ List.mem_cons_self) (by omega)
    have hro' := hc.room hro
    obtain ⟨order, stale, hla⟩ := hc
    obtain ⟨tr', hr', hc', hi'⟩ := ih hi hrec' hro' hno (by
      intro a ha
      obtain ⟨h1, h2, h3, h4⟩ := hfresh a (List.mem_cons_of_mem _ ha)
      rw [hla]
      refine ⟨h1, h2, h3, fun hm => ?_⟩
      rcases List.mem_append.mp ((window_sublist _).subset hm) with hm | hm
      · exact h4 hm
      · exact hnot (List.mem_singleton.mp hm ▸ ha)) (by
      rw [hla]
      simp only [List.length_singleton]
      omega)
    refine ⟨tr ++ tr', ((system limits).run_append s tr tr').mpr ⟨hr, hr'⟩, ?_, ?_⟩
    · rw [last_append]
      exact Churned.trans ⟨order, stale, hla⟩ hc'
    · rwa [last_append]

end RedevPlugin.Scheduler
