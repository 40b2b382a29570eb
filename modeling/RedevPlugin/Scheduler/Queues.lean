import RedevPlugin.Foundation.Counting
import RedevPlugin.Scheduler.Operations

/-! The plugin queues and the table of queued jobs. A queue lists request ids;
an id whose job is no longer queued stays behind as a tombstone until it is
popped or compacted away. `QueueInv` relates the two tables; the lemmas say how
it survives the ways an operation changes them: pushing a request, entombing
one, popping the first live one, compacting a queue and dropping a queue
without live requests. -/

namespace RedevPlugin.Scheduler

/-- The id names a queued job of plugin `p`. -/
def liveFor (jobs : Table RequestId InvocationJob) (p : PluginInstanceId) (id : RequestId) : Bool :=
  (jobs.lookup id).any (fun job => job.pluginInstanceId == p)

/-- One plugin's queue against the queued jobs: it lists no job of another
plugin, no id twice, and counts what it lists. -/
structure QueueOk (jobs : Table RequestId InvocationJob) (p : PluginInstanceId)
    (queue : PluginQueue) : Prop where
  only : ∀ id ∈ queue.requestIds, ∀ job, jobs.lookup id = some job → job.pluginInstanceId = p
  nodup : queue.requestIds.Nodup
  live : queue.live = queue.requestIds.countP (liveFor jobs p)
  tombstones : queue.tombstones = queue.requestIds.countP (fun id => !liveFor jobs p id)

structure QueueInv (queues : Table PluginInstanceId PluginQueue)
    (jobs : Table RequestId InvocationJob) : Prop where
  key : ∀ id job, jobs.lookup id = some job → job.requestId = id
  home : ∀ id job, jobs.lookup id = some job →
    ∃ queue, queues.lookup job.pluginInstanceId = some queue ∧ id ∈ queue.requestIds
  ok : ∀ p queue, queues.lookup p = some queue → QueueOk jobs p queue

/-- No queue lists the id, as a live request or as a tombstone. -/
def Unlisted (queues : Table PluginInstanceId PluginQueue) (id : RequestId) : Prop :=
  ∀ p queue, queues.lookup p = some queue → id ∉ queue.requestIds

variable {queues : Table PluginInstanceId PluginQueue} {jobs : Table RequestId InvocationJob}

variable {job : InvocationJob} {id a : RequestId} {left tombstones : ℕ}
  {rest ids : List RequestId}

theorem liveFor_of_lookup (h : jobs.lookup id = some job) (p : PluginInstanceId) :
    liveFor jobs p id = (job.pluginInstanceId == p) := by
  simp [liveFor, h]

theorem liveFor_of_none (h : jobs.lookup id = none) (p : PluginInstanceId) :
    liveFor jobs p id = false := by
  simp [liveFor, h]

theorem liveFor_insert_of_ne (h : id ≠ a) (job : InvocationJob) (p : PluginInstanceId) :
    liveFor (jobs.insert a job) p id = liveFor jobs p id := by
  simp [liveFor, Finmap.lookup_insert_of_ne jobs h]

theorem liveFor_erase_self (a : RequestId) (p : PluginInstanceId) :
    liveFor (jobs.erase a) p a = false :=
  liveFor_of_none (Finmap.lookup_erase a jobs) p

namespace QueueOk

variable {p : PluginInstanceId} {queue : PluginQueue}

/-- Membership in the queued table decides liveness of the ids a queue lists. -/
theorem liveFor_iff (h : QueueOk jobs p queue) {id} (hid : id ∈ queue.requestIds) :
    liveFor jobs p id = decide (id ∈ jobs) := by
  cases hl : jobs.lookup id with
  | none => simp [liveFor_of_none hl, Finmap.lookup_eq_none.mp hl]
  | some =>
    simp [liveFor_of_lookup hl, h.only id hid _ hl, Finmap.mem_of_lookup_eq_some hl]

theorem length_eq (h : QueueOk jobs p queue) :
    queue.live + queue.tombstones = queue.requestIds.length := by
  rw [h.live, h.tombstones, List.countP_not_add]

theorem live_add_tombstones (h : QueueOk jobs p queue) (jobs' : Table RequestId InvocationJob) :
    queue.requestIds.countP (liveFor jobs' p) +
      queue.requestIds.countP (fun id => !liveFor jobs' p id) = queue.live + queue.tombstones := by
  rw [h.length_eq, List.countP_not_add]

theorem nil (jobs : Table RequestId InvocationJob) (p : PluginInstanceId) (g : ℕ) :
    QueueOk jobs p ⟨[], 0, 0, g⟩ :=
  ⟨by simp, List.nodup_nil, rfl, rfl⟩

/-- A queue is still in order for a table that agrees on the ids it lists. -/
theorem congr (h : QueueOk jobs p queue) {jobs'}
    (heq : ∀ id ∈ queue.requestIds, jobs'.lookup id = jobs.lookup id) : QueueOk jobs' p queue := by
  have hl : ∀ id ∈ queue.requestIds, liveFor jobs' p id = liveFor jobs p id := fun id hid => by
    rw [liveFor, heq id hid, liveFor]
  refine ⟨fun id hid job hj => h.only id hid job (heq id hid ▸ hj), h.nodup, ?_, ?_⟩
  · rw [List.countP_congr_mem hl, h.live]
  · rw [List.countP_congr_mem fun id hid => congrArg (!·) (hl id hid), h.tombstones]

end QueueOk

variable {p : PluginInstanceId} {queue : PluginQueue}

namespace QueueInv

theorem empty : QueueInv ∅ ∅ := by
  constructor <;> intros <;> simp_all

variable {job : InvocationJob} {id : RequestId} {queue' : PluginQueue}

section

variable (h : QueueInv queues jobs)

include h

theorem unique (hj : jobs.lookup id = some job)
    (hq : queues.lookup p = some queue) (hid : id ∈ queue.requestIds) :
    job.pluginInstanceId = p :=
  (h.ok p queue hq).only id hid job hj

/-- A queued job is listed by the queue of its plugin. -/
theorem mem (hj : jobs.lookup id = some job)
    (hq : queues.lookup job.pluginInstanceId = some queue) : id ∈ queue.requestIds := by
  obtain ⟨home, hh, hid⟩ := h.home id job hj
  cases hq.symm.trans hh
  exact hid

/-- What a changed table of jobs and a changed queue of one plugin must meet. -/
theorem update {jobs'} (hkey : ∀ id job, jobs'.lookup id = some job → job.requestId = id)
    (hho : ∀ id job, jobs'.lookup id = some job →
      jobs.lookup id = some job ∨ job.pluginInstanceId = p)
    (hli : ∀ id job, jobs'.lookup id = some job → job.pluginInstanceId = p →
      id ∈ queue'.requestIds) (hok : QueueOk jobs' p queue')
    (hot : ∀ p' queue, p' ≠ p → queues.lookup p' = some queue → QueueOk jobs' p' queue) :
    QueueInv (queues.insert p queue') jobs' := by
  refine ⟨hkey, ?_, ?_⟩
  · intro id job hj
    rw [Finmap.lookup_insert_ite]
    split_ifs with hp
    · exact ⟨queue', rfl, hli id job hj hp⟩
    · exact h.home id job ((hho id job hj).resolve_right hp)
  · intro p' queue hl
    rw [Finmap.lookup_insert_ite] at hl
    split_ifs at hl with hp
    · cases hl
      exact hp ▸ hok
    · exact hot p' queue hp hl

/-- A plugin's queue may be replaced by one that lists a sublist of its ids,
keeps the live ones and counts what it lists. -/
theorem replace (hq : queues.lookup p = some queue)
    (hsub : queue'.requestIds.Sublist queue.requestIds)
    (hk : ∀ id ∈ queue.requestIds, id ∈ jobs → id ∈ queue'.requestIds)
    (hli : queue'.live = queue'.requestIds.countP (liveFor jobs p))
    (hto : queue'.tombstones = queue'.requestIds.countP (fun id => !liveFor jobs p id)) :
    QueueInv (queues.insert p queue') jobs := by
  have hok := h.ok p queue hq
  apply h.update h.key (fun _ _ hj => .inl hj)
  · intro id job hj hp
    exact hk id (h.mem hj (hp ▸ hq)) (Finmap.mem_of_lookup_eq_some hj)
  · exact ⟨fun id hid => hok.only id (hsub.subset hid), hsub.nodup hok.nodup, hli, hto⟩
  · exact fun p' queue _ hl => h.ok p' queue hl

/-- A plugin without a queue may be given an empty one. -/
theorem insert_empty (hq : queues.lookup p = none) (g : ℕ) :
    QueueInv (queues.insert p ⟨[], 0, 0, g⟩) jobs := by
  apply h.update h.key (fun _ _ hj => .inl hj)
  · intro id job hj hp
    obtain ⟨home, hh, -⟩ := h.home id job hj
    rw [hp, hq] at hh
    cases hh
  · exact QueueOk.nil jobs p g
  · exact fun p' queue _ hl => h.ok p' queue hl

/-- A request no queue lists is appended to its plugin's queue. -/
theorem push (hq : queues.lookup job.pluginInstanceId = some queue)
    (hun : Unlisted queues job.requestId) :
    QueueInv (queues.insert job.pluginInstanceId
        { queue with requestIds := queue.requestIds ++ [job.requestId], live := queue.live + 1 })
      (jobs.insert job.requestId job) := by
  have hok : ∀ p q, queues.lookup p = some q → QueueOk (jobs.insert job.requestId job) p q := by
    intro p q hl
    apply (h.ok p q hl).congr
    intro id hid
    apply Finmap.lookup_insert_of_ne
    rintro rfl
    exact hun p q hl hid
  have hold := hok _ queue hq
  have hse : liveFor (jobs.insert job.requestId job) job.pluginInstanceId job.requestId = true := by
    simp [liveFor_of_lookup (Finmap.lookup_insert jobs)]
  apply h.update
  · intro id j hj
    rcases Finmap.lookup_of_insert hj with ⟨rfl, rfl⟩ | hj
    · rfl
    · exact h.key id j hj
  · intro id j hj
    rcases Finmap.lookup_of_insert hj with ⟨rfl, rfl⟩ | hj
    · exact .inr rfl
    · exact .inl hj
  · intro id j hj hp
    rcases Finmap.lookup_of_insert hj with ⟨rfl, rfl⟩ | hj
    · simp
    · exact List.mem_append_left _ (h.mem hj (hp ▸ hq))
  · refine ⟨?_, ?_, ?_, ?_⟩
    · intro id hid j hj
      rcases Finmap.lookup_of_insert hj with ⟨rfl, rfl⟩ | hj'
      · rfl
      · rcases List.mem_append.mp hid with hid | hid
        · exact hold.only id hid j hj
        · rw [List.mem_singleton.mp hid, Finmap.lookup_insert] at hj
          cases hj
          rfl
    · refine List.nodup_append.mpr ⟨hold.nodup, List.nodup_singleton _, ?_⟩
      rintro a ha b hb rfl
      exact hun _ queue hq (List.mem_singleton.mp hb ▸ ha)
    · simp [hse, hold.live]
    · simp only [List.countP_append, List.countP_singleton, hse, Bool.not_true, hold.tombstones]
      rfl
  · exact fun p' q _ hl => hok p' q hl

/-- Removing a queued job leaves its id behind as a tombstone. -/
theorem entomb {live} (hj : jobs.lookup id = some job)
    (hq : queues.lookup job.pluginInstanceId = some queue) (hli : queue.live = live + 1) :
    QueueInv (queues.insert job.pluginInstanceId
        { queue with live, tombstones := queue.tombstones + 1 }) (jobs.erase id) := by
  have hok := h.ok _ queue hq
  have hfl : queue.requestIds.countP (liveFor jobs job.pluginInstanceId) =
      queue.requestIds.countP (liveFor (jobs.erase id) job.pluginInstanceId) + 1 :=
    List.countP_flip hok.nodup (h.mem hj hq) (by simp [liveFor_of_lookup hj])
      (liveFor_erase_self id _)
      fun x _ hx => by simp [liveFor, Finmap.lookup_erase_ne hx]
  have hco := hok.live_add_tombstones (jobs.erase id)
  have hl := hok.live
  apply h.update
  · exact fun a j ha => h.key a j (Finmap.lookup_of_erase ha).2
  · exact fun a j ha => .inl (Finmap.lookup_of_erase ha).2
  · intro a j ha hp
    have ham : a ∈ queue.requestIds := h.mem (Finmap.lookup_of_erase ha).2 (hp ▸ hq)
    exact ham
  · refine ⟨fun a ha j hj' => hok.only a ha j (Finmap.lookup_of_erase hj').2, hok.nodup, ?_, ?_⟩ <;>
      simp only <;> omega
  · intro p q hp hl'
    apply (h.ok p q hl').congr
    intro a ha
    apply Finmap.lookup_erase_ne
    rintro rfl
    exact hp (h.unique hj hl' ha).symm

/-- A queue without live requests may be dropped. -/
theorem drop (hq : queues.lookup p = some queue)
    (hli : queue.live = 0) : QueueInv (queues.erase p) jobs := by
  refine ⟨h.key, ?_, fun p' q hl => h.ok p' q (Finmap.lookup_of_erase hl).2⟩
  intro id job hj
  rw [Finmap.lookup_erase_ite, if_neg]
  · exact h.home id job hj
  · intro hp
    have hz : queue.requestIds.countP (liveFor jobs p) = 0 := (h.ok p queue hq).live.symm.trans hli
    exact absurd (by simp [liveFor_of_lookup hj, hp])
      (List.countP_eq_zero.mp hz id (h.mem hj (hp ▸ hq)))

theorem compact (hq : queues.lookup p = some queue) :
    QueueInv (queues.insert p
      { queue with requestIds := queue.requestIds.filter (fun id => id ∈ jobs), tombstones := 0 })
      jobs := by
  have hok := h.ok p queue hq
  apply h.replace hq List.filter_sublist
  · intro id hid hj
    simp [List.mem_filter, hid, hj]
  · simp only [List.countP_filter]
    rw [hok.live]
    exact List.countP_congr_mem fun id hid => by rw [hok.liveFor_iff hid, Bool.and_self]
  · symm
    simp only [List.countP_eq_zero, List.mem_filter]
    rintro id ⟨hid, hm⟩
    rw [hok.liveFor_iff hid, hm]
    decide

end

end QueueInv

/-- `popLive` passes over ids without a job and stops at the first id with one. -/
theorem popLive_eq_ok (h : popLive jobs ids tombstones = .ok (id, job, rest, left)) :
    ∃ passed, ids = passed ++ id :: rest ∧ (∀ a ∈ passed, jobs.lookup a = none) ∧
      jobs.lookup id = some job ∧ tombstones = passed.length + left := by
  induction ids generalizing tombstones with
  | nil => cases h
  | cons a ids ih =>
    unfold popLive at h
    cases hl : jobs.lookup a with simp only [hl] at h
    | some j =>
      cases h
      exact ⟨[], rfl, by simp, hl, by simp⟩
    | none =>
      cases tombstones with
      | zero => cases h
      | succ n =>
        obtain ⟨passed, hids, hnone, hj, hn⟩ := ih h
        refine ⟨a :: passed, by rw [hids]; rfl, ?_, hj, by simp only [List.length_cons]; omega⟩
        intro b hb
        rcases List.mem_cons.mp hb with rfl | hb
        · exact hl
        · exact hnone b hb

/-- With enough tombstones counted, `popLive` stops at a job if there is one. -/
theorem popLive_isOk (hco : ids.countP (fun a => !decide (a ∈ jobs)) ≤ tombstones)
    (hli : 0 < ids.countP (fun a => decide (a ∈ jobs))) :
    ∃ r, popLive jobs ids tombstones = .ok r := by
  induction ids generalizing tombstones with
  | nil => simp at hli
  | cons a ids ih =>
    unfold popLive
    cases hl : jobs.lookup a with
    | some job => exact ⟨_, rfl⟩
    | none =>
      have ha : a ∉ jobs := Finmap.lookup_eq_none.mp hl
      simp only [List.countP_cons, ha, decide_false, Bool.not_false, if_true, Bool.false_eq_true,
        if_false, Nat.add_zero] at hco hli
      cases tombstones with
      | zero => omega
      | succ n => exact ih (by omega) hli

theorem QueueOk.popLive_isOk (h : QueueOk jobs p queue) (hli : 0 < queue.live) :
    ∃ r, popLive jobs queue.requestIds queue.tombstones = .ok r := by
  apply Scheduler.popLive_isOk
  · rw [h.tombstones]
    exact (List.countP_congr_mem fun id hid => by rw [h.liveFor_iff hid]).le
  · rw [← List.countP_congr_mem fun id hid => h.liveFor_iff hid, ← h.live]
    exact hli

/-- Popping the first live request of a queue. -/
theorem QueueInv.pop (h : QueueInv queues jobs) {live} (hq : queues.lookup p = some queue)
    (hli : queue.live = live + 1)
    (hpop : popLive jobs queue.requestIds queue.tombstones = .ok (id, job, rest, left)) :
    job.pluginInstanceId = p ∧ jobs.lookup id = some job ∧
      QueueInv (queues.insert p
        { queue with requestIds := rest, live, tombstones := left }) (jobs.erase id) := by
  obtain ⟨passed, hids, hnone, hj, hto⟩ := popLive_eq_ok hpop
  have hp : job.pluginInstanceId = p := h.unique hj hq (by rw [hids]; simp)
  refine ⟨hp, hj, ?_⟩
  -- entomb the popped id first, then cut off the passed ids and the new tombstone
  have he := h.entomb hj (hp ▸ hq) hli
  rw [hp] at he
  have hok := he.ok p _ (Finmap.lookup_insert queues)
  have hsp : queue.requestIds = (passed ++ [id]) ++ rest := by rw [hids]; simp
  have hde : ∀ a ∈ passed ++ [id], liveFor (jobs.erase id) p a = false := by
    intro a ha
    rcases List.mem_append.mp ha with ha | ha
    · exact liveFor_of_none (by simp [Finmap.lookup_erase_ite, hnone a ha]) p
    · rw [List.mem_singleton.mp ha]
      exact liveFor_erase_self id p
  have hpos : (passed ++ [id]).countP (liveFor (jobs.erase id) p) = 0 :=
    List.countP_eq_zero.mpr fun a ha => by simp [hde a ha]
  have hneg : (passed ++ [id]).countP (fun a => !liveFor (jobs.erase id) p a) =
      passed.length + 1 := by
    rw [List.countP_eq_length.mpr fun a ha => by simp [hde a ha]]
    simp
  have hl : live = queue.requestIds.countP (liveFor (jobs.erase id) p) := hok.live
  have ht : queue.tombstones + 1 =
      queue.requestIds.countP (fun a => !liveFor (jobs.erase id) p a) := hok.tombstones
  rw [hsp, List.countP_append, hpos] at hl
  rw [hsp, List.countP_append, hneg] at ht
  have hfin : QueueInv ((queues.insert p
      { queue with live, tombstones := queue.tombstones + 1 }).insert p
      { queue with requestIds := rest, live, tombstones := left }) (jobs.erase id) := by
    apply he.replace (Finmap.lookup_insert queues)
    · rw [hsp]
      exact List.sublist_append_right _ _
    · intro a ha hm
      have hd : liveFor (jobs.erase id) p a = decide (a ∈ jobs.erase id) := hok.liveFor_iff ha
      rw [hsp] at ha
      rcases List.mem_append.mp ha with ha | ha
      · rw [hde a ha] at hd
        simp [hm] at hd
      · exact ha
    all_goals simp only; omega
  rwa [Finmap.insert_insert] at hfin

end RedevPlugin.Scheduler
