import RedevPlugin.Foundation.Counting
import RedevPlugin.Scheduler.Operations

/-! The round-robin order. A queue is represented in the order by one token that
carries the queue's generation; a token left behind by a dropped queue is stale
and only counted. `OrderInv` says so for the generations of the current queues;
the lemmas follow the ways an operation changes queues and order. -/

namespace RedevPlugin.Scheduler

open Function (update update_apply)

/-- The generation of each plugin's current queue. -/
def generations (queues : Table PluginInstanceId PluginQueue) (p : PluginInstanceId) : Option ℕ :=
  (queues.lookup p).map PluginQueue.generation

/-- The token is the one of its plugin's current queue. -/
def current (gens : PluginInstanceId → Option ℕ) (t : QueueToken) : Bool :=
  gens t.pluginInstanceId == some t.generation

variable {queue : PluginQueue} {queues : Table PluginInstanceId PluginQueue} {p : PluginInstanceId}

theorem generations_of_lookup (h : queues.lookup p = some queue) :
    generations queues p = some queue.generation := by
  simp [generations, h]

theorem generations_of_none (h : queues.lookup p = none) : generations queues p = none := by
  simp [generations, h]

theorem generations_insert (queues : Table PluginInstanceId PluginQueue) (p : PluginInstanceId)
    (queue : PluginQueue) :
    generations (queues.insert p queue) =
      update (generations queues) p (some queue.generation) := by
  funext p'
  rw [generations, Finmap.lookup_insert_ite, update_apply]
  split_ifs <;> rfl

theorem generations_erase (queues : Table PluginInstanceId PluginQueue) (p : PluginInstanceId) :
    generations (queues.erase p) = update (generations queues) p none := by
  funext p'
  rw [generations, Finmap.lookup_erase_ite, update_apply]
  split_ifs <;> rfl

theorem generations_replace {queue'} (h : queues.lookup p = some queue)
    (hg : queue'.generation = queue.generation) :
    generations (queues.insert p queue') = generations queues := by
  rw [generations_insert, hg, ← generations_of_lookup h, Function.update_eq_self]

theorem validToken_eq (s : SchedulerState) (t : QueueToken) :
    s.validToken t = current (generations s.queues) t := by
  cases h : s.queues.lookup t.pluginInstanceId <;>
    simp [SchedulerState.validToken, current, generations, h]

structure OrderInv (gens : PluginInstanceId → Option ℕ) (order : List QueueToken)
    (stale next : ℕ) : Prop where
  one : ∀ p g, gens p = some g → order.count ⟨p, g⟩ = 1
  stale_eq : stale = order.countP (fun t => !current gens t)
  token_le : ∀ t ∈ order, t.generation ≤ next
  queue_le : ∀ p g, gens p = some g → g ≤ next

variable {gens : PluginInstanceId → Option ℕ} {order rest : List QueueToken} {stale next : ℕ}
  {t : QueueToken} {p : PluginInstanceId}

theorem current_update_of_ne {o} (h : t.pluginInstanceId ≠ p) :
    current (update gens p o) t = current gens t := by
  simp [current, Function.update_of_ne h]

theorem current_iff : current gens t = true ↔ gens t.pluginInstanceId = some t.generation := by
  simp [current]

namespace OrderInv

theorem empty (next : ℕ) : OrderInv (fun _ => none) [] 0 next := by
  constructor <;> intros <;> simp_all

section

variable (h : OrderInv gens order stale next)

include h

theorem of_eq {gens'} (hg : gens' = gens) : OrderInv gens' order stale next := hg ▸ h

/-- Only the number of occurrences of each token counts. -/
theorem perm {order'} (hp : order.Perm order') : OrderInv gens order' stale next :=
  ⟨fun p g hg => (hp.count_eq _).symm.trans (h.one p g hg),
    h.stale_eq.trans (hp.countP_eq _), fun t ht => h.token_le t (hp.mem_iff.mpr ht), h.queue_le⟩

/-- A new queue is given the next generation and a token at the back. -/
theorem create (hnone : gens p = none) :
    OrderInv (update gens p (some (next + 1))) (order ++ [⟨p, next + 1⟩]) stale (next + 1) := by
  have hnot : (⟨p, next + 1⟩ : QueueToken) ∉ order := fun hm => by
    have := h.token_le _ hm
    simp only at this
    omega
  have hold : ∀ t ∈ order, current (update gens p (some (next + 1))) t = current gens t := by
    intro t ht
    by_cases hp : t.pluginInstanceId = p
    · have hne : next + 1 ≠ t.generation := by
        have := h.token_le t ht
        omega
      simp [current, hp, hnone, hne]
    · exact current_update_of_ne hp
  constructor
  · intro p' g hg
    rw [update_apply] at hg
    rw [List.count_append]
    split_ifs at hg with hp
    · obtain rfl := Option.some.inj hg
      rw [hp, List.count_eq_zero_of_not_mem hnot]
      simp
    · rw [h.one p' g hg, List.count_eq_zero_of_not_mem]
      simp [hp]
  · rw [List.countP_append, List.countP_congr_mem fun t ht => congrArg (!·) (hold t ht),
      ← h.stale_eq]
    simp [current]
  · intro t ht
    rcases List.mem_append.mp ht with ht | ht
    · exact (h.token_le t ht).trans (Nat.le_succ next)
    · rw [List.mem_singleton.mp ht]
  · intro p' g hg
    rw [update_apply] at hg
    split_ifs at hg with hp
    · exact (Option.some.inj hg).ge
    · exact (h.queue_le p' g hg).trans (Nat.le_succ next)

/-- Dropping a queue turns its one token into a stale one. -/
theorem drop {g} (hg : gens p = some g) : OrderInv (update gens p none) order (stale + 1) next := by
  have hne : ∀ t, t ≠ ⟨p, g⟩ → current (update gens p none) t = current gens t := by
    intro t ht
    by_cases hp : t.pluginInstanceId = p
    · have hgt : g ≠ t.generation := fun he => ht (by cases t; simp_all)
      simp [current, hp, hg, hgt]
    · exact current_update_of_ne hp
  constructor
  · intro p' g' hg'
    rw [update_apply] at hg'
    split_ifs at hg' with hp
    exact h.one p' g' hg'
  · have hse : current gens ⟨p, g⟩ = true := by simp [current, hg]
    have hgo : current (update gens p none) ⟨p, g⟩ = false := by simp [current]
    have hco : ∀ l : List QueueToken, l.countP (fun t => !current (update gens p none) t) =
          l.countP (fun t => !current gens t) + l.count ⟨p, g⟩ := by
      intro l
      induction l with
      | nil => rfl
      | cons t l ih =>
        rw [List.countP_cons, List.countP_cons, List.count_cons, ih]
        by_cases ht : t = ⟨p, g⟩
        · subst ht
          simp [hse, hgo, Nat.add_assoc]
        · have hbeq : (t == (⟨p, g⟩ : QueueToken)) = false := by simpa using ht
          rw [hne t ht, hbeq]
          simp only [Bool.false_eq_true, if_false]
          omega
    rw [hco, h.one p g hg, ← h.stale_eq]
  · exact h.token_le
  · intro p' g' hg'
    rw [update_apply] at hg'
    split_ifs at hg' with hp
    exact h.queue_le p' g' hg'

end

/-- A stale token at the front is counted. -/
theorem stale_pos (h : OrderInv gens (t :: rest) stale next) (ht : current gens t = false) :
    0 < stale := by
  rw [h.stale_eq, List.countP_cons, ht]
  simp

theorem popStale (h : OrderInv gens (t :: rest) (stale + 1) next) (ht : current gens t = false) :
    OrderInv gens rest stale next := by
  constructor
  · intro p g hg
    have hone := h.one p g hg
    rw [List.count_cons_of_ne] at hone
    · exact hone
    · rintro rfl
      simp [current, hg] at ht
  · have := h.stale_eq
    rw [List.countP_cons, ht] at this
    simp only [Bool.not_false, if_true] at this
    omega
  · exact fun t ht => h.token_le t (List.mem_cons_of_mem _ ht)
  · exact h.queue_le

theorem rotate (h : OrderInv gens (t :: rest) stale next) :
    OrderInv gens (rest ++ [t]) stale next :=
  h.perm (List.perm_append_singleton t rest).symm

/-- The token at the front leaves together with its queue. -/
theorem leave (h : OrderInv gens (t :: rest) stale next) (ht : current gens t = true) :
    OrderInv (update gens t.pluginInstanceId none) rest stale next := by
  have hd := h.drop (current_iff.mp ht)
  exact hd.popStale (by simp [current])

theorem compact (h : OrderInv gens order stale next) :
    OrderInv gens (order.filter (current gens)) 0 next := by
  constructor
  · intro p g hg
    rw [List.count_filter (by simp [current, hg])]
    exact h.one p g hg
  · symm
    rw [List.countP_eq_zero]
    intro t ht
    simp [(List.mem_filter.mp ht).2]
  · exact fun t ht => h.token_le t (List.mem_of_mem_filter ht)
  · exact h.queue_le

end OrderInv

end RedevPlugin.Scheduler
