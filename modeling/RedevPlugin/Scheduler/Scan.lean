import RedevPlugin.Scheduler.Cases

/-! The scan of `take`, as a whole. It passes over the tokens at the front of the
order that are stale, which it drops, or belong to a plugin at its limit, which
it puts at the back, and stops at the first token it can serve. -/

namespace RedevPlugin.Scheduler

variable {limits : SchedulerLimits} {s t : SchedulerState}

/-- The scan cannot serve the token: its queue is gone or its plugin is at its
limit. -/
def Passed (limits : SchedulerLimits) (s : SchedulerState) (token : QueueToken) : Prop :=
  s.validToken token = false ∨ limits.perPluginConcurrency ≤ s.activeCount token.pluginInstanceId

/-- A scan only moves tokens: the order and the count of stale tokens. -/
def Reordered (s u : SchedulerState) (order : List QueueToken) : Prop :=
  ∃ stale, u = { s with order, staleOrderTokens := stale }

variable {rest todo back : List QueueToken}

theorem scanToken_none_cases {token}
    (h : scanToken limits { s with order := rest } token = .ok (none, t)) :
    Passed limits s token ∧ Reordered s t (rest ++ [token].filter s.validToken) := by
  rcases scanToken_cases h with ⟨hv, -, stale, -, rfl⟩ | ⟨queue, hq, hg, hfull, -, rfl⟩ |
    ⟨queue, job, -, -, -, he, -⟩
  · have hv' : s.validToken token = false := hv
    exact ⟨.inl hv', stale, by simp [hv']⟩
  · have hv : s.validToken token = true := by
      simp [SchedulerState.validToken, hg, hq]
    exact ⟨.inr hfull, s.staleOrderTokens, by simp [hv]⟩
  · cases he

/-- The token the scan stops at and what `take` does there. -/
structure Served (limits : SchedulerLimits) (s t : SchedulerState) (job : InvocationJob)
    (passed : List QueueToken) (token : QueueToken) (order : List QueueToken)
    (queue : PluginQueue) : Prop where
  passed : ∀ x ∈ passed, Passed limits s x
  queue_eq : s.queues.lookup token.pluginInstanceId = some queue
  generation_eq : queue.generation = token.generation
  below : s.activeCount token.pluginInstanceId < limits.perPluginConcurrency
  take : ∃ u, Reordered s u order ∧ takeLive u token.pluginInstanceId queue = .ok (job, t)

/-- A scan that hands out a job, with the tokens `back` it already put back. -/
theorem takeScan_taken {job} (ho : s.order = todo ++ back)
    (h : takeScan limits todo.length s = .ok (.taken job, t)) :
    ∃ passed token rest queue, todo = passed ++ token :: rest ∧
      Served limits s t job passed token (rest ++ back ++ passed.filter s.validToken) queue := by
  induction todo generalizing s back with
  | nil =>
    rw [List.length_nil, takeScan] at h
    split_ifs at h <;> cases h
  | cons first _ ih =>
    rcases takeScan_succ_cases h with ⟨-, he, -⟩ | ⟨token, rest, ho', hca⟩
    · cases he
    rw [ho, List.cons_append, List.cons.injEq] at ho'
    obtain ⟨rfl, rfl⟩ := ho'
    rcases hca with ⟨job', hs, he⟩ | ⟨s', hs, hn⟩
    · cases he
      rcases scanToken_cases hs with ⟨-, he, -⟩ | ⟨queue, -, -, -, he, -⟩ |
        ⟨queue, job', hq, hg, hlim, he, ht⟩
      · cases he
      · cases he
      cases he
      exact ⟨[], first, _, queue, rfl, by simp, hq, hg, hlim, _, ⟨s.staleOrderTokens, by simp⟩, ht⟩
    · obtain ⟨hpass, _, rfl⟩ := scanToken_none_cases hs
      obtain ⟨passed, token, rest, queue, rfl, hp, hq, hg, hlim, u, hu, ht⟩ :=
        ih (List.append_assoc _ _ _) hn
      refine ⟨first :: passed, token, rest, queue, rfl, List.forall_mem_cons.mpr ⟨hpass, hp⟩, hq,
        hg, hlim, u, ?_, ht⟩
      rw [← List.singleton_append, List.filter_append, ← List.append_assoc, List.append_assoc rest]
      exact hu

/-- A scan that hands out nothing passed every token. -/
theorem takeScan_idle {outcome} (ho : s.order = todo ++ back)
    (h : takeScan limits todo.length s = .ok (outcome, t)) (hidle : ∀ job, outcome ≠ .taken job) :
    (∀ x ∈ todo, Passed limits s x) ∧ Reordered s t (back ++ todo.filter s.validToken) := by
  induction todo generalizing s back with
  | nil =>
    rw [List.length_nil, takeScan] at h
    simp only [Except.ok.injEq, Prod.mk.injEq] at h
    rw [← h.2, List.filter_nil, List.append_nil, ← List.nil_append back, ← ho]
    exact ⟨by simp, s.staleOrderTokens, rfl⟩
  | cons first todo ih =>
    rcases takeScan_succ_cases h with ⟨hnil, -, -⟩ | ⟨token, rest, ho', hca⟩
    · simp [ho] at hnil
    rw [ho, List.cons_append, List.cons.injEq] at ho'
    obtain ⟨rfl, rfl⟩ := ho'
    rcases hca with ⟨job', hs, he⟩ | ⟨s', hs, hn⟩
    · exact absurd he (hidle job')
    obtain ⟨hpass, _, rfl⟩ := scanToken_none_cases hs
    obtain ⟨hp, ht⟩ := ih (List.append_assoc _ _ _) hn
    refine ⟨List.forall_mem_cons.mpr ⟨hpass, hp⟩, ?_⟩
    rw [← List.singleton_append, List.filter_append, ← List.append_assoc]
    exact ht

/-- Stale tokens at the front are dropped, as far as they are counted. -/
theorem takeScan_stale {gone} (n : ℕ) (ho : s.order = gone ++ rest)
    (hgo : ∀ x ∈ gone, s.validToken x = false) (hco : gone.length ≤ s.staleOrderTokens) :
    takeScan limits (gone.length + n) s = takeScan limits n { s with
        order := rest, staleOrderTokens := s.staleOrderTokens - gone.length } := by
  induction gone generalizing s with
  | nil =>
    rw [List.nil_append] at ho
    simp [← ho]
  | cons first gone ih =>
    obtain ⟨hfi, hgo⟩ := List.forall_mem_cons.mp hgo
    rw [List.length_cons] at hco
    obtain ⟨stale, hsta⟩ : ∃ stale, s.staleOrderTokens = stale + 1 :=
      ⟨s.staleOrderTokens - 1, by omega⟩
    have hsc : scanToken limits { s with order := gone ++ rest } first =
        .ok (none, { s with order := gone ++ rest, staleOrderTokens := stale }) := by
      have hdr : dropStale { s with order := gone ++ rest } =
          .ok (none, { s with order := gone ++ rest, staleOrderTokens := stale }) := by
        simp [dropStale, hsta, checkedPred]
      unfold scanToken
      cases hq : s.queues.lookup first.pluginInstanceId with
      | none => exact hdr
      | some queue =>
        have hg : queue.generation ≠ first.generation := by
          simpa [SchedulerState.validToken, hq] using hfi
        simp only [if_neg hg, hdr]
    rw [List.length_cons, Nat.succ_add, takeScan]
    simp only [ho, List.cons_append, hsc]
    have hre := @ih { s with order := gone ++ rest, staleOrderTokens := stale } rfl hgo
      (by simp only; omega)
    have hle : stale - gone.length = s.staleOrderTokens - (gone.length + 1) := by omega
    simp only [hle] at hre
    exact hre

end RedevPlugin.Scheduler
