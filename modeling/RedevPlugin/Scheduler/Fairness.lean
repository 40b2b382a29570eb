import RedevPlugin.Scheduler.Service

/-! Round-robin service. After a job of plugin `p` was taken, the token of every
other plugin with a queue stands before that of `p`. It stays before it through
every step, since cancellations and compactions only take tokens out, new tokens
go to the back, and a scan moves only tokens it cannot serve. A `take` therefore
serves a plugin that is ready throughout before it serves `p` again. -/

namespace RedevPlugin.Scheduler

open Transition

variable {limits : SchedulerLimits} {s t : SchedulerState} {p q : PluginInstanceId}

/-- The plugin has a live job and runs below its limit. -/
def Ready (limits : SchedulerLimits) (s : SchedulerState) (q : PluginInstanceId) : Prop :=
  0 < s.liveCount q ∧ s.activeCount q < limits.perPluginConcurrency

/-- The token of `q`'s queue stands before that of `p`'s, if both have a queue. -/
def Ahead (s : SchedulerState) (q p : PluginInstanceId) : Prop :=
  ∀ gq gp, generations s.queues q = some gq → generations s.queues p = some gp →
    List.Precedes (⟨q, gq⟩ : QueueToken) ⟨p, gp⟩ s.order

theorem Ready.exists_generation (h : Ready limits s q) :
    ∃ g, generations s.queues q = some g := by
  cases hq : s.queues.lookup q with
  | none => simp [Ready, SchedulerState.liveCount, hq] at h
  | some queue => exact ⟨queue.generation, generations_of_lookup hq⟩

variable {g : ℕ} {job : InvocationJob} {l : Op × Output}
  {tr : List ((Op × Output) × SchedulerState)} {ls : List (Op × Output)}

theorem Ready.not_passed (h : Ready limits s q) (hg : generations s.queues q = some g) :
    ¬ Passed limits s ⟨q, g⟩ := by
  rintro (hv | hfull)
  · rw [validToken_eq, current, hg] at hv
    simp at hv
  · exact absurd h.2 (Nat.not_lt.mpr hfull)

theorem Invariant.token_mem (h : Invariant s) (hg : generations s.queues q = some g) :
    (⟨q, g⟩ : QueueToken) ∈ s.order :=
  List.count_pos_iff.mp (by rw [h.order.one q g hg]; exact Nat.one_pos)

theorem token_ne {g'} (hne : q ≠ p) : (⟨q, g⟩ : QueueToken) ≠ ⟨p, g'⟩ :=
  fun he => hne (congrArg QueueToken.pluginInstanceId he)

/-- After a job of `p` was taken, every other plugin is ahead of `p`. -/
theorem TakeStep.ahead (h : TakeStep limits s t job) (ht : Invariant t)
    (hp : h.token.pluginInstanceId = p) (hne : q ≠ p) : Ahead t q p := by
  intro gq gp hq hgp
  have hmem := ht.token_mem hq
  have hto : h.token = ⟨p, gp⟩ := by
    have hs := h.shrinks.generation hgp
    rw [← hp, generations_of_lookup h.lookup_eq, h.generation_eq, Option.some.injEq] at hs
    rw [← hp, ← hs]
  have hg : h.live = 0 → generations t.queues p = none := by
    intro hz
    have hqu := h.queues_eq
    rw [if_pos hz] at hqu
    rw [hqu, ← hp, generations_erase, Function.update_self]
  have ho := h.order_after
  split_ifs at ho with hz
  · simp [hg hz] at hgp
  · rw [ho, hto] at hmem ⊢
    refine List.Precedes.of_mem_left ?_ _ []
    exact (List.mem_append.mp hmem).resolve_right fun hm =>
      token_ne hne (List.mem_singleton.mp hm)

/-- A new queue gets its token at the back. -/
theorem Ahead.enqueue (h : Ahead s q p) (hs : Invariant s) (hg : generations s.queues q = some g)
    (hok : enqueue limits job s = .ok (none, t)) : Ahead t q p := by
  rcases enqueue_cases hok with ⟨_, -, he, -⟩ | ⟨-, -, s', hpu, rfl⟩
  · cases he
  rcases pushRequest_cases hpu with ⟨queue, hqu, rfl⟩ | ⟨hnone, -, rfl⟩ <;> intro gq gp hgq hgp
  · simp only [indexQueued] at hgq hgp
    rw [generations_replace hqu (by rfl)] at hgq hgp
    exact h gq gp hgq hgp
  · simp only [indexQueued, generations_insert] at hgq hgp ⊢
    have hq : q ≠ job.pluginInstanceId := by
      rintro rfl
      simp [generations_of_none hnone] at hg
    rw [Function.update_of_ne hq] at hgq
    rw [Function.update_apply] at hgp
    split_ifs at hgp with hp
    · cases hgp
      rw [hp]
      exact List.Precedes.of_mem_left (hs.token_mem hgq) _ []
    · exact (h gq gp hgq hgp).of_sublist (List.sublist_append_left _ _)

/-- A scan that serves neither leaves the token of `q` where it is. -/
theorem TakeStep.ahead_of_ready (step : TakeStep limits s t job) (h : Ahead s q p)
    (hs : Invariant s) (hready : Ready limits s q) (hq : step.token.pluginInstanceId ≠ q) :
    Ahead t q p ∧ step.token.pluginInstanceId ≠ p := by
  have hre : ∀ gq gp, generations s.queues q = some gq → generations s.queues p = some gp →
      List.Precedes (⟨q, gq⟩ : QueueToken) ⟨p, gp⟩ step.rest := by
    intro gq gp hgq hgp
    have hpr := h gq gp hgq hgp
    rw [step.order_eq] at hpr
    have hnot : (⟨q, gq⟩ : QueueToken) ∉ step.passed :=
      fun hm => hready.not_passed hgq (step.passed_of_mem _ hm)
    refine (hpr.of_append_notMem hnot).of_cons_ne fun he => hq ?_
    rw [← he]
  constructor
  · intro gq gp hgq hgp
    have hpr := hre gq gp (step.shrinks.generation hgq) (step.shrinks.generation hgp)
    rw [step.order_after]
    split_ifs
    · exact hpr.of_sublist (List.sublist_append_left _ _)
    · rw [List.append_assoc]
      exact hpr.of_sublist (List.sublist_append_left _ _)
  · intro hp
    obtain ⟨g, hg⟩ := hready.exists_generation
    have hgp : generations s.queues p = some step.token.generation := by
      rw [← hp, generations_of_lookup step.lookup_eq, step.generation_eq]
    have hto : step.token = ⟨p, step.token.generation⟩ := by rw [← hp]
    -- the served token would occur again behind that of `q`
    have hone := hs.order.one p _ hgp
    have hmem := List.count_pos_iff.mpr (hre g _ hg hgp).right_mem
    rw [step.order_eq, List.count_append, hto, List.count_cons_self] at hone
    rw [← hto] at hone hmem
    omega

/-- While `q` is ready and not served, it stays ahead of `p`. -/
theorem Ahead.step (h : Ahead s q p) (hne : q ≠ p) (hs : Invariant s) (ht : Invariant t)
    (hready : Ready limits s q) (hq : takenOf q l = []) (hstep : (system limits).step s l t) :
    Ahead t q p := by
  obtain ⟨g, hg⟩ := hready.exists_generation
  have hmem := hs.token_mem hg
  cases step_kind hstep with
  | rejected => exact h
  | @accepted _ _ _ hok => exact h.enqueue hs hg hok
  | @took _ _ step =>
    have hpl := step.plugin_eq hs
    have hq' : step.token.pluginInstanceId ≠ q := by
      intro he
      simp [takenOf, hpl, he] at hq
    exact (step.ahead_of_ready h hs hready hq').1
  | idle _ hpa => exact absurd (hpa _ hmem) (hready.not_passed hg)
  | @settled _ _ _ _ _ hset =>
    intro gq gp hgq hgp
    have hgq' := hset.generation hgq
    have hgp' := hset.generation hgp
    exact (h gq gp hgq' hgp').sublist hset.order (hs.order.one q gq hgq') (hs.order.one p gp hgp')
      (token_ne hne) (ht.token_mem hgq) (ht.token_mem hgp)

theorem service_run (hr : (system limits).Run {} tr) (hd : (acceptedIds (labels tr)).Nodup) :
    Service limits (labels tr) (last {} tr) :=
  hr.invariant (fun _ _ _ _ h hnew hstep => h.step hnew hstep) (Service.init limits)
    (guarded_newId (by rwa [List.nil_append]) {})

/-- From a state in which `q` is ahead of `p`, a run during which `q` is ready
and not served ends with `q` ahead of `p`. -/
theorem ahead_run (hne : q ≠ p) (hs : Service limits ls s) (h : Ahead s q p)
    (hr : (system limits).Run s tr) (hd : (acceptedIds (ls ++ labels tr)).Nodup)
    (hready : ∀ u ∈ states s tr, Ready limits u q) (hq : ∀ l ∈ labels tr, takenOf q l = []) :
    Service limits (ls ++ labels tr) (last s tr) ∧ Ahead (last s tr) q p := by
  have hg := (guarded_newId hd s).and (guarded_of_forall hready hq)
  refine hr.invariant (I := fun ls s => Service limits ls s ∧ Ahead s q p) ?_ ⟨hs, h⟩ hg
  rintro ls s l t ⟨hs, h⟩ ⟨hnew, hready, hq⟩ hstep
  have ht := hs.step hnew hstep
  exact ⟨ht, h.step hne hs.toInvariant ht.toInvariant hready hq hstep⟩

theorem exists_taken_of_ne_nil (h : takenOf q l ≠ []) :
    ∃ op job, l = (op, .took (.taken job)) ∧ job.pluginInstanceId = q := by
  obtain ⟨op, out⟩ := l
  cases out with
  | took outcome =>
    cases outcome with
    | taken =>
      refine ⟨op, _, rfl, ?_⟩
      by_contra hne
      exact h (by simp [takenOf, hne])
    | _ => exact absurd rfl h
  | _ => exact absurd rfl h

/-- Only `take` hands out a job to run. -/
theorem exists_takeStep {op} (h : (system limits).step s (op, .took (.taken job)) t) :
    op = .take ∧ Nonempty (TakeStep limits s t job) := by
  cases step_kind h with
  | took step => exact ⟨rfl, ⟨step⟩⟩
  | idle hidle => exact absurd rfl (hidle job)
  | settled _ hto => exact absurd rfl (hto _)

/-- Between two takes of jobs of `p`, a plugin that is ready in every state has
a job taken. -/
theorem fair_between {mid op₁ op₂ j₁ j₂ s₁ s₂} (hne : q ≠ p) (hs : Service limits ls s)
    (hstep₁ : (system limits).step s (op₁, .took (.taken j₁)) s₁) (hr : (system limits).Run s₁ mid)
    (hstep₂ : (system limits).step (last s₁ mid) (op₂, .took (.taken j₂)) s₂)
    (hd : (acceptedIds (ls ++ [(op₁, .took (.taken j₁))] ++ labels mid)).Nodup)
    (h₁ : j₁.pluginInstanceId = p) (h₂ : j₂.pluginInstanceId = p)
    (hready : ∀ u ∈ states s₁ mid, Ready limits u q) :
    ∃ op job, (op, .took (.taken job)) ∈ labels mid ∧ job.pluginInstanceId = q := by
  by_contra hnone
  have hq : ∀ l ∈ labels mid, takenOf q l = [] := by
    intro l hl
    by_contra hta
    obtain ⟨op, job, rfl, hjob⟩ := exists_taken_of_ne_nil hta
    exact hnone ⟨op, job, hl, hjob⟩
  obtain ⟨rfl, ⟨step₁⟩⟩ := exists_takeStep hstep₁
  have hs₁ := hs.step (l := (.take, .took (.taken j₁))) (by simp [NewId, accepted]) hstep₁
  have hah := step₁.ahead hs₁.toInvariant ((step₁.plugin_eq hs.toInvariant).symm.trans h₁) hne
  obtain ⟨hs₂, hahead₂⟩ := ahead_run hne hs₁ hah hr hd hready hq
  obtain ⟨-, ⟨step₂⟩⟩ := exists_takeStep hstep₂
  have hp : step₂.token.pluginInstanceId = p := (step₂.plugin_eq hs₂.toInvariant).symm.trans h₂
  have hla : Ready limits (last s₁ mid) q := hready _ (last_mem_states s₁ mid)
  exact (step₂.ahead_of_ready hahead₂ hs₂.toInvariant hla fun he => hne (he.symm.trans hp)).2 hp

/-- **Order, limits and fairness of service.** In a run that accepts no request
id twice, each plugin is served first in, first out; the counters of the state
count its jobs, and stay within the limits; and between two takes of jobs of `p`,
every other plugin that has a live job and is below its limit in every state has a
job taken. -/
theorem service_of_distinct_ids {tr : List ((Op × Output) × SchedulerState)}
    (hr : (system limits).Run {} tr) (hd : (acceptedIds (labels tr)).Nodup) :
    (∀ p, ServedFifo p (labels tr) (last {} tr)) ∧ Coherent (last {} tr) ∧
      WithinLimits limits (last {} tr) ∧
      ∀ p q pre mid post op₁ op₂ j₁ j₂ s₁ s₂, q ≠ p →
        tr = pre ++ ((op₁, .took (.taken j₁)), s₁) :: (mid ++
          ((op₂, .took (.taken j₂)), s₂) :: post) →
        j₁.pluginInstanceId = p → j₂.pluginInstanceId = p →
        (∀ u ∈ states s₁ mid, Ready limits u q) →
        ∃ op job, (op, .took (.taken job)) ∈ labels mid ∧ job.pluginInstanceId = q := by
  have h := service_run hr hd
  refine ⟨h.fifo, h.toInvariant.coherent, h.within, ?_⟩
  rintro p q pre mid post op₁ op₂ j₁ j₂ s₁ s₂ hne rfl h₁ h₂ hready
  obtain ⟨hpre, hstep₁, hrest⟩ := ((system limits).run_append _ _ _).mp hr
  obtain ⟨hmid, hstep₂, -⟩ := ((system limits).run_append _ _ _).mp hrest
  simp only [labels_append, labels_cons] at hd
  have hpart : (acceptedIds (labels pre ++ [(op₁, .took (.taken j₁))] ++ labels mid)).Nodup := by
    apply nodup_acceptedIds_left
    simpa using hd
  exact fair_between hne (service_run hpre (nodup_acceptedIds_left hd)) hstep₁ hmid hstep₂ hpart
    h₁ h₂ hready

/-- Two jobs of `p` and one of `q`, taken in turn. -/
def turns : List Op :=
  [.enqueue (bareJob "a" "p"), .enqueue (bareJob "b" "p"), .enqueue (bareJob "c" "q"),
    .take, .take, .take]

theorem turns_served :
    (labels (trace (.new 4 2) {} turns)).flatMap departed =
        [bareJob "a" "p", bareJob "c" "q", bareJob "b" "p"] ∧
      ∀ p, ServedFifo p (labels (trace (.new 4 2) {} turns))
        (last {} (trace (.new 4 2) {} turns)) :=
  ⟨by decide, (service_of_distinct_ids (trace_run _ _ _) (by decide)).1⟩

end RedevPlugin.Scheduler
