import RedevPlugin.Host.Admission
import RedevPlugin.Scheduler.Service
import RedevPlugin.Scheduler.Sessions

/-! Two admission counters. The host's controller counts the calls it has
admitted and the runtime's scheduler counts queued and active jobs. Every job of
the runtime belongs to an admitted call as long as no call is released before its
job has left the scheduler, and then the scheduler's plugin limit, which is the
host's, is never reached. The queue is another matter: the host admits as many
calls as there are workers and queue places together, and relies on the workers
having taken their share out of the queue. -/

namespace RedevPlugin.Host

open Scheduler Transition
open Text (trim)

variable {limits : RuntimeLimits}

variable {p : PluginInstanceId}

theorem RuntimeAdmissionController.acquire_cases {c c' : RuntimeAdmissionController}
    (h : c.acquire p = .ok (some c')) :
    c.count (trim p) < c.pluginCapacity ∧
      c' = { c with
        active := c.active + 1
        byPlugin := c.byPlugin.insert (trim p) (c.count (trim p) + 1) } := by
  unfold acquire at h
  simp only at h
  split_ifs at h with hp hc
  · cases h
    exact ⟨hc.2, rfl⟩
  · cases h

theorem RuntimeAdmissionController.count_release (c : RuntimeAdmissionController)
    (p q : PluginInstanceId) :
    (c.release p).count q = c.count q - if trim p == q then 1 else 0 := by
  have hby : (c.release p).byPlugin = if c.count (trim p) - 1 = 0 then c.byPlugin.erase (trim p)
      else c.byPlugin.insert (trim p) (c.count (trim p) - 1) := rfl
  rw [count, hby]
  by_cases hq : q = trim p
  · subst hq
    rw [beq_self_eq_true, if_pos rfl]
    split_ifs with hz
    · simp [hz]
    · simp
  · rw [if_neg (by simpa using Ne.symm hq : ¬(trim p == q) = true)]
    split_ifs <;> simp [hq, count]

open RuntimeAdmissionController (acquire_cases count_release count)

/-- The controller against the calls that are admitted. -/
structure Counted (limits : RuntimeLimits) (c : RuntimeAdmissionController)
    (calls : Table RequestId HostCall) : Prop where
  pluginCapacity : c.pluginCapacity =
    limits.perPluginConcurrency + min limits.queueCapacity limits.perPluginConcurrency
  byPlugin : ∀ p, c.count p = calls.count (fun call => trim call.pluginInstanceId == p)
  byPlugin_le : ∀ p, c.count p ≤ c.pluginCapacity

namespace Counted

variable {c c' : RuntimeAdmissionController} {calls calls' : Table RequestId HostCall}

theorem init (limits : RuntimeLimits) : Counted limits (newRuntimeAdmissionController limits) ∅ :=
  ⟨rfl, fun _ => rfl, fun _ => Nat.zero_le _⟩

variable {call : HostCall} {id : RequestId}

theorem acquire (h : Counted limits c calls) (hid : calls.lookup id = none)
    (ha : c.acquire call.pluginInstanceId = .ok (some c')) :
    Counted limits c' (calls.insert id call) := by
  obtain ⟨hpl, rfl⟩ := acquire_cases ha
  have hco : ∀ p, count { c with
      active := c.active + 1
      byPlugin := c.byPlugin.insert (trim call.pluginInstanceId)
        (c.count (trim call.pluginInstanceId) + 1) } p =
      c.count p + if trim call.pluginInstanceId == p then 1 else 0 := by
    intro p
    simp only [count, Finmap.lookup_insert_ite, beq_iff_eq]
    by_cases hp : p = trim call.pluginInstanceId
    · rw [if_pos hp, if_pos hp.symm, hp]
      rfl
    · rw [if_neg hp, if_neg (Ne.symm hp)]
      rfl
  refine ⟨h.pluginCapacity, fun p => ?_, fun p => ?_⟩
  · rw [hco, Finmap.count_insert hid, h.byPlugin]
  · rw [hco]
    split_ifs with hp
    · rw [← beq_iff_eq.mp hp]
      exact hpl
    · exact h.byPlugin_le p

theorem release (h : Counted limits c calls) (hid : calls.lookup id = some call) :
    Counted limits (c.release call.pluginInstanceId) (calls.erase id) := by
  refine ⟨h.pluginCapacity, fun p => ?_, fun p => ?_⟩
  · have hco := Finmap.count_erase hid (fun call => trim call.pluginInstanceId == p)
    rw [count_release, h.byPlugin, hco, Nat.add_sub_cancel]
  · rw [count_release]
    exact (Nat.sub_le _ _).trans (h.byPlugin_le p)

/-- The controller does not see how far a call has come. -/
theorem congr (h : Counted limits c calls) (he : ∀ id,
    (calls'.lookup id).map HostCall.pluginInstanceId =
      (calls.lookup id).map HostCall.pluginInstanceId) : Counted limits c calls' := by
  refine ⟨h.pluginCapacity, fun p => ?_, h.byPlugin_le⟩
  rw [h.byPlugin]
  exact (Finmap.count_comp_eq he (fun q => trim q == p)).symm

end Counted

namespace InvocationState

section

variable (s : InvocationState)

include s

theorem lookup_setPhase (id : RequestId) (phase : CallPhase) (k : RequestId) :
    (s.setPhase id phase).lookup k =
      (s.calls.lookup k).map (fun call => if k = id then { call with phase } else call) := by
  unfold setPhase
  cases hid : s.calls.lookup id with
  | none | some call =>
    by_cases hk : k = id
    · subst hk
      simp [hid]
    · simp [hk]

/-- A step of the runtime changes no call but the phase of one. -/
theorem react_calls (scheduler : SchedulerState) (l : Op × Output) :
    (s.react scheduler l).calls = s.calls ∧ accepted l = [] ∨
      ∃ id phase, phase ≠ .admitted ∧ (∀ job ∈ accepted l, job.requestId = id) ∧
        (s.react scheduler l).calls = s.setPhase id phase := by
  obtain ⟨op, out⟩ := l
  cases op with
  | enqueue job =>
    cases out with
    | enqueued error =>
      cases error with
      | none => exact .inr ⟨job.requestId, .sent, by simp, by simp [accepted], rfl⟩
      | some error => exact .inr ⟨job.requestId, .answered, by simp, by simp [accepted], rfl⟩
    | _ => exact .inl ⟨rfl, rfl⟩
  | beginCompletion id =>
    cases out with
    | began completion =>
      cases hc : completion.suppressResponse with
      | true => exact .inl ⟨by simp [react, hc], rfl⟩
      | false => exact .inr ⟨id, .answered, by simp, by simp [accepted], by simp [react, hc]⟩
    | _ => exact .inl ⟨rfl, rfl⟩
  | cancel id => exact .inr ⟨id, .answered, by simp, by simp [accepted], rfl⟩
  | _ => exact .inl ⟨rfl, rfl⟩

theorem react_rest (scheduler : SchedulerState) (l : Op × Output) :
    (s.react scheduler l).controller = s.controller ∧ (s.react scheduler l).issued = s.issued ∧
      (s.react scheduler l).scheduler = scheduler := by
  unfold react
  split <;> exact ⟨rfl, rfl, rfl⟩

end

/-- The runtime may still hold the call's job, which is one of plugin `p`. -/
def Present (s : InvocationState) (id : RequestId) (p : PluginInstanceId) : Prop :=
  ∃ call, s.calls.lookup id = some call ∧ call.pluginInstanceId = p ∧ call.phase ≠ .admitted

variable {s : InvocationState} {scheduler : SchedulerState} {l : Op × Output}

variable {id : RequestId} {call : HostCall}

theorem Present.react (h : s.Present id p) : (s.react scheduler l).Present id p := by
  obtain ⟨call, hl, hp, hphase⟩ := h
  rcases s.react_calls scheduler l with ⟨he, -⟩ | ⟨k, phase, hne, -, he⟩
  · exact ⟨call, by rw [he]; exact hl, hp, hphase⟩
  · refine ⟨_, by rw [he, lookup_setPhase, hl]; rfl, ?_, ?_⟩
    · split_ifs <;> exact hp
    · split_ifs
      · exact hne
      · exact hphase

/-- The call whose invocation the runtime accepts is no longer unsent. -/
theorem present_of_accepted {job} (hj : job ∈ accepted l)
    (hl : s.calls.lookup job.requestId = some call) :
    (s.react scheduler l).Present job.requestId call.pluginInstanceId := by
  rcases s.react_calls scheduler l with ⟨-, hnone⟩ | ⟨k, phase, hne, hacc, he⟩
  · simp [hnone] at hj
  · refine ⟨{ call with phase }, ?_, rfl, hne⟩
    rw [he, lookup_setPhase, hl, hacc job hj]
    simp

/-- A call that is unsent after a step of the runtime was unsent before, and the
step did not accept its invocation. -/
theorem admitted_of_react (hl : (s.react scheduler l).calls.lookup id = some call)
    (hp : call.phase = .admitted) :
    (∃ call', s.calls.lookup id = some call' ∧ call'.phase = .admitted) ∧
      ∀ job ∈ accepted l, job.requestId ≠ id := by
  rcases s.react_calls scheduler l with ⟨he, hnone⟩ | ⟨k, phase, hne, hacc, he⟩
  · rw [he] at hl
    exact ⟨⟨call, hl, hp⟩, by simp [hnone]⟩
  · rw [he, lookup_setPhase, Option.map_eq_some_iff] at hl
    obtain ⟨call', hl', rfl⟩ := hl
    split_ifs at hp with hk
    · exact absurd hp hne
    · exact ⟨⟨call', hl', hp⟩, fun job hj hid => hk (hid.symm.trans (hacc job hj))⟩

theorem react_plugins (s : InvocationState) (scheduler : SchedulerState) (l : Op × Output)
    (id : RequestId) :
    ((s.react scheduler l).calls.lookup id).map HostCall.pluginInstanceId =
      (s.calls.lookup id).map HostCall.pluginInstanceId := by
  rcases s.react_calls scheduler l with ⟨he, -⟩ | ⟨k, phase, -, -, he⟩
  · rw [he]
  · rw [he, lookup_setPhase, Option.map_map]
    refine Option.map_congr fun call _ => ?_
    split_ifs <;> rfl

end InvocationState

inductive StepKind (limits : RuntimeLimits) (s : InvocationState) :
    InvocationOp × InvocationOutput → InvocationState → Prop
  | acquired {id p scope controller} (hid : id ∉ s.issued)
      (ha : s.controller.acquire p = .ok (some controller)) :
      StepKind limits s (.acquire id p scope, .acquired)
        { s with
          controller, issued := insert id s.issued
          calls := s.calls.insert id ⟨p, scope, .admitted⟩ }
  | released {id call} (hl : s.calls.lookup id = some call) (hp : call.phase ≠ .sent) :
      StepKind limits s (.release id, .released)
        { s with
          controller := s.controller.release call.pluginInstanceId, calls := s.calls.erase id }
  | runtime {op out scheduler} (he : s.enabled limits op = true)
      (hs : (system limits.scheduler).step s.scheduler (op, out) scheduler) :
      StepKind limits s (.runtime op, .runtime out) (s.react scheduler (op, out))

variable {l : InvocationOp × InvocationOutput}

theorem stepKind_of_step {s t} (h : (invocations limits).step s l t) : StepKind limits s l t := by
  obtain ⟨op, out⟩ := l
  change s.perform limits op = some (out, t) at h
  revert h
  fun_cases s.perform limits op <;> rintro ⟨⟩
  · exact .acquired ‹_› ‹_›
  · exact .released ‹_› ‹_›
  · exact .runtime ‹_› ‹_›

def schedulerLabel : InvocationOp × InvocationOutput → Option (Op × Output)
  | (.runtime op, .runtime out) => some (op, out)
  | _ => none

/-- The part of a run the scheduler sees. -/
def schedulerLabels (h : List (InvocationOp × InvocationOutput)) : List (Op × Output) :=
  h.filterMap schedulerLabel

theorem schedulerLabels_append (h : List (InvocationOp × InvocationOutput))
    (l : InvocationOp × InvocationOutput) :
    schedulerLabels (h ++ [l]) = schedulerLabels h ++ (schedulerLabel l).toList := by
  rw [schedulerLabels, List.filterMap_append]
  rfl

/-- Every job of the runtime belongs to an admitted call, and an unsent call has
a request id the runtime has not accepted. -/
structure Covered (limits : RuntimeLimits) (h : List (InvocationOp × InvocationOutput))
    (s : InvocationState) : Prop where
  counted : Counted limits s.controller s.calls
  service : Service limits.scheduler (schedulerLabels h) s.scheduler
  issued : ∀ id ∈ s.calls, id ∈ s.issued
  accepted : ∀ id ∈ acceptedIds (schedulerLabels h), id ∈ s.issued
  unsent : ∀ id call, s.calls.lookup id = some call → call.phase = .admitted →
    id ∉ acceptedIds (schedulerLabels h)
  queued : ∀ id job, s.scheduler.queuedByRequest.lookup id = some job →
    s.Present id job.pluginInstanceId
  active : ∀ id a, s.scheduler.active.lookup id = some a → s.Present id a.pluginInstanceId

/-- A call is released when its job has left the scheduler, and an invocation is
read when the calls without an active job fit into the queue. -/
def spare (limits : RuntimeLimits) (s : InvocationState) : InvocationOp → Bool
  | .release id => id ∉ s.scheduler.queuedByRequest ∧ id ∉ s.scheduler.active
  | .runtime (.enqueue _) =>
    s.calls.size ≤ limits.queueCapacity + s.scheduler.active.size
  | _ => true

/-- An invocation is rejected for capacity. -/
def Full (l : InvocationOp × InvocationOutput) : Prop :=
  ∃ job error, l = (.runtime (.enqueue job), .runtime (.enqueued (some error))) ∧
    (error = .capacity ∨ error = .pluginCapacity)

namespace Covered

variable {h : List (InvocationOp × InvocationOutput)} {s : InvocationState}

theorem init (limits : RuntimeLimits) :
    Covered limits [] { controller := newRuntimeAdmissionController limits } where
  counted := Counted.init limits
  service := Service.init limits.scheduler
  issued id hid := absurd hid Finmap.notMem_empty
  accepted id hid := by cases hid
  unsent id call hl := by simp at hl
  queued id job hj := by simp at hj
  active id a ha := by simp at ha

variable {id : RequestId} {call : HostCall} {out : Output} {op : Op} {t : InvocationState}

section

variable (hc : Covered limits h s)

include hc

theorem acquired {scope controller} (hid : id ∉ s.issued)
    (ha : s.controller.acquire p = .ok (some controller)) :
    Covered limits (h ++ [(.acquire id p scope, .acquired)]) { s with
        controller, issued := insert id s.issued
        calls := s.calls.insert id ⟨p, scope, .admitted⟩ } := by
  have hnew : s.calls.lookup id = none := Finmap.lookup_eq_none.mpr fun hm => hid (hc.issued id hm)
  have hke : ∀ k q, s.Present k q → InvocationState.Present { s with
        controller, issued := insert id s.issued
        calls := s.calls.insert id ⟨p, scope, .admitted⟩ } k q := by
    rintro k q ⟨call, hl, hq, hphase⟩
    refine ⟨call, ?_, hq, hphase⟩
    rw [Finmap.lookup_insert_of_ne, hl]
    rintro rfl
    simp [hl] at hnew
  have hla : schedulerLabels (h ++ [(.acquire id p scope, .acquired)]) = schedulerLabels h :=
    (schedulerLabels_append h _).trans (List.append_nil _)
  constructor
  · exact hc.counted.acquire hnew ha
  · rw [hla]
    exact hc.service
  · intro k hk
    rcases Finmap.mem_insert.mp hk with rfl | hk
    · exact Finset.mem_insert_self ..
    · exact Finset.mem_insert_of_mem (hc.issued k hk)
  · rw [hla]
    exact fun k hk => Finset.mem_insert_of_mem (hc.accepted k hk)
  · rw [hla]
    intro k call hl hphase
    rw [Finmap.lookup_insert_ite] at hl
    split_ifs at hl with hk
    · exact fun hm => hid (hk ▸ hc.accepted k hm)
    · exact hc.unsent k call hl hphase
  · exact fun k job hj => hke k _ (hc.queued k job hj)
  · exact fun k a hk => hke k _ (hc.active k a hk)

theorem released (hl : s.calls.lookup id = some call) (hq : id ∉ s.scheduler.queuedByRequest)
    (ha : id ∉ s.scheduler.active) :
    Covered limits (h ++ [(.release id, .released)]) { s with
        controller := s.controller.release call.pluginInstanceId, calls := s.calls.erase id } := by
  have hke : ∀ k q, k ≠ id → s.Present k q → InvocationState.Present { s with
        controller := s.controller.release call.pluginInstanceId
        calls := s.calls.erase id } k q := by
    rintro k q hne ⟨call', hl', hp, hphase⟩
    exact ⟨call', by rw [Finmap.lookup_erase_ne hne, hl'], hp, hphase⟩
  have hla : schedulerLabels (h ++ [(.release id, .released)]) = schedulerLabels h :=
    (schedulerLabels_append h _).trans (List.append_nil _)
  constructor
  · exact hc.counted.release hl
  · rw [hla]
    exact hc.service
  · exact fun k hk => hc.issued k (Finmap.mem_erase.mp hk).2
  · rw [hla]
    exact hc.accepted
  · rw [hla]
    exact fun k call' hk => hc.unsent k call' (Finmap.lookup_of_erase hk).2
  · intro k job hj
    exact hke k _ (fun he => hq (he ▸ Finmap.mem_of_lookup_eq_some hj)) (hc.queued k job hj)
  · intro k a hk
    exact hke k _ (fun he => ha (he ▸ Finmap.mem_of_lookup_eq_some hk)) (hc.active k a hk)

/-- The runtime reads only invocations of unsent calls. -/
theorem newId (he : s.enabled limits op = true) : NewId (schedulerLabels h) (op, out) := by
  intro job hj
  cases mem_accepted.mp hj
  exact hc.unsent _ _ (of_decide_eq_true he) rfl

theorem runtime {scheduler} (he : s.enabled limits op = true)
    (hs : (system limits.scheduler).step s.scheduler (op, out) scheduler) :
    Covered limits (h ++ [(.runtime op, .runtime out)]) (s.react scheduler (op, out)) := by
  have hla : schedulerLabels (h ++ [(.runtime op, .runtime out)]) =
      schedulerLabels h ++ [(op, out)] := schedulerLabels_append h _
  have hids : ∀ id, id ∈ acceptedIds (schedulerLabels h ++ [(op, out)]) →
      id ∈ acceptedIds (schedulerLabels h) ∨ ∃ job ∈ Scheduler.accepted (op, out),
        job.requestId = id := by
    intro id hid
    rw [acceptedIds_append, acceptedIds_singleton, List.mem_append] at hid
    exact hid.imp_right List.mem_map.mp
  -- the runtime accepts the invocation of a call
  have hcall : ∀ job ∈ Scheduler.accepted (op, out), ∃ call,
      s.calls.lookup job.requestId = some call ∧ call.pluginInstanceId = job.pluginInstanceId := by
    intro job hj
    cases mem_accepted.mp hj
    exact ⟨_, of_decide_eq_true he, rfl⟩
  obtain ⟨hcontroller, hissued, hscheduler⟩ := s.react_rest scheduler (op, out)
  constructor
  · rw [hcontroller]
    exact hc.counted.congr (s.react_plugins scheduler (op, out))
  · rw [hla, hscheduler]
    exact hc.service.step (hc.newId he) hs
  · intro id hid
    rw [hissued]
    obtain ⟨call, hl⟩ := Finmap.mem_iff.mp hid
    have hmap := s.react_plugins scheduler (op, out) id
    rw [hl] at hmap
    obtain ⟨call', hl', -⟩ := Option.map_eq_some_iff.mp hmap.symm
    exact hc.issued id (Finmap.mem_of_lookup_eq_some hl')
  · rw [hla, hissued]
    intro id hid
    rcases hids id hid with hid | ⟨job, hj, rfl⟩
    · exact hc.accepted id hid
    · obtain ⟨call, hl, -⟩ := hcall job hj
      exact hc.issued _ (Finmap.mem_of_lookup_eq_some hl)
  · rw [hla]
    intro id call hl hp hid
    obtain ⟨⟨call', hl', hp'⟩, hnot⟩ := InvocationState.admitted_of_react hl hp
    rcases hids id hid with hid | ⟨job, hj, hjid⟩
    · exact hc.unsent id call' hl' hp' hid
    · exact hnot job hj hjid
  · rw [hscheduler]
    intro id job hj
    rcases queued_of_step hs hj with hj | ⟨hl, rfl⟩
    · exact (hc.queued id job hj).react
    · have hmem : job ∈ Scheduler.accepted (op, out) := mem_accepted.mpr hl
      obtain ⟨call, hcl, hp⟩ := hcall job hmem
      exact hp ▸ InvocationState.present_of_accepted hmem hcl
  · rw [hscheduler]
    intro id a ha
    rcases active_of_step hc.service.toInvariant hs ha with ha | ⟨job, hj, hp⟩
    · exact (hc.active id a ha).react
    · exact hp ▸ (hc.queued id job hj).react

theorem step (hg : spare limits s l.1 = true)
    (hs : (invocations limits).step s l t) : Covered limits (h ++ [l]) t := by
  cases stepKind_of_step hs with
  | acquired hid ha => exact hc.acquired hid ha
  | released hl =>
    obtain ⟨hq, ha⟩ := of_decide_eq_true hg
    exact hc.released hl hq ha
  | runtime he hs' => exact hc.runtime he hs'

/-- With an unsent call at hand the runtime holds fewer jobs than the host has
counted, in all and of the call's plugin. -/
theorem jobs_lt (hl : s.calls.lookup id = some call) (hp : call.phase = .admitted) :
    s.scheduler.queued + s.scheduler.active.size < s.calls.size ∧
      s.scheduler.liveCount call.pluginInstanceId + s.scheduler.activeCount call.pluginInstanceId <
          s.controller.count (trim call.pluginInstanceId) := by
  have hinv := hc.service.toInvariant
  have hab : ∀ q, ¬ s.Present id q := by
    rintro q ⟨call', hl', -, hne⟩
    obtain rfl := Option.some.inj (hl.symm.trans hl')
    exact hne hp
  have hnotQ : id ∉ s.scheduler.queuedByRequest := by
    intro hm
    obtain ⟨job, hj⟩ := Finmap.mem_iff.mp hm
    exact hab _ (hc.queued id job hj)
  have hno : id ∉ s.scheduler.active := by
    intro hm
    obtain ⟨a, ha⟩ := Finmap.mem_iff.mp hm
    exact hab _ (hc.active id a ha)
  constructor
  · rw [hinv.coherent.queued, ← Finmap.count_true, ← Finmap.count_true s.scheduler.active,
      ← Finmap.count_true s.calls]
    exact Finmap.count_add_count_lt hinv.apart
      (fun k job hj _ => (hc.queued k job hj).imp fun _ h => ⟨h.1, rfl⟩)
      (fun k a ha _ => (hc.active k a ha).imp fun _ h => ⟨h.1, rfl⟩) hl rfl hnotQ hno
  · refine (Nat.add_le_add_right (hinv.liveCount_le _) _).trans_lt ?_
    rw [hinv.coherent.active, hc.counted.byPlugin]
    have hof : ∀ k q, s.Present k q → (q == call.pluginInstanceId) = true → ∃ call',
        s.calls.lookup k = some call' ∧
          (trim call'.pluginInstanceId == trim call.pluginInstanceId) = true := by
      rintro k q ⟨call', hl', rfl, -⟩ he
      exact ⟨call', hl', by rw [beq_iff_eq.mp he, beq_self_eq_true]⟩
    exact Finmap.count_add_count_lt hinv.apart (fun k job hj => hof k _ (hc.queued k job hj))
      (fun k a ha => hof k _ (hc.active k a ha)) hl (by simp) hnotQ hno

/-- The plugin limit of the scheduler is the host's. -/
theorem pluginCapacity_left (hl : s.calls.lookup id = some call) (hp : call.phase = .admitted) :
    s.scheduler.activeCount call.pluginInstanceId + s.scheduler.liveCount call.pluginInstanceId <
      limits.scheduler.perPluginCapacity := by
  have hlt := (hc.jobs_lt hl hp).2
  have hcap := hc.counted.byPlugin_le (trim call.pluginInstanceId)
  rw [hc.counted.pluginCapacity] at hcap
  have heq : limits.scheduler.perPluginCapacity =
      limits.perPluginConcurrency + min limits.queueCapacity limits.perPluginConcurrency := rfl
  omega

theorem queueCapacity_left (hl : s.calls.lookup id = some call) (hp : call.phase = .admitted)
    (hg : s.calls.size ≤ limits.queueCapacity + s.scheduler.active.size) :
    s.scheduler.queued < limits.scheduler.queueCapacity := by
  have hlt := (hc.jobs_lt hl hp).1
  have heq : limits.scheduler.queueCapacity = limits.queueCapacity := rfl
  omega

/-- An invocation of an unsent call is not rejected for capacity. -/
theorem not_full (hg : spare limits s l.1 = true)
    (hs : (invocations limits).step s l t) : ¬ Full l := by
  rintro ⟨job, error, rfl, hfull⟩
  cases stepKind_of_step hs with
  | runtime he hstep =>
    have hl := of_decide_eq_true he
    have hqu := Nat.not_le.mpr (hc.queueCapacity_left hl rfl (of_decide_eq_true hg))
    have hpl := Nat.not_le.mpr (hc.pluginCapacity_left hl rfl)
    obtain ⟨r, hok, hr⟩ := map_output_eq_ok.mp hstep
    cases hr
    rcases enqueue_cases hok with ⟨error', her, hso, -⟩ | ⟨-, hnone, -⟩
    · cases hso
      unfold enqueueError at her
      rcases hfull with rfl | rfl <;> split_ifs at her <;> cases her
    · cases hnone

end

end Covered

/-- No admitted invocation is rejected for lack of capacity in a run in which a
call is released only when its job has left the scheduler, and an invocation is
read only when the admitted calls without an active job fit into the queue. -/
theorem enqueue_never_full (limits : RuntimeLimits)
    {tr : List ((InvocationOp × InvocationOutput) × InvocationState)}
    (hr : (invocations limits).Run { controller := newRuntimeAdmissionController limits } tr)
    (hg : Guarded (fun _ s l => spare limits s l.1) []
      { controller := newRuntimeAdmissionController limits } tr) :
    ∀ l ∈ labels tr, ¬ Full l := by
  have hstep : ∀ h s l t, (Covered limits h s ∧ ∀ l ∈ h, ¬ Full l) → spare limits s l.1 = true →
      (invocations limits).step s l t →
      (Covered limits (h ++ [l]) t ∧ ∀ l' ∈ h ++ [l], ¬ Full l') := by
    rintro h s l t ⟨hc, hold⟩ hspare hs
    refine ⟨hc.step hspare hs, fun l' hm => ?_⟩
    rcases List.mem_append.mp hm with hm | hm
    · exact hold l' hm
    · obtain rfl := List.mem_singleton.mp hm
      exact hc.not_full hspare hs
  exact (System.Run.invariant hstep ⟨Covered.init limits, by simp⟩ hr hg).2

def invocationRun (limits : RuntimeLimits) (ops : List InvocationOp) :
    List ((InvocationOp × InvocationOutput) × InvocationState) :=
  trace (fun s op => s.perform limits op)
    { controller := newRuntimeAdmissionController limits } ops

/-- One worker and one queue place: the second invocation comes when the worker
has taken the first. -/
theorem enqueue_never_full_one_worker :
    labels (invocationRun ⟨1, 1, 1, 1, 1⟩ [.acquire "a" "p" none,
      .runtime (.enqueue ⟨"a", "p", none, 0⟩), .acquire "b" "q" none, .runtime .take,
      .runtime (.enqueue ⟨"b", "q", none, 1⟩)]) = [(.acquire "a" "p" none, .acquired),
      (.runtime (.enqueue ⟨"a", "p", none, 0⟩), .runtime (.enqueued none)),
      (.acquire "b" "q" none, .acquired),
      (.runtime .take, .runtime (.took (.taken ⟨"a", "p", none, 0⟩))),
      (.runtime (.enqueue ⟨"b", "q", none, 1⟩), .runtime (.enqueued none))] ∧
    ∀ l ∈ labels (invocationRun ⟨1, 1, 1, 1, 1⟩ [.acquire "a" "p" none,
      .runtime (.enqueue ⟨"a", "p", none, 0⟩), .acquire "b" "q" none, .runtime .take,
      .runtime (.enqueue ⟨"b", "q", none, 1⟩)]), ¬ Full l :=
  ⟨rfl, enqueue_never_full _ (System.run_trace _ _ _ _) (by decide)⟩

/-- Two admitted invocations reach the runtime before its worker takes the first:
the queue has one place and the second is rejected. -/
theorem burst_overfills_queue :
    validateRuntimeLimits ⟨1, 1, 1, 1, 1⟩ = .ok () ∧
      ∃ tr, labels tr = [(.acquire "a" "p" none, .acquired), (.acquire "b" "q" none, .acquired),
          (.runtime (.enqueue ⟨"a", "p", none, 0⟩), .runtime (.enqueued none)),
          (.runtime (.enqueue ⟨"b", "q", none, 1⟩), .runtime (.enqueued (some .capacity)))] ∧
        (invocations ⟨1, 1, 1, 1, 1⟩).Run
          { controller := newRuntimeAdmissionController ⟨1, 1, 1, 1, 1⟩ } tr ∧
        ∃ l ∈ labels tr, Full l := by
  refine ⟨rfl, invocationRun ⟨1, 1, 1, 1, 1⟩ [.acquire "a" "p" none, .acquire "b" "q" none,
    .runtime (.enqueue ⟨"a", "p", none, 0⟩), .runtime (.enqueue ⟨"b", "q", none, 1⟩)], rfl,
    System.run_trace _ _ _ _, ?_⟩
  exact ⟨_, List.mem_of_getElem? (i := 3) rfl, _, _, rfl, .inl rfl⟩

end RedevPlugin.Host
