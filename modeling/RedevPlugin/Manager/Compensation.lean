import RedevPlugin.Manager.Outcomes

/-! What a call that revokes a session reports. Without an error, every shard has either
acknowledged the revocation for the generation that its health named or was stopped
because it was not ready, and the counts are the sums of the acknowledged ones. With an
error, every shard has been stopped and the report says whether all stops succeeded,
provided that the call passed its first checks, that the acknowledged counts can be added
up, and that the context of the stops does not end before the call returns. Each of the
last two is needed: there is a run that ends early for either reason. -/

namespace RedevPlugin.Manager

open Session (maxSafeInteger)
open Transition
open Function (update apply_update)

variable {n : ℕ} {m : ProcessManager n} {req : SessionRevokeRequest} {i : Fin n}

/-! ### The steps of the call -/

inductive Step (m : ProcessManager n) (req : SessionRevokeRequest) (s : State n) :
    Action n → Option Answer → State n → Prop where
  | refuse (e) (hphase : s.phase = .entry)
    (hbad : ¬(m.bound = true ∧ n ≠ 0 ∧ validateSessionRevokeRequest req = true)) :
    Step m req s .call (some ⟨.zero, [e]⟩) { s with phase := .returned }
  | call (hphase : s.phase = .entry) :
    Step m req s .call none { s with phase := .collecting (.start n), launched := true }
  | process (i e w) (hw : (s.workers i).step m req i e = some w) (hsent : ∀ o, w ≠ .sent o) :
    Step m req s (.process i e) none { s with workers := update s.workers i w }
  | send (i e o) (hw : (s.workers i).step m req i e = some (.sent o)) :
    Step m req s (.process i e) none { s with
      workers := update s.workers i (.sent o), outcomes := s.outcomes.send i o }
  | receive (vars o rest) (hphase : s.phase = .collecting vars)
    (hreceive : s.outcomes.receive = some (o, rest)) :
    Step m req s .receive none
      { s with phase := .collecting (vars.add m o), outcomes := rest }
  | stopAll (a vars errs) (ha : a = .seeContextEnd ∨ a = .settle)
    (hphase : s.phase = .collecting vars) (herrs : errs ≠ []) :
    Step m req s a none (s.stopShards errs)
  | settle (vars) (hphase : s.phase = .collecting vars) (hall : n ≤ s.outcomes.taken)
    (herr : vars.revokeErr = []) :
    Step m req s .settle (some (vars.answer req)) { s with phase := .returned }
  | stop (i failure) (hi : s.stops i = none) :
    Step m req s (.stop i failure) none { s with
      stops := update s.stops i (some failure), stopResults := s.stopResults.send i failure }
  | receiveStop (errs errorsByIndex r rest) (hphase : s.phase = .stopping errs errorsByIndex)
    (hreceive : s.stopResults.receive = some (r, rest)) :
    Step m req s .receiveStop none
      { s with phase := .stopping errs (addStop m errorsByIndex r), stopResults := rest }
  | seeStopContextEnd (errs errorsByIndex) (hphase : s.phase = .stopping errs errorsByIndex)
    (hended : s.stopContextEnded = true) :
    Step m req s .seeStopContextEnd
      (some (stopAnswer req errs
        ((List.finRange n).filterMap errorsByIndex ++ [.contextEnded])))
      { s with phase := .returned }
  | settleStops (errs errorsByIndex) (hphase : s.phase = .stopping errs errorsByIndex)
    (hall : n ≤ s.stopResults.taken) :
    Step m req s .settleStops
      (some (stopAnswer req errs ((List.finRange n).filterMap errorsByIndex)))
      { s with phase := .returned }
  | endContext : Step m req s .endContext none { s with contextEnded := true }
  | endStopContext : Step m req s .endStopContext none { s with stopContextEnded := true }

theorem State.perform_step {s t a out} (h : s.perform m req a = some (out, t)) :
    Step m req s a out t := by
  revert h
  fun_cases State.perform m req s a <;> try rintro ⟨⟩
  · refine .refuse _ ‹_› fun hgood => ?_
    simp_all
  · refine .refuse _ ‹_› fun hgood => ?_
    simp_all
  · exact .call ‹_›
  · exact .send _ _ _ ‹_›
  · exact .process _ _ _ ‹_› ‹_›
  · intro h
    obtain ⟨⟨o, rest⟩, hreceive, ⟨⟩⟩ := Option.map_eq_some_iff.mp h
    exact .receive _ o rest ‹_› hreceive
  · exact .stopAll _ _ _ (.inl rfl) ‹_› (by simp)
  · exact .settle _ ‹_› (Nat.le_of_not_lt ‹_›) (List.isEmpty_iff.mp ‹_›)
  · exact .stopAll _ _ _ (.inr rfl) ‹_› (by simp_all)
  · rename_i hfree
    rw [Bool.and_eq_true, Option.isNone_iff_eq_none] at hfree
    exact .stop _ _ hfree.2
  · intro h
    obtain ⟨⟨r, rest⟩, hreceive, ⟨⟩⟩ := Option.map_eq_some_iff.mp h
    exact .receiveStop _ _ r rest ‹_› hreceive
  · rename_i hended
    rw [Bool.and_eq_true] at hended
    exact .seeStopContextEnd _ _ ‹_› hended.2
  · exact .settleStops _ _ ‹_› (Nat.le_of_not_lt ‹_›)
  · exact .endContext
  · exact .endStopContext

/-! ### What a run keeps -/

/-- What the process of a shard has answered to the goroutine that asks it. -/
def events (i : Fin n) (h : List (Action n × Option Answer)) : List ProcessEvent :=
  h.filterMap fun l => match l.1 with
    | .process j e => if j = i then some e else none
    | _ => none

def Worker.outcome : Worker → Option ShardOutcome
  | .sent o => some o
  | _ => none

theorem events_append (i : Fin n) (h h' : List (Action n × Option Answer)) :
    events i (h ++ h') = events i h ++ events i h' :=
  List.filterMap_append

/-- The goroutines have done what the answers so far make them do, and each has sent what
it found. -/
structure Heard (m : ProcessManager n) (req : SessionRevokeRequest)
    (h : List (Action n × Option Answer)) (s : State n) : Prop where
  workers : ∀ i, Worker.follow m req i (events i h) = some (s.workers i)
  outcomes : s.outcomes.Once fun i => (s.workers i).outcome
  stops : s.stopResults.Once s.stops
  attempts : ∀ i failure, s.stops i = some failure ↔ ∃ out, (.stop i failure, out) ∈ h

variable {h : List (Action n × Option Answer)} {s t : State n} {a : Action n}
  {out : Option Answer}

/-- A step that is no answer of a process leaves the goroutines as they are. -/
theorem Heard.frame (hs : Heard m req h s) (hpr : ∀ i e, a ≠ .process i e)
    (hstop : ∀ i failure, a ≠ .stop i failure) (hwo : t.workers = s.workers)
    (hsto : t.stops = s.stops) (hout : t.outcomes.Once fun i => (s.workers i).outcome)
    (hres : t.stopResults.Once s.stops) : Heard m req (h ++ [(a, out)]) t := by
  refine ⟨fun i => ?_, hwo ▸ hout, hsto ▸ hres, fun i failure => ?_⟩
  · have hnone : events i [(a, out)] = [] := by
      cases a with
      | process j e => exact absurd rfl (hpr j e)
      | _ => rfl
    rw [events_append, hnone, List.append_nil, hwo]
    exact hs.workers i
  · rw [hsto, hs.attempts]
    simp [(hstop i failure).symm]

variable {w w' : Worker} {e : ProcessEvent} {vars : Collected n}
  {tr : List ((Action n × Option Answer) × State n)}

/-- An answer of a process moves the goroutine that waits for it. -/
theorem Heard.workers_process (hs : Heard m req h s) {i}
    (hw : (s.workers i).step m req i e = some w) (j : Fin n) :
    Worker.follow m req j (events j (h ++ [(.process i e, out)])) =
      some (update s.workers i w j) := by
  rw [events_append]
  by_cases hj : j = i
  · subst hj
    have hone : events j [(.process j e, out)] = [e] := by simp [events]
    rw [hone, Function.update_self, Worker.follow_concat]
    exact ⟨s.workers j, hs.workers j, hw⟩
  · have hnone : events j [(.process i e, out)] = [] := by simp [events, Ne.symm hj]
    rw [hnone, List.append_nil, Function.update_of_ne hj]
    exact hs.workers j

theorem Worker.outcome_of_moves (hw : Worker.Moves m req i w e w') : w.outcome = none := by
  cases hw <;> rfl

theorem Worker.outcome_update (f : Fin n → Worker) (i : Fin n) (w : Worker) :
    (fun j => (update f i w j).outcome) = update (fun j => (f j).outcome) i w.outcome :=
  funext fun j => apply_update (fun _ => Worker.outcome) f i w j

theorem Heard.step (hs : Heard m req h s) (hstep : Step m req s a out t) :
    Heard m req (h ++ [(a, out)]) t := by
  cases hstep with
  | refuse | call | settle | seeStopContextEnd | settleStops | endContext | endStopContext =>
    exact hs.frame (by simp) (by simp) rfl rfl hs.outcomes hs.stops
  | stopAll _ _ _ ha =>
    rcases ha with rfl | rfl <;>
      exact hs.frame (by simp) (by simp) rfl rfl hs.outcomes hs.stops
  | receive _ _ _ _ hreceive =>
    exact hs.frame (by simp) (by simp) rfl rfl (hs.outcomes.receive hreceive) hs.stops
  | receiveStop _ _ _ _ _ hreceive =>
    exact hs.frame (by simp) (by simp) rfl rfl hs.outcomes (hs.stops.receive hreceive)
  | process _ _ w hw hsent =>
    refine ⟨hs.workers_process hw, ?_, hs.stops, by simpa using hs.attempts⟩
    have hb := Worker.outcome_of_moves (Worker.step_moves hw)
    have haf : w.outcome = none := by
      cases w with
      | sent o => exact absurd rfl (hsent o)
      | _ => rfl
    rw [Worker.outcome_update, haf, ← hb, Function.update_eq_self]
    exact hs.outcomes
  | send _ _ o hw =>
    refine ⟨hs.workers_process hw, ?_, hs.stops, by simpa using hs.attempts⟩
    have hb := Worker.outcome_of_moves (Worker.step_moves hw)
    rw [Worker.outcome_update]
    exact hs.outcomes.send hb o
  | stop i failure hi =>
    refine ⟨fun j => ?_, hs.outcomes, hs.stops.send hi failure, fun j failure' => ?_⟩
    · rw [events_append]
      exact (congrArg _ (List.append_nil _)).trans (hs.workers j)
    · change update s.stops i (some failure) j = some failure' ↔ _
      have hat := hs.attempts j failure'
      rw [Function.update_apply]
      split_ifs with hj
      · subst hj
        rw [hi] at hat
        have hnone : ∀ out, (Action.stop j failure', out) ∉ h := by simpa using hat
        simp [hnone, eq_comm]
      · rw [hat]
        simp [hj]

/-- The variables of the loops are what the messages read so far make of them. -/
structure Read (m : ProcessManager n) (s : State n) : Prop where
  entry : s.phase = .entry → s.outcomes.taken = 0 ∧ s.stopResults.taken = 0
  collecting : ∀ vars, s.phase = .collecting vars →
    vars = s.outcomes.received.foldl (Collected.add m) (.start n) ∧ s.stopResults.taken = 0
  stopping : ∀ errs errorsByIndex, s.phase = .stopping errs errorsByIndex → errs ≠ [] ∧
    errorsByIndex = s.stopResults.received.foldl (addStop m) fun _ => none

theorem Read.returned (hphase : t.phase = .returned) : Read m t := by
  constructor <;> simp [hphase]

theorem Read.step (hr : Read m s) (hs : Heard m req h s) (hstep : Step m req s a out t) :
    Read m t := by
  cases hstep with
  | refuse | settle | seeStopContextEnd | settleStops => exact .returned rfl
  | endContext | endStopContext | process => exact ⟨hr.entry, hr.collecting, hr.stopping⟩
  | call hphase =>
    have hz := hr.entry hphase
    refine ⟨by simp, ?_, by simp⟩
    simp [Mailbox.received, hz.1, hz.2]
  | send =>
    refine ⟨hr.entry, fun vars hphase => ?_, hr.stopping⟩
    rw [Mailbox.received_send hs.outcomes.taken]
    exact hr.collecting vars hphase
  | receive vars _ _ hphase hreceive =>
    obtain ⟨hva, hta⟩ := hr.collecting vars hphase
    refine ⟨by simp, ?_, by simp⟩
    rintro _ ⟨⟩
    rw [(Mailbox.receive_spec hreceive).2.2.1, List.foldl_append, ← hva]
    exact ⟨rfl, hta⟩
  | stopAll _ vars _ _ hphase herrs =>
    have hta := (hr.collecting vars hphase).2
    refine ⟨by simp [State.stopShards], by simp [State.stopShards], ?_⟩
    simp [State.stopShards, Mailbox.received, hta, herrs]
  | stop =>
    refine ⟨hr.entry, hr.collecting, fun errs errorsByIndex hphase => ?_⟩
    rw [Mailbox.received_send hs.stops.taken]
    exact hr.stopping errs errorsByIndex hphase
  | receiveStop errs errorsByIndex _ _ hphase hreceive =>
    obtain ⟨herrs, hin⟩ := hr.stopping errs errorsByIndex hphase
    refine ⟨by simp, by simp, ?_⟩
    rintro _ _ ⟨⟩
    rw [(Mailbox.receive_spec hreceive).2.2.1, List.foldl_append, ← hin]
    exact ⟨herrs, rfl⟩

/-! ### Careful runs -/

def Worker.counts (f : CountField) (w : Worker) : ℕ :=
  contribution f (w.outcome.bind ShardOutcome.result)

def acknowledgedCounts (workers : Fin n → Worker) (f : CountField) : ℕ := ∑ i, (workers i).counts f

def Phase.isReturned : Phase n → Bool
  | .returned => true
  | _ => false

/-- The first checks of the call succeed, the acknowledged counts can be added up, and the
context of the stops does not end before the call has returned. -/
def Careful (m : ProcessManager n) (req : SessionRevokeRequest)
    (_ : List (Action n × Option Answer)) (s : State n) (l : Action n × Option Answer) : Prop :=
  match l.1 with
  | .call => m.bound = true ∧ n ≠ 0 ∧ validateSessionRevokeRequest req = true
  | .process _ (.revokeSession (.ok (payload, _))) =>
    ∀ counts ∈ payload.counts, ∀ f ∈ CountField.all,
      acknowledgedCounts s.workers f + counts f ≤ maxSafeInteger
  | .endStopContext => s.phase.isReturned = true
  | _ => True

structure Safe (s : State n) : Prop where
  counts : ∀ f, acknowledgedCounts s.workers f ≤ maxSafeInteger
  context : s.phase.isReturned = false → s.stopContextEnded = false

theorem acknowledgedCounts_update {workers} (f : CountField) (hi : (workers i).counts f = 0) :
    acknowledgedCounts (update workers i w) f = acknowledgedCounts workers f + w.counts f := by
  have hup : (fun j => (update workers i w j).counts f) =
      update (fun j => (workers j).counts f) i (w.counts f) :=
    funext fun j => apply_update (fun _ => Worker.counts f) workers i w j
  have hwh := Finset.add_sum_erase Finset.univ (fun j => (workers j).counts f) (Finset.mem_univ i)
  rw [hi, Nat.zero_add] at hwh
  unfold acknowledgedCounts
  rw [hup, Finset.sum_update_of_mem (Finset.mem_univ i), Finset.sdiff_singleton_eq_erase,
    hwh, Nat.add_comm]

/-- The counts that a step of a goroutine adds are the ones of the answer. -/
theorem Worker.counts_of_moves (hw : Worker.Moves m req i w e w') (f : CountField) :
    w.counts f = 0 ∧ (w'.counts f = 0 ∨ ∃ payload generation counts,
      e = .revokeSession (.ok (payload, generation)) ∧ payload.counts = some counts ∧
        w'.counts f = counts f) := by
  refine ⟨by simp [Worker.counts, Worker.outcome_of_moves hw, contribution], ?_⟩
  cases hw with
  | unanswered | unready | invalid | ready | unstopped | stopped => exact .inl rfl
  | answered =>
    cases ho : revokeOutcome req (m.shardIDs i) _ _ with
    | failed | stopped => exact .inl rfl
    | acknowledged =>
      obtain ⟨rfl, -⟩ := revokeOutcome_acknowledged ho
      exact .inr ⟨_, _, _, rfl, rfl, rfl⟩

theorem Safe.process (hsa : Safe s) (hc : Careful m req h s (.process i e, out))
    (hw : (s.workers i).step m req i e = some w) (f : CountField) :
    acknowledgedCounts (update s.workers i w) f ≤ maxSafeInteger := by
  obtain ⟨hb, haf⟩ := Worker.counts_of_moves (Worker.step_moves hw) f
  rw [acknowledgedCounts_update f hb]
  rcases haf with hz | ⟨payload, generation, counts, rfl, hco, heq⟩
  · rw [hz, Nat.add_zero]
    exact hsa.counts f
  · rw [heq]
    exact hc counts hco f f.mem_all

theorem Safe.step (hsa : Safe s) (hc : Careful m req h s (a, out))
    (hstep : Step m req s a out t) : Safe t := by
  cases hstep with
  | refuse | settle | seeStopContextEnd | settleStops =>
    exact ⟨hsa.counts, fun hphase => by cases hphase⟩
  | call hphase | receive _ _ _ hphase | receiveStop _ _ _ _ hphase | stopAll _ _ _ _ hphase =>
    exact ⟨hsa.counts, fun _ => hsa.context (by rw [hphase]; rfl)⟩
  | stop | endContext => exact ⟨hsa.counts, hsa.context⟩
  | process _ _ _ hw | send _ _ _ hw => exact ⟨hsa.process hc hw, hsa.context⟩
  | endStopContext =>
    refine ⟨hsa.counts, fun hphase => ?_⟩
    simp [show s.phase.isReturned = true from hc] at hphase

/-! ### The answers -/

/-- A call without an error: every shard acknowledged or was stopped, and the counts are the
sums of the acknowledged ones. -/
def Revoked (m : ProcessManager n) (req : SessionRevokeRequest)
    (h : List (Action n × Option Answer)) (answer : Answer) : Prop :=
  ∃ acks : Fin n → Option SessionRevokeShardResult,
    (∀ i, match acks i with
      | some result => Acknowledged m req (events i h) i result
      | none => StoppedUnready (events i h)) ∧
    ∀ f, answer.result.counts f = ∑ i, contribution f (acks i)

/-- A call with an error: every shard was stopped, and the report says whether all these
stops succeeded. -/
def Compensated (h : List (Action n × Option Answer)) (answer : Answer) : Prop :=
  (∀ i, ∃ failure out, (.stop i failure, out) ∈ h) ∧
    (answer.result.runtimeStopped = true ↔ ∀ i, ∃ out, (.stop i none, out) ∈ h)

section

variable (hs : Heard m req h s) (hr : Read m s) (hphase : s.phase = .collecting vars)

include hs hr hphase

/-- After the loop over the outcomes, `ordered` holds what the goroutines have sent. -/
theorem Heard.settled (hall : n ≤ s.outcomes.taken) (i : Fin n) :
    ∃ o, s.workers i = .sent o ∧ vars.ordered i = o.result ∧
      (vars.revokeErr = [] → ∀ cause, o ≠ .failed cause) := by
  have hta : s.outcomes.taken = Fintype.card (Fin n) :=
    le_antisymm (hs.outcomes.taken.trans hs.outcomes.length_sent_le) (by simpa using hall)
  obtain ⟨hsent, hmem⟩ := hs.outcomes.complete hta
  obtain ⟨o, ho⟩ := hsent i
  have hw : s.workers i = .sent o := by
    generalize s.workers i = w at ho
    cases w with
    | sent => rw [Option.some.inj ho]
    | _ => cases ho
  obtain ⟨hva, -⟩ := hr.collecting vars hphase
  have hre := (hmem i o).mpr ho
  refine ⟨o, hw, ?_, ?_⟩
  · rw [hva]
    exact Collected.foldl_ordered hs.outcomes.received_nodup hre rfl
  · rintro herr cause rfl
    rw [hva] at herr
    exact (Collected.foldl_revokeErr herr).2 i cause hre

/-- The sum over the loop of the results is the one of what the goroutines have sent. -/
theorem Heard.sum_ordered (hall : n ≤ s.outcomes.taken) (f : CountField) :
    (((List.finRange n).map vars.ordered).map (contribution f)).sum =
      acknowledgedCounts s.workers f := by
  rw [List.map_map, ← List.ofFn_eq_map, List.sum_ofFn]
  refine Finset.sum_congr rfl fun i _ => ?_
  obtain ⟨o, hw, hor, -⟩ := hs.settled hr hphase hall i
  simp [Worker.counts, Worker.outcome, hw, hor]

theorem Heard.revoked (hall : n ≤ s.outcomes.taken) (herr : vars.revokeErr = [])
    (hnil : (vars.answer req).errors = []) : Revoked m req h (vars.answer req) := by
  refine ⟨vars.ordered, fun i => ?_, fun f => ?_⟩
  · obtain ⟨o, hw, hor, hfa⟩ := hs.settled hr hphase hall i
    have hfo := hs.workers i
    rw [hw] at hfo
    rw [hor]
    cases o with
    | failed => exact absurd rfl (hfa herr _)
    | stopped => exact Worker.follow_stopped hfo
    | acknowledged => exact Worker.follow_acknowledged hfo
  · have hsp := aggregate_spec (fun _ => 0) ((List.finRange n).map vars.ordered)
    unfold Collected.answer at hnil ⊢
    cases hag : aggregate (fun _ => 0) ((List.finRange n).map vars.ordered) with
    | error =>
      simp [hag] at hnil
    | ok result =>
      obtain ⟨shards, counts⟩ := result
      rw [hag] at hsp
      change counts f = _
      rw [hsp f, Nat.zero_add, List.map_map, ← List.ofFn_eq_map, List.sum_ofFn]
      rfl

/-- An error at the end of the loops without any failed shard comes from counts that are too
large together. -/
theorem Heard.overflow (hall : n ≤ s.outcomes.taken) (hne : (vars.answer req).errors ≠ []) :
    ∃ f, maxSafeInteger < acknowledgedCounts s.workers f := by
  have hsp := aggregate_spec (fun _ => 0) ((List.finRange n).map vars.ordered)
  unfold Collected.answer at hne
  cases hag : aggregate (fun _ => 0) ((List.finRange n).map vars.ordered) with
  | error =>
    rw [hag] at hsp
    obtain ⟨f, hf⟩ := hsp
    rw [Nat.zero_add, hs.sum_ordered hr hphase hall] at hf
    exact ⟨f, hf⟩
  | ok =>
    rw [hag] at hne
    exact absurd rfl hne

end

theorem Heard.compensated (hs : Heard m req h s) (hr : Read m s) {errs errorsByIndex}
    (hphase : s.phase = .stopping errs errorsByIndex) (hall : n ≤ s.stopResults.taken) :
    Compensated h (stopAnswer req errs ((List.finRange n).filterMap errorsByIndex)) := by
  have hta : s.stopResults.taken = Fintype.card (Fin n) :=
    le_antisymm (hs.stops.taken.trans hs.stops.length_sent_le) (by simpa using hall)
  obtain ⟨hsent, hmem⟩ := hs.stops.complete hta
  refine ⟨fun i => ?_, ?_⟩
  · obtain ⟨failure, hfa⟩ := hsent i
    exact ⟨failure, (hs.attempts i failure).mp hfa⟩
  · have hin : ∀ i failure, s.stops i = some failure → errorsByIndex i = stopError m i failure := by
      intro i failure hfa
      rw [(hr.stopping errs errorsByIndex hphase).2]
      exact foldl_addStop hs.stops.received_nodup ((hmem i failure).mpr hfa)
    change ((List.finRange n).filterMap errorsByIndex).isEmpty = true ↔ _
    rw [List.isEmpty_iff, List.filterMap_eq_nil_iff]
    refine forall_congr' fun i => ?_
    obtain ⟨failure, hfa⟩ := hsent i
    rw [hin i failure hfa, ← hs.attempts i none, hfa]
    cases failure with
    | none | some message => simp [stopError]

/-- What the answer of a step says, and what it says in careful runs. -/
theorem Heard.answered (hs : Heard m req h s) (hr : Read m s) {answer}
    (hstep : Step m req s a (some answer) t) : (answer.errors = [] → Revoked m req h answer) ∧
      (Safe s → Careful m req h s (a, some answer) → answer.errors ≠ [] →
        Compensated h answer) := by
  generalize hout : some answer = out at hstep
  cases hstep with cases hout
  | refuse _ _ hbad => exact ⟨fun hnil => absurd hnil (by simp), fun _ hc => absurd hc hbad⟩
  | settle _ hphase hall herr =>
    refine ⟨hs.revoked hr hphase hall herr, fun hsa _ hne => ?_⟩
    obtain ⟨f, hf⟩ := hs.overflow hr hphase hall hne
    exact absurd (hsa.counts f) (Nat.not_le.mpr hf)
  | seeStopContextEnd _ _ hphase hended =>
    refine ⟨fun hnil => ?_, fun hsa => ?_⟩
    · simp [stopAnswer] at hnil
    · rw [hsa.context (by rw [hphase]; rfl)] at hended
      cases hended
  | settleStops errs errorsByIndex hphase hall =>
    refine ⟨fun hnil => ?_, fun _ _ _ => hs.compensated hr hphase hall⟩
    have herrs := (hr.stopping errs errorsByIndex hphase).1
    exact absurd (List.append_eq_nil_iff.mp hnil).1 herrs

/-! ### Sample runs -/

def sampleManager (n : ℕ) : ProcessManager n := ⟨true, fun i => toString i.val, "3.0.0"⟩

def sampleRequest : SessionRevokeRequest := ⟨⟨"s", "u", "e", "c"⟩, 1⟩

def sampleHealth : Health :=
  ⟨true, "instance", "generation", "channel", "nonce",
    ⟨"3.0.0", .linuxAMD64, String.ofList (List.replicate 64 'a')⟩⟩

def sampleAnswers (i : Fin n) (count : ℕ) : List (Action n) :=
  [.process i (.health (.ok sampleHealth)),
    .process i (.revokeSession (.ok (⟨some 1, .complete, some fun _ => count⟩, "generation")))]

/-- A shard that does not answer is stopped. -/
def sampleStop : List (Action 1) :=
  [.call, .process ⟨0, Nat.one_pos⟩ (.health (.error "unreachable")), .receive, .settle,
    .stop ⟨0, Nat.one_pos⟩ none, .receiveStop]

def sampleTrace (actions : List (Action n)) : List ((Action n × Option Answer) × State n) :=
  trace (State.perform (sampleManager n) sampleRequest) {} actions

/-! ### Runs -/

theorem Run.heard (hr : (system m req).Run {} tr) :
    Heard m req (labels tr) (last {} tr) ∧ Read m (last {} tr) := by
  have hsta : Heard m req [] ({} : State n) ∧ Read m ({} : State n) :=
    ⟨⟨fun _ => rfl, Mailbox.once_empty, Mailbox.once_empty, by simp⟩,
      ⟨fun _ => ⟨rfl, rfl⟩, by simp, by simp⟩⟩
  have hin := hr.invariant (C := fun _ _ _ => True)
    (I := fun h s => Heard m req h s ∧ Read m s) ?_ hsta (guarded_true _ _ _)
  · simpa using hin
  · intro h s l t hI _ hstep
    have hstep := State.perform_step hstep
    exact ⟨hI.1.step hstep, hI.2.step hI.1 hstep⟩

theorem Run.safe (hr : (system m req).Run {} tr) (hc : Guarded (Careful m req) [] {} tr) :
    Safe (last {} tr) := by
  have hsta : Safe ({} : State n) := ⟨by simp [acknowledgedCounts, Worker.counts,
    Worker.outcome, contribution], fun _ => rfl⟩
  exact hr.invariant (I := fun _ s => Safe s)
    (fun h s l t hI hC hstep => hI.step hC (State.perform_step hstep)) hsta hc

/-- What `RevokeSession` returns, in every run of any number of shards: without an error all
shards acknowledged or were stopped and the counts are the sums; with an error, in careful
runs, every shard was stopped and `RuntimeStopped` says whether all these stops succeeded. -/
theorem revokeSession_compensates (m : ProcessManager n) (req : SessionRevokeRequest)
    {p q : List ((Action n × Option Answer) × State n)} {a : Action n} {answer : Answer}
    {t : State n} (hr : (system m req).Run {} (p ++ ((a, some answer), t) :: q)) :
    (answer.errors = [] → Revoked m req (labels p) answer) ∧
      (Guarded (Careful m req) [] {} (p ++ ((a, some answer), t) :: q) → answer.errors ≠ [] →
        Compensated (labels p) answer) := by
  obtain ⟨hp, hstep, -⟩ := (System.run_append _ _ _ _).mp hr
  obtain ⟨hheard, hread⟩ := Run.heard hp
  obtain ⟨hrevoked, hcompensated⟩ := hheard.answered hread (State.perform_step hstep)
  refine ⟨hrevoked, fun hc => ?_⟩
  obtain ⟨hcp, hcstep, -⟩ := (guarded_append _ _ _ _ _).mp hc
  exact hcompensated (Run.safe hp hcp) hcstep

theorem revokeSession_compensates_unreachable :
    ∃ answer t, (system (sampleManager 1) sampleRequest).Run {}
        (sampleTrace sampleStop ++ [((.settleStops, some answer), t)]) ∧
      answer.errors ≠ [] ∧ Compensated (labels (sampleTrace sampleStop)) answer := by
  have hrun : (system (sampleManager 1) sampleRequest).Run {} (sampleTrace sampleStop) :=
    System.run_trace _ _ _ _
  refine ⟨_, _, (System.run_append _ _ _ _).mpr ⟨hrun, rfl, trivial⟩, by decide, ?_⟩
  refine (revokeSession_compensates (sampleManager 1) sampleRequest (a := .settleStops) (q := [])
    ((System.run_append _ _ _ _).mpr ⟨hrun, rfl, trivial⟩)).2 ?_ (by decide)
  exact ⟨⟨rfl, by decide, by decide⟩, trivial, trivial, trivial, trivial, trivial, trivial, trivial⟩

/-- These actions, and then this one, with which the call returns an error. -/
def Fails (actions : List (Action n)) (a : Action n) (answer : Answer) : Prop :=
  (sampleTrace actions).length = actions.length ∧
    (∃ t, (last {} (sampleTrace actions)).perform (sampleManager n) sampleRequest a =
      some (some answer, t)) ∧
    answer.errors ≠ [] ∧ ¬ Compensated (labels (sampleTrace actions)) answer

/-- Two shards acknowledge counts that are too large together; the context of the stops ends
before any shard is stopped; it ends after the only shard was stopped. -/
theorem revokeSession_uncompensated :
    (∃ answer, Fails (n := 2)
      (.call :: sampleAnswers 0 maxSafeInteger ++ sampleAnswers 1 1 ++ [.receive, .receive])
      .settle answer) ∧
    (∃ answer, Fails (n := 1)
      [.call, .process 0 (.health (.error "unreachable")), .receive, .settle, .endStopContext]
      .seeStopContextEnd answer) ∧
    ∃ answer, Fails (n := 1)
      [.call, .process 0 (.health (.error "unreachable")), .receive, .settle, .stop 0 none,
        .endStopContext]
      .seeStopContextEnd answer := by
  refine ⟨⟨_, rfl, ⟨_, rfl⟩, by decide, fun h => ?_⟩, ⟨_, rfl, ⟨_, rfl⟩, by decide, fun h => ?_⟩,
    ⟨_, rfl, ⟨_, rfl⟩, by decide, fun h => ?_⟩⟩
  · obtain ⟨failure, out, hmem⟩ := h.1 0
    simpa [sampleAnswers] using mem_of_mem_labels_trace hmem
  · obtain ⟨failure, out, hmem⟩ := h.1 0
    simpa using mem_of_mem_labels_trace hmem
  · refine absurd (h.2.mpr fun i => ⟨none, ?_⟩) (by decide)
    rw [Subsingleton.elim i 0]
    exact List.mem_of_getElem? (i := 4) rfl

end RedevPlugin.Manager
