import Mathlib
import RedevPlugin.Manager.SessionRevoke

/-! What the goroutines of a session revocation find, and what the loops that read it make
of it. The answers of the process of a shard determine its goroutine, so an outcome can be
traced back to them; with one outcome of each shard, the variables of the loops are what
the outcomes say, and the last loop adds up the acknowledged counts or fails because they
are too large. -/

namespace RedevPlugin.Manager

open Session (maxSafeInteger)

variable {n : ℕ} {m : ProcessManager n} {req : SessionRevokeRequest}

/-- The counts that a shard contributes. -/
def contribution (f : CountField) (shard : Option SessionRevokeShardResult) : ℕ :=
  shard.elim 0 fun r => r.counts f

variable {current delta : SessionRevokeCounts} {w : Worker} {e : ProcessEvent}
  {es : List ProcessEvent} {health : Health} {vars : Collected n}
  {l : List (Fin n × ShardOutcome)} {errs : Fin n → Option RevokeError}

theorem addSessionRevokeCounts_ok {counts} (h : addSessionRevokeCounts current delta = .ok counts)
    (f : CountField) : counts f = current f + delta f := by
  unfold addSessionRevokeCounts at h
  split_ifs at h
  cases h
  rfl

theorem addSessionRevokeCounts_error {e} (h : addSessionRevokeCounts current delta = .error e) :
    ∃ f, maxSafeInteger < current f + delta f := by
  unfold addSessionRevokeCounts at h
  split_ifs at h with hany
  obtain ⟨f, -, hf⟩ := List.any_eq_true.mp hany
  rw [Bool.or_eq_true, decide_eq_true_eq, decide_eq_true_eq] at hf
  exact ⟨f, by omega⟩

/-- The loop fails only when some count cannot be added up, and otherwise adds up all. -/
theorem aggregate_spec (counts : SessionRevokeCounts)
    (shards : List (Option SessionRevokeShardResult)) :
    match aggregate counts shards with
    | .error _ => ∃ f, maxSafeInteger < counts f + (shards.map (contribution f)).sum
    | .ok (_, total) => ∀ f, total f = counts f + (shards.map (contribution f)).sum := by
  induction shards generalizing counts with
  | nil => exact fun f => by simp
  | cons shard rest ih =>
    cases shard with
    | none => simpa [aggregate, contribution] using ih counts
    | some shard =>
      simp only [aggregate]
      cases hadd : addSessionRevokeCounts counts shard.counts with
      | error =>
        obtain ⟨f, hf⟩ := addSessionRevokeCounts_error hadd
        exact ⟨f, hf.trans_le (by simp [contribution])⟩
      | ok counts' =>
        have hsum : ∀ f, counts' f + (rest.map (contribution f)).sum =
            counts f + ((some shard :: rest).map (contribution f)).sum := by
          intro f
          rw [addSessionRevokeCounts_ok hadd, List.map_cons, List.sum_cons, contribution,
            Option.elim_some, Nat.add_assoc]
        have ih := ih counts'
        simp only [hsum] at ih
        cases hre : aggregate counts' rest with
        | error | ok =>
          simpa only [hre, Except.map] using ih

/-- A goroutine after these answers. -/
def Worker.follow (m : ProcessManager n) (req : SessionRevokeRequest) (i : Fin n)
    (es : List ProcessEvent) : Option Worker :=
  es.foldlM (Worker.step m req i) .asking

variable {i : Fin n}

theorem Worker.follow_concat :
    Worker.follow m req i (es ++ [e]) = some w ↔
      ∃ w', Worker.follow m req i es = some w' ∧ w'.step m req i e = some w := by
  simp [Worker.follow, List.foldlM_append, Option.bind_eq_some_iff]

inductive Worker.Moves (m : ProcessManager n) (req : SessionRevokeRequest) (i : Fin n) :
    Worker → ProcessEvent → Worker → Prop where
  | unanswered (message) :
    Moves m req i .asking (.health (.error message)) (.sent (.failed (.process message)))
  | unready (health : Health) (h : health.ready = false) :
    Moves m req i .asking (.health (.ok health)) .notReady
  | invalid (health : Health) (e : ShardError) :
    Moves m req i .asking (.health (.ok health)) (.sent (.failed e))
  | ready (health : Health)
    (h : validateReadyHealth m.currentPlatformVersion health = .ok ()) :
    Moves m req i .asking (.health (.ok health)) (.ready health)
  | unstopped (message) :
    Moves m req i .notReady (.stop (some message))
      (.sent (.failed (.terminateNonReady (m.shardIDs i) message)))
  | stopped : Moves m req i .notReady (.stop none) (.sent .stopped)
  | answered (health answer) :
    Moves m req i (.ready health) (.revokeSession answer)
      (.sent (revokeOutcome req (m.shardIDs i) health answer))

theorem validateReadyHealth_notReady {platform}
    (h : validateReadyHealth platform health = .error .notReady) : health.ready = false := by
  refine Bool.eq_false_iff.mpr fun hready => ?_
  rw [validateReadyHealth, hready, if_neg (by decide)] at h
  split_ifs at h <;> cases h

theorem Worker.step_moves {w'} (h : w.step m req i e = some w') : Worker.Moves m req i w e w' := by
  revert h
  fun_cases Worker.step m req i w e <;> rintro ⟨⟩
  · exact .unanswered _
  · exact .unready _ (validateReadyHealth_notReady ‹_›)
  · exact .invalid _ _
  · exact .ready _ ‹_›
  · exact .unstopped _
  · exact .stopped
  · exact .answered _ _

/-- A goroutine that is past its first event got there by its last one. -/
theorem Worker.follow_last (h : Worker.follow m req i es = some w) :
    es = [] ∧ w = .asking ∨ ∃ es' e w', es = es' ++ [e] ∧
      Worker.follow m req i es' = some w' ∧ Worker.Moves m req i w' e w := by
  rcases List.eq_nil_or_concat es with rfl | ⟨es', e, rfl⟩
  · exact .inl ⟨rfl, (Option.some.inj h).symm⟩
  · rw [List.concat_eq_append] at h ⊢
    obtain ⟨w', hes, hw⟩ := Worker.follow_concat.mp h
    exact .inr ⟨es', e, w', rfl, hes, Worker.step_moves hw⟩

theorem Worker.follow_asking (h : Worker.follow m req i es = some .asking) : es = [] := by
  obtain ⟨rfl, -⟩ | ⟨_, _, _, -, -, hw⟩ := Worker.follow_last h
  · rfl
  · cases hw

theorem Worker.follow_notReady (h : Worker.follow m req i es = some .notReady) :
    ∃ health, es = [.health (.ok health)] ∧ health.ready = false := by
  obtain ⟨-, ⟨⟩⟩ | ⟨es, e, w, rfl, hes, hw⟩ := Worker.follow_last h
  cases hw with
  | unready health hready =>
    rw [Worker.follow_asking hes]
    exact ⟨health, rfl, hready⟩

theorem Worker.follow_ready (h : Worker.follow m req i es = some (.ready health)) :
    es = [.health (.ok health)] ∧ validateReadyHealth m.currentPlatformVersion health = .ok () := by
  obtain ⟨-, ⟨⟩⟩ | ⟨es, e, w, rfl, hes, hw⟩ := Worker.follow_last h
  cases hw with
  | ready _ hva =>
    rw [Worker.follow_asking hes]
    exact ⟨rfl, hva⟩

/-- The shard said that it is ready and acknowledged the whole revocation, with the
generation of its health. -/
def Acknowledged (m : ProcessManager n) (req : SessionRevokeRequest) (es : List ProcessEvent)
    (i : Fin n) (result : SessionRevokeShardResult) : Prop :=
  ∃ health, validateReadyHealth m.currentPlatformVersion health = .ok () ∧
    es = [.health (.ok health), .revokeSession (.ok
      (⟨some req.sessionRevokeSequence, .complete, some result.counts⟩,
        health.runtimeGenerationID))] ∧
    result = ⟨m.shardIDs i, health.runtimeGenerationID, .complete, result.counts⟩

/-- The shard said that it is not ready, and was stopped. -/
def StoppedUnready (es : List ProcessEvent) : Prop :=
  ∃ health, health.ready = false ∧ es = [.health (.ok health), .stop none]

theorem decodeSessionRevokeResult_ok {payload generation result}
    (h : decodeSessionRevokeResult payload generation req = .ok result) :
    payload = ⟨some req.sessionRevokeSequence, .complete, some result.counts⟩ ∧
      result = ⟨"", generation, .complete, result.counts⟩ := by
  obtain ⟨sequence, state, counts⟩ := payload
  revert h
  fun_cases decodeSessionRevokeResult ⟨sequence, state, counts⟩ generation req <;> rintro ⟨⟩
  simp_all

theorem revokeOutcome_acknowledged {id answer result}
    (h : revokeOutcome req id health answer = .acknowledged result) :
    answer = .ok (⟨some req.sessionRevokeSequence, .complete, some result.counts⟩,
        health.runtimeGenerationID) ∧
      result = ⟨id, health.runtimeGenerationID, .complete, result.counts⟩ := by
  revert h
  fun_cases revokeOutcome req id health answer <;> rintro ⟨⟩
  rename_i hde hg
  obtain ⟨hpa, hre⟩ := decodeSessionRevokeResult_ok hde
  rw [hre, not_not] at hg
  rw [hpa, hre, ← hg]
  exact ⟨rfl, rfl⟩

theorem Worker.follow_acknowledged {result}
    (h : Worker.follow m req i es = some (.sent (.acknowledged result))) :
    Acknowledged m req es i result := by
  obtain ⟨-, ⟨⟩⟩ | ⟨es, e, w, rfl, hes, hw⟩ := Worker.follow_last h
  generalize hv : Worker.sent (.acknowledged result) = v at hw
  cases hw with
  | answered health =>
    obtain ⟨rfl, hre⟩ := revokeOutcome_acknowledged (Worker.sent.inj hv).symm
    obtain ⟨rfl, hva⟩ := Worker.follow_ready hes
    exact ⟨health, hva, rfl, hre⟩
  | unanswered | unready | invalid | ready | unstopped | stopped => cases hv

theorem Worker.follow_stopped (h : Worker.follow m req i es = some (.sent .stopped)) :
    StoppedUnready es := by
  obtain ⟨-, ⟨⟩⟩ | ⟨es, e, w, rfl, hes, hw⟩ := Worker.follow_last h
  generalize hv : Worker.sent .stopped = v at hw
  cases hw with
  | stopped =>
    obtain ⟨health, rfl, hready⟩ := Worker.follow_notReady hes
    exact ⟨health, hready, rfl⟩
  | answered =>
    revert hv
    fun_cases revokeOutcome <;> rintro ⟨⟩
  | unanswered | unready | invalid | ready | unstopped => cases hv

def ShardOutcome.result : ShardOutcome → Option SessionRevokeShardResult
  | .acknowledged result => some result
  | _ => none

theorem Collected.foldl_revokeErr (h : (l.foldl (Collected.add m) vars).revokeErr = []) :
    vars.revokeErr = [] ∧ ∀ i cause, (i, .failed cause) ∉ l := by
  induction l generalizing vars with
  | nil => exact ⟨h, by simp⟩
  | cons o l ih =>
    obtain ⟨hva, hl⟩ := ih h
    obtain ⟨i, o⟩ := o
    cases o with
    | failed => simp [Collected.add] at hva
    | stopped | acknowledged => exact ⟨hva, by simpa using hl⟩

theorem Collected.foldl_ordered_of_notMem (h : i ∉ l.map Prod.fst) :
    (l.foldl (Collected.add m) vars).ordered i = vars.ordered i := by
  induction l generalizing vars with
  | nil => rfl
  | cons o l ih =>
    rw [List.map_cons, List.mem_cons, not_or] at h
    rw [List.foldl_cons, ih h.2]
    obtain ⟨j, o⟩ := o
    cases o with
    | failed | stopped => rfl
    | acknowledged => exact Function.update_of_ne h.1 _ _

/-- With one outcome of each shard, `ordered` holds what the shards acknowledged. -/
theorem Collected.foldl_ordered {o} (hno : (l.map Prod.fst).Nodup) (hmem : (i, o) ∈ l)
    (hva : vars.ordered i = none) : (l.foldl (Collected.add m) vars).ordered i = o.result := by
  induction l generalizing vars with
  | nil => cases hmem
  | cons o' l ih =>
    rw [List.map_cons, List.nodup_cons] at hno
    rw [List.foldl_cons]
    rcases List.mem_cons.mp hmem with rfl | hmem
    · rw [Collected.foldl_ordered_of_notMem hno.1]
      cases o with
      | failed | stopped => exact hva
      | acknowledged => exact Function.update_self _ _ _
    · refine ih hno.2 hmem ?_
      have hne : i ≠ o'.1 := by
        rintro rfl
        exact hno.1 (List.mem_map.mpr ⟨_, hmem, rfl⟩)
      obtain ⟨j, o'⟩ := o'
      cases o' with
      | failed | stopped => exact hva
      | acknowledged => exact (Function.update_of_ne hne _ _).trans hva

/-- One round of the loop in `stopProcessShards`. -/
def addStop (m : ProcessManager n) (errorsByIndex : Fin n → Option RevokeError)
    (r : Fin n × Option String) : Fin n → Option RevokeError :=
  Function.update errorsByIndex r.1 (stopError m r.1 r.2)

theorem foldl_addStop_of_notMem {l : List (Fin n × Option String)} (h : i ∉ l.map Prod.fst) :
    l.foldl (addStop m) errs i = errs i := by
  induction l generalizing errs with
  | nil => rfl
  | cons r l ih =>
    rw [List.map_cons, List.mem_cons, not_or] at h
    rw [List.foldl_cons, ih h.2]
    exact Function.update_of_ne h.1 _ _

theorem foldl_addStop {l : List (Fin n × Option String)} {failure : Option String}
    (hno : (l.map Prod.fst).Nodup) (hmem : (i, failure) ∈ l) :
    l.foldl (addStop m) errs i = stopError m i failure := by
  induction l generalizing errs with
  | nil => cases hmem
  | cons r l ih =>
    rw [List.map_cons, List.nodup_cons] at hno
    rw [List.foldl_cons]
    rcases List.mem_cons.mp hmem with rfl | hmem
    · rw [foldl_addStop_of_notMem hno.1]
      exact Function.update_self _ _ _
    · exact ih hno.2 hmem

end RedevPlugin.Manager
