import RedevPlugin.ControlStore.Executions

/-! The event log of an execution over whole runs. For one execution a call does one of six
things: nothing, or it creates it, appends an event, requests its cancellation, finishes it or
prunes it. From these follow that the events are numbered from one to the cursor, that a terminal
event is the last one and is there just when the status is terminal, and that a reader has
received the first events up to its cursor, each one once. -/

namespace RedevPlugin.Executions

open Transition ControlStore
open EventRow (key sequence)
open List (map_cons range' append_nil)

variable {s t : Store} {id : String}

/-- The events of an execution, in the order in which they were stored. -/
def logOf (events : Rows key) (id : String) : List EventRow :=
  events.rows.filter (·.executionID = id)

/-! ### What a call does to an execution -/

def Event.row (event : Event) : EventRow :=
  ⟨event.executionID, event.sequence, event.kind, event.payload.getD "", event.error⟩

/-- The event that ends an execution without an owner. -/
def orphanEvent (value : Execution) : Event :=
  if value.status = .cancelRequested then
    ⟨value.id, value.cursor + 1, .terminal, some "\x7b\"status\":\"canceled\"\x7d", none⟩
  else
    ⟨value.id, value.cursor + 1, .terminal, some "\x7b\"status\":\"orphaned\"\x7d",
      some ⟨"platform_failed", "execution owner is unavailable after host restart"⟩⟩

/-- The events that a call adds to the log of an execution. -/
def added (s : Store) (id : String) : Call → Answer → List EventRow
  | .append event, .done => if event.executionID = id then [event.row] else []
  | .finish other _ _ event _, .done =>
    if other = id then [{ event with executionID := id }.row] else []
  | .reconcileOrphans _, .done =>
    match s.executions.find id with
    | some row => if row.pending then [(orphanEvent row.value).row] else []
    | none => []
  | _, _ => []

/-- What a call does to the execution with an id, and the events that it adds. -/
inductive Evolves (id : String) (s : Store) (call : Call) (t : Store) : List EventRow → Prop
  | same (hrow : t.executions.find id = s.executions.find id)
      (hlog : logOf t.events id = logOf s.events id) : Evolves id s call t []
  | created {row} (hold : s.executions.find id = none) (hrow : t.executions.find id = some row)
      (hstatus : row.value.status = .running) (hcursor : row.value.cursor = 0)
      (hlog : logOf t.events id = logOf s.events id) : Evolves id s call t []
  | appended {row row' e} (hold : s.executions.find id = some row)
      (hrow : t.executions.find id = some row') (hactive : terminalStatus row.value.status = false)
      (hstatus : row'.value.status = row.value.status)
      (hcursor : row'.value.cursor = row.value.cursor + 1)
      (hsequence : e.sequence = row.value.cursor + 1) (hkind : e.kind ≠ .terminal)
      (hlog : logOf t.events id = logOf s.events id ++ [e]) : Evolves id s call t [e]
  | cancelRequested {row row'} (now : Time) (hcall : call = .requestCancel id now)
      (hold : s.executions.find id = some row) (hrow : t.executions.find id = some row')
      (hrunning : row.value.status = .running) (hstatus : row'.value.status = .cancelRequested)
      (hcursor : row'.value.cursor = row.value.cursor)
      (hlog : logOf t.events id = logOf s.events id) : Evolves id s call t []
  | finished {row row' e} (hold : s.executions.find id = some row)
      (hrow : t.executions.find id = some row') (hactive : terminalStatus row.value.status = false)
      (hterminal : terminalStatus row'.value.status = true)
      (hcanceled : row'.value.status = .canceled → row.value.status = .cancelRequested)
      (hcursor : row'.value.cursor = row.value.cursor + 1)
      (hsequence : e.sequence = row.value.cursor + 1) (hkind : e.kind = .terminal)
      (hlog : logOf t.events id = logOf s.events id ++ [e]) : Evolves id s call t [e]
  | pruned {row} (req : PruneRequest) (hcall : call = .pruneTerminal req)
      (hold : s.executions.find id = some row) (hterminal : terminalStatus row.value.status = true)
      (hrow : t.executions.find id = none) (hlog : logOf t.events id = []) : Evolves id s call t []

/-- The execution and its events are as before. -/
def Untouched (id : String) (s t : Store) : Prop :=
  t.executions.find id = s.executions.find id ∧ logOf t.events id = logOf s.events id

variable {call : Call} {events : Rows key} {event : Event} {value e e' : Execution}
  {other failureCode : String} {f : Rows.Change ExecutionRow.id}
  {executions : Rows ExecutionRow.id} {row : ExecutionRow} {clock now : Time} {status : Status}
  {values : List Execution} {a : Answer} {u v : State} {log page more : List EventRow} {n : ℕ}
  {limit : ℤ}

/-- Only the row and the log of the execution matter. -/
theorem Evolves.congr {s' t'} (h : Evolves id s call t more) (hs : Untouched id s' s)
    (ht : Untouched id t t') : Evolves id s' call t' more := by
  obtain ⟨hfind, hlo⟩ := hs
  obtain ⟨hfind', hl'⟩ := ht
  cases h with
  | same hrow hlog => exact .same (hfind'.trans (hrow.trans hfind)) (hl'.trans (hlog.trans hlo))
  | created hold hrow hstatus hcursor hlog =>
    exact .created (hfind.symm.trans hold) (hfind'.trans hrow) hstatus hcursor
      (hl'.trans (hlog.trans hlo))
  | appended hold hrow hactive hstatus hcursor hsequence hkind hlog =>
    exact .appended (hfind.symm.trans hold) (hfind'.trans hrow) hactive hstatus hcursor hsequence
      hkind (hl'.trans (hlo ▸ hlog))
  | cancelRequested now hcall hold hrow hrunning hstatus hcursor hlog =>
    exact .cancelRequested now hcall (hfind.symm.trans hold) (hfind'.trans hrow) hrunning hstatus
      hcursor (hl'.trans (hlog.trans hlo))
  | finished hold hrow hactive hterminal hcanceled hcursor hsequence hkind hlog =>
    exact .finished (hfind.symm.trans hold) (hfind'.trans hrow) hactive hterminal hcanceled hcursor
      hsequence hkind (hl'.trans (hlo ▸ hlog))
  | pruned req hcall hold hterminal hrow hlog =>
    exact .pruned req hcall (hfind.symm.trans hold) hterminal (hfind'.trans hrow) (hl'.trans hlog)

theorem logOf_push {row h} (id : String) : logOf (events.push row h) id =
      if row.executionID = id then logOf events id ++ [row] else logOf events id := by
  rw [logOf, Rows.push, List.filter_append]
  split_ifs with hid <;> simp [logOf, hid]

theorem insertEvent_log {events'} (h : insertEvent events event = .ok events') :
    logOf events' event.executionID = logOf events event.executionID ++ [event.row] ∧
      ∀ id, event.executionID ≠ id → logOf events' id = logOf events id := by
  revert h
  fun_cases insertEvent events event <;> rintro ⟨⟩
  rename_i payload hpayload hin
  obtain ⟨hnone, rfl⟩ := Rows.insert_eq_some hin
  refine ⟨?_, fun id hne => (logOf_push id).trans (if_neg hne)⟩
  rw [logOf_push, if_pos rfl, Event.row, hpayload]
  rfl

theorem readExecution_ok (h : readExecution s id = .ok value) :
    ∃ row, s.executions.find id = some row ∧ row.value = value ∧ value.id = id := by
  revert h
  fun_cases readExecution s id <;> try rintro ⟨⟩
  rename_i row hrow
  fun_cases scanExecution row <;> rintro ⟨⟩
  exact ⟨row, hrow, rfl, show row.id = id from Rows.key_of_find hrow⟩

/-- A statement that names one execution leaves the others. -/
theorem find_update_other (h : other ≠ id) :
    (executions.update (·.id = other) f).find id = executions.find id := by
  rw [Rows.find_update]
  cases hfind : executions.find id with
  | none => rfl
  | some row =>
    have hne : row.id ≠ other := by
      rw [Rows.key_of_find hfind]
      exact h.symm
    simp [hne]

theorem find_update_self (h : executions.find id = some row) :
    (executions.update (·.id = id) f).find id = some (f.apply row) := by
  rw [Rows.find_update, h, Option.map_some, if_pos]
  exact decide_eq_true (Rows.key_of_find h)

theorem newEvent_ok {sequence kind payload} (h : newEvent value sequence kind payload = .ok event) :
    event = ⟨value.id, sequence, kind, payload, none⟩ := by
  unfold newEvent at h
  split_ifs at h
  cases h
  rfl

theorem push_ok (h : e.push event = .ok e') :
    terminalStatus e.status = false ∧ event.sequence = e.cursor + 1 ∧
      e' = { e with cursor := e.cursor + 1 } := by
  unfold Execution.push at h
  split_ifs at h with hterminal hbad
  simp only [not_or, ne_eq, not_not] at hbad
  cases h
  exact ⟨by simpa using hterminal, hbad.2.2, by rw [hbad.2.2]⟩

theorem finish_ok (h : e.finish status failureCode event clock now = .ok e') :
    terminalStatus e.status = false ∧ terminalStatus e'.status = true ∧
      (e'.status = .canceled → e.status = .cancelRequested) ∧ event.kind = .terminal ∧
      event.executionID = e.id ∧ event.sequence = e.cursor + 1 ∧ e'.cursor = e.cursor + 1 := by
  revert h
  fun_cases Execution.finish e status failureCode event clock now <;> rintro ⟨⟩
  rename_i hbad hcanceled _ pushed hpu
  simp only [not_or, ne_eq, not_not, not_and, Bool.not_eq_true, Bool.not_eq_false] at hbad hcanceled
  obtain ⟨-, -, rfl⟩ := push_ok hpu
  exact ⟨hbad.1, hbad.2.1, hcanceled, hbad.2.2.1, hbad.2.2.2.1, hbad.2.2.2.2, rfl⟩

theorem append_evolves (h : append s clock event = .ok t) (call : Call) (id : String) :
    Evolves id s call t (if event.executionID = id then [event.row] else []) := by
  revert h
  fun_cases append s clock event <;> rintro ⟨⟩
  rename_i value hre event' hnew validated value' hap events hin _
  obtain ⟨row, hrow, rfl, hid⟩ := readExecution_ok hre
  have hva : validated = event := by simp only [validated, newEvent_ok hnew, hid]
  rw [hva] at hin hap
  obtain ⟨hlog, hsame⟩ := insertEvent_log hin
  unfold Execution.append at hap
  split_ifs at hap with hkind
  obtain ⟨hactive, hsequence, rfl⟩ := push_ok hap
  rw [← hid] at hlog hsame hrow ⊢
  split_ifs with heq
  · subst heq
    exact .appended hrow (find_update_self hrow) hactive rfl rfl hsequence hkind hlog
  · exact .same (find_update_other heq) (hsame id heq)

theorem create_evolves {owner} (h : create s clock value owner = .ok t) (call : Call)
    (id : String) :
    Evolves id s call t [] := by
  revert h
  fun_cases create s clock value owner <;> rintro ⟨⟩
  rename_i hbad created hnew executions hin
  simp only [not_or, not_and, ne_eq, not_not] at hbad
  obtain ⟨hnone, rfl⟩ := Rows.insert_eq_some hin
  by_cases heq : id = (ExecutionRow.mk created owner).id <;>
    have hrow := Rows.find_push (h := hnone) id
  · rw [if_pos heq] at hrow
    unfold Execution.new at hnew
    dsimp only at hnew
    split at hnew <;> cases hnew
    refine .created (heq ▸ hnone) hrow ?_ hbad.2.1 rfl
    change (if value.status = .other "" then Status.running else value.status) = .running
    split_ifs with hem
    · rfl
    · exact hbad.1 hem
  · rw [if_neg heq] at hrow
    exact .same hrow rfl

theorem requestCancel_evolves (h : requestCancel s clock other now = .ok t) (id : String) :
    Evolves id s (.requestCancel other now) t [] := by
  revert h
  fun_cases requestCancel s clock other now <;> rintro ⟨⟩
  rename_i value hre value' hca _
  obtain ⟨row, hrow, rfl, -⟩ := readExecution_ok hre
  unfold Execution.requestCancel at hca
  split_ifs at hca with hrunning hcan
  cases hca
  by_cases heq : other = id
  · subst heq
    exact .cancelRequested now rfl hrow (find_update_self hrow) (not_not.mp hrunning) rfl rfl rfl
  · exact .same (find_update_other heq) rfl

theorem writeFinished_evolves (hrow : s.executions.find value.id = some row)
    (hva : row.value = value)
    (h : writeFinished s clock value status failureCode event now = .ok t) (call : Call) :
    Evolves value.id s call t [event.row] ∧ ∀ id, value.id ≠ id → Untouched id s t := by
  revert h
  fun_cases writeFinished s clock value status failureCode event now <;> rintro ⟨⟩
  rename_i finished hfi events hin _
  obtain ⟨hactive, hterminal, hcanceled, hkind, hex, hsequence, hcursor⟩ := finish_ok hfi
  obtain ⟨hlog, hsame⟩ := insertEvent_log hin
  rw [hex] at hlog hsame
  subst hva
  exact ⟨.finished hrow (find_update_self hrow) hactive hterminal hcanceled hcursor hsequence hkind
    hlog, fun id hne => ⟨find_update_other hne, hsame id hne⟩⟩

theorem finish_evolves (h : finish s clock other status failureCode event now = .ok t)
    (call : Call) (id : String) :
    Evolves id s call t (if other = id then [{ event with executionID := id }.row] else []) := by
  revert h
  fun_cases finish s clock other status failureCode event now <;> intro h <;> try cases h
  rename_i value hre validated hnew
  obtain ⟨row, hrow, hva, rfl⟩ := readExecution_ok hre
  rw [newEvent_ok hnew] at h
  obtain ⟨hfi, hun⟩ := writeFinished_evolves hrow hva h call
  split_ifs with heq
  · subst heq
    exact hfi
  · exact .same (hun id heq).1 (hun id heq).2

theorem reconcileOrphan_evolves (hrow : s.executions.find value.id = some row)
    (hva : row.value = value) (h : reconcileOrphan s now value = .ok t) (call : Call) :
    Evolves value.id s call t [(orphanEvent value).row] ∧
      ∀ id, value.id ≠ id → Untouched id s t := by
  simp only [reconcileOrphan] at h
  split at h
  · cases h
  rename_i event hnew
  have hev := writeFinished_evolves hrow hva h call
  rw [newEvent_ok hnew] at hev
  unfold orphanEvent
  split_ifs at hev ⊢ <;> simp_all [statusText]

/-- The loop finishes each of its executions once and leaves the others. -/
theorem reconcileRows_evolves (hno : (values.map Execution.id).Nodup)
    (hro : ∀ value ∈ values, ∃ row, s.executions.find value.id = some row ∧ row.value = value)
    (h : reconcileRows now values s = .ok t) (call : Call) :
    (∀ value ∈ values, Evolves value.id s call t [(orphanEvent value).row]) ∧
      ∀ id, id ∉ values.map Execution.id → Untouched id s t := by
  induction values generalizing s with
  | nil =>
    cases h
    exact ⟨by simp, fun _ _ => ⟨rfl, rfl⟩⟩
  | cons value values ih =>
    rw [map_cons, List.nodup_cons] at hno
    rw [List.forall_mem_cons] at hro
    obtain ⟨⟨row, hrow, hva⟩, hre⟩ := hro
    unfold reconcileRows at h
    split at h
    · cases h
    rename_i u hfi
    obtain ⟨hstep, hfi⟩ := reconcileOrphan_evolves hrow hva hfi call
    have hne : ∀ v ∈ values, value.id ≠ v.id := fun v hv heq =>
      hno.1 (heq ▸ List.mem_map_of_mem hv)
    have hr' : ∀ v ∈ values, ∃ row, u.executions.find v.id = some row ∧ row.value = v := by
      intro v hv
      rw [(hfi v.id (hne v hv)).1]
      exact hre v hv
    obtain ⟨hev, hun⟩ := ih hno.2 hr' h
    rw [List.forall_mem_cons]
    refine ⟨⟨hstep.congr ⟨rfl, rfl⟩ (hun _ hno.1), fun v hv =>
      (hev v hv).congr (hfi v.id (hne v hv)) ⟨rfl, rfl⟩⟩, fun id hnot => ?_⟩
    rw [map_cons, List.mem_cons, not_or] at hnot
    obtain ⟨hfind, hlog⟩ := hun id hnot.2
    obtain ⟨hfind', hlog'⟩ := hfi id (Ne.symm hnot.1)
    exact ⟨hfind.trans hfind', hlog.trans hlog'⟩

theorem scanRows_ok {rows} (h : scanRows rows = .ok values) :
    values = rows.map ExecutionRow.value := by
  revert h
  fun_induction scanRows rows generalizing values <;> rintro ⟨⟩
  · rfl
  · rename_i row _ _ hsc _ hre ih
    revert hsc
    fun_cases scanExecution row <;> rintro ⟨⟩
    rw [ih hre, map_cons]

theorem reconcileOrphans_evolves (h : reconcileOrphans s clock now = .ok t) (id : String) :
    Evolves id s (.reconcileOrphans now) t (added s id (.reconcileOrphans now) .done) := by
  unfold reconcileOrphans at h
  split_ifs at h
  split at h
  · cases h
  rename_i values hsc
  have hpe := List.perm_insertionSort createdBefore (s.executions.rows.filter ExecutionRow.pending)
  rw [scanRows_ok hsc] at h
  have hmem : ∀ row, row ∈ (s.executions.rows.filter ExecutionRow.pending).insertionSort
      createdBefore ↔ s.executions.find row.id = some row ∧ row.pending = true := by
    intro row
    rw [hpe.mem_iff, List.mem_filter, Rows.find_eq_some]
    simp
  have hno : ((s.executions.rows.filter ExecutionRow.pending).map ExecutionRow.id).Nodup :=
    s.executions.nodup.sublist (List.filter_sublist.map _)
  obtain ⟨hev, hun⟩ := reconcileRows_evolves
    (by rw [List.map_map]; exact (hpe.map _).nodup_iff.mpr hno)
    (List.forall_mem_map.mpr fun row hrow => ⟨row, ((hmem row).mp hrow).1, rfl⟩) h
    (.reconcileOrphans now)
  have hnot (h : ∀ row, s.executions.find id = some row → row.pending = false) :
      Evolves id s (.reconcileOrphans now) t [] := by
    obtain ⟨hfind, hlog⟩ := hun id (by
      simp only [List.map_map, List.mem_map, hmem]
      rintro ⟨row, ⟨hrow, hpending⟩, rfl⟩
      exact absurd hpending (by simp [h row hrow]))
    exact .same hfind hlog
  simp only [added]
  cases hrow : s.executions.find id with
  | none => exact hnot (by simp [hrow])
  | some row =>
    dsimp only
    split_ifs with hpending
    · obtain rfl : row.id = id := Rows.key_of_find hrow
      exact hev row.value (List.mem_map_of_mem ((hmem row).mpr ⟨hrow, hpending⟩))
    · exact hnot (by simpa [hrow] using hpending)

theorem foldl_deleteExecution (ids : List String) (s : Store) (id : String) :
    (ids.foldl deleteExecution s).executions.find id =
        (if id ∈ ids then none else s.executions.find id) ∧
      logOf (ids.foldl deleteExecution s).events id =
        if id ∈ ids then [] else logOf s.events id := by
  induction ids generalizing s with
  | nil => simp
  | cons other ids ih =>
    obtain ⟨hfind, hlog⟩ := ih (deleteExecution s other)
    rw [List.foldl_cons, hfind, hlog]
    have hde : (deleteExecution s other).executions.find id =
        if id = other then none else s.executions.find id := by
      change (s.executions.delete _).find id = _
      rw [Rows.find_delete]
      cases hrow : s.executions.find id with
      | none => simp
      | some row =>
        rw [Option.filter_some, Rows.key_of_find hrow]
        split_ifs <;> simp_all
    have hev : logOf (deleteExecution s other).events id =
        if id = other then [] else logOf s.events id := by
      change ((s.events.rows.filter _).filter _) = _
      rw [List.filter_filter]
      split_ifs with heq
      · subst heq
        simp
      · refine List.filter_congr fun row _ => ?_
        by_cases hrow : row.executionID = id
        · simp [hrow, heq]
        · simp [hrow]
    rw [hde, hev]
    by_cases hmem : id ∈ ids <;> by_cases heq : id = other <;> simp [hmem, heq]

theorem pruneTerminal_evolves {req} (h : pruneTerminal s req = .ok t) (id : String) :
    Evolves id s (.pruneTerminal req) t [] := by
  unfold pruneTerminal at h
  split_ifs at h
  cases h
  obtain ⟨hfind, hlog⟩ := foldl_deleteExecution ((((prunable s.executions.rows req).insertionSort
    endedBefore).take req.limit.toNat).map Prod.snd) s id
  split_ifs at hfind hlog with hmem
  · obtain ⟨⟨at_, other⟩, hpa, rfl⟩ := List.mem_map.mp hmem
    have hpr := (List.perm_insertionSort endedBefore (prunable s.executions.rows req)).mem_iff.mp
      (List.mem_of_mem_take hpa)
    obtain ⟨row, hrow, hso⟩ := List.mem_filterMap.mp hpr
    split at hso
    · cases hso
    rename_i ended hended
    split_ifs at hso
    cases hso
    unfold ExecutionRow.prunableAt at hended
    split_ifs at hended with hterminal
    exact .pruned req rfl (Rows.find_eq_some.mpr ⟨hrow, rfl⟩) hterminal hfind hlog
  · exact .same hfind hlog

/-- The reader is moved by its own calls only. -/
theorem perform_evolves (h : perform u (call, clock) = some (a, v)) (id : String) :
    Evolves id u.store call v.store (added u.store id call a) ∧
      (v.reader = u.reader ∨ (∃ other, call = .follow other) ∨
        ∃ limit page, call = .poll limit ∧ a = .page page) := by
  have han : ∀ {r : Except ExecutionError Store}, some (answer u r) = some (a, v) →
      (∀ t, r = .ok t → Evolves id u.store call t (added u.store id call .done)) →
      Evolves id u.store call v.store (added u.store id call a) ∧
        (v.reader = u.reader ∨ (∃ other, call = .follow other) ∨
          ∃ limit page, call = .poll limit ∧ a = .page page) := by
    intro r hr hok
    cases r with cases hr
    | error e =>
      have hno : added u.store id call (.failed e) = [] := by cases call <;> rfl
      exact ⟨hno ▸ .same rfl rfl, .inl rfl⟩
    | ok t => exact ⟨hok t rfl, .inl rfl⟩
  cases call with
  | create => exact han h fun t ht => create_evolves ht _ id
  | append => exact han h fun t ht => append_evolves ht _ id
  | requestCancel => exact han h fun t ht => requestCancel_evolves ht id
  | finish => exact han h fun t ht => finish_evolves ht _ id
  | reconcileOrphans => exact han h fun t ht => reconcileOrphans_evolves ht id
  | pruneTerminal => exact han h fun t ht => pruneTerminal_evolves ht id
  | follow other =>
    cases h
    exact ⟨.same rfl rfl, .inr (.inl ⟨other, rfl⟩)⟩
  | poll limit =>
    simp only [perform] at h
    split at h
    · cases h
      exact ⟨.same rfl rfl, .inl rfl⟩
    · cases h
      exact ⟨.same rfl rfl, .inr (.inr ⟨limit, _, rfl, rfl⟩)⟩
  | setReady | fault =>
    cases h
    exact ⟨.same rfl rfl, .inl rfl⟩

/-! ### The log of an execution -/

/-- The events are numbered from one to the cursor; a terminal event is the last one, and is
there just when the status is terminal. -/
structure Logged (value : Execution) (log : List EventRow) : Prop where
  numbered : log.map sequence = range' 1 value.cursor
  open_of : terminalStatus value.status = false → ∀ e ∈ log, e.kind ≠ .terminal
  closed_of : terminalStatus value.status = true →
    ∃ first final, log = first ++ [final] ∧ final.kind = .terminal ∧ ∀ e ∈ first, e.kind ≠ .terminal

/-- The log of every id is that of its execution, or empty. -/
def Consistent (s : Store) : Prop :=
  ∀ id, match s.executions.find id with
    | none => logOf s.events id = []
    | some row => Logged row.value (logOf s.events id)

theorem Consistent.log_of_none (hs : Consistent s) (h : s.executions.find id = none) :
    logOf s.events id = [] := by
  have := hs id
  rwa [h] at this

theorem Consistent.logged (hs : Consistent s) (h : s.executions.find id = some row) :
    Logged row.value (logOf s.events id) := by
  have := hs id
  rwa [h] at this

theorem Logged.snoc {value' : Execution} {e : EventRow} (h : Logged value log)
    (hcursor : value'.cursor = value.cursor + 1) (hsequence : e.sequence = value.cursor + 1) :
    (log ++ [e]).map sequence = range' 1 value'.cursor := by
  rw [List.map_append, h.numbered, hcursor, List.range'_concat, List.map_singleton, hsequence]
  congr 2
  omega

theorem Evolves.consistent (h : ∀ id, ∃ more, Evolves id s call t more) (hs : Consistent s) :
    Consistent t := by
  intro id
  obtain ⟨more, h⟩ := h id
  cases h with
  | same hrow hlog =>
    rw [hrow, hlog]
    exact hs id
  | created hold hrow hstatus hcursor hlog =>
    rw [hrow, hlog, hs.log_of_none hold]
    refine ⟨by rw [hcursor]; rfl, fun _ => by simp, fun hterminal => ?_⟩
    rw [hstatus] at hterminal
    cases hterminal
  | appended hold hrow hactive hstatus hcursor hsequence hkind hlog =>
    have hlo := hs.logged hold
    rw [hrow, hlog]
    refine ⟨hlo.snoc hcursor hsequence, fun _ e he => ?_, fun hterminal => ?_⟩
    · rcases List.mem_append.mp he with he | he
      · exact hlo.open_of hactive e he
      · rw [List.mem_singleton.mp he]
        exact hkind
    · rw [hstatus, hactive] at hterminal
      cases hterminal
  | cancelRequested _ _ hold hrow hrunning hstatus hcursor hlog =>
    have hlo := hs.logged hold
    rw [hrow, hlog]
    refine ⟨hcursor ▸ hlo.numbered, fun _ => hlo.open_of (by rw [hrunning]; rfl),
      fun hterminal => ?_⟩
    rw [hstatus] at hterminal
    cases hterminal
  | @finished _ _ e hold hrow hactive hterminal _ hcursor hsequence hkind hlog =>
    have hlo := hs.logged hold
    rw [hrow, hlog]
    refine ⟨hlo.snoc hcursor hsequence, fun hopen => ?_, fun _ =>
      ⟨logOf s.events id, e, rfl, hkind, hlo.open_of hactive⟩⟩
    rw [hterminal] at hopen
    cases hopen
  | pruned _ _ _ _ hrow hlog =>
    rw [hrow]
    exact hlog

/-! ### A reader -/

/-- The event at a place of a log is numbered by it. -/
theorem sequence_eq (h : log.map sequence = range' 1 n) {i e} (he : log[i]? = some e) :
    e.sequence = i + 1 := by
  have hle : log.length = n := by simpa using congrArg List.length h
  have hi : i < n := hle ▸ (List.getElem?_eq_some_iff.mp he).1
  have hmap : (log.map sequence)[i]? = (range' 1 n)[i]? := by rw [h]
  rw [List.getElem?_map, he, List.getElem?_range' hi] at hmap
  simp only [Option.map_some, Option.some.injEq] at hmap
  omega

theorem filter_after (h : log.map sequence = range' 1 n) (cursor : ℕ) :
    log.filter (fun e => cursor < e.sequence) = log.drop cursor := by
  have hb : (log.take cursor).filter (fun e => cursor < e.sequence) = [] := by
    rw [List.filter_eq_nil_iff]
    intro e he
    obtain ⟨i, hi⟩ := List.mem_iff_getElem?.mp he
    rw [List.getElem?_take] at hi
    split_ifs at hi with hlt
    have := sequence_eq h hi
    simp only [decide_eq_true_eq]
    omega
  have haf : (log.drop cursor).filter (fun e => cursor < e.sequence) = log.drop cursor := by
    rw [List.filter_eq_self]
    intro e he
    obtain ⟨i, hi⟩ := List.mem_iff_getElem?.mp he
    rw [List.getElem?_drop] at hi
    have := sequence_eq h hi
    simp only [decide_eq_true_eq]
    omega
  conv_lhs => rw [← List.take_append_drop cursor log]
  rw [List.filter_append, hb, haf, List.nil_append]

theorem Consistent.numbered (hs : Consistent s) (id : String) :
    ∃ n, (logOf s.events id).map sequence = range' 1 n := by
  cases h : s.executions.find id with
  | none => exact ⟨0, by rw [hs.log_of_none h]; rfl⟩
  | some row => exact ⟨row.value.cursor, (hs.logged h).numbered⟩

/-- A page is the next part of the log. -/
theorem eventsAfter_eq (hs : Consistent s) {cursor} (h : eventsAfter s id cursor limit = .ok page) :
    page = ((logOf s.events id).drop cursor).take (pageLimit limit) := by
  unfold eventsAfter at h
  split_ifs at h
  cases h
  obtain ⟨n, hn⟩ := hs.numbered id
  have hfi : (s.events.rows.filter fun row => row.executionID = id && cursor < row.sequence) =
      (logOf s.events id).drop cursor := by
    rw [← filter_after hn, logOf, List.filter_filter]
    refine List.filter_congr fun row _ => ?_
    rw [Bool.and_comm]
  have hso : ((logOf s.events id).drop cursor).Pairwise sequenceBefore := by
    have hall : (logOf s.events id).Pairwise sequenceBefore := by
      have hra := List.pairwise_le_range' (s := 1) (n := n) 1
      rw [← hn, List.pairwise_map] at hra
      exact hra
    exact hall.sublist (List.drop_sublist _ _)
  rw [hfi, hso.insertionSort_eq]

/-- The reader has received the first events of an execution, up to its cursor. -/
structure Reading (id : String) (u : State) : Prop where
  follows : u.reader.id = id
  reach : u.reader.cursor ≤ (logOf u.store.events id).length
  received : u.reader.received = (logOf u.store.events id).take u.reader.cursor

theorem receive_page (h : log.map sequence = range' 1 n) {r : Reader} {k : ℕ} :
    (r.receive ((log.drop r.cursor).take k)).cursor =
      r.cursor + ((log.drop r.cursor).take k).length := by
  have hla : ((log.drop r.cursor).take k).getLast? =
      ((log.drop r.cursor).take k)[((log.drop r.cursor).take k).length - 1]? :=
    List.getLast?_eq_getElem?
  cases hpa : ((log.drop r.cursor).take k).getLast? with
  | none =>
    rw [List.getLast?_eq_none_iff] at hpa
    simp [Reader.receive, hpa]
  | some e =>
    have hne : ((log.drop r.cursor).take k).length ≠ 0 := by
      intro hz
      rw [List.length_eq_zero_iff] at hz
      rw [hz] at hpa
      cases hpa
    rw [hpa, List.getElem?_take] at hla
    split_ifs at hla
    rw [List.getElem?_drop] at hla
    have := sequence_eq h hla.symm
    simp only [Reader.receive, hpa, Option.map_some, Option.getD_some]
    omega

theorem Reading.poll (hu : Consistent u.store) (hrea : Reading id u)
    (h : perform u (.poll limit, clock) = some (.page page, v)) :
    Reading id v ∧
      (page.length < pageLimit limit → v.reader.received = logOf v.store.events id) := by
  simp only [perform] at h
  split at h
  · cases h
  rename_i page' hpa
  cases h
  rw [hrea.follows] at hpa
  obtain ⟨n, hn⟩ := hu.numbered id
  have hpa := eventsAfter_eq hu hpa
  have hre := hrea.reach
  have hcursor := receive_page hn (r := u.reader) (k := pageLimit limit)
  have hrec : (u.reader.receive page).received =
      (logOf u.store.events id).take (u.reader.cursor + page.length) := by
    rw [hpa]
    simp only [Reader.receive, hrea.received, List.length_take, List.take_add]
    rw [← List.take_eq_take_min]
  rw [← hpa] at hcursor
  have hle : page.length = min (pageLimit limit)
      ((logOf u.store.events id).length - u.reader.cursor) := by
    rw [hpa, List.length_take, List.length_drop]
  refine ⟨⟨hrea.follows, ?_, ?_⟩, fun hsh => ?_⟩
  · change (u.reader.receive page).cursor ≤ (logOf u.store.events id).length
    omega
  · change (u.reader.receive page).received =
      (logOf u.store.events id).take (u.reader.receive page).cursor
    rw [hcursor, hrec]
  · change (u.reader.receive page).received = logOf u.store.events id
    rw [hrec]
    exact List.take_of_length_le (by omega)

/-- The log grows by the events that are added, unless the execution is pruned. -/
theorem Evolves.log_eq (h : Evolves id s call t more)
    (hk : ∀ req, call = .pruneTerminal req → s.executions.find id ≠ none →
      t.executions.find id ≠ none) :
    logOf t.events id = logOf s.events id ++ more := by
  cases h with
  | same _ hlog | created _ _ _ _ hlog => rw [hlog, append_nil]
  | cancelRequested _ _ _ _ _ _ _ hlog => rw [hlog, append_nil]
  | appended _ _ _ _ _ _ _ hlog | finished _ _ _ _ _ _ _ _ hlog => exact hlog
  | pruned req hcall hold _ hrow => exact absurd hrow (hk req hcall (by rw [hold]; simp))

theorem Reading.step (hu : Consistent u.store) (hread : Reading id u)
    (h : perform u (call, clock) = some (a, v)) (hno : ∀ other, call ≠ .follow other)
    (hk : u.store.executions.find id ≠ none → v.store.executions.find id ≠ none) :
    Reading id v := by
  obtain ⟨hev, hrea | ⟨other, hfo⟩ | ⟨limit, page, rfl, rfl⟩⟩ := perform_evolves h id
  · have hlog := hev.log_eq fun _ _ => hk
    have hre := hread.reach
    refine ⟨hrea ▸ hread.follows, ?_, ?_⟩
    · rw [hrea, hlog, List.length_append]
      omega
    · rw [hrea, hlog, hread.received, List.take_append_of_le_length hre]
  · exact absurd hfo (hno other)
  · exact (hread.poll hu h).1

/-! ### Runs -/

abbrev Label := (Call × Time) × Answer

def Fresh (u : State) : Prop := u.store.executions = Rows.empty ∧ u.store.events = Rows.empty

theorem Fresh.consistent (h : Fresh u) : Consistent u.store := by
  intro id
  rw [h.1, h.2]
  rfl

theorem Consistent.step {l} (hu : Consistent u.store) (h : system.step u l v) :
    Consistent v.store := by
  exact Evolves.consistent (fun id => ⟨_, (perform_evolves h id).1⟩) hu

variable {tr : List (Label × State)}

theorem run_consistent (hu : Consistent u.store) (hr : system.Run u tr) :
    ∀ v ∈ states u tr, Consistent v.store :=
  hr.forall_states (C := fun _ _ _ => True) (I := fun v => Consistent v.store)
    (fun _ _ _ _ hs _ h => hs.step h) hu (guarded_true [] u tr)

/-- As long as the execution is not pruned, the reader that follows it has received its first
events. -/
theorem run_reading (hu : Consistent u.store) (hre : Reading id u) (hr : system.Run u tr)
    (hno : ∀ l ∈ labels tr, ∀ other, l.1.1 ≠ .follow other)
    (hk : ∀ x ∈ steps u tr,
      x.1.store.executions.find id ≠ none → x.2.2.store.executions.find id ≠ none) :
    Reading id (last u tr) := by
  induction tr generalizing u with
  | nil => exact hre
  | cons x tr ih =>
    rw [labels_cons, List.forall_mem_cons] at hno
    rw [steps, List.forall_mem_cons] at hk
    exact ih (hu.step hr.1) (hre.step hu hr.1 hno.1 hk.1) hr.2 hno.2 hk.2

/-- A terminal execution stays as it is or is pruned with its events. -/
theorem Evolves.of_terminal (h : Evolves id s call t more) (hrow : s.executions.find id = some row)
    (hterminal : terminalStatus row.value.status = true) :
    (t.executions.find id = some row ∧ logOf t.events id = logOf s.events id) ∨
      ∃ req, call = .pruneTerminal req ∧ t.executions.find id = none ∧ logOf t.events id = [] := by
  have hactive : ∀ {row' : ExecutionRow}, s.executions.find id = some row' →
      terminalStatus row'.value.status ≠ false := by
    intro row' hold hfa
    cases hrow.symm.trans hold
    simp [hterminal] at hfa
  cases h with
  | same hsame hlog => exact .inl ⟨hsame.trans hrow, hlog⟩
  | created hold => cases hrow.symm.trans hold
  | appended hold _ hfa | finished hold _ hfa => exact absurd hfa (hactive hold)
  | cancelRequested _ _ hold _ hrunning =>
    exact absurd (by rw [hrunning]; rfl) (hactive hold)
  | pruned req hcall _ _ hnone hlog => exact .inr ⟨req, hcall, hnone, hlog⟩

/-- Cancellation comes after a request for it. -/
theorem Evolves.of_canceled (h : Evolves id s call t more) {row'}
    (hrow' : t.executions.find id = some row') :
    (row'.value.status = .canceled → ∃ row, s.executions.find id = some row ∧
      (row.value.status = .canceled ∨ row.value.status = .cancelRequested)) ∧
    (row'.value.status = .cancelRequested → ∃ row, s.executions.find id = some row ∧
      (row.value.status = .cancelRequested ∨
        (row.value.status = .running ∧ ∃ now, call = .requestCancel id now))) := by
  cases h with
  | same hsame =>
    rw [hsame] at hrow'
    exact ⟨fun h => ⟨row', hrow', .inl h⟩, fun h => ⟨row', hrow', .inl h⟩⟩
  | created _ hrow hstatus =>
    cases hrow.symm.trans hrow'
    rw [hstatus]
    simp
  | appended hold hrow _ hstatus =>
    cases hrow.symm.trans hrow'
    rw [hstatus]
    exact ⟨fun h => ⟨_, hold, .inl h⟩, fun h => ⟨_, hold, .inl h⟩⟩
  | cancelRequested now hcall hold hrow hrunning hstatus =>
    cases hrow.symm.trans hrow'
    exact ⟨fun h => (by simp [hstatus] at h), fun _ => ⟨_, hold, .inr ⟨hrunning, now, hcall⟩⟩⟩
  | finished hold hrow _ hterminal hcanceled =>
    cases hrow.symm.trans hrow'
    refine ⟨fun h => ⟨_, hold, .inr (hcanceled h)⟩, fun h => ?_⟩
    rw [h] at hterminal
    cases hterminal
  | pruned _ _ _ _ hrow => cases hrow.symm.trans hrow'

/-- In every run from an empty store the events of an execution have the numbers from one to its
cursor, and a terminal event just when its status is terminal, exactly one and as the last; a call
that does not prune adds just its event to the log; a terminal execution stays as it is until it
is pruned with its events; it is canceled only after a request; and a reader that follows an
execution has received its first events in order, all of them after a page that is not full, as
long as the execution is not pruned. -/
theorem event_log_complete {u : State} {tr : List (Label × State)} (hu : Fresh u)
    (hr : system.Run u tr) :
    (∀ v ∈ states u tr, ∀ id, (v.store.executions.find id = none → logOf v.store.events id = []) ∧
      ∀ row, v.store.executions.find id = some row →
        (logOf v.store.events id).map sequence = range' 1 row.value.cursor ∧
        ((∃ e ∈ logOf v.store.events id, e.kind = .terminal) ↔
          terminalStatus row.value.status = true) ∧
        (terminalStatus row.value.status = true → ∃ first final,
          logOf v.store.events id = first ++ [final] ∧ final.kind = .terminal ∧
            ∀ e ∈ first, e.kind ≠ .terminal)) ∧
    (∀ x ∈ steps u tr, (∀ req, x.2.1.1.1 ≠ .pruneTerminal req) → ∀ id,
      logOf x.2.2.store.events id =
        logOf x.1.store.events id ++ added x.1.store id x.2.1.1.1 x.2.1.2) ∧
    (∀ x ∈ steps u tr, ∀ id row, x.1.store.executions.find id = some row →
      terminalStatus row.value.status = true →
      (x.2.2.store.executions.find id = some row ∧
        logOf x.2.2.store.events id = logOf x.1.store.events id) ∨
      ∃ req, x.2.1.1.1 = .pruneTerminal req ∧ x.2.2.store.executions.find id = none ∧
        logOf x.2.2.store.events id = []) ∧
    (∀ x ∈ steps u tr, ∀ id row', x.2.2.store.executions.find id = some row' →
      (row'.value.status = .canceled → ∃ row, x.1.store.executions.find id = some row ∧
        (row.value.status = .canceled ∨ row.value.status = .cancelRequested)) ∧
      (row'.value.status = .cancelRequested → ∃ row, x.1.store.executions.find id = some row ∧
        (row.value.status = .cancelRequested ∨
          (row.value.status = .running ∧ ∃ now, x.2.1.1.1 = .requestCancel id now)))) ∧
    ∀ a id clock ans t₀ b c, tr = a ++ (((.follow id, clock), ans), t₀) :: (b ++ c) →
      (∀ l ∈ labels b, ∀ other, l.1.1 ≠ .follow other) →
      (∀ x ∈ steps t₀ b,
        x.1.store.executions.find id ≠ none → x.2.2.store.executions.find id ≠ none) →
      Reading id (last t₀ b) ∧
        ∀ b' limit clock' page v, b = b' ++ [(((.poll limit, clock'), .page page), v)] →
          page.length < pageLimit limit → v.reader.received = logOf v.store.events id := by
  have hconsistent := run_consistent hu.consistent hr
  have hsteps := hr.forall_steps (I := fun _ => True)
    (P := fun v l w => ∀ id, Evolves id v.store l.1.1 w.store (added v.store id l.1.1 l.2))
    (fun v l w _ h id => (perform_evolves h id).1) (fun _ _ => trivial)
  refine ⟨fun v hv id => ⟨(hconsistent v hv).log_of_none, fun row hrow => ?_⟩,
    fun x hx hno id => (hsteps x hx id).log_eq fun req h => absurd h (hno req),
    fun x hx id row hrow hterminal => (hsteps x hx id).of_terminal hrow hterminal,
    fun x hx id row' hrow' => (hsteps x hx id).of_canceled hrow',
    fun a id clock ans t₀ b c htr hno hkeep => ?_⟩
  · have hlogged := (hconsistent v hv).logged hrow
    refine ⟨hlogged.numbered, ⟨?_, fun hterminal => ?_⟩, hlogged.closed_of⟩
    · rintro ⟨e, he, hkind⟩
      by_contra hopen
      exact hlogged.open_of (by simpa using hopen) e he hkind
    · obtain ⟨first, final, hlog, hkind, -⟩ := hlogged.closed_of hterminal
      exact ⟨final, by simp [hlog], hkind⟩
  · subst htr
    obtain ⟨ha, hfollow, hbc⟩ := (system.run_append u a _).mp hr
    have hb := ((system.run_append t₀ b c).mp hbc).1
    have hstart := (run_consistent hu.consistent ha _ (last_mem_states u a)).step hfollow
    have hreading : Reading id t₀ := by
      cases hfollow
      exact ⟨rfl, Nat.zero_le _, rfl⟩
    refine ⟨run_reading hstart hreading hb hno hkeep, fun b' limit clock' page v hlast hshort => ?_⟩
    subst hlast
    obtain ⟨hb', hpoll, -⟩ := (system.run_append t₀ b' _).mp hb
    rw [labels_append, List.forall_mem_append] at hno
    have hbefore := run_reading hstart hreading hb' hno.1 fun x hx => hkeep x (by
      rw [steps_append]
      exact List.mem_append_left _ hx)
    have hthere := run_consistent hstart hb' _ (last_mem_states t₀ b')
    exact (hbefore.poll hthere hpoll).2 hshort

def sampleExecution : Execution := ⟨"x", "p", .operation, .running, 0, "", true, 1, 1, none, none⟩

def sampleEvent (sequence : ℕ) (kind : EventKind) : Event :=
  ⟨"x", sequence, kind, some "\x7b\x7d", none⟩

def sampleState : State := ⟨⟨true, Rows.empty, Rows.empty⟩, ⟨"", 0, []⟩⟩

def sampleRun (calls : List Call) : List (Label × State) :=
  trace perform sampleState (calls.map (·, 7))

/-- An execution is canceled while a reader follows it. -/
theorem event_log_complete_canceled :
    let tr := sampleRun [.create sampleExecution ⟨"s", "u", "e", "c"⟩, .follow "x",
      .append (sampleEvent 1 .progress), .append (sampleEvent 2 .data), .poll 1,
      .requestCancel "x" 5, .finish "x" .canceled "" (sampleEvent 3 .terminal) 6, .poll 1, .poll 5]
    (last sampleState tr).reader.received.map sequence = [1, 2, 3] ∧
      ∀ v ∈ states sampleState tr, ∀ row, v.store.executions.find "x" = some row →
        (logOf v.store.events "x").map sequence = range' 1 row.value.cursor :=
  ⟨by decide, fun v hv row hrow =>
    (((event_log_complete ⟨rfl, rfl⟩ (System.run_trace _ perform _ _)).1 v hv "x").2 row hrow).1⟩

/-- The execution is pruned when the reader has had the first of its three events; the next page
is empty. -/
theorem pruned_before_read :
    let tr := sampleRun [.create sampleExecution ⟨"s", "u", "e", "c"⟩, .follow "x",
      .append (sampleEvent 1 .progress), .append (sampleEvent 2 .data), .requestCancel "x" 5,
      .finish "x" .canceled "" (sampleEvent 3 .terminal) 6, .poll 1, .pruneTerminal ⟨8, 1, 1⟩,
      .poll 5]
    system.Run sampleState tr ∧
      (∃ v ∈ states sampleState tr, (logOf v.store.events "x").map sequence = [1, 2, 3]) ∧
      (labels tr).getLast? = some ((.poll 5, 7), .page []) ∧
      (last sampleState tr).reader.received.map sequence = [1] :=
  ⟨System.run_trace _ perform _ _, by decide, by decide, by decide⟩

end RedevPlugin.Executions
