import RedevPlugin.Session.FenceLedger

/-! The three stores on the same requests. They check in different orders, one of them
compares times, and two of them turn times into nanoseconds or texts; so they agree where
the times of the requests fit in an `int64` of nanoseconds and do not run back behind the
creation of a fence, and where at most one check fails before the store is read. The rows
of SQLite do not carry the phases of a record. -/

namespace RedevPlugin.Session

open Transition
open Option (map map_some)

variable {P σ τ : Type}

/-! ### Timely requests -/

/-- What is accumulated passes its own checks. -/
def Operation.sound : Operation P → Bool
  | .accumulate _ delta _ => delta.valid
  | .accumulatePhase _ phase delta _ => phase.valid && delta.valid
  | _ => true

/-- A time that is its own `UnixNano`. -/
def Fits (t : ℤ) : Prop := -2 ^ 63 ≤ t ∧ t < 2 ^ 63

/-- The condition under which the stores agree. -/
structure Timely (s : Memory.Store P) (q : Request P) : Prop where
  fits : ∀ now, q.op.now = some now → Fits (normalizedStoreTime q.clock now)
  ordered : ∀ now r, q.op.now = some now → s.records.lookup q.op.scope = some r →
    r.createdAt ≤ normalizedStoreTime q.clock now
  clear : q.op.sound = true ∨ validateStoreCall q.canceled q.op.scope = .ok ()

variable {t : ℤ} {s : σ} {R : σ → τ → Prop} {f : Record P → Record P} {scope : SessionScope}
  {counts : Counts}

theorem Fits.unixNano_eq (h : Fits t) : unixNano t = t := by
  obtain ⟨hlow, hhi⟩ := h
  exact Int.bmod_eq_of_le (by omega) (by omega)

theorem Fits.fourDigitYear_eq (h : Fits t) : fourDigitYear t = true := by
  obtain ⟨hlow, hhi⟩ := h
  simp only [fourDigitYear, Bool.and_eq_true, decide_eq_true_eq]
  omega

/-- A record as timely requests leave it. -/
structure Record.Sound (k : SessionScope) (r : Record P) : Prop where
  scope : r.scope = k
  valid : k.validate = .ok ()
  counts : r.counts.valid = true
  state : r.state ≠ .active
  operationId : validTeardownOperationID r.operationId = true
  proof : r.proof.isSome = true
  created : r.createdAt ≠ zeroTime
  fits : Fits r.createdAt
  phases : Control.decodedPhasesValid r.phases = true

/-! ### Answers -/

def Record.undated (r : Record P) : Record P := { r with updatedAt := 0 }

def Record.unphased (r : Record P) : Record P := { r with phases := ∅ }

open Record (undated unphased)

/-- Two outcomes with one answer apart from the update time, up to `f`, and with related stores. -/
structure Answers (f : Record P → Record P) (R : σ → τ → Prop) (o : Outcome P σ)
    (o' : Outcome P τ) : Prop where
  result : o'.1.map (map undated) = o.1.map (map fun r => (f r).undated)
  related : R o.2 o'.2

theorem Answers.error {t} (h : R s t) (e : FenceError) : Answers f R (.error e, s) (.error e, t) :=
  ⟨rfl, h⟩

theorem sound_newRecord {operationId} (proof : P) (hscope : scope.validate = .ok ())
    (hope : validTeardownOperationID operationId = true) (ht : t ≠ zeroTime) (hfits : Fits t) :
    (newRecord scope operationId proof t).Sound scope :=
  ⟨rfl, hscope, Counts.valid_zero, by simp [newRecord], hope, rfl, ht, hfits,
    Control.decodedPhasesValid_empty⟩

variable {r : Record P}

theorem Record.Sound.change {k} (h : r.Sound k) {state} (hco : counts.valid = true)
    (hstate : state ≠ .active) :
    Record.Sound k { r with state, counts, updatedAt := t } :=
  ⟨h.scope, h.valid, hco, hstate, h.operationId, h.proof, h.created, h.fits, h.phases⟩

theorem Record.Sound.accumulate {k phase sum delta} (h : r.Sound k) (hsum : sum.valid = true)
    (hphase : phase.valid = true) (hde : delta.valid = true)
    (hnone : r.phases.lookup phase = none) :
    Record.Sound k
      { r with counts := sum, updatedAt := t, phases := r.phases.insert phase delta } :=
  ⟨h.scope, h.valid, hsum, h.state, h.operationId, h.proof, h.created, h.fits,
    Control.decodedPhasesValid_insert h.phases hnone hphase hde⟩

section Engines

variable {m : Memory.Store P} {q : Request P}

/-- Where one check at most fails, their order does not matter. -/
theorem vet_comm (h : q.op.input = .ok () ∨ validateStoreCall q.canceled q.op.scope = .ok ())
    (b : Bool) : q.vet b = q.vet false := by
  obtain h | h := h <;> cases b <;>
    simp only [Request.vet, h, if_true, Bool.false_eq_true, if_false]
  · cases validateStoreCall q.canceled q.op.scope <;> rfl
  · cases q.op.input <;> rfl

theorem Timely.vet_eq (hq : Timely m q) (b : Operation P → Bool)
    (hb : ∀ scope operationId proof now, b (.beginTeardown scope operationId proof now) = false) :
    q.vet (b q.op) = q.vet (Memory.engine.inputFirst q.op) := by
  by_cases hbe : ∃ scope operationId proof now, q.op = .beginTeardown scope operationId proof now
  · obtain ⟨scope, operationId, proof, now, hop⟩ := hbe
    rw [hop, hb]
    rfl
  · have hch : q.op.input = .ok () ∨ validateStoreCall q.canceled q.op.scope = .ok () := by
      refine hq.clear.imp_left fun hso => ?_
      cases hop : q.op <;> simp_all [Operation.sound, Operation.input]
    rw [vet_comm hch, vet_comm hch (Memory.engine.inputFirst q.op)]

theorem Fence.Step.timed {op : Operation P} {f : Option (Fence P)} {f' : Fence P}
    (h : Fence.Step op f (some f')) : ∃ now, op.now = some now := by
  cases h <;> exact ⟨_, rfl⟩

theorem Timely.time (hq : Timely m q) (hnow : ∃ now, q.op.now = some now) :
    Fits q.time ∧ ∀ r, m.records.lookup q.op.scope = some r → r.createdAt ≤ q.time := by
  obtain ⟨now, hnow⟩ := hnow
  rw [Request.time, hnow]
  exact ⟨hq.fits now hnow, fun r hr => hq.ordered now r hnow hr⟩

/-- A store that reads what the store in memory holds, and settles it alike, answers alike. -/
theorem Engine.answers [DecidableEq P] {ρ : Type} {E : Engine P τ ρ} {R : Memory.Store P → τ → Prop}
    {t : τ} (hR : R m t) (hvet : q.vet (E.inputFirst q.op) = q.vet (Memory.engine.inputFirst q.op))
    (hfull : E.full t = Memory.engine.full m)
    (hnone : m.records.lookup q.op.scope = none → E.read t q.op.scope = none ∧
      ∀ operationId proof, q.vet (E.inputFirst q.op) = .ok () →
        q.op.absent (E.full t) = .ok (operationId, proof) →
        Answers f R (Memory.engine.create m q operationId proof) (E.create t q operationId proof))
    (hso : ∀ r, m.records.lookup q.op.scope = some r → ∃ r', E.read t q.op.scope = some (.ok r') ∧
      E.fence t q.op.scope r' = r.fence ∧ ∀ d, q.vet (E.inputFirst q.op) = .ok () →
        q.op.decide r.fence = d → Answers f R (Memory.settle m q r d) (E.settle t q r' d)) :
    Answers f R (Memory.perform m q) (E.perform t q) := by
  rw [Memory.perform_eq, Engine.perform, Engine.perform, ← hvet]
  cases hcheck : q.vet (E.inputFirst q.op) with
  | error e => exact .error hR e
  | ok =>
    simp only [Engine.act, ← hfull]
    cases hlookup : m.records.lookup q.op.scope with
    | none =>
      obtain ⟨hre, hcr⟩ := hnone hlookup
      rw [hre, show Memory.engine.read m q.op.scope = none by simp [Memory.engine, hlookup]]
      cases hab : q.op.absent (E.full t) with
      | error e => exact .error hR e
      | ok p => exact hcr p.1 p.2 hcheck hab
    | some r =>
      obtain ⟨r', hre, hfe, hse⟩ := hso r hlookup
      rw [hre, show Memory.engine.read m q.op.scope = some (.ok r) by simp [Memory.engine, hlookup]]
      simp only [hfe]
      exact hse _ hcheck rfl

end Engines

theorem valid_of_decoded {phases} (h : Control.decodedPhasesValid phases = true) {phase}
    (hlookup : phases.lookup phase = some counts) : counts.valid = true := by
  simp only [Control.decodedPhasesValid, decide_eq_true_eq, Multiset.countP_eq_zero] at h
  have hmem := h _ (Finmap.lookup_eq_some_iff.mp hlookup)
  simp only [Bool.and_eq_false_iff, not_or, Bool.not_eq_false] at hmem
  exact hmem.2

theorem not_any_invalid {phases} (h : Control.decodedPhasesValid phases = true) (phase : Phase) :
    ¬ ((phases.lookup phase).any fun counts => !counts.valid) = true := by
  cases hlookup : phases.lookup phase with
  | none => simp
  | some counts => simp [valid_of_decoded h hlookup]

/-! ### Mirrors

Two of the stores have a row that shows the record in memory, and a table of its phases. -/

section Mirrors

variable {Row : Type} {Shows : Record P → Row → Prop} {m : Memory.Store P} {n : ℕ}
  {k : SessionScope}
  {fences : Table SessionScope Row} {phases phases' : SessionScope → Table Phase Counts}
  {r : Record P} {row : Row}

inductive Mirrored (Shows : Record P → Row → Prop) (k : SessionScope) :
    Option (Record P) → Option Row → Table Phase Counts → Prop
  | none : Mirrored Shows k none none ∅
  | some {r : Record P} {row : Row} (hr : r.Sound k) (hrow : Shows r row) :
    Mirrored Shows k (some r) (some row) r.phases

structure Mirrors (Shows : Record P → Row → Prop) (m : Memory.Store P) (maxScopes : ℕ)
    (fences : Table SessionScope Row) (phases : SessionScope → Table Phase Counts) : Prop where
  maxScopes : maxScopes = m.maxScopes
  rows : ∀ k, Mirrored Shows k (m.records.lookup k) (fences.lookup k) (phases k)

section

variable (h : Mirrors Shows m n fences phases)

include h

theorem Mirrors.size : fences.size = m.records.size := by
  refine Finmap.size_congr fun k => ?_
  have hrow := h.rows k
  generalize m.records.lookup k = r, fences.lookup k = row, phases k = phases at hrow ⊢
  cases hrow <;> rfl

theorem Mirrors.absent (hk : m.records.lookup k = none) :
    fences.lookup k = none ∧ phases k = ∅ := by
  have hrow := h.rows k
  rw [hk] at hrow
  generalize fences.lookup k = row, phases k = phases at hrow ⊢
  cases hrow
  exact ⟨rfl, rfl⟩

theorem Mirrors.present (hk : m.records.lookup k = some r) :
    r.Sound k ∧ phases k = r.phases ∧ ∃ row, fences.lookup k = some row ∧ Shows r row := by
  have hrow := h.rows k
  rw [hk] at hrow
  generalize fences.lookup k = row, phases k = phases at hrow ⊢
  cases hrow with
  | some hr hrow => exact ⟨hr, rfl, _, rfl, hrow⟩

theorem Mirrors.insert (hr : r.Sound k) (hrow : Shows r row) (hk : phases' k = r.phases)
    (hfr : ∀ k', k' ≠ k → phases' k' = phases k') :
    Mirrors Shows { m with records := m.records.insert k r } n (fences.insert k row) phases' := by
  refine ⟨h.maxScopes, fun k' => ?_⟩
  simp only [Finmap.lookup_insert_ite]
  split_ifs with heq
  · subst heq
    rw [hk]
    exact .some hr hrow
  · rw [hfr k' heq]
    exact h.rows k'

/-- A write that only memory makes: it can change the update time alone. -/
theorem Mirrors.touch (hk : m.records.lookup k = some r)
    (hsh : ∀ row, Shows r row → Shows { r with updatedAt := t } row) :
    Mirrors Shows { m with records := m.records.insert k { r with updatedAt := t } } n fences
      phases := by
  obtain ⟨hr, hph, row, hlookup, hrow⟩ := h.present hk
  refine ⟨h.maxScopes, fun k' => ?_⟩
  simp only [Finmap.lookup_insert_ite]
  split_ifs with heq
  · subst heq
    rw [hlookup, hph]
    exact .some (hr.change hr.counts hr.state) (hsh row hrow)
  · exact h.rows k'

theorem Mirrors.erase (k : SessionScope) :
    Mirrors Shows { m with records := m.records.erase k } n (fences.erase k)
      (Function.update phases k ∅) := by
  refine ⟨h.maxScopes, fun k' => ?_⟩
  simp only [Finmap.lookup_erase_ite, Function.update_apply]
  split_ifs
  · exact .none
  · exact h.rows k'

end

end Mirrors

/-! ### SQLite -/

namespace SQLite

def rowOf (r : Record P) (u : ℤ) : Row P :=
  ⟨r.state, r.operationId, r.counts, r.proof, r.createdAt, u⟩

def Shows (r : Record P) (row : Row P) : Prop := ∃ u, r.createdAt ≤ u ∧ row = rowOf r u

abbrev Mirrors (m : Memory.Store P) (s : Store P) : Prop :=
  Session.Mirrors Shows m s.maxScopes s.fences s.phases

variable {s : Store P} {m : Memory.Store P} {k : SessionScope} {u t : ℤ} {r : Record P}
  {q : Request P}

theorem scan_rowOf (hr : r.Sound k) (hu : r.createdAt ≤ u) :
    scanSQLiteSessionScope k (rowOf r u) = .ok { r with updatedAt := u, phases := ∅ } := by
  obtain ⟨proof, hpr⟩ := Option.isSome_iff_exists.mp hr.proof
  rw [scanSQLiteSessionScope, hr.valid]
  simp only [rowOf, hr.counts, hr.state, hr.operationId, hpr]
  rw [if_neg (by simp), if_neg (by simp), if_neg (by simp), if_neg (by omega)]
  obtain ⟨scope, state, counts, operationId, p, createdAt, updatedAt, phases⟩ := r
  cases hr.scope
  cases hpr
  rfl

theorem commit_eq (s : Store P) (hr : r.Sound k) (ht : t ≠ zeroTime) (hfits : Fits t)
    (hu : r.createdAt ≤ t) :
    commit s { r with updatedAt := t, phases := ∅ } =
      (.ok (some { r with updatedAt := t, phases := ∅ }),
        { s with fences := s.fences.insert k (rowOf r t) }) := by
  obtain ⟨proof, hpr⟩ := Option.isSome_iff_exists.mp hr.proof
  have hva : validateSQLiteSessionScopeRecord { r with updatedAt := t, phases := ∅ } = .ok () := by
    simp only [validateSQLiteSessionScopeRecord, hr.scope, hr.valid, hr.counts, hr.state,
      hr.operationId, hpr, hr.created, ht]
    rw [if_neg (by simp), if_neg (by simp; omega), if_neg (by simp)]
  rw [commit, hva]
  simp only [sqliteSessionScopeArguments, hr.fits.unixNano_eq, hfits.unixNano_eq, hr.scope]
  rfl

/-- The end of an operation that writes a record on both sides. -/
theorem answers_put (h : Mirrors m s) (hr : r.Sound k) (hph : s.phases k = r.phases)
    (ht : t ≠ zeroTime) (hfits : Fits t) (hu : r.createdAt ≤ t) :
    Answers unphased Mirrors (Memory.put m k { r with updatedAt := t })
      (commit s { r with updatedAt := t, phases := ∅ }) := by
  rw [commit_eq s hr ht hfits hu]
  refine ⟨rfl, ?_⟩
  exact h.insert (r := { r with updatedAt := t }) (hr.change hr.counts hr.state) ⟨t, hu, rfl⟩ hph
    fun _ _ => rfl

theorem perform_answers [DecidableEq P] (h : Mirrors m s) (hq : Timely m q) :
    Answers unphased Mirrors (Memory.perform m q) (perform s q) := by
  have ht := q.time_ne_zeroTime
  rw [perform_eq]
  refine Engine.answers h (hq.vet_eq engine.inputFirst fun _ _ _ _ => rfl) ?_ (fun hlookup => ?_)
    fun r hlookup => ?_
  · simp only [engine, h.size, h.maxScopes]
    rfl
  · obtain ⟨hre, hph⟩ := h.absent hlookup
    refine ⟨by simp [engine, hre], fun operationId proof hvet hab => ?_⟩
    obtain ⟨hscope, hope, hnow⟩ := vet_create hvet hab
    obtain ⟨hfits, -⟩ := hq.time hnow
    exact answers_put h (sound_newRecord proof hscope hope ht hfits) hph ht hfits le_rfl
  · obtain ⟨hr, hph, _, hre, u, hu, rfl⟩ := h.present hlookup
    refine ⟨{ r with updatedAt := u, phases := ∅ },
      by simp only [engine, hre, map_some, scan_rowOf hr hu], by simp only [engine, hph]; rfl,
        fun d hvet hd => ?_⟩
    cases d with
    | refuse e => exact .error h e
    | update _ counts =>
      have hstep := decide_step hd (by simp)
      obtain ⟨hfits, hor⟩ := hq.time hstep.timed
      obtain ⟨hcou, hstate⟩ := hstep.sound hr.counts
      exact answers_put h (hr.change (t := u) hcou hstate) hph ht hfits (hor r hlookup)
    | keep => exact ⟨rfl, h.touch hlookup fun _ => id⟩
    | replay =>
      simp only [engine, settle, hph]
      rw [if_neg (not_any_invalid hr.phases _)]
      exact ⟨rfl, h.touch hlookup fun _ => id⟩
    | record _ _ counts =>
      have hstep := decide_step hd (by simp)
      obtain ⟨hfits, hor⟩ := hq.time hstep.timed
      obtain ⟨hcou, -⟩ := hstep.sound hr.counts
      obtain ⟨hnone, hphase, hde⟩ := decide_record (vet_eq_ok hvet).1 hd
      have hco := commit_eq s (hr.change (t := q.time) hcou hr.state) ht hfits (hor r hlookup)
      simp only [engine, settle, Memory.settle] at hco ⊢
      rw [hco]
      refine ⟨rfl, ?_⟩
      refine h.insert (hr.accumulate hcou hphase hde hnone) ⟨_, hor r hlookup, rfl⟩ ?_
        fun k' hk' => Function.update_of_ne hk' _ _
      simp [hph]
    | drop => exact ⟨rfl, h.erase q.op.scope⟩

end SQLite

/-! ### The control database -/

namespace Control

/-- The record of the backend that shows `r`. -/
def shown (r : Record P) (proof : P) (u : ℤ) : ControlRecord P :=
  ⟨r.scope, r.state, r.counts, r.operationId, proof, r.createdAt, u, r.phases⟩

/-- The phases inside `fence_json` are not read. -/
def Shows (r : Record P) (row : Row P) : Prop :=
  ∃ proof u phases, r.proof = some proof ∧ u ≠ zeroTime ∧
    row = rowOf { shown r proof u with phases }

abbrev Mirrors (m : Memory.Store P) (s : Store P) : Prop :=
  Session.Mirrors Shows m s.maxScopes s.fences s.phases

variable {s : Store P} {m : Memory.Store P} {u t : ℤ} {r : Record P} {k : SessionScope}
  {operationId : String} {proof : P} {q : Request P}

theorem shown_presentable (hr : r.Sound k) (proof : P) (hu : u ≠ zeroTime) :
    Presentable (shown r proof u) :=
  ⟨by rw [shown, hr.scope, hr.valid], hr.counts, hr.operationId, hr.created, hu, hr.phases⟩

theorem operationId_ne_empty (h : validTeardownOperationID operationId = true) :
    operationId ≠ "" := by
  rintro rfl
  simp [validTeardownOperationID, validOwnerHash] at h

theorem scan_rowOf [DecidableEq P] (hr : r.Sound k) (hu : u ≠ zeroTime)
    (phases : Table Phase Counts) :
    scanSessionControlRecord k (rowOf { shown r proof u with phases }) =
      .ok { shown r proof u with phases } := by
  have hope := operationId_ne_empty hr.operationId
  simp only [scanSessionControlRecord, rowOf, shown, hr.created, hu, hr.valid, hr.counts,
    hope, hr.scope]
  rw [if_neg (by simp), if_neg (by simp), if_neg (by simp), if_neg (by simp)]

theorem read_some [DecidableEq P] (h : Mirrors m s) (hk : m.records.lookup k = some r) :
    r.Sound k ∧ s.phases k = r.phases ∧ ∃ proof u, r.proof = some proof ∧ u ≠ zeroTime ∧
      getSessionControlRecord s k = some (.ok (shown r proof u)) := by
  obtain ⟨hr, hph, _, hre, proof, u, phases, hpr, hu, rfl⟩ := h.present hk
  refine ⟨hr, hph, proof, u, hpr, hu, ?_⟩
  rw [getSessionControlRecord, hre, map_some, scan_rowOf hr hu]
  simp only [hph, hr.phases, Bool.not_true, Bool.false_eq_true, if_false]
  rfl

theorem write_eq (s : Store P) (hr : r.Sound k) (proof : P) (hfits : Fits t)
    (phases : Table Phase Counts) :
    write s { shown r proof t with phases } = .ok { s with
      fences := s.fences.insert k (rowOf { shown r proof t with phases }) } := by
  rw [write, if_neg]
  · rw [show (shown r proof t).scope = k from hr.scope]
  · simp [shown, hr.fits.fourDigitYear_eq, hfits.fourDigitYear_eq]

/-- The end of an operation that writes a record on both sides. -/
theorem answers_put (h : Mirrors m s) (hr : r.Sound k) (hpr : r.proof = some proof)
    (hph : s.phases k = r.phases) (ht : t ≠ zeroTime) (hfits : Fits t) :
    Answers id Mirrors (Memory.put m k { r with updatedAt := t })
      (adapt (commit s (shown r proof t))) := by
  rw [commit, write_eq s hr proof hfits]
  simp only [adapt, (shown_presentable hr proof ht).recordFromControl]
  refine ⟨?_, ?_⟩
  · simp only [Memory.put, shown, ← hpr]
    rfl
  · exact h.insert (r := { r with updatedAt := t }) (hr.change hr.counts hr.state)
      ⟨proof, t, _, hpr, ht, rfl⟩ hph fun _ _ => rfl

/-- The end of an operation that writes on the side of memory only. -/
theorem answers_touch (h : Mirrors m s) (hk : m.records.lookup k = some r) (hr : r.Sound k)
    (hpr : r.proof = some proof) (hu : u ≠ zeroTime) (t : ℤ) :
    Answers id Mirrors (Memory.put m k { r with updatedAt := t })
      (adapt (.ok (shown r proof u), s)) := by
  simp only [adapt, (shown_presentable hr proof hu).recordFromControl]
  refine ⟨?_, h.touch hk fun _ => id⟩
  simp only [Memory.put, shown, ← hpr]
  rfl

theorem perform_answers [DecidableEq P] (h : Mirrors m s) (hq : Timely m q) :
    Answers id Mirrors (Memory.perform m q) (perform s q) := by
  have ht := q.time_ne_zeroTime
  rw [perform_eq]
  refine Engine.answers h (hq.vet_eq engine.inputFirst fun _ _ _ _ => rfl) ?_ (fun hlookup => ?_)
    fun r hlookup => ?_
  · simp only [engine, h.size, h.maxScopes]
    rfl
  · obtain ⟨hrea, hph⟩ := h.absent hlookup
    refine ⟨by simp [engine, getSessionControlRecord, hrea], fun operationId proof hvet hab => ?_⟩
    obtain ⟨hscope, hope, hnow⟩ := vet_create hvet hab
    obtain ⟨hfits, -⟩ := hq.time hnow
    exact answers_put h (sound_newRecord proof hscope hope ht hfits) rfl hph ht hfits
  · obtain ⟨hr, hph, proof, u, hpr, hu, hrea⟩ := read_some h hlookup
    refine ⟨_, hrea, by simp only [engine, hph, Record.fence, hpr]; rfl, fun d hvet hd => ?_⟩
    cases d with
    | refuse e => exact .error h e
    | update _ counts =>
      have hstep := decide_step hd (by simp)
      obtain ⟨hco, hstate⟩ := hstep.sound hr.counts
      exact answers_put h (hr.change (t := u) hco hstate) hpr hph ht (hq.time hstep.timed).1
    | keep => exact answers_touch h hlookup hr hpr hu r.updatedAt
    | replay =>
      simp only [engine, settle, hph]
      rw [if_neg (not_any_invalid hr.phases _)]
      exact answers_touch h hlookup hr hpr hu _
    | record _ _ counts =>
      have hstep := decide_step hd (by simp)
      obtain ⟨hnone, hphase, hde⟩ := decide_record (vet_eq_ok hvet).1 hd
      have hr' := hr.accumulate (t := q.time) (hstep.sound hr.counts).1 hphase hde hnone
      have hwrite := write_eq s hr' proof (hq.time hstep.timed).1 r.phases
      have hre := (shown_presentable hr' proof ht).recordFromControl
      simp only [shown] at hwrite hre
      simp only [engine, settle, shown, hwrite, adapt, hre]
      refine ⟨?_, ?_⟩
      · simp only [Memory.settle, Memory.put, ← hpr]
        rfl
      · refine h.insert hr' ⟨proof, q.time, r.phases, hpr, ht, rfl⟩ ?_
          fun k' hk' => Function.update_of_ne hk' _ _
        simp [hph]
    | drop => exact ⟨rfl, h.erase q.op.scope⟩

end Control

/-! ### Runs -/

/-- The answers to a sequence of requests, apart from the update times. -/
def Machine.answers (M : Machine P σ) (requests : List (Request P)) : List (Result P) :=
  (labels (M.run requests)).map fun x => x.2.map (map undated)

/-- Every request is timely when it comes to the store in memory. -/
def TimelyRun [DecidableEq P] (maxScopes : ℕ) (requests : List (Request P)) : Prop :=
  Guarded (fun _ s x => Timely s x.1) [] ⟨maxScopes, ∅⟩ ((memoryMachine maxScopes).run requests)

/-- Stores whose steps answer alike answer whole sequences alike. -/
theorem trace_answers (perform : σ → Request P → Outcome P σ)
    (perform' : τ → Request P → Outcome P τ) {C : σ → Request P → Prop}
    (hf : ∀ r, (f r).undated = f r.undated)
    (hstep : ∀ s t q, R s t → C s q → Answers f R (perform s q) (perform' t q))
    (requests : List (Request P)) {h : List (Request P × Result P)} {t : τ} (hR : R s t)
    (hC : Guarded (fun _ s x => C s x.1) h s (trace (fun s q => some (perform s q)) s requests)) :
    (labels (trace (fun t q => some (perform' t q)) t requests)).map
        (fun x => x.2.map (map undated)) =
      ((labels (trace (fun s q => some (perform s q)) s requests)).map
        fun x => x.2.map (map undated)).map fun r => r.map (map f) := by
  induction requests generalizing h s t with
  | nil => rfl
  | cons q requests ih =>
    have hq := hstep s t q hR hC.1
    have hre := ih hq.related hC.2
    simp only [trace, labels_cons, List.map_cons] at hre ⊢
    rw [hre, hq.result]
    congr 1
    generalize (perform s q).1 = result
    cases result with
    | error => rfl
    | ok r =>
      cases r with
      | none => rfl
      | some r => exact congrArg (fun r => Except.ok (some r)) (hf r)

/-! ### Phases in memory -/

namespace Memory

def Phaseless (s : Store P) : Prop := ∀ k r, s.records.lookup k = some r → r.phases = ∅

def Outcome.Phaseless (o : Outcome P (Store P)) : Prop :=
  (∀ r, o.1 = .ok (some r) → r.phases = ∅) ∧ Memory.Phaseless o.2

variable {s : Store P}

theorem phaseless_put (h : Phaseless s) (k : SessionScope) (hr : r.phases = ∅) :
    Outcome.Phaseless (put s k r) := by
  refine ⟨fun r' hr' => ?_, fun k' r' hr' => ?_⟩
  · cases hr'
    exact hr
  · simp only [put, Finmap.lookup_insert_ite] at hr'
    split_ifs at hr'
    · cases hr'
      exact hr
    · exact h k' r' hr'

theorem perform_phaseless [DecidableEq P] (h : Phaseless s) {q}
    (hq : ∀ scope phase delta now, q.op ≠ .accumulatePhase scope phase delta now) :
    Outcome.Phaseless (perform s q) := by
  have her : ∀ e, Outcome.Phaseless (.error e, s) := fun e => ⟨by simp, h⟩
  rw [perform_eq, Engine.perform, Engine.act]
  split
  · exact her _
  split
  · exact her _
  · split
    · exact her _
    · exact phaseless_put h _ rfl
  · rename_i r hre
    obtain ⟨_, hre, ⟨⟩⟩ := Option.map_eq_some_iff.mp hre
    have hr := h _ r hre
    change Outcome.Phaseless (settle s q r (q.op.decide r.fence))
    generalize hd : q.op.decide r.fence = d
    cases d with
    | refuse e => exact her e
    | record =>
      cases hop : q.op <;> simp only [hop, Operation.decide, Change.decide] at hd <;> grind
    | drop => exact ⟨by simp [settle], fun k r hr => h k r (Finmap.lookup_of_erase hr).2⟩
    | _ => exact phaseless_put h _ hr

end Memory

/-- Without phases there is nothing that the rows of SQLite leave out. -/
theorem unphased_answers [DecidableEq P] (requests : List (Request P))
    (hre : ∀ q ∈ requests, ∀ scope phase delta now,
      q.op ≠ .accumulatePhase scope phase delta now) {s} (hs : Memory.Phaseless s) :
    ((labels (trace (fun s q => some (Memory.perform s q)) s requests)).map
        fun x => x.2.map (map undated)).map (fun r => r.map (map unphased)) =
      (labels (trace (fun s q => some (Memory.perform s q)) s requests)).map
        fun x => x.2.map (map undated) := by
  induction requests generalizing s with
  | nil => rfl
  | cons q requests ih =>
    rw [List.forall_mem_cons] at hre
    obtain ⟨hres, haf⟩ := Memory.perform_phaseless hs hre.1
    have hrest := ih hre.2 haf
    simp only [trace, labels_cons, List.map_cons] at hrest ⊢
    congr 1
    generalize (Memory.perform s q).1 = result at hres
    cases result with
    | error => rfl
    | ok r =>
      cases r with
      | none => rfl
      | some r =>
        have hph := hres r rfl
        simp only [Except.map, map_some, undated, unphased, hph]

/-! ### Times that run back -/

def sampleScope : SessionScope := ⟨"s", "u", "e", "c"⟩

/-- A teardown that begins at 100, and an accumulation of nothing. -/
def sampleRequests (now : ℤ) : List (Request Unit) :=
  [⟨false, ⟨1, by decide⟩, .beginTeardown sampleScope "o" () 100⟩,
    ⟨false, ⟨1, by decide⟩, .accumulate sampleScope (fun _ => 0) now⟩]

/-- Each store keeps its ledgers. On timely requests the control database answers as the store in
memory, and so does SQLite apart from the phases, which its records leave out. -/
theorem fence_stores_agree [DecidableEq P] (maxScopes : ℕ) (requests : List (Request P)) :
    (memoryMachine (P := P) maxScopes).Keeps requests ∧
    (sqliteMachine (P := P) maxScopes).Keeps requests ∧
    (controlMachine (P := P) maxScopes).Keeps requests ∧
    (TimelyRun maxScopes requests →
      (controlMachine maxScopes).answers requests = (memoryMachine maxScopes).answers requests ∧
      (sqliteMachine maxScopes).answers requests = ((memoryMachine maxScopes).answers requests).map
          (fun r => r.map (map unphased)) ∧
      ((∀ q ∈ requests, ∀ scope phase delta now, q.op ≠ .accumulatePhase scope phase delta now) →
        (sqliteMachine maxScopes).answers requests =
          (memoryMachine maxScopes).answers requests)) := by
  refine ⟨(memoryMachine_lawful maxScopes).keeps requests,
    (sqliteMachine_lawful maxScopes).keeps requests,
    (controlMachine_lawful maxScopes).keeps requests, fun htimely => ?_⟩
  have hstart : Control.Mirrors (P := P) ⟨maxScopes, ∅⟩ ⟨maxScopes, ∅, fun _ => ∅⟩ :=
    ⟨rfl, fun _ => .none⟩
  have hcontrol := trace_answers Memory.perform Control.perform (f := id) (C := Timely)
    (fun _ => rfl) (fun _ _ _ h hq => Control.perform_answers h hq) requests hstart htimely
  have hstart : SQLite.Mirrors (P := P) ⟨maxScopes, ∅⟩ ⟨maxScopes, ∅, fun _ => ∅⟩ :=
    ⟨rfl, fun _ => .none⟩
  have hsqlite := trace_answers Memory.perform SQLite.perform (f := unphased) (C := Timely)
    (fun _ => rfl) (fun _ _ _ h hq => SQLite.perform_answers h hq) requests hstart htimely
  refine ⟨hcontrol.trans ?_, hsqlite, fun hrequests => hsqlite.trans ?_⟩
  · exact (List.map_congr_left fun r _ => by cases r <;> simp [Except.map]).trans (List.map_id _)
  · exact unphased_answers requests hrequests fun k r hr => nomatch hr

theorem fence_stores_agree_later :
    TimelyRun 1 (sampleRequests 150) ∧
      (sqliteMachine 1).answers (sampleRequests 150) =
        (memoryMachine 1).answers (sampleRequests 150) := by
  have htimely : TimelyRun 1 (sampleRequests 150) := by
    refine ⟨⟨?_, ?_, .inl rfl⟩, ⟨?_, ?_, .inl (by decide)⟩, trivial⟩
    · rintro now ⟨⟩
      exact ⟨by decide, by decide⟩
    · rintro now r - ⟨⟩
    · rintro now ⟨⟩
      exact ⟨by decide, by decide⟩
    · rintro now r ⟨⟩ hr
      cases Option.some.inj (show some _ = some r from hr)
      decide
  refine ⟨htimely, ((fence_stores_agree 1 _).2.2.2 htimely).2.2 ?_⟩
  simp [sampleRequests]

/-- An accumulation at an earlier time than the beginning of the teardown: SQLite refuses what the
other stores accept. -/
theorem fence_stores_disagree :
    ((memoryMachine 1).answers (sampleRequests 50)).map Except.isOk = [true, true] ∧
    ((controlMachine 1).answers (sampleRequests 50)).map Except.isOk = [true, true] ∧
    ((sqliteMachine 1).answers (sampleRequests 50)).map Except.isOk = [true, false] := by
  decide

end RedevPlugin.Session
