import Mathlib.Algebra.GroupWithZero.Nat
import RedevPlugin.Foundation.Transition
import RedevPlugin.Session.FenceEffects

/-! What follows from the machine of a fence alone. A ledger writes down, from the
requests and their results, what was accumulated for each scope; the counts of a fence
are the total of its ledger, with one delta for each phase. A step that fails changes
nothing, a phase that is repeated changes no fence, and a complete fence is left only by
the `Finalize` that names its teardown. -/

namespace RedevPlugin.Session

open Transition

variable {P σ : Type}

/-- The deltas, and the phases with the delta of each. -/
structure Ledger where
  deltas : List Counts
  phases : List (Phase × Counts)

def Ledger.total (l : Ledger) (f : CountField) : ℕ :=
  (l.deltas.map (· f)).sum + (l.phases.map (·.2 f)).sum

def Operation.book : Operation P → Option Ledger → Option Ledger
  | .beginTeardown .., none => some ⟨[], []⟩
  | .accumulate _ delta _, some l => some { l with deltas := delta :: l.deltas }
  | .accumulatePhase _ phase delta _, some l =>
    if (l.phases.lookup phase).isSome then some l
    else some { l with phases := (phase, delta) :: l.phases }
  | .finalize .., _ => none
  | _, l => l

abbrev Result (P : Type) : Type := Except FenceError (Option (Record P))

def book (ledgers : SessionScope → Option Ledger) (x : Request P × Result P) :
    SessionScope → Option Ledger :=
  match x.2 with
  | .error _ => ledgers
  | .ok _ => Function.update ledgers x.1.op.scope (x.1.op.book (ledgers x.1.op.scope))

def ledgers (history : List (Request P × Result P)) : SessionScope → Option Ledger :=
  history.foldl book fun _ => none

/-- A fence that agrees with its ledger. -/
structure Ledger.Backs (l : Ledger) (f : Fence P) : Prop where
  counts : ∀ c, f.counts c = l.total c
  bounded : ∀ c, f.counts c ≤ maxSafeInteger
  phases : ∀ phase, f.phases.lookup phase = l.phases.lookup phase
  once : (l.phases.map Prod.fst).Nodup

def Kept : Option Ledger → Option (Fence P) → Prop
  | none, none => True
  | some l, some f => l.Backs f
  | _, _ => False

variable {delta counts : Counts} {f : Fence P} {l : Ledger} {f' : Option (Fence P)}
  {op : Operation P} {r : Result P} {q : Request P} {s t : σ} {V : Viewed P σ}

theorem Ledger.Backs.accumulate (h : l.Backs f) (hadd : f.counts.add delta = .ok counts) :
    Ledger.Backs { l with deltas := delta :: l.deltas } { f with counts } := by
  obtain ⟨hsum, hb⟩ := Counts.add_eq_ok hadd
  refine ⟨fun c => ?_, hb, h.phases, h.once⟩
  have hc := h.counts c
  simp only [Ledger.total, List.map_cons, List.sum_cons, hsum] at hc ⊢
  omega

theorem Ledger.Backs.accumulatePhase (h : l.Backs f) {phase} (hphase : f.phases.lookup phase = none)
    (hadd : f.counts.add delta = .ok counts) :
    Ledger.Backs { l with phases := (phase, delta) :: l.phases }
      { f with counts, phases := f.phases.insert phase delta } := by
  obtain ⟨hsum, hb⟩ := Counts.add_eq_ok hadd
  refine ⟨fun c => ?_, hb, fun phase' => ?_, ?_⟩
  · have hc := h.counts c
    simp only [Ledger.total, List.map_cons, List.sum_cons, hsum] at hc ⊢
    omega
  · simp only [Finmap.lookup_insert_ite, List.lookup_cons, h.phases phase']
    by_cases heq : phase' = phase
    · simp [heq]
    · rw [if_neg heq, beq_false_of_ne heq]
  · rw [h.phases phase, List.lookup_eq_none_iff] at hphase
    simp only [List.map_cons, List.nodup_cons, List.mem_map, not_exists, not_and]
    refine ⟨fun x hx hx1 => ?_, h.once⟩
    simpa [hx1] using hphase x hx

/-- A step of the machine is what the ledger writes down. -/
theorem Fence.Step.kept {f} (hstep : Fence.Step op f f') {l} (h : Kept l f) :
    Kept (op.book l) f' := by
  cases hstep with
  | begun =>
    cases l with
    | none =>
      exact ⟨fun c => rfl, fun c => Nat.zero_le _, fun phase => rfl, List.nodup_nil⟩
    | some l => exact h.elim
  | resumed | repeated | incomplete | complete =>
    cases l with
    | none => exact h.elim
    | some l => exact ⟨h.counts, h.bounded, h.phases, h.once⟩
  | accumulated _ hadd =>
    cases l with
    | none => exact h.elim
    | some l => exact Ledger.Backs.accumulate h hadd
  | phaseRepeated _ hphase =>
    cases l with
    | none => exact h.elim
    | some l =>
      rw [Ledger.Backs.phases h] at hphase
      rw [Operation.book, if_pos hphase]
      exact h
  | @phaseAccumulated _ phase _ _ _ _ _ hphase hadd =>
    cases l with
    | none => exact h.elim
    | some l =>
      have hnone : (l.phases.lookup phase).isSome = false := by
        rw [← Ledger.Backs.phases h, hphase]
        rfl
      rw [Operation.book, if_neg (by simp [hnone])]
      exact Ledger.Backs.accumulatePhase h hphase hadd
  | finalized => cases l <;> trivial

/-- A store from its start, and the fences it holds. -/
structure Machine (P σ : Type) extends Viewed P σ where
  start : σ
  perform : σ → Request P → Outcome P σ

structure Machine.Lawful (M : Machine P σ) : Prop where
  start_view : ∀ k, M.view M.start k = none
  start_good : M.good M.start
  performs : ∀ s q, M.good s → Performs M.toViewed s q.op (M.perform s q)

def Machine.system (M : Machine P σ) : System σ (Request P × Result P) :=
  System.ofOption (· = M.start) fun s q => some (M.perform s q)

def Machine.run (M : Machine P σ) (requests : List (Request P)) :
    List ((Request P × Result P) × σ) :=
  trace (fun s q => some (M.perform s q)) M.start requests

structure Careful (view : σ → SessionScope → Option (Fence P)) (s : σ) (x : Request P × Result P)
    (t : σ) : Prop where
  failed : ∀ e, x.2 = .error e → t = s
  replayed : ∀ scope phase delta now f, x.1.op = .accumulatePhase scope phase delta now →
    view s scope = some f → (f.phases.lookup phase).isSome = true → view t = view s
  completed : ∀ k f, view s k = some f → f.state = .complete → view t k ≠ some f →
    ∃ proof, x.1.op = .finalize k f.operationId proof ∧ f.proof = some proof ∧ view t k = none

/-- After the requests every fence agrees with its ledger, and every step is careful. -/
structure Machine.Keeps (M : Machine P σ) (requests : List (Request P)) : Prop where
  ledger : ∀ k, Kept (ledgers (labels (M.run requests)) k)
    (M.view (last M.start (M.run requests)) k)
  steps : ∀ x ∈ steps M.start (M.run requests), Careful M.view x.1 x.2.1 x.2.2

theorem Performs.kept (h : Performs V s q.op (r, t)) {L} (hL : ∀ k, Kept (L k) (V.view s k))
    (k : SessionScope) : Kept (book L (q, r) k) (V.view t k) := by
  cases h with
  | failed => exact hL k
  | done hstep hview =>
    rw [hview]
    by_cases hk : k = q.op.scope
    · subst hk
      simp only [book, Function.update_self]
      exact hstep.kept (hL _)
    · simp only [book, Function.update_of_ne hk]
      exact hL k

/-- The machine leaves the complete state by a matching `Finalize` only. -/
theorem Fence.Step.of_complete (hstep : Fence.Step op (some f) f')
    (hco : f.state = .complete) (hne : f' ≠ some f) :
    f' = none ∧ ∃ scope proof, op = .finalize scope f.operationId proof ∧ f.proof = some proof := by
  cases hstep with
  | resumed _ hstate | incomplete hstate
  | accumulated hstate | phaseAccumulated hstate =>
    simp [hco] at hstate
  | repeated | phaseRepeated => exact absurd rfl hne
  | complete =>
    refine absurd ?_ hne
    rw [← hco]
  | finalized hid => exact ⟨rfl, _, _, by rw [hid.2], hid.1⟩

theorem Performs.careful (h : Performs V s q.op (r, t)) : Careful V.view s (q, r) t := by
  cases h with
  | failed =>
    exact ⟨fun _ _ => rfl, fun _ _ _ _ _ _ _ _ => rfl, fun k f hf _ hne => absurd hf hne⟩
  | done hstep hview =>
    refine ⟨fun e he => (nomatch he), fun scope phase delta now f hop hf hphase => ?_,
      fun k f hf hco hne => ?_⟩
    · rw [hview]
      rw [hop] at hstep ⊢
      rw [show (Operation.accumulatePhase (P := P) scope phase delta now).scope = scope from rfl,
        hf]
        at hstep
      cases hstep with
      | phaseRepeated => rw [Operation.scope, ← hf, Function.update_eq_self]
      | phaseAccumulated _ hnone => simp [hnone] at hphase
    · rw [hview] at hne ⊢
      by_cases hk : k = q.op.scope
      · subst hk
        rw [Function.update_self] at hne ⊢
        rw [hf] at hstep
        obtain ⟨hnone, scope, proof, hop, hpr⟩ := hstep.of_complete hco hne
        refine ⟨proof, ?_, hpr, hnone⟩
        rw [hop]
        rfl
      · rw [Function.update_of_ne hk] at hne
        exact absurd hf hne

theorem Performs.good (h : Performs V s op (r, t)) (hs : V.good s) : V.good t := by
  cases h with
  | failed => exact hs
  | done _ _ hgood => exact hgood

/-- The laws of a store are all that this needs. -/
theorem Machine.Lawful.keeps {M : Machine P σ} (hM : M.Lawful) (requests : List (Request P)) :
    M.Keeps requests := by
  have hrun : M.system.Run M.start (M.run requests) := System.run_trace _ _ _ _
  have hstep : ∀ s x t, M.system.step s x t → M.good s → Performs M.toViewed s x.1.op (x.2, t) := by
    intro s x t h hs
    rw [← Option.some.inj h]
    exact hM.performs s x.1 hs
  constructor
  · have hI := hrun.invariant (C := fun _ _ _ => True) (h := [])
      (I := fun h s => M.good s ∧ ∀ k, Kept (ledgers h k) (M.view s k)) ?_
      ⟨hM.start_good, fun k => ?_⟩ (guarded_true _ _ _)
    · exact hI.2
    · intro h s x t hI _ hx
      have hp := hstep s x t hx hI.1
      refine ⟨hp.good hI.1, fun k => ?_⟩
      rw [ledgers, List.foldl_append]
      exact hp.kept hI.2 k
    · rw [hM.start_view k]
      trivial
  · have hgood := hrun.forall_states (C := fun _ _ _ => True) (h := []) (I := M.good)
      (fun h s x t hs _ hx => (hstep s x t hx hs).good hs) hM.start_good (guarded_true _ _ _)
    exact hrun.forall_steps (fun s x t hs hx => (hstep s x t hx hs).careful) hgood

def memoryMachine [DecidableEq P] (maxScopes : ℕ) : Machine P (Memory.Store P) :=
  ⟨Memory.viewed, ⟨maxScopes, ∅⟩, Memory.perform⟩

def sqliteMachine [DecidableEq P] (maxScopes : ℕ) : Machine P (SQLite.Store P) :=
  ⟨SQLite.viewed, ⟨maxScopes, ∅, fun _ => ∅⟩, SQLite.perform⟩

def controlMachine [DecidableEq P] (maxScopes : ℕ) : Machine P (Control.Store P) :=
  ⟨Control.viewed, ⟨maxScopes, ∅, fun _ => ∅⟩, Control.perform⟩

theorem memoryMachine_lawful [DecidableEq P] (maxScopes : ℕ) :
    (memoryMachine (P := P) maxScopes).Lawful :=
  ⟨fun _ => rfl, trivial, fun s q _ => Memory.perform_performs s q⟩

theorem sqliteMachine_lawful [DecidableEq P] (maxScopes : ℕ) :
    (sqliteMachine (P := P) maxScopes).Lawful :=
  ⟨fun _ => rfl, fun _ _ => rfl, fun _ q hs => SQLite.perform_performs hs q⟩

theorem controlMachine_lawful [DecidableEq P] (maxScopes : ℕ) :
    (controlMachine (P := P) maxScopes).Lawful :=
  ⟨fun _ => rfl, ⟨fun _ _ h => (nomatch h), fun _ _ => rfl⟩, fun _ q hs =>
    Control.perform_performs hs q⟩

end RedevPlugin.Session
