import Mathlib.Data.List.Basic

/-! Labelled transition systems and their finite runs. A run lists the labels
taken together with the states they lead to, so that a statement about an
interval of a run can name the states inside it. A run may be guarded: every
step then meets a condition on the labels taken so far, the state before the
step and the label. The invariant rule is proved once, for guarded runs and for
invariants that read the labels taken so far; the other rules are its cases. -/

namespace RedevPlugin.Transition

variable {σ ℓ : Type*}

structure System (σ ℓ : Type*) where
  init : σ → Prop
  step : σ → ℓ → σ → Prop

/-- The labels of a run, in order. -/
def labels (tr : List (ℓ × σ)) : List ℓ := tr.map Prod.fst

/-- The state a run from `s` ends in. -/
def last (s : σ) : List (ℓ × σ) → σ
  | [] => s
  | (_, t) :: tr => last t tr

/-- The states a run from `s` goes through, `s` first. -/
def states (s : σ) (tr : List (ℓ × σ)) : List σ := s :: tr.map Prod.snd

/-- The steps of a run from `s`: state, label and next state. -/
def steps (s : σ) : List (ℓ × σ) → List (σ × ℓ × σ)
  | [] => []
  | (l, t) :: tr => (s, l, t) :: steps t tr

@[simp] theorem states_nil (s : σ) : states s ([] : List (ℓ × σ)) = [s] := rfl

@[simp] theorem states_cons (s t : σ) (l : ℓ) (tr : List (ℓ × σ)) :
    states s ((l, t) :: tr) = s :: states t tr := rfl

@[simp] theorem labels_nil : labels ([] : List (ℓ × σ)) = [] := rfl

@[simp] theorem labels_cons (l : ℓ) (t : σ) (tr : List (ℓ × σ)) :
    labels ((l, t) :: tr) = l :: labels tr := rfl

@[simp] theorem labels_append (p q : List (ℓ × σ)) : labels (p ++ q) = labels p ++ labels q :=
  List.map_append

@[simp] theorem last_nil (s : σ) : last s ([] : List (ℓ × σ)) = s := rfl

@[simp] theorem last_cons (s t : σ) (l : ℓ) (tr : List (ℓ × σ)) :
    last s ((l, t) :: tr) = last t tr := rfl

theorem last_mem_states (s : σ) (tr : List (ℓ × σ)) : last s tr ∈ states s tr := by
  induction tr generalizing s with
  | nil => simp
  | cons x tr ih => exact List.mem_cons_of_mem s (ih x.2)

@[simp] theorem last_append (s : σ) (p q : List (ℓ × σ)) : last s (p ++ q) = last (last s p) q := by
  induction p generalizing s with
  | nil => rfl
  | cons x p ih => exact ih x.2

theorem steps_append (s : σ) (p q : List (ℓ × σ)) :
    steps s (p ++ q) = steps s p ++ steps (last s p) q := by
  induction p generalizing s with
  | nil => rfl
  | cons x p ih =>
    rw [List.cons_append, steps, steps, ih, last_cons, List.cons_append]

variable {l : ℓ} {I : σ → Prop} {P : σ → ℓ → σ → Prop}

/-- A label of a run splits the run at its step. -/
theorem exists_split_of_labels {tr : List (ℓ × σ)} {a b : List ℓ} (h : labels tr = a ++ l :: b) :
    ∃ p t q, tr = p ++ (l, t) :: q ∧ labels p = a ∧ labels q = b := by
  obtain ⟨p, q', rfl, hp, hq'⟩ := List.map_eq_append_iff.mp h
  obtain ⟨⟨l', t⟩, q, rfl, rfl, hq⟩ := List.map_eq_cons_iff.mp hq'
  exact ⟨p, t, q, rfl, hp, hq⟩

namespace System

variable (T : System σ ℓ)

/-- `tr` is a run of `T` from `s`. -/
def Run : σ → List (ℓ × σ) → Prop
  | _, [] => True
  | s, (l, t) :: tr => T.step s l t ∧ Run t tr

@[simp] theorem run_nil (s : σ) : T.Run s [] := trivial

@[simp] theorem run_cons (s t : σ) (l : ℓ) (tr : List (ℓ × σ)) :
    T.Run s ((l, t) :: tr) ↔ T.step s l t ∧ T.Run t tr := Iff.rfl

theorem run_append (s : σ) (p q : List (ℓ × σ)) :
    T.Run s (p ++ q) ↔ T.Run s p ∧ T.Run (last s p) q := by
  induction p generalizing s with
  | nil => simp
  | cons x p ih => simp only [List.cons_append, Run, last, ih, and_assoc]

end System

/-- Every step of the run meets `C`, which reads the labels taken before the
step (`h` at the start of the run), the state before it and its label. -/
def Guarded (C : List ℓ → σ → ℓ → Prop) : List ℓ → σ → List (ℓ × σ) → Prop
  | _, _, [] => True
  | h, s, (l, t) :: tr => C h s l ∧ Guarded C (h ++ [l]) t tr

section

variable (C : List ℓ → σ → ℓ → Prop) (h : List ℓ)

include C h

@[simp] theorem guarded_nil (s : σ) : Guarded C h s [] := trivial

@[simp] theorem guarded_cons (s t : σ) (l : ℓ) (tr : List (ℓ × σ)) :
    Guarded C h s ((l, t) :: tr) ↔ C h s l ∧ Guarded C (h ++ [l]) t tr := Iff.rfl

theorem guarded_append (s : σ) (p q : List (ℓ × σ)) :
    Guarded C h s (p ++ q) ↔ Guarded C h s p ∧ Guarded C (h ++ labels p) (last s p) q := by
  induction p generalizing h s with
  | nil => simp
  | cons x p ih =>
    obtain ⟨l, t⟩ := x
    simp [ih, and_assoc]

end

variable {T : System σ ℓ} {C : List ℓ → σ → ℓ → Prop} {h : List ℓ} {s : σ} {tr : List (ℓ × σ)}

theorem guarded_of_forall {R : σ → Prop} {L : ℓ → Prop}
    (hR : ∀ u ∈ states s tr, R u) (hL : ∀ l ∈ labels tr, L l) :
    Guarded (fun _ s l => R s ∧ L l) h s tr := by
  induction tr generalizing h s with
  | nil => trivial
  | cons x tr ih =>
    rw [states_cons, List.forall_mem_cons] at hR
    rw [labels_cons, List.forall_mem_cons] at hL
    exact ⟨⟨hR.1, hL.1⟩, ih hR.2 hL.2⟩

theorem Guarded.and {D} (hC : Guarded C h s tr) (hD : Guarded D h s tr) :
    Guarded (fun h s l => C h s l ∧ D h s l) h s tr := by
  induction tr generalizing h s with
  | nil => trivial
  | cons x tr ih => exact ⟨⟨hC.1, hD.1⟩, ih hC.2 hD.2⟩

/-- The invariant rule: what holds at the start and is kept by every guarded
step holds at the end of every guarded run. -/
theorem System.Run.invariant {I : List ℓ → σ → Prop}
    (hstep : ∀ h s l t, I h s → C h s l → T.step s l t → I (h ++ [l]) t)
    (hI : I h s) (hr : T.Run s tr) (hg : Guarded C h s tr) :
    I (h ++ labels tr) (last s tr) := by
  induction tr generalizing h s with
  | nil => simpa using hI
  | cons x tr ih =>
    obtain ⟨l, t⟩ := x
    have ht := ih (hstep h s l t hI hg.1 hr.1) hr.2 hg.2
    simpa using ht

/-- The rule for what holds in every state of a guarded run. -/
theorem System.Run.forall_states (hstep : ∀ h s l t, I s → C h s l → T.step s l t → I t)
    (hI : I s) (hr : T.Run s tr) (hg : Guarded C h s tr) : ∀ u ∈ states s tr, I u := by
  induction tr generalizing h s with
  | nil => simpa using hI
  | cons x tr ih =>
    obtain ⟨l, t⟩ := x
    rw [states_cons, List.forall_mem_cons]
    exact ⟨hI, ih (hstep h s l t hI hg.1 hr.1) hr.2 hg.2⟩

/-- What every step from a state with `I` has holds of all steps of a run whose
states have `I`. -/
theorem System.Run.forall_steps (hstep : ∀ s l t, I s → T.step s l t → P s l t) (hr : T.Run s tr)
    (hI : ∀ u ∈ states s tr, I u) : ∀ x ∈ steps s tr, P x.1 x.2.1 x.2.2 := by
  induction tr generalizing s with
  | nil => simp [steps]
  | cons x tr ih =>
    obtain ⟨l, t⟩ := x
    rw [states_cons, List.forall_mem_cons] at hI
    rw [steps, List.forall_mem_cons]
    exact ⟨hstep s l t hI.1 hr.1, ih hr.2 hI.2⟩

/-- What guarded steps from a state with `I` have, when they keep `I`, holds of all steps of a
guarded run. -/
theorem System.Run.forall_guarded_steps
    (hstep : ∀ h s l t, I s → C h s l → T.step s l t → I t ∧ P s l t) (hI : I s)
    (hr : T.Run s tr) (hg : Guarded C h s tr) : ∀ x ∈ steps s tr, P x.1 x.2.1 x.2.2 := by
  induction tr generalizing h s with
  | nil => simp [steps]
  | cons x tr ih =>
    obtain ⟨l, t⟩ := x
    obtain ⟨ht, hP⟩ := hstep h s l t hI hg.1 hr.1
    rw [steps, List.forall_mem_cons]
    exact ⟨hP, ih ht hr.2 hg.2⟩

/-- The invariant rule for what reads the steps taken so far. -/
theorem System.Run.invariant_steps {I : List (σ × ℓ × σ) → σ → Prop}
    (hstep : ∀ h s l t, I h s → T.step s l t → I (h ++ [(s, l, t)]) t)
    {h : List (σ × ℓ × σ)} (hI : I h s) (hr : T.Run s tr) :
    I (h ++ steps s tr) (last s tr) := by
  induction tr generalizing h s with
  | nil => simpa [steps] using hI
  | cons x tr ih =>
    obtain ⟨l, t⟩ := x
    have ht := ih (hstep h s l t hI hr.1) hr.2
    simpa [steps] using ht

theorem exists_step_of_label (h : l ∈ labels tr) : ∃ u t, (u, l, t) ∈ steps s tr := by
  induction tr generalizing s with
  | nil => simp at h
  | cons x tr ih =>
    obtain ⟨l', t⟩ := x
    rw [labels_cons, List.mem_cons] at h
    rcases h with rfl | h
    · exact ⟨s, t, List.mem_cons_self⟩
    · obtain ⟨u, v, hu⟩ := ih h
      exact ⟨u, v, List.mem_cons_of_mem _ hu⟩

theorem guarded_true (h : List ℓ) (s : σ) (tr : List (ℓ × σ)) :
    Guarded (fun _ _ _ => True) h s tr := by
  induction tr generalizing h s with
  | nil => trivial
  | cons x tr ih => exact ⟨trivial, ih _ _⟩

/-- A guard is exact for `P` when guarded steps keep an invariant that implies
`P` and a step into a state with `P` meets the guard. A run is then guarded
just when all of its states have `P`. -/
theorem System.Run.guarded_iff {I : List ℓ → σ → Prop} {P : σ → Prop}
    (hstep : ∀ h s l t, I h s → C h s l → T.step s l t → I (h ++ [l]) t)
    (hP : ∀ h s, I h s → P s)
    (hex : ∀ h s l t, I h s → T.step s l t → P t → C h s l)
    (hI : I h s) (hr : T.Run s tr) :
    Guarded C h s tr ↔ ∀ u ∈ states s tr, P u := by
  induction tr generalizing h s with
  | nil => simpa using hP h s hI
  | cons x tr ih =>
    obtain ⟨l, t⟩ := x
    rw [guarded_cons, states_cons, List.forall_mem_cons]
    constructor
    · rintro ⟨hC, hg⟩
      exact ⟨hP h s hI, (ih (hstep h s l t hI hC hr.1) hr.2).mp hg⟩
    · rintro ⟨-, hall⟩
      have hC : C h s l := hex h s l t hI hr.1 (hall t (by simp [states]))
      exact ⟨hC, (ih (hstep h s l t hI hC hr.1) hr.2).mpr hall⟩

section Computed

variable {ω ο : Type*}

/-- The system of a partial function from operations to outputs and states. -/
def System.ofOption (init : σ → Prop) (perform : σ → ω → Option (ο × σ)) : System σ (ω × ο) where
  init
  step s l t := perform s l.1 = some (l.2, t)

/-- The run of a list of operations, up to the first that cannot be performed. -/
def trace (perform : σ → ω → Option (ο × σ)) : σ → List ω → List ((ω × ο) × σ)
  | _, [] => []
  | s, op :: ops =>
    match perform s op with
    | none => []
    | some (out, t) => ((op, out), t) :: trace perform t ops

theorem System.run_trace (init : σ → Prop) (perform : σ → ω → Option (ο × σ)) (s : σ)
    (ops : List ω) : (System.ofOption init perform).Run s (trace perform s ops) := by
  induction ops generalizing s with
  | nil => trivial
  | cons _ ops ih =>
    unfold trace
    cases hp : perform s _ with
    | none => trivial
    | some r => exact ⟨hp, ih r.2⟩

theorem mem_of_mem_labels_trace {perform : σ → ω → Option (ο × σ)} {s : σ}
    {ops : List ω} {op : ω} {out : ο} (h : (op, out) ∈ labels (trace perform s ops)) :
    op ∈ ops := by
  induction ops generalizing s with
  | nil => cases h
  | cons _ ops ih =>
    unfold trace at h
    cases hp : perform s _ with rw [hp] at h
    | none => cases h
    | some r =>
      rcases List.mem_cons.mp h with h | h
      · cases h
        exact List.mem_cons_self
      · exact List.mem_cons_of_mem _ (ih h)

/-- A guard that can be evaluated is evaluated along a run. -/
instance guardedDecidable {C : List ℓ → σ → ℓ → Prop} [∀ h s l, Decidable (C h s l)] :
    ∀ h s tr, Decidable (Guarded C h s tr)
  | _, _, [] => .isTrue trivial
  | h, s, (l, t) :: tr =>
    have := guardedDecidable (C := C) (h ++ [l]) t tr
    inferInstanceAs (Decidable (C h s l ∧ Guarded C (h ++ [l]) t tr))

end Computed

end RedevPlugin.Transition
