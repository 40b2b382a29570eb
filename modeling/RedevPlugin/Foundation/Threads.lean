import Mathlib.Algebra.Order.BigOperators.Group.Multiset
import RedevPlugin.Foundation.Transition

/-! Calls that run at the same time. A program says what a call does in one section
of its code, given where it stands and the shared state; calls enter at any time and
take their sections in any order. The calls that are in progress are a multiset of
their positions. The rules reduce a statement about all runs to one about a single
section of one call. -/

namespace RedevPlugin.Threads

open Transition

variable {σ κ ω ε : Type*}

/-- What calls at `κ` do to a shared state, for a choice `ω` that the environment makes. A section
has an effect that can be seen, and leaves the call at a new position or ends it. -/
structure Program (σ κ ω ε : Type*) where
  entry : κ → Bool
  advance : σ → κ → ω → Option (ε × σ × Option κ)

/-- The shared state and the positions of the calls in progress. -/
structure Pool (σ κ : Type*) where
  shared : σ
  calls : Multiset κ

inductive Action (κ ω : Type*) where
  | enter (c : κ)
  | advance (c : κ) (o : ω)
  deriving DecidableEq

/-- The position of a call that goes on. -/
def next : Option κ → Multiset κ
  | none => 0
  | some c => {c}

@[simp] theorem next_none : next (none : Option κ) = 0 := rfl

@[simp] theorem next_some (c : κ) : next (some c) = {c} := rfl

/-- What the calls in progress weigh together. -/
def weight (w : κ → ℕ) (calls : Multiset κ) : ℕ := (calls.map w).sum

@[simp] theorem weight_zero (w : κ → ℕ) : weight w 0 = 0 := rfl

@[simp] theorem weight_cons (w : κ → ℕ) (c : κ) (calls : Multiset κ) :
    weight w (c ::ₘ calls) = w c + weight w calls := by
  simp [weight]

@[simp] theorem weight_next (w : κ → ℕ) (n : Option κ) (calls : Multiset κ) :
    weight w (next n + calls) = n.elim 0 w + weight w calls := by
  cases n <;> simp [weight]

variable {calls : Multiset κ} {c : κ} {w : κ → ℕ}

/-- A call that goes on swaps its weight. -/
theorem weight_swap {n a b} (ha : a = weight w (c ::ₘ calls)) (hb : b + w c = a + n.elim 0 w) :
    b = weight w (next n + calls) := by
  rw [weight_cons] at ha
  rw [weight_next]
  omega

theorem le_weight (w : κ → ℕ) (h : c ∈ calls) : w c ≤ weight w calls := by
  obtain ⟨rest, rfl⟩ := Multiset.exists_cons_of_mem h
  rw [weight_cons]
  exact Nat.le_add_right _ _

theorem weight_eq_zero (h : ∀ c ∈ calls, w c = 0) : weight w calls = 0 := by
  induction calls using Multiset.induction with
  | empty => rfl
  | cons c _ ih =>
    rw [weight_cons, h c (Multiset.mem_cons_self c _),
      ih fun d hd => h d (Multiset.mem_cons_of_mem hd)]

theorem exists_of_weight_ne_zero (h : weight w calls ≠ 0) : ∃ c ∈ calls, w c ≠ 0 := by
  by_contra hnone
  push Not at hnone
  exact h (weight_eq_zero hnone)

theorem mem_next_add {n} : c ∈ next n + calls ↔ n = some c ∨ c ∈ calls := by
  cases n <;> simp [eq_comm]

namespace Program

variable [DecidableEq κ] (P : Program σ κ ω ε)

def perform (s : Pool σ κ) : Action κ ω → Option (Option ε × Pool σ κ)
  | .enter c => if P.entry c then some (none, ⟨s.shared, c ::ₘ s.calls⟩) else none
  | .advance c o =>
    if c ∈ s.calls then
      (P.advance s.shared c o).map fun r => (some r.1, ⟨r.2.1, next r.2.2 + s.calls.erase c⟩)
    else none

/-- Runs start without calls. -/
def system (init : σ → Prop) : System (Pool σ κ) (Action κ ω × Option ε) :=
  .ofOption (fun s => init s.shared ∧ s.calls = 0) P.perform

variable {P} {init : σ → Prop} {s t : Pool σ κ} {tr : List ((Action κ ω × Option ε) × Pool σ κ)}
  {h : List (Action κ ω × Option ε)} {I : σ → Multiset κ → Prop}

/-- A step is the entry of a call or a section of a call in progress. -/
theorem step_cases {l} (h : (P.system init).step s l t) :
    (∃ c, P.entry c = true ∧ l = (.enter c, none) ∧ t = ⟨s.shared, c ::ₘ s.calls⟩) ∨
    (∃ c o e u n rest, l = (.advance c o, some e) ∧ s.calls = c ::ₘ rest ∧
      P.advance s.shared c o = some (e, u, n) ∧ t = ⟨u, next n + rest⟩) := by
  obtain ⟨a, e⟩ := l
  cases a with
  | enter c =>
    have hstep : P.perform s (.enter c) = some (e, t) := h
    simp only [perform, Option.ite_none_right_eq_some, Option.some.injEq, Prod.mk.injEq] at hstep
    obtain ⟨hen, rfl, rfl⟩ := hstep
    exact .inl ⟨c, hen, rfl, rfl⟩
  | advance c o =>
    have hstep : P.perform s (.advance c o) = some (e, t) := h
    simp only [perform, Option.ite_none_right_eq_some, Option.map_eq_some_iff, Prod.mk.injEq]
      at hstep
    obtain ⟨hc, ⟨e, u, n⟩, had, rfl, rfl⟩ := hstep
    exact .inr ⟨c, o, e, u, n, s.calls.erase c, rfl, (Multiset.cons_erase hc).symm, had, rfl⟩

variable {C : List (Action κ ω × Option ε) → Pool σ κ → Action κ ω × Option ε → Prop}

section

variable {I : List (Action κ ω × Option ε) → σ → Multiset κ → Prop}
  (hin : init s.shared → I [] s.shared 0)
  (hen : ∀ h s calls c, P.entry c = true → I h s calls →
    I (h ++ [(.enter c, none)]) s (c ::ₘ calls))

include hin hen

/-- The invariant rule: what holds before any call, is kept when a call enters and by every section
of every call that meets the guard holds in all guarded runs. It may read the steps taken so far. -/
theorem guarded_invariant
    (had : ∀ h s rest c o e t n, I h s (c ::ₘ rest) →
      C h ⟨s, c ::ₘ rest⟩ (.advance c o, some e) → P.advance s c o = some (e, t, n) →
      I (h ++ [(.advance c o, some e)]) t (next n + rest))
    (hs : (P.system init).init s) (hr : (P.system init).Run s tr) (hg : Guarded C [] s tr) :
    I (labels tr) (last s tr).shared (last s tr).calls := by
  have hsta : I [] s.shared s.calls := hs.2 ▸ hin hs.1
  have hstep : ∀ h (s : Pool σ κ) l (t : Pool σ κ), I h s.shared s.calls → C h s l →
      (P.system init).step s l t → I (h ++ [l]) t.shared t.calls := by
    intro h s l t hI hC hst
    obtain ⟨s, calls⟩ := s
    obtain ⟨c, hc, rfl, rfl⟩ | ⟨c, o, e, u, n, rest, rfl, hca, hadv, rfl⟩ := step_cases hst
    · exact hen h s calls c hc hI
    · cases hca
      exact had h s rest c o e u n hI hC hadv
  exact System.Run.invariant (I := fun h (u : Pool σ κ) => I h u.shared u.calls) hstep hsta hr hg

theorem invariant
    (had : ∀ h s rest c o e t n, I h s (c ::ₘ rest) → P.advance s c o = some (e, t, n) →
      I (h ++ [(.advance c o, some e)]) t (next n + rest))
    (hs : (P.system init).init s) (hr : (P.system init).Run s tr) :
    I (labels tr) (last s tr).shared (last s tr).calls :=
  guarded_invariant hin hen (fun h s rest c o e t n hI _ => had h s rest c o e t n hI) hs hr
    (guarded_true [] s tr)

end

/-- The rule for guarded runs: what is kept when a call enters and by every section that meets
the guard holds in every state, and what these sections have holds of every step. -/
theorem forall_guarded {E : Pool σ κ → Action κ ω × Option ε → Prop}
    (hen : ∀ h s calls c, P.entry c = true → C h ⟨s, calls⟩ (.enter c, none) → I s calls →
      I s (c ::ₘ calls) ∧ E ⟨s, calls⟩ (.enter c, none))
    (had : ∀ h s rest c o e t n, I s (c ::ₘ rest) →
      C h ⟨s, c ::ₘ rest⟩ (.advance c o, some e) → P.advance s c o = some (e, t, n) →
      I t (next n + rest) ∧ E ⟨s, c ::ₘ rest⟩ (.advance c o, some e)) (hs : I s.shared s.calls)
    (hr : (P.system init).Run s tr) (hg : Guarded C h s tr) :
    (∀ u ∈ states s tr, I u.shared u.calls) ∧ ∀ x ∈ steps s tr, E x.1 x.2.1 := by
  have hstep : ∀ h (u : Pool σ κ) l (t : Pool σ κ), I u.shared u.calls → C h u l →
      (P.system init).step u l t → I t.shared t.calls ∧ E u l := by
    intro h u l t hI hC hst
    obtain ⟨u, calls⟩ := u
    obtain ⟨c, hc, rfl, rfl⟩ | ⟨c, o, e, v, n, rest, rfl, hca, hadv, rfl⟩ := step_cases hst
    · exact hen h u calls c hc hC hI
    · cases hca
      exact had h u rest c o e v n hI hC hadv
  exact ⟨hr.forall_states (fun h u l t hI hC hst => (hstep h u l t hI hC hst).1) hs hg,
    hr.forall_guarded_steps hstep hs hg⟩

section

variable (hen : ∀ s calls c, P.entry c = true → I s calls → I s (c ::ₘ calls))

include hen

/-- The rule for what holds in every state from one on. -/
theorem forall_states_from
    (had : ∀ s rest c o e t n, I s (c ::ₘ rest) → P.advance s c o = some (e, t, n) →
      I t (next n + rest)) (hs : I s.shared s.calls) (hr : (P.system init).Run s tr) :
    ∀ u ∈ states s tr, I u.shared u.calls :=
  (forall_guarded (E := fun _ _ => True) (fun _ s calls c hc _ hI => ⟨hen s calls c hc hI, trivial⟩)
    (fun _ s rest c o e t n hI _ hadv => ⟨had s rest c o e t n hI hadv, trivial⟩) hs hr
    (guarded_true [] s tr)).1

/-- The rule for what can be seen from a state on. -/
theorem forall_events_from {E : ε → Prop}
    (had : ∀ s rest c o e t n, I s (c ::ₘ rest) → P.advance s c o = some (e, t, n) →
      I t (next n + rest) ∧ E e) (hs : I s.shared s.calls) (hr : (P.system init).Run s tr)
    {a : Action κ ω} {e : ε} (he : (a, some e) ∈ labels tr) : E e := by
  obtain ⟨u, v, hmem⟩ := exists_step_of_label (s := s) he
  refine (forall_guarded (E := fun _ l => ∀ e, l.2 = some e → E e)
    (fun _ s calls c hc _ hI => ⟨hen s calls c hc hI, nofun⟩)
    (fun _ s rest c o e t n hI _ hadv => ?_) hs hr (guarded_true [] s tr)).2 _ hmem e rfl
  obtain ⟨ht, he⟩ := had s rest c o e t n hI hadv
  exact ⟨ht, fun e' h => Option.some.inj h ▸ he⟩

end

theorem forall_states (hin : ∀ s, init s → I s 0)
    (hen : ∀ s calls c, P.entry c = true → I s calls → I s (c ::ₘ calls))
    (had : ∀ s rest c o e t n, I s (c ::ₘ rest) → P.advance s c o = some (e, t, n) →
      I t (next n + rest))
    (hs : (P.system init).init s) (hr : (P.system init).Run s tr) :
    ∀ u ∈ states s tr, I u.shared u.calls :=
  forall_states_from hen had (hs.2 ▸ hin s.shared hs.1) hr

/-- The rule for what ends: if under an invariant every section that meets the guard lowers the
cost of its call, a run without entries is no longer than the cost of its calls. -/
theorem length_add_weight_le {cost} (had : ∀ h s rest c o e t n, I s (c ::ₘ rest) →
      C h ⟨s, c ::ₘ rest⟩ (.advance c o, some e) → P.advance s c o = some (e, t, n) →
      I t (next n + rest) ∧ n.elim 0 cost < cost c) (hs : I s.shared s.calls)
    (hr : (P.system init).Run s tr) (hg : Guarded C h s tr)
    (hno : ∀ l ∈ labels tr, ∀ c, l.1 ≠ .enter c) :
    tr.length + weight cost (last s tr).calls ≤ weight cost s.calls := by
  induction tr generalizing h s with
  | nil => simp
  | cons x tr ih =>
    obtain ⟨l, v⟩ := x
    obtain ⟨s, calls⟩ := s
    rw [labels_cons, List.forall_mem_cons] at hno
    obtain ⟨c, -, rfl, -⟩ | ⟨c, o, e, t, n, rest, rfl, hca, hadv, rfl⟩ := step_cases hr.1
    · exact absurd rfl (hno.1 c)
    obtain rfl : calls = c ::ₘ rest := hca
    obtain ⟨ht, hle⟩ := had h s rest c o e t n hs hg.1 hadv
    have hre := ih ht hr.2 hg.2 hno.2
    rw [weight_next] at hre
    rw [weight_cons, List.length_cons, last_cons]
    omega

end Program

end RedevPlugin.Threads
