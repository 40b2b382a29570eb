import RedevPlugin.Foundation.Transition

/-! Simulation by a family of views. A system whose state has many parts that
move on their own, such as the requests of a server, is seen through one view for
each part; every view moves as a small system of its own, in which a step of the
whole may also be a step that changes nothing. What the small systems keep then
holds of every view along the runs of the whole. A system may have states in
which it has stopped, of which nothing is said. -/

namespace RedevPlugin.Transition

variable {σ ℓ ι τ ε : Type*}

/-- Seen through `view i`, a step of `T` is a step of `A i` with an event that
`sees` relates to the label. `Inv` is what the views rely on. -/
structure Simulation (T : System σ ℓ) (A : ι → System τ ε) (view : ι → σ → τ)
    (sees : ι → σ → ℓ → ε → Prop) (alive Inv : σ → Prop) : Prop where
  init : ∀ s, T.init s → Inv s ∧ ∀ i, (A i).init (view i s)
  running : ∀ s l t, T.step s l t → alive s
  step : ∀ s l t, Inv s → T.step s l t → alive t →
    Inv t ∧ ∀ i, ∃ e, sees i s l e ∧ (A i).step (view i s) e (view i t)

variable {alive Inv : σ → Prop} {sees : ι → σ → ℓ → ε → Prop} {view : ι → σ → τ}
  {A : ι → System τ ε} {T : System σ ℓ}

/-- The views may rely on a further invariant. -/
theorem Simulation.and {J : σ → Prop} (S : Simulation T A view sees alive Inv)
    (hin : ∀ s, T.init s → J s) (hstep : ∀ s l t, Inv s → J s → T.step s l t → J t) :
    Simulation T A view sees alive (fun s => Inv s ∧ J s) where
  init s hs := ⟨⟨(S.init s hs).1, hin s hs⟩, (S.init s hs).2⟩
  running := S.running
  step s l t hI ht hal :=
    have h := S.step s l t hI.1 ht hal
    ⟨⟨h.1, hstep s l t hI.1 hI.2 ht⟩, h.2⟩

/-- An invariant of the small systems, kept by their guarded steps, holds of all
views in every state of a guarded run that has not stopped. -/
theorem Simulation.forall_views (S : Simulation T A view sees alive Inv) {I : ι → τ → Prop}
    {G : ι → τ → ε → Prop} {C : List ℓ → σ → ℓ → Prop} (hin : ∀ i q, (A i).init q → I i q)
    (hstep : ∀ i q e q', I i q → G i q e → (A i).step q e q' → I i q')
    (hgu : ∀ h s l, Inv s → C h s l → ∀ i e, sees i s l e → G i (view i s) e) {s : σ}
    {tr : List (ℓ × σ)} (hs : T.init s) (hr : T.Run s tr) (hg : Guarded C [] s tr) :
    ∀ u ∈ states s tr, alive u → Inv u ∧ ∀ i, I i (view i u) := by
  refine System.Run.forall_states (I := fun u => alive u → Inv u ∧ ∀ i, I i (view i u))
    ?_ (fun _ => ⟨(S.init s hs).1, fun i => hin i _ ((S.init s hs).2 i)⟩) hr hg
  intro h s l t hI hC ht hal
  obtain ⟨hs, hview⟩ := hI (S.running s l t ht)
  obtain ⟨hInv, hmo⟩ := S.step s l t hs ht hal
  refine ⟨hInv, fun i => ?_⟩
  obtain ⟨e, he, hm⟩ := hmo i
  exact hstep i _ e _ (hview i) (hgu h s l hs hC i e he) hm

/-- Seen through a view, a run that has not stopped is a run of the small system. -/
theorem Simulation.exists_run (S : Simulation T A view sees alive Inv) (i : ι) {s tr} (h : Inv s)
    (hr : T.Run s tr) (ha : alive (last s tr)) :
    ∃ tr', (A i).Run (view i s) tr' ∧ states (view i s) tr' = (states s tr).map (view i) := by
  induction tr generalizing s with
  | nil => exact ⟨[], trivial, rfl⟩
  | cons x tr ih =>
    obtain ⟨hstep, hr⟩ := hr
    have hal : alive x.2 := by
      cases tr with
      | nil => exact ha
      | cons y _ => exact S.running _ _ _ hr.1
    obtain ⟨ht, hview⟩ := S.step s x.1 x.2 h hstep hal
    obtain ⟨e, -, hmo⟩ := hview i
    obtain ⟨tr', hr', hst⟩ := ih ht hr ha
    exact ⟨(e, view i x.2) :: tr', ⟨hmo, hr'⟩, congrArg (_ :: ·) hst⟩

end RedevPlugin.Transition
