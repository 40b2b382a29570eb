import RedevPlugin.Session.Gates

/-! What the records say about a run. The events of a run tell whether a teardown of a
scope was begun and not yet finalized. A reservation is granted only when there is no
such teardown. A gate that waiting calls have kept may still be fenced when the teardown
is finalized, and a `Finalize` that takes it then refuses reservations without one. If
none does, a reservation is refused only while there is a teardown or one is begun. -/

namespace RedevPlugin.Session

open Threads Transition
open Coordinator (program newGate setGate signalGateLocked markGateFenced gateLocked
  cleanupGateLocked releaseReservation releaseTeardown leaveWait)
open Multiset (mem_cons mem_cons_of_mem mem_cons_self induction)

abbrev Label (S : Type) : Type := Action (Call S) Choice × Option (Event S)

variable {S : Type} {k : S} {h h' : List (Label S)} {initial : S → Bool} {n : Option (Call S)}
  {e : Event S} {o : Choice} {c : Call S} {s t : Coordinator S} {calls rest : Multiset (Call S)}
  {a : Action (Call S) Choice} {g : ℕ} {l : Label S}
  {p q : List (Label S × Pool (Coordinator S) (Call S))}

/-- The call owns the gate of the scope: it is in `BeginTeardown` or `Finalize`, or the teardown
was returned and not yet released. -/
def Call.Owns (k : S) (c : Call S) : Prop := ∃ g, c.at = some (k, g) ∧ c.load.2.1 = 1

/-- The call is in `BeginTeardown` and owns the gate, or the teardown was returned and not yet
released. -/
def Call.Begins (k : S) (c : Call S) : Prop := c.Owns k ∧ c.finalizing = none

/-- A reservation of the gate is outstanding, from the section of `Reserve` that counts it until it
is released. -/
def Call.reserves (g : ℕ) : Call S → Bool
  | .reserveGet _ g' | .reserveDrop _ g' _ | .reservation _ g' => g' = g
  | _ => false

theorem Call.loadOn_fst (g : ℕ) (c : Call S) :
    (c.loadOn g).1 = if c.reserves g = true then 1 else 0 := by
  cases c <;> simp only [Call.loadOn, Call.at, Call.load, Call.reserves, Option.map_some,
    Option.map_none, Option.some.injEq, decide_eq_true_eq, reduceCtorEq, if_false]
  all_goals first | rfl | (split_ifs <;> rfl)

theorem total_fst (calls : Multiset (Call S)) (g : ℕ) :
    (total calls g).1 = calls.countP (fun c => c.reserves g = true) := by
  induction calls using induction with
  | empty => rfl
  | cons c calls ih =>
    rw [total_cons, Prod.fst_add, ih, Call.loadOn_fst, Multiset.countP_cons, add_comm]

theorem exists_of_total (h : (total calls g).2.1 ≠ 0) :
    ∃ c ∈ calls, (c.loadOn g).2.1 ≠ 0 := by
  induction calls using induction with
  | empty => exact absurd rfl h
  | cons c _ ih =>
    by_cases hc : (c.loadOn g).2.1 = 0
    · rw [total_cons, Prod.snd_add, Prod.fst_add, hc, zero_add] at h
      obtain ⟨d, hd, hload⟩ := ih h
      exact ⟨d, mem_cons_of_mem hd, hload⟩
    · exact ⟨c, mem_cons_self c _, hc⟩

/-- A gate is loaded by the calls at it. -/
theorem exists_at (h : Coherent s calls) (hg : s.gates k = some g) :
    ∃ c ∈ calls, c.at = some (k, g) := by
  by_contra hnone
  push Not at hnone
  refine h.used k g hg ?_
  rw [h.load k g hg]
  apply Multiset.sum_eq_zero
  intro x hx
  obtain ⟨c, hc, rfl⟩ := Multiset.mem_map.mp hx
  rw [Call.loadOn, if_neg]
  intro hga
  obtain ⟨⟨k', g'⟩, hat, rfl⟩ := Option.map_eq_some_iff.mp hga
  have hk : k' = k := h.injective k' k g' (h.refs c hc k' g' hat) hg
  exact hnone c hc (hk ▸ hat)

/-- Whoever finds the flag set finds an owner. -/
theorem exists_owner (h : Loose s calls) (hg : s.gates k = some g)
    (hteardown : (s.heap g).teardown = true) : ∃ c ∈ calls, c.Owns k := by
  have hto : (total calls g).2.1 = 1 := by
    rw [← h.load k g hg, ScopeGate.load, hteardown]
    rfl
  obtain ⟨c, hc, hload⟩ := exists_of_total (show (total calls g).2.1 ≠ 0 by omega)
  cases hat : c.at with
  | none => simp [Call.loadOn, hat] at hload
  | some r =>
    obtain ⟨k', g'⟩ := r
    by_cases hne : g' = g
    · subst hne
      have hk : k' = k := h.injective k' k g' (h.refs c hc k' g' hat) hg
      have hle := loadOn_le_total hc g'
      rw [Call.loadOn_of_at hat] at hload hle
      have hone : c.load.2.1 ≤ 1 := hto ▸ hle.2.1
      exact ⟨c, hc, g', hk ▸ hat, by omega⟩
    · rw [Call.loadOn_of_ne (.inr hat) (Ne.symm hne)] at hload
      exact absurd rfl hload

variable [DecidableEq S]

/-- Whether a scope has a record after an event. -/
def recordedAfter (k : S) (b : Bool) (l : Label S) : Bool :=
  match l.2 with
  | some (.written k') => if k' = k then true else b
  | some (.finalized k') => if k' = k then false else b
  | _ => b

/-- The teardown of a scope was begun and not finalized since. -/
def recorded (initial : S → Bool) (h : List (Label S)) (k : S) : Bool :=
  h.foldl (recordedAfter k) (initial k)

theorem recorded_concat (initial : S → Bool) (h : List (Label S)) (l : Label S) (k : S) :
    recorded initial (h ++ [l]) k = recordedAfter k (recorded initial h k) l := by
  rw [recorded, List.foldl_append]
  rfl

/-- Only `Finalize` ends it. -/
theorem recorded_append (hrec : recorded initial h k = true)
    (hnot : ∀ l ∈ h', l.2 ≠ some (.finalized k)) : recorded initial (h ++ h') k = true := by
  induction h' generalizing h with
  | nil => rwa [List.append_nil]
  | cons l h' ih =>
    rw [List.forall_mem_cons] at hnot
    rw [List.append_cons]
    refine ih ?_ hnot.2
    rw [recorded_concat, hrec, recordedAfter]
    split
    · exact ite_self _
    · rename_i k' hl
      exact if_neg fun heq : k' = k => hnot.1 (heq ▸ hl)
    · rfl

/-! ### Records and events of a section -/

section

variable (s : Coordinator S) (k : S) (g : ℕ)

omit [DecidableEq S] in
@[simp] theorem setGate_records (gate : ScopeGate) : (s.setGate g gate).records = s.records := rfl

omit [DecidableEq S] in
@[simp] theorem markGateFenced_records : (s.markGateFenced k g).records = s.records := by
  rw [markGateFenced]
  split <;> rfl

@[simp] theorem gateLocked_records : (s.gateLocked k).2.records = s.records := by
  rw [gateLocked]
  split <;> rfl

@[simp] theorem cleanupGateLocked_records : (s.cleanupGateLocked k g).records = s.records := by
  rw [cleanupGateLocked]
  split <;> rfl

@[simp] theorem releaseReservation_records : (s.releaseReservation k g).records = s.records := by
  rw [releaseReservation]
  split <;> simp

@[simp] theorem releaseTeardown_records : (s.releaseTeardown k g).records = s.records := by
  rw [releaseTeardown]
  split <;> simp

@[simp] theorem leaveWait_records : (s.leaveWait k g).records = s.records := by
  simp [leaveWait]

end

/-! ### Records along a run -/

/-- The records agree with the events about a scope. -/
structure FencedAt (initial : S → Bool) (h : List (Label S)) (s : Coordinator S)
    (calls : Multiset (Call S)) (k : S) : Prop where
  mark : ∀ g, .mark k g ∈ calls → s.records k = true
  drop : ∀ g, .reserveDrop k g true ∈ calls → s.records k = true
  release : ∀ g, .release .finalize k g true ∈ calls → s.records k = false
  sound : s.records k = true → recorded initial h k = true
  complete : recorded initial h k = true →
    s.records k = true ∨ ∃ g, .release .finalize k g true ∈ calls

structure Fenced (initial : S → Bool) (h : List (Label S)) (s : Coordinator S)
    (calls : Multiset (Call S)) : Prop extends Coherent s calls where
  scope : ∀ k, FencedAt initial h s calls k

theorem Fenced.enter (hI : Fenced initial h s calls) (hc : program.entry c = true) :
    Fenced initial (h ++ [(.enter c, none)]) s (c ::ₘ calls) := by
  have hat : c.at = none := by
    cases c <;> first | rfl | cases hc
  have hmem : ∀ d : Call S, d.at ≠ none → d ∈ c ::ₘ calls → d ∈ calls := by
    intro d hd hmem
    rcases mem_cons.mp hmem with rfl | hmem
    · exact absurd hat hd
    · exact hmem
  refine ⟨(coherent_cons_iff hat).mpr hI.toCoherent, fun k => ?_⟩
  have hrec : recorded initial (h ++ [(.enter c, none)]) k = recorded initial h k :=
    recorded_concat initial h _ k
  have hk := hI.scope k
  refine ⟨fun g hg => hk.mark g (hmem _ (by simp [Call.at]) hg),
    fun g hg => hk.drop g (hmem _ (by simp [Call.at]) hg),
    fun g hg => hk.release g (hmem _ (by simp [Call.at]) hg), hrec ▸ hk.sound, fun hre => ?_⟩
  exact (hk.complete (hrec ▸ hre)).imp_right (Exists.imp fun g hg => mem_cons_of_mem hg)

/-- A section that does not change what is known of a scope. -/
theorem Fenced.frame (hI : Fenced initial h s (c ::ₘ rest)) (hrecords : t.records k = s.records k)
    (hrec : recorded initial h' k = recorded initial h k)
    (hn : ∀ d ∈ n, d.tells = true → ∀ g, d.at = some (k, g) →
      d = .reserveDrop k g true ∧ s.records k = true)
    (hc : ∀ g, c ≠ .release .finalize k g true) : FencedAt initial h' t (next n + rest) k := by
  constructor <;> rw [hrecords] <;> try rw [hrec]
  · intro g hk
    rcases mem_next_add.mp hk with hk | hk
    · exact absurd (hn _ hk rfl g rfl).1 (by simp)
    · exact (hI.scope k).mark g (mem_cons_of_mem hk)
  · intro g hk
    rcases mem_next_add.mp hk with hk | hk
    · exact (hn _ hk rfl g rfl).2
    · exact (hI.scope k).drop g (mem_cons_of_mem hk)
  · intro g hk
    rcases mem_next_add.mp hk with hk | hk
    · exact absurd (hn _ hk rfl g rfl).1 (by simp)
    · exact (hI.scope k).release g (mem_cons_of_mem hk)
  · exact (hI.scope k).sound
  · intro hk
    rcases (hI.scope k).complete hk with hk | ⟨g, hg⟩
    · exact .inl hk
    · rcases mem_cons.mp hg with hg | hg
      · exact absurd hg.symm (hc g)
      · exact .inr ⟨g, mem_next_add.mpr (.inr hg)⟩

theorem Fenced.write {d} (hI : Fenced initial h s (.store .begin k g ::ₘ rest))
    (hd : d = .mark k g ∨ d = .release .begin k g false)
    (hco : Coherent (s.setRecord k true) (next (some d) + rest)) :
    Fenced initial (h ++ [(a, some (.written k))]) (s.setRecord k true) (next (some d) + rest) := by
  refine ⟨hco, fun k' => ?_⟩
  by_cases hne : k' = k
  · subst hne
    have hse : (s.setRecord k' true).records k' = true := Function.update_self ..
    refine ⟨fun _ _ => hse, fun _ _ => hse, fun g' hk => ?_, fun _ => ?_, fun _ => .inl hse⟩
    · rcases mem_next_add.mp hk with hk | hk
      · rcases hd with rfl | rfl <;> cases hk
      · exact (hI.owner_unique hk rfl rfl rfl rfl).elim
    · rw [recorded_concat]
      exact if_pos rfl
  · refine hI.frame (Function.update_of_ne hne _ _)
      ((recorded_concat initial h _ k').trans (if_neg (Ne.symm hne))) ?_ (by simp)
    rintro d' ⟨⟩ - g' hat
    rcases hd with rfl | rfl <;> cases hat <;> exact absurd rfl hne

theorem Fenced.delete (hI : Fenced initial h s (.store .finalize k g ::ₘ rest))
    (hco : Coherent (s.setRecord k false) (next (some (.release .finalize k g true)) + rest)) :
    Fenced initial (h ++ [(a, some .silent)]) (s.setRecord k false)
      (next (some (.release .finalize k g true)) + rest) := by
  refine ⟨hco, fun k' => ?_⟩
  by_cases hne : k' = k
  · subst hne
    have hse : (s.setRecord k' false).records k' = false := Function.update_self ..
    refine ⟨fun g' hk => ?_, fun g' hk => ?_, fun _ _ => hse, fun hk => ?_,
      fun _ => .inr ⟨g, by simp⟩⟩
    · rcases mem_next_add.mp hk with hk | hk
      · cases hk
      · exact (hI.owner_unique hk rfl rfl rfl rfl).elim
    · rcases mem_next_add.mp hk with hk | hk
      · cases hk
      · exact (hI.exclusive (mem_cons_of_mem hk) (mem_cons_self _ rest) rfl rfl
          rfl rfl).elim
    · cases hse.symm.trans hk
  · refine hI.frame (Function.update_of_ne hne _ _) (recorded_concat initial h _ k') ?_ (by simp)
    rintro d ⟨⟩ - g' ⟨⟩
    exact absurd rfl hne

theorem Fenced.finalized (hI : Fenced initial h s (.release .finalize k g true ::ₘ rest))
    (ht : t.records = s.records) (hco : Coherent t (next none + rest)) :
    Fenced initial (h ++ [(a, some (.finalized k))]) t (next none + rest) := by
  refine ⟨hco, fun k' => ?_⟩
  by_cases hne : k' = k
  · subst hne
    have hfa := ht ▸ (hI.scope k').release g (mem_cons_self _ rest)
    have hmem : ∀ {d : Call S}, d ∈ next none + rest → d ∈ .release .finalize k' g true ::ₘ rest :=
      fun hd => mem_cons_of_mem (by simpa using hd)
    refine ⟨fun g' hk => ht ▸ (hI.scope k').mark g' (hmem hk),
      fun g' hk => ht ▸ (hI.scope k').drop g' (hmem hk), fun _ _ => hfa, fun hk => ?_, fun hk => ?_⟩
    · cases hfa.symm.trans hk
    · rw [recorded_concat] at hk
      exact absurd hk (by simp [recordedAfter])
  · refine hI.frame (congrFun ht k')
      ((recorded_concat initial h _ k').trans (if_neg (Ne.symm hne))) (by simp) ?_
    rintro g' ⟨⟩
    exact hne rfl

/-- The other sections say nothing of records, or have found one. -/
theorem Fenced.untouched (hI : Fenced initial h s (c ::ₘ rest)) (ht : t.records = s.records)
    (he : ∀ k b, recordedAfter k b (a, some e) = b)
    (hn : ∀ d ∈ n, d.tells = true → ∃ k g, d = .reserveDrop k g true ∧ s.records k = true)
    (hc : ∀ k g, c ≠ .release .finalize k g true) (hco : Coherent t (next n + rest)) :
    Fenced initial (h ++ [(a, some e)]) t (next n + rest) := by
  refine ⟨hco, fun k => hI.frame (congrFun ht k) ?_ ?_ (hc k)⟩
  · rw [recorded_concat, he]
  · intro d hd htells g hat
    obtain ⟨k', g', rfl, hrec⟩ := hn d hd htells
    cases hat
    exact ⟨rfl, hrec⟩

theorem Fenced.advance (hI : Fenced initial h s (c ::ₘ rest))
    (hstep : s.advance c o = some (e, t, n)) :
    Fenced initial (h ++ [(.advance c o, some e)]) t (next n + rest) := by
  have hsec := advance_section hstep
  have hco := hsec.coherent hI.toCoherent
  cases hsec with
  | written hd => exact hI.write hd hco
  | deleted => exact hI.delete hco
  | @refused k _ _ hu =>
    have ht := gateLocked_records s k
    rw [hu] at ht
    exact hI.untouched ht (fun _ _ => rfl) (by simp) (by simp) hco
  | @arrived _ _ k _ _ _ hu hc _ _ _ _ htells =>
    have ht := gateLocked_records s k
    rw [hu] at ht
    refine hI.untouched ht (fun _ _ => rfl) (by simp [htells]) ?_ hco
    rintro k' g' rfl
    cases hc
  | left _ hload hn he =>
    refine hI.untouched (by simp) (by rcases he with rfl | rfl <;> exact fun _ _ => rfl) ?_ ?_ hco
    · intro d hd htells
      have hnone := hn d hd
      cases d <;> simp [Call.at, Call.tells] at hnone htells
    · rintro k' g' rfl
      cases hload
  | stayed ht _ _ _ _ _ hctells htells =>
    subst ht
    refine hI.untouched rfl (fun _ _ => rfl) (by simp [htells]) ?_ hco
    rintro k' g' rfl
    cases hctells
  | woken => exact hI.untouched rfl (fun _ _ => rfl) (by simp [Call.tells]) (by simp) hco
  | canceled => exact hI.untouched (by simp) (fun _ _ => rfl) (by simp) (by simp) hco
  | @moved _ _ k g _ _ _ _ _ hctells htells _ he =>
    refine hI.untouched rfl ?_ ?_ ?_ hco
    · rcases he with rfl | ⟨rfl, -⟩ <;> exact fun _ _ => rfl
    · rintro d' ⟨⟩ hd'
      exact ⟨k, g, htells hd'⟩
    · rintro k' g' rfl
      cases hctells
  | marked => exact hI.untouched (by simp) (fun _ _ => rfl) (by simp [Call.tells]) (by simp) hco
  | unreserved _ hload he =>
    refine hI.untouched (by simp) ?_ (by simp) ?_ hco
    · rcases he with rfl | rfl | ⟨rfl, -⟩ <;> exact fun _ _ => rfl
    · rintro k' g' rfl
      cases hload
  | released _ _ he =>
    rcases he with ⟨rfl, rfl⟩ | ⟨hctells, he⟩
    · exact hI.finalized (by simp) hco
    · refine hI.untouched (by simp) (by rcases he with rfl | rfl <;> exact fun _ _ => rfl) (by simp)
        ?_ hco
      rintro k' g' rfl
      cases hctells

theorem fenced_new (hs : s.New) : Fenced s.records [] s 0 :=
  ⟨coherent_new hs, fun k => ⟨by simp, by simp, by simp, id, .inl⟩⟩

/-! ### Fenced gates -/

/-- A `Finalize` does not take a gate that is fenced while the scope has no record. -/
def takesRecorded (s : Coordinator S) : Action (Call S) Choice → Bool
  | .advance (.acquire .finalize k) _ =>
    match s.gates k with
    | some g => (s.heap g).teardown || !(s.heap g).fenced || s.records k
    | none => true
  | _ => true

def TakesRecorded (_ : List (Label S)) (s : Pool (Coordinator S) (Call S)) (l : Label S) : Prop :=
  takesRecorded s.shared l.1 = true

instance (h : List (Label S)) (s : Pool (Coordinator S) (Call S)) (l : Label S) :
    Decidable (TakesRecorded h s l) := inferInstanceAs (Decidable (_ = true))

omit [DecidableEq S] in
theorem setGate_fenced {gate : ScopeGate} (h : gate.fenced = (s.heap g).fenced) (g' : ℕ) :
    ((s.setGate g gate).heap g').fenced = (s.heap g').fenced := by
  rcases eq_or_ne g' g with rfl | hne
  · simp [setGate, h]
  · simp [setGate, hne]

theorem cleanupGateLocked_heap (s : Coordinator S) (k : S) (g : ℕ) :
    (s.cleanupGateLocked k g).heap = s.heap := by
  rw [cleanupGateLocked]
  split <;> rfl

theorem gateLocked_fenced {u g'} (hu : s.gateLocked k = (g', u)) (h : (u.heap g).fenced = true) :
    (s.heap g).fenced = true := by
  unfold gateLocked at hu
  split at hu <;> cases hu
  · exact h
  · rcases eq_or_ne g s.next with rfl | hne
    · simp [newGate] at h
    · simpa [hne] using h

/-- A gate is fenced by its owner only. -/
theorem Section.fenced (hsec : Section s c e t n) (h : (t.heap g).fenced = true) :
    (s.heap g).fenced = true ∨ ∃ k, c = .mark k g := by
  cases hsec with
  | refused hu => exact .inl (gateLocked_fenced hu h)
  | arrived hu _ _ _ _ _ _ hfenced =>
    rw [setGate_fenced hfenced] at h
    exact .inl (gateLocked_fenced hu h)
  | left =>
    rw [leaveWait, cleanupGateLocked_heap, setGate_fenced (by rfl)] at h
    exact .inl h
  | stayed ht _ _ _ _ _ _ _ hfenced =>
    rw [ht, setGate_fenced hfenced] at h
    exact .inl h
  | woken =>
    rw [setGate_fenced (by rfl)] at h
    exact .inl h
  | canceled =>
    rw [cleanupGateLocked_heap, setGate_fenced (by rfl)] at h
    exact .inl h
  | moved | written | deleted => exact .inl h
  | @marked k g' =>
    rw [markGateFenced] at h
    split at h
    · exact .inl h
    · rcases eq_or_ne g g' with rfl | hne
      · exact .inr ⟨k, rfl⟩
      · exact .inl (by simpa [setGate, hne] using h)
  | unreserved =>
    rw [releaseReservation] at h
    split at h
    · exact .inl h
    · rw [cleanupGateLocked_heap, setGate_fenced (by rfl)] at h
      exact .inl h
  | released =>
    rw [releaseTeardown] at h
    split at h
    · exact .inl h
    · rw [cleanupGateLocked_heap, setGate_fenced (by rfl)] at h
      exact .inl h

/-- A `Finalize` owns the gate after a section if it did before or has just taken it. -/
theorem Section.finalizing {d} (hsec : Section s c e t (some d)) (h : d.finalizing = some (k, g)) :
    c.finalizing = some (k, g) ∨
      c = .acquire .finalize k ∧ ∃ u, s.gateLocked k = (g, u) ∧ (u.heap g).teardown = false ∧
        (t.heap g).fenced = (u.heap g).fenced := by
  obtain ⟨hat, -⟩ := Call.at_of_finalizing h
  cases hsec with
  | arrived hu _ hd _ _ _ _ hfenced hfin =>
    cases hd.symm.trans hat
    rcases hfin with hfin | ⟨hc, hteardown⟩
    · cases hfin.symm.trans h
    · exact .inr ⟨hc, _, hu, hteardown, setGate_fenced hfenced g⟩
  | left _ _ hn => cases (hn d rfl).symm.trans hat
  | stayed _ _ _ _ _ _ _ _ _ hfin => exact .inl (hfin ▸ h)
  | @woken op =>
    cases op with
    | begin => cases h
    | finalize => exact .inl h
  | moved _ _ _ _ _ _ hfin => exact .inl (hfin ▸ h)
  | written hd => rcases hd with rfl | rfl <;> cases h
  | deleted => exact .inl h
  | marked => cases h

theorem Section.finalized (hsec : Section s c (.finalized k) t n) :
    n = none ∧ ∃ g, c = .release .finalize k g true := by
  cases hsec with
  | left _ _ _ he => rcases he with he | he <;> cases he
  | moved _ _ _ _ _ _ _ he => rcases he with he | ⟨he, -⟩ <;> cases he
  | unreserved _ _ he => rcases he with he | he | ⟨he, -⟩ <;> cases he
  | @released _ _ g _ _ _ he =>
    rcases he with ⟨⟨⟩, hc⟩ | ⟨-, he | he⟩
    · exact ⟨rfl, g, hc⟩
    · cases he
    · cases he

/-- Besides, whoever finalizes a fenced gate finalizes a teardown. -/
structure Justified (initial : S → Bool) (h : List (Label S)) (s : Coordinator S)
    (calls : Multiset (Call S)) : Prop extends Fenced initial h s calls where
  finalizes : ∀ c ∈ calls, ∀ k g, c.finalizing = some (k, g) → (s.heap g).fenced = true →
    recorded initial h k = true

theorem Justified.enter (hI : Justified initial h s calls) (hc : program.entry c = true) :
    Justified initial (h ++ [(.enter c, none)]) s (c ::ₘ calls) := by
  refine ⟨hI.toFenced.enter hc, fun d hd k g hfin hfenced => ?_⟩
  rcases mem_cons.mp hd with rfl | hd
  · cases d <;> first | cases hfin | cases hc
  · exact (recorded_concat initial h _ k).trans (hI.finalizes d hd k g hfin hfenced)

theorem Justified.advance (hI : Justified initial h s (c ::ₘ rest))
    (htakes : takesRecorded s (.advance c o) = true) (hstep : s.advance c o = some (e, t, n)) :
    Justified initial (h ++ [(.advance c o, some e)]) t (next n + rest) := by
  have hsec := advance_section hstep
  refine ⟨hI.toFenced.advance hstep, fun d hd k g hfin hfenced => ?_⟩
  have hkeep (hrec : recorded initial h k = true) (he : e ≠ .finalized k) :
      recorded initial (h ++ [(.advance c o, some e)]) k = true :=
    recorded_append hrec (by simpa using he)
  have hbefore := hsec.fenced hfenced
  rcases mem_next_add.mp hd with rfl | hd
  · refine hkeep ?_ fun he => (by subst he; cases hsec.finalized.1)
    rcases hsec.finalizing hfin with hc | ⟨rfl, u, hu, hteardown, hflag⟩
    · refine hI.finalizes c (mem_cons_self c rest) k g hc (hbefore.resolve_right ?_)
      rintro ⟨k', rfl⟩
      cases hc
    · -- it has just taken the gate, so the scope has a record
      rw [hflag] at hfenced
      refine (hI.scope k).sound ?_
      unfold gateLocked at hu
      cases hgate : s.gates k with simp only [hgate, Prod.mk.injEq] at hu
      | none =>
        obtain ⟨rfl, rfl⟩ := hu
        simp [newGate] at hfenced
      | some g' =>
        obtain ⟨rfl, rfl⟩ := hu
        simpa [takesRecorded, hgate, hteardown, hfenced] using htakes
  · -- another call is the owner
    obtain ⟨hat, hload⟩ := Call.at_of_finalizing hfin
    have hother {g'} (hc : c.at = some (k, g')) (hown : c.load.2.1 = 1) : False :=
      hI.owner_unique hd hc hat hown hload
    refine hkeep (hI.finalizes d (mem_cons_of_mem hd) k g hfin (hbefore.resolve_right ?_)) ?_
    · rintro ⟨k', rfl⟩
      have hk := hI.refs _ (mem_cons_self _ rest) k' g rfl
      obtain rfl := hI.injective k' k g hk (hI.refs d (mem_cons_of_mem hd) k g hat)
      exact hother rfl rfl
    · rintro rfl
      obtain ⟨-, g', rfl⟩ := hsec.finalized
      exact hother rfl rfl

section

variable {s : Pool (Coordinator S) (Call S)} {tr : List (Label S × Pool (Coordinator S) (Call S))}
  (hs : (program.system Coordinator.New).init s) (hr : (program.system Coordinator.New).Run s tr)

include hs hr

theorem fenced : Fenced s.shared.records (labels tr) (last s tr).shared (last s tr).calls := by
  refine Program.invariant (I := Fenced s.shared.records) fenced_new ?_ ?_ hs hr
  · exact fun h u calls c hc hI => hI.enter hc
  · exact fun h u rest c o e t n hI hstep => hI.advance hstep

theorem justified (hg : Guarded TakesRecorded [] s tr) :
    Justified s.shared.records (labels tr) (last s tr).shared (last s tr).calls := by
  refine Program.guarded_invariant (I := Justified s.shared.records) ?_ ?_ ?_ hs hr hg
  · exact fun hnew => ⟨fenced_new hnew, by simp⟩
  · exact fun h u calls c hc hI => hI.enter hc
  · exact fun h u rest c o e t n hI htakes hstep => hI.advance htakes hstep

end

/-! ### What callers see -/

/-- Which sections grant and refuse reservations and return teardowns. -/
def Seen (s : Coordinator S) (c : Call S) : Event S → Prop
  | .reserved k => ∃ g, c = .reserveGet k g ∧ s.records k = false
  | .begun k => ∃ g, c = .mark k g
  | .refused k => (∃ g, c = .reserveDrop k g true) ∨
      c = .reserve k ∧ ((s.gateLocked k).2.heap (s.gateLocked k).1).teardown = true ∧
        ((s.gateLocked k).2.heap (s.gateLocked k).1).fenced = true
  | _ => True

theorem seen (hstep : s.advance c o = some (e, t, n)) : Seen s c e := by
  cases advance_section hstep with
  | refused hu => exact .inr ⟨rfl, by rwa [hu], by rwa [hu]⟩
  | @moved _ _ _ g _ _ _ _ _ _ _ _ he =>
    rcases he with rfl | ⟨rfl, hget, hrec⟩
    · trivial
    · exact ⟨g, hget, hrec⟩
  | @marked _ g => exact ⟨g, rfl⟩
  | @unreserved _ _ g _ _ _ he =>
    rcases he with rfl | rfl | ⟨rfl, hdr⟩
    · trivial
    · trivial
    · exact .inl ⟨g, hdr⟩
  | left _ _ _ he => rcases he with rfl | rfl <;> trivial
  | released _ _ he =>
    rcases he with ⟨rfl, -⟩ | ⟨-, rfl | rfl⟩ <;> trivial
  | _ => trivial

/-- The section behind an event, in a run up to it. -/
theorem exists_section {s t} (hr : (program.system Coordinator.New).Run s (p ++ (l, t) :: q))
    (he : l.2 = some e) : (program.system Coordinator.New).Run s p ∧ ∃ c o u n rest,
      (last s p).calls = c ::ₘ rest ∧ (last s p).shared.advance c o = some (e, u, n) := by
  rw [System.run_append, System.run_cons] at hr
  refine ⟨hr.1, ?_⟩
  obtain ⟨c, -, rfl, -⟩ | ⟨c, o, e', u, n, rest, rfl, hca, hstep, -⟩ := Program.step_cases hr.2.1
  · cases he
  · cases he
    exact ⟨c, o, u, n, rest, hca, hstep⟩

section

variable {s t : Pool (Coordinator S) (Call S)}
  (hs : (program.system Coordinator.New).init s)
  (hr : (program.system Coordinator.New).Run s (p ++ (l, t) :: q))

include hs hr

theorem recorded_of_begun (hl : l.2 = some (.begun k)) :
    recorded s.shared.records (labels p ++ [l]) k = true := by
  obtain ⟨hrun, c, o, u, n, rest, hca, hstep⟩ := exists_section hr hl
  have hI := (fenced hs hrun).scope k
  obtain ⟨g, rfl⟩ := seen hstep
  have hrec := hI.sound (hI.mark g (hca ▸ mem_cons_self _ rest))
  rw [recorded_concat, recordedAfter, hl]
  exact hrec

theorem recorded_of_reserved (hl : l.2 = some (.reserved k)) :
    recorded s.shared.records (labels p) k = false := by
  obtain ⟨hrun, c, o, u, n, rest, hca, hstep⟩ := exists_section hr hl
  have hI := fenced hs hrun
  obtain ⟨g, rfl, hfa⟩ := seen hstep
  by_contra hrec
  rcases (hI.scope k).complete (by simpa using hrec) with hrec | ⟨g', hg'⟩
  · simp [hfa] at hrec
  · exact hI.exclusive (hca ▸ mem_cons_self _ rest) hg' rfl rfl rfl rfl

/-- If every `Finalize` takes recorded gates, a reservation is refused only if a teardown is
recorded or is begun. -/
theorem recorded_or_begins_of_refused (hguard : Guarded TakesRecorded [] s p)
    (hl : l.2 = some (.refused k)) :
    recorded s.shared.records (labels p) k = true ∨ ∃ c ∈ (last s p).calls, c.Begins k := by
  obtain ⟨hrun, c, o, u, n, rest, hca, hstep⟩ := exists_section hr hl
  have hI := justified hs hrun hguard
  rcases seen hstep with ⟨g, rfl⟩ | ⟨rfl, hteardown, hfenced⟩
  · exact .inl ((hI.scope k).sound ((hI.scope k).drop g (hca ▸ mem_cons_self _ rest)))
  · have hope := hI.toCoherent.opened k
    have hsame := hope.existing hteardown
    have hg := hope.gate
    rw [hsame] at hg hteardown hfenced
    obtain ⟨d, hd, hown⟩ := exists_owner hI.toLoose hg hteardown
    cases hfin : d.finalizing with
    | none => exact .inr ⟨d, hd, hown, hfin⟩
    | some r =>
      obtain ⟨g', hat, -⟩ := hown
      obtain rfl : r = (k, g') := Option.some.inj ((Call.at_of_finalizing hfin).1.symm.trans hat)
      cases (hI.refs d hd k g' hat).symm.trans hg
      exact .inl (hI.finalizes d hd k _ hfin hfenced)

end

/-- In every run of the coordinator, whatever is canceled: a scope never has a reservation and a
teardown; a gate counts its reservations and is in the map just while a call is at it; between a
`BeginTeardown` that has returned a teardown and the next `Finalize` without an error no `Reserve`
succeeds; and if no `Finalize` takes a gate that is fenced without a record, `Reserve` is refused
only while a teardown was begun and not finalized, or is being begun, or was not released. -/
theorem coordinator_excludes {s : Pool (Coordinator S) (Call S)}
    {tr : List (Label S × Pool (Coordinator S) (Call S))}
    (hs : (program.system Coordinator.New).init s)
    (hr : (program.system Coordinator.New).Run s tr) :
    (∀ u ∈ states s tr, ∀ k g, (∀ g', ¬ (.reservation k g ∈ u.calls ∧ .teardown k g' ∈ u.calls)) ∧
      (u.shared.gates k = some g →
        (u.shared.heap g).active = u.calls.countP (fun c => c.reserves g = true)) ∧
      (u.shared.gates k = some g ↔ ∃ c ∈ u.calls, c.at = some (k, g))) ∧
    (∀ p l t q, tr = p ++ (l, t) :: q → ∀ k, l.2 = some (.reserved k) →
      ∀ h b h', labels p = h ++ b :: h' → b.2 = some (.begun k) →
        ∃ f ∈ h', f.2 = some (.finalized k)) ∧
    (Guarded TakesRecorded [] s tr → ∀ p l t q, tr = p ++ (l, t) :: q →
      ∀ k, l.2 = some (.refused k) →
      recorded s.shared.records (labels p) k = true ∨ ∃ c ∈ (last s p).calls, c.Begins k) := by
  refine ⟨fun u hu k g => ?_, ?_, ?_⟩
  · have hI : Coherent u.shared u.calls :=
      Program.forall_states (I := Coherent) (fun _ => coherent_new)
        (fun u calls c hc h => (coherent_cons_iff (by cases c <;> first | rfl | cases hc)).mpr h)
        (fun u rest c o e t n h hstep => h.advance hstep) hs hr u hu
    refine ⟨?_, ?_, ?_⟩
    · rintro g' ⟨hreservation, hteardown⟩
      exact hI.exclusive hreservation hteardown rfl rfl rfl rfl
    · intro hg
      rw [← total_fst, ← hI.load k g hg]
      rfl
    · exact ⟨exists_at hI, fun ⟨c, hc, hat⟩ => hI.refs c hc k g hat⟩
  · rintro p l t q rfl k hl h b h' hlabels hb
    by_contra hnone
    push Not at hnone
    have hgranted := recorded_of_reserved hs hr hl
    obtain ⟨p1, p2, rfl, rfl, hp2⟩ : ∃ p1 p2, p = p1 ++ p2 ∧ labels p1 = h ∧
        labels p2 = b :: h' := by
      obtain ⟨p1, p2, hp, h1, h2⟩ := List.map_eq_append_iff.mp hlabels
      exact ⟨p1, p2, hp, h1, h2⟩
    cases p2 with
    | nil => cases hp2
    | cons x p2 =>
      obtain ⟨rfl, rfl⟩ := hp2
      rw [List.append_assoc, List.cons_append] at hr
      have hbegun := recorded_append (recorded_of_begun hs hr hb) hnone
      rw [hlabels, List.append_cons, hbegun] at hgranted
      cases hgranted
  · rintro hguard p l t q rfl k hl
    exact recorded_or_begins_of_refused hs hr ((guarded_append _ _ _ _ _).mp hguard).1 hl

/-- A teardown is begun and released while two calls of `Finalize` wait, and the first of them
takes the gate. -/
def finalizeCalls : List (Action (Call Unit) Choice) :=
  [.enter (.acquire .begin ()), .advance (.acquire .begin ()) .go,
    .advance (.store .begin () 0) .go,
    .advance (.mark () 0) .go, .enter (.acquire .finalize ()), .enter (.acquire .finalize ()),
    .advance (.acquire .finalize ()) .go, .advance (.acquire .finalize ()) .go,
    .advance (.teardown () 0) .go, .advance (.acquireWait .finalize () 0 1) .woken,
    .advance (.acquire .finalize ()) .go]

def reserveCalls : List (Action (Call Unit) Choice) :=
  [.enter (.reserve ()), .advance (.reserve ()) .go]

/-- The first `Finalize` ends, and a reservation is granted. -/
def finalizedCalls : List (Action (Call Unit) Choice) :=
  [.advance (.store .finalize () 0) .go, .advance (.release .finalize () 0 true) .go] ++
    reserveCalls ++ [.advance (.reserveGet () 0) .go]

def newPool : Pool (Coordinator Unit) (Call Unit) :=
  ⟨⟨fun _ => none, fun _ => newGate, 0, fun _ => false⟩, 0⟩

/-- A reservation is refused before the teardown is finalized, and granted after it. -/
theorem coordinator_excludes_refused :
    let tr := trace program.perform newPool (finalizeCalls ++ reserveCalls ++ finalizedCalls)
    ((labels tr).map Prod.snd).drop 11 = [none, some (.refused ()), some .silent,
      some (.finalized ()), none, some .silent, some (.reserved ())] ∧
    Guarded TakesRecorded [] newPool tr ∧
    ∀ p l t q, tr = p ++ (l, t) :: q → ∀ k, l.2 = some (.refused k) →
      recorded newPool.shared.records (labels p) k = true ∨ ∃ c ∈ (last newPool p).calls,
        c.Begins k :=
  have hnew : (program.system Coordinator.New).init newPool := ⟨rfl, rfl⟩
  have htakes := by decide
  ⟨by rfl, htakes, (coordinator_excludes hnew (System.run_trace _ _ newPool _)).2.2 htakes⟩

/-- The second `Finalize` takes the gate, which is still fenced, and waits for the reservation that
was granted; a second `Reserve` is refused, though nobody has begun a teardown since. -/
theorem finalize_refuses_reserve :
    let tr := trace program.perform newPool (finalizeCalls ++ finalizedCalls ++
      [.advance (.acquireWait .finalize () 0 1) .woken, .advance (.acquire .finalize ()) .go] ++
      reserveCalls)
    (program.system Coordinator.New).Run newPool tr ∧
      ((labels tr).map Prod.snd).drop 11 = [some .silent, some (.finalized ()), none, some .silent,
        some (.reserved ()), some .silent, some .silent, none, some (.refused ())] ∧
      recorded newPool.shared.records (labels tr) () = false ∧
      (last newPool tr).calls = {.drainWait .finalize () 0 3, .reservation () 0} :=
  ⟨System.run_trace _ _ newPool _, by rfl, by rfl, by decide⟩

end RedevPlugin.Session
