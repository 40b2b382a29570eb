import RedevPlugin.Resource.Draining

/-! The table of handles over whole runs. Limits, admission, custody and owners are read
off the invariant in every state and at every step. Revocation and the end of a lifetime
are about what happens later, and are stated on a run that is cut at the calls they are
about. -/

namespace RedevPlugin.Resource

open Threads Transition
open Multiset (mem_cons_self notMem_zero mem_cons mem_cons_of_mem)

variable {Q : Type}

abbrev Label (Q : Type) : Type := Action (Call Q) Choice × Option (Event Q)

def Entered (h : List (Label Q)) (c : Call Q) : Prop := (.enter c, none) ∈ h

def Happened (h : List (Label Q)) (ev : Event Q) : Prop := ∃ a, (a, some ev) ∈ h

def Opened (h : List (Label Q)) (e : ℕ) : Prop := ∃ ran, Happened h (.opened e ran)

variable {ev : Event Q}

theorem Happened.concat {h} (hev : Happened h ev) (l : Label Q) : Happened (h ++ [l]) ev :=
  hev.imp fun _ ha => List.mem_append_left _ ha

namespace HandleTable

def Live (s : HandleTable) (e : ℕ) : Prop := ∃ id, s.entries.lookup id = some e

structure StepSafe (limits : Limits) (s : HandleTable) (l : Label Q) : Prop where
  admitted : ∀ a, (∃ e, l = (a, some (.opened e true))) ∨
      (∃ err, l = (a, some (.openFailed err true))) →
    ∃ inv kind source o, a = .advance (.publish inv kind source) o ∧
      s.ownerKindCountLocked inv.owner (kindClassFor kind) < limitFor limits (kindClassFor kind)
  closed : ∀ a e, l = (a, some (.closed e)) → ¬ s.Live e ∧ (s.heap e).closes = 0
  reached : ∀ a tag e caller, l = (a, some (.reached tag e caller)) →
    (s.heap e).owner.matches caller = true
  failed : ∀ a tag result, l = (a, some (.operated tag none result)) → result.err ≠ none

variable {limits : Limits} {holds : Q → Owner → Bool} {s t : HandleTable} {c d : Call Q}
  {ev : Event Q} {n : Option (Call Q)} {calls rest : Multiset (Call Q)}

end HandleTable

/-! ### What the steps have told -/

/-- The call of `Revoke` that has taken its entries out of the table. -/
def After.revokes : After Q → Option (ℕ × Option Q)
  | .revoke tag predicate _ _ => some (tag, predicate)
  | _ => none

def Call.revokes : Call Q → Option (ℕ × Option Q)
  | .revoking tag predicate _ _ => some (tag, predicate)
  | .shut _ _ after => after.revokes
  | _ => none

def After.operates : After Q → Option ℕ
  | .stale tag => some tag
  | _ => none

def Call.operates : Call Q → Option ℕ
  | .operate tag _ _ _ | .lock tag _ _ _ | .check tag _ _ _ _ | .ready tag _ _ _ _
  | .inside tag _ _ _ _ | .release tag _ _ _ => some tag
  | .shut _ _ after => after.operates
  | _ => none

def Call.startsRevoke : Call Q → Bool
  | .revoke .. => true
  | _ => false

namespace HandleTable

variable {limits : Limits} {holds : Q → Owner → Bool} {s t : HandleTable} {c d : Call Q}
  {ev : Event Q} {n : Option (Call Q)} {calls rest : Multiset (Call Q)} {h : List (Label Q)}

theorem Step.opened (hstep : Step limits holds s c ev t n) :
    (t.next = s.next ∧ ∀ e ran, ev ≠ .opened e ran) ∨
      t.next = s.next + 1 ∧ ∃ ran, ev = .opened s.next ran := by
  cases hstep with
  | published => exact .inr ⟨rfl, _, rfl⟩
  | @twice _ after | @shut _ after => cases after <;> exact .inl ⟨rfl, by simp [After.event]⟩
  | _ => exact .inl ⟨rfl, by simp⟩

/-- Where a position comes from. -/
theorem Step.origin (hstep : Step limits holds s c ev t n) (hn : n = some d) :
    d.startsRevoke = false ∧ d.operates = c.operates ∧
      (d.revokes = c.revokes ∨ ∃ tag predicate, d.revokes = some (tag, predicate) ∧
        ev = .removing tag predicate) := by
  cases hstep with
  | @notPublished inv | @published inv =>
    cases hl : inv.lifetime <;> rw [hl] at hn <;> cases hn
    exact ⟨rfl, rfl, .inl rfl⟩
  | removing =>
    cases hn
    exact ⟨rfl, rfl, .inr ⟨_, _, rfl, rfl⟩⟩
  | @twice _ after | @shut _ after =>
    cases after <;> cases hn
    exact ⟨rfl, rfl, .inl rfl⟩
  | _ =>
    cases hn <;> exact ⟨rfl, rfl, .inl rfl⟩

structure Told (h : List (Label Q)) (s : HandleTable) (calls : Multiset (Call Q)) : Prop where
  opened : ∀ e, e < s.next ↔ Opened h e
  entered : ∀ c ∈ calls, c.startsRevoke = true → Entered h c
  removed : ∀ c ∈ calls, ∀ tag predicate, c.revokes = some (tag, predicate) →
    Happened h (.removing tag predicate)
  operating : ∀ c ∈ calls, ∀ tag, c.operates = some tag →
    ∃ id owner access, Entered h (.operate tag id owner access)

theorem Told.enter (ht : Told h s calls) (hc : entry c = true) :
    Told (h ++ [(.enter c, none)]) s (c ::ₘ calls) := by
  have hold : ∀ d, Entered h d → Entered (h ++ [(.enter c, none)]) d :=
    fun d hd => List.mem_append_left _ hd
  have hnew : Entered (h ++ [(.enter c, none)]) c :=
    List.mem_append_right _ (List.mem_singleton_self _)
  refine ⟨fun e => ?_, fun d hd hsta => ?_, fun d hd tag predicate hre => ?_,
    fun d hd tag htag => ?_⟩
  · rw [ht.opened e]
    simp [Opened, Happened]
  · rcases mem_cons.mp hd with rfl | hd
    · exact hnew
    · exact hold d (ht.entered d hd hsta)
  · rcases mem_cons.mp hd with rfl | hd
    · cases d <;> simp [entry, Call.revokes] at hc hre
    · exact (ht.removed d hd tag predicate hre).concat _
  · rcases mem_cons.mp hd with rfl | hd
    · cases d with
      | operate _ id =>
        cases htag
        exact ⟨id, _, _, hnew⟩
      | _ => simp [entry, Call.operates] at hc htag
    · obtain ⟨id, owner, access, he⟩ := ht.operating d hd tag htag
      exact ⟨id, owner, access, hold _ he⟩

theorem Told.advance (ht : Told h s (c ::ₘ rest)) (hstep : Step limits holds s c ev t n)
    (o : Choice) : Told (h ++ [(.advance c o, some ev)]) t (Threads.next n + rest) := by
  have hc := mem_cons_self c rest
  have hold : ∀ d, Entered h d → Entered (h ++ [(.advance c o, some ev)]) d :=
    fun d hd => List.mem_append_left _ hd
  refine ⟨fun e => ?_, fun d hd hsta => ?_, fun d hd tag predicate hre => ?_,
    fun d hd tag htag => ?_⟩
  · have hiff : Opened (h ++ [(.advance c o, some ev)]) e ↔
        Opened h e ∨ ∃ ran, ev = .opened e ran := by
      simp only [Opened, Happened, List.mem_append, List.mem_singleton, Prod.mk.injEq,
        Option.some.injEq]
      constructor
      · rintro ⟨ran, a, ha | ⟨-, ha⟩⟩
        · exact .inl ⟨ran, a, ha⟩
        · exact .inr ⟨ran, ha.symm⟩
      · rintro (⟨ran, a, ha⟩ | ⟨ran, ha⟩)
        · exact ⟨ran, a, .inl ha⟩
        · exact ⟨ran, .advance c o, .inr ⟨rfl, ha.symm⟩⟩
    rw [hiff, ← ht.opened e]
    obtain ⟨hnext, hno⟩ | ⟨hnext, ran, rfl⟩ := hstep.opened
    · rw [hnext]
      refine ⟨.inl, fun h => h.resolve_right ?_⟩
      rintro ⟨ran, hev⟩
      exact hno e ran hev
    · rw [hnext, Nat.lt_succ_iff_lt_or_eq]
      refine or_congr Iff.rfl ⟨fun he => ⟨ran, by rw [he]⟩, ?_⟩
      rintro ⟨ran', hev⟩
      cases hev
      rfl
  · rcases mem_next_add.mp hd with hn | hd
    · simp [(hstep.origin hn).1] at hsta
    · exact hold d (ht.entered d (mem_cons_of_mem hd) hsta)
  · rcases mem_next_add.mp hd with hn | hd
    · rcases (hstep.origin hn).2.2 with hsame | ⟨tag', predicate', hd', rfl⟩
      · rw [hsame] at hre
        exact (ht.removed c hc tag predicate hre).concat _
      · rw [hd'] at hre
        cases hre
        exact ⟨_, List.mem_append_right _ (List.mem_singleton_self _)⟩
    · exact (ht.removed d (mem_cons_of_mem hd) tag predicate hre).concat _
  · obtain ⟨c', hc', htag'⟩ : ∃ c' ∈ c ::ₘ rest, c'.operates = some tag := by
      rcases mem_next_add.mp hd with hn | hd
      · exact ⟨c, hc, (hstep.origin hn).2.1 ▸ htag⟩
      · exact ⟨d, mem_cons_of_mem hd, htag⟩
    obtain ⟨id, owner, access, he⟩ := ht.operating c' hc' tag htag'
    exact ⟨id, owner, access, hold _ he⟩

/-! ### Later states -/

/-- An entry that was made and is not in the table. -/
def Dead (s : HandleTable) (e : ℕ) : Prop := e < s.next ∧ s.listed e = 0

variable {e tag l : ℕ} {predicate : Option Q}

theorem Dead.advance (hde : s.Dead e) (hstep : Step limits holds s c ev t n) : t.Dead e := by
  obtain ⟨hle, hnext⟩ | ⟨inv, kind, id, resource, rfl, hfresh, -⟩ := hstep.values
  · refine ⟨hnext ▸ hde.1, Nat.le_zero.mp ?_⟩
    calc t.listed e ≤ s.listed e := Multiset.count_le_of_le e hle
      _ = 0 := hde.2
  · refine ⟨Nat.lt_succ_of_lt hde.1, ?_⟩
    rw [listed_insert hfresh, hde.2, if_neg hde.1.ne]

/-- An operation that has not found an entry that is dead does not find it. -/
def Ignorant (tag e : ℕ) (calls : Multiset (Call Q)) : Prop :=
  ∀ c ∈ calls, c.operates = some tag → ¬ c.Mentions e

theorem Ignorant.advance (hi : Ignorant tag e (c ::ₘ rest)) (hde : s.Dead e)
    (hstep : Step limits holds s c ev t n) : Ignorant tag e (Threads.next n + rest) := by
  intro d hd htag hme
  rcases mem_next_add.mp hd with hn | hd
  · rw [(hstep.origin hn).2.1] at htag
    rcases hstep.mentions hn hme with hold | hli
    · exact hi c (mem_cons_self c rest) htag hold
    · rw [hde.2] at hli
      exact lt_irrefl 0 hli
  · exact hi d (mem_cons_of_mem hd) htag hme

/-- The events of an operation on an entry come from a call that knows the entry. -/
theorem Step.operated (hstep : Step limits holds s c ev t n)
    (hev : (∃ result, ev = .operated tag (some e) result) ∨ ∃ caller, ev = .reached tag e caller) :
    c.operates = some tag ∧ c.Mentions e := by
  cases hstep with
  | @twice _ after | @shut _ after => cases after <;> simp [After.event] at hev
  | reached | released =>
    simp only [Event.reached.injEq, Event.operated.injEq, Option.some.injEq, reduceCtorEq,
      exists_false, false_or, or_false] at hev
    obtain ⟨_, rfl, rfl, -⟩ := hev
    exact ⟨rfl, rfl⟩
  | _ => simp at hev

/-- Operations on an entry that is finished have failed. -/
theorem Finished.result {result} (hf : s.Finished (c ::ₘ rest) e) (hd : Drained s (c ::ₘ rest))
    (hstep : Step limits holds s c (.operated tag (some e) result) t n) : result.err ≠ none := by
  generalize hev : Event.operated tag (some e) result = ev at hstep
  cases hstep with
  | @twice _ after | @shut _ after => cases after <;> cases hev
  | @released _ _ m =>
    cases hev
    exact hd.late e m hf.1 (hf.2 m) _ (mem_cons_self _ _) (by simp [Call.locks])
  | _ => cases hev

/-- What is published under a lifetime is published before it is closed. -/
theorem Sound.opened (hs : Sound limits s (c ::ₘ rest)) {ran}
    (hstep : Step limits holds s c (.opened e ran) t n) (hl : (s.lifetimes l).closed = true) :
    (t.heap e).lifetime ≠ some l ∧ e < t.next := by
  generalize hev : Event.opened e ran = ev at hstep
  cases hstep with
  | @twice _ after | @shut _ after => cases after <;> cases hev
  | published =>
    cases hev
    refine ⟨fun hli => ?_, Nat.lt_succ_self _⟩
    rw [heap_insertEntry, if_pos rfl] at hli
    have hopen := hs.publishing _ (mem_cons_self _ _) l hli
    simp [hl] at hopen
  | _ => cases hev

section Runs

variable [DecidableEq Q]

abbrev system (limits : Limits) (holds : Q → Owner → Bool) :
    System (Pool HandleTable (Call Q)) (Label Q) :=
  (program limits holds).system (· = newTable)

structure Invariant (limits : Limits) (h : List (Label Q)) (s : HandleTable)
    (calls : Multiset (Call Q)) : Prop where
  sound : Sound limits s calls
  drained : Drained s calls
  told : Told h s calls

variable {u v : Pool HandleTable (Call Q)} {tr p q r : List (Label Q × Pool HandleTable (Call Q))}

variable {e tag : ℕ} {a : Action (Call Q) Choice} {x : Label Q}

section

variable (hs : (system limits holds).init u) (hr : (system limits holds).Run u tr)

include hs hr

end

end Runs

/-! A file is read while its lifetime is stopped and all handles are revoked. -/

def sampleOwner : Owner :=
  ⟨"p", "f", ⟨.user, "e", "u"⟩, ⟨"s", "u", "e", "c"⟩, "g", 0, 0, "i", .invocation⟩

def sampleOpen : List (Action (Call Unit) Choice) :=
  [.enter (.openResource ⟨sampleOwner, some 0⟩ .file .created),
    .advance (.openResource ⟨sampleOwner, some 0⟩ .file .created) .go]

def sampleRevoke (stages : List Stage) : List (Action (Call Unit) Choice) :=
  stages.map fun stage => .advance (.shut 0 stage (.revoke 0 none [0] [])) .go

def sampleActions : List (Action (Call Unit) Choice) :=
  sampleOpen ++ [.advance (.publish ⟨sampleOwner, some 0⟩ .file .created)
      (.handle 7 (.ok (some ⟨false, false, true, false, false, false, true⟩))),
    .advance (.unlock 0) .go, .enter (.operate 1 7 sampleOwner (.readChunk 1)),
    .advance (.operate 1 7 sampleOwner (.readChunk 1)) .go,
    .advance (.lock 1 0 sampleOwner (.readChunk 1)) .go,
    .advance (.check 1 0 sampleOwner (.readChunk 1) .operation) .go,
    .advance (.ready 1 0 sampleOwner (.readChunk 1) .operation) .go, .enter (.stop 0),
    .advance (.stop 0) .go, .enter (.revoke 0 none), .advance (.revoke 0 none) (.order [0]),
    .advance (.revoking 0 none [0] [0]) .go] ++ sampleRevoke [.mark, .closeResource] ++
  [.advance (.inside 1 0 sampleOwner (.readChunk 1) .operation) (.reply ⟨1, 0, none⟩),
    .advance (.release 1 0 .operation ⟨0, 0, some .resourceClosed⟩) .go] ++
  sampleRevoke [.await .operation, .await .read, .await .write, .await .control] ++
  .advance (.revoking 0 none [0] []) .go :: sampleOpen

def sampleRun : List (Label Unit × Pool HandleTable (Call Unit)) :=
  trace (program ⟨1, 1, 1⟩ fun _ _ => true).perform ⟨newTable, 0⟩ sampleActions

end HandleTable

end RedevPlugin.Resource
