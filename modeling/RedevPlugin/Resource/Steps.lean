import RedevPlugin.Resource.Handles

/-! What one section of a call can do to the table of handles, said once. The lemmas
that follow weigh the steps: an entry is listed in the table, owed to by a call that
has to close it, or closed, and a step moves the entry between these; and the locks
that are held are those that calls hold. -/

namespace RedevPlugin.Resource

open Session Threads

variable {Q : Type}

namespace HandleTable

inductive Step (limits : Limits) (holds : Q → Owner → Bool) (s : HandleTable) :
    Call Q → Event Q → HandleTable → Option (Call Q) → Prop
  | unbound {inv kind source} (hl : inv.lifetime = none) :
    Step limits holds s (.openResource inv kind source) .silent s (some (.publish inv kind source))
  | ended {inv kind source} :
    Step limits holds s (.openResource inv kind source) (.openFailed .resourceClosed false) s none
  | bound {inv kind source l} (hl : inv.lifetime = some l) (hheld : (s.lifetimes l).held = false)
      (hclosed : (s.lifetimes l).closed = false) :
    Step limits holds s (.openResource inv kind source) .silent
      (s.setLifetime l { s.lifetimes l with held := true }) (some (.publish inv kind source))
  | notPublished {inv kind source err ran} (hran : ran = true →
      s.ownerKindCountLocked inv.owner (kindClassFor kind) < limitFor limits (kindClassFor kind)) :
    Step limits holds s (.publish inv kind source) (.openFailed err ran) s
      (inv.lifetime.map .unlock)
  | published {inv kind source id resource ran} (hfresh : s.entries.lookup id = none)
      (hadmitted : s.ownerKindCountLocked inv.owner (kindClassFor kind) <
        limitFor limits (kindClassFor kind)) :
    Step limits holds s (.publish inv kind source) (.opened s.next ran)
      (s.insertEntry inv kind id resource) (inv.lifetime.map .unlock)
  | unlocked {l} :
    Step limits holds s (.unlock l) .silent
      (s.setLifetime l { s.lifetimes l with held := false }) none
  | stopped {l} (hheld : (s.lifetimes l).held = false) :
    Step limits holds s (.stop l) (.stopped l)
      (s.setLifetime l { s.lifetimes l with closed := true, canceled := true }) none
  | canceled {l} :
    Step limits holds s (.cancelParent l) .silent
      (s.setLifetime l { s.lifetimes l with canceled := true }) none
  | notClosed {id owner err} :
    Step limits holds s (.close id owner) (.closeReturned err) s none
  | taken {id owner e} (hlookup : s.entries.lookup id = some e) :
    Step limits holds s (.close id owner) .silent { s with entries := s.entries.erase id }
      (some (.shut e .mark .close))
  | removing {tag predicate} {removed : List ℕ} (hremoved : (removed : Multiset ℕ) =
      (s.entries.filter fun _ e => s.selects holds predicate e).values) :
    Step limits holds s (.revoke tag predicate) (.removing tag predicate)
      { s with entries := s.entries.filter fun _ e => !s.selects holds predicate e }
      (some (.revoking tag predicate removed removed))
  | revoked {tag predicate removed} :
    Step limits holds s (.revoking tag predicate removed []) (.revoked tag predicate removed) s none
  | going {tag predicate removed e rest} :
    Step limits holds s (.revoking tag predicate removed (e :: rest)) .silent s
      (some (.shut e .mark (.revoke tag predicate removed rest)))
  | twice {e after} (hclosed : (s.heap e).closed = true) :
    Step limits holds s (.shut e .mark after) after.event s after.next
  | marked {e after} (hclosed : (s.heap e).closed = false) :
    Step limits holds s (.shut e .mark after) .silent
      (s.setEntry e { s.heap e with closed := true })
      (some (.shut e .closeResource after))
  | closed {e after} :
    Step limits holds s (.shut e .closeResource after) (.closed e)
      (s.setEntry e { s.heap e with closes := (s.heap e).closes + 1 })
      (some (.shut e (.await .operation) after))
  | waited {e after m m'} (hfree : (s.heap e).held m = false)
      (hnext : (m, m') ∈ [(Mutex.operation, Mutex.read), (.read, .write), (.write, .control)]) :
    Step limits holds s (.shut e (.await m) after) .silent s (some (.shut e (.await m') after))
  | shut {e after} (hfree : (s.heap e).held .control = false) :
    Step limits holds s (.shut e (.await .control) after) after.event s after.next
  | notFound {tag id owner access result} (herr : result.err ≠ none) :
    Step limits holds s (.operate tag id owner access) (.operated tag none result) s none
  | stale {tag id owner access e} (hlookup : s.entries.lookup id = some e) :
    Step limits holds s (.operate tag id owner access) .silent
      { s with entries := s.entries.erase id } (some (.shut e .mark (.stale tag)))
  | found {tag id owner access e} (hlookup : s.entries.lookup id = some e)
      (howner : (s.heap e).owner.matches owner = true) :
    Step limits holds s (.operate tag id owner access) .silent s (some (.lock tag e owner access))
  | locked {tag e owner access m} (hfree : (s.heap e).held m = false) :
    Step limits holds s (.lock tag e owner access) .silent
      (s.setEntry e { s.heap e with held := Function.update (s.heap e).held m true })
      (some (.check tag e owner access m))
  | late {tag e owner access m} :
    Step limits holds s (.check tag e owner access m) .silent s
      (some (.release tag e m ⟨0, 0, some .resourceClosed⟩))
  | passed {tag e owner access m} (hclosed : (s.heap e).closed = false) :
    Step limits holds s (.check tag e owner access m) .silent s (some (.ready tag e owner access m))
  | refused {tag e owner access m err} :
    Step limits holds s (.ready tag e owner access m) .silent s
      (some (.release tag e m ⟨0, 0, some err⟩))
  | reached {tag e owner access m} :
    Step limits holds s (.ready tag e owner access m) (.reached tag e owner) s
      (some (.inside tag e owner access m))
  | replied {tag e owner access m result}
      (hclosed : (s.heap e).closed = true → result.err = some .resourceClosed) :
    Step limits holds s (.inside tag e owner access m) .silent s (some (.release tag e m result))
  | released {tag e m result} :
    Step limits holds s (.release tag e m result) (.operated tag (some e) result)
      (s.setEntry e { s.heap e with held := Function.update (s.heap e).held m false }) none

variable {limits : Limits} {holds : Q → Owner → Bool} {s t : HandleTable} {c : Call Q} {o : Choice}
  {ev : Event Q} {n : Option (Call Q)}

theorem publish_step {inv kind source} (h : publish limits s inv kind source o = some (ev, t)) :
    Step limits holds s (.publish inv kind source) ev t (inv.lifetime.map .unlock) := by
  revert h
  fun_cases publish limits s inv kind source o <;> rintro ⟨⟩
  · exact .notPublished (by simp)
  · exact .notPublished (by simp)
  · exact .notPublished (by simp)
  · exact .published (by simp_all) (not_le.mp ‹_›)
  · exact .notPublished fun _ => not_le.mp ‹_›
  · exact .notPublished fun _ => not_le.mp ‹_›
  · exact .published (by simp_all) (not_le.mp ‹_›)

theorem advance_step (h : advance limits holds s c o = some (ev, t, n)) :
    Step limits holds s c ev t n := by
  revert h
  fun_cases advance limits holds s c o <;> try rintro ⟨⟩
  · exact .unbound ‹_›
  · exact .ended
  · rename_i hl _ hheld hopen
    simp only [Bool.or_eq_true, not_or, Bool.not_eq_true] at hopen hheld
    exact .bound hl hheld hopen.1
  · simp only [Option.map_eq_some_iff, Prod.mk.injEq, Prod.exists]
    rintro ⟨ev', t', hpu, rfl, rfl, rfl⟩
    exact publish_step hpu
  · exact .unlocked
  · exact .stopped (Bool.eq_false_iff.mpr ‹_›)
  · exact .canceled
  · exact .notClosed
  · exact .notClosed
  · exact .taken ‹_›
  · exact .removing ‹_›
  · exact .revoked
  · exact .going
  · exact .twice ‹_›
  · exact .marked (Bool.eq_false_iff.mpr ‹_›)
  · exact .closed
  · exact .waited (Bool.eq_false_iff.mpr ‹_›) (by simp)
  · exact .waited (Bool.eq_false_iff.mpr ‹_›) (by simp)
  · exact .waited (Bool.eq_false_iff.mpr ‹_›) (by simp)
  · exact .shut (Bool.eq_false_iff.mpr ‹_›)
  · exact .notFound (by simp)
  · exact .notFound (by simp)
  · exact .stale ‹_›
  · exact .notFound (by simp)
  · rename_i hlookup howner
    exact .found hlookup (by simpa using howner)
  · exact .locked (Bool.eq_false_iff.mpr ‹_›)
  · exact .late
  · exact .passed (Bool.eq_false_iff.mpr ‹_›)
  · exact .refused
  · exact .reached
  · rename_i access _ _ result
    refine .replied fun hclosed => ?_
    simp only [result, if_pos hclosed]
    cases access <;> rfl
  · exact .released

/-- How often an entry is in the table. -/
def listed (s : HandleTable) (e : ℕ) : ℕ := s.entries.values.count e

end HandleTable

/-- How often a call still has to close an entry. -/
def After.owes (e : ℕ) : After Q → ℕ
  | .revoke _ _ _ rest => rest.count e
  | _ => 0

def Call.owes (e : ℕ) : Call Q → ℕ
  | .shut e' .mark after | .shut e' .closeResource after => (if e' = e then 1 else 0) + after.owes e
  | .shut _ (.await _) after => after.owes e
  | .revoking _ _ _ rest => rest.count e
  | _ => 0

/-- The call has marked the entry and not yet closed the resource. -/
def Call.marks (e : ℕ) : Call Q → ℕ
  | .shut e' .closeResource _ => if e' = e then 1 else 0
  | _ => 0

def Call.locks (e : ℕ) (m : Mutex) : Call Q → ℕ
  | .check _ e' _ _ m' | .ready _ e' _ _ m' | .inside _ e' _ _ m'
  | .release _ e' m' _ => if e' = e ∧ m' = m then 1 else 0
  | _ => 0

/-- The call holds the lock of the lifetime. -/
def Call.guards (l : ℕ) : Call Q → ℕ
  | .publish inv _ _ => if inv.lifetime = some l then 1 else 0
  | .unlock l' => if l' = l then 1 else 0
  | _ => 0

@[simp] theorem After.next_owes (after : After Q) (e : ℕ) :
    after.next.elim 0 (Call.owes e) = after.owes e := by
  cases after <;> rfl

@[simp] theorem After.next_marks (after : After Q) (e : ℕ) :
    after.next.elim 0 (Call.marks e) = 0 := by
  cases after <;> rfl

@[simp] theorem After.next_locks (after : After Q) (e : ℕ) (m : Mutex) :
    after.next.elim 0 (Call.locks e m) = 0 := by
  cases after <;> rfl

@[simp] theorem After.next_guards (after : After Q) (l : ℕ) :
    after.next.elim 0 (Call.guards l) = 0 := by
  cases after <;> rfl

theorem Call.unlock_weight {w : Call Q → ℕ} (hw : ∀ l, w (.unlock l) = 0) (l : Option ℕ) :
    (l.map Call.unlock).elim 0 w = 0 := by
  cases l with
  | none => rfl
  | some l => exact hw l

open Call (owes marks locks guards unlock_weight)

namespace HandleTable

variable {limits : Limits} {holds : Q → Owner → Bool} {s t : HandleTable} {c : Call Q}
  {ev : Event Q} {n : Option (Call Q)}

@[simp] theorem listed_setEntry (e' : ℕ) (entry : Entry) (e : ℕ) :
    (s.setEntry e' entry).listed e = s.listed e := rfl

@[simp] theorem listed_setLifetime (l : ℕ) (lifetime : InvocationLifetime) (e : ℕ) :
    (s.setLifetime l lifetime).listed e = s.listed e := rfl

@[simp] theorem next_setEntry (e' : ℕ) (entry : Entry) : (s.setEntry e' entry).next = s.next := rfl

@[simp] theorem next_setLifetime (l : ℕ) (lifetime : InvocationLifetime) :
    (s.setLifetime l lifetime).next = s.next := rfl

@[simp] theorem heap_setLifetime (l : ℕ) (lifetime : InvocationLifetime) :
    (s.setLifetime l lifetime).heap = s.heap := rfl

theorem heap_setEntry (e' : ℕ) (entry : Entry) (e : ℕ) :
    (s.setEntry e' entry).heap e = if e = e' then entry else s.heap e :=
  Function.update_apply ..

@[simp] theorem entries_insertEntry (inv : Invocation) (kind : Kind) (id : ℕ)
    (resource : Interfaces) :
    (s.insertEntry inv kind id resource).entries = s.entries.insert id s.next := rfl

theorem heap_insertEntry (inv : Invocation) (kind : Kind) (id : ℕ) (resource : Interfaces)
    (e : ℕ) : (s.insertEntry inv kind id resource).heap e =
      if e = s.next then ⟨id, inv.owner, kind, resource, fun _ => false, false, 0, inv.lifetime⟩
      else s.heap e :=
  Function.update_apply ..

theorem listed_erase {id e'} (h : s.entries.lookup id = some e') (e : ℕ) :
    s.listed e = listed { s with entries := s.entries.erase id } e + if e' = e then 1 else 0 := by
  rw [listed, listed, Finmap.values_erase h, Multiset.count_cons]
  simp only [eq_comm]

theorem listed_filter (p : ℕ → Bool) (e : ℕ) :
    s.listed e = listed { s with entries := s.entries.filter fun _ e => !p e } e +
      (s.entries.filter fun _ e => p e).values.count e := by
  simp only [listed, Finmap.values_filter, Multiset.count_filter]
  cases p e <;> simp

theorem listed_insert {id} (h : s.entries.lookup id = none) (inv : Invocation) (kind : Kind)
    (resource : Interfaces) (e : ℕ) :
    (s.insertEntry inv kind id resource).listed e = s.listed e + if e = s.next then 1 else 0 := by
  rw [listed, listed, insertEntry, Finmap.values_insert h, Multiset.count_cons]

section

variable (h : Step limits holds s c ev t n)

include h

/-- A step moves an entry between the table, the calls that have to close it and those that are
closed. -/
theorem Step.custody (hfi : ∀ e after, c = .shut e .mark after → (s.heap e).closed = false)
    (hfresh : (s.heap s.next).closes = 0) (e : ℕ) :
    t.listed e + n.elim 0 (owes e) + (t.heap e).closes =
      s.listed e + c.owes e + (s.heap e).closes + if s.next ≤ e ∧ e < t.next then 1 else 0 := by
  have hnone : ¬ (s.next ≤ e ∧ e < s.next) := by omega
  cases h with
  | twice hclosed => exact absurd (hfi _ _ rfl) (by simp [hclosed])
  | taken hlookup | stale hlookup =>
    have hli := listed_erase hlookup e
    simp only [owes, After.owes, Option.elim, hnone, if_false] at hli ⊢
    omega
  | @removing _ predicate _ hremoved =>
    have hli := listed_filter (s := s) (s.selects holds predicate) e
    rw [← hremoved, Multiset.coe_count] at hli
    simp only [owes, Option.elim, hnone, if_false]
    omega
  | @published _ _ _ _ _ _ hfresh' =>
    rw [listed_insert hfresh', heap_insertEntry, unlock_weight fun _ => rfl]
    simp only [owes, insertEntry]
    by_cases he : e = s.next
    · subst he
      simp [hfresh]
    · have hnone : ¬ (s.next ≤ e ∧ e < s.next + 1) := by omega
      simp only [if_neg he, hnone, if_false]
      omega
  | @marked e' | @locked _ e' | @released _ e' =>
    by_cases he : e = e'
    · simp [owes, heap_setEntry, he]
    · simp [owes, heap_setEntry, he, hnone]
  | @closed e' =>
    by_cases he : e = e'
    · subst he
      simp only [owes, heap_setEntry, listed_setEntry, next_setEntry, hnone, if_true, if_false,
        Option.elim]
      omega
    · simp [owes, heap_setEntry, he, Ne.symm he, hnone]
  | notPublished =>
    rw [unlock_weight fun _ => rfl]
    simp [owes, hnone]
  | _ =>
    simp [owes, List.count_cons, After.owes, hnone] <;> omega

/-- An entry is marked once for each time that its resource is closed. -/
theorem Step.marking (hcl : (s.heap s.next).closes = 0)
    (hclosed : (s.heap s.next).closed = false) (e : ℕ) :
    (t.heap e).closed.toNat + (s.heap e).closes + c.marks e =
      (s.heap e).closed.toNat + (t.heap e).closes + n.elim 0 (marks e) := by
  cases h with
  | @published =>
    rw [heap_insertEntry, unlock_weight fun _ => rfl]
    by_cases he : e = s.next
    · subst he
      simp [marks, hcl, hclosed]
    · simp [marks, he]
  | @marked e' _ hopen =>
    by_cases he : e = e'
    · subst he
      simp [marks, heap_setEntry, hopen]
      omega
    · simp [marks, heap_setEntry, he, Ne.symm he]
  | @closed e' =>
    by_cases he : e = e'
    · subst he
      simp [marks, heap_setEntry]
      omega
    · simp [marks, heap_setEntry, he, Ne.symm he]
  | @locked _ e' | @released _ e' =>
    by_cases he : e = e' <;> simp [marks, heap_setEntry, he]
  | notPublished =>
    rw [unlock_weight fun _ => rfl]
    simp [marks]
  | _ => simp [marks]

/-- The locks of the entries are those that the calls hold. -/
theorem Step.locking (hfresh : ∀ m, (s.heap s.next).held m = false) {e m}
    (hheld : c.locks e m ≠ 0 → (s.heap e).held m = true) :
    ((t.heap e).held m).toNat + c.locks e m = ((s.heap e).held m).toNat + n.elim 0 (locks e m) := by
  cases h with
  | @published =>
    rw [heap_insertEntry, unlock_weight fun _ => rfl]
    by_cases he : e = s.next
    · subst he
      simp [locks, hfresh]
    · simp [locks, he]
  | @marked e' | @closed e' =>
    by_cases he : e = e' <;> simp [locks, heap_setEntry, he]
  | @locked _ e' _ _ m' hfree =>
    by_cases he : e = e'
    · subst he
      by_cases hm : m = m'
      · simp [locks, heap_setEntry, hm, hfree]
      · simp [locks, heap_setEntry, hm, Ne.symm hm]
    · simp [locks, heap_setEntry, he, Ne.symm he]
  | @released _ e' m' =>
    by_cases he : e = e'
    · subst he
      by_cases hm : m = m'
      · subst hm
        have htr := hheld (by simp [locks])
        simp [locks, heap_setEntry, htr]
      · simp [locks, heap_setEntry, hm, Ne.symm hm]
    · simp [locks, heap_setEntry, he, Ne.symm he]
  | notPublished =>
    rw [unlock_weight fun _ => rfl]
    simp [locks]
  | _ => simp [locks]

/-- The locks of the lifetimes are those that the calls hold. -/
theorem Step.guarding {l} (hheld : c.guards l ≠ 0 → (s.lifetimes l).held = true) :
    (t.lifetimes l).held.toNat + c.guards l = (s.lifetimes l).held.toNat + n.elim 0 (guards l) := by
  cases h with
  | unbound hl => simp [guards, hl]
  | @bound _ _ _ l' hl hfree =>
    by_cases he : l = l'
    · subst he
      simp [guards, setLifetime, hl, hfree]
    · simp [guards, setLifetime, hl, he, Ne.symm he]
  | @notPublished inv =>
    cases hl : inv.lifetime <;> simp [guards, hl]
  | @published inv =>
    cases hl : inv.lifetime <;> simp [guards, hl, insertEntry]
  | @unlocked l' =>
    by_cases he : l = l'
    · subst he
      have htr := hheld (by simp [guards])
      simp [guards, setLifetime, htr]
    · simp [guards, setLifetime, he, Ne.symm he]
  | @stopped l' | @canceled l' =>
    by_cases he : l = l' <;> simp [guards, setLifetime, he]
  | _ => simp [guards, setEntry]

end

end HandleTable

end RedevPlugin.Resource
