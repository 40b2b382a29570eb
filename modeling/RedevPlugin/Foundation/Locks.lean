import Mathlib.Data.Finset.Max
import RedevPlugin.Foundation.Threads

/-! Calls that take read-write locks. A call runs a script: it acquires and releases locks and
does other things in between, which may fail; then it releases what it holds. A writer that
waits for the readers keeps new readers out, and a lock may have room for a number of readers
only. If the locks of every script are acquired in the order of a rank, up to reading a lock
again that is read already, and writers come only when no reader of the lock will do so, then
some call can always go on; and every section brings its call nearer to its end. -/

namespace RedevPlugin.Locks

open Threads Transition
open Multiset (mem_cons_self mem_toFinset mem_cons)

variable {L σ α τ ω : Type*}

inductive Mode where
  | read
  | write
  deriving DecidableEq

structure RWLock where
  readers : ℕ
  writer : Bool
  /-- A writer waits for the readers to leave. -/
  pending : Bool

inductive Task (L α : Type*) where
  | acquire (l : L) (m : Mode)
  | release (l : L) (m : Mode)
  | act (a : α)
  deriving DecidableEq

/-- A call of an operation: what it holds, last acquired first, and what it still has to do. -/
structure Call (L α τ : Type*) where
  op : τ
  held : List (L × Mode)
  todo : List (Task L α)
  /-- It is the writer that waits for the readers. -/
  announced : Bool
  deriving DecidableEq

structure Shared (L σ : Type*) where
  locks : L → RWLock
  state : σ

/-- What a section of a call did. -/
inductive Event (L α : Type*) where
  | announced (l : L)
  | acquired (l : L) (m : Mode)
  | released (l : L) (m : Mode)
  | did (a : α) (ok : Bool)

/-- The room of the locks, what the other tasks do to the state, for a choice of the
environment, and the scripts of the operations. A task that fails ends the script. -/
structure Machine (L σ α τ ω : Type*) where
  capacity : L → Option ℕ
  act : σ → α → ω → Option (Bool × σ)
  script : τ → List (Task L α)

/-- The releases of what is held. -/
def unwind (held : List (L × Mode)) : List (Task L α) := held.map fun x => .release x.1 x.2

def goOn (op : τ) (held : List (L × Mode)) : List (Task L α) → Option (Call L α τ)
  | [] => none
  | t :: rest => some ⟨op, held, t :: rest, false⟩

section Program

variable [DecidableEq L]

def Shared.setLock (s : Shared L σ) (l : L) (lock : RWLock) : Shared L σ :=
  { s with locks := Function.update s.locks l lock }

namespace Machine

variable (M : Machine L σ α τ ω)

def advance (s : Shared L σ) (c : Call L α τ) (o : ω) :
    Option (Event L α × Shared L σ × Option (Call L α τ)) :=
  match c.todo with
  | [] => none
  | .acquire l .read :: rest =>
    let lock := s.locks l
    if lock.writer ∨ lock.pending ∨ (M.capacity l).any (· ≤ lock.readers) then none
    else
      some (.acquired l .read, s.setLock l { lock with readers := lock.readers + 1 },
        goOn c.op ((l, .read) :: c.held) rest)
  | .acquire l .write :: rest =>
    let lock := s.locks l
    if c.announced then
      if lock.readers ≠ 0 then none
      else
        some (.acquired l .write, s.setLock l { lock with writer := true, pending := false },
          goOn c.op ((l, .write) :: c.held) rest)
    else if lock.writer ∨ lock.pending then none
    else some (.announced l, s.setLock l { lock with pending := true },
      some { c with announced := true })
  | .release l .read :: rest =>
    let lock := s.locks l
    some (.released l .read, s.setLock l { lock with readers := lock.readers - 1 },
      goOn c.op c.held.tail rest)
  | .release l .write :: rest =>
    let lock := s.locks l
    some (.released l .write, s.setLock l { lock with writer := false }, goOn c.op c.held.tail rest)
  | .act a :: rest =>
    match M.act s.state a o with
    | none => none
    | some (true, state) => some (.did a true, { s with state }, goOn c.op c.held rest)
    | some (false, state) => some (.did a false, { s with state }, goOn c.op c.held (unwind c.held))

def program [DecidableEq α] [DecidableEq τ] : Program (Shared L σ) (Call L α τ) ω (Event L α) :=
  ⟨fun c => c.held = [] && !c.announced && c.todo ≠ [] && c.todo = M.script c.op, M.advance⟩

end Machine

end Program

/-! ### Scripts -/

/-- The order in which locks are acquired, and those that may be read again. -/
structure Order (L : Type*) where
  rank : L → ℕ
  again : L → Bool

/-- The lock may be acquired while this is held. -/
def Order.Allows (r : Order L) (l : L) (m : Mode) (x : L × Mode) : Prop :=
  r.rank x.1 < r.rank l ∨ (x = (l, .read) ∧ m = .read ∧ r.again l = true)

/-- The script releases what is held in the reverse order, and acquires locks in the order of
their rank or reads again what it reads. -/
def Nested (r : Order L) : List (L × Mode) → List (Task L α) → Prop
  | held, [] => held = []
  | held, .act _ :: rest => Nested r held rest
  | held, .acquire l m :: rest => (∀ x ∈ held, r.Allows l m x) ∧ Nested r ((l, m) :: held) rest
  | held, .release l m :: rest => ∃ tail, held = (l, m) :: tail ∧ Nested r tail rest

variable {r : Order L} {held : List (L × Mode)} {todo : List (Task L α)} {c d : Call L α τ} {l : L}
  {m : Mode} {op : τ}

theorem nested_unwind (held : List (L × Mode)) : Nested r held (unwind held : List (Task L α)) := by
  induction held with
  | nil => rfl
  | cons x held ih => exact ⟨held, rfl, ih⟩

/-- There is a release for everything that is held. -/
theorem Nested.length_le (h : Nested r held todo) : held.length ≤ todo.length := by
  induction todo generalizing held with
  | nil =>
    rw [show held = [] from h]
    exact le_rfl
  | cons t rest ih =>
    cases t with
    | act => exact (ih h).trans (Nat.le_succ _)
    | acquire =>
      have hre := ih h.2
      rw [List.length_cons] at hre ⊢
      omega
    | release =>
      obtain ⟨tail, rfl, hta⟩ := h
      exact Nat.succ_le_succ (ih hta)

theorem goOn_eq_some (h : goOn op held todo = some d) :
    d = ⟨op, held, todo, false⟩ ∧ todo ≠ [] := by
  cases todo with cases h
  | cons t rest => exact ⟨rfl, by simp⟩

theorem Nested.goOn (h : Nested r held todo) :
    ∀ d, Locks.goOn op held todo = some d → Nested r d.held d.todo ∧ d.todo ≠ [] := by
  intro d hd
  obtain ⟨rfl, hne⟩ := goOn_eq_some hd
  exact ⟨h, hne⟩

/-- A reader of the lock will not read it again. -/
def Call.Settled (l : L) (c : Call L α τ) : Prop := (l, .read) ∈ c.held → .acquire l .read ∉ c.todo

theorem Call.Settled.mono (h : c.Settled l) (hheld : (l, .read) ∈ d.held → (l, .read) ∈ c.held)
    (htodo : .acquire l .read ∈ d.todo → .acquire l .read ∈ c.todo) : d.Settled l :=
  fun hre hag => h (hheld hre) (htodo hag)

def Call.work (c : Call L α τ) : ℕ := 2 * c.todo.length + if c.announced then 0 else 1

theorem goOn_work (op : τ) (held : List (L × Mode)) (todo : List (Task L α)) :
    (goOn op held todo).elim 0 Call.work ≤ 2 * todo.length + 1 := by
  cases todo with
  | nil => exact Nat.zero_le _
  | cons t rest => exact le_rfl

/-- The lock that a call has to acquire next. -/
def Call.awaits (c : Call L α τ) : Option (L × Mode) :=
  match c.todo with
  | .acquire l m :: _ => some (l, m)
  | _ => none

theorem awaits_eq_some (h : c.awaits = some (l, m)) :
    ∃ rest, c.todo = .acquire l m :: rest := by
  unfold Call.awaits at h
  split at h
  · rename_i l' m' rest htodo
    cases h
    exact ⟨rest, htodo⟩
  · cases h

/-! ### What a section does -/

section Steps

variable [DecidableEq L] {M : Machine L σ α τ ω} {s t : Shared L σ} {o : ω} {e : Event L α}
  {n : Option (Call L α τ)} {rest calls : Multiset (Call L α τ)}

inductive Step (M : Machine L σ α τ ω) (s : Shared L σ) (c : Call L α τ) (o : ω) :
    Event L α → Shared L σ → Option (Call L α τ) → Prop where
  | read (l : L) (rest : List (Task L α)) (htodo : c.todo = .acquire l .read :: rest)
    (hwriter : (s.locks l).writer = false) (hpending : (s.locks l).pending = false) :
    Step M s c o (.acquired l .read)
      (s.setLock l { s.locks l with readers := (s.locks l).readers + 1 })
      (goOn c.op ((l, .read) :: c.held) rest)
  | announce (l : L) (rest : List (Task L α)) (htodo : c.todo = .acquire l .write :: rest)
    (hnew : c.announced = false) (hwriter : (s.locks l).writer = false)
    (hpending : (s.locks l).pending = false) :
    Step M s c o (.announced l) (s.setLock l { s.locks l with pending := true })
      (some { c with announced := true })
  | write (l : L) (rest : List (Task L α)) (htodo : c.todo = .acquire l .write :: rest)
    (hannounced : c.announced = true) (hreaders : (s.locks l).readers = 0) :
    Step M s c o (.acquired l .write)
      (s.setLock l { s.locks l with writer := true, pending := false })
      (goOn c.op ((l, .write) :: c.held) rest)
  | releaseRead (l : L) (rest : List (Task L α))
    (htodo : c.todo = .release l .read :: rest) :
    Step M s c o (.released l .read)
      (s.setLock l { s.locks l with readers := (s.locks l).readers - 1 })
        (goOn c.op c.held.tail rest)
  | releaseWrite (l : L) (rest : List (Task L α))
    (htodo : c.todo = .release l .write :: rest) :
    Step M s c o (.released l .write) (s.setLock l { s.locks l with writer := false })
      (goOn c.op c.held.tail rest)
  | did (a state rest) (htodo : c.todo = .act a :: rest)
    (hact : M.act s.state a o = some (true, state)) :
    Step M s c o (.did a true) { s with state } (goOn c.op c.held rest)
  | failed (a state rest) (htodo : c.todo = .act a :: rest)
    (hact : M.act s.state a o = some (false, state)) :
    Step M s c o (.did a false) { s with state } (goOn c.op c.held (unwind c.held))

theorem advance_step (h : M.advance s c o = some (e, t, n)) : Step M s c o e t n := by
  revert h
  fun_cases M.advance s c o <;> rintro ⟨⟩
  · rename_i htodo _ hb
    push Not at hb
    exact .read _ _ htodo (Bool.eq_false_iff.mpr hb.1) (Bool.eq_false_iff.mpr hb.2.1)
  · exact .write _ _ ‹_› ‹_› (not_not.mp ‹_›)
  · rename_i htodo _ hannounced hb
    push Not at hb
    exact .announce _ _ htodo (Bool.eq_false_iff.mpr hannounced) (Bool.eq_false_iff.mpr hb.1)
      (Bool.eq_false_iff.mpr hb.2)
  · exact .releaseRead _ _ ‹_›
  · exact .releaseWrite _ _ ‹_›
  · exact .did _ _ _ ‹_› ‹_›
  · exact .failed _ _ _ ‹_› ‹_›

theorem locks_setLock (s : Shared L σ) (l l' : L) (lock : RWLock) :
    (s.setLock l lock).locks l' = if l' = l then lock else s.locks l' := by
  exact Function.update_apply ..

/-! ### Writers come when readers are settled -/

/-- Nobody who reads a lock at which a writer waits reads it again. -/
def Calm (r : Order L) (s : Shared L σ) (calls : Multiset (Call L α τ)) : Prop :=
  ∀ l, r.again l = true → (s.locks l).pending = true → ∀ c ∈ calls, c.Settled l

/-- The call does not come as a writer, or comes when no reader of the lock will read it again. -/
def Quiet (r : Order L) (calls : Multiset (Call L α τ)) (c : Call L α τ) : Prop :=
  ∀ l rest, r.again l = true → c.announced = false → c.todo = .acquire l .write :: rest →
    ∀ d ∈ calls, d.Settled l

/-- Only an announcement makes a writer wait. -/
theorem Step.pending (h : Step M s c o e t n) (hl : (t.locks l).pending = true) :
    (s.locks l).pending = true ∨
      (c.announced = false ∧ ∃ rest, c.todo = .acquire l .write :: rest) := by
  cases h with try rw [locks_setLock] at hl
  | announce _ _ htodo hnew =>
    split_ifs at hl with heq
    · rw [heq]
      exact .inr ⟨hnew, _, htodo⟩
    · exact .inl hl
  | did | failed => exact .inl hl
  | write =>
    split_ifs at hl
    exact .inl hl
  | read | releaseRead | releaseWrite =>
    split_ifs at hl with heq
    · rw [heq]
      exact .inl hl
    · exact .inl hl

theorem Step.settled (h : Step M s c o e t n) (hl : (t.locks l).pending = true)
    (hc : c.Settled l) (hn : n = some d) : d.Settled l := by
  cases h with (first | obtain ⟨rfl, -⟩ := goOn_eq_some hn | cases hn)
  | read l' _ htodo _ hpending =>
    have hne : l ≠ l' := by
      rintro rfl
      rw [locks_setLock, if_pos rfl] at hl
      cases hpending.symm.trans hl
    refine hc.mono (fun hre => ?_) fun hag => by simp [htodo, hag]
    rcases List.mem_cons.mp hre with h | h
    · exact absurd (Prod.ext_iff.mp h).1 hne
    · exact h
  | announce => exact hc
  | write _ _ htodo =>
    refine hc.mono (fun hre => ?_) fun hag => by simp [htodo, hag]
    rcases List.mem_cons.mp hre with h | h
    · cases h
    · exact h
  | releaseRead _ _ htodo | releaseWrite _ _ htodo =>
    exact hc.mono (fun hre => List.mem_of_mem_tail hre) fun hag => by simp [htodo, hag]
  | did _ _ _ htodo => exact hc.mono id fun hag => by simp [htodo, hag]
  | failed => exact fun _ hag => by simp [unwind] at hag

theorem Step.calm (h : Step M s c o e t n)
    (hca : Calm r s (c ::ₘ rest)) (hqu : Quiet r (c ::ₘ rest) c) :
    Calm r t (next n + rest) := by
  intro l hag hl
  have hse : ∀ d ∈ c ::ₘ rest, d.Settled l := by
    rcases h.pending hl with hp | ⟨hnew, todo, htodo⟩
    · exact hca l hag hp
    · exact hqu l todo hag hnew htodo
  intro d hd
  rcases mem_next_add.mp hd with hn | hd
  · exact h.settled hl (hse c (mem_cons_self c rest)) hn
  · exact hse d (Multiset.mem_cons_of_mem hd)

/-! ### Every section brings its call nearer to its end -/

theorem Step.work (h : Step M s c o e t n) (hc : Nested r c.held c.todo) :
    n.elim 0 Call.work < c.work := by
  have hle : ∀ {held todo}, 2 * todo.length + 1 < c.work → n = goOn c.op held todo →
      n.elim 0 Call.work < c.work := by
    rintro held todo hlt rfl
    exact (goOn_work c.op held todo).trans_lt hlt
  cases h with
  | announce _ _ _ hnew => simp [Call.work, hnew]
  | failed _ _ todo htodo =>
    rw [htodo] at hc
    have hlen := Nested.length_le (show Nested r c.held todo from hc)
    refine hle ?_ rfl
    rw [Call.work, unwind, List.length_map, htodo, List.length_cons]
    omega
  | read _ _ htodo | write _ _ htodo | releaseRead _ _ htodo
  | releaseWrite _ _ htodo | did _ _ _ htodo =>
    refine hle ?_ rfl
    rw [Call.work, htodo, List.length_cons]
    omega

/-- A call that awaits no lock can go on. -/
theorem enabled_of_awaits_none [Nonempty ω] (hact : ∀ s a, ∃ o, (M.act s a o).isSome)
    (hne : c.todo ≠ []) (h : c.awaits = none) : ∃ o, (M.advance s c o).isSome := by
  unfold Machine.advance
  unfold Call.awaits at h
  cases htodo : c.todo with
  | nil => exact absurd htodo hne
  | cons task rest =>
    rw [htodo] at h
    cases task with
    | acquire => cases h
    | release _ m =>
      obtain ⟨o⟩ := ‹Nonempty ω›
      cases m <;> exact ⟨o, rfl⟩
    | act a =>
      obtain ⟨o, ho⟩ := hact s.state a
      obtain ⟨⟨ok, state⟩, hso⟩ := Option.isSome_iff_exists.mp ho
      refine ⟨o, ?_⟩
      dsimp only
      rw [hso]
      cases ok <;> rfl

/-! ### The locks count their holders -/

variable [DecidableEq α]

def Call.reads (l : L) (c : Call L α τ) : ℕ := c.held.count (l, .read)

def Call.writes (l : L) (c : Call L α τ) : ℕ := c.held.count (l, .write)

def Call.waits (l : L) (c : Call L α τ) : ℕ :=
  if c.announced ∧ c.todo.head? = some (.acquire l .write) then 1 else 0

open Call (work awaits reads writes waits)

structure Coherent (r : Order L) (s : Shared L σ) (calls : Multiset (Call L α τ)) : Prop where
  readers : ∀ l, (s.locks l).readers = weight (reads l) calls
  writer : ∀ l, (s.locks l).writer.toNat = weight (writes l) calls
  pending : ∀ l, (s.locks l).pending.toNat = weight (waits l) calls
  exclusive : ∀ l, (s.locks l).writer = true → (s.locks l).readers = 0 ∧ (s.locks l).pending = false
  balanced : ∀ c ∈ calls, Nested r c.held c.todo ∧ c.todo ≠ []

variable
  {tr : List ((Action (Call L α τ) ω × Option (Event L α)) × Pool (Shared L σ) (Call L α τ))}
  {u : Pool (Shared L σ) (Call L α τ)} {init : Shared L σ → Prop}

theorem goOn_weight (op : τ) (h : Nested r held todo) (l : L) :
    (goOn op held todo).elim 0 (reads l) = held.count (l, .read) ∧
      (goOn op held todo).elim 0 (writes l) = held.count (l, .write) ∧
      (goOn op held todo).elim 0 (waits l) = 0 := by
  cases todo with
  | nil =>
    rw [show held = [] from h]
    exact ⟨rfl, rfl, rfl⟩
  | cons t rest => exact ⟨rfl, rfl, by simp [goOn, waits]⟩

/-- The counts after a section whose call goes on at `n`. -/
theorem Coherent.advance (h : Coherent r s (c ::ₘ rest))
    (hreaders : ∀ l, (t.locks l).readers + c.reads l = (s.locks l).readers + n.elim 0 (reads l))
    (hwriter : ∀ l, (t.locks l).writer.toNat + c.writes l =
      (s.locks l).writer.toNat + n.elim 0 (writes l))
    (hpending : ∀ l, (t.locks l).pending.toNat + c.waits l =
      (s.locks l).pending.toNat + n.elim 0 (waits l))
    (hex : ∀ l, (t.locks l).writer = true → (t.locks l).readers = 0 ∧ (t.locks l).pending = false)
    (hb : ∀ d, n = some d → Nested r d.held d.todo ∧ d.todo ≠ []) :
    Coherent r t (next n + rest) := by
  refine ⟨fun l => weight_swap (h.readers l) (hreaders l),
    fun l => weight_swap (h.writer l) (hwriter l),
    fun l => weight_swap (h.pending l) (hpending l), hex, fun d hd => ?_⟩
  rcases mem_next_add.mp hd with hn | hd
  · exact hb d hn
  · exact h.balanced d (Multiset.mem_cons_of_mem hd)

/-- A call whose next task is no write lock waits nowhere. -/
theorem waits_eq_zero (h : c.todo.head? ≠ some (.acquire l .write)) : c.waits l = 0 := by
  rw [waits, if_neg fun hall => h hall.2]

/-- The same when one lock changes, and the call counts for the others as before. -/
theorem Coherent.setLock (h : Coherent r s (c ::ₘ rest)) {lock}
    (hot : ∀ l', l' ≠ l → n.elim 0 (reads l') = c.reads l' ∧
      n.elim 0 (writes l') = c.writes l' ∧ n.elim 0 (waits l') = c.waits l')
    (hreaders : lock.readers + c.reads l = (s.locks l).readers + n.elim 0 (reads l))
    (hwriter : lock.writer.toNat + c.writes l = (s.locks l).writer.toNat + n.elim 0 (writes l))
    (hpending : lock.pending.toNat + c.waits l = (s.locks l).pending.toNat + n.elim 0 (waits l))
    (hex : lock.writer = true → lock.readers = 0 ∧ lock.pending = false)
    (hb : ∀ d, n = some d → Nested r d.held d.todo ∧ d.todo ≠ []) :
    Coherent r (s.setLock l lock) (next n + rest) := by
  refine h.advance (fun l' => ?_) (fun l' => ?_) (fun l' => ?_) (fun l' => ?_) hb
  all_goals rw [locks_setLock]
  all_goals split_ifs with hl
  · rw [hl, hreaders]
  · rw [(hot l' hl).1]
  · rw [hl, hwriter]
  · rw [(hot l' hl).2.1]
  · rw [hl, hpending]
  · rw [(hot l' hl).2.2]
  · exact hex
  · exact h.exclusive l'

theorem goOn_acquired (h : Nested r ((l, m) :: c.held) todo) (l' : L) :
    (goOn c.op ((l, m) :: c.held) todo).elim 0 (reads l') =
        c.reads l' + (if l' = l ∧ m = .read then 1 else 0) ∧
      (goOn c.op ((l, m) :: c.held) todo).elim 0 (writes l') =
        c.writes l' + (if l' = l ∧ m = .write then 1 else 0) ∧
      (goOn c.op ((l, m) :: c.held) todo).elim 0 (waits l') = 0 := by
  obtain ⟨hre, hwr, hwa⟩ := goOn_weight c.op h l'
  refine ⟨?_, ?_, hwa⟩
  · rw [hre, List.count_cons, reads]
    simp [eq_comm (a := l)]
  · rw [hwr, List.count_cons, writes]
    simp [eq_comm (a := l)]

theorem goOn_released {tail} (hheld : c.held = (l, m) :: tail) (h : Nested r tail todo) (l' : L) :
    (goOn c.op tail todo).elim 0 (reads l') + (if l' = l ∧ m = .read then 1 else 0) = c.reads l' ∧
      (goOn c.op tail todo).elim 0 (writes l') + (if l' = l ∧ m = .write then 1 else 0) =
        c.writes l' ∧
      (goOn c.op tail todo).elim 0 (waits l') = 0 := by
  obtain ⟨hre, hwr, hwa⟩ := goOn_weight c.op h l'
  refine ⟨?_, ?_, hwa⟩
  · rw [hre, reads, hheld, List.count_cons]
    simp [eq_comm (a := l)]
  · rw [hwr, writes, hheld, List.count_cons]
    simp [eq_comm (a := l)]

/-- The same when the call does something else and goes on with what it holds. -/
theorem Coherent.act (h : Coherent r s (c ::ₘ rest)) {a : α} {todo' : List (Task L α)}
    (htodo : c.todo = .act a :: todo) (hb : Nested r c.held todo') {state : σ} :
    Coherent r { s with state } (next (goOn c.op c.held todo') + rest) := by
  have hn := goOn_weight c.op hb
  refine h.advance (fun l => ?_) (fun l => ?_) (fun l => ?_) h.exclusive hb.goOn
  · rw [(hn l).1]
    rfl
  · rw [(hn l).2.1]
    rfl
  · rw [(hn l).2.2, waits_eq_zero (by simp [htodo])]

theorem Step.coherent (h : Step M s c o e t n) (hs : Coherent r s (c ::ₘ rest)) :
    Coherent r t (next n + rest) := by
  obtain ⟨hb, -⟩ := hs.balanced c (mem_cons_self c rest)
  have hre : ∀ l, c.reads l ≤ (s.locks l).readers := fun l => by
    rw [hs.readers]
    exact le_weight _ (mem_cons_self c rest)
  have hwr : ∀ l, c.writes l ≤ (s.locks l).writer.toNat := fun l => by
    rw [hs.writer]
    exact le_weight _ (mem_cons_self c rest)
  have hwai : ∀ l, c.waits l ≤ (s.locks l).pending.toNat := fun l => by
    rw [hs.pending]
    exact le_weight _ (mem_cons_self c rest)
  cases h with rw [htodo] at hb
  | read l _ htodo hwriter =>
    have hn := goOn_acquired hb.2
    have hwa : ∀ l', c.waits l' = 0 := fun l' => waits_eq_zero (by simp [htodo])
    refine hs.setLock (fun l' hl => ?_) ?_ ?_ ?_ (fun hw => ?_) hb.2.goOn
    · simp [hn l', hl, hwa]
    · simp only [hn l, true_and, if_true]
      omega
    · simp [hn l]
    · simp [hn l, hwa]
    · cases hwriter.symm.trans hw
  | announce l _ htodo hnew hwriter hpending =>
    have hwa : ∀ l', c.waits l' = 0 := fun l' => by simp [waits, hnew]
    have hd : ∀ l', waits l' { c with announced := true } = if l' = l then 1 else 0 := by
      simp [waits, htodo, eq_comm]
    refine hs.setLock (fun l' hl => ⟨rfl, rfl, ?_⟩) rfl rfl ?_ (fun hw => ?_) (fun d hd => ?_)
    · rw [Option.elim_some, hd, if_neg hl, hwa]
    · rw [Option.elim_some, hd, if_pos rfl, hwa, hpending]
      rfl
    · cases hwriter.symm.trans hw
    · cases hd
      exact hs.balanced c (mem_cons_self c rest)
  | write l _ htodo hannounced hreaders =>
    have hn := goOn_acquired hb.2
    have hwa : ∀ l', c.waits l' = if l' = l then 1 else 0 := by
      simp [waits, htodo, hannounced, eq_comm]
    have hpending : (s.locks l).pending = true := by
      have := hwai l
      rw [hwa, if_pos rfl] at this
      cases hp : (s.locks l).pending with
      | true => rfl
      | false => simp [hp] at this
    have hwriter : (s.locks l).writer = false := by
      refine Bool.eq_false_iff.mpr fun hw => ?_
      cases hpending.symm.trans (hs.exclusive l hw).2
    refine hs.setLock (fun l' hl => ?_) ?_ ?_ ?_ (fun _ => ⟨hreaders, rfl⟩) hb.2.goOn
    · simp [hn l', hl, hwa]
    · simp [hn l]
    · simp [hn l, hwriter]
      omega
    · simp [hn l, hwa, hpending]
  | releaseRead l _ htodo =>
    obtain ⟨tail, hheld, hta⟩ := hb
    have hn := goOn_released hheld hta
    have hwa : ∀ l', c.waits l' = 0 := fun l' => waits_eq_zero (by simp [htodo])
    rw [hheld, List.tail_cons]
    have hone := (hn l).1
    have hco := hre l
    simp only [true_and, if_true] at hone
    refine hs.setLock (fun l' hl => ?_) ?_ ?_ ?_ (fun hw => ?_) hta.goOn
    · have := hn l'
      simp_all
    · dsimp only
      omega
    · have := (hn l).2.1
      simp_all
    · rw [(hn l).2.2, hwa]
    · have := hs.exclusive l hw
      omega
  | releaseWrite l _ htodo =>
    obtain ⟨tail, hheld, hta⟩ := hb
    have hn := goOn_released hheld hta
    have hwa : ∀ l', c.waits l' = 0 := fun l' => waits_eq_zero (by simp [htodo])
    rw [hheld, List.tail_cons]
    refine hs.setLock (fun l' hl => ?_) ?_ ?_ ?_ (fun hw => by cases hw) hta.goOn
    · have := hn l'
      simp_all
    · have := (hn l).1
      simp_all
    · have hone := (hn l).2.1
      have hco := hwr l
      have hle := Bool.toNat_le (s.locks l).writer
      simp only [true_and, if_true] at hone
      simp only [Bool.toNat_false]
      omega
    · rw [(hn l).2.2, hwa]
  | did _ _ todo htodo => exact hs.act htodo (show Nested r c.held todo from hb)
  | failed _ _ _ htodo => exact hs.act htodo (nested_unwind c.held)

/-! ### Some call can go on -/

variable [DecidableEq τ]

/-- Among calls that all await locks, one that awaits a lock of the highest rank finds nobody
who holds it, unless a reader is about to read it again. -/
theorem exists_highest (hs : Coherent r s calls) (hne : calls ≠ 0)
    (hall : ∀ c ∈ calls, c.awaits ≠ none) :
    ∃ c ∈ calls, ∃ l m, c.awaits = some (l, m) ∧ (s.locks l).writer = false ∧
      ∀ d ∈ calls, (l, .read) ∈ d.held → d.awaits = some (l, .read) ∧ r.again l = true := by
  obtain ⟨c, hc, hmax⟩ := Finset.exists_max_image calls.toFinset
    (fun c => c.awaits.elim 0 fun x => r.rank x.1) (by simpa using hne)
  rw [mem_toFinset] at hc
  obtain ⟨⟨l, m⟩, hl⟩ := Option.ne_none_iff_exists'.mp (hall c hc)
  -- who holds the lock awaits one that is not higher
  have hho : ∀ d ∈ calls, ∀ m', (l, m') ∈ d.held →
      d.awaits = some (l, .read) ∧ m' = .read ∧ r.again l = true := by
    intro d hd m' hheld
    obtain ⟨⟨l', m''⟩, hl'⟩ := Option.ne_none_iff_exists'.mp (hall d hd)
    have hle := hmax d (mem_toFinset.mpr hd)
    rw [hl, hl'] at hle
    obtain ⟨rest, htodo⟩ := awaits_eq_some hl'
    have hb := (hs.balanced d hd).1
    rw [htodo] at hb
    rcases hb.1 (l, m') hheld with hlt | ⟨heq, rfl, hag⟩
    · exact absurd hlt (Nat.not_lt.mpr hle)
    · cases heq
      exact ⟨hl', rfl, hag⟩
  refine ⟨c, hc, l, m, hl, ?_, fun d hd hre => ?_⟩
  · refine Bool.eq_false_iff.mpr fun hw => ?_
    have hone := hs.writer l
    rw [hw] at hone
    obtain ⟨d, hd, hwr⟩ := exists_of_weight_ne_zero (by rw [← hone]; exact one_ne_zero)
    have hmem := List.count_pos_iff.mp (Nat.pos_of_ne_zero hwr)
    cases (hho d hd .write hmem).2.1
  · obtain ⟨h, -, hag⟩ := hho d hd .read hre
    exact ⟨h, hag⟩

/-- Some call can go on, and if it comes as a writer it does so when the readers are settled. -/
theorem exists_enabled [Nonempty ω] (hact : ∀ s a, ∃ o, (M.act s a o).isSome)
    (hca : ∀ l k, M.capacity l = some k → 0 < k ∧ r.again l = false) (hs : Coherent r s calls)
    (hcal : Calm r s calls) (hne : calls ≠ 0) :
    ∃ c ∈ calls, Quiet r calls c ∧ ∃ o, (M.advance s c o).isSome := by
  by_cases hfree : ∃ c ∈ calls, c.awaits = none
  · obtain ⟨c, hc, haw⟩ := hfree
    refine ⟨c, hc, fun l rest _ _ htodo => ?_, ?_⟩
    · simp [awaits, htodo] at haw
    · exact enabled_of_awaits_none hact (hs.balanced c hc).2 haw
  push Not at hfree
  obtain ⟨c, hc, l, m, haw, hwriter, hreaders⟩ := exists_highest hs hne hfree
  obtain ⟨rest, htodo⟩ := awaits_eq_some haw
  obtain ⟨o⟩ := ‹Nonempty ω›
  by_cases hag : ∃ d ∈ calls, (l, .read) ∈ d.held
  · -- a reader that reads again is not kept out, since no writer waits at its lock
    obtain ⟨d, hd, hrea⟩ := hag
    obtain ⟨hnext, hre⟩ := hreaders d hd hrea
    obtain ⟨rest', htodo'⟩ := awaits_eq_some hnext
    have hpending : (s.locks l).pending = false := by
      refine Bool.eq_false_iff.mpr fun hp => ?_
      exact absurd (by simp [htodo']) (hcal l hre hp d hd hrea)
    have hro : M.capacity l = none := by
      cases hcap : M.capacity l with
      | none => rfl
      | some k => cases (hca l k hcap).2.symm.trans hre
    refine ⟨d, hd, fun l' rest'' _ _ hwrite => ?_, o, ?_⟩
    · simp [htodo'] at hwrite
    · simp [Machine.advance, htodo', hwriter, hpending, hro]
  · -- nobody holds the lock
    have hnone : (s.locks l).readers = 0 := by
      rw [hs.readers, weight_eq_zero]
      intro d hd
      rw [reads, List.count_eq_zero]
      exact fun hrea => hag ⟨d, hd, hrea⟩
    cases hp : (s.locks l).pending with
    | true =>
      have hone := hs.pending l
      rw [hp] at hone
      obtain ⟨d, hd, hwa⟩ := exists_of_weight_ne_zero (by rw [← hone]; exact one_ne_zero)
      obtain ⟨hannounced, hhe⟩ : d.announced = true ∧ d.todo.head? = some (.acquire l .write) := by
        by_contra hnot
        exact hwa (if_neg hnot)
      obtain ⟨rest', htodo'⟩ := List.head?_eq_some_iff.mp hhe
      refine ⟨d, hd, fun l' rest'' _ hnew _ => ?_, o, ?_⟩
      · cases hannounced.symm.trans hnew
      · simp [Machine.advance, htodo', hannounced, hnone]
    | false =>
      refine ⟨c, hc, fun l' rest'' _ _ hwrite d hd hrea => ?_, o, ?_⟩
      · rw [htodo] at hwrite
        cases hwrite
        exact absurd ⟨d, hd, hrea⟩ hag
      · cases m with
        | read =>
          have hro : (M.capacity l).any (· ≤ (s.locks l).readers) = false := by
            cases hcap : M.capacity l with
            | none => rfl
            | some k => simpa [hnone] using (hca l k hcap).1.ne'
          simp [Machine.advance, htodo, hwriter, hp, hro]
        | write => cases ha : c.announced <;> simp [Machine.advance, htodo, ha, hwriter, hp, hnone]

/-! ### Runs -/

/-- No lock is taken. -/
def Shared.Free (s : Shared L σ) : Prop := ∀ l, s.locks l = ⟨0, false, false⟩

omit [DecidableEq τ] in
theorem coherent_free (h : s.Free) : Coherent r s (0 : Multiset (Call L α τ)) := by
  refine ⟨fun l => ?_, fun l => ?_, fun l => ?_, fun l hw => ?_, fun c hc => by simp at hc⟩
  · rw [h l, weight_zero]
  · rw [h l, weight_zero]
    rfl
  · rw [h l, weight_zero]
    rfl
  · simp [h l] at hw

theorem entry_eq_true (h : M.program.entry c = true) :
    c.held = [] ∧ c.announced = false ∧ c.todo ≠ [] ∧ c.todo = M.script c.op := by
  simpa [Machine.program, and_assoc] using h

theorem Coherent.enter (hs : Coherent r s calls) (hsc : ∀ op, Nested r [] (M.script op))
    (hc : M.program.entry c = true) : Coherent r s (c ::ₘ calls) := by
  obtain ⟨hheld, hannounced, hne, htodo⟩ := entry_eq_true hc
  refine ⟨fun l => ?_, fun l => ?_, fun l => ?_, hs.exclusive, fun d hd => ?_⟩
  · rw [hs.readers, weight_cons, reads, hheld, List.count_nil, zero_add]
  · rw [hs.writer, weight_cons, writes, hheld, List.count_nil, zero_add]
  · rw [hs.pending, weight_cons, waits, if_neg (by simp [hannounced]), zero_add]
  · rcases mem_cons.mp hd with rfl | hd
    · rw [hheld]
      exact ⟨htodo ▸ hsc d.op, hne⟩
    · exact hs.balanced d hd

theorem Calm.enter (hs : Calm r s calls) (hc : M.program.entry c = true) :
    Calm r s (c ::ₘ calls) := by
  intro l hag hl d hd
  rcases mem_cons.mp hd with rfl | hd
  · intro hre
    simp [(entry_eq_true hc).1] at hre
  · exact hs l hag hl d hd

/-- Writers come quietly. -/
def QuietStep (r : Order L) (_ : List (Action (Call L α τ) ω × Option (Event L α)))
    (u : Pool (Shared L σ) (Call L α τ)) (l : Action (Call L α τ) ω × Option (Event L α)) : Prop :=
  ∀ c o, l.1 = .advance c o → Quiet r u.calls c

instance (c : Call L α τ) (l : L) : Decidable (c.Settled l) :=
  inferInstanceAs (Decidable ((l, .read) ∈ c.held → .acquire l .read ∉ c.todo))

instance (calls : Multiset (Call L α τ)) (c : Call L α τ) : Decidable (Quiet r calls c) :=
  match htodo : c.todo with
  | .acquire l .write :: _ =>
    decidable_of_iff (r.again l = true → c.announced = false → ∀ d ∈ calls, d.Settled l)
      ⟨fun h l' rest hag hc hl => by
        cases htodo.symm.trans hl
        exact h hag hc,
      fun h hag hc => h l _ hag hc htodo⟩
  | [] | .acquire _ .read :: _ | .release _ _ :: _ | .act _ :: _ =>
    .isTrue fun _ _ _ _ hl => by cases htodo.symm.trans hl

instance (past : List (Action (Call L α τ) ω × Option (Event L α)))
    (u : Pool (Shared L σ) (Call L α τ)) (l : Action (Call L α τ) ω × Option (Event L α)) :
    Decidable (QuietStep r past u l) :=
  match l with
  | (.enter _, _) => .isTrue fun _ _ h => by cases h
  | (.advance c _, _) =>
    decidable_of_iff (Quiet r u.calls c)
      ⟨fun h _ _ hc => by
        cases hc
        exact h,
      fun h => h _ _ rfl⟩

theorem run_calm (hin : ∀ s, init s → s.Free) (hu : (M.program.system init).init u)
    (hr : (M.program.system init).Run u tr) (hg : Guarded (QuietStep r) [] u tr) :
    ∀ v ∈ states u tr, Calm r v.shared v.calls := by
  have hsta : Calm r u.shared u.calls := by
    intro l _ hl
    simp [hin _ hu.1 l] at hl
  exact (Program.forall_guarded (I := Calm r) (E := fun _ _ => True)
    (fun _ _ _ _ hc _ hs => ⟨hs.enter hc, trivial⟩)
    (fun _ _ _ c o _ _ _ hs hqu hadv =>
      ⟨(advance_step hadv).calm hs (hqu c o rfl), trivial⟩) hsta hr hg).1

/-- As long as no call enters, a run is no longer than the work of its calls. -/
theorem run_length_le (hu : Coherent r u.shared u.calls) (hr : (M.program.system init).Run u tr)
    (hno : ∀ l ∈ labels tr, ∀ c, l.1 ≠ .enter c) :
    tr.length + weight work (last u tr).calls ≤ weight work u.calls :=
  Program.length_add_weight_le (I := Coherent r) (C := fun _ _ _ => True)
    (fun _ _ rest c _ _ _ _ hs _ hadv =>
      ⟨(advance_step hadv).coherent hs,
        (advance_step hadv).work (hs.balanced c (mem_cons_self c rest)).1⟩)
    hu hr (guarded_true [] u tr) hno

end Steps

end RedevPlugin.Locks
