import RedevPlugin.Foundation.Locks

/-! The locks of the plugin data store. Every operation reads the lifecycle lock of the store
while it runs, and `Close` writes it; below are the locks of a plugin and of a namespace and
the slots of the SQLite operations. A stream reads the lifecycle lock for its whole time and
again for each access to its namespace, so a `Close` that starts to wait in between waits for
the stream and the stream for it. If `Close` comes only when no stream has an access ahead,
then nothing is ever stuck. Waits that are not for locks are parts of `work` and `touch` and
are assumed to end: for one of the 128 open databases, for the usage of a namespace that
another call loads, and of `Close` for these loads. -/

namespace RedevPlugin.PluginData.Lifecycle

open Locks Threads Transition
open List (replicate append_assoc)

/-! ### Locks and tasks -/

inductive Lock where
  /-- The slots of `sqliteOperations`. -/
  | sqliteOperations
  | lifecycle
  /-- The lock of a plugin, in `locks`. -/
  | plugin (key : String)
  /-- The lock of a namespace, or of its scope while that is initialised, in `namespaceLocks`. -/
  | namespace (key : String)
  /-- The slots of the queries of a namespace. -/
  | sqliteQueries (key : String)
  deriving DecidableEq

inductive Act where
  /-- The check of `begin`. -/
  | begin
  /-- The catalog, files outside a namespace, the caller's reader or writer. -/
  | work
  /-- An access to the files or the database of a namespace. -/
  | touch
  /-- `lifecycleCancel`. -/
  | cancel
  /-- `closed` is set. -/
  | close
  deriving DecidableEq

structure State where
  cancelled : Bool
  closed : Bool

abbrev Step := Locks.Task Lock Act

/-- What the environment decides: whether work succeeds. -/
abbrev Success := Bool

def act (s : State) : Act → Success → Option (Bool × State)
  | .begin, _ => some (!(s.closed || s.cancelled), s)
  | .work, ok | .touch, ok => some (ok, s)
  | .cancel, _ => some (true, { s with cancelled := true })
  | .close, _ => some (true, { s with closed := true })

/-! ### Operations -/

/-- The keys of the locks of an access to a namespace, whether it writes, and the number of
times that it uses the namespace. -/
structure Access where
  pluginKey : String
  scopeKey : String
  namespaceKey : String
  write : Bool
  uses : ℕ
  deriving DecidableEq

def Access.mode (a : Access) : Mode := if a.write then .write else .read

/-- `withNamespaceAccess` around `use`. -/
def Access.around (a : Access) (use : List Step) : List Step :=
  [.act .work, .acquire .lifecycle .read, .act .begin, .acquire (.plugin a.pluginKey) .read,
    .act .work, .acquire (.namespace a.scopeKey) .write, .act .work,
    .release (.namespace a.scopeKey) .write, .acquire (.namespace a.namespaceKey) a.mode,
    .act .touch] ++
  use ++
  [.release (.namespace a.namespaceKey) a.mode, .release (.plugin a.pluginKey) .read,
    .release .lifecycle .read]

def Access.steps (a : Access) : List Step := a.around (replicate a.uses (.act .touch))

inductive Operation where
  /-- `ReadFile`, `WriteFile`, `DeleteFile`, `ListFiles`, `GetKV`, `PutKV`, `DeleteKV`, `ListKV`
  and `BatchKV`. -/
  | ordinary (a : Access)
  | execSQLite (a : Access)
  | querySQLite (a : Access)
  /-- The accesses that find the quota and read the file, and the writes to the destination. -/
  | readFileStream (quota file : Access) (writes : ℕ)
  /-- The accesses that find the quota and write the file, and the reads of the source. -/
  | writeFileStream (quota file : Access) (reads : ℕ)
  | close
  deriving DecidableEq

def Operation.script : Operation → List Step
  | .ordinary a => a.steps
  | .execSQLite a =>
    [.act .work, .acquire .sqliteOperations .read] ++ a.steps ++ [.release .sqliteOperations .read]
  | .querySQLite a =>
    [.act .work, .acquire .sqliteOperations .read] ++
      a.around ([.acquire (.sqliteQueries a.namespaceKey) .read] ++
        replicate a.uses (.act .touch) ++ [.release (.sqliteQueries a.namespaceKey) .read]) ++
      [.release .sqliteOperations .read]
  | .readFileStream quota file writes =>
    [.acquire .lifecycle .read, .act .begin, .act .work] ++ quota.steps ++ file.steps ++
      replicate writes (.act .work) ++ [.release .lifecycle .read]
  | .writeFileStream quota file reads =>
    [.act .work, .acquire .lifecycle .read, .act .begin] ++ quota.steps ++ [.act .work] ++
      replicate reads (.act .work) ++ file.steps ++ [.release .lifecycle .read]
  | .close =>
    [.act .cancel, .acquire .lifecycle .write, .act .close, .act .work, .release .lifecycle .write]

def maxConcurrentSQLiteOperations : ℕ := 8

def maxConcurrentSQLiteQueries : ℕ := 8

def machine : Machine Lock State Act Operation Success where
  capacity
    | .sqliteOperations => some maxConcurrentSQLiteOperations
    | .sqliteQueries _ => some maxConcurrentSQLiteQueries
    | _ => none
  act
  script := Operation.script

def opened : Shared Lock State := ⟨fun _ => ⟨0, false, false⟩, ⟨false, false⟩⟩

/-! ### The scripts are balanced -/

def order : Order Lock where
  rank
    | .sqliteOperations => 0
    | .lifecycle => 1
    | .plugin _ => 2
    | .namespace _ => 3
    | .sqliteQueries _ => 4
  again l := l = .lifecycle

variable {rest use : List Step} {a : Act} {held : List (Lock × Mode)} {l : Lock}
  {d : Call Lock Act Operation} {calls : Multiset (Call Lock Act Operation)}

theorem nested_replicate {n} (h : Nested order held rest) :
    Nested order held (replicate n (.act a) ++ rest) := by
  induction n with
  | zero => exact h
  | succ n ih => exact ih

section

variable (hheld : ∀ x ∈ held, x = (.sqliteOperations, .read) ∨ x = (.lifecycle, .read))

include hheld

/-- An access is balanced where nothing above the lifecycle lock is held. -/
theorem nested_around {a : Access}
    (huse : ∀ tail,
      Nested order ((.namespace a.namespaceKey, a.mode) :: (.plugin a.pluginKey, .read) ::
        (.lifecycle, .read) :: held) tail →
      Nested order ((.namespace a.namespaceKey, a.mode) :: (.plugin a.pluginKey, .read) ::
        (.lifecycle, .read) :: held) (use ++ tail)) (hre : Nested order held rest) :
    Nested order held (a.around use ++ rest) := by
  have hlow : ∀ x ∈ held, order.rank x.1 ≤ 1 := by
    intro x hx
    rcases hheld x hx with rfl | rfl <;> decide
  have hal : ∀ {l m}, 1 < order.rank l → ∀ x ∈ held, order.Allows l m x := by
    intro l m hl x hx
    have := hlow x hx
    exact .inl (by omega)
  simp only [Access.around, append_assoc, List.cons_append, List.nil_append, Nested]
  refine ⟨?_, ?_, ?_, _, rfl, ?_, huse _ ⟨_, rfl, _, rfl, _, rfl, hre⟩⟩
  · intro x hx
    rcases hheld x hx with rfl | rfl
    · exact .inl (by decide)
    · exact .inr ⟨rfl, rfl, rfl⟩
  all_goals simp only [List.forall_mem_cons]
  · exact ⟨.inl (by simp [order]), hal (by simp [order])⟩
  · exact ⟨.inl (by simp [order]), .inl (by simp [order]), hal (by simp [order])⟩
  · exact ⟨.inl (by simp [order]), .inl (by simp [order]), hal (by simp [order])⟩

theorem nested_steps {a : Access} (hre : Nested order held rest) :
    Nested order held (a.steps ++ rest) :=
  nested_around hheld (fun _ hta => nested_replicate hta) hre

end

theorem nested_script (op : Operation) : Nested order [] op.script := by
  have hnil : Nested order [] ([] : List Step) := rfl
  have hsq : ∀ x ∈ [(Lock.sqliteOperations, Mode.read)],
      x = (.sqliteOperations, .read) ∨ x = (.lifecycle, .read) := by simp
  have hli : ∀ x ∈ [(Lock.lifecycle, Mode.read)],
      x = (.sqliteOperations, .read) ∨ x = (.lifecycle, .read) := by simp
  have hend : ∀ l, Nested order [(l, .read)] [(.release l .read : Step)] := fun l => ⟨[], rfl, rfl⟩
  cases op with
  | ordinary a =>
    have h := nested_steps (a := a) (by simp) hnil
    rwa [List.append_nil] at h
  | execSQLite => exact ⟨by simp, nested_steps hsq (hend _)⟩
  | querySQLite =>
    refine ⟨by simp, nested_around hsq (fun tail hta => ?_) (hend _)⟩
    rw [append_assoc, append_assoc]
    refine ⟨?_, nested_replicate ⟨_, rfl, hta⟩⟩
    simp only [List.forall_mem_cons, List.not_mem_nil, false_implies, implies_true, and_true]
    exact ⟨.inl (by simp [order]), .inl (by simp [order]), .inl (by simp [order]),
      .inl (by simp [order])⟩
  | readFileStream =>
    simp only [Operation.script, append_assoc]
    exact ⟨by simp, nested_steps hli (nested_steps hli (nested_replicate (hend _)))⟩
  | writeFileStream =>
    simp only [Operation.script, append_assoc]
    exact ⟨by simp, nested_steps hli (nested_replicate (nested_steps hli (hend _)))⟩
  | close => exact ⟨by simp, [], rfl, rfl⟩

/-! ### Namespaces are used under the lifecycle lock -/

/-- A namespace is used only while the lifecycle lock is read, the check of `begin` follows when
it is first read, and `closed` is set right after it is written. -/
def Shape : List (Lock × Mode) → List Step → Prop
  | _, [] => True
  | held, .act .touch :: rest => (.lifecycle, .read) ∈ held ∧ Shape held rest
  | held, .act .close :: rest => (.lifecycle, .write) ∈ held ∧ Shape held rest
  | held, .act _ :: rest => Shape held rest
  | held, .acquire .lifecycle .read :: rest =>
    ((.lifecycle, .read) ∈ held ∨ rest.head? = some (.act .begin)) ∧
      Shape ((.lifecycle, .read) :: held) rest
  | held, .acquire .lifecycle .write :: rest =>
    rest.head? = some (.act .close) ∧ Shape ((.lifecycle, .write) :: held) rest
  | held, .acquire l m :: rest => Shape ((l, m) :: held) rest
  | held, .release _ _ :: rest => Shape held.tail rest

theorem shape_replicate {n} (ha : a = .work ∨ (a = .touch ∧ (.lifecycle, .read) ∈ held))
    (h : Shape held rest) : Shape held (replicate n (.act a) ++ rest) := by
  induction n with
  | zero => exact h
  | succ n ih =>
    rcases ha with rfl | ⟨rfl, hheld⟩
    · exact ih
    · exact ⟨hheld, ih⟩

theorem shape_around {a : Access}
    (huse : ∀ tail, Shape ((.namespace a.namespaceKey, a.mode) :: (.plugin a.pluginKey, .read) ::
        (.lifecycle, .read) :: held) tail →
      Shape ((.namespace a.namespaceKey, a.mode) :: (.plugin a.pluginKey, .read) ::
        (.lifecycle, .read) :: held) (use ++ tail)) (hre : Shape held rest) :
    Shape held (a.around use ++ rest) := by
  simp only [Access.around, append_assoc, List.cons_append, List.nil_append]
  exact ⟨.inr rfl, by simp, huse _ hre⟩

theorem shape_steps {a : Access} (hre : Shape held rest) : Shape held (a.steps ++ rest) :=
  shape_around (fun _ hta => shape_replicate (.inr ⟨rfl, by simp⟩) hta) hre

theorem shape_script (op : Operation) : Shape [] op.script := by
  cases op with
  | ordinary a =>
    have h := @shape_steps [] [] a trivial
    rwa [List.append_nil] at h
  | execSQLite => exact shape_steps trivial
  | querySQLite =>
    refine shape_around (fun tail hta => ?_) trivial
    rw [append_assoc, append_assoc]
    exact shape_replicate (.inr ⟨rfl, by simp⟩) hta
  | readFileStream =>
    simp only [Operation.script, append_assoc]
    exact ⟨.inr rfl, shape_steps (shape_steps (shape_replicate (.inl rfl) trivial))⟩
  | writeFileStream =>
    simp only [Operation.script, append_assoc]
    exact ⟨.inr rfl, shape_steps (shape_replicate (.inl rfl) (shape_steps trivial))⟩
  | close => exact ⟨rfl, by simp, trivial⟩

theorem shape_acquire {m} (h : Shape held (.acquire l m :: rest)) :
    Shape ((l, m) :: held) rest := by
  cases l with
  | lifecycle => cases m <;> exact h.2
  | _ => exact h

theorem shape_act (h : Shape held (.act a :: rest)) : Shape held rest := by
  cases a with
  | touch | close => exact h.2
  | _ => exact h

theorem shape_unwind (held held' : List (Lock × Mode)) : Shape held (unwind held') := by
  induction held' generalizing held with
  | nil => trivial
  | cons x held' ih => exact ih held.tail

variable {s t : Shared Lock State} {c : Call Lock Act Operation} {o : Success}
  {e : Locks.Event Lock Act} {n : Option (Call Lock Act Operation)}

theorem Step.shape (h : Locks.Step machine s c o e t n) (hc : Shape c.held c.todo) :
    ∀ d, n = some d → Shape d.held d.todo := by
  intro d hn
  cases h with (first | obtain ⟨rfl, -⟩ := goOn_eq_some hn | cases hn)
  | read _ _ htodo | write _ _ htodo =>
    rw [htodo] at hc
    exact shape_acquire hc
  | announce => exact hc
  | releaseRead _ _ htodo | releaseWrite _ _ htodo =>
    rw [htodo] at hc
    exact hc
  | did _ _ _ htodo =>
    rw [htodo] at hc
    exact shape_act hc
  | failed => exact shape_unwind _ _

/-! ### A store that is closed -/

/-- The call has read the lifecycle lock and will not use a namespace any more. -/
def Harmless (c : Call Lock Act Operation) : Prop :=
  (.lifecycle, .read) ∈ c.held → c.todo.head? = some (.act .begin) ∨ (.act .touch : Step) ∉ c.todo

structure Guarding (s : Shared Lock State) (calls : Multiset (Call Lock Act Operation)) : Prop where
  shape : ∀ c ∈ calls, Shape c.held c.todo
  shut : s.state.closed = true → ∀ c ∈ calls, Harmless c
  closing : ∀ c ∈ calls, (.lifecycle, .write) ∈ c.held →
    c.todo.head? = some (.act .close) ∨ s.state.closed = true

/-- While the lifecycle lock is written nobody reads it. -/
theorem no_reader (hs : Coherent order s calls) (hc : c ∈ calls) (hw : (l, .write) ∈ c.held)
    (hd : d ∈ calls) : (l, .read) ∉ d.held := by
  have hwr : 0 < c.writes l := List.count_pos_iff.mpr hw
  have hle := (le_weight (Call.writes l) hc).trans_eq (hs.writer l).symm
  have hwriter : (s.locks l).writer = true := by
    cases h : (s.locks l).writer with
    | true => rfl
    | false =>
      rw [h, Bool.toNat_false] at hle
      omega
  have hreaders := (hs.exclusive l hwriter).1
  have hre := (le_weight (Call.reads l) hd).trans_eq (hs.readers l).symm
  rw [hreaders] at hre
  exact List.count_eq_zero.mp (Nat.le_zero.mp hre)

/-- What a task other than the check of `begin` and the closing leaves of the state. -/
theorem act_closed {ok st st'} (h : machine.act st a o = some (ok, st')) :
    (st.closed = true → st'.closed = true) ∧ (a ≠ .close → st'.closed = st.closed) ∧
      (a = .close → st'.closed = true) ∧ (a = .begin → st.closed = true → ok = false) := by
  cases a with cases h
  | begin => exact ⟨id, fun _ => rfl, fun h => (by cases h), fun _ hclosed => by simp [hclosed]⟩
  | close => exact ⟨fun _ => rfl, fun h => absurd rfl h, fun _ => rfl, fun h => by cases h⟩
  | work | touch | cancel => exact ⟨id, fun _ => rfl, fun h => (by cases h), fun h => by cases h⟩

theorem Harmless.of_tail {task} (hc : Harmless c) (htodo : c.todo = task :: d.todo)
    (hb : task ≠ .act .begin)
    (hheld : (.lifecycle, .read) ∈ d.held → (.lifecycle, .read) ∈ c.held) : Harmless d := by
  intro hre
  rcases hc (hheld hre) with hhe | hno
  · rw [htodo, List.head?_cons] at hhe
    exact absurd (Option.some.inj hhe) hb
  · rw [htodo] at hno
    exact .inr fun hmem => hno (List.mem_cons_of_mem task hmem)

variable {rest : Multiset (Call Lock Act Operation)}

section

variable (h : Locks.Step machine s c o e t n)

include h

/-- In a closed store a section leaves its call harmless. -/
theorem Step.harmless (hc : Harmless c) (hsh : Shape c.held c.todo)
    (hclosed : s.state.closed = true) : ∀ d, n = some d → Harmless d := by
  intro d hn
  cases h with (first | obtain ⟨rfl, -⟩ := goOn_eq_some hn | cases hn)
  | read l _ htodo =>
    rw [htodo] at hsh
    cases l with
    | lifecycle =>
      rcases hsh.1 with hheld | hb
      · exact hc.of_tail htodo (by simp) fun _ => hheld
      · exact fun _ => .inl hb
    | _ => exact hc.of_tail htodo (by simp) fun hre => by simpa using hre
  | announce => exact hc
  | write _ _ htodo => exact hc.of_tail htodo (by simp) fun hre => by simpa using hre
  | releaseRead _ _ htodo | releaseWrite _ _ htodo =>
    exact hc.of_tail htodo (by simp) fun hre => List.mem_of_mem_tail hre
  | did _ _ _ htodo hact =>
    refine hc.of_tail htodo (fun hb => ?_) id
    cases hb
    cases (act_closed hact).2.2.2 rfl hclosed
  | failed => exact fun _ => .inr (by simp [unwind])

/-- A store is closed by a call that writes the lifecycle lock. -/
theorem Step.closes (hsh : Shape c.held c.todo) :
    (s.state.closed = true → t.state.closed = true) ∧
      (s.state.closed = false → t.state.closed = true →
        (.lifecycle, .write) ∈ c.held ∧ ∀ d, n = some d → d.held = c.held) := by
  cases h with
  | did a state _ htodo hact | failed a state _ htodo hact =>
    obtain ⟨hk, hsame, -, -⟩ := act_closed hact
    refine ⟨hk, fun hopen hclosed => ⟨?_, fun d hn => by rw [(goOn_eq_some hn).1]⟩⟩
    by_cases ha : a = .close
    · subst ha
      rw [htodo] at hsh
      exact hsh.1
    · simp [show state.closed = _ from hsame ha, hopen] at hclosed
  | _ => exact ⟨id, fun hopen hclosed => absurd (hopen.symm.trans hclosed) (by simp)⟩

theorem Step.closing (hsh : Shape c.held c.todo) (hc : (.lifecycle, .write) ∈ c.held →
      c.todo.head? = some (.act .close) ∨ s.state.closed = true) :
    ∀ d, n = some d → (.lifecycle, .write) ∈ d.held →
      d.todo.head? = some (.act .close) ∨ t.state.closed = true := by
  intro d hn hwrite
  have hot : (.lifecycle, .write) ∈ c.held → c.todo.head? ≠ some (.act .close) →
      t.state.closed = true := fun hheld hhe =>
    (Step.closes h hsh).1 ((hc hheld).resolve_left hhe)
  cases h with (first | obtain ⟨rfl, -⟩ := goOn_eq_some hn | cases hn)
  | read _ _ htodo => exact .inr (hot (by simpa using hwrite) (by simp [htodo]))
  | announce _ _ htodo => exact .inr (hot hwrite (by simp [htodo]))
  | write l _ htodo =>
    rw [htodo] at hsh
    cases l with
    | lifecycle => exact .inl hsh.1
    | _ => exact .inr (hot (by simpa using hwrite) (by simp [htodo]))
  | releaseRead _ _ htodo | releaseWrite _ _ htodo =>
    exact .inr (hot (List.mem_of_mem_tail hwrite) (by simp [htodo]))
  | did a _ _ htodo hact | failed a _ _ htodo hact =>
    by_cases ha : a = .close
    · exact .inr ((act_closed hact).2.2.1 ha)
    · exact .inr (hot hwrite (by simp [htodo, ha]))

theorem Step.guarding (hs : Coherent order s (c ::ₘ rest)) (hg : Guarding s (c ::ₘ rest)) :
    Guarding t (next n + rest) := by
  have hc := Multiset.mem_cons_self c rest
  have hsh := hg.shape c hc
  obtain ⟨hk, hcl⟩ := Step.closes h hsh
  refine ⟨fun d hd => ?_, fun hclosed d hd => ?_, fun d hd hwrite => ?_⟩
  · rcases mem_next_add.mp hd with hn | hd
    · exact Step.shape h hsh d hn
    · exact hg.shape d (Multiset.mem_cons_of_mem hd)
  · cases hopen : s.state.closed with
    | true =>
      rcases mem_next_add.mp hd with hn | hd
      · exact Step.harmless h (hg.shut hopen c hc) hsh hopen d hn
      · exact hg.shut hopen d (Multiset.mem_cons_of_mem hd)
    | false =>
      -- the call that closes the store writes the lock, so there are no readers
      obtain ⟨hwrite, hheld⟩ := hcl hopen hclosed
      intro hre
      rcases mem_next_add.mp hd with hn | hd
      · rw [hheld d hn] at hre
        exact absurd hre (no_reader hs hc hwrite hc)
      · exact absurd hre (no_reader hs hc hwrite (Multiset.mem_cons_of_mem hd))
  · rcases mem_next_add.mp hd with hn | hd
    · exact Step.closing h hsh (hg.closing c hc) d hn hwrite
    · exact (hg.closing d (Multiset.mem_cons_of_mem hd) hwrite).imp_right hk

end

/-! ### Runs -/

abbrev Label := Action (Call Lock Act Operation) Success × Option (Locks.Event Lock Act)

abbrev Store := Pool (Shared Lock State) (Call Lock Act Operation)

def system : System Store Label := machine.program.system (· = opened)

structure Sound (s : Shared Lock State) (calls : Multiset (Call Lock Act Operation)) : Prop where
  coherent : Coherent order s calls
  guarding : Guarding s calls

theorem sound_opened : Sound opened 0 := by
  refine ⟨coherent_free fun _ => rfl, fun c hc => ?_, fun hclosed => ?_, fun c hc => ?_⟩
  · simp at hc
  · cases hclosed
  · simp at hc

theorem Sound.enter (hs : Sound s calls) (hc : machine.program.entry c = true) :
    Sound s (c ::ₘ calls) := by
  obtain ⟨hheld, -, -, htodo⟩ := entry_eq_true hc
  refine ⟨hs.coherent.enter nested_script hc, fun d hd => ?_, fun hclosed d hd => ?_,
    fun d hd hwrite => ?_⟩
  all_goals rcases Multiset.mem_cons.mp hd with rfl | hd
  · rw [hheld, htodo]
    exact shape_script d.op
  · exact hs.guarding.shape d hd
  · intro hre
    simp [hheld] at hre
  · exact hs.guarding.shut hclosed d hd
  · simp [hheld] at hwrite
  · exact hs.guarding.closing d hd hwrite

theorem Sound.advance (hs : Sound s (c ::ₘ rest))
    (h : machine.advance s c o = some (e, t, n)) : Sound t (next n + rest) :=
  ⟨(advance_step h).coherent hs.coherent, Step.guarding (advance_step h) hs.coherent hs.guarding⟩

/-- A closed store stays closed, and no namespace is used in it. -/
theorem closed_advance (hs : Sound s (c ::ₘ rest))
    (h : machine.advance s c o = some (e, t, n)) (hclosed : s.state.closed = true) :
    t.state.closed = true ∧ ∀ ok, e ≠ .did .touch ok := by
  have hc := Multiset.mem_cons_self c rest
  have hsh := hs.guarding.shape c hc
  have hstep := advance_step h
  refine ⟨(Step.closes hstep hsh).1 hclosed, fun ok hto => ?_⟩
  subst hto
  obtain ⟨todo, htodo⟩ : ∃ todo, c.todo = .act .touch :: todo := by
    cases hstep with
    | did _ _ todo htodo | failed _ _ todo htodo => exact ⟨todo, htodo⟩
  rw [htodo] at hsh
  rcases hs.guarding.shut hclosed c hc hsh.1 with hhe | hno
  · simp [htodo] at hhe
  · exact hno (by simp [htodo])

/-- When `Close` gives the lock back the store is closed. -/
theorem closed_of_released (hs : Sound s (c ::ₘ rest))
    (h : machine.advance s c o = some (.released .lifecycle .write, t, n)) :
    t.state.closed = true := by
  have hc := Multiset.mem_cons_self c rest
  have hstep := advance_step h
  have hk := (Step.closes hstep (hs.guarding.shape c hc)).1
  cases hstep with
  | releaseWrite _ _ htodo =>
    have hb := (hs.coherent.balanced c hc).1
    rw [htodo] at hb
    obtain ⟨tail, hheld, -⟩ := hb
    refine hk ((hs.guarding.closing c hc (by simp [hheld])).resolve_left ?_)
    simp [htodo]

variable {tr : List (Label × Store)} {u : Store}

theorem run_sound (hu : Sound u.shared u.calls) (hr : system.Run u tr) :
    ∀ v ∈ states u tr, Sound v.shared v.calls :=
  Program.forall_states_from (fun _ _ _ hc hs => hs.enter hc)
    (fun _ _ _ _ _ _ _ hs h => hs.advance h) hu hr

theorem no_touch_from_closed (hu : Sound u.shared u.calls)
    (hclosed : u.shared.state.closed = true) (hr : system.Run u tr) :
    ∀ l ∈ labels tr, ∀ ok, l.2 ≠ some (.did .touch ok) := by
  intro l hl ok hto
  obtain ⟨a, e⟩ := l
  cases hto
  exact Program.forall_events_from (I := fun s calls => Sound s calls ∧ s.state.closed = true)
    (E := fun e => ∀ ok, e ≠ .did .touch ok)
    (fun _ _ _ hc hs => ⟨hs.1.enter hc, hs.2⟩)
    (fun _ _ _ _ _ _ _ hs h => ⟨⟨hs.1.advance h, (closed_advance hs.1 h hs.2).1⟩,
      (closed_advance hs.1 h hs.2).2⟩) ⟨hu, hclosed⟩ hr hl ok rfl

/-- In every run of a store, no namespace is used after `Close` has returned, and without new
calls a run takes at most as many sections as the calls in progress have work. If `Close` starts
to wait only when no operation that holds the lifecycle lock reads it again, then in every state
some call in progress can go on, without breaking this. -/
theorem store_never_stuck {tr : List (Label × Store)} (hr : system.Run ⟨opened, 0⟩ tr) :
    (∀ b l d, labels tr = b ++ l :: d → l.2 = some (.released .lifecycle .write) →
      ∀ x ∈ d, ∀ ok, x.2 ≠ some (.did .touch ok)) ∧
    (∀ u ∈ states ⟨opened, 0⟩ tr, ∀ tr', system.Run u tr' →
      (∀ l ∈ labels tr', ∀ c, l.1 ≠ .enter c) → tr'.length ≤ weight Call.work u.calls) ∧
    (Guarded (QuietStep order) [] ⟨opened, 0⟩ tr → ∀ u ∈ states ⟨opened, 0⟩ tr, u.calls ≠ 0 →
      ∃ c ∈ u.calls, Quiet order u.calls c ∧ ∃ o, (machine.advance u.shared c o).isSome) := by
  have hsound := run_sound sound_opened hr
  refine ⟨fun b l d hlabels hl => ?_, fun u hu tr' hr' hno => ?_, fun hg u hu hne => ?_⟩
  · obtain ⟨p, v, q, rfl, -, rfl⟩ := exists_split_of_labels hlabels
    obtain ⟨hp, hstep, hq⟩ := (system.run_append _ p _).mp hr
    have hlast := run_sound sound_opened hp _ (last_mem_states _ p)
    obtain ⟨c, -, rfl, -⟩ | ⟨c, o, e, t, n, rest, rfl, hcalls, hadv, rfl⟩ :=
      Program.step_cases hstep
    · cases hl
    cases hl
    rw [hcalls] at hlast
    have hclosed : t.state.closed = true := closed_of_released hlast hadv
    exact no_touch_from_closed (hlast.advance hadv) hclosed hq
  · have := run_length_le (hsound u hu).coherent hr' hno
    omega
  · have hfree : ∀ s, s = opened → s.Free := fun s hs => hs ▸ fun _ => rfl
    have hcalm := run_calm hfree ⟨rfl, rfl⟩ hr hg u hu
    refine exists_enabled (fun st a => ⟨true, ?_⟩) (fun l k hl => ?_) (hsound u hu).coherent
      hcalm hne
    · cases a <;> rfl
    · cases l <;> cases hl <;> exact ⟨by decide, by simp [order]⟩

def sampleAccess : Access := ⟨"p", "scope", "files", false, 1⟩

def sampleStart (op : Operation) : Call Lock Act Operation := ⟨op, [], op.script, false⟩

/-- The first calls that a call becomes when no other is in progress. -/
def sampleCalls : ℕ → Shared Lock State → Call Lock Act Operation → List (Call Lock Act Operation)
  | 0, _, _ => []
  | k + 1, s, c =>
    c :: match machine.advance s c true with
      | some (_, t, some d) => sampleCalls k t d
      | _ => []

def sampleEnter (op : Operation) : List (Action (Call Lock Act Operation) Success) :=
  [.enter (sampleStart op)]

def sampleSections (op : Operation) (first count : ℕ) :
    List (Action (Call Lock Act Operation) Success) :=
  ((sampleCalls (first + count) opened (sampleStart op)).drop first).map (.advance · true)

def sampleTrace (actions : List (Action (Call Lock Act Operation) Success)) :
    List (Label × Store) :=
  trace machine.program.perform ⟨opened, 0⟩ actions

def sampleStream : Operation := .readFileStream sampleAccess sampleAccess 1

/-- `Close` waits for a stream that is in its last access to the namespace. -/
def sampleClose : List (Label × Store) :=
  sampleTrace (sampleEnter sampleStream ++ sampleSections sampleStream 0 21 ++ sampleEnter .close ++
    sampleSections .close 0 2 ++ sampleSections sampleStream 21 14 ++ sampleSections .close 2 4)

theorem store_never_stuck_close :
    sampleClose.length = 43 ∧ Guarded (QuietStep order) [] ⟨opened, 0⟩ sampleClose ∧
    ∀ u ∈ states ⟨opened, 0⟩ sampleClose, u.calls ≠ 0 →
      ∃ c ∈ u.calls, Quiet order u.calls c ∧ ∃ o, (machine.advance u.shared c o).isSome := by
  have hquiet : Guarded (QuietStep order) [] ⟨opened, 0⟩ sampleClose := by decide
  exact ⟨by decide, hquiet,
    (store_never_stuck (System.run_trace _ machine.program.perform _ _)).2.2 hquiet⟩

/-- `Close` starts to wait while a stream that reads the lifecycle lock is about to read it
again: neither goes on. -/
theorem close_deadlocks_stream :
    let tr := sampleTrace (sampleEnter sampleStream ++ sampleSections sampleStream 0 2 ++
      sampleEnter .close ++ sampleSections .close 0 2 ++ sampleSections sampleStream 2 2)
    system.Run ⟨opened, 0⟩ tr ∧ tr.length = 8 ∧ (last ⟨opened, 0⟩ tr).calls.card = 2 ∧
      ∀ c ∈ (last ⟨opened, 0⟩ tr).calls, ∀ o,
        (machine.advance (last ⟨opened, 0⟩ tr).shared c o).isNone :=
  ⟨System.run_trace _ machine.program.perform _ _, by decide, by decide, by decide⟩

end RedevPlugin.PluginData.Lifecycle
