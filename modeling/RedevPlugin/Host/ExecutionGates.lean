import RedevPlugin.Foundation.Locks
import RedevPlugin.Foundation.Text

/-! The gates of the execution registry. `start` holds the shared gate of its plugin from before
it validates the binding until the lease is registered; `cancelPlugin` takes the gate exclusively.
The run check of a validation revokes the runtime of a plugin whose record is not runnable, and
so calls `cancelPlugin`: under the gate of a start it waits for itself. If no start finds such a
record then no call waits for a gate that it holds, and nothing is ever stuck. -/

namespace RedevPlugin.Host.ExecutionGates

open Locks Threads Transition Text

/-! ### Records and tasks -/

structure Record where
  /-- `manifest.Validate` accepts the manifest. -/
  valid : Bool
  /-- `RunnablePluginRecord`. -/
  runnable : Bool
  ownerEnvHash : String
  deriving DecidableEq

inductive Act where
  /-- What takes no gate and ends the call when it fails. -/
  | work
  /-- What takes no gate and is followed by the rest whatever it returns. -/
  | callback
  /-- `getPluginRecord` and `checkRunnable`. -/
  | checkRunnable (pluginInstanceID : String)
  /-- `getPluginRecord` and `canRun`. -/
  | canRun (pluginInstanceID : String)
  /-- A change of the registry. -/
  | setRecord (pluginInstanceID : String) (record : Option Record)
  deriving DecidableEq

structure State where
  records : String → Option Record

/-- The result of `checkRunnable`: whether there is an error, and whether to revoke. -/
def checkRunnable (record : Record) : Bool × Bool :=
  if !record.valid then (false, false)
  else if !record.runnable then (false, true)
  else (true, false)

/-- The record for which `canRun` revokes. -/
def State.denied (s : State) (pluginInstanceID : String) : Option Record :=
  (s.records pluginInstanceID).filter fun record => (checkRunnable record).2

abbrev Step := Locks.Task String Act

/-- What the environment decides: whether work succeeds. -/
abbrev Success := Bool

def act (s : State) : Act → Success → Option (Bool × State)
  | .work, ok => some (ok, s)
  | .callback, _ => some (true, s)
  | .checkRunnable p, _ | .canRun p, _ =>
    some ((s.records p).any fun record => (checkRunnable record).1, s)
  | .setRecord p record, _ => some (true, ⟨Function.update s.records p record⟩)

/-! ### Operations -/

variable (pluginInstanceID : String)

/-- The key of the gate that `lockPlugin` takes. -/
def gate : String := trim pluginInstanceID

/-- The context in which a binding is validated. -/
inductive Route where
  | ordinary
  | interval
  | dataUpgrade
  deriving DecidableEq

def validateExecutionBinding : Route → List Step
  | .dataUpgrade => [.act .work]
  | .interval => [.act .work, .act (.checkRunnable pluginInstanceID), .act .work]
  | .ordinary => [.act (.canRun pluginInstanceID), .act .work]

/-- The admission of data upgrades, the validation, and the registration within the quota. -/
def start (route : Route) : List Step :=
  [.acquire (gate pluginInstanceID) .read, .act .work] ++
    validateExecutionBinding pluginInstanceID route ++
    [.act .work, .release (gate pluginInstanceID) .read]

def cancelPlugin : List Step :=
  [.acquire (gate pluginInstanceID) .write, .act .callback, .release (gate pluginInstanceID) .write]

def beginDataUpgrade : List Step :=
  [.acquire (gate pluginInstanceID) .write, .act .work, .release (gate pluginInstanceID) .write]

def revokePluginRuntimeCapabilities (ownerEnvHash : String) : List Step :=
  .act .work ::
    if blank ownerEnvHash then [.act .callback]
    else .act .callback :: cancelPlugin pluginInstanceID ++ [.act .callback]

def revokeDeniedPluginRuntime (record : Record) : List Step :=
  .act .callback :: revokePluginRuntimeCapabilities pluginInstanceID record.ownerEnvHash

inductive Operation where
  | start (pluginInstanceID : String) (route : Route)
  /-- `validate` of a lease. -/
  | validate (pluginInstanceID : String) (route : Route)
  /-- The run check of a method. -/
  | canRun (pluginInstanceID : String)
  | revokePluginRuntimeCapabilities (pluginInstanceID ownerEnvHash : String)
  | beginDataUpgrade (pluginInstanceID : String)
  | setRecord (pluginInstanceID : String) (record : Option Record)
  deriving DecidableEq

def Operation.script : Operation → List Step
  | .start p route => ExecutionGates.start p route
  | .validate p route => validateExecutionBinding p route
  | .canRun p => [.act (.canRun p)]
  | .revokePluginRuntimeCapabilities p owner =>
    ExecutionGates.revokePluginRuntimeCapabilities p owner
  | .beginDataUpgrade p => ExecutionGates.beginDataUpgrade p
  | .setRecord p record => [.act (.setRecord p record)]

abbrev Call := Locks.Call String Act Operation

abbrev Event := Locks.Event String Act

def machine : Machine String State Act Operation Success := ⟨fun _ => none, act, Operation.script⟩

/-- A section of a call. Where `canRun` finds a record that is not runnable, the call goes on
with the revocation and then returns the error. -/
def advance (s : Shared String State) (c : Call) (o : Success) :
    Option (Event × Shared String State × Option Call) :=
  match c.todo with
  | .act (.canRun p) :: _ =>
    match s.state.denied p with
    | some record =>
      some (.did (.canRun p) false, s,
        goOn c.op c.held (revokeDeniedPluginRuntime p record ++ unwind c.held))
    | none => machine.advance s c o
  | _ => machine.advance s c o

def program : Program (Shared String State) Call Success Event := ⟨machine.program.entry, advance⟩

abbrev Label := Action Call Success × Option Event

abbrev Registry := Pool (Shared String State) Call

def system : System Registry Label := program.system Shared.Free

/-! ### The scripts are balanced -/

/-- A gate is taken only by a call that holds none. -/
def order : Order String := ⟨fun _ => 0, fun _ => false⟩

variable {rest : List Step} {past : List Label}

theorem nested_revoke (p owner : String) :
    Nested order [] (revokePluginRuntimeCapabilities p owner) := by
  unfold revokePluginRuntimeCapabilities
  split_ifs
  · exact rfl
  · exact ⟨by simp, [], rfl, rfl⟩

variable (op : Operation)

theorem nested_script : Nested order [] op.script := by
  cases op with
  | start _ route => cases route <;> exact ⟨by simp, [], rfl, rfl⟩
  | validate _ route => cases route <;> rfl
  | canRun | setRecord => rfl
  | revokePluginRuntimeCapabilities p => exact nested_revoke p _
  | beginDataUpgrade => exact ⟨by simp, [], rfl, rfl⟩

variable {s t : Shared String State} {c : Call} {o : Success} {e : Event} {n : Option Call}
  {u : Registry} {tr : List (Label × Registry)}

/-- The revocation of a denied plugin, and the sections of the machine. -/
theorem advance_cases (h : advance s c o = some (e, t, n)) :
    (∃ p rest record, c.todo = .act (.canRun p) :: rest ∧ s.state.denied p = some record ∧ t = s ∧
      n = goOn c.op c.held (revokeDeniedPluginRuntime p record ++ unwind c.held)) ∨
    Locks.Step machine s c o e t n := by
  revert h
  fun_cases advance s c o <;> try rintro ⟨⟩
  · exact .inl ⟨_, _, _, ‹_›, ‹_›, rfl, rfl⟩
  · exact fun h => .inr (advance_step h)
  · exact fun h => .inr (advance_step h)

/-! ### Run checks under a gate -/

/-- The plugin whose run check is next, when the call holds a gate. -/
def checkedUnderGate : Action Call Success → Option String
  | .advance ⟨_, _ :: _, .act (.canRun p) :: _, _⟩ _ => some p
  | _ => none

/-- A run check under a gate does not find a record to revoke. -/
def Runnable (_ : List Label) (u : Registry) (l : Label) : Prop :=
  ∀ p ∈ checkedUnderGate l.1, u.shared.state.denied p = none

instance (past : List Label) (u : Registry) (l : Label) : Decidable (Runnable past u l) :=
  inferInstanceAs (Decidable (∀ p ∈ checkedUnderGate l.1, u.shared.state.denied p = none))

theorem Runnable.held_eq_nil {e p record} (h : Runnable past u (.advance c o, e))
    (htodo : c.todo = .act (.canRun p) :: rest) (hde : u.shared.state.denied p = some record) :
    c.held = [] := by
  obtain ⟨op, held, todo, announced⟩ := c
  cases held with
  | nil => rfl
  | cons x held =>
    cases htodo
    cases hde.symm.trans (h p rfl)

theorem coherent_advance {rest} (hs : Coherent order s (c ::ₘ rest))
    (hg : Runnable past ⟨s, c ::ₘ rest⟩ (.advance c o, some e))
    (h : advance s c o = some (e, t, n)) :
    Coherent order t (next n + rest) := by
  obtain ⟨p, todo, record, htodo, hde, rfl, rfl⟩ | hstep := advance_cases h
  · refine hs.act htodo ?_
    rw [hg.held_eq_nil htodo hde]
    exact (List.append_nil (revokeDeniedPluginRuntime p record)).symm ▸
      nested_revoke p record.ownerEnvHash
  · exact hstep.coherent hs

theorem run_coherent (hu : Coherent order u.shared u.calls) (hr : system.Run u tr)
    (hg : Guarded Runnable past u tr) : ∀ v ∈ states u tr, Coherent order v.shared v.calls :=
  (Program.forall_guarded (E := fun _ _ => True)
    (fun _ _ _ _ hc _ hs => ⟨hs.enter nested_script hc, trivial⟩)
    (fun _ _ _ _ _ _ _ _ hs hg h => ⟨coherent_advance hs hg h, trivial⟩) hu hr hg).1

/-! ### Every section brings its call nearer to its end -/

def isCheck : Step → Bool
  | .act (.canRun _) => true
  | _ => false

/-- A run check is worth the work of a revocation. -/
def cost (c : Call) : ℕ := c.work + 16 * c.todo.countP isCheck

theorem length_revokeDenied (p : String) (record : Record) :
    (revokeDeniedPluginRuntime p record).length ≤ 7 ∧
      (revokeDeniedPluginRuntime p record).countP isCheck = 0 := by
  unfold revokeDeniedPluginRuntime revokePluginRuntimeCapabilities
  split_ifs <;> simp [cancelPlugin, isCheck]

variable (held : List (String × Mode))

theorem checks_goOn (todo : List Step) :
    ((goOn op held todo).elim 0 fun d => d.todo.countP isCheck) = todo.countP isCheck := by
  cases todo <;> rfl

theorem checks_step (h : Locks.Step machine s c o e t n) :
    (n.elim 0 fun d => d.todo.countP isCheck) ≤ c.todo.countP isCheck := by
  cases h with
  | announce => exact le_rfl
  | failed =>
    rw [checks_goOn, List.countP_eq_zero.mpr fun x hx => by
      obtain ⟨y, -, rfl⟩ := List.mem_map.mp hx
      exact Bool.false_ne_true]
    exact Nat.zero_le _
  | read _ todo htodo | write _ todo htodo | releaseRead _ todo htodo
  | releaseWrite _ todo htodo | did _ _ todo htodo =>
    rw [checks_goOn, htodo]
    exact (List.sublist_cons_self _ todo).countP_le

theorem cost_advance (hc : Nested order c.held c.todo) {rest}
    (hg : Runnable past ⟨s, c ::ₘ rest⟩ (.advance c o, some e))
    (h : advance s c o = some (e, t, n)) :
    n.elim 0 cost < cost c := by
  obtain ⟨p, todo, record, htodo, hde, -, rfl⟩ | hstep := advance_cases h
  · obtain ⟨hle, hch⟩ := length_revokeDenied p record
    rw [hg.held_eq_nil htodo hde, show (unwind [] : List Step) = [] from rfl, List.append_nil]
    have hcheck : c.todo.countP isCheck = todo.countP isCheck + 1 := by
      rw [htodo]
      exact List.countP_cons_of_pos rfl
    cases hre : revokeDeniedPluginRuntime p record with
    | nil =>
      simp only [goOn, Option.elim_none, cost, hcheck]
      omega
    | cons x rest =>
      rw [hre] at hle hch
      simp only [goOn, Option.elim_some, cost, Call.work, hch, hcheck, Bool.false_eq_true, if_false]
      omega
  · have hwo := hstep.work hc
    have hch := checks_step hstep
    cases n with
    | none => exact Nat.lt_of_lt_of_le hwo (Nat.le_add_right _ _)
    | some d =>
      simp only [Option.elim_some] at hwo hch
      simp only [Option.elim_some, cost]
      omega

/-! ### Runs -/

theorem isSome_advance (h : (machine.advance s c o).isSome) : (advance s c o).isSome := by
  unfold advance
  split
  · split
    · rfl
    · exact h
  · exact h

theorem exists_advance (hs : Coherent order s u.calls) (hne : u.calls ≠ 0) :
    ∃ c ∈ u.calls, ∃ o, (advance s c o).isSome := by
  have hact : ∀ st a, ∃ o, (machine.act st a o).isSome := fun st a => ⟨true, by cases a <;> rfl⟩
  have hca : Calm order s u.calls := fun _ hag => by cases hag
  obtain ⟨c, hc, -, o, ho⟩ := exists_enabled hact (fun _ _ h => by cases h) hs hca hne
  exact ⟨c, hc, o, isSome_advance ho⟩

theorem gate_notMem_held (hs : Coherent order s u.calls) (hc : c ∈ u.calls) {l m m'}
    (haw : c.awaits = some (l, m)) : (l, m') ∉ c.held := by
  intro hheld
  obtain ⟨rest, htodo⟩ := awaits_eq_some haw
  have hb := (hs.balanced c hc).1
  rw [htodo] at hb
  rcases hb.1 (l, m') hheld with hlt | ⟨-, -, hag⟩
  · exact lt_irrefl 0 hlt
  · cases hag

/-- In every run in which no start finds a record to revoke, no call waits for a gate that it
holds, some call in progress can always go on, and without new calls a run takes at most as many
sections as the calls in progress have cost: so every start and every cancelPlugin finishes. -/
theorem gates_never_stuck {u : Registry} {tr : List (Label × Registry)} (hu : system.init u)
    (hr : system.Run u tr) (hg : Guarded Runnable [] u tr) :
    ∀ v ∈ states u tr, (∀ c ∈ v.calls, ∀ l m m', c.awaits = some (l, m) → (l, m') ∉ c.held) ∧
      (v.calls ≠ 0 → ∃ c ∈ v.calls, ∃ o, (advance v.shared c o).isSome) ∧
      ∀ tr', system.Run v tr' → Guarded Runnable [] v tr' →
        (∀ l ∈ labels tr', ∀ c, l.1 ≠ .enter c) → tr'.length ≤ weight cost v.calls := by
  intro v hv
  have hstart : Coherent order u.shared u.calls := by
    rw [hu.2]
    exact coherent_free hu.1
  have hs := run_coherent hstart hr hg v hv
  refine ⟨fun c hc l m m' => gate_notMem_held hs hc, exists_advance hs, fun tr' hr' hg' hno => ?_⟩
  have hle := Program.length_add_weight_le (fun _ _ rest c _ _ _ _ hs hg h =>
    ⟨coherent_advance hs hg h,
      cost_advance (hs.balanced c (Multiset.mem_cons_self c rest)).1 hg h⟩) hs hr' hg' hno
  omega

def sampleHost : Registry := ⟨⟨fun _ => ⟨0, false, false⟩, ⟨fun _ => some ⟨true, true, "env"⟩⟩⟩, 0⟩

def sampleEnter : Action Call Success := .enter ⟨op, [], op.script, false⟩

/-- A section of a start of plugin `p` that has the gate and this left. -/
def sampleStart (todo : List Step) : Action Call Success :=
  .advance ⟨.start "p" .ordinary, [("p", .read)], todo, false⟩ true

def sampleTrace (actions : List (Action Call Success)) : List (Label × Registry) :=
  trace program.perform sampleHost actions

/-- A start runs up to its run check. -/
def sampleCheck : List (Action Call Success) :=
  [sampleEnter (.start "p" .ordinary),
    .advance ⟨.start "p" .ordinary, [], ExecutionGates.start "p" .ordinary, false⟩ true,
    sampleStart ((ExecutionGates.start "p" .ordinary).drop 1)]

/-- A section of a revocation of plugin `p`. -/
def sampleRevoke (done : ℕ) (announced : Bool) : Action Call Success :=
  .advance ⟨.revokePluginRuntimeCapabilities "p" "env", held,
    (revokePluginRuntimeCapabilities "p" "env").drop done, announced⟩ true

/-- `cancelPlugin` waits for the gate of a start, which goes on to its end. -/
def sampleWait : List (Action Call Success) :=
  sampleCheck ++ sampleEnter (.revokePluginRuntimeCapabilities "p" "env") ::
    sampleRevoke [] 0 false :: sampleRevoke [] 1 false :: sampleRevoke [] 2 false ::
    [2, 3, 4, 5].map (fun n => sampleStart ((ExecutionGates.start "p" .ordinary).drop n)) ++
    sampleRevoke [] 2 true :: [3, 4].map (sampleRevoke [("p", .write)] · false) ++
    [sampleRevoke [] 5 false]

theorem gates_never_stuck_start :
    (∃ c ∈ (last sampleHost (sampleTrace (sampleWait.take 7))).calls,
      c.awaits = some ("p", .write) ∧
        advance (last sampleHost (sampleTrace (sampleWait.take 7))).shared c true = none) ∧
    (sampleTrace sampleWait).length = 15 ∧
    (last sampleHost (sampleTrace sampleWait)).calls = 0 ∧
    Guarded Runnable [] sampleHost (sampleTrace sampleWait) ∧
    ∀ v ∈ states sampleHost (sampleTrace sampleWait), v.calls ≠ 0 →
      ∃ c ∈ v.calls, ∃ o, (advance v.shared c o).isSome := by
  have hg : Guarded Runnable [] sampleHost (sampleTrace sampleWait) := by decide
  refine ⟨?_, by decide, by decide, hg, fun v hv =>
    (gates_never_stuck ⟨fun _ => rfl, rfl⟩ (System.run_trace _ program.perform _ _) hg v hv).2.1⟩
  exact ⟨⟨.revokePluginRuntimeCapabilities "p" "env", [],
    (revokePluginRuntimeCapabilities "p" "env").drop 2, true⟩, by decide, rfl, rfl⟩

/-- The record becomes one that is not runnable while a start holds the gate and is about to
check it: the start waits for the gate that it holds, and nothing can go on. -/
theorem denied_start_waits_for_itself :
    let denied := sampleEnter (.setRecord "p" (some ⟨true, false, "env"⟩))
    let revoke := revokeDeniedPluginRuntime "p" ⟨true, false, "env"⟩ ++ unwind [("p", .read)]
    let tr := sampleTrace (sampleCheck ++ [denied,
      .advance ⟨.setRecord "p" (some ⟨true, false, "env"⟩), [],
        [.act (.setRecord "p" (some ⟨true, false, "env"⟩))], false⟩ true,
      sampleStart ((ExecutionGates.start "p" .ordinary).drop 2), sampleStart revoke,
      sampleStart (revoke.drop 1), sampleStart (revoke.drop 2), sampleStart (revoke.drop 3)])
    system.Run sampleHost tr ∧ tr.length = 10 ∧ (last sampleHost tr).calls.card = 1 ∧
      ∀ c ∈ (last sampleHost tr).calls, c.awaits = some ("p", .write) ∧ ("p", .read) ∈ c.held ∧
        ∀ o, (advance (last sampleHost tr).shared c o).isNone :=
  ⟨System.run_trace _ program.perform _ _, by decide, by decide, by decide⟩

end RedevPlugin.Host.ExecutionGates
