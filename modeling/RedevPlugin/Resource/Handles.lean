import RedevPlugin.Foundation.Table
import RedevPlugin.Foundation.Threads
import RedevPlugin.Session.Scopes

/-! The table of resource handles. An entry is an object of its own: a call that has
found it goes on with it after it has left the table. Calls are modelled section by
section. A section runs under the lock of the table, of a lifetime or of the state of
an entry, or is the call of a method of a resource; the locks that operations hold
while they use a resource are part of the entry. -/

namespace RedevPlugin.Resource

open Session Threads

/-! ### Owners -/

inductive Lifetime where
  | invocation
  | session
  /-- Any other text. -/
  | other (name : String)
  deriving DecidableEq

structure Owner where
  pluginInstanceId : String
  activeFingerprint : String
  scope : ResourceScope
  session : SessionScope
  runtimeGeneration : String
  managementRevision : ℕ
  revokeEpoch : ℕ
  invocationId : String
  lifetime : Lifetime
  deriving DecidableEq

def Owner.matches (owner candidate : Owner) : Bool :=
  if owner.pluginInstanceId ≠ candidate.pluginInstanceId ∨
      owner.activeFingerprint ≠ candidate.activeFingerprint ∨
      owner.runtimeGeneration ≠ candidate.runtimeGeneration ∨
      owner.managementRevision ≠ candidate.managementRevision ∨
      owner.revokeEpoch ≠ candidate.revokeEpoch ∨ !owner.scope.matches candidate.scope ∨
      !owner.session.matches candidate.session then false
  else if owner.lifetime = .invocation ∧ owner.invocationId ≠ candidate.invocationId then false
  else true

def Owner.valid (owner : Owner) : Bool :=
  owner.pluginInstanceId ≠ "" && owner.activeFingerprint ≠ "" && owner.scope.valid &&
    owner.session.valid && owner.runtimeGeneration ≠ "" &&
    (owner.lifetime = .session || owner.lifetime = .invocation) &&
    (owner.lifetime ≠ .invocation || owner.invocationId ≠ "")

def Owner.samePrincipal (owner candidate : Owner) : Bool :=
  owner.pluginInstanceId = candidate.pluginInstanceId && owner.scope.matches candidate.scope &&
    owner.session.matches candidate.session && owner.lifetime = candidate.lifetime &&
    (owner.lifetime ≠ .invocation || owner.invocationId = candidate.invocationId)

/-! ### Kinds and limits -/

inductive Kind where
  | file
  | directory
  | watch
  | httpUpload
  | httpBody
  | webSocket
  | tcp
  | tcpListener
  | udp
  /-- Any other text. -/
  | other (name : String)
  deriving DecidableEq

def validKind : Kind → Bool
  | .other _ => false
  | _ => true

inductive KindClass where
  | file
  | connection
  | watchListener
  deriving DecidableEq

def kindClassFor : Kind → KindClass
  | .watch | .tcpListener => .watchListener
  | .httpUpload | .httpBody | .webSocket | .tcp | .udp => .connection
  | _ => .file

structure Limits where
  fileHandles : ℕ
  connections : ℕ
  watchesListeners : ℕ

def limitFor (limits : Limits) : KindClass → ℕ
  | .connection => limits.connections
  | .watchListener => limits.watchesListeners
  | .file => limits.fileHandles

/-! ### Resources -/

inductive Error where
  | invalidHandle
  | resourceClosed
  | ownerMismatch
  | resourceLimit
  | shortWrite
  | eof
  /-- The context of the call is done. -/
  | canceled
  /-- An error of the random source, of a constructor or of a resource. -/
  | failed
  deriving DecidableEq

/-- The interfaces that a resource has. -/
structure Interfaces where
  (fullDuplex chunkReader reader seeker ownedChunkWriter chunkWriter writer : Bool)
  deriving DecidableEq

/-- The locks of an entry that operations take. -/
inductive Mutex where
  | operation
  | read
  | write
  | control
  deriving DecidableEq

structure Entry where
  id : ℕ
  owner : Owner
  kind : Kind
  resource : Interfaces
  held : Mutex → Bool
  closed : Bool
  /-- How often `Close` of the resource was called. -/
  closes : ℕ
  /-- The lifetime under which the handle was published. -/
  lifetime : Option ℕ

/-- What a call wants to do with a resource. -/
inductive Access where
  | readChunk (length : ℕ)
  | writeChunk (length flags : ℕ)
  | seek
  /-- `Use`, and `UseControl`. -/
  | use (kind : Kind) (control : Bool)
  deriving DecidableEq

def Access.mode : Access → Mutex
  | .writeChunk _ _ => .write
  | .use _ true => .control
  | _ => .read

/-- `lockOperation`. -/
def Entry.mutexFor (entry : Entry) (access : Access) : Mutex :=
  if entry.resource.fullDuplex then access.mode else .operation

def knownIOFlags : ℕ := 31

def maxChunk : ℕ := 64 * 1024

/-- The checks before the table is looked at. -/
def Access.check : Access → Option Error
  | .readChunk length => if length = 0 ∨ maxChunk < length then some .resourceLimit else none
  | .writeChunk length flags =>
    if maxChunk < length then some .resourceLimit
    else if flags &&& knownIOFlags ≠ flags then some .invalidHandle
    else none
  | _ => none

/-- What a method of a resource returns. -/
structure Reply where
  n : ℤ
  flags : ℕ
  err : Option Error
  deriving DecidableEq

/-- The checks between the lock and the call of the method. -/
def Entry.refuses (entry : Entry) (canceled : Bool) : Access → Option Error
  | .readChunk _ =>
    if entry.resource.chunkReader then none
    else if !entry.resource.reader then some .invalidHandle
    else if canceled then some .canceled
    else none
  | .writeChunk _ flags =>
    if entry.resource.ownedChunkWriter || entry.resource.chunkWriter then none
    else if flags ≠ 0 then some .invalidHandle
    else if !entry.resource.writer then some .invalidHandle
    else if canceled then some .canceled
    else none
  | .seek => if entry.resource.seeker then none else some .invalidHandle
  | .use kind _ => if entry.kind = kind then none else some .invalidHandle

/-- What an operation makes of the reply of a resource that is not closed. -/
def Entry.result (entry : Entry) (access : Access) (reply : Reply) : Reply :=
  match access with
  | .readChunk length =>
    if entry.resource.chunkReader then
      if reply.n < 0 ∨ (length : ℤ) < reply.n ∨ reply.flags &&& knownIOFlags ≠ reply.flags then
        ⟨0, 0, some .invalidHandle⟩
      else reply
    else if reply.err = some .eof then ⟨reply.n, 1, none⟩
    else ⟨reply.n, 0, reply.err⟩
  | .writeChunk length _ =>
    if (entry.resource.ownedChunkWriter || entry.resource.chunkWriter) &&
        (reply.n < 0 || (length : ℤ) < reply.n) then ⟨0, 0, some .shortWrite⟩
    else if reply.err = none ∧ reply.n ≠ length then ⟨reply.n, 0, some .shortWrite⟩
    else ⟨reply.n, 0, reply.err⟩
  | .seek => ⟨reply.n, 0, reply.err⟩
  | .use _ _ => ⟨0, 0, reply.err⟩

/-- The reply of a closed resource is given up. -/
def resultClosed (access : Access) (reply : Reply) : Reply :=
  match access with
  | .writeChunk _ _ => ⟨reply.n, 0, some .resourceClosed⟩
  | _ => ⟨0, 0, some .resourceClosed⟩

/-! ### State -/

structure InvocationLifetime where
  /-- Its lock is held by a call that publishes. -/
  held : Bool
  closed : Bool
  /-- Its context is done. -/
  canceled : Bool

/-- `entries` names the entries by their numbers. -/
structure HandleTable where
  entries : Table ℕ ℕ
  heap : ℕ → Entry
  next : ℕ
  lifetimes : ℕ → InvocationLifetime

/-- What a constructor may use, and how a resource comes to the table. -/
inductive Source where
  /-- `Open`, with a resource or `nil`. -/
  | given (resource : Option Interfaces)
  /-- `OpenCreated`. -/
  | created
  deriving DecidableEq

/-- What the table knows of an invocation. -/
structure Invocation where
  owner : Owner
  lifetime : Option ℕ
  deriving DecidableEq

inductive Stage where
  | mark
  | closeResource
  | await (mutex : Mutex)
  deriving DecidableEq

variable {Q : Type}

/-- What a call does when an entry is closed. -/
inductive After (Q : Type) where
  | close
  /-- An operation of the same principal with another owner. -/
  | stale (tag : ℕ)
  | revoke (tag : ℕ) (predicate : Option Q) (removed rest : List ℕ)
  deriving DecidableEq

/-- Where a call stands. A tag names the call of an operation or of `Revoke`. -/
inductive Call (Q : Type) where
  | openResource (inv : Invocation) (kind : Kind) (source : Source)
  | publish (inv : Invocation) (kind : Kind) (source : Source)
  | unlock (lifetime : ℕ)
  | stop (lifetime : ℕ)
  | cancelParent (lifetime : ℕ)
  | close (id : ℕ) (owner : Owner)
  | revoke (tag : ℕ) (predicate : Option Q)
  | revoking (tag : ℕ) (predicate : Option Q) (removed rest : List ℕ)
  | shut (e : ℕ) (stage : Stage) (after : After Q)
  | operate (tag id : ℕ) (owner : Owner) (access : Access)
  | lock (tag e : ℕ) (owner : Owner) (access : Access)
  /-- With the lock `m`, as the positions below. -/
  | check (tag e : ℕ) (owner : Owner) (access : Access) (m : Mutex)
  | ready (tag e : ℕ) (owner : Owner) (access : Access) (m : Mutex)
  | inside (tag e : ℕ) (owner : Owner) (access : Access) (m : Mutex)
  | release (tag e : ℕ) (m : Mutex) (result : Reply)
  deriving DecidableEq

/-- What the environment decides. -/
inductive Choice where
  | go
  | entropyFailed
  /-- The handle that is drawn, and what the constructor returns. -/
  | handle (id : ℕ) (created : Except Unit (Option Interfaces))
  /-- The order in which `Revoke` comes to the entries. -/
  | order (removed : List ℕ)
  | canceled
  | reply (r : Reply)
  deriving DecidableEq

inductive Event (Q : Type) where
  | silent
  /-- An entry is published; `ran` says whether a constructor has run. -/
  | opened (e : ℕ) (ran : Bool)
  | openFailed (err : Error) (ran : Bool)
  | stopped (lifetime : ℕ)
  /-- `Close` of the resource is called. -/
  | closed (e : ℕ)
  /-- `Close` returns; what the resource itself returned is not told. -/
  | closeReturned (err : Option Error)
  /-- `Revoke` takes the entries out of the table. -/
  | removing (tag : ℕ) (predicate : Option Q)
  | revoked (tag : ℕ) (predicate : Option Q) (removed : List ℕ)
  /-- A method of the resource is called. -/
  | reached (tag e : ℕ) (caller : Owner)
  /-- An operation returns. -/
  | operated (tag : ℕ) (e : Option ℕ) (result : Reply)
  deriving DecidableEq

def After.event : After Q → Event Q
  | .close => .closeReturned none
  | .stale tag => .operated tag none ⟨0, 0, some .resourceClosed⟩
  | .revoke .. => .silent

def After.next : After Q → Option (Call Q)
  | .revoke tag predicate removed rest => some (.revoking tag predicate removed rest)
  | _ => none

namespace HandleTable

variable (s : HandleTable)

def setEntry (e : ℕ) (entry : Entry) : HandleTable :=
  { s with heap := Function.update s.heap e entry }

def setLifetime (l : ℕ) (lifetime : InvocationLifetime) : HandleTable :=
  { s with lifetimes := Function.update s.lifetimes l lifetime }

/-- The entries of a plugin, an owner scope and a class. -/
def counted (owner : Owner) (cls : KindClass) (e : ℕ) : Bool :=
  (s.heap e).owner.pluginInstanceId = owner.pluginInstanceId &&
    (s.heap e).owner.scope.matches owner.scope && kindClassFor (s.heap e).kind = cls

def ownerKindCountLocked (owner : Owner) (cls : KindClass) : ℕ :=
  s.entries.count (s.counted owner cls)

def insertEntry (inv : Invocation) (kind : Kind) (id : ℕ) (resource : Interfaces) : HandleTable :=
  { s with
    entries := s.entries.insert id s.next
    heap := Function.update s.heap s.next
      ⟨id, inv.owner, kind, resource, fun _ => false, false, 0, inv.lifetime⟩
    next := s.next + 1 }

variable (limits : Limits)

/-- `Open` and `OpenCreated`. A handle that is taken is drawn again. -/
def publish (s : HandleTable) (inv : Invocation) (kind : Kind) (source : Source) (o : Choice) :
    Option (Event Q × HandleTable) :=
  if source = .given none ∨ !inv.owner.valid ∨ !validKind kind then
    some (.openFailed .invalidHandle false, s)
  else if limitFor limits (kindClassFor kind) ≤
      s.ownerKindCountLocked inv.owner (kindClassFor kind) then
    some (.openFailed .resourceLimit false, s)
  else match o with
    | .entropyFailed => some (.openFailed .failed false, s)
    | .handle id created =>
      if id = 0 ∨ 2 ^ 63 ≤ id ∨ (s.entries.lookup id).isSome then none
      else match source with
        | .given none => none
        | .given (some resource) =>
          some (.opened s.next false, s.insertEntry inv kind id resource)
        | .created =>
          match created with
          | .error _ => some (.openFailed .failed true, s)
          | .ok none => some (.openFailed .invalidHandle true, s)
          | .ok (some resource) => some (.opened s.next true, s.insertEntry inv kind id resource)
    | _ => none

variable [DecidableEq Q]
  (holds : Q → Owner → Bool)

/-- A predicate that is `nil` holds of every owner. -/
def selects (predicate : Option Q) (s : HandleTable) (e : ℕ) : Bool :=
  match predicate with
  | none => true
  | some q => holds q (s.heap e).owner

def advance (s : HandleTable) (c : Call Q) (o : Choice) :
    Option (Event Q × HandleTable × Option (Call Q)) :=
  match c with
  | .openResource inv kind source =>
    match inv.lifetime with
    | none => some (.silent, s, some (.publish inv kind source))
    | some l =>
      let lifetime := s.lifetimes l
      if lifetime.held then none
      else if lifetime.closed || lifetime.canceled then
        some (.openFailed .resourceClosed false, s, none)
      else some (.silent, s.setLifetime l { lifetime with held := true },
        some (.publish inv kind source))
  | .publish inv kind source =>
    (publish limits s inv kind source o).map fun r => (r.1, r.2, inv.lifetime.map .unlock)
  | .unlock l => some (.silent, s.setLifetime l { s.lifetimes l with held := false }, none)
  | .stop l =>
    if (s.lifetimes l).held then none
    else some (.stopped l,
      s.setLifetime l { s.lifetimes l with closed := true, canceled := true }, none)
  | .cancelParent l =>
    some (.silent, s.setLifetime l { s.lifetimes l with canceled := true }, none)
  | .close id owner =>
    match s.entries.lookup id with
    | none => some (.closeReturned none, s, none)
    | some e =>
      if !(s.heap e).owner.matches owner then some (.closeReturned (some .ownerMismatch), s, none)
      else some (.silent, { s with entries := s.entries.erase id }, some (.shut e .mark .close))
  | .revoke tag predicate =>
    match o with
    | .order removed =>
      if (removed : Multiset ℕ) =
          (s.entries.filter fun _ e => s.selects holds predicate e).values then
        some (.removing tag predicate,
          { s with entries := s.entries.filter fun _ e => !s.selects holds predicate e },
          some (.revoking tag predicate removed removed))
      else none
    | _ => none
  | .revoking tag predicate removed rest =>
    match rest with
    | [] => some (.revoked tag predicate removed, s, none)
    | e :: rest => some (.silent, s, some (.shut e .mark (.revoke tag predicate removed rest)))
  | .shut e stage after =>
    let entry := s.heap e
    match stage with
    | .mark =>
      if entry.closed then some (after.event, s, after.next)
      else some (.silent, s.setEntry e { entry with closed := true },
        some (.shut e .closeResource after))
    | .closeResource =>
      some (.closed e, s.setEntry e { entry with closes := entry.closes + 1 },
        some (.shut e (.await .operation) after))
    | .await m =>
      if entry.held m then none
      else match m with
        | .operation => some (.silent, s, some (.shut e (.await .read) after))
        | .read => some (.silent, s, some (.shut e (.await .write) after))
        | .write => some (.silent, s, some (.shut e (.await .control) after))
        | .control => some (after.event, s, after.next)
  | .operate tag id owner access =>
    match access.check with
    | some err => some (.operated tag none ⟨0, 0, some err⟩, s, none)
    | none =>
      match s.entries.lookup id with
      | none => some (.operated tag none ⟨0, 0, some .resourceClosed⟩, s, none)
      | some e =>
        if !(s.heap e).owner.matches owner then
          if (s.heap e).owner.samePrincipal owner then
            some (.silent, { s with entries := s.entries.erase id },
              some (.shut e .mark (.stale tag)))
          else some (.operated tag none ⟨0, 0, some .ownerMismatch⟩, s, none)
        else some (.silent, s, some (.lock tag e owner access))
  | .lock tag e owner access =>
    let entry := s.heap e
    let m := entry.mutexFor access
    if entry.held m then none
    else some (.silent, s.setEntry e { entry with held := Function.update entry.held m true },
      some (.check tag e owner access m))
  | .check tag e owner access m =>
    if (s.heap e).closed then
      some (.silent, s, some (.release tag e m ⟨0, 0, some .resourceClosed⟩))
    else some (.silent, s, some (.ready tag e owner access m))
  | .ready tag e owner access m =>
    match (s.heap e).refuses (o = .canceled) access with
    | some err => some (.silent, s, some (.release tag e m ⟨0, 0, some err⟩))
    | none => some (.reached tag e owner, s, some (.inside tag e owner access m))
  | .inside tag e _ access m =>
    match o with
    | .reply r =>
      let result := if (s.heap e).closed then resultClosed access r else (s.heap e).result access r
      some (.silent, s, some (.release tag e m result))
    | _ => none
  | .release tag e m result =>
    let entry := s.heap e
    some (.operated tag (some e) result,
      s.setEntry e { entry with held := Function.update entry.held m false }, none)
/-- The positions at which calls enter. -/
def entry : Call Q → Bool
  | .openResource .. | .stop _ | .cancelParent _ | .close .. | .revoke .. | .operate .. => true
  | _ => false

def program : Program HandleTable (Call Q) Choice (Event Q) := ⟨entry, advance limits holds⟩

end HandleTable

/-- `NewTable`, with the lifetimes as they are made. -/
def newTable : HandleTable :=
  ⟨∅, fun _ => ⟨0, ⟨"", "", ⟨.user, "", ""⟩, ⟨"", "", "", ""⟩, "", 0, 0, "", .session⟩, .file,
    ⟨false, false, false, false, false, false, false⟩, fun _ => false, false, 0, none⟩, 0,
    fun _ => ⟨false, false, false⟩⟩

end RedevPlugin.Resource
