import RedevPlugin.Foundation.Table
import RedevPlugin.Foundation.Threads
import RedevPlugin.Session.Scopes

/-! Files that are streamed into and out of a namespace. A stream stages its bytes in a file
of its own, and the store keeps a table of the bytes that are staged for each namespace, so
that they stay below two quotas together. A call is modelled section by section: what the
file system, the database, the caller's reader and writer and the context answer is chosen
from outside. -/

namespace RedevPlugin.PluginData

open Session (ResourceScope ScopeKind)
open Text (trim)
open Threads

def isNameChar (c : Char) : Bool := c.isAlphanum || c = '.' || c = '_' || c = '-'

/-- A letter or digit, and up to 127 more of these or `. _ -`, once trimmed. -/
def normalizeIdentifier (value : String) : Option String :=
  match (trim value).toList with
  | [] => none
  | c :: cs =>
    if cs.length ≤ 127 && c.isAlphanum && cs.all isNameChar then some (trim value) else none

def maxStoreQuotaBytes : ℤ := 2 ^ 30

/-- The quota of a namespace, as the manifest allows it. -/
structure Quota where
  bytes : ℤ
  pos : 0 < bytes
  le : bytes ≤ maxStoreQuotaBytes
  deriving DecidableEq

structure StreamRequest where
  pluginInstanceID : String
  storeID : String
  resourceScope : ResourceScope
  maxBytes : ℤ
  deriving DecidableEq

/-- What `withNamespace` finds for a request. -/
structure NamespaceID where
  pluginInstanceID : String
  storeID : String
  owner : ResourceScope
  deriving DecidableEq

def StreamRequest.namespace (req : StreamRequest) : Option NamespaceID :=
  match normalizeIdentifier req.pluginInstanceID, normalizeIdentifier req.storeID with
  | some plugin, some store =>
    if req.resourceScope.valid then some ⟨plugin, store, req.resourceScope⟩ else none
  | _, _ => none

/-- The bytes that are staged, by `streamStageKey`; none is a map that was not made. -/
abbrev StreamBytes : Type := Option (Table String ℤ)

variable (s : StreamBytes)

def StreamBytes.entry (key : String) : ℤ := ((s.getD ∅).lookup key).getD 0

structure NamespaceStageWriter where
  key : String
  limit : ℤ
  bytes : ℕ
  deriving DecidableEq

/-- The reservation of `Write`; none when there is no place. -/
def NamespaceStageWriter.write (w : NamespaceStageWriter) (s : StreamBytes) (n : ℕ) :
    Option NamespaceStageWriter × StreamBytes :=
  if (n : ℤ) > w.limit - s.entry w.key then (none, some (s.getD ∅))
  else
    (some { w with bytes := w.bytes + n }, some ((s.getD ∅).insert w.key (s.entry w.key + n)))

/-- An assignment to a map that was not made panics. -/
def NamespaceStageWriter.release (w : NamespaceStageWriter) : StreamBytes → Option StreamBytes
  | none => none
  | some m =>
    let rest := StreamBytes.entry (some m) w.key - w.bytes
    some (some (if rest = 0 then m.erase w.key else m.insert w.key rest))

def scopeKindText : ScopeKind → String
  | .user => "user"
  | .environment => "environment"
  | .other name => name

def streamStageKey (plugin store : String) (scope : ResourceScope) : String :=
  plugin ++ "/" ++ store ++ "/" ++ scopeKindText scope.kind ++ "/" ++ scope.ownerEnvHash ++ "/" ++
    scope.ownerUserHash

def fileStreamChunkBytes : ℤ := 65536

/-- A stream that has found its namespace. -/
structure Stream where
  req : StreamRequest
  quota : Quota
  budget : NamespaceStageWriter
  deriving DecidableEq

inductive StreamError where
  | quotaExceeded
  | fileTooLarge
  | invalidFilePath
  | datasetCorrupt
  | shortWrite
  | shortBuffer
  | noProgress
  /-- An error of the context, the file system, the database, the reader or the writer. -/
  | external (text : String)
  deriving DecidableEq

inductive Call where
  /-- `ReadFileStream` before it has a budget. -/
  | readOpen (req : StreamRequest)
  /-- `readFileTo` before it knows the file. -/
  | readFile (st : Stream)
  /-- Its loop; a file that is not inline has rows of its own. -/
  | readChunks (st : Stream) (size offset : ℤ) (inline : Bool)
  /-- The staged bytes go to the destination. -/
  | send (st : Stream)
  /-- `WriteFileStream` before it has a budget. -/
  | writeOpen (req : StreamRequest)
  | receive (st : Stream) (maximum uploaded : ℤ)
  /-- The staged bytes go to the namespace. -/
  | commit (st : Stream)
  /-- The deferred `release`, and what the call returns. -/
  | release (st : Stream) (err : Option StreamError)
  deriving DecidableEq

/-- The end of a read by the caller's reader. -/
inductive ReadEnd where
  | eof
  | failed (text : String)

/-- What a call gets from outside. -/
inductive Choice where
  | fail (text : String)
  | opened (quota : Quota)
  | found (size : ℤ) (isFile inline : Bool)
  /-- The next chunk and whether the staged file takes all of it, takes less or fails. -/
  | chunk (n : ℕ) (written : Except String Bool)
  | received (n : ℤ) (readEnd : Option ReadEnd) (written : Except String Bool)
  | finished

inductive Event where
  | moved
  | opened
  | reserved (n : ℕ)
  /-- There is no place for this many bytes. -/
  | refused (n : ℕ)
  | released (err : Option StreamError)
  | panicked
  deriving DecidableEq

variable (st : Stream)

/-- `Write` of a budget, with what the staged file then does; `done` is where the call goes on. -/
def stageChunk (n : ℕ) (written : Except String Bool) (done : Stream → Call) :
    Event × StreamBytes × Option Call :=
  match st.budget.write s n with
  | (none, s) => (.refused n, s, some (.release st (some .quotaExceeded)))
  | (some budget, s) =>
    let st := { st with budget }
    match written with
    | .error text => (.reserved n, s, some (.release st (some (.external text))))
    | .ok false => (.reserved n, s, some (.release st (some .shortWrite)))
    | .ok true => (.reserved n, s, some (done st))

/-- The call returns, with the deferred release. -/
def returns (err : Option StreamError) : Event × StreamBytes × Option Call :=
  (.moved, s, some (.release st err))

def uploadMaximum (req : StreamRequest) (quota : Quota) : ℤ :=
  if req.maxBytes > 0 ∧ req.maxBytes < quota.bytes then req.maxBytes else quota.bytes

/-- The budget of a stream that has found its namespace. -/
def newStream (req : StreamRequest) (quota : Quota) (limit : ℤ) : Stream :=
  ⟨req, quota, ⟨streamStageKey req.pluginInstanceID req.storeID req.resourceScope, limit, 0⟩⟩

/-- Where a writing stream goes on after a read: at its end, with an error or with the next
read. -/
def afterReceive (maximum uploaded n : ℤ) : Option ReadEnd → Call
  | some .eof => .commit st
  | some (.failed text) => .release st (some (.external text))
  | none =>
    if n = 0 then .release st (some .noProgress) else .receive st maximum (uploaded + n)

def advance : Call → Choice → Option (Event × StreamBytes × Option Call)
  | .readOpen _, .fail _ => some (.moved, s, none)
  | .readOpen req, .opened quota =>
    if req.namespace = none then none
    else some (.opened, s, some (.readFile (newStream req quota (quota.bytes * 2))))
  | .readFile st, .fail text => some (returns s st (some (.external text)))
  | .readFile st, .found size isFile inline =>
    if !isFile then some (returns s st (some .invalidFilePath))
    else if st.req.maxBytes > 0 ∧ size > st.req.maxBytes then
      some (returns s st (some .fileTooLarge))
    else some (.moved, s, some (.readChunks st size 0 inline))
  | .readChunks st _ _ _, .fail text => some (returns s st (some (.external text)))
  | .readChunks st size offset inline, .chunk n written =>
    if inline ∧ ¬ offset < size then none
    else if n = 0 ∨ fileStreamChunkBytes < n ∨ size - offset < n then
      some (returns s st (some .datasetCorrupt))
    else some (stageChunk s st n written fun st => .readChunks st size (offset + n) inline)
  | .readChunks st size offset inline, .finished =>
    if inline then if offset < size then none else some (.moved, s, some (.send st))
    else if offset ≠ size then some (returns s st (some .datasetCorrupt))
    else some (.moved, s, some (.send st))
  | .send st, .fail text => some (returns s st (some (.external text)))
  | .send st, .finished => some (returns s st none)
  | .writeOpen _, .fail _ => some (.moved, s, none)
  | .writeOpen req, .opened quota =>
    if req.namespace = none then none
    else
      let maximum := uploadMaximum req quota
      some (.opened, s, some (.receive (newStream req quota (maximum * 2)) maximum 0))
  | .receive st _ _, .fail text => some (returns s st (some (.external text)))
  | .receive st maximum uploaded, .received n readEnd written =>
    if n < 0 ∨ n > fileStreamChunkBytes then some (returns s st (some .shortBuffer))
    else if n > maximum - uploaded then some (returns s st (some .quotaExceeded))
    else if n > 0 then
      some (stageChunk s st n.toNat written fun st => afterReceive st maximum uploaded n readEnd)
    else some (.moved, s, some (afterReceive st maximum uploaded n readEnd))
  | .commit st, .fail text => some (returns s st (some (.external text)))
  | .commit st, .finished => some (returns s st none)
  | .release st err, .finished =>
    match st.budget.release s with
    | none => some (.panicked, s, none)
    | some s => some (.released err, s, none)
  | _, _ => none

def entry : Call → Bool
  | .readOpen _ | .writeOpen _ => true
  | _ => false

def program : Program StreamBytes Call Choice Event := ⟨entry, advance⟩

end RedevPlugin.PluginData
