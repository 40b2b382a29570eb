import RedevPlugin.Foundation.LockedOutput
import RedevPlugin.Wire.Chunks

/-! The messages on a connection. A message is a semantic payload, which goes in
chunks, or a raw frame of the I/O path. The host writes both under the lock of the
connection; the runtime puts the bytes of one message after the other into a queue
that one thread writes out. Either reader looks at the first frame of a message to
tell the two kinds apart, reads the rest of a payload and compares the identity in
the payload with the header of its frames. -/

namespace RedevPlugin.Wire

open Bytes Transition LockedOutput
open Json hiding Unit

/-! ### Identities -/

def hostSemanticFrameType : String → Option FrameType
  | "hello" => some .hello
  | "heartbeat" => some .heartbeat
  | "invoke_worker" => some .invoke
  | "cancel_invoke" => some .cancelInvoke
  | "revoke_epoch" => some .revokePlugin
  | "session_revoke" => some .revokeSession
  | "open_handle" => some .hostcallResult
  | _ => none

def runtimeSemanticFrameType : String → Option FrameType
  | "hello_ack" => some .helloAck
  | "heartbeat" => some .heartbeat
  | "invoke_worker_result" => some .invokeResult
  | "cancel_invoke_ack" => some .cancelAck
  | "revoke_epoch_ack" => some .revokePlugin
  | "session_revoke_ack" => some .revokeSession
  | "compile_flight_register" | "compile_flight_complete" | "open_handle" => some .hostcall
  | _ => none

/-- How a side reads a payload: `decodeStrictJSON` into an `ipcFrame` on the host,
`String::from_utf8` and `parse_frame_identity` in the runtime. -/
structure SemanticDecoder (V : Type) where
  decode : List UInt8 → Option V
  frameType : V → String
  requestId : V → String

/-- The first eight bytes of the SHA-256 digest, which `digest` stands for, or one. -/
def semanticIPCRequestID (digest : String → UInt64) (requestId : String) : UInt64 :=
  if digest requestId = 0 then 1 else digest requestId

theorem semanticIPCRequestID_ne_zero (digest : String → UInt64) (requestId : String) :
    semanticIPCRequestID digest requestId ≠ 0 := by
  rw [semanticIPCRequestID]
  split_ifs with h
  · decide
  · exact h

/-! ### Raw frames -/

def metadataMembers (metadata : List UInt8) : List (List StringPart × Tree) :=
  match (decodeUtf8 metadata).bind parse with
  | some (.object ms) => ms
  | _ => []

/-- Frames come here with accepted metadata, which `serde_json` reads as a value. -/
def rawIoResultMetadataProbe (metadata : List UInt8) : Bool :=
  (metadataMembers metadata).any fun m => rustReader.string m.1 = some "invocation_id"

def isRawIoResultFrame (f : Frame) : Bool :=
  match f.frameType with
  | .ioReadResult | .ioWriteResult | .ioSeekResult | .ioCloseResult => true
  | .hostcallResult => rawIoResultMetadataProbe f.metadata
  | _ => false

/-- Field names are compared up to case; no letter of this one has a fold outside of ASCII. -/
def invocationProbe (metadata : List UInt8) : Bool :=
  (metadataMembers metadata).any fun m =>
    (decodedText m.1).toList.map Char.toUpper = "INVOCATION_ID".toList

def isRuntimeIORequestFrame (type : UInt8) : Bool :=
  type = FrameType.ioRead.code || type = FrameType.ioWrite.code ||
    type = FrameType.ioSeek.code || type = FrameType.ioClose.code

def isRuntimeIOControlRequestFrame (f : IPCFrame) : Bool :=
  if f.type ≠ FrameType.hostcall.code ∨ f.flags ≠ 0 ∨ f.body.length = 0 ∨
      bodyMax < f.body.length then false
  else invocationProbe f.metadata

/-! ### Readers -/

/-- What a reader hands on. -/
inductive Received (F V : Type) where
  | raw (f : F)
  | semantic (v : V)

section Readers

variable (digest : String → UInt64) {V : Type} (D : SemanticDecoder V)

def readRuntimeSemanticIPCFrame (framed : IPCFrame) (stream : List UInt8) :
    Except CodecError (V × List UInt8) :=
  match readSemanticIPCBytes framed stream with
  | .error e => .error e
  | .ok (bytes, stream) =>
    match D.decode bytes with
    | none => .error (.invalid "semantic frame")
    | some v =>
      match runtimeSemanticFrameType (D.frameType v) with
      | none => .error (.protocol "runtime semantic frame type")
      | some wantType =>
        if framed.type ≠ wantType.code ∨
            framed.requestId ≠ semanticIPCRequestID digest (D.requestId v) then
          .error (.protocol "semantic frame identity mismatch")
        else .ok (v, stream)

/-- One round of `readIPCLoop`, up to what it does with the message; `none` ends the loop. -/
def readIPCLoop (stream : List UInt8) :
    Except CodecError (Option (Received IPCFrame V × List UInt8)) :=
  match (readIPCFrame stream).result with
  | .error .io => .ok none
  | .error e => .error e
  | .ok (framed, stream) =>
    if isRuntimeIORequestFrame framed.type || isRuntimeIOControlRequestFrame framed then
      .ok (some (.raw framed, stream))
    else match readRuntimeSemanticIPCFrame digest D framed stream with
      | .error e => .error e
      | .ok (v, stream) => .ok (some (.semantic v, stream))

/-- What is returned is the text of the payload. -/
def decodeSemanticIpcFrame (frame : Frame) (label : String) (stream : List UInt8) :
    Except SemanticError (List UInt8 × List UInt8) :=
  match readSemanticIpcBytes label frame stream with
  | .error e => .error e
  | .ok (semantic, stream) =>
    match D.decode semantic with
    | none => .error (.text ("decode " ++ label ++ " identity"))
    | some v =>
      match hostSemanticFrameType (D.frameType v) with
      | none => .error (.text ("unsupported Host semantic frame type " ++ D.frameType v))
      | some expectedType =>
        if frame.frameType ≠ expectedType ∨
            frame.requestId ≠ semanticIPCRequestID digest (D.requestId v) then
          .error (.text (label ++ " header and semantic identity mismatch"))
        else .ok (semantic, stream)

/-- `none` is the end of the input. -/
def readRuntimeInput (stream : List UInt8) :
    Except SemanticError (Option (Received Frame (List UInt8) × List UInt8)) :=
  match (readFrame stream).result with
  | .error .io => .ok none
  | .error e => .error (.codec e)
  | .ok (frame, stream) =>
    if isRawIoResultFrame frame then .ok (some (.raw frame, stream))
    else match decodeSemanticIpcFrame digest D frame "ipc frame" stream with
      | .error e => .error e
      | .ok (semantic, stream) => .ok (some (.semantic semantic, stream))

end Readers

/-- The loop of a reader, for at most this many rounds. -/
def receive {E A : Type} (read : List UInt8 → Except E (Option (A × List UInt8))) :
    ℕ → List UInt8 → Except E (List A)
  | 0, _ => .ok []
  | n + 1, stream =>
    match read stream with
    | .error e => .error e
    | .ok none => .ok []
    | .ok (some (a, stream)) => (receive read n stream).map (a :: ·)

/-! ### Writers -/

/-- The bytes up to the first newline and those behind it. -/
def splitLine : List UInt8 → Option (List UInt8 × List UInt8)
  | [] => none
  | b :: bs => if b = 10 then some ([], bs) else (splitLine bs).map fun r => (b :: r.1, r.2)

section Writers

variable (digest : String → UInt64) {V : Type} (D : SemanticDecoder V)

/-- What `Write` has put on the connection, what is pending, and its error. -/
structure Written where
  bytes : List UInt8
  pending : List UInt8
  error : Option CodecError

/-- The loop of `Write`, where `trim` is `bytes.TrimSpace`. Its first argument bounds the rounds. -/
def writeLines (trim : List UInt8 → List UInt8) : ℕ → List UInt8 → List UInt8 → Written
  | 0, pending, bytes => ⟨bytes, pending, none⟩
  | n + 1, pending, bytes =>
    match splitLine pending with
    | none => ⟨bytes, pending, if frameMax < pending.length then some .tooLarge else none⟩
    | some (head, pending) =>
      let line := trim head
      if line.length = 0 then writeLines trim n pending bytes
      else match D.decode line with
        | none => ⟨bytes, pending, some (.invalid "semantic frame")⟩
        | some v =>
          match hostSemanticFrameType (D.frameType v) with
          | none => ⟨bytes, pending, some (.protocol "Host semantic frame type")⟩
          | some frameType =>
            match writeSemanticIPCFrame frameType.code (semanticIPCRequestID digest (D.requestId v))
                line with
            | .error e => ⟨bytes, pending, some e⟩
            | .ok frames => writeLines trim n pending (bytes ++ frames)

/-- `Write` with what earlier calls left pending. -/
def writeLine (trim : List UInt8 → List UInt8) (pending payload : List UInt8) : Written :=
  writeLines digest D trim ((pending ++ payload).length + 1) (pending ++ payload) []

def writeSemanticIpcFrame (semantic : List UInt8) : Except SemanticError (List UInt8) :=
  match D.decode semantic with
  | none => .error (.text "decode runtime semantic frame identity")
  | some v =>
    match runtimeSemanticFrameType (D.frameType v) with
    | none => .error (.text ("unsupported runtime semantic frame type " ++ D.frameType v))
    | some frameType =>
      writeSemanticIpcBytes frameType (semanticIPCRequestID digest (D.requestId v)) semantic

end Writers

/-! ### Messages -/

inductive Message where
  | semantic (payload : List UInt8)
  | raw (f : Frame)

section Messages

variable (digest : String → UInt64) (trim : List UInt8 → List UInt8) {V W : Type}
  (G : SemanticDecoder V) (R : SemanticDecoder W)

/-- What the host puts on the connection for a message: `Write` gets the line of a payload,
`WriteFrame` a raw frame. -/
def hostBytes : Message → List UInt8
  | .semantic payload => (writeLine digest G trim [] (payload ++ [10])).bytes
  | .raw f => (writeIPCFrame f.toIPC).toOption.getD []

/-- What the runtime queues for a message: `FrameSender::send` and `send_raw`. -/
def runtimeBytes : Message → List UInt8
  | .semantic payload => (writeSemanticIpcFrame digest R payload).toOption.getD []
  | .raw f => (writeFrame f).toOption.getD []

/-- A payload that both sides decode, with one identity whose type is in the table. -/
structure Semantic (table : String → Option FrameType) (payload : List UInt8) : Prop where
  ne_nil : payload ≠ []
  length_le : payload.length ≤ invokeMetadataMax
  decoded : ∃ v w t, G.decode payload = some v ∧ R.decode payload = some w ∧
    G.frameType v = R.frameType w ∧ G.requestId v = R.requestId w ∧
    table (G.frameType v) = some t

/-- The metadata is an object with this member. -/
def NamesInvocation (metadata : List UInt8) : Prop :=
  ∃ v, (("invocation_id".toList.map StringPart.scalar), v) ∈ metadataMembers metadata

/-- The results of I/O requests and of control requests. -/
def HostRaw (f : Frame) : Prop :=
  validateFrame f = .ok () ∧ (f.frameType = .ioReadResult ∨ f.frameType = .ioWriteResult ∨
    f.frameType = .ioSeekResult ∨ f.frameType = .ioCloseResult ∨
    f.frameType = .hostcallResult ∧ NamesInvocation f.metadata)

/-- The I/O requests, and the control requests, which have a body. -/
def RuntimeRaw (f : Frame) : Prop :=
  validateFrame f = .ok () ∧ (f.frameType = .ioRead ∨ f.frameType = .ioWrite ∨
    f.frameType = .ioSeek ∨ f.frameType = .ioClose ∨
    f.frameType = .hostcall ∧ f.flags = 0 ∧ f.body ≠ [] ∧ NamesInvocation f.metadata)

/-- The messages of the host; a payload is a trimmed line. -/
def HostMessage : Message → Prop
  | .semantic payload => Semantic G R hostSemanticFrameType payload ∧ 10 ∉ payload ∧
    trim payload = payload
  | .raw f => HostRaw f

def RuntimeMessage : Message → Prop
  | .semantic payload => Semantic G R runtimeSemanticFrameType payload
  | .raw f => RuntimeRaw f

/-- What a reader hands on for a message that it gets byte for byte; `view` is what it makes of a
payload. -/
inductive Delivers {F A : Type} (view : List UInt8 → Option A) (embed : Frame → F) :
    Message → Received F A → Prop
  | semantic {payload v} (h : view payload = some v) :
    Delivers view embed (.semantic payload) (.semantic v)
  | raw (f : Frame) : Delivers view embed (.raw f) (.raw (embed f))

end Messages

/-! ### Reading what was written -/

/-- The bytes are read as one message, and what follows is left. -/
structure ReadAs {E A : Type} (read : List UInt8 → Except E (Option (A × List UInt8)))
    (bytes : List UInt8) (a : A) : Prop where
  reads : ∀ rest, read (bytes ++ rest) = .ok (some (a, rest))

/-- Messages that are read one by one are read in a row. -/
theorem receive_flatMap {E A M : Type} {read : List UInt8 → Except E (Option (A × List UInt8))}
    {bytes : M → List UInt8} {D : M → A → Prop} (hend : read [] = .ok none) {ms : List M}
    (hms : ∀ m ∈ ms, ∃ a, D m a ∧ ReadAs read (bytes m) a) :
    ∃ as, List.Forall₂ D ms as ∧
      ∀ n, ms.length < n → receive read n (ms.flatMap bytes) = .ok as := by
  induction ms with
  | nil =>
    refine ⟨[], .nil, fun n hn => ?_⟩
    obtain ⟨n, rfl⟩ : ∃ k, n = k + 1 := ⟨n - 1, by omega⟩
    rw [List.flatMap_nil, receive, hend]
  | cons m ms ih =>
    rw [List.forall_mem_cons] at hms
    obtain ⟨a, ha, hre⟩ := hms.1
    obtain ⟨as, has, hreceive⟩ := ih hms.2
    refine ⟨a :: as, .cons ha has, fun n hn => ?_⟩
    rw [List.length_cons] at hn
    obtain ⟨n, rfl⟩ : ∃ k, n = k + 1 := ⟨n - 1, by omega⟩
    rw [List.flatMap_cons, receive, hre.reads]
    dsimp only
    rw [hreceive n (by omega)]
    rfl

theorem string_scalars (s : String) :
    decodedText (s.toList.map StringPart.scalar) = s ∧
      rustReader.string (s.toList.map StringPart.scalar) = some s := by
  have hte : decodedText (s.toList.map StringPart.scalar) = s := by
    rw [decodedText, List.map_map]
    exact (congrArg String.ofList (List.map_id s.toList)).trans (String.ofList_toList)
  refine ⟨hte, ?_⟩
  have hsc : (s.toList.map StringPart.scalar).all StringPart.isScalar = true := by
    rw [List.all_map]
    exact List.all_eq_true.mpr fun _ _ => rfl
  simp only [rustReader, hsc, if_true, hte]

theorem probes_of_namesInvocation {metadata} (h : NamesInvocation metadata) :
    rawIoResultMetadataProbe metadata = true ∧ invocationProbe metadata = true := by
  obtain ⟨v, hv⟩ := h
  have hstr := string_scalars "invocation_id"
  constructor
  · exact List.any_eq_true.mpr ⟨_, hv, by simp only [hstr.2, decide_true]⟩
  · exact List.any_eq_true.mpr ⟨_, hv, by simp only [hstr.1]; decide⟩

/-- The envelope of a chunk is not taken for the metadata of a raw frame. -/
theorem probe_envelopeBytes {index} (h : index < maxChunks) :
    rawIoResultMetadataProbe (envelopeBytes index) = false := by
  change index < 16 at h
  interval_cases index <;> decide +kernel

variable {frameType : FrameType} {type : String}

theorem isRawIoResultFrame_chunkFrame (hty : hostSemanticFrameType type = some frameType)
    (requestId : UInt64) {c} (hin : c.index < maxChunks) :
    isRawIoResultFrame (chunkFrame frameType requestId c) = false := by
  have hpr := probe_envelopeBytes hin
  unfold hostSemanticFrameType at hty
  split at hty <;> cases hty
  all_goals first | rfl | exact hpr

theorem isRuntimeIO_chunkFrame (hty : runtimeSemanticFrameType type = some frameType)
    (requestId : UInt64) (c : Chunk) :
    (isRuntimeIORequestFrame frameType.code ||
      isRuntimeIOControlRequestFrame (chunkFrame frameType requestId c).toIPC) = false := by
  have hfl : ∀ more, chunkFlags more ≠ 0 := by decide
  have hco : isRuntimeIOControlRequestFrame (chunkFrame frameType requestId c).toIPC = false :=
    if_pos (.inr (.inl (hfl c.more)))
  rw [hco, Bool.or_false]
  unfold runtimeSemanticFrameType at hty
  split at hty <;> cases hty
  all_goals rfl

section Delivery

variable {digest : String → UInt64} {trim : List UInt8 → List UInt8} {V W : Type}
  {G : SemanticDecoder V} {R : SemanticDecoder W}

variable {frameType : FrameType} {cs : List Chunk} {payload : List UInt8} {v : V} {f : Frame}
  {m : Message}

section

variable (hti : Tiles 0 payload cs) (hlen : payload.length ≤ invokeMetadataMax)

include hti hlen

/-- The chunks of a message of the host reach the runtime as its payload. -/
theorem readRuntimeInput_chunks {w} (hde : R.decode payload = some w)
    (hty : hostSemanticFrameType (R.frameType w) = some frameType) :
    ReadAs (readRuntimeInput digest R)
      (chunkBytes frameType (semanticIPCRequestID digest (R.requestId w)) cs)
      (.semantic payload) := by
  refine ⟨fun rest => ?_⟩
  have hid := semanticIPCRequestID_ne_zero digest (R.requestId w)
  have hb := hti.chunk_bounds (by rw [FitsFrom]; omega)
  obtain ⟨c, cs, rfl⟩ := hti.exists_cons
  obtain ⟨hin, hbo⟩ := hb c List.mem_cons_self
  have hva := validateFrame_chunkFrame frameType hid hin hbo
  have hraw := isRawIoResultFrame_chunkFrame hty (semanticIPCRequestID digest (R.requestId w)) hin
  have hch : readSemanticIpcBytes "ipc frame"
      (chunkFrame frameType (semanticIPCRequestID digest (R.requestId w)) c)
      (chunkBytes frameType (semanticIPCRequestID digest (R.requestId w)) cs ++ rest) =
        .ok (payload, rest) :=
    (rustChunkReader_reads "ipc frame").read frameType hid hti hlen rest
  rw [chunkBytes, List.flatMap_cons, List.append_assoc, ← chunkBytes, readRuntimeInput,
    readFrame_eq_ok_iff.mpr ⟨hva, rfl⟩]
  dsimp only
  rw [hraw, decodeSemanticIpcFrame, hch]
  simp [hde, hty, chunkFrame]

/-- The chunks of a message of the runtime reach the host as what it decodes from the payload. -/
theorem readIPCLoop_chunks (hde : G.decode payload = some v)
    (hty : runtimeSemanticFrameType (G.frameType v) = some frameType) :
    ReadAs (readIPCLoop digest G)
      (chunkBytes frameType (semanticIPCRequestID digest (G.requestId v)) cs) (.semantic v) := by
  refine ⟨fun rest => ?_⟩
  have hid := semanticIPCRequestID_ne_zero digest (G.requestId v)
  have hb := hti.chunk_bounds (by rw [FitsFrom]; omega)
  obtain ⟨c, cs, rfl⟩ := hti.exists_cons
  obtain ⟨hin, hbo⟩ := hb c List.mem_cons_self
  have hva := (validateFrame_iff_validateIPCFrame.mp
    (validateFrame_chunkFrame frameType hid hin hbo)).1
  have hraw := isRuntimeIO_chunkFrame hty (semanticIPCRequestID digest (G.requestId v)) c
  have hch : readSemanticIPCBytes
      (chunkFrame frameType (semanticIPCRequestID digest (G.requestId v)) c).toIPC
      (chunkBytes frameType (semanticIPCRequestID digest (G.requestId v)) cs ++ rest) =
        .ok (payload, rest) :=
    goChunkReader_reads.read frameType hid hti hlen rest
  rw [chunkBytes, List.flatMap_cons, List.append_assoc, ← chunkBytes, readIPCLoop,
    readIPCFrame_eq_ok_iff.mpr ⟨hva, rfl⟩]
  dsimp only
  rw [show (chunkFrame frameType _ c).toIPC.type = frameType.code from rfl, hraw,
    readRuntimeSemanticIPCFrame, hch]
  simp [hde, hty, chunkFrame, Frame.toIPC]

end

theorem readRuntimeInput_raw (h : HostRaw f) :
    ReadAs (readRuntimeInput digest R) f.toIPC.encode (.raw f) := by
  refine ⟨fun rest => ?_⟩
  have hraw : isRawIoResultFrame f = true := by
    obtain ⟨-, hty | hty | hty | hty | ⟨hty, hna⟩⟩ := h
    all_goals rw [isRawIoResultFrame, hty]
    exact (probes_of_namesInvocation hna).1
  rw [readRuntimeInput, readFrame_eq_ok_iff.mpr ⟨h.1, rfl⟩]
  dsimp only
  rw [hraw, if_pos rfl]

theorem readIPCLoop_raw (h : RuntimeRaw f) :
    ReadAs (readIPCLoop digest G) f.toIPC.encode (.raw f.toIPC) := by
  refine ⟨fun rest => ?_⟩
  obtain ⟨-, -, hbo, -⟩ := validateFrame_eq_ok_iff.mp h.1
  have hraw : (isRuntimeIORequestFrame f.toIPC.type || isRuntimeIOControlRequestFrame f.toIPC) =
      true := by
    have htype : f.toIPC.type = f.frameType.code := rfl
    obtain ⟨-, hty | hty | hty | hty | ⟨hty, hfl, hne, hna⟩⟩ := h
    iterate 4
      · rw [htype, hty]
        rfl
    · have hco : isRuntimeIOControlRequestFrame f.toIPC = invocationProbe f.metadata := by
        apply if_neg
        simp only [Frame.toIPC, hty, hfl, ne_eq, not_true_eq_false, false_or,
          List.length_eq_zero_iff, hne]
        omega
      rw [hco, (probes_of_namesInvocation hna).2, Bool.or_true]
  have hva := (validateFrame_iff_validateIPCFrame.mp h.1).1
  rw [readIPCLoop, readIPCFrame_eq_ok_iff.mpr ⟨hva, rfl⟩]
  dsimp only
  rw [hraw, if_pos rfl]

theorem splitLine_append {line} (h : 10 ∉ line) (rest : List UInt8) :
    splitLine (line ++ 10 :: rest) = some (line, rest) := by
  induction line with
  | nil => rfl
  | cons b line ih =>
    rw [List.mem_cons, not_or] at h
    rw [List.cons_append, splitLine, if_neg (Ne.symm h.1), ih h.2]
    rfl

/-- A line that comes whole is sent whole, and nothing stays pending. -/
theorem writeLine_eq {frames} (hne : payload ≠ []) (hli : 10 ∉ payload)
    (htr : trim payload = payload) (hde : G.decode payload = some v)
    (hty : hostSemanticFrameType (G.frameType v) = some frameType)
    (hwrite : writeSemanticIPCFrame frameType.code (semanticIPCRequestID digest (G.requestId v))
      payload = .ok frames) :
    writeLine digest G trim [] (payload ++ [10]) = ⟨frames, [], none⟩ := by
  have hle : payload.length ≠ 0 := by simpa using hne
  rw [writeLine, List.nil_append, writeLines, splitLine_append hli]
  dsimp only
  rw [htr, if_neg hle]
  simp only [hde, hty, hwrite]
  rw [List.length_append, List.length_singleton, writeLines]
  rfl

theorem readRuntimeInput_hostBytes (h : HostMessage trim G R m) :
    ∃ a, Delivers some id m a ∧ ReadAs (readRuntimeInput digest R)
      (hostBytes digest trim G m) a := by
  cases m with
  | semantic =>
    obtain ⟨⟨hne, hlen, v, w, frameType, hv, hw, hty, hids, htyp⟩, hli, htr⟩ := h
    obtain ⟨cs, hti, hwrite⟩ := exists_writeSemanticIPCFrame frameType
      (semanticIPCRequestID_ne_zero digest (G.requestId v)) hne hlen
    refine ⟨_, .semantic rfl, ?_⟩
    rw [hostBytes, writeLine_eq hne hli htr hv htyp hwrite, hids]
    exact readRuntimeInput_chunks hti hlen hw (hty ▸ htyp)
  | raw f =>
    have hwrite := writeIPCFrame_eq_ok_iff.mpr ⟨(validateFrame_iff_validateIPCFrame.mp h.1).1, rfl⟩
    refine ⟨_, .raw f, ?_⟩
    rw [hostBytes, hwrite]
    exact readRuntimeInput_raw h

theorem readIPCLoop_runtimeBytes (h : RuntimeMessage G R m) :
    ∃ a, Delivers G.decode Frame.toIPC m a ∧
      ReadAs (readIPCLoop digest G) (runtimeBytes digest R m) a := by
  cases m with
  | semantic payload =>
    obtain ⟨hne, hlen, v, w, frameType, hv, hw, hty, hids, htyp⟩ := h
    obtain ⟨cs, hti, hwrite⟩ := exists_writeSemanticIpcBytes frameType
      (semanticIPCRequestID_ne_zero digest (R.requestId w)) hne hlen
    have hfr : writeSemanticIpcFrame digest R payload =
        .ok (chunkBytes frameType (semanticIPCRequestID digest (R.requestId w)) cs) := by
      simp only [writeSemanticIpcFrame, hw, ← hty, htyp, hwrite]
    refine ⟨_, .semantic hv, ?_⟩
    rw [runtimeBytes, hfr, ← hids]
    exact readIPCLoop_chunks hti hlen hv htyp
  | raw f =>
    refine ⟨_, .raw f, ?_⟩
    rw [runtimeBytes, writeFrame_eq_ok_iff.mpr ⟨h.1, rfl⟩]
    exact readIPCLoop_raw h

end Delivery

/-- At the end of every run of the writers `U` that takes the lock for accepted messages only, if
nobody is writing then the reader gets exactly the messages of those who took the lock, in this
order; and any more of them can be written. -/
def Carries (U : Type) [DecidableEq U] {E A : Type} (bytes : Message → List UInt8)
    (read : List UInt8 → Except E (Option (A × List UInt8))) (D : Message → A → Prop)
    (accepted : Message → Prop) : Prop :=
  ∀ s tr, (LockedOutput.system (W := U) bytes).init s → (LockedOutput.system bytes).Run s tr →
    (∀ x ∈ acquired (labels tr), accepted x.2) →
    ((last s tr).held = none → ∃ as, List.Forall₂ (fun x => D x.2) (acquired (labels tr)) as ∧
      ∀ n, (acquired (labels tr)).length < n → receive read n (last s tr).out = .ok as) ∧
    ∀ more, ∃ tr', (LockedOutput.system bytes).Run (last s tr) tr' ∧
      acquired (labels tr') = more ∧ (last (last s tr) tr').held = none

theorem carries_of_readAs {U E A : Type} [DecidableEq U] {bytes : Message → List UInt8}
    {read : List UInt8 → Except E (Option (A × List UInt8))} {D : Message → A → Prop}
    {accepted : Message → Prop} (hend : read [] = .ok none)
    (hread : ∀ m, accepted m → ∃ a, D m a ∧ ReadAs read (bytes m) a) :
    Carries U bytes read D accepted := by
  intro s tr hs hr haccepted
  refine ⟨fun hfree => ?_, exists_write bytes (last s tr)⟩
  rw [out_eq_flatMap hs hr hfree]
  exact receive_flatMap hend fun x hx => hread x.2 (haccepted x hx)

/-- What concurrent writers of either side send under the lock, the reader of the other side gets
byte for byte and in the order of the lock. -/
theorem messages_delivered (digest : String → UInt64) (trim : List UInt8 → List UInt8)
    (U : Type) {V W : Type} [DecidableEq U] (G : SemanticDecoder V) (R : SemanticDecoder W) :
    Carries U (hostBytes digest trim G) (readRuntimeInput digest R) (Delivers some id)
        (HostMessage trim G R) ∧
      Carries U (runtimeBytes digest R) (readIPCLoop digest G) (Delivers G.decode Frame.toIPC)
        (RuntimeMessage G R) :=
  ⟨carries_of_readAs rfl fun _ => readRuntimeInput_hostBytes,
    carries_of_readAs rfl fun _ => readIPCLoop_runtimeBytes⟩

def sampleDecoder : SemanticDecoder Unit := ⟨fun _ => some (), fun _ => "heartbeat", fun _ => "r"⟩

def sampleFrame (type : FrameType) : Frame := ⟨type, 0, 1, [123, 125], [7]⟩

/-- On either side one writer sends a payload of exactly one chunk and another one a raw frame. -/
theorem messages_delivered_chunk :
    ∃ payload : List UInt8, payload.length = 64 * 1024 ∧
      (∃ tr, (LockedOutput.system (hostBytes (fun _ => 1) id sampleDecoder)).Run ⟨[], none⟩ tr ∧
        acquired (labels tr) =
          [(true, .semantic payload), (false, .raw (sampleFrame .ioReadResult))] ∧
        receive (readRuntimeInput (fun _ => 1) sampleDecoder) 3 (last ⟨[], none⟩ tr).out =
          .ok [.semantic payload, .raw (sampleFrame .ioReadResult)]) ∧
      ∃ tr, (LockedOutput.system (runtimeBytes (fun _ => 1) sampleDecoder)).Run ⟨[], none⟩ tr ∧
        acquired (labels tr) = [(true, .semantic payload), (false, .raw (sampleFrame .ioRead))] ∧
        receive (readIPCLoop (fun _ => 1) sampleDecoder) 3 (last ⟨[], none⟩ tr).out =
          .ok [.semantic (), .raw (sampleFrame .ioRead).toIPC] := by
  obtain ⟨payload, hlen, hline⟩ : ∃ p : List UInt8, p.length = 64 * 1024 ∧ 10 ∉ p :=
    ⟨List.replicate (64 * 1024) 97, List.length_replicate,
      fun h => absurd (List.eq_of_mem_replicate h) (by decide)⟩
  have hse (table) (h : table "heartbeat" = some FrameType.heartbeat) :
      Semantic sampleDecoder sampleDecoder table payload :=
    ⟨List.ne_nil_of_length_pos (by omega), by rw [hlen]; decide, (), (), _, rfl, rfl, rfl, rfl, h⟩
  have hraw (type) (h : type = .ioReadResult ∨ type = .ioRead) :
      validateFrame (sampleFrame type) = .ok () := by
    rcases h with rfl | rfl <;> decide +kernel
  obtain ⟨hhost, hruntime⟩ := messages_delivered (fun _ => 1) id Bool sampleDecoder sampleDecoder
  refine ⟨payload, hlen, ?_, ?_⟩
  · obtain ⟨tr, hr, hac, hfree⟩ := (hhost _ [] rfl trivial (by simp [acquired])).2
      [(true, .semantic payload), (false, .raw (sampleFrame .ioReadResult))]
    obtain ⟨_, has, hre⟩ := (hhost _ tr rfl hr (by
      rw [hac, List.forall_mem_cons, List.forall_mem_singleton]
      exact ⟨⟨hse _ rfl, hline, rfl⟩, hraw _ (.inl rfl), .inl rfl⟩)).1 hfree
    rw [hac] at has hre
    obtain - | ⟨⟨⟨⟩⟩, - | ⟨⟨⟩, ⟨⟩⟩⟩ := has
    exact ⟨tr, hr, hac, hre 3 (by simp)⟩
  · obtain ⟨tr, hr, hac, hfree⟩ := (hruntime _ [] rfl trivial (by simp [acquired])).2
      [(true, .semantic payload), (false, .raw (sampleFrame .ioRead))]
    obtain ⟨_, has, hre⟩ := (hruntime _ tr rfl hr (by
      rw [hac, List.forall_mem_cons, List.forall_mem_singleton]
      exact ⟨hse _ rfl, hraw _ (.inr rfl), .inl rfl⟩)).1 hfree
    rw [hac] at has hre
    obtain - | ⟨⟨-⟩, - | ⟨⟨⟩, ⟨⟩⟩⟩ := has
    exact ⟨tr, hr, hac, hre 3 (by simp)⟩

end RedevPlugin.Wire
