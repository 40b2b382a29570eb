import RedevPlugin.Wire.Streams

/-! Semantic messages in chunks. A message of up to 1 MiB is written as frames with at
most 64 KiB of it each. An envelope in the metadata numbers the frames of a message,
a flag marks them as chunks and another one says that more follow. A reader goes on
to read frames until a chunk comes without that flag. -/

namespace RedevPlugin.Wire

open Bytes
open Json hiding Unit

def semanticChunkedFlag : UInt16 := 0x8000

def semanticMoreFlag : UInt16 := 0x4000

/-! ### Envelopes -/

structure ChunkEnvelope where
  encoding : String
  index : ℕ
  deriving DecidableEq

def semanticEncoding : String := "semantic_json"

/-- The text that both sides write for an envelope. -/
def envelopeText (index : ℕ) : String :=
  "\x7b\"encoding\":\"" ++ semanticEncoding ++ "\",\"index\":" ++ toString index ++ "\x7d"

def envelopeBytes (index : ℕ) : List UInt8 := utf8 (envelopeText index)

def unsignedBelow (bound : ℕ) (n : NumberLexeme) : Option ℕ :=
  if n.negative || n.fraction.isSome || n.exponent.isSome then none
  else if n.integer < bound then some n.integer
  else none

/-- `decodeStrictJSON` into an envelope. A field that is missing or `null` keeps its zero value. -/
def goEnvelopeFields : List String → ChunkEnvelope → List (List StringPart × Tree) →
    Option ChunkEnvelope
  | _, envelope, [] => some envelope
  | seen, envelope, (k, v) :: ms =>
    let key := decodedText k
    if key ∈ seen then none
    else if key = "encoding" then
      match v with
      | .string s => goEnvelopeFields (key :: seen) { envelope with encoding := decodedText s } ms
      | .null => goEnvelopeFields (key :: seen) envelope ms
      | _ => none
    else if key = "index" then
      match v with
      | .number n =>
        (unsignedBelow (2 ^ 32) n).bind fun index =>
          goEnvelopeFields (key :: seen) { envelope with index } ms
      | .null => goEnvelopeFields (key :: seen) envelope ms
      | _ => none
    else none

def goEnvelope (metadata : List UInt8) : Option ChunkEnvelope :=
  (decodeUtf8 metadata).bind fun text =>
    match parse text with
    | some (.object ms) => goEnvelopeFields [] ⟨"", 0⟩ ms
    | some .null => some ⟨"", 0⟩
    | _ => none

/-- The derived reader of the runtime: every field once, in any order, and no other. -/
def rustEnvelopeFields : Option String → Option ℕ → List (List StringPart × Tree) →
    Option ChunkEnvelope
  | some encoding, some index, [] => some ⟨encoding, index⟩
  | _, _, [] => none
  | encoding, index, (k, v) :: ms =>
    match rustReader.string k, v with
    | some "encoding", .string s =>
      if encoding.isSome then none
      else (rustReader.string s).bind fun text => rustEnvelopeFields (some text) index ms
    | some "index", .number n =>
      if index.isSome then none
      else (unsignedBelow (2 ^ 32) n).bind fun i => rustEnvelopeFields encoding (some i) ms
    | _, _ => none

def rustEnvelope (metadata : List UInt8) : Option ChunkEnvelope :=
  (decodeUtf8 metadata).bind fun text =>
    match parse text with
    | some (.object ms) => rustEnvelopeFields none none ms
    | some (.array [.string s, .number n]) =>
      (rustReader.string s).bind fun encoding =>
        (unsignedBelow (2 ^ 32) n).map fun index => ⟨encoding, index⟩
    | _ => none

def maxChunks : ℕ := 16

variable {index offset fuel : ℕ} {payload semantic rest result : List UInt8} {requestId : UInt64}
  {frameType : FrameType}

theorem envelope_read (h : index < maxChunks) :
    goEnvelope (envelopeBytes index) = some ⟨semanticEncoding, index⟩ ∧
    rustEnvelope (envelopeBytes index) = some ⟨semanticEncoding, index⟩ ∧
    validateMetadata (envelopeBytes index) = .ok () := by
  change index < 16 at h
  interval_cases index <;> decide +kernel

theorem length_envelopeBytes (h : index < maxChunks) :
    (envelopeBytes index).length ≤ controlMetadataMax := by
  change index < 16 at h
  interval_cases index <;> decide +kernel

/-! ### Chunks -/

structure Chunk where
  index : ℕ
  more : Bool
  body : List UInt8

def chunkFlags (more : Bool) : UInt16 :=
  if more then semanticChunkedFlag ||| semanticMoreFlag else semanticChunkedFlag

def chunkFrame (frameType : FrameType) (requestId : UInt64) (c : Chunk) : Frame :=
  ⟨frameType, chunkFlags c.more, requestId, envelopeBytes c.index, c.body⟩

/-- The loop of `writeSemanticIPCFrame`; its first argument bounds the number of rounds. -/
def goChunks (semantic : List UInt8) : ℕ → ℕ → ℕ → List Chunk
  | 0, _, _ => []
  | fuel + 1, index, offset =>
    if offset < semantic.length then
      let stop := min (offset + bodyMax) semantic.length
      ⟨index, stop < semantic.length, slice semantic offset stop⟩ ::
        goChunks semantic fuel (index + 1) stop
    else []

def chunks (size : ℕ) : ℕ → List UInt8 → List (List UInt8)
  | 0, _ => []
  | _ + 1, [] => []
  | fuel + 1, b :: bs => (b :: bs).take size :: chunks size fuel ((b :: bs).drop size)

/-- The loop of `write_semantic_ipc_bytes`. -/
def rustChunks (semantic : List UInt8) : List Chunk :=
  (chunks bodyMax semantic.length semantic).zipIdx.map fun (chunk, index) =>
    ⟨index, index * bodyMax + chunk.length < semantic.length, chunk⟩

/-- The chunks of a payload from a number on: none is empty or too long, and all but the last one
say that more follow. -/
inductive Tiles : ℕ → List UInt8 → List Chunk → Prop
  | last {index body} (hne : body ≠ []) (hlen : body.length ≤ bodyMax) :
    Tiles index body [⟨index, false, body⟩]
  | more {index body rest cs} (hlen : body.length = bodyMax) (h : Tiles (index + 1) rest cs) :
    Tiles index (body ++ rest) (⟨index, true, body⟩ :: cs)

variable {cs : List Chunk} {c : Chunk}

/-- Taking a chunk from the front of what is left. -/
theorem Tiles.cons (hne : payload ≠ [])
    (h : bodyMax < payload.length → Tiles (index + 1) (payload.drop bodyMax) cs)
    (hla : payload.length ≤ bodyMax → cs = []) :
    Tiles index payload (⟨index, bodyMax < payload.length, payload.take bodyMax⟩ :: cs) := by
  by_cases hlen : bodyMax < payload.length
  · have hti := Tiles.more (List.length_take_of_le hlen.le) (h hlen)
    simpa [hlen] using hti
  · rw [hla (by omega), List.take_of_length_le (by omega)]
    have hti : Tiles index payload [⟨index, false, payload⟩] := .last hne (by omega)
    simpa [hlen] using hti

theorem goChunks_of_le (h : semantic.length ≤ offset) (fuel index : ℕ) :
    goChunks semantic fuel index offset = [] := by
  cases fuel with
  | zero => rfl
  | succ fuel => rw [goChunks, if_neg (by omega)]

theorem tiles_goChunks (hof : offset < semantic.length) (hfu : semantic.length - offset ≤ fuel) :
    Tiles index (semantic.drop offset) (goChunks semantic fuel index offset) := by
  induction fuel generalizing index offset with
  | zero => omega
  | succ fuel ih =>
    have hle : (semantic.drop offset).length = semantic.length - offset := List.length_drop
    have hbo : slice semantic offset (min (offset + bodyMax) semantic.length) =
        (semantic.drop offset).take bodyMax := by
      rw [slice, ← List.take_take, List.take_length, List.drop_take, Nat.add_sub_cancel_left]
    have hmo : decide (min (offset + bodyMax) semantic.length < semantic.length) =
        decide (bodyMax < (semantic.drop offset).length) := by
      rw [hle, decide_eq_decide]
      omega
    rw [goChunks, if_pos hof]
    dsimp only
    rw [hbo, hmo]
    apply Tiles.cons
    · intro hnil
      rw [hnil] at hle
      simp at hle
      omega
    · intro hlo
      have hsto : min (offset + bodyMax) semantic.length = offset + bodyMax := by omega
      rw [hsto, List.drop_drop]
      exact ih (by omega) (by rw [bodyMax] at *; omega)
    · intro hsh
      exact goChunks_of_le (by omega) _ _

theorem tiles_zipIdx_chunks {n} (hne : rest ≠ []) (hfu : rest.length ≤ fuel)
    (hn : index * bodyMax + rest.length = n) :
    Tiles index rest (((chunks bodyMax fuel rest).zipIdx index).map fun (chunk, index) =>
      ⟨index, index * bodyMax + chunk.length < n, chunk⟩) := by
  induction fuel generalizing index rest with
  | zero => exact absurd (List.length_eq_zero_iff.mp (by omega)) hne
  | succ fuel ih =>
    obtain ⟨b, bs, rfl⟩ := List.exists_cons_of_ne_nil hne
    have hmo : decide (index * bodyMax + ((b :: bs).take bodyMax).length < n) =
        decide (bodyMax < (b :: bs).length) := by
      rw [List.length_take, decide_eq_decide]
      omega
    rw [chunks, List.zipIdx_cons, List.map_cons]
    dsimp only
    rw [hmo]
    apply Tiles.cons hne
    · intro hlo
      have hdr : ((b :: bs).drop bodyMax).length = (b :: bs).length - bodyMax := List.length_drop
      apply ih
      · intro hnil
        rw [hnil] at hdr
        simp only [List.length_nil] at hdr
        omega
      · rw [hdr]
        rw [bodyMax] at *
        omega
      · rw [hdr, Nat.succ_mul]
        omega
    · intro hsh
      rw [List.drop_eq_nil_of_le hsh]
      cases fuel <;> rfl

theorem tiles_rustChunks (hne : semantic ≠ []) : Tiles 0 semantic (rustChunks semantic) :=
  tiles_zipIdx_chunks hne le_rfl (by omega)

/-! ### Writers -/

/-- The bytes of frames that are written in a row. -/
def writeAll {F : Type} (write : F → Except CodecError (List UInt8)) :
    List F → Except CodecError (List UInt8)
  | [] => .ok []
  | f :: fs =>
    match write f with
    | .error e => .error e
    | .ok bytes => (writeAll write fs).map (bytes ++ ·)

def writeSemanticIPCFrame (frameType : UInt8) (requestId : UInt64) (semantic : List UInt8) :
    Except CodecError (List UInt8) :=
  if semantic.length = 0 ∨ invokeMetadataMax < semantic.length then .error .tooLarge
  else
    writeAll writeIPCFrame ((goChunks semantic semantic.length 0 0).map fun c =>
      ⟨frameType, chunkFlags c.more, requestId, envelopeBytes c.index, c.body⟩)

inductive SemanticError where
  | text (message : String)
  | codec (e : CodecError)

/-- The index and the offset of a chunk do not overflow: there are at most 16 of them. -/
def writeSemanticIpcBytes (frameType : FrameType) (requestId : UInt64) (semantic : List UInt8) :
    Except SemanticError (List UInt8) :=
  if semantic = [] ∨ invokeMetadataMax < semantic.length then
    .error (.text "semantic IPC chunk payload exceeds limit")
  else
    match writeAll writeFrame ((rustChunks semantic).map (chunkFrame frameType requestId)) with
    | .ok bytes => .ok bytes
    | .error e => .error (.codec e)

/-! ### Readers -/

/-- A reader of chunks over frames `F`, with its errors. -/
structure ChunkReader (F E : Type) where
  frame : F → IPCFrame
  next : List UInt8 → Except E (F × List UInt8)
  envelope : List UInt8 → Option ChunkEnvelope
  (placementError flagsError envelopeError sequenceError sizeError identityError : E)

namespace ChunkReader

variable {F E : Type} (R : ChunkReader F E)

/-- The loop of a reader: the current frame, its number, what was read, and the stream. The first
argument bounds the number of rounds. -/
def collect (first : F) :
    ℕ → F → ℕ → List UInt8 → List UInt8 → Except E (List UInt8 × List UInt8)
  | 0, _, _, _, _ => .error R.identityError
  | fuel + 1, frame, index, result, stream =>
    if (R.frame frame).flags &&& ~~~(semanticChunkedFlag ||| semanticMoreFlag) ≠ 0 ∨
        (R.frame frame).body = [] then .error R.flagsError
    else match R.envelope (R.frame frame).metadata with
      | none => .error R.envelopeError
      | some envelope =>
        if envelope.encoding ≠ semanticEncoding ∨ envelope.index ≠ index then
          .error R.sequenceError
        else if invokeMetadataMax - (R.frame frame).body.length < result.length then
          .error R.sizeError
        else if (R.frame frame).flags &&& semanticMoreFlag = 0 then
          .ok (result ++ (R.frame frame).body, stream)
        else match R.next stream with
          | .error e => .error e
          | .ok (next, stream) =>
            if (R.frame next).type ≠ (R.frame first).type ∨
                (R.frame next).requestId ≠ (R.frame first).requestId ∨
                (R.frame next).flags &&& semanticChunkedFlag = 0 then .error R.identityError
            else collect first fuel next (index + 1) (result ++ (R.frame frame).body) stream

/-- Every frame takes bytes from the stream. -/
def read (first : F) (stream : List UInt8) : Except E (List UInt8 × List UInt8) :=
  if (R.frame first).flags &&& semanticChunkedFlag = 0 then .error R.placementError
  else R.collect first (stream.length + 1) first 0 [] stream

end ChunkReader

def goChunkReader : ChunkReader IPCFrame CodecError where
  frame := id
  next stream := (readIPCFrame stream).result
  envelope := goEnvelope
  placementError := .protocol "semantic frame placement"
  flagsError := .protocol "semantic chunk flags"
  envelopeError := .protocol "semantic chunk envelope"
  sequenceError := .protocol "semantic chunk envelope"
  sizeError := .tooLarge
  identityError := .protocol "semantic chunk identity"

def readSemanticIPCBytes (first : IPCFrame) (stream : List UInt8) :
    Except CodecError (List UInt8 × List UInt8) :=
  goChunkReader.read first stream

def rustChunkReader (label : String) : ChunkReader Frame SemanticError where
  frame := Frame.toIPC
  next stream := match (readFrame stream).result with
    | .ok r => .ok r
    | .error e => .error (.codec e)
  envelope := rustEnvelope
  placementError := .text (label ++ " has invalid semantic frame placement")
  flagsError := .text (label ++ " has invalid semantic chunk flags")
  envelopeError := .text (label ++ " has invalid semantic chunk envelope")
  sequenceError := .text (label ++ " has invalid semantic chunk sequence")
  sizeError := .text (label ++ " semantic chunk payload exceeds limit")
  identityError := .text (label ++ " semantic chunk identity mismatch")

def readSemanticIpcBytes (label : String) (first : Frame) (stream : List UInt8) :
    Except SemanticError (List UInt8 × List UInt8) :=
  (rustChunkReader label).read first stream

/-! ### What is written is read -/

/-- The payload fits into a message behind the chunks in front. -/
def FitsFrom (index : ℕ) (payload : List UInt8) : Prop :=
  index * bodyMax + payload.length ≤ invokeMetadataMax

theorem Tiles.chunk_bounds (h : Tiles index payload cs) (hfits : FitsFrom index payload) :
    ∀ c ∈ cs, c.index < maxChunks ∧ c.body.length ≤ bodyMax := by
  rw [FitsFrom, bodyMax, invokeMetadataMax] at hfits
  induction h with
  | @last index _ hne hlen =>
    have hpos := List.length_pos_iff.mpr hne
    have hin : index < maxChunks := by
      rw [maxChunks]
      omega
    rw [List.forall_mem_singleton]
    exact ⟨hin, hlen⟩
  | @more index body rest _ hlen _ ih =>
    have hbo : body.length = 64 * 1024 := hlen
    rw [List.length_append] at hfits
    have hin : index < maxChunks := by
      rw [maxChunks]
      omega
    have hre : (index + 1) * (64 * 1024) + rest.length ≤ 1024 * 1024 := by
      rw [Nat.succ_mul, Nat.add_assoc, ← hbo]
      rwa [← hbo] at hfits
    have hcs := ih hre
    rw [List.forall_mem_cons]
    exact ⟨⟨hin, hlen.le⟩, hcs⟩

theorem validateFrame_chunkFrame (frameType : FrameType) (hid : requestId ≠ 0)
    (hin : c.index < maxChunks) (hbo : c.body.length ≤ bodyMax) :
    validateFrame (chunkFrame frameType requestId c) = .ok () := by
  have hlimit : controlMetadataMax ≤ frameType.metadataLimit := by
    rw [FrameType.metadataLimit]
    split_ifs
    · simp [controlMetadataMax, invokeMetadataMax]
    · exact le_rfl
  have hme := validateMetadata_eq_ok_iff.mp (envelope_read hin).2.2
  exact validateFrame_eq_ok_iff.mpr ⟨hid, (length_envelopeBytes hin).trans hlimit, hbo, hme⟩

def chunkBytes (frameType : FrameType) (requestId : UInt64) (cs : List Chunk) : List UInt8 :=
  cs.flatMap fun c => (chunkFrame frameType requestId c).toIPC.encode

theorem Tiles.writeAll_eq {F : Type} {write} (embed : Frame → F)
    (hwrite : ∀ f, validateFrame f = .ok () → write (embed f) = .ok f.toIPC.encode)
    (frameType : FrameType) (hid : requestId ≠ 0) (h : Tiles 0 payload cs)
    (hlen : payload.length ≤ invokeMetadataMax) :
    writeAll write (cs.map fun c => embed (chunkFrame frameType requestId c)) =
      .ok (chunkBytes frameType requestId cs) := by
  have hb := h.chunk_bounds (by rw [FitsFrom]; omega)
  clear h
  induction cs with
  | nil => rfl
  | cons c cs ih =>
    rw [List.forall_mem_cons] at hb
    have hva := validateFrame_chunkFrame frameType hid hb.1.1 hb.1.2
    rw [List.map_cons, writeAll, hwrite _ hva, ih hb.2]
    rfl

theorem exists_writeSemanticIPCFrame (frameType : FrameType) (hid : requestId ≠ 0)
    (hne : semantic ≠ []) (hlen : semantic.length ≤ invokeMetadataMax) :
    ∃ cs, Tiles 0 semantic cs ∧
      writeSemanticIPCFrame frameType.code requestId semantic =
        .ok (chunkBytes frameType requestId cs) := by
  have hpos := List.length_pos_iff.mpr hne
  have hti : Tiles 0 (semantic.drop 0) (goChunks semantic semantic.length 0 0) :=
    tiles_goChunks hpos le_rfl
  refine ⟨_, hti, ?_⟩
  rw [writeSemanticIPCFrame, if_neg (by omega)]
  refine hti.writeAll_eq Frame.toIPC (fun f hf => ?_) frameType hid hlen
  exact writeIPCFrame_eq_ok_iff.mpr ⟨(validateFrame_iff_validateIPCFrame.mp hf).1, rfl⟩

theorem exists_writeSemanticIpcBytes (frameType : FrameType) (hid : requestId ≠ 0)
    (hne : semantic ≠ []) (hlen : semantic.length ≤ invokeMetadataMax) :
    ∃ cs, Tiles 0 semantic cs ∧
      writeSemanticIpcBytes frameType requestId semantic =
        .ok (chunkBytes frameType requestId cs) := by
  have hti := tiles_rustChunks hne
  have hwrite : writeAll writeFrame ((rustChunks semantic).map (chunkFrame frameType requestId)) =
      .ok (chunkBytes frameType requestId (rustChunks semantic)) :=
    hti.writeAll_eq id (fun f hf => writeFrame_eq_ok_iff.mpr ⟨hf, rfl⟩) frameType hid hlen
  refine ⟨_, hti, ?_⟩
  rw [writeSemanticIpcBytes, if_neg (not_or.mpr ⟨hne, by omega⟩), hwrite]

structure ReadsFrames {F E : Type} (R : ChunkReader F E) (embed : Frame → F) : Prop where
  frame : ∀ f, R.frame (embed f) = f.toIPC
  next : ∀ f rest, validateFrame f = .ok () → R.next (f.toIPC.encode ++ rest) = .ok (embed f, rest)
  envelope : ∀ index < maxChunks, R.envelope (envelopeBytes index) = some ⟨semanticEncoding, index⟩

variable {F E : Type} {R : ChunkReader F E} {embed : Frame → F}

theorem ReadsFrames.collect_chunk (hR : ReadsFrames R embed) {first stream}
    (hin : c.index < maxChunks) (hne : c.body ≠ [])
    (hsi : result.length + c.body.length ≤ invokeMetadataMax) :
    R.collect first (fuel + 1) (embed (chunkFrame frameType requestId c)) c.index result stream =
      if c.more then
        match R.next stream with
        | .error e => .error e
        | .ok (next, stream) =>
          if (R.frame next).type ≠ (R.frame first).type ∨
              (R.frame next).requestId ≠ (R.frame first).requestId ∨
              (R.frame next).flags &&& semanticChunkedFlag = 0 then .error R.identityError
          else R.collect first fuel next (c.index + 1) (result ++ c.body) stream
      else .ok (result ++ c.body, stream) := by
  have hfl : ∀ more, chunkFlags more &&& ~~~(semanticChunkedFlag ||| semanticMoreFlag) = 0 := by
    decide
  have hbad : ¬ (chunkFlags c.more &&& ~~~(semanticChunkedFlag ||| semanticMoreFlag) ≠ 0 ∨
      c.body = []) := by
    rw [hfl]
    simpa using hne
  have hla : ¬ invokeMetadataMax - c.body.length < result.length := by omega
  have hmo : chunkFlags c.more &&& semanticMoreFlag = 0 ↔ ¬ c.more = true := by
    cases c.more <;> decide
  rw [ChunkReader.collect, hR.frame]
  simp only [chunkFrame, Frame.toIPC, if_neg hbad, hR.envelope _ hin, ne_eq, not_true_eq_false,
    or_self, if_false, if_neg hla, hmo, ite_not]

theorem Tiles.exists_cons (h : Tiles index payload cs) : ∃ c rest, cs = c :: rest := by
  cases h <;> exact ⟨_, _, rfl⟩

theorem ReadsFrames.collect (hR : ReadsFrames R embed) (hid : requestId ≠ 0) {first}
    (hfi : (R.frame first).type = frameType.code) (hfir : (R.frame first).requestId = requestId)
    (hti : Tiles index payload (c :: cs)) (hfits : FitsFrom index payload)
    (hre : result.length = index * bodyMax) (hfu : cs.length < fuel) :
    R.collect first fuel (embed (chunkFrame frameType requestId c)) index result
      (chunkBytes frameType requestId cs ++ rest) = .ok (result ++ payload, rest) := by
  have hch : ∀ more, ¬ chunkFlags more &&& semanticChunkedFlag = 0 := by decide
  induction cs generalizing c index payload result fuel with
    obtain ⟨fuel, rfl⟩ : ∃ n, fuel = n + 1 := ⟨fuel - 1, by omega⟩
  | nil =>
    have hb := hti.chunk_bounds hfits
    cases hti with
    | last hne =>
      have hsi : result.length + payload.length ≤ invokeMetadataMax := hre ▸ hfits
      exact hR.collect_chunk (c := ⟨index, false, payload⟩) (hb _ List.mem_cons_self).1 hne hsi
    | more _ h =>
      obtain ⟨_, _, hco⟩ := h.exists_cons
      cases hco
  | cons c' cs ih =>
    have hb := hti.chunk_bounds hfits
    cases hti with
    | @more _ body payload _ hlen h =>
      have hne : body ≠ [] := by
        rintro rfl
        cases hlen
      have hstep : FitsFrom (index + 1) payload := by
        rw [FitsFrom, List.length_append] at hfits
        rw [FitsFrom, Nat.succ_mul]
        omega
      have hsi : result.length + body.length ≤ invokeMetadataMax := by
        rw [FitsFrom, List.length_append] at hfits
        omega
      have hva : validateFrame (chunkFrame frameType requestId c') = .ok () :=
        have hc' := hb c' (by simp)
        validateFrame_chunkFrame frameType hid hc'.1 hc'.2
      have hnext := hR.next (chunkFrame frameType requestId c')
        (chunkBytes frameType requestId cs ++ rest) hva
      have hsame : ¬ ((chunkFrame frameType requestId c').toIPC.type ≠ frameType.code ∨
          (chunkFrame frameType requestId c').toIPC.requestId ≠ requestId ∨
          (chunkFrame frameType requestId c').toIPC.flags &&& semanticChunkedFlag = 0) := by
        simpa [chunkFrame, Frame.toIPC] using hch c'.more
      rw [chunkBytes, List.flatMap_cons, List.append_assoc]
      refine (hR.collect_chunk (c := ⟨index, true, body⟩) (hb _ List.mem_cons_self).1 hne
        hsi).trans ?_
      rw [if_pos rfl, ← chunkBytes, hnext]
      dsimp only
      rw [hR.frame, hfi, hfir, if_neg hsame, ih h hstep, List.append_assoc]
      · rw [List.length_append, hre, hlen, Nat.succ_mul]
      · simpa using hfu

/-- A message in chunks is read as it was written, and what follows is left. -/
theorem ReadsFrames.read (hR : ReadsFrames R embed) (frameType : FrameType)
    (hid : requestId ≠ 0) (hti : Tiles 0 payload (c :: cs))
    (hlen : payload.length ≤ invokeMetadataMax)
    (rest : List UInt8) :
    R.read (embed (chunkFrame frameType requestId c)) (chunkBytes frameType requestId cs ++ rest) =
      .ok (payload, rest) := by
  have hch : ∀ more, ¬ chunkFlags more &&& semanticChunkedFlag = 0 := by decide
  have hfl : ¬ (R.frame (embed (chunkFrame frameType requestId c))).flags &&&
      semanticChunkedFlag = 0 := by
    rw [hR.frame]
    exact hch c.more
  have hco : cs.length ≤ (chunkBytes frameType requestId cs).length :=
    length_le_length_flatMap (fun c => encode_ne_nil _) cs
  rw [ChunkReader.read, if_neg hfl]
  exact hR.collect hid (by rw [hR.frame]; rfl) (by rw [hR.frame]; rfl) hti
    (by rw [FitsFrom]; omega) (by simp) (by rw [List.length_append]; omega)

theorem goChunkReader_reads : ReadsFrames goChunkReader Frame.toIPC where
  frame _ := rfl
  next _ _ h := readIPCFrame_eq_ok_iff.mpr ⟨(validateFrame_iff_validateIPCFrame.mp h).1, rfl⟩
  envelope _ h := (envelope_read h).1

theorem rustChunkReader_reads (label : String) : ReadsFrames (rustChunkReader label) id where
  frame _ := rfl
  next f rest h := by
    have hre : (readFrame (f.toIPC.encode ++ rest)).result = .ok (f, rest) :=
      readFrame_eq_ok_iff.mpr ⟨h, rfl⟩
    simp only [rustChunkReader, hre, id]
  envelope _ h := (envelope_read h).2.1

end RedevPlugin.Wire
