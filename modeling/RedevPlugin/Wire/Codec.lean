import Mathlib.Tactic.IntervalCases
import RedevPlugin.Wire.Decoder

/-! The frame codec. A frame is a header of 19 bytes, the length of the metadata, the
metadata and the body. The host and the runtime have a writer and a reader each,
with the same checks in the same order. -/

namespace RedevPlugin.Wire

open Bytes
open Json hiding Unit

def frameMagic : List UInt8 := [82, 68, 80, 70]

def headerBytes : ℕ := 19

def payloadPrefixBytes : ℕ := 4

def controlMetadataMax : ℕ := 64 * 1024

def invokeMetadataMax : ℕ := 1024 * 1024

def bodyMax : ℕ := 64 * 1024

def frameMax : ℕ := headerBytes + payloadPrefixBytes + invokeMetadataMax + bodyMax

inductive CodecError where
  | io
  | invalid (message : String)
  /-- The metadata is no accepted JSON text. -/
  | invalidMetadata (e : MetadataError)
  | tooLarge
  | protocol (message : String)
  deriving DecidableEq

inductive FrameType where
  | hello
  | helloAck
  | heartbeat
  | invoke
  | invokeResult
  | cancelInvoke
  | cancelAck
  | hostcall
  | hostcallResult
  | ioRead
  | ioReadResult
  | ioWrite
  | ioWriteResult
  | ioSeek
  | ioSeekResult
  | ioClose
  | ioCloseResult
  | executionEvent
  | revokePlugin
  | revokeSession
  | diagnostic
  deriving DecidableEq

namespace FrameType

def code : FrameType → UInt8
  | hello => 1
  | helloAck => 2
  | heartbeat => 3
  | invoke => 4
  | invokeResult => 5
  | cancelInvoke => 6
  | cancelAck => 7
  | hostcall => 8
  | hostcallResult => 9
  | ioRead => 10
  | ioReadResult => 11
  | ioWrite => 12
  | ioWriteResult => 13
  | ioSeek => 14
  | ioSeekResult => 15
  | ioClose => 16
  | ioCloseResult => 17
  | executionEvent => 18
  | revokePlugin => 19
  | revokeSession => 20
  | diagnostic => 21

def tryFrom (value : UInt8) : Except CodecError FrameType :=
  match value.toNat with
  | 1 => .ok hello
  | 2 => .ok helloAck
  | 3 => .ok heartbeat
  | 4 => .ok invoke
  | 5 => .ok invokeResult
  | 6 => .ok cancelInvoke
  | 7 => .ok cancelAck
  | 8 => .ok hostcall
  | 9 => .ok hostcallResult
  | 10 => .ok ioRead
  | 11 => .ok ioReadResult
  | 12 => .ok ioWrite
  | 13 => .ok ioWriteResult
  | 14 => .ok ioSeek
  | 15 => .ok ioSeekResult
  | 16 => .ok ioClose
  | 17 => .ok ioCloseResult
  | 18 => .ok executionEvent
  | 19 => .ok revokePlugin
  | 20 => .ok revokeSession
  | 21 => .ok diagnostic
  | _ => .error (.protocol "unknown frame type")

def metadataLimit (t : FrameType) : ℕ :=
  if t = invoke ∨ t = invokeResult then invokeMetadataMax else controlMetadataMax

theorem tryFrom_code (t : FrameType) : tryFrom t.code = .ok t := by
  cases t <;> rfl

variable {value : UInt8}

theorem tryFrom_eq_ok {t} (h : tryFrom value = .ok t) : t.code = value := by
  apply UInt8.toNat_inj.mp
  unfold tryFrom at h
  split at h <;> cases h <;> simp_all [code]

/-- The types are the bytes from 1 to 21. -/
theorem tryFrom_isOk_iff : (∃ t, tryFrom value = .ok t) ↔ 1 ≤ value.toNat ∧ value.toNat ≤ 21 := by
  constructor
  · rintro ⟨t, ht⟩
    rw [← tryFrom_eq_ok ht]
    cases t <;> decide
  · rintro ⟨hlow, hhi⟩
    unfold tryFrom
    interval_cases value.toNat <;> exact ⟨_, rfl⟩

end FrameType

/-- A frame of the runtime. -/
structure Frame where
  frameType : FrameType
  flags : UInt16
  requestId : UInt64
  metadata : List UInt8
  body : List UInt8

/-- A frame of the host, with any byte for its type. -/
structure IPCFrame where
  type : UInt8
  flags : UInt16
  requestId : UInt64
  metadata : List UInt8
  body : List UInt8

def Frame.toIPC (f : Frame) : IPCFrame :=
  ⟨f.frameType.code, f.flags, f.requestId, f.metadata, f.body⟩

def validateMetadata (raw : List UInt8) : Except CodecError Unit :=
  if raw = [] then .ok ()
  else match decodeUtf8 raw with
    | none => .error (.invalid "metadata is not UTF-8")
    | some text =>
      match deserialize rustReader (lex text).length 0 0 (lex text) with
      | none => .error (.invalid "metadata JSON is invalid")
      | some (_, rest) =>
        if rest = [] then .ok () else .error (.invalid "metadata JSON has trailing values")

def validateFrame (frame : Frame) : Except CodecError Unit :=
  if frame.requestId = 0 then .error (.protocol "request_id 0 is reserved")
  else if frame.frameType.metadataLimit < frame.metadata.length ∨ bodyMax < frame.body.length then
    .error .tooLarge
  else validateMetadata frame.metadata

def validIPCFrameType (t : UInt8) : Bool := FrameType.hello.code ≤ t ∧ t ≤ FrameType.diagnostic.code

def ipcMetadataLimit (t : UInt8) : ℕ :=
  if t = FrameType.invoke.code ∨ t = FrameType.invokeResult.code then invokeMetadataMax
  else controlMetadataMax

def validateIPCMetadata (text : List Char) : Except MetadataError Unit :=
  match consumeIPCJSONValue (lex text).length ⟨lex text, .topValue, []⟩ 0 0 with
  | .error e => .error e
  | .ok (_, d) =>
    match d.token with
    | .error .eof => .ok ()
    | .error e => .error (.decoder e)
    | .ok _ => .error (.text "trailing JSON token")

/-- The last check of `validateIPCFrame`. -/
def validateIPCFrameMetadata (raw : List UInt8) : Except CodecError Unit :=
  if raw = [] then .ok ()
  else match decodeUtf8 raw with
    | none => .error (.invalid "metadata is not UTF-8")
    | some text =>
      match validateIPCMetadata text with
      | .ok _ => .ok ()
      | .error e => .error (.invalidMetadata e)

def validateIPCFrame (frame : IPCFrame) : Except CodecError Unit :=
  if !validIPCFrameType frame.type then
    .error (.protocol ("unknown frame type " ++ toString frame.type.toNat))
  else if frame.requestId = 0 then .error (.protocol "request_id 0 is reserved")
  else if ipcMetadataLimit frame.type < frame.metadata.length ∨ bodyMax < frame.body.length then
    .error .tooLarge
  else validateIPCFrameMetadata frame.metadata

/-- Empty, or the text of one strict value. -/
def AcceptedMetadata (R : Reader) (raw : List UInt8) : Prop :=
  raw = [] ∨ ∃ text v, decodeUtf8 raw = some text ∧ lex text = tokens v ∧ StrictTree R v

variable {raw : List UInt8} {f : Frame}

theorem validateMetadata_eq_ok_iff :
    validateMetadata raw = .ok () ↔ AcceptedMetadata rustReader raw := by
  rw [validateMetadata, AcceptedMetadata]
  by_cases hem : raw = []
  · simp [hem]
  rw [if_neg hem, or_iff_right hem]
  cases decodeUtf8 raw with
  | none => simp
  | some text =>
    have hva : (∃ n, deserialize rustReader (lex text).length 0 0 (lex text) = some (n, [])) ↔ _ :=
      deserialize_all_iff
    simp only [Option.some.injEq, exists_and_left, exists_eq_left']
    rw [← hva]
    cases deserialize rustReader (lex text).length 0 0 (lex text) with
    | none => simp
    | some r => simp [Prod.ext_iff, ite_eq_left_iff]

/-- At the top nothing but the end of the text is the end. -/
theorem token_eq_eof_iff {rest stack} :
    Decoder.token ⟨rest, .topValue, stack⟩ = .error .eof ↔ rest = [] := by
  constructor
  · intro h
    cases rest with
    | nil => rfl
    | cons t ts => cases t <;> cases h
  · rintro rfl
    rfl

theorem validateIPCMetadata_eq_ok_iff {text} :
    validateIPCMetadata text = .ok () ↔ ∃ v, lex text = tokens v ∧ StrictTree goReader v := by
  rw [validateIPCMetadata, ← deserialize_all_iff]
  have hag := (agree (lex text).length).1 0 0 (lex text) .topValue [] rfl
  cases hco : consumeIPCJSONValue (lex text).length ⟨lex text, .topValue, []⟩ 0 0 with
    rw [hco] at hag
  | error =>
    have hnone := Option.map_eq_none_iff.mp hag.symm
    simp [hnone]
  | ok r =>
    obtain ⟨⟨n, rest⟩, hso, hr⟩ := Option.map_eq_some_iff.mp hag.symm
    obtain rfl : (n, (⟨rest, .topValue, []⟩ : Decoder)) = r := hr
    have heof : Decoder.token ⟨rest, .topValue, []⟩ = .error .eof ↔ rest = [] := token_eq_eof_iff
    simp only [hso, Option.some.injEq, Prod.mk.injEq, exists_and_right, exists_eq', true_and]
    rw [← heof]
    cases Decoder.token ⟨rest, .topValue, []⟩ with
    | ok => simp
    | error e => cases e <;> simp

theorem validateIPCFrameMetadata_eq_ok_iff :
    validateIPCFrameMetadata raw = .ok () ↔ AcceptedMetadata goReader raw := by
  rw [validateIPCFrameMetadata, AcceptedMetadata]
  by_cases hem : raw = []
  · simp [hem]
  cases decodeUtf8 raw with
  | none => simp
  | some text =>
    simp only [Option.some.injEq, exists_and_left, exists_eq_left']
    rw [← validateIPCMetadata_eq_ok_iff]
    cases validateIPCMetadata text <;> simp

/-- No escape in the metadata is half a surrogate pair without its other half. -/
def scalarMetadata (raw : List UInt8) : Bool :=
  match decodeUtf8 raw with
  | none => true
  | some text => (lex text).all Token.isScalar

theorem acceptedMetadata_iff :
    AcceptedMetadata rustReader raw ↔
      AcceptedMetadata goReader raw ∧ scalarMetadata raw = true := by
  have htr : ∀ v, StrictTree rustReader v ↔
      StrictTree goReader v ∧ (tokens v).all Token.isScalar = true := by
    intro v
    rw [rustReader_eq]
    constructor
    · rintro ⟨hstr, hde, hno⟩
      obtain ⟨hstr, hsc⟩ := (strict_scalarOnly_iff v).mp hstr
      exact ⟨⟨hstr, hde, hno⟩, hsc⟩
    · rintro ⟨⟨hstr, hde, hno⟩, hsc⟩
      exact ⟨(strict_scalarOnly_iff v).mpr ⟨hstr, hsc⟩, hde, hno⟩
  by_cases hem : raw = []
  · have hsc : scalarMetadata [] = true := by
      have hnil : decodeUtf8 [] = some [] := decodeUtf8_utf8 ""
      rfl
    simp [AcceptedMetadata, hem, hsc]
  simp only [AcceptedMetadata, or_iff_right hem]
  constructor
  · rintro ⟨text, v, hte, hlex, hv⟩
    obtain ⟨hgo, hsc⟩ := (htr v).mp hv
    exact ⟨⟨text, v, hte, hlex, hgo⟩, by simpa [scalarMetadata, hte, hlex] using hsc⟩
  · rintro ⟨⟨text, v, hte, hlex, hv⟩, hsc⟩
    refine ⟨text, v, hte, hlex, (htr v).mpr ⟨hv, ?_⟩⟩
    simpa [scalarMetadata, hte, hlex] using hsc

theorem validIPCFrameType_iff {value} :
    validIPCFrameType value = true ↔ ∃ t, FrameType.tryFrom value = .ok t := by
  rw [FrameType.tryFrom_isOk_iff, validIPCFrameType, decide_eq_true_eq, UInt8.le_iff_toNat_le,
    UInt8.le_iff_toNat_le]
  rfl

theorem ipcMetadataLimit_code (t : FrameType) : ipcMetadataLimit t.code = t.metadataLimit := by
  cases t <;> rfl

/-- The checks of both sides, in other words. -/
structure ValidFrame (R : Reader) (f : Frame) : Prop where
  requestId : f.requestId ≠ 0
  metadataLimit : f.metadata.length ≤ f.frameType.metadataLimit
  bodyLimit : f.body.length ≤ bodyMax
  metadata : AcceptedMetadata R f.metadata

/-- The checks in front of that of the metadata. -/
theorem ValidFrame.of_checks {R : Reader} {x : Except CodecError Unit}
    (hx : x = .ok () ↔ AcceptedMetadata R f.metadata) :
    (if f.requestId = 0 then .error (.protocol "request_id 0 is reserved")
      else if f.frameType.metadataLimit < f.metadata.length ∨ bodyMax < f.body.length then
        .error .tooLarge
      else x) = .ok () ↔ ValidFrame R f := by
  split_ifs with hid hsi
  · exact iff_of_false (by simp) fun h => h.requestId hid
  · refine iff_of_false (by simp) fun h => ?_
    have := h.metadataLimit
    have := h.bodyLimit
    omega
  · rw [hx]
    exact ⟨fun h => ⟨hid, by omega, by omega, h⟩, ValidFrame.metadata⟩

theorem validateFrame_eq_ok_iff : validateFrame f = .ok () ↔ ValidFrame rustReader f :=
  ValidFrame.of_checks validateMetadata_eq_ok_iff

theorem validateIPCFrame_toIPC : validateIPCFrame f.toIPC = .ok () ↔ ValidFrame goReader f := by
  have hty : validIPCFrameType f.toIPC.type = true :=
    validIPCFrameType_iff.mpr ⟨f.frameType, FrameType.tryFrom_code f.frameType⟩
  have hlimit : ipcMetadataLimit f.toIPC.type = f.frameType.metadataLimit :=
    ipcMetadataLimit_code f.frameType
  rw [validateIPCFrame, hty, hlimit]
  exact ValidFrame.of_checks validateIPCFrameMetadata_eq_ok_iff

theorem exists_toIPC {g} (h : validateIPCFrame g = .ok ()) : ∃ f : Frame, g = f.toIPC := by
  have hty : validIPCFrameType g.type = true := by
    by_contra hty
    simp [validateIPCFrame, if_pos (by simpa using hty)] at h
  obtain ⟨t, ht⟩ := validIPCFrameType_iff.mp hty
  refine ⟨⟨t, g.flags, g.requestId, g.metadata, g.body⟩, ?_⟩
  rw [Frame.toIPC, FrameType.tryFrom_eq_ok ht]

end RedevPlugin.Wire
