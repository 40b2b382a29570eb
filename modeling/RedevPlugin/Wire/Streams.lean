import RedevPlugin.Wire.Frames

/-! The codecs of the host and of the runtime, as a whole. Each reads back the frames it
writes, one after the other, reads nothing else, and allocates no more than the
limits. They write the same bytes and read the same bytes, except that only the
host reads escapes of half a surrogate pair. -/

namespace RedevPlugin.Wire

open Bytes

theorem kind_ofBytes {raw} (h : raw.length = headerBytes) (stream : List UInt8) :
    (Header.ofBytes raw).kind = (raw ++ stream).getD 4 0 := by
  have h4 : 4 < raw.length := by rw [h]; decide
  simp [Header.ofBytes, List.getElem?_append_left h4]

/-- The type in the header sets the limit. -/
def AllocatesForType (stream : List UInt8) (allocated : List ℕ) : Prop :=
  allocated = [] ∨ ∃ t, FrameType.tryFrom (stream.getD 4 0) = .ok t ∧
    Allocates t.metadataLimit allocated

theorem readFrame_allocated (stream : List UInt8) :
    AllocatesForType stream (readFrame stream).allocated := by
  rw [readFrame]
  cases hre : readExact headerBytes stream with
  | none => exact .inl rfl
  | some r =>
    obtain ⟨raw, stream'⟩ := r
    obtain ⟨rfl, hraw⟩ := readExact_eq_some_iff.mp hre
    have hkind := kind_ofBytes hraw stream'
    dsimp only
    by_cases hma : (Header.ofBytes raw).magic ≠ frameMagic
    · rw [if_pos hma]
      exact .inl rfl
    rw [if_neg hma]
    cases hty : FrameType.tryFrom (Header.ofBytes raw).kind with
    | error => exact .inl rfl
    | ok t =>
      rw [hkind] at hty
      split_ifs with hsm
      · exact .inl rfl
      cases checkedAdd (UInt32.ofNat headerBytes) (Header.ofBytes raw).payloadLen with
      | none => exact .inl rfl
      | some total =>
        dsimp only
        split_ifs with hla
        · exact .inl rfl
        · exact .inr ⟨t, hty, readPayload_allocated ..⟩

theorem readIPCFrame_allocated (stream : List UInt8) :
    AllocatesForType stream (readIPCFrame stream).allocated := by
  rw [readIPCFrame]
  cases hre : readExact headerBytes stream with
  | none => exact .inl rfl
  | some r =>
    obtain ⟨raw, stream'⟩ := r
    obtain ⟨rfl, hraw⟩ := readExact_eq_some_iff.mp hre
    have hkind := kind_ofBytes hraw stream'
    dsimp only
    split_ifs with hma hty hsi
    · exact .inl rfl
    · exact .inl rfl
    · exact .inl rfl
    · obtain ⟨t, ht⟩ := validIPCFrameType_iff.mp (by simpa using hty)
      have hlimit : ipcMetadataLimit (Header.ofBytes raw).kind = t.metadataLimit := by
        rw [← FrameType.tryFrom_eq_ok ht, ipcMetadataLimit_code]
      refine .inr ⟨t, hkind ▸ ht, ?_⟩
      rw [← hlimit]
      exact readPayload_allocated ..

/-- Frame after frame, to the end of the stream; the first argument bounds their number. -/
def readFrames {F : Type} (read : List UInt8 → Reading F) :
    ℕ → List UInt8 → Except CodecError (List F)
  | _, [] => .ok []
  | 0, _ :: _ => .error .io
  | n + 1, b :: stream =>
    match (read (b :: stream)).result with
    | .error e => .error e
    | .ok (f, rest) => (readFrames read n rest).map (f :: ·)

/-- All frames of a stream: it has no more frames than bytes. -/
def decodeStream {F : Type} (read : List UInt8 → Reading F) (stream : List UInt8) :
    Except CodecError (List F) :=
  readFrames read stream.length stream

/-- A writer and a reader of frames that fit together. -/
structure FrameCodec {F : Type} (valid : F → Prop) (write : F → Except CodecError (List UInt8))
    (read : List UInt8 → Reading F) : Prop where
  /-- The valid frames are written. -/
  writes_iff : ∀ f, valid f ↔ ∃ bytes, write f = .ok bytes
  /-- What is written is read back, and what follows is left. -/
  reads : ∀ f bytes rest, write f = .ok bytes → (read (bytes ++ rest)).result = .ok (f, rest)
  /-- Nothing else is read. -/
  reads_only : ∀ stream f rest, (read stream).result = .ok (f, rest) →
    valid f ∧ ∃ bytes, write f = .ok bytes ∧ stream = bytes ++ rest
  /-- Frames in a row are read as they are. -/
  reads_all : ∀ fs bytes, List.Forall₂ (fun f bs => write f = .ok bs) fs bytes →
    decodeStream read bytes.flatten = .ok fs
  /-- No more is allocated than the limits allow. -/
  bounded : ∀ stream, AllocatesForType stream (read stream).allocated

theorem readFrames_encode {F : Type} {read : List UInt8 → Reading F} {encode : F → List UInt8}
    {valid : F → Prop} (hne : ∀ f, encode f ≠ [])
    (hre : ∀ f rest, valid f → (read (encode f ++ rest)).result = .ok (f, rest)) (fs : List F)
    (hva : ∀ f ∈ fs, valid f) {n : ℕ} (hn : fs.length ≤ n) :
    readFrames read n (fs.flatMap encode) = .ok fs := by
  induction fs generalizing n with
  | nil => cases n <;> rfl
  | cons f fs ih =>
    rw [List.forall_mem_cons] at hva
    cases n with
    | zero => simp at hn
    | succ n =>
      have hf := hre f (fs.flatMap encode) hva.1
      obtain ⟨b, bs, hb⟩ := List.exists_cons_of_ne_nil (hne f)
      rw [hb] at hf
      rw [List.flatMap_cons, hb, List.cons_append, readFrames]
      rw [List.cons_append] at hf
      rw [hf]
      simp [ih hva.2 (by simpa using hn), Except.map]

/-- A reader that reads exactly the encodings of valid frames makes a codec. -/
theorem FrameCodec.of_encode {F : Type} {valid : F → Prop}
    {write : F → Except CodecError (List UInt8)} {read : List UInt8 → Reading F}
    {encode : F → List UInt8} (hne : ∀ f, encode f ≠ [])
    (hwrite : ∀ f bytes, write f = .ok bytes ↔ valid f ∧ bytes = encode f)
    (hre : ∀ stream f rest,
      (read stream).result = .ok (f, rest) ↔ valid f ∧ stream = encode f ++ rest)
    (hb : ∀ stream, AllocatesForType stream (read stream).allocated) :
    FrameCodec valid write read := by
  refine ⟨?_, ?_, ?_, ?_, hb⟩
  · intro f
    exact ⟨fun h => ⟨_, (hwrite f _).mpr ⟨h, rfl⟩⟩, fun ⟨bytes, h⟩ => ((hwrite f bytes).mp h).1⟩
  · intro f bytes rest h
    obtain ⟨hv, rfl⟩ := (hwrite f bytes).mp h
    exact (hre _ f rest).mpr ⟨hv, rfl⟩
  · intro stream f rest h
    obtain ⟨hv, rfl⟩ := (hre stream f rest).mp h
    exact ⟨hv, _, (hwrite f _).mpr ⟨hv, rfl⟩, rfl⟩
  · intro fs bytes h
    have hfl : bytes.flatten = fs.flatMap encode ∧ ∀ f ∈ fs, valid f := by
      induction h with
      | nil => simp
      | cons hf _ ih =>
        obtain ⟨hv, rfl⟩ := (hwrite _ _).mp hf
        rw [List.flatten_cons, List.flatMap_cons, ih.1, List.forall_mem_cons]
        exact ⟨rfl, hv, ih.2⟩
    rw [decodeStream, hfl.1]
    exact readFrames_encode hne (fun f rest hv => (hre _ f rest).mpr ⟨hv, rfl⟩) fs hfl.2
      (length_le_length_flatMap hne fs)

theorem encode_ne_nil (g : IPCFrame) : g.encode ≠ [] := by
  simp [IPCFrame.encode, Header.bytes]

theorem runtimeCodec : FrameCodec (validateFrame · = .ok ()) writeFrame readFrame :=
  .of_encode (fun f => encode_ne_nil f.toIPC) (fun _ _ => writeFrame_eq_ok_iff)
    (fun _ _ _ => readFrame_eq_ok_iff) readFrame_allocated

theorem hostCodec : FrameCodec (validateIPCFrame · = .ok ()) writeIPCFrame readIPCFrame :=
  .of_encode encode_ne_nil (fun _ _ => writeIPCFrame_eq_ok_iff)
    (fun _ _ _ => readIPCFrame_eq_ok_iff) readIPCFrame_allocated

theorem validateFrame_iff_validateIPCFrame {f} : validateFrame f = .ok () ↔
    validateIPCFrame f.toIPC = .ok () ∧ scalarMetadata f.metadata = true := by
  rw [validateFrame_eq_ok_iff, validateIPCFrame_toIPC]
  constructor
  · rintro ⟨hid, hme, hbo, hac⟩
    obtain ⟨hac, hsc⟩ := acceptedMetadata_iff.mp hac
    exact ⟨⟨hid, hme, hbo, hac⟩, hsc⟩
  · rintro ⟨⟨hid, hme, hbo, hac⟩, hsc⟩
    exact ⟨hid, hme, hbo, acceptedMetadata_iff.mpr ⟨hac, hsc⟩⟩

example : validateMetadata (utf8 "\x7b\"a\": [1, -2]\x7d") = .ok () := by
  rw [validateMetadata, decodeUtf8_utf8]
  decide +kernel

/-- Half a surrogate pair is replaced at the host and refused at the runtime. -/
example : validateIPCFrameMetadata (utf8 "\"\\ud800\"") = .ok () ∧
    scalarMetadata (utf8 "\"\\ud800\"") = false := by
  rw [validateIPCFrameMetadata, scalarMetadata, decodeUtf8_utf8]
  decide +kernel

/-- The frame codec. The host and the runtime have a codec each; the runtime writes the frames
without lone surrogate escapes that the host writes, with the same bytes, and it reads
what the host reads up to such escapes, as the same frame and with the same bytes left. -/
theorem frame_codecs_agree :
    FrameCodec (validateFrame · = .ok ()) writeFrame readFrame ∧
    FrameCodec (validateIPCFrame · = .ok ()) writeIPCFrame readIPCFrame ∧
    (∀ f bytes, writeFrame f = .ok bytes ↔
      writeIPCFrame f.toIPC = .ok bytes ∧ scalarMetadata f.metadata = true) ∧
    (∀ stream f rest, (readFrame stream).result = .ok (f, rest) ↔
      (readIPCFrame stream).result = .ok (f.toIPC, rest) ∧ scalarMetadata f.metadata = true) ∧
    ∀ stream g rest, (readIPCFrame stream).result = .ok (g, rest) → ∃ f : Frame, g = f.toIPC := by
  refine ⟨runtimeCodec, hostCodec, ?_, ?_, ?_⟩
  · intro f bytes
    rw [writeFrame_eq_ok_iff, writeIPCFrame_eq_ok_iff, validateFrame_iff_validateIPCFrame]
    tauto
  · intro stream f rest
    rw [readFrame_eq_ok_iff, readIPCFrame_eq_ok_iff, validateFrame_iff_validateIPCFrame]
    tauto
  · intro stream g rest h
    exact exists_toIPC (readIPCFrame_eq_ok_iff.mp h).1

end RedevPlugin.Wire
