import RedevPlugin.Wire.Codec

/-! Frames in a stream of bytes. What a writer writes for a frame is read back with
the bytes behind it left unread, and nothing else is read as a frame. A reader
allocates the metadata and the body only after it has checked their lengths. -/

namespace RedevPlugin.Wire

open Bytes
open Json hiding Unit

/-! ### The header -/

structure Header where
  magic : List UInt8
  kind : UInt8
  flags : UInt16
  requestId : UInt64
  payloadLen : UInt32

namespace Header

def bytes (h : Header) : List UInt8 :=
  h.magic ++ ([h.kind] ++ (bigEndian 2 h.flags.toNat ++
    (bigEndian 8 h.requestId.toNat ++ bigEndian 4 h.payloadLen.toNat)))

/-- The fields at their places. -/
def ofBytes (bs : List UInt8) : Header where
  magic := slice bs 0 4
  kind := bs.getD 4 0
  flags := UInt16.ofNat (value (slice bs 5 7))
  requestId := UInt64.ofNat (value (slice bs 7 15))
  payloadLen := UInt32.ofNat (value (slice bs 15 19))

variable {h : Header}

theorem length_bytes (hma : h.magic.length = 4) : h.bytes.length = headerBytes := by
  simp [bytes, hma, headerBytes]

theorem bytes_ofBytes {bs} (h : bs.length = headerBytes) : (ofBytes bs).bytes = bs := by
  have hkind : [bs.getD 4 0] = slice bs 4 5 := by
    apply List.ext_getElem
    · rw [length_slice (by rw [h]; decide)]
      rfl
    · intro i hi hi'
      obtain rfl : i = 0 := by simpa using hi
      have h4 : 4 < bs.length := by rw [h]; decide
      simp [slice, List.getElem?_eq_getElem h4]
  have hfl : bigEndian 2 (UInt16.ofNat (value (slice bs 5 7))).toNat = slice bs 5 7 :=
    bigEndian_value_mod (length_slice (by rw [h]; decide))
  have hid : bigEndian 8 (UInt64.ofNat (value (slice bs 7 15))).toNat = slice bs 7 15 :=
    bigEndian_value_mod (length_slice (by rw [h]; decide))
  have hlen : bigEndian 4 (UInt32.ofNat (value (slice bs 15 19))).toNat = slice bs 15 19 :=
    bigEndian_value_mod (length_slice (by rw [h]; decide))
  have hap : ∀ {a b c : ℕ}, a ≤ b → b ≤ c → c ≤ 19 → slice bs a b ++ slice bs b c = slice bs a c :=
    fun hab hbc hc => slice_append_slice hab hbc (hc.trans_eq h.symm)
  rw [bytes, ofBytes, hkind, hfl, hid, hlen, hap (by decide) (by decide) (by decide),
    hap (by decide) (by decide) (by decide), hap (by decide) (by decide) (by decide),
    hap (by decide) (by decide) (by decide)]
  rw [show (19 : ℕ) = bs.length from h.symm, slice_all]

theorem ofBytes_bytes (hma : h.magic.length = 4) : ofBytes h.bytes = h := by
  obtain ⟨magic, kind, flags, requestId, payloadLen⟩ := h
  have hsl : ∀ (front middle rest : List UInt8) (a b : ℕ),
      bytes ⟨magic, kind, flags, requestId, payloadLen⟩ = front ++ (middle ++ rest) →
      front.length = a → a + middle.length = b →
      slice (bytes ⟨magic, kind, flags, requestId, payloadLen⟩) a b = middle := by
    intro front middle rest a b hby ha hb
    rw [hby, slice_middle ha hb]
  have hm := hsl [] magic _ 0 4 rfl rfl (by simp [hma])
  have hk : (bytes ⟨magic, kind, flags, requestId, payloadLen⟩).getD 4 0 = kind := by
    simp [bytes, hma]
  have hf := hsl (magic ++ [kind]) (bigEndian 2 flags.toNat)
    (bigEndian 8 requestId.toNat ++ bigEndian 4 payloadLen.toNat) 5 7
    (by simp [bytes]) (by simp [hma]) (by simp)
  have hi := hsl (magic ++ [kind] ++ bigEndian 2 flags.toNat) (bigEndian 8 requestId.toNat)
    (bigEndian 4 payloadLen.toNat) 7 15 (by simp [bytes]) (by simp [hma]) (by simp)
  have hp := hsl (magic ++ [kind] ++ bigEndian 2 flags.toNat ++ bigEndian 8 requestId.toNat)
    (bigEndian 4 payloadLen.toNat) [] 15 19 (by simp [bytes]) (by simp [hma]) (by simp)
  rw [ofBytes, hm, hk, hf, hi, hp, value_bigEndian _ _ flags.toNat_lt,
    value_bigEndian _ _ requestId.toNat_lt, value_bigEndian _ _ payloadLen.toNat_lt,
    UInt16.ofNat_toNat, UInt64.ofNat_toNat, UInt32.ofNat_toNat]

end Header

/-! ### Readers -/

/-- What a reader allocated, and what it returned with the bytes it left. -/
structure Reading (α : Type) where
  allocated : List ℕ
  result : Except CodecError (α × List UInt8)

def Reading.fail {α : Type} (e : CodecError) : Reading α := ⟨[], .error e⟩

def Reading.check {α β : Type} (r : Reading α) (f : α → Except CodecError β) : Reading β :=
  ⟨r.allocated, r.result.bind fun (a, rest) => (f a).map fun b => (b, rest)⟩

/-- The part of a reader behind the header. -/
def readPayload (limit payloadLen : ℕ) (stream : List UInt8) : Reading (List UInt8 × List UInt8) :=
  match readExact payloadPrefixBytes stream with
  | none => .fail .io
  | some (lengthBytes, stream) =>
    let metadataLen := value lengthBytes
    if payloadLen - payloadPrefixBytes < metadataLen then
      .fail (.protocol "metadata length exceeds payload")
    else
      let bodyLen := payloadLen - payloadPrefixBytes - metadataLen
      if limit < metadataLen ∨ bodyMax < bodyLen then .fail .tooLarge
      else
        { allocated := [metadataLen, bodyLen]
          result :=
            match readExact metadataLen stream with
            | none => .error .io
            | some (metadata, stream) =>
              match readExact bodyLen stream with
              | none => .error .io
              | some (body, stream) => .ok ((metadata, body), stream) }

def checkedAdd (a b : UInt32) : Option UInt32 :=
  if a.toNat + b.toNat < 2 ^ 32 then some (a + b) else none

def readFrame (stream : List UInt8) : Reading Frame :=
  match readExact headerBytes stream with
  | none => .fail .io
  | some (raw, stream) =>
    let header := Header.ofBytes raw
    if header.magic ≠ frameMagic then .fail (.protocol "frame magic is invalid")
    else match FrameType.tryFrom header.kind with
      | .error e => .fail e
      | .ok frameType =>
        if header.payloadLen.toNat < payloadPrefixBytes then .fail .tooLarge
        else match checkedAdd (UInt32.ofNat headerBytes) header.payloadLen with
          | none => .fail .tooLarge
          | some total =>
            if frameMax < total.toNat then .fail .tooLarge
            else
              (readPayload frameType.metadataLimit header.payloadLen.toNat stream).check
                fun (metadata, body) =>
                  let frame := ⟨frameType, header.flags, header.requestId, metadata, body⟩
                  (validateFrame frame).map fun _ => frame

def readIPCFrame (stream : List UInt8) : Reading IPCFrame :=
  match readExact headerBytes stream with
  | none => .fail .io
  | some (raw, stream) =>
    let header := Header.ofBytes raw
    if header.magic ≠ frameMagic then .fail (.protocol "frame magic")
    else if !validIPCFrameType header.kind then
      .fail (.protocol ("unknown frame type " ++ toString header.kind.toNat))
    else if header.payloadLen.toNat < payloadPrefixBytes ∨
        frameMax < headerBytes + header.payloadLen.toNat then .fail .tooLarge
    else
      (readPayload (ipcMetadataLimit header.kind) header.payloadLen.toNat stream).check
        fun (metadata, body) =>
          let frame := ⟨header.kind, header.flags, header.requestId, metadata, body⟩
          (validateIPCFrame frame).map fun _ => frame

/-! ### Writers -/

def u32TryFrom (n : ℕ) : Option UInt32 := if n < 2 ^ 32 then some (UInt32.ofNat n) else none

def frameBytes (kind : UInt8) (flags : UInt16) (requestId : UInt64)
    (payloadLen metadataLen : UInt32) (metadata body : List UInt8) : List UInt8 :=
  Header.bytes ⟨frameMagic, kind, flags, requestId, payloadLen⟩ ++
    (bigEndian 4 metadataLen.toNat ++ (metadata ++ body))

def writeFrame (frame : Frame) : Except CodecError (List UInt8) :=
  match validateFrame frame with
  | .error e => .error e
  | .ok _ =>
    match u32TryFrom frame.metadata.length, u32TryFrom frame.body.length with
    | some metadataLen, some bodyLen =>
      match (checkedAdd (UInt32.ofNat payloadPrefixBytes) metadataLen).bind
          (checkedAdd · bodyLen) with
      | some payloadLen => .ok (frameBytes frame.frameType.code frame.flags frame.requestId
          payloadLen metadataLen frame.metadata frame.body)
      | none => .error .tooLarge
    | _, _ => .error .tooLarge

def writeIPCFrame (frame : IPCFrame) : Except CodecError (List UInt8) :=
  match validateIPCFrame frame with
  | .error e => .error e
  | .ok _ =>
    let metadataLength := UInt32.ofNat frame.metadata.length
    let bodyLength := UInt32.ofNat frame.body.length
    let payloadLength := UInt32.ofNat payloadPrefixBytes + metadataLength + bodyLength
    .ok (frameBytes frame.type frame.flags frame.requestId payloadLength metadataLength
      frame.metadata frame.body)

/-! ### What is read -/

variable {stream metadata body rest : List UInt8} {f : Frame} {g : IPCFrame}

theorem readPayload_eq_ok_iff {limit payloadLen} (hlen : payloadPrefixBytes ≤ payloadLen) :
    (readPayload limit payloadLen stream).result = .ok ((metadata, body), rest) ↔
      stream = bigEndian 4 metadata.length ++ (metadata ++ (body ++ rest)) ∧
      payloadLen = payloadPrefixBytes + metadata.length + body.length ∧
      metadata.length ≤ limit ∧ body.length ≤ bodyMax ∧ metadata.length < 256 ^ 4 := by
  constructor
  · fun_cases readPayload limit payloadLen stream <;> intro h <;> try cases h
    rename_i lengthBytes _ hb _ hex _ hlimits
    obtain ⟨rfl, hbe⟩ := readExact_eq_some_iff.mp hb
    split at h
    · cases h
    rename_i hme
    split at h
    · cases h
    rename_i hbody
    cases h
    obtain ⟨rfl, hmet⟩ := readExact_eq_some_iff.mp hme
    obtain ⟨rfl, hbod⟩ := readExact_eq_some_iff.mp hbody
    have hlt := value_lt lengthBytes
    have hby := bigEndian_value lengthBytes
    rw [hbe] at hlt hby
    rw [hmet, hbod]
    refine ⟨congrArg (· ++ _) hby.symm, ?_, ?_, ?_, hlt⟩ <;> omega
  · rintro ⟨rfl, rfl, hme, hbody, hlt⟩
    have hb : readExact payloadPrefixBytes
        (bigEndian 4 metadata.length ++ (metadata ++ (body ++ rest))) = some (_, _) :=
      readExact_append (length_bigEndian 4 metadata.length) _
    have hex : ¬ payloadPrefixBytes + metadata.length + body.length - payloadPrefixBytes <
        metadata.length := by omega
    have hbo : payloadPrefixBytes + metadata.length + body.length - payloadPrefixBytes -
        metadata.length = body.length := by omega
    have hlimits : ¬ (limit < metadata.length ∨ bodyMax < body.length) := by omega
    simp only [readPayload, hb, value_bigEndian 4 _ hlt, if_neg hex, hbo,
      if_neg hlimits, readExact_append]

theorem check_eq_ok_iff {α β : Type} {r : Reading α} {f : α → Except CodecError β} {b : β} :
    (r.check f).result = .ok (b, rest) ↔ ∃ a, r.result = .ok (a, rest) ∧ f a = .ok b := by
  obtain ⟨allocated, result⟩ := r
  cases result with
  | error => simp [Reading.check, Except.bind]
  | ok p =>
    obtain ⟨a, rest'⟩ := p
    cases hf : f a with
    | error => simp [Reading.check, Except.bind, Except.map, hf]
    | ok =>
      simp only [Reading.check, Except.bind, Except.map, hf, Except.ok.injEq, Prod.mk.injEq]
      constructor
      · rintro ⟨rfl, rfl⟩
        exact ⟨a, ⟨rfl, rfl⟩, hf⟩
      · rintro ⟨a', ⟨rfl, rfl⟩, hb⟩
        exact ⟨Except.ok.inj (hf.symm.trans hb), rfl⟩

theorem map_const_eq_ok_iff {α : Type} {x : Except CodecError Unit} {a b : α} :
    x.map (fun _ => a) = .ok b ↔ x = .ok () ∧ a = b := by
  cases x <;> simp [Except.map]

def IPCFrame.header (g : IPCFrame) : Header :=
  ⟨frameMagic, g.type, g.flags, g.requestId,
    UInt32.ofNat (payloadPrefixBytes + g.metadata.length + g.body.length)⟩

def IPCFrame.encode (g : IPCFrame) : List UInt8 :=
  g.header.bytes ++ (bigEndian 4 (UInt32.ofNat g.metadata.length).toNat ++ (g.metadata ++ g.body))

/-- The lengths of a valid frame fit into their fields. -/
structure Fits (metadata body : List UInt8) : Prop where
  metadata : metadata.length ≤ invokeMetadataMax
  body : body.length ≤ bodyMax

theorem ValidFrame.fits {R} (h : ValidFrame R f) : Fits f.metadata f.body :=
  ⟨h.metadataLimit.trans (by cases f.frameType <;> decide), h.bodyLimit⟩

theorem Fits.toNat_metadata (h : Fits metadata body) :
    (UInt32.ofNat metadata.length).toNat = metadata.length := by
  have := h.metadata
  rw [UInt32.toNat_ofNat']
  simp only [invokeMetadataMax] at this
  omega

theorem Fits.toNat_payload (h : Fits metadata body) :
    (UInt32.ofNat (payloadPrefixBytes + metadata.length + body.length)).toNat =
      payloadPrefixBytes + metadata.length + body.length := by
  have := h.metadata
  have := h.body
  rw [UInt32.toNat_ofNat']
  simp only [invokeMetadataMax, bodyMax, payloadPrefixBytes] at *
  omega

theorem writeIPCFrame_eq_ok_iff {bytes} :
    writeIPCFrame g = .ok bytes ↔ validateIPCFrame g = .ok () ∧ bytes = g.encode := by
  rw [writeIPCFrame]
  cases validateIPCFrame g with
  | error => simp
  | ok => simp [IPCFrame.encode, IPCFrame.header, frameBytes, UInt32.ofNat_add, eq_comm]

theorem checkedAdd_ofNat {a b} (h : a + b < 2 ^ 32) :
    checkedAdd (UInt32.ofNat a) (UInt32.ofNat b) = some (UInt32.ofNat (a + b)) := by
  have hsum : (UInt32.ofNat a).toNat + (UInt32.ofNat b).toNat < 2 ^ 32 := by
    rw [UInt32.toNat_ofNat', UInt32.toNat_ofNat']
    omega
  rw [checkedAdd, if_pos hsum, UInt32.ofNat_add]

theorem writeFrame_eq_ok_iff {bytes} :
    writeFrame f = .ok bytes ↔ validateFrame f = .ok () ∧ bytes = f.toIPC.encode := by
  rw [writeFrame]
  cases h : validateFrame f with
  | error => simp
  | ok =>
    have hfits := (validateFrame_eq_ok_iff.mp h).fits
    have hme := hfits.metadata
    have hbo := hfits.body
    simp only [invokeMetadataMax, bodyMax] at hme hbo
    rw [u32TryFrom, if_pos (by omega), u32TryFrom, if_pos (by omega)]
    dsimp only
    rw [checkedAdd_ofNat (by rw [payloadPrefixBytes]; omega), Option.bind_some,
      checkedAdd_ofNat (by rw [payloadPrefixBytes]; omega)]
    simp [IPCFrame.encode, IPCFrame.header, Frame.toIPC, frameBytes, eq_comm]

theorem encode_append (hfits : Fits g.metadata g.body) (rest : List UInt8) :
    g.encode ++ rest =
      g.header.bytes ++ (bigEndian 4 g.metadata.length ++ (g.metadata ++ (g.body ++ rest))) := by
  simp [IPCFrame.encode, hfits.toNat_metadata]

theorem readExact_encode (hfits : Fits g.metadata g.body) (rest : List UInt8) :
    readExact headerBytes (g.encode ++ rest) = some (g.header.bytes,
      bigEndian 4 g.metadata.length ++ (g.metadata ++ (g.body ++ rest))) := by
  rw [encode_append hfits, readExact_append (Header.length_bytes rfl)]

theorem ofBytes_header (g : IPCFrame) : Header.ofBytes g.header.bytes = g.header :=
  Header.ofBytes_bytes rfl

/-- A reader that gets as far as the payload has read the bytes of the frame. -/
theorem eq_encode_append {raw} (hraw : raw.length = headerBytes)
    (hma : (Header.ofBytes raw).magic = frameMagic) (hkind : (Header.ofBytes raw).kind = g.type)
    (hfl : (Header.ofBytes raw).flags = g.flags)
    (hid : (Header.ofBytes raw).requestId = g.requestId)
    (hlen : (Header.ofBytes raw).payloadLen.toNat =
      payloadPrefixBytes + g.metadata.length + g.body.length) (hfits : Fits g.metadata g.body)
    (hstr : stream = bigEndian 4 g.metadata.length ++ (g.metadata ++ (g.body ++ rest))) :
    raw ++ stream = g.encode ++ rest := by
  have hhe : Header.ofBytes raw = g.header := by
    rw [IPCFrame.header, ← hma, ← hkind, ← hfl, ← hid, ← hlen, UInt32.ofNat_toNat]
  rw [encode_append hfits, ← hhe, Header.bytes_ofBytes hraw, hstr]

theorem readFrame_eq_ok_iff :
    (readFrame stream).result = .ok (f, rest) ↔
      validateFrame f = .ok () ∧ stream = f.toIPC.encode ++ rest := by
  constructor
  · intro h
    unfold readFrame at h
    split at h
    · cases h
    rename_i hre
    obtain ⟨rfl, hraw⟩ := readExact_eq_some_iff.mp hre
    dsimp only at h
    split at h
    · cases h
    rename_i hma
    split at h
    · cases h
    rename_i hty
    split at h
    · cases h
    rename_i hsm
    split at h
    · cases h
    split at h
    · cases h
    obtain ⟨⟨metadata, body⟩, hpa, hfr⟩ := check_eq_ok_iff.mp h
    obtain ⟨hva, rfl⟩ := map_const_eq_ok_iff.mp hfr
    obtain ⟨hstr, hlen, -, -, -⟩ := (readPayload_eq_ok_iff (Nat.not_lt.mp hsm)).mp hpa
    exact ⟨hva, eq_encode_append hraw (not_not.mp hma) (FrameType.tryFrom_eq_ok hty).symm
      rfl rfl hlen (validateFrame_eq_ok_iff.mp hva).fits hstr⟩
  · rintro ⟨hva, rfl⟩
    have hv := validateFrame_eq_ok_iff.mp hva
    have hfits := hv.fits
    have hme := hfits.metadata
    have hbo := hfits.body
    simp only [invokeMetadataMax, bodyMax] at hme hbo
    have hre := readExact_encode (g := f.toIPC) hfits rest
    simp only [readFrame, hre, ofBytes_header]
    simp only [IPCFrame.header, Frame.toIPC, ne_eq, not_true_eq_false, if_false,
      FrameType.tryFrom_code, hfits.toNat_payload]
    rw [if_neg (by simp only [payloadPrefixBytes]; omega),
      checkedAdd_ofNat (by simp only [payloadPrefixBytes, headerBytes]; omega)]
    dsimp only
    rw [if_neg (by
      simp only [payloadPrefixBytes, headerBytes, frameMax, invokeMetadataMax, bodyMax,
        UInt32.toNat_ofNat']
      omega), check_eq_ok_iff]
    refine ⟨(f.metadata, f.body), ?_, map_const_eq_ok_iff.mpr ⟨hva, rfl⟩⟩
    exact (readPayload_eq_ok_iff (by omega)).mpr
      ⟨rfl, rfl, hv.metadataLimit, hv.bodyLimit, by omega⟩

theorem fits_of_validateIPCFrame (h : validateIPCFrame g = .ok ()) : Fits g.metadata g.body := by
  obtain ⟨f, rfl⟩ := exists_toIPC h
  exact (validateIPCFrame_toIPC.mp h).fits

theorem readIPCFrame_eq_ok_iff :
    (readIPCFrame stream).result = .ok (g, rest) ↔
      validateIPCFrame g = .ok () ∧ stream = g.encode ++ rest := by
  constructor
  · fun_cases readIPCFrame stream <;> intro h <;> try cases h
    rename_i hre _ hma _ _
    obtain ⟨rfl, hraw⟩ := readExact_eq_some_iff.mp hre
    obtain ⟨⟨metadata, body⟩, hpa, hfr⟩ := check_eq_ok_iff.mp h
    obtain ⟨hva, rfl⟩ := map_const_eq_ok_iff.mp hfr
    obtain ⟨hstr, hlen, -, -, -⟩ := (readPayload_eq_ok_iff (by omega)).mp hpa
    exact ⟨hva, eq_encode_append hraw (not_not.mp hma) rfl rfl rfl hlen
      (fits_of_validateIPCFrame hva) hstr⟩
  · rintro ⟨hva, rfl⟩
    obtain ⟨f, rfl⟩ := exists_toIPC hva
    have hv := validateIPCFrame_toIPC.mp hva
    have hfits := hv.fits
    have hme := hfits.metadata
    have hbo := hfits.body
    simp only [invokeMetadataMax, bodyMax] at hme hbo
    have hma : ¬ f.toIPC.header.magic ≠ frameMagic := not_not.mpr rfl
    have hty : ¬ (!validIPCFrameType f.toIPC.header.kind) = true := by
      have hcode : validIPCFrameType f.frameType.code = true :=
        validIPCFrameType_iff.mpr ⟨_, FrameType.tryFrom_code f.frameType⟩
      change ¬ (!validIPCFrameType f.frameType.code) = true
      rw [hcode]
      decide
    have hlen : f.toIPC.header.payloadLen.toNat =
        payloadPrefixBytes + f.metadata.length + f.body.length := hfits.toNat_payload
    have hsi : ¬ (payloadPrefixBytes + f.metadata.length + f.body.length < payloadPrefixBytes ∨
        frameMax < headerBytes + (payloadPrefixBytes + f.metadata.length + f.body.length)) := by
      simp only [payloadPrefixBytes, headerBytes, frameMax, invokeMetadataMax, bodyMax]
      omega
    have hre := readExact_encode (g := f.toIPC) hfits rest
    simp only [readIPCFrame, hre, ofBytes_header, hlen, if_neg hma, if_neg hty, if_neg hsi]
    refine check_eq_ok_iff.mpr ⟨(f.metadata, f.body), ?_, map_const_eq_ok_iff.mpr ⟨hva, rfl⟩⟩
    have hlimit : f.metadata.length ≤ ipcMetadataLimit f.toIPC.header.kind :=
      hv.metadataLimit.trans_eq (ipcMetadataLimit_code f.frameType).symm
    exact (readPayload_eq_ok_iff (by omega)).mpr ⟨rfl, rfl, hlimit, hv.bodyLimit, by omega⟩

/-! ### Allocations -/

/-- Nothing is allocated, or a metadata and a body within the limits. -/
def Allocates (limit : ℕ) (allocated : List ℕ) : Prop :=
  allocated = [] ∨ ∃ m b, allocated = [m, b] ∧ m ≤ limit ∧ b ≤ bodyMax

theorem readPayload_allocated (limit payloadLen : ℕ) (stream : List UInt8) :
    Allocates limit (readPayload limit payloadLen stream).allocated := by
  rw [readPayload]
  cases readExact payloadPrefixBytes stream with
  | none => exact .inl rfl
  | some r =>
    dsimp only
    split_ifs with hex hlimits
    · exact .inl rfl
    · exact .inl rfl
    · exact .inr ⟨_, _, rfl, by omega, by omega⟩

end RedevPlugin.Wire
