import RedevPlugin.Foundation.Bytes
import RedevPlugin.Wire.Fields
import RedevPlugin.Wire.Numbers
import RedevPlugin.Wire.Writers

/-! The digest of the parameters of a worker call. The host accepts the parameters,
writes their canonical JSON and sends them with its digest. The runtime decodes
them and writes its own canonical JSON, and refuses the call when its digest is
another one. The two texts have the same keys in the same order and the same
strings; they differ where a number has another literal. -/

namespace RedevPlugin.Wire

open Bytes Json

/-- The parameters as the host holds them. The keys of an object are those of a map: distinct,
and in no order. -/
abbrev ParamsValue := Json String Decimal

def maxEncodedBytes : ℕ := 512 * 1024

def maxDepth : ℕ := 64

def maxNodes : ℕ := 32768

structure CanonicalState where
  nodes : ℕ := 0
  bytes : ℕ := 0

def CanonicalState.addBytes (count : ℕ) (s : CanonicalState) : Except String CanonicalState :=
  if maxEncodedBytes - s.bytes < count then .error "encoded value exceeds 524288 bytes"
  else .ok { s with bytes := s.bytes + count }

def charEncodedLength (c : Char) : ℕ :=
  if c ∈ ['\\', '"', '\x08', '\x0C', '\n', '\r', '\t'] then 2
  else if c ∈ ['<', '>', '&'] then 6
  else if c.toNat < 0x20 then 6
  else if isSeparator c then 6
  else c.utf8Size

def jsonStringEncodedLength (s : String) : ℕ :=
  min (2 + (s.toList.map charEncodedLength).sum) (maxEncodedBytes + 1)

def isPrototypeSensitiveKey (key : String) : Bool := key ∈ ["__proto__", "constructor", "prototype"]

mutual

/-- `canonicalState.clone`, without the copy. -/
def clone (depth : ℕ) (s : CanonicalState) (v : ParamsValue) : Except String CanonicalState :=
  if maxDepth < depth then .error "depth exceeds 64"
  else if maxNodes < s.nodes + 1 then .error "structure exceeds 32768 nodes"
  else
    let s := { s with nodes := s.nodes + 1 }
    match v with
    | .null | .bool true => s.addBytes 4
    | .bool false => s.addBytes 5
    | .number d =>
      if d.isSafe then s.addBytes d.goChars.length
      else .error "number is outside the canonical JSON range"
    | .string text => s.addBytes (jsonStringEncodedLength text)
    | .array xs => do cloneElements depth true (← s.addBytes 2) xs
    | .object ms => do cloneMembers depth true (← s.addBytes 2) ms

def cloneElements (depth : ℕ) (first : Bool) (s : CanonicalState) :
    List ParamsValue → Except String CanonicalState
  | [] => .ok s
  | x :: xs => do
    let s ← s.addBytes (if first then 0 else 1)
    cloneElements depth false (← clone (depth + 1) s x) xs

def cloneMembers (depth : ℕ) (first : Bool) (s : CanonicalState) :
    List (String × ParamsValue) → Except String CanonicalState
  | [] => .ok s
  | (key, x) :: ms =>
    if isPrototypeSensitiveKey key then .error ("object key \"" ++ key ++ "\" is forbidden")
    else do
      let s ← s.addBytes (if first then 0 else 1)
      let s ← s.addBytes (jsonStringEncodedLength key + 1)
      cloneMembers depth false (← clone (depth + 1) s x) ms

end

variable (params : List (String × ParamsValue))

def cloneCanonicalMap : Except String CanonicalState :=
  (clone 0 {} (.object params)).mapError ("invalid JSON value: " ++ ·)

mutual

theorem isSafe_of_clone {depth s t} (v : ParamsValue) (h : clone depth s v = .ok t) :
    ∀ d ∈ v.numbers, d.isSafe = true := by
  unfold clone at h
  split_ifs at h
  cases v with
  | null | bool | string => simp [numbers]
  | number =>
    simp only at h
    split_ifs at h with hsa
    simpa [numbers] using hsa
  | array =>
    obtain ⟨u, -, hre⟩ := bind_eq_ok.mp h
    exact isSafe_of_cloneElements _ hre
  | object =>
    obtain ⟨u, -, hre⟩ := bind_eq_ok.mp h
    exact isSafe_of_cloneMembers _ hre

theorem isSafe_of_cloneElements {depth first s t} (xs : List ParamsValue)
    (h : cloneElements depth first s xs = .ok t) : ∀ d ∈ elementNumbers xs, d.isSafe = true := by
  cases xs with
  | nil => simp [elementNumbers]
  | cons x =>
    obtain ⟨u, -, h⟩ := bind_eq_ok.mp h
    obtain ⟨w, hx, hre⟩ := bind_eq_ok.mp h
    rw [elementNumbers, List.forall_mem_append]
    exact ⟨isSafe_of_clone x hx, isSafe_of_cloneElements _ hre⟩

theorem isSafe_of_cloneMembers {depth first s t} (ms : List (String × ParamsValue))
    (h : cloneMembers depth first s ms = .ok t) : ∀ d ∈ memberNumbers ms, d.isSafe = true := by
  cases ms with
  | nil => simp [memberNumbers]
  | cons m =>
    obtain ⟨key, x⟩ := m
    unfold cloneMembers at h
    split at h
    · cases h
    obtain ⟨u, -, h⟩ := bind_eq_ok.mp h
    obtain ⟨w, -, h⟩ := bind_eq_ok.mp h
    obtain ⟨z, hx, hre⟩ := bind_eq_ok.mp h
    rw [memberNumbers, List.forall_mem_append]
    exact ⟨isSafe_of_clone x hx, isSafe_of_cloneMembers _ hre⟩

end

/-- Keys are ordered by their bytes. -/
def keyLe (a b : String) : Bool := utf8 a ≤ utf8 b

variable {N : Type}
  (number : N → Literal)

/-- `json.Encoder` without HTML escapes. -/
def goCanonicalFormat : Format N := ⟨goEscape false, number⟩

def marshalWorkerCanonicalJSON : String :=
  String.ofList ((goCanonicalFormat Decimal.goNumber).write (sortKeys keyLe (.object params)))

def serdeFormat : Format N := ⟨serdeEscape, number⟩

def decodeParams : Json String SerdeNumber := Json.map id decodeNumber (.object params)

/-- The runtime keeps objects in ordered maps. -/
def encodeWorkerCanonicalJson (params : Json String SerdeNumber) : String :=
  String.ofList (((serdeFormat serdeNumber).write (sortKeys keyLe params)).flatMap replaceSeparator)

/-- `serde_json` and the replacement of the separators amount to the writer of the host. -/
theorem rewrites_separators :
    Format.Rewrites (serdeFormat number) (goCanonicalFormat number) replaceSeparator where
  structural c hc := by
    have hpl : Format.structuralChars.all (fun c => !isSeparator c) = true := by decide
    exact replaceSeparator_of_ne (by simpa using List.all_eq_true.mp hpl c hc)
  numeral c hc := by
    apply replaceSeparator_of_ne
    have hsm : c.toNat < 0x80 := by
      simp only [isNumeral, Bool.or_eq_true, decide_eq_true_eq, List.mem_cons, List.not_mem_nil,
        or_false] at hc
      rcases hc with hdi | rfl | rfl | rfl | rfl | rfl
      · simp only [Char.isDigit, Bool.and_eq_true, decide_eq_true_eq] at hdi
        exact lt_of_le_of_lt (UInt32.le_iff_toNat_le.mp hdi.2) (by decide)
      all_goals decide
    simp only [isSeparator, decide_eq_false_iff_not]
    omega
  escape := serdeEscape_replaced
  number := rfl

theorem encodeWorkerCanonicalJson_decodeParams :
    encodeWorkerCanonicalJson (decodeParams params) = String.ofList ((goCanonicalFormat
      serdeNumber).write (Json.map id decodeNumber (sortKeys keyLe (.object params)))) := by
  rw [encodeWorkerCanonicalJson, (rewrites_separators _).write, decodeParams, map_sortKeys]

theorem canonical_texts_agree_iff {params s} (h : cloneCanonicalMap params = .ok s) :
    encodeWorkerCanonicalJson (decodeParams params) = marshalWorkerCanonicalJSON params ↔
      ∀ d ∈ memberNumbers params, sameNumber d = true := by
  have hclone : clone 0 {} (.object params) = .ok s := by
    rw [cloneCanonicalMap] at h
    cases hresult : clone 0 {} (.object params) with rw [hresult] at h
    | error => cases h
    | ok =>
      cases h
      rfl
  have hsafe := isSafe_of_clone _ hclone
  rw [encodeWorkerCanonicalJson_decodeParams, marshalWorkerCanonicalJSON,
    String.ofList_inj, eq_comm,
    (goCanonicalFormat Decimal.goNumber).write_map_eq_iff (goCanonicalFormat serdeNumber) rfl]
  have hnumber : ∀ d ∈ numbers (Json.object params),
      d.goNumber = serdeNumber (decodeNumber d) ↔ sameNumber d = true := fun d hd =>
    goNumber_eq_serdeNumber_iff ((Decimal.isSafe_iff d).mp (hsafe d hd))
  constructor <;> intro hall d hd
  · exact (hnumber d hd).mp (hall d ((mem_numbers_sortKeys keyLe _).mpr hd))
  · have hmem := (mem_numbers_sortKeys keyLe _).mp hd
    exact (hnumber d hmem).mpr (hall d hmem)

/-- Of parameters that the host accepts, the runtime writes the canonical text of the host
exactly when no number is negative zero or from `1e-6` to below `1e-5`. -/
theorem canonical_params_agree_iff {params : List (String × ParamsValue)} {s : CanonicalState}
    (h : cloneCanonicalMap params = .ok s) :
    utf8 (encodeWorkerCanonicalJson (decodeParams params)) =
      utf8 (marshalWorkerCanonicalJSON params) ↔
      ∀ d ∈ memberNumbers params, sameNumber d = true := by
  rw [utf8_injective.eq_iff, canonical_texts_agree_iff h]

/-- Parameters with an integer, a fraction and a text that both sides escape. -/
def plainParams : List (String × ParamsValue) :=
  [("b", .array [.number ⟨true, 5, 1, by decide⟩, .number ⟨false, 25, -2, by decide⟩]),
    ("a", .string "< \n")]

theorem canonical_params_agree_plain :
    (∃ s, cloneCanonicalMap plainParams = .ok s) ∧
      utf8 (encodeWorkerCanonicalJson (decodeParams plainParams)) =
        utf8 (marshalWorkerCanonicalJSON plainParams) := by
  obtain ⟨s, hs⟩ : ∃ s, cloneCanonicalMap plainParams = .ok s := ⟨_, rfl⟩
  exact ⟨⟨s, hs⟩, (canonical_params_agree_iff hs).mpr (by decide)⟩

/-- Parameters with one number. -/
def numberParams (d : Decimal) : List (String × ParamsValue) := [("x", .number d)]

theorem sortKeys_number {N : Type} (n : N) :
    sortKeys keyLe (.object [("x", .number n)]) = .object [("x", .number n)] := by
  simp [sortKeys, sortMembers]

theorem numberParams_texts (d : Decimal) :
    marshalWorkerCanonicalJSON (numberParams d) =
        String.ofList ((goCanonicalFormat Decimal.goNumber).write (.object [("x", .number d)])) ∧
      encodeWorkerCanonicalJson (decodeParams (numberParams d)) = String.ofList
        ((goCanonicalFormat serdeNumber).write (.object [("x", .number (decodeNumber d))])) := by
  rw [marshalWorkerCanonicalJSON, encodeWorkerCanonicalJson_decodeParams, numberParams,
    sortKeys_number]
  exact ⟨rfl, rfl⟩

def negativeZero : Decimal := ⟨true, 0, 0, by decide⟩

/-- The host accepts it, and the runtime writes other bytes for it. -/
theorem negative_zero_params_differ :
    (∃ s, cloneCanonicalMap (numberParams negativeZero) = .ok s) ∧
      marshalWorkerCanonicalJSON (numberParams negativeZero) = "\x7b\"x\":-0\x7d" ∧
      encodeWorkerCanonicalJson (decodeParams (numberParams negativeZero)) =
        "\x7b\"x\":-0.0\x7d" := by
  rw [(numberParams_texts negativeZero).1, (numberParams_texts negativeZero).2]
  exact ⟨⟨_, rfl⟩, by decide, by decide⟩

end RedevPlugin.Wire
