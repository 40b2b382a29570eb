import RedevPlugin.Wire.Metadata

/-! The host reads metadata from a decoder, one token after the other. The decoder
skips commas and colons and refuses a token that cannot come next. Token by token
the host takes the way of the runtime, which descends into the value, so both
accept the same tokens. -/

namespace RedevPlugin.Wire

open Json hiding Unit
open NumberLexeme (unsignedChars fractionChars exponentChars chars)
open Except (toOption isOk)

/-! ### The decoder -/

inductive TokenState where
  | topValue
  | arrayStart
  | arrayValue
  | arrayComma
  | objectStart
  | objectKey
  | objectColon
  | objectValue
  | objectComma
  deriving DecidableEq

def tokenValueAllowed : TokenState → Bool
  | .topValue | .arrayStart | .arrayValue | .objectValue => true
  | _ => false

def tokenValueEnd : TokenState → TokenState
  | .arrayStart | .arrayValue => .arrayComma
  | .objectValue => .objectComma
  | state => state

/-- `json.Decoder`, with the tokens that are left. -/
structure Decoder where
  rest : List Token
  state : TokenState
  stack : List TokenState

inductive DecoderError where
  | eof
  | refused
  deriving DecidableEq

/-- The host replaces a lone surrogate. -/
def decodedChar : StringPart → Char
  | .scalar c => c
  | .loneSurrogate _ => '\ufffd'

def decodedText (s : List StringPart) : String := String.ofList (s.map decodedChar)

/-- What `Token` returns. -/
inductive DecoderToken where
  | null
  | bool (b : Bool)
  | string (s : String)
  | number (value : List Char)
  | delim (t : Token)
  deriving DecidableEq

def closeToken (t : Token) (rest : List Token) :
    List TokenState → Except DecoderError (DecoderToken × Decoder)
  | [] => .error .refused
  | state :: stack => .ok (.delim t, ⟨rest, tokenValueEnd state, stack⟩)

def openToken (t : Token) (rest : List Token) (inside state : TokenState)
    (stack : List TokenState) : Except DecoderError (DecoderToken × Decoder) :=
  if tokenValueAllowed state then .ok (.delim t, ⟨rest, inside, state :: stack⟩)
  else .error .refused

def valueToken (value : DecoderToken) (rest : List Token) (state : TokenState)
    (stack : List TokenState) : Except DecoderError (DecoderToken × Decoder) :=
  if tokenValueAllowed state then .ok (value, ⟨rest, tokenValueEnd state, stack⟩)
  else .error .refused

/-- `Decoder.Token`. -/
def nextToken : List Token → TokenState → List TokenState →
    Except DecoderError (DecoderToken × Decoder)
  | [], _, _ => .error .eof
  | .openArray :: ts, state, stack => openToken .openArray ts .arrayStart state stack
  | .closeArray :: ts, state, stack =>
    if state = .arrayStart ∨ state = .arrayComma then closeToken .closeArray ts stack
    else .error .refused
  | .openObject :: ts, state, stack => openToken .openObject ts .objectStart state stack
  | .closeObject :: ts, state, stack =>
    if state = .objectStart ∨ state = .objectComma then closeToken .closeObject ts stack
    else .error .refused
  | .colon :: ts, state, stack =>
    if state = .objectColon then nextToken ts .objectValue stack else .error .refused
  | .comma :: ts, state, stack =>
    if state = .arrayComma then nextToken ts .arrayValue stack
    else if state = .objectComma then nextToken ts .objectKey stack
    else .error .refused
  | .string s :: ts, state, stack =>
    if state = .objectStart ∨ state = .objectKey then
      .ok (.string (decodedText s), ⟨ts, .objectColon, stack⟩)
    else valueToken (.string (decodedText s)) ts state stack
  | .null :: ts, state, stack => valueToken .null ts state stack
  | .bool b :: ts, state, stack => valueToken (.bool b) ts state stack
  | .number n :: ts, state, stack => valueToken (.number n.chars) ts state stack
  | .invalid :: _, _, _ => .error .refused

def Decoder.token (d : Decoder) : Except DecoderError (DecoderToken × Decoder) :=
  nextToken d.rest d.state d.stack

def Decoder.more (d : Decoder) : Bool :=
  match d.rest with
  | [] | .closeArray :: _ | .closeObject :: _ => false
  | _ => true

open Decoder (token more)

/-! ### The host -/

/-- `strconv.ParseUint` to base 10 and 64 bits. -/
def parseUint (cs : List Char) : Option ℕ :=
  if cs.isEmpty || !cs.all Char.isDigit then none
  else if Nat.ofDigitChars 10 cs 0 < 2 ^ 64 then some (Nat.ofDigitChars 10 cs 0)
  else none

/-- `strconv.ParseInt` to base 10 and 64 bits, of a text with a minus sign. -/
def parseNegativeInt (cs : List Char) : Option ℤ :=
  match parseUint (cs.drop 1) with
  | some n => if 2 ^ 63 < n then none else some (-n)
  | none => none

def validateIPCJSONInteger (value : List Char) : Except String Unit :=
  if value = [] ∨ value = ['-', '0'] then .error "JSON number is not a canonical integer"
  else if value.head? = some '-' then
    match parseNegativeInt value with
    | some _ => .ok ()
    | none => .error "JSON number is not a signed 64-bit integer"
  else
    match parseUint value with
    | some _ => .ok ()
    | none => .error "JSON number is not an unsigned 64-bit integer"

/-- The strings and numbers of the host. -/
def goReader : Reader where
  string s := some (decodedText s)
  number n := (validateIPCJSONInteger n.chars).isOk

inductive MetadataError where
  | decoder (e : DecoderError)
  | text (message : String)
  /-- No error of the host: the bound on the calls was too small. -/
  | fuel
  deriving DecidableEq

def readToken (d : Decoder) : Except MetadataError (DecoderToken × Decoder) :=
  match d.token with
  | .ok r => .ok r
  | .error e => .error (.decoder e)

/-- The end of a loop: the next token has to close what was opened. -/
def closeValue (close : Token) (message : String) (d : Decoder) (nodes : ℕ) :
    Except MetadataError (ℕ × Decoder) :=
  match d.token with
  | .ok (value, d) => if value = .delim close then .ok (nodes, d) else .error (.text message)
  | .error _ => .error (.text message)

mutual

/-- With the nodes counted so far; the first argument bounds the number of calls. -/
def consumeIPCJSONValue :
    ℕ → Decoder → ℕ → ℕ → Except MetadataError (ℕ × Decoder)
  | 0, _, _, _ => .error .fuel
  | fuel + 1, d, depth, nodes =>
    if maxMetadataDepth < depth ∨ maxMetadataNodes ≤ nodes then
      .error (.text "JSON structural limit exceeded")
    else
      (readToken d).bind fun (value, d) =>
        match value with
        | .null | .bool _ | .string _ => .ok (nodes + 1, d)
        | .number value =>
          match validateIPCJSONInteger value with
          | .ok _ => .ok (nodes + 1, d)
          | .error message => .error (.text message)
        | .delim .openArray => consumeElements fuel d depth (nodes + 1)
        | .delim .openObject => consumeMembers fuel d depth (nodes + 1) []
        | .delim _ => .error (.text "unsupported JSON value")

/-- The loop over an array. -/
def consumeElements :
    ℕ → Decoder → ℕ → ℕ → Except MetadataError (ℕ × Decoder)
  | 0, _, _, _ => .error .fuel
  | fuel + 1, d, depth, nodes =>
    if d.more then
      (consumeIPCJSONValue fuel d (depth + 1) nodes).bind fun (nodes, d) =>
        consumeElements fuel d depth nodes
    else closeValue .closeArray "JSON array is not closed" d nodes

/-- The loop over an object. -/
def consumeMembers :
    ℕ → Decoder → ℕ → ℕ → List String → Except MetadataError (ℕ × Decoder)
  | 0, _, _, _, _ => .error .fuel
  | fuel + 1, d, depth, nodes, keys =>
    if d.more then
      (readToken d).bind fun (key, d) =>
        match key with
        | .string key =>
          if key ∈ keys then .error (.text "duplicate JSON field")
          else (consumeIPCJSONValue fuel d (depth + 1) nodes).bind fun (nodes, d) =>
            consumeMembers fuel d depth nodes (key :: keys)
        | _ => .error (.text "JSON object key is not a string")
    else closeValue .closeObject "JSON object is not closed" d nodes

end

/-! ### The host takes the way of the runtime -/

theorem toOption_bind {ε α β : Type*} (x : Except ε α) (f : α → Except ε β) :
    (x.bind f).toOption = x.toOption.bind fun a => (f a).toOption := by
  cases x <;> rfl

def elementState (first : Bool) : TokenState := if first then .arrayStart else .arrayComma

/-- The state of the decoder in front of a key. -/
def memberState (first : Bool) : TokenState := if first then .objectStart else .objectComma

/-- What the host does with the token it read. -/
def consumeToken (fuel depth nodes : ℕ) :
    DecoderToken × Decoder → Except MetadataError (ℕ × Decoder)
  | (.null, d) | (.bool _, d) | (.string _, d) => .ok (nodes + 1, d)
  | (.number value, d) =>
    match validateIPCJSONInteger value with
    | .ok _ => .ok (nodes + 1, d)
    | .error message => .error (.text message)
  | (.delim .openArray, d) => consumeElements fuel d depth (nodes + 1)
  | (.delim .openObject, d) => consumeMembers fuel d depth (nodes + 1) []
  | (.delim _, _) => .error (.text "unsupported JSON value")

variable {d : Decoder} {fuel depth nodes : ℕ} {stack : List TokenState} {state : TokenState}
  {ts us : List Token} {first : Bool}

theorem consume_skip {mark s} (h : nextToken (mark :: ts) state stack = nextToken ts s stack) :
    consumeIPCJSONValue fuel ⟨mark :: ts, state, stack⟩ depth nodes =
      consumeIPCJSONValue fuel ⟨ts, s, stack⟩ depth nodes := by
  cases fuel with
  | zero => simp [consumeIPCJSONValue]
  | succ fuel => simp [consumeIPCJSONValue, readToken, token, h]

theorem consume_of_ok {r} (hlimits : ¬ (maxMetadataDepth < depth ∨ maxMetadataNodes ≤ nodes))
    (h : d.token = .ok r) :
    consumeIPCJSONValue (fuel + 1) d depth nodes = consumeToken fuel depth nodes r := by
  rw [consumeIPCJSONValue, if_neg hlimits, readToken, h]
  obtain ⟨value, d⟩ := r
  cases value with
  | delim t => cases t <;> rfl
  | _ => rfl

theorem consume_of_error {e} (h : d.token = .error e) :
    (consumeIPCJSONValue (fuel + 1) d depth nodes).toOption = none := by
  rw [consumeIPCJSONValue, readToken, h]
  split <;> rfl

/-- The host does not take a closing bracket for a value. -/
theorem consume_of_close {t} (ht : t = .closeArray ∨ t = .closeObject) :
    (consumeIPCJSONValue (fuel + 1) ⟨t :: ts, state, stack⟩ depth nodes).toOption = none := by
  by_cases hlimits : maxMetadataDepth < depth ∨ maxMetadataNodes ≤ nodes
  · rw [consumeIPCJSONValue, if_pos hlimits]
    rfl
  cases hto : token ⟨t :: ts, state, stack⟩ with
  | error => exact consume_of_error hto
  | ok r =>
    have hcl : r.1 = .delim t := by
      rcases ht with rfl | rfl <;> simp only [token, nextToken] at hto <;>
        split at hto <;> cases stack <;> cases hto <;> rfl
    obtain ⟨value, d⟩ := r
    obtain rfl : value = .delim t := hcl
    rw [consume_of_ok hlimits hto]
    rcases ht with rfl | rfl <;> rfl

/-- In these states no value can come without a separator. -/
theorem consume_of_missing {mark}
    (hstate : state = .arrayComma ∧ mark = .comma ∨ state = .objectColon ∧ mark = .colon)
    (hma : ∀ us, ts ≠ mark :: us) :
    (consumeIPCJSONValue fuel ⟨ts, state, stack⟩ depth nodes).toOption = none := by
  cases fuel with
  | zero => simp [consumeIPCJSONValue, toOption]
  | succ fuel =>
    cases ts with
    | nil => exact consume_of_error rfl
    | cons t ts =>
      rcases hstate with ⟨rfl, rfl⟩ | ⟨rfl, rfl⟩ <;> cases t
      all_goals first
        | exact absurd rfl (hma _)
        | exact consume_of_close (.inl rfl)
        | exact consume_of_close (.inr rfl)
        | exact consume_of_error rfl

/-- With this many calls, host and runtime read the same from a place for a value. -/
def ValuesAgree (fuel : ℕ) : Prop := ∀ (depth nodes : ℕ) (ts : List Token) (state : TokenState)
  (stack : List TokenState), tokenValueAllowed state = true →
  (consumeIPCJSONValue fuel ⟨ts, state, stack⟩ depth nodes).toOption =
    (deserialize goReader fuel depth nodes ts).map fun r =>
      (r.1, ⟨r.2, tokenValueEnd state, stack⟩)

def ElementsAgree (fuel : ℕ) : Prop := ∀ (depth nodes : ℕ) (first : Bool) (ts : List Token)
  (outer : TokenState) (stack : List TokenState),
  (consumeElements fuel ⟨ts, elementState first, outer :: stack⟩ depth nodes).toOption =
    (visitSeq goReader fuel depth nodes first ts).map fun r =>
      (r.1, ⟨r.2, tokenValueEnd outer, stack⟩)

def MembersAgree (fuel : ℕ) : Prop := ∀ (depth nodes : ℕ) (keys : List String) (first : Bool)
  (ts : List Token) (outer : TokenState) (stack : List TokenState),
  (consumeMembers fuel ⟨ts, memberState first, outer :: stack⟩ depth nodes keys).toOption =
    (visitMap goReader fuel depth nodes keys first ts).map fun r =>
      (r.1, ⟨r.2, tokenValueEnd outer, stack⟩)

theorem ValuesAgree.succ (hel : ElementsAgree fuel) (hme : MembersAgree fuel) :
    ValuesAgree (fuel + 1) := by
  intro depth nodes ts state stack hstate
  by_cases hlimits : maxMetadataDepth < depth ∨ maxMetadataNodes ≤ nodes
  · unfold consumeIPCJSONValue deserialize
    simp [hlimits, toOption]
  cases ts with
  | nil => simp [consume_of_error, token, nextToken, deserialize, hlimits]
  | cons t ts =>
    cases t with
    | null | bool =>
      simp [consume_of_ok hlimits, token, nextToken, valueToken, hstate, consumeToken,
        deserialize, hlimits, toOption]
    | number n =>
      have hto : token ⟨.number n :: ts, state, stack⟩ =
          .ok (.number n.chars, ⟨ts, tokenValueEnd state, stack⟩) := if_pos hstate
      rw [consume_of_ok hlimits hto, deserialize, if_neg hlimits, consumeToken]
      cases hva : validateIPCJSONInteger n.chars <;>
        simp [goReader, hva, isOk, Except.toBool, toOption]
    | string =>
      have hkey : ¬ (state = .objectStart ∨ state = .objectKey) := by
        rintro (rfl | rfl) <;> cases hstate
      simp [consume_of_ok hlimits, token, nextToken, hkey, valueToken, hstate,
        consumeToken, deserialize, hlimits, goReader, toOption]
    | openArray =>
      have hto : token ⟨.openArray :: ts, state, stack⟩ =
          .ok (.delim .openArray, ⟨ts, .arrayStart, state :: stack⟩) := if_pos hstate
      rw [consume_of_ok hlimits hto, deserialize, if_neg hlimits]
      exact hel depth (nodes + 1) true ts state stack
    | openObject =>
      have hto : token ⟨.openObject :: ts, state, stack⟩ =
          .ok (.delim .openObject, ⟨ts, .objectStart, state :: stack⟩) := if_pos hstate
      rw [consume_of_ok hlimits hto, deserialize, if_neg hlimits]
      exact hme depth (nodes + 1) [] true ts state stack
    | closeArray | closeObject => simp [consume_of_close, deserialize, hlimits]
    | comma =>
      have hcom : state ≠ .arrayComma ∧ state ≠ .objectComma := by
        constructor <;> rintro rfl <;> cases hstate
      simp [consume_of_error, token, nextToken, hcom, deserialize, hlimits]
    | colon =>
      have hco : state ≠ .objectColon := by
        rintro rfl
        cases hstate
      simp [consume_of_error, token, nextToken, hco, deserialize, hlimits]
    | invalid => simp [consume_of_error, token, nextToken, deserialize, hlimits]

section

variable (h : more ⟨ts, state, stack⟩ = false)

include h

/-- Where no more values come, the text ends or a bracket closes. -/
theorem eq_of_not_more : ts = [] ∨ ∃ us, ts = .closeArray :: us ∨ ts = .closeObject :: us := by
  cases ts with
  | nil => exact .inl rfl
  | cons t ts => cases t <;> simp_all [more]

theorem separator_of_not_more (hs : separator first ts = some us) : us = ts := by
  cases first with
  | true => simpa [separator] using hs.symm
  | false => obtain rfl | ⟨vs, rfl | rfl⟩ := eq_of_not_more h <;> simp [separator] at hs

theorem deserialize_of_not_more {R} : deserialize R fuel depth nodes ts = none := by
  cases fuel with
  | zero => simp [deserialize]
  | succ fuel => obtain rfl | ⟨us, rfl | rfl⟩ := eq_of_not_more h <;> simp [deserialize]

end

/-- A separator comes first where it has to. -/
theorem ValuesAgree.element (h : ValuesAgree fuel) (depth nodes : ℕ) (first : Bool)
    (ts : List Token) (stack : List TokenState) :
    (consumeIPCJSONValue fuel ⟨ts, elementState first, stack⟩ depth nodes).toOption =
      (separator first ts).bind fun us => (deserialize goReader fuel depth nodes us).map fun r =>
        (r.1, ⟨r.2, elementState false, stack⟩) := by
  cases first with
  | true => exact h depth nodes ts .arrayStart stack rfl
  | false =>
    by_cases hco : ∃ us, ts = .comma :: us
    · obtain ⟨us, rfl⟩ := hco
      exact (congrArg toOption (consume_skip rfl)).trans (h depth nodes us .arrayValue stack rfl)
    · have hnone : separator false ts = none := by
        rw [separator]
        exact fun us hus => hco ⟨us, hus⟩
      rw [hnone]
      exact consume_of_missing (.inl ⟨rfl, rfl⟩) fun us hus => hco ⟨us, hus⟩

theorem ElementsAgree.succ (hva : ValuesAgree fuel) (hel : ElementsAgree fuel) :
    ElementsAgree (fuel + 1) := by
  intro depth nodes first ts outer stack
  rw [consumeElements]
  by_cases hcl : ∃ us, ts = .closeArray :: us
  · obtain ⟨us, rfl⟩ := hcl
    have hto : token ⟨.closeArray :: us, elementState first, outer :: stack⟩ =
        .ok (.delim .closeArray, ⟨us, tokenValueEnd outer, stack⟩) := by
      cases first <;> rfl
    simp [more, closeValue, hto, visitSeq, toOption]
  rw [visitSeq_open fun us hus => hcl ⟨us, hus⟩]
  cases hmo : more ⟨ts, elementState first, outer :: stack⟩ with
  | false =>
    have hopen : (closeValue .closeArray "JSON array is not closed"
        ⟨ts, elementState first, outer :: stack⟩ nodes).toOption = none := by
      obtain rfl | ⟨us, rfl | rfl⟩ := eq_of_not_more hmo
      · rfl
      · exact absurd ⟨us, rfl⟩ hcl
      · cases first <;> rfl
    rw [if_neg (by simp), hopen]
    cases hse : separator first ts with
    | none => rfl
    | some =>
      obtain rfl : _ = ts := separator_of_not_more hmo hse
      rw [Option.bind_some, deserialize_of_not_more hmo]
      rfl
  | true =>
    rw [if_pos rfl, toOption_bind, hva.element]
    cases separator first ts with
    | none => rfl
    | some us =>
      rw [Option.bind_some, Option.bind_some]
      cases deserialize goReader fuel (depth + 1) nodes us with
      | none => rfl
      | some r => exact hel depth r.1 false r.2 outer stack

theorem token_of_key {k} (h : separator first ts = some (.string k :: us)) :
    token ⟨ts, memberState first, stack⟩ =
      .ok (.string (decodedText k), ⟨us, .objectColon, stack⟩) := by
  rw [separator_eq_some h]
  cases first <;> rfl

theorem token_of_no_key (hmo : more ⟨ts, memberState first, stack⟩ = true)
    (h : ¬ ∃ k us, separator first ts = some (.string k :: us)) :
    ∃ e, token ⟨ts, memberState first, stack⟩ = .error e := by
  cases first with
  | true =>
    cases ts with
    | nil => exact ⟨_, rfl⟩
    | cons t ts =>
      cases t
      all_goals first
        | exact ⟨_, rfl⟩
        | exact absurd ⟨_, _, rfl⟩ h
        | cases hmo
  | false =>
    cases ts with
    | nil => exact ⟨_, rfl⟩
    | cons t ts =>
      cases t
      case comma =>
        cases ts with
        | nil => exact ⟨_, rfl⟩
        | cons t ts =>
          cases t
          all_goals first
            | exact ⟨_, rfl⟩
            | exact absurd ⟨_, _, rfl⟩ h
      all_goals first
        | exact ⟨_, rfl⟩
        | cases hmo

/-- The host and the runtime agree on what follows a key. -/
theorem ValuesAgree.entry (hva : ValuesAgree fuel) (hme : MembersAgree fuel)
    (depth nodes : ℕ) (keys : List String) (k : List StringPart) (us : List Token)
    (outer : TokenState) (stack : List TokenState) :
    (if decodedText k ∈ keys then .error (.text "duplicate JSON field")
      else (consumeIPCJSONValue fuel ⟨us, .objectColon, outer :: stack⟩ (depth + 1) nodes).bind
        fun (nodes, d) => consumeMembers fuel d depth nodes (decodedText k :: keys)).toOption =
      (visitEntry goReader fuel depth nodes keys (.string k :: us)).map fun r =>
        (r.1, ⟨r.2, tokenValueEnd outer, stack⟩) := by
  by_cases hco : ∃ vs, us = .colon :: vs
  · obtain ⟨vs, rfl⟩ := hco
    rw [visitEntry, show goReader.string k = some (decodedText k) from rfl, Option.bind_some]
    by_cases hkey : decodedText k ∈ keys
    · rw [if_pos hkey, if_pos hkey]
      rfl
    rw [if_neg hkey, if_neg hkey, toOption_bind, consume_skip (s := .objectValue) rfl,
      hva (depth + 1) nodes vs .objectValue (outer :: stack) rfl]
    cases deserialize goReader fuel (depth + 1) nodes vs with
    | none => rfl
    | some r => exact hme depth r.1 (decodedText k :: keys) false r.2 outer stack
  · have hnone : visitEntry goReader fuel depth nodes keys (.string k :: us) = none := by
      rw [visitEntry]
      rintro k' vs h
      exact hco ⟨vs, (List.cons.inj h).2⟩
    rw [hnone]
    split_ifs
    · rfl
    · rw [toOption_bind, consume_of_missing (.inr ⟨rfl, rfl⟩) fun vs hvs => hco ⟨vs, hvs⟩]
      rfl

theorem MembersAgree.succ (hva : ValuesAgree fuel) (hme : MembersAgree fuel) :
    MembersAgree (fuel + 1) := by
  intro depth nodes keys first ts outer stack
  rw [consumeMembers]
  by_cases hcl : ∃ us, ts = .closeObject :: us
  · obtain ⟨us, rfl⟩ := hcl
    have hto : token ⟨.closeObject :: us, memberState first, outer :: stack⟩ =
        .ok (.delim .closeObject, ⟨us, tokenValueEnd outer, stack⟩) := by
      cases first <;> rfl
    simp [more, closeValue, hto, visitMap, toOption]
  rw [visitMap_open fun us hus => hcl ⟨us, hus⟩]
  cases hmo : more ⟨ts, memberState first, outer :: stack⟩ with
  | false =>
    have hopen : (closeValue .closeObject "JSON object is not closed"
        ⟨ts, memberState first, outer :: stack⟩ nodes).toOption = none := by
      obtain rfl | ⟨us, rfl | rfl⟩ := eq_of_not_more hmo
      · rfl
      · cases first <;> rfl
      · exact absurd ⟨us, rfl⟩ hcl
    rw [if_neg (by simp), hopen]
    cases hse : separator first ts with
    | none => rfl
    | some =>
      obtain rfl : _ = ts := separator_of_not_more hmo hse
      obtain rfl | ⟨vs, rfl | rfl⟩ := eq_of_not_more hmo <;> rfl
  | true =>
    by_cases hkey : ∃ k us, separator first ts = some (.string k :: us)
    · obtain ⟨k, us, hkey⟩ := hkey
      rw [readToken, token_of_key hkey, hkey, Option.bind_some]
      exact hva.entry hme depth nodes keys k us outer stack
    · obtain ⟨e, he⟩ := token_of_no_key hmo hkey
      rw [readToken, he]
      cases hse : separator first ts with
      | none => rfl
      | some us =>
        rw [Option.bind_some, visitEntry]
        · rfl
        · rintro k us rfl
          exact hkey ⟨k, _, hse⟩

theorem agree (fuel : ℕ) : ValuesAgree fuel ∧ ElementsAgree fuel ∧ MembersAgree fuel := by
  induction fuel with
  | zero =>
    refine ⟨?_, ?_, ?_⟩
    · intro depth nodes ts state stack hstate
      simp [consumeIPCJSONValue, deserialize, toOption]
    · intro depth nodes first ts outer stack
      simp [consumeElements, visitSeq, toOption]
    · intro depth nodes keys first ts outer stack
      simp [consumeMembers, visitMap, toOption]
  | succ fuel ih =>
    obtain ⟨hva, hel, hme⟩ := ih
    exact ⟨.succ hel hme, .succ hva hel, .succ hva hme⟩

/-! ### Numbers -/

/-- `serde_json` gives the visitor a number with a fraction, with an exponent or out of range as
a float. -/
def serdeVisitsInteger (n : NumberLexeme) : Bool :=
  if n.fraction.isSome || n.exponent.isSome || 2 ^ 64 ≤ n.integer then false
  else if n.negative then (-(n.integer : ℤ).bmod (2 ^ 64)).bmod (2 ^ 64) < 0
  else true

theorem parseUint_unsignedChars (n : NumberLexeme) :
    parseUint n.unsignedChars =
      if n.fraction.isSome || n.exponent.isSome || 2 ^ 64 ≤ n.integer then none
      else some n.integer := by
  obtain ⟨negative, integer, fraction, exponent⟩ := n
  have hne : Nat.toDigits 10 integer ≠ [] := Nat.toDigits_ne_nil
  have hdi : (Nat.toDigits 10 integer).all Char.isDigit = true :=
    List.all_eq_true.mpr fun c hc => Nat.isDigit_of_mem_toDigits (by decide) (by decide) hc
  have hva : Nat.ofDigitChars 10 (Nat.toDigits 10 integer) 0 = integer :=
    Nat.ofDigitChars_toDigits (by decide) (by decide)
  rcases fraction with _ | ds
  · rcases exponent with _ | ⟨capital, ds⟩
    · simp only [parseUint, unsignedChars, fractionChars,
        exponentChars, Option.elim_none, List.append_nil, hva, hdi]
      simp only [List.isEmpty_eq_false_iff.mpr hne, Bool.not_true, Bool.or_false,
        Bool.false_eq_true,
        if_false, Option.isSome_none, Bool.false_or, decide_eq_true_eq]
      split_ifs <;> first | rfl | omega
    · cases capital <;> simp [parseUint, unsignedChars, fractionChars, exponentChars]
  · simp [parseUint, unsignedChars, fractionChars]

theorem bmod_neg_lt_zero_iff {n : ℕ} (h : n < 2 ^ 64) :
    (-(n : ℤ).bmod (2 ^ 64)).bmod (2 ^ 64) < 0 ↔ 0 < n ∧ n ≤ 2 ^ 63 := by
  simp only [Int.bmod_def]
  omega

/-- Without fraction and exponent, only zero is written as one zero. -/
theorem unsignedChars_eq_zero_iff {n : NumberLexeme} (hfr : n.fraction = none)
    (hex : n.exponent = none) : n.unsignedChars = ['0'] ↔ n.integer = 0 := by
  have hch : n.unsignedChars = Nat.toDigits 10 n.integer := by
    simp [unsignedChars, fractionChars, exponentChars, hfr, hex]
  rw [hch]
  constructor
  · intro h
    have hva := congrArg (Nat.ofDigitChars 10 · 0) h
    rw [Nat.ofDigitChars_toDigits (by decide) (by decide)] at hva
    exact hva
  · intro h
    rw [h]
    rfl

theorem head_unsignedChars (n : NumberLexeme) : n.unsignedChars.head? ≠ some '-' := by
  have hne : Nat.toDigits 10 n.integer ≠ [] := Nat.toDigits_ne_nil
  obtain ⟨c, cs, hcs⟩ := List.exists_cons_of_ne_nil hne
  have hc : c.isDigit = true :=
    Nat.isDigit_of_mem_toDigits (b := 10) (by decide) (by decide) (hcs ▸ List.mem_cons_self)
  rw [unsignedChars, hcs]
  simp only [List.cons_append, List.head?_cons, ne_eq, Option.some.injEq]
  rintro rfl
  cases hc

theorem serdeVisitsInteger_eq (n : NumberLexeme) :
    serdeVisitsInteger n = (validateIPCJSONInteger n.chars).isOk := by
  have hpa := parseUint_unsignedChars n
  have hne : n.unsignedChars ≠ [] := by simp [unsignedChars, Nat.toDigits_ne_nil]
  have hhe := head_unsignedChars n
  rw [serdeVisitsInteger]
  cases hneg : n.negative with
  | false =>
    have hch : n.chars = n.unsignedChars := by simp [chars, hneg]
    rw [hch, validateIPCJSONInteger]
    split_ifs at hpa ⊢ with hfl hz <;> simp_all [isOk, Except.toBool]
  | true =>
    have hch : n.chars = '-' :: n.unsignedChars := by simp [chars, hneg]
    rw [hch, validateIPCJSONInteger, List.head?_cons, if_pos (Eq.refl (some '-')), parseNegativeInt,
      List.drop_one, List.tail_cons, hpa]
    by_cases hfl : (n.fraction.isSome || n.exponent.isSome || 2 ^ 64 ≤ n.integer) = true
    · rw [if_pos hfl, if_pos hfl]
      split_ifs <;> rfl
    simp only [if_neg hfl, if_true]
    simp only [Bool.or_eq_true, Option.isSome_iff_ne_none, decide_eq_true_eq, not_or, not_not,
      Nat.not_le] at hfl
    obtain ⟨⟨hfr, hex⟩, hlt⟩ := hfl
    have hz := unsignedChars_eq_zero_iff hfr hex
    have hsi := bmod_neg_lt_zero_iff hlt
    by_cases hin : n.integer = 0
    · rw [if_pos (by simp [hz.mpr hin])]
      simp [hin, isOk, Except.toBool]
    · rw [if_neg (by simp [hz, hin])]
      by_cases hla : 2 ^ 63 < n.integer
      · simp only [if_pos hla, isOk, Except.toBool, decide_eq_false_iff_not, hsi]
        omega
      · simp only [if_neg hla, isOk, Except.toBool, decide_eq_true_eq, hsi]
        omega

/-- The strings and numbers of the runtime. -/
def rustReader : Reader where
  string s := if s.all StringPart.isScalar then some (decodedText s) else none
  number := serdeVisitsInteger

theorem rustReader_eq : rustReader = goReader.scalarOnly := by
  simp only [rustReader, Reader.scalarOnly, goReader, Reader.mk.injEq, true_and]
  funext n
  exact serdeVisitsInteger_eq n

end RedevPlugin.Wire
