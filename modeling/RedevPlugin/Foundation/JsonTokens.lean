import RedevPlugin.Foundation.Json

/-! The tokens of a JSON text. A lexer cuts a text into tokens; a value is written
with one list of tokens. What a reader makes of a string or a number is left to it:
an escape can stand for half of a surrogate pair, and a number can have a fraction
or be too large. A value is strict for a reader when it can read all strings and
numbers in it and no object has a key twice. -/

namespace RedevPlugin.Json

/-- A character of a string, or an escape of half a surrogate pair without its other half. -/
inductive StringPart where
  | scalar (c : Char)
  | loneSurrogate (code : ℕ)
  deriving DecidableEq

def StringPart.isScalar : StringPart → Bool
  | .scalar _ => true
  | .loneSurrogate _ => false

/-- The characters of a number. The part in front of the fraction has no leading zeros, so it is
given by its value. -/
structure NumberLexeme where
  negative : Bool
  integer : ℕ
  fraction : Option (List Char)
  /-- Whether the mark is a capital one, and what follows it. -/
  exponent : Option (Bool × List Char)
  deriving DecidableEq

variable (n : NumberLexeme)

def NumberLexeme.fractionChars : List Char := n.fraction.elim [] ('.' :: ·)

def NumberLexeme.exponentChars : List Char :=
  n.exponent.elim [] fun (capital, cs) => (if capital then 'E' else 'e') :: cs

/-- The characters behind the sign. -/
def NumberLexeme.unsignedChars : List Char :=
  Nat.toDigits 10 n.integer ++ (n.fractionChars ++ n.exponentChars)

def NumberLexeme.chars : List Char := (if n.negative then ['-'] else []) ++ n.unsignedChars

inductive Token where
  | null
  | bool (b : Bool)
  | number (n : NumberLexeme)
  | string (s : List StringPart)
  | openArray
  | closeArray
  | openObject
  | closeObject
  | comma
  | colon
  /-- What is no token; a lexer does not go on behind it. -/
  | invalid
  deriving DecidableEq

/-- A character of a string as it is, or the code of an escape. -/
inductive RawPart where
  | char (c : Char)
  | code (n : ℕ)

def hexDigit (c : Char) : Option ℕ :=
  if '0' ≤ c ∧ c ≤ '9' then some (c.toNat - '0'.toNat)
  else if 'a' ≤ c ∧ c ≤ 'f' then some (c.toNat - 'a'.toNat + 10)
  else if 'A' ≤ c ∧ c ≤ 'F' then some (c.toNat - 'A'.toNat + 10)
  else none

def shortEscape (c : Char) : Option Char :=
  match c with
  | '"' => some '"'
  | '\\' => some '\\'
  | '/' => some '/'
  | 'b' => some '\x08'
  | 'f' => some '\x0c'
  | 'n' => some '\n'
  | 'r' => some '\r'
  | 't' => some '\t'
  | _ => none

def hexCode (a b c d : Char) : Option ℕ :=
  match hexDigit a, hexDigit b, hexDigit c, hexDigit d with
  | some a, some b, some c, some d => some (a * 4096 + b * 256 + c * 16 + d)
  | _, _, _, _ => none

/-- The parts of a string up to the quote that ends it. -/
def lexString : List Char → Option (List RawPart × List Char)
  | [] => none
  | '"' :: cs => some ([], cs)
  | '\\' :: 'u' :: a :: b :: c :: d :: cs =>
    match hexCode a b c d, lexString cs with
    | some n, some (parts, cs) => some (.code n :: parts, cs)
    | _, _ => none
  | '\\' :: c :: cs =>
    match shortEscape c, lexString cs with
    | some c, some (parts, cs) => some (.char c :: parts, cs)
    | _, _ => none
  | c :: cs =>
    if c.toNat < 0x20 then none
    else match lexString cs with
      | some (parts, cs) => some (.char c :: parts, cs)
      | none => none

def isHighSurrogate (n : ℕ) : Bool := 0xD800 ≤ n ∧ n ≤ 0xDBFF

def isLowSurrogate (n : ℕ) : Bool := 0xDC00 ≤ n ∧ n ≤ 0xDFFF

/-- A single escape. -/
def codePart (n : ℕ) : StringPart :=
  if isHighSurrogate n || isLowSurrogate n then .loneSurrogate n else .scalar (Char.ofNat n)

/-- The escapes of a high surrogate and of the low one right behind it are one character. -/
def pairSurrogates : List RawPart → List StringPart
  | [] => []
  | .char c :: parts => .scalar c :: pairSurrogates parts
  | .code high :: .code low :: parts =>
    if isHighSurrogate high && isLowSurrogate low then
      .scalar (Char.ofNat (0x10000 + (high - 0xD800) * 0x400 + (low - 0xDC00))) ::
        pairSurrogates parts
    else codePart high :: pairSurrogates (.code low :: parts)
  | .code n :: parts => codePart n :: pairSurrogates parts

variable (cs : List Char)

def lexDigits : Option (List Char × List Char) :=
  match cs.takeWhile Char.isDigit with
  | [] => none
  | ds => some (ds, cs.dropWhile Char.isDigit)

def lexInteger : List Char → Option (ℕ × List Char)
  | '0' :: cs => some (0, cs)
  | cs => (lexDigits cs).map fun (ds, cs) => (Nat.ofDigitChars 10 ds 0, cs)

def lexFraction : List Char → Option (Option (List Char) × List Char)
  | '.' :: cs => (lexDigits cs).map fun (ds, cs) => (some ds, cs)
  | cs => some (none, cs)

def lexExponentDigits : List Char → Option (List Char × List Char)
  | '+' :: cs => (lexDigits cs).map fun (ds, cs) => ('+' :: ds, cs)
  | '-' :: cs => (lexDigits cs).map fun (ds, cs) => ('-' :: ds, cs)
  | cs => lexDigits cs

def lexExponent : List Char → Option (Option (Bool × List Char) × List Char)
  | 'e' :: cs => (lexExponentDigits cs).map fun (ds, cs) => (some (false, ds), cs)
  | 'E' :: cs => (lexExponentDigits cs).map fun (ds, cs) => (some (true, ds), cs)
  | cs => some (none, cs)

def lexUnsigned (negative : Bool) (cs : List Char) : Option (NumberLexeme × List Char) := do
  let (integer, cs) ← lexInteger cs
  let (fraction, cs) ← lexFraction cs
  let (exponent, cs) ← lexExponent cs
  some (⟨negative, integer, fraction, exponent⟩, cs)

/-- The token at the start of a text. -/
def lexToken : List Char → Option (Token × List Char)
  | 'n' :: 'u' :: 'l' :: 'l' :: cs => some (.null, cs)
  | 't' :: 'r' :: 'u' :: 'e' :: cs => some (.bool true, cs)
  | 'f' :: 'a' :: 'l' :: 's' :: 'e' :: cs => some (.bool false, cs)
  | '[' :: cs => some (.openArray, cs)
  | ']' :: cs => some (.closeArray, cs)
  | '{' :: cs => some (.openObject, cs)
  | '}' :: cs => some (.closeObject, cs)
  | ',' :: cs => some (.comma, cs)
  | ':' :: cs => some (.colon, cs)
  | '"' :: cs => (lexString cs).map fun (parts, cs) => (.string (pairSurrogates parts), cs)
  | '-' :: cs => (lexUnsigned true cs).map fun (n, cs) => (.number n, cs)
  | cs => (lexUnsigned false cs).map fun (n, cs) => (.number n, cs)

def isSpace (c : Char) : Bool := c = ' ' || c = '\t' || c = '\n' || c = '\r'

/-- The first argument bounds the number of tokens; a text has no more tokens than characters. -/
def lexTokens : ℕ → List Char → List Token
  | 0, cs => if cs.all isSpace then [] else [.invalid]
  | fuel + 1, cs =>
    match cs.dropWhile isSpace with
    | [] => []
    | c :: cs =>
      match lexToken (c :: cs) with
      | none => [.invalid]
      | some (token, cs) => token :: lexTokens fuel cs

def lex : List Token := lexTokens cs.length cs

example : lex "[ 1, -2.5e3, \"a\\ud83d\\ude00\\ud83d\" ] @".toList = [.openArray,
    .number ⟨false, 1, none, none⟩, .comma,
    .number ⟨true, 2, some ['5'], some (false, ['3'])⟩, .comma,
    .string [.scalar 'a', .scalar '😀', .loneSurrogate 0xD83D], .closeArray, .invalid] := by
  decide +kernel

/-- A value with strings and numbers as they are written. -/
abbrev Tree := Json (List StringPart) NumberLexeme

mutual

def tokens : Tree → List Token
  | .null => [.null]
  | .bool b => [.bool b]
  | .number n => [.number n]
  | .string s => [.string s]
  | .array xs => .openArray :: elementTokens true xs
  | .object ms => .openObject :: memberTokens true ms

/-- What follows the opening bracket; all elements but the first have a comma in front. -/
def elementTokens (first : Bool) : List Tree → List Token
  | [] => [.closeArray]
  | x :: xs => (if first then [] else [.comma]) ++ (tokens x ++ elementTokens false xs)

def memberTokens (first : Bool) : List (List StringPart × Tree) → List Token
  | [] => [.closeObject]
  | (k, x) :: ms =>
    (if first then [] else [.comma]) ++ (.string k :: .colon :: (tokens x ++ memberTokens false ms))

end

/-- What stands in front of an element or a key. -/
def separator : Bool → List Token → Option (List Token)
  | true, ts | false, .comma :: ts => some ts
  | false, _ => none

mutual

/-- The value at the start of the tokens, and the tokens behind it. The first argument bounds the
number of calls. -/
def parseValue : ℕ → List Token → Option (Tree × List Token)
  | 0, _ => none
  | fuel + 1, ts =>
    match ts with
    | .null :: ts => some (.null, ts)
    | .bool b :: ts => some (.bool b, ts)
    | .number n :: ts => some (.number n, ts)
    | .string s :: ts => some (.string s, ts)
    | .openArray :: ts => (parseElements fuel true ts).map fun (xs, ts) => (.array xs, ts)
    | .openObject :: ts => (parseMembers fuel true ts).map fun (ms, ts) => (.object ms, ts)
    | _ => none

def parseElements : ℕ → Bool → List Token → Option (List Tree × List Token)
  | 0, _, _ => none
  | fuel + 1, first, ts =>
    match ts with
    | .closeArray :: ts => some ([], ts)
    | ts => do
      let ts ← separator first ts
      let (x, ts) ← parseValue fuel ts
      let (xs, ts) ← parseElements fuel false ts
      some (x :: xs, ts)

def parseMembers : ℕ → Bool → List Token → Option (List (List StringPart × Tree) × List Token)
  | 0, _, _ => none
  | fuel + 1, first, ts =>
    match ts with
    | .closeObject :: ts => some ([], ts)
    | ts => do
      match ← separator first ts with
      | .string k :: .colon :: ts =>
        let (x, ts) ← parseValue fuel ts
        let (ms, ts) ← parseMembers fuel false ts
        some ((k, x) :: ms, ts)
      | _ => none

end

/-- The value that is all of a text. -/
def parse : Option Tree :=
  match parseValue (lex cs).length (lex cs) with
  | some (v, []) => some v
  | _ => none

mutual

/-- The number of values in a value, itself included. -/
def nodeCount {S N : Type*} : Json S N → ℕ
  | .array xs => 1 + elementCount xs
  | .object ms => 1 + memberCount ms
  | _ => 1

def elementCount {S N : Type*} : List (Json S N) → ℕ
  | [] => 0
  | x :: xs => nodeCount x + elementCount xs

def memberCount {S N : Type*} : List (S × Json S N) → ℕ
  | [] => 0
  | (_, x) :: ms => nodeCount x + memberCount ms

end

mutual

/-- How deep values lie in a value. -/
def height {S N : Type*} : Json S N → ℕ
  | .array xs => elementHeight xs
  | .object ms => memberHeight ms
  | _ => 0

def elementHeight {S N : Type*} : List (Json S N) → ℕ
  | [] => 0
  | x :: xs => max (height x + 1) (elementHeight xs)

def memberHeight {S N : Type*} : List (S × Json S N) → ℕ
  | [] => 0
  | (_, x) :: ms => max (height x + 1) (memberHeight ms)

end

/-- What a reader makes of the strings and numbers it meets. -/
structure Reader where
  string : List StringPart → Option String
  number : NumberLexeme → Bool

mutual

/-- The reader reads all strings and numbers, and no object has two keys that it reads alike. -/
def Strict (R : Reader) : Tree → Prop
  | .number n => R.number n = true
  | .string s => ∃ text, R.string s = some text
  | .array xs => StrictElements R xs
  | .object ms => StrictMembers R [] ms
  | _ => True

def StrictElements (R : Reader) : List Tree → Prop
  | [] => True
  | x :: xs => Strict R x ∧ StrictElements R xs

/-- The keys in `seen` stand in front. -/
def StrictMembers (R : Reader) (seen : List String) : List (List StringPart × Tree) → Prop
  | [] => True
  | (k, x) :: ms => ∃ key, R.string k = some key ∧ key ∉ seen ∧ Strict R x ∧
    StrictMembers R (key :: seen) ms

end

theorem one_le_nodeCount {S N : Type*} (v : Json S N) : 1 ≤ nodeCount v := by
  cases v <;> simp [nodeCount]

def Token.isScalar : Token → Bool
  | .string s => s.all StringPart.isScalar
  | _ => true

open Token (isScalar comma)

/-- The reader that refuses strings with half a surrogate pair. -/
def Reader.scalarOnly (R : Reader) : Reader where
  string s := if s.all StringPart.isScalar then R.string s else none
  number := R.number

variable {R : Reader}

theorem Reader.scalarOnly_string_eq_some {s text} :
    R.scalarOnly.string s = some text ↔
      R.string s = some text ∧ s.all StringPart.isScalar = true := by
  simp only [scalarOnly]
  split_ifs with h <;> simp [h]

mutual

/-- It reads the values that the reader reads and that have no such string. -/
theorem strict_scalarOnly_iff : ∀ v : Tree,
    Strict R.scalarOnly v ↔ Strict R v ∧ (tokens v).all isScalar = true
  | .null => by simp [Strict, tokens, isScalar]
  | .bool b => by simp [Strict, tokens, isScalar]
  | .number n => by simp [Strict, tokens, isScalar, Reader.scalarOnly]
  | .string s => by simp [Strict, tokens, isScalar, Reader.scalarOnly_string_eq_some]
  | .array xs => by
    simp [Strict, tokens, isScalar, strictElements_scalarOnly_iff true xs]
  | .object ms => by
    simp [Strict, tokens, isScalar, strictMembers_scalarOnly_iff true [] ms]

theorem strictElements_scalarOnly_iff (first : Bool) : ∀ xs : List Tree,
    StrictElements R.scalarOnly xs ↔
      StrictElements R xs ∧ (elementTokens first xs).all isScalar = true
  | [] => by simp [StrictElements, elementTokens, isScalar]
  | x :: xs => by
    have hse : (if first then [] else [comma]).all isScalar = true := by
      cases first <;> rfl
    rw [StrictElements, strict_scalarOnly_iff x, strictElements_scalarOnly_iff false xs,
      StrictElements, elementTokens, List.all_append, List.all_append, hse,
      Bool.true_and, Bool.and_eq_true]
    tauto

theorem strictMembers_scalarOnly_iff (first : Bool) (seen : List String) :
    ∀ ms : List (List StringPart × Tree), StrictMembers R.scalarOnly seen ms ↔
      StrictMembers R seen ms ∧ (memberTokens first ms).all isScalar = true
  | [] => by simp [StrictMembers, memberTokens, isScalar]
  | (k, x) :: ms => by
    have hse : (if first then [] else [comma]).all isScalar = true := by
      cases first <;> rfl
    simp only [StrictMembers, Reader.scalarOnly_string_eq_some, strict_scalarOnly_iff x,
      strictMembers_scalarOnly_iff false _ ms, memberTokens, List.all_append, List.all_cons,
      hse, isScalar, Bool.true_and, Bool.and_eq_true]
    constructor
    · rintro ⟨key, ⟨hkey, hsc⟩, hnew, ⟨hx, hxs⟩, hms, hmss⟩
      exact ⟨⟨key, hkey, hnew, hx, hms⟩, hsc, hxs, hmss⟩
    · rintro ⟨⟨key, hkey, hnew, hx, hms⟩, hsc, hxs, hmss⟩
      exact ⟨key, ⟨hkey, hsc⟩, hnew, ⟨hx, hxs⟩, hms, hmss⟩

end

end RedevPlugin.Json
