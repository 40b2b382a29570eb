import RedevPlugin.Foundation.Text

/-! Reading the fields of an IPC payload. All fields of a payload are optional in
its Rust type; the readers here say which values are accepted and with which error
the others are refused. Required texts come out trimmed and not empty. -/

namespace RedevPlugin.Wire

open Text

inductive IpcError where
  | decodeFailed (context : String)
  | encodeFailed (context : String)
  | missingField (field : String)
  | invalidField (field : String)
  | protocolViolation (message : String)

abbrev IpcResult := Except IpcError

theorem bind_eq_ok {ε α β : Type} {x : Except ε α} {f : α → Except ε β} {b : β} :
    (x >>= f) = .ok b ↔ ∃ a, x = .ok a ∧ f a = .ok b := by
  cases x <;> simp [bind, Except.bind]

/-- A text as the readers return it. -/
abbrev TrimmedText := { s : String // trim s = s ∧ s ≠ "" }

/-- `optional_string_ref`: a missing text and a blank one are the same. -/
def optionalStringRef (value : Option String) : Option TrimmedText :=
  value.bind fun s => if h : trim s = "" then none else some ⟨trim s, trim_trim s, h⟩

def requiredString (value : Option String) (field : String) : IpcResult TrimmedText :=
  match optionalStringRef value with
  | some text => .ok text
  | none => .error (.missingField field)

variable {s field : String} {text : TrimmedText} {value : Option String} {n : ℕ}

theorem optionalStringRef_some (h : trim s ≠ "") :
    optionalStringRef (some s) = some ⟨trim s, trim_trim s, h⟩ := by
  simp [optionalStringRef, h]

theorem optionalStringRef_blank (h : trim s = "") : optionalStringRef (some s) = none := by
  simp [optionalStringRef, h]

theorem eq_trim_of_optionalStringRef (h : optionalStringRef (some s) = some text) :
    trim s = text.1 := by
  simp only [optionalStringRef, Option.bind_some] at h
  split_ifs at h
  cases h
  rfl

theorem requiredString_some (h : trim s ≠ "") :
    requiredString (some s) field = .ok ⟨trim s, trim_trim s, h⟩ := by
  rw [requiredString, optionalStringRef_some h]

theorem requiredString_eq_ok :
    requiredString value field = .ok text ↔ optionalStringRef value = some text := by
  unfold requiredString
  cases optionalStringRef value <;> simp

/-- A member with the tag `omitempty`. -/
def omitEmpty (s : String) : Option String := if s = "" then none else some s

theorem optionalStringRef_omitEmpty (s : String) :
    optionalStringRef (omitEmpty s) = optionalStringRef (some s) := by
  unfold omitEmpty
  split_ifs with h
  · subst h
    simp [optionalStringRef, trim, trimChars]
  · rfl

theorem map_optionalStringRef (s : String) :
    (optionalStringRef (some s)).map (·.1) = omitEmpty (trim s) := by
  simp only [optionalStringRef, Option.bind_some, omitEmpty]
  split_ifs <;> rfl

theorem omitEmpty_eq_some {t} : omitEmpty s = some t ↔ s = t ∧ t ≠ "" := by
  unfold omitEmpty
  split_ifs <;> grind

theorem requiredString_omitEmpty (s field : String) :
    requiredString (omitEmpty s) field = requiredString (some s) field := by
  rw [requiredString, requiredString, optionalStringRef_omitEmpty]

/-- The largest integer that JavaScript keeps exactly. -/
def maxJsonSafeInteger : ℕ := 9007199254740991

def positiveI64 (value : Option ℤ) (field : String) : IpcResult ℤ :=
  match value with
  | none => .error (.missingField field)
  | some n => if 0 < n ∧ n ≤ maxJsonSafeInteger then .ok n else .error (.invalidField field)

def nonnegativeI64 (value : Option ℤ) (field : String) : IpcResult ℤ :=
  match value with
  | none => .error (.missingField field)
  | some n => if 0 ≤ n ∧ n ≤ maxJsonSafeInteger then .ok n else .error (.invalidField field)

def requiredU64 (value : Option ℕ) (field : String) : IpcResult ℕ :=
  match value with
  | none => .error (.missingField field)
  | some n => .ok n

def validateSafeU64 (value : ℕ) (field : String) : IpcResult ℕ :=
  if maxJsonSafeInteger < value then .error (.invalidField field) else .ok value

def validatePositiveU64 (value : ℕ) (field : String) : IpcResult ℕ :=
  if value = 0 then .error (.invalidField field) else validateSafeU64 value field

def requiredSafeU64 (value : Option ℕ) (field : String) : IpcResult ℕ := do
  validateSafeU64 (← requiredU64 value field) field

def requiredPositiveU64 (value : Option ℕ) (field : String) : IpcResult ℕ := do
  validatePositiveU64 (← requiredU64 value field) field

theorem positiveI64_some {n : ℤ} (h : 0 < n ∧ n ≤ maxJsonSafeInteger) :
    positiveI64 (some n) field = .ok n := if_pos h

theorem requiredSafeU64_some (h : n ≤ maxJsonSafeInteger) :
    requiredSafeU64 (some n) field = .ok n := if_neg (Nat.not_lt.mpr h)

theorem requiredPositiveU64_some (h : 0 < n ∧ n ≤ maxJsonSafeInteger) :
    requiredPositiveU64 (some n) field = .ok n :=
  (if_neg (Nat.pos_iff_ne_zero.mp h.1)).trans (if_neg (Nat.not_lt.mpr h.2))

theorem eq_some_of_positiveI64 {value n} (h : positiveI64 value field = .ok n) :
    value = some n := by
  revert h
  fun_cases positiveI64 value field <;> rintro ⟨⟩
  rfl

theorem eq_some_of_nonnegativeI64 {value n} (h : nonnegativeI64 value field = .ok n) :
    value = some n := by
  revert h
  fun_cases nonnegativeI64 value field <;> rintro ⟨⟩
  rfl

theorem eq_some_of_requiredSafeU64 {value : Option ℕ} (h : requiredSafeU64 value field = .ok n) :
    value = some n := by
  obtain ⟨m, hm, hn⟩ := bind_eq_ok.mp h
  unfold validateSafeU64 at hn
  split_ifs at hn
  cases hn
  unfold requiredU64 at hm
  split at hm <;> cases hm
  rfl

theorem eq_some_of_requiredPositiveU64 {value : Option ℕ}
    (h : requiredPositiveU64 value field = .ok n) : value = some n := by
  obtain ⟨m, hm, hn⟩ := bind_eq_ok.mp h
  unfold validatePositiveU64 at hn
  split_ifs at hn
  exact eq_some_of_requiredSafeU64 (bind_eq_ok.mpr ⟨m, hm, hn⟩)

end RedevPlugin.Wire
