import RedevPlugin.Foundation.Text

/-! The scopes of a session and of what a plugin owns. Hashes of owners are texts of
one shape; two scopes match when they are valid and equal. -/

namespace RedevPlugin.Session

def isIdentifierChar (c : Char) : Bool := c.isAlphanum || c = '.' || c = '_' || c = ':' || c = '-'

/-- A letter or digit, and up to 255 more of these or `. _ : -`. -/
def validOwnerHash (value : String) : Bool :=
  match value.toList with
  | [] => false
  | c :: cs => cs.length ≤ 255 && c.isAlphanum && cs.all isIdentifierChar

theorem notMem_of_validOwnerHash {value} (h : validOwnerHash value = true) {c}
    (hc : isIdentifierChar c = false) : c ∉ value.toList := by
  unfold validOwnerHash at h
  intro hmem
  split at h
  · cases h
  rename_i d ds hva
  rw [hva] at hmem
  simp only [Bool.and_eq_true, List.all_eq_true] at h
  rcases List.mem_cons.mp hmem with rfl | hmem
  · simp [isIdentifierChar, h.1.2] at hc
  · simp [h.2 _ hmem] at hc

structure SessionScope where
  (ownerSessionHash ownerUserHash ownerEnvHash sessionChannelIdHash : String)
  deriving DecidableEq

def SessionScope.valid (s : SessionScope) : Bool :=
  validOwnerHash s.ownerSessionHash && validOwnerHash s.ownerUserHash &&
    validOwnerHash s.ownerEnvHash && validOwnerHash s.sessionChannelIdHash

def SessionScope.matches (s other : SessionScope) : Bool := s.valid && other.valid && s = other

inductive ScopeKind where
  | user
  | environment
  /-- Any other text. -/
  | other (name : String)
  deriving DecidableEq

/-- The owner of what outlives a session. -/
structure ResourceScope where
  kind : ScopeKind
  ownerEnvHash : String
  ownerUserHash : String
  deriving DecidableEq

def ResourceScope.valid (s : ResourceScope) : Bool :=
  match s.kind with
  | .other _ => false
  | .user => validOwnerHash s.ownerEnvHash && validOwnerHash s.ownerUserHash
  | .environment => validOwnerHash s.ownerEnvHash && Text.trim s.ownerUserHash = ""

def ResourceScope.matches (s other : ResourceScope) : Bool :=
  s.valid && other.valid && s.kind = other.kind && s.ownerEnvHash = other.ownerEnvHash &&
    s.ownerUserHash = other.ownerUserHash

theorem ResourceScope.matches_iff {s other : ResourceScope} :
    s.matches other = true ↔ s.valid = true ∧ s = other := by
  obtain ⟨kind, env, user⟩ := s
  obtain ⟨kind', env', user'⟩ := other
  simp only [ResourceScope.matches, Bool.and_eq_true, decide_eq_true_eq, ResourceScope.mk.injEq]
  constructor
  · rintro ⟨⟨⟨⟨hs, -⟩, hkind⟩, henv⟩, hus⟩
    exact ⟨hs, hkind, henv, hus⟩
  · rintro ⟨hs, rfl, rfl, rfl⟩
    exact ⟨⟨⟨⟨hs, hs⟩, rfl⟩, rfl⟩, rfl⟩

end RedevPlugin.Session
