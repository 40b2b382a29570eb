import RedevPlugin.Foundation.Json

/-! The JSON writers of the two sides. Go's `encoding/json` escapes the control
characters below the space, the quote and the backslash, the two line separators
and, unless told otherwise, the characters of HTML. The runtime's own
`escape_json_string` escapes all control characters and no others but the quote
and the backslash, with fewer short forms. -/

namespace RedevPlugin.Wire

open Json

/-- Four lower-case hexadecimal digits, as `{:04x}` prints a code below `0x10000`. -/
def hex4 (n : ℕ) : List Char :=
  [(n / 4096 % 16).digitChar, (n / 256 % 16).digitChar, (n / 16 % 16).digitChar, (n % 16).digitChar]

def codeUnit (c : Char) : Json.Unit := ⟨'\\' :: 'u' :: hex4 c.toNat, .code ..⟩

def shortUnit (c : Char) (h : c ≠ 'u') : Json.Unit := ⟨['\\', c], .short c h⟩

/-- A character that stands for itself. -/
def plainUnit (c : Char) (h : c ≠ '"' ∧ c ≠ '\\') : Json.Unit := ⟨[c], .plain c h.1 h.2⟩

def isControl (c : Char) : Bool := c.toNat < 0x20 || (0x7F ≤ c.toNat && c.toNat ≤ 0x9F)

/-- `escape_json_string`, for one character. -/
def rustEscape (c : Char) : Json.Unit :=
  if hq : c = '"' then shortUnit '"' (by decide)
  else if hb : c = '\\' then shortUnit '\\' (by decide)
  else if c = '\n' then shortUnit 'n' (by decide)
  else if c = '\r' then shortUnit 'r' (by decide)
  else if c = '\t' then shortUnit 't' (by decide)
  else if isControl c then codeUnit c
  else plainUnit c ⟨hq, hb⟩

variable {c : Char}

theorem toNat_letter (hc : (c.isLower || c = '_') = true) : 0x5F ≤ c.toNat ∧ c.toNat ≤ 0x7A := by
  have hlow : c.isLower = (decide (c.val ≥ 'a'.val) && decide (c.val ≤ 'z'.val)) := rfl
  simp only [hlow, Bool.or_eq_true, Bool.and_eq_true, decide_eq_true_eq] at hc
  rcases hc with ⟨hlo, hhi⟩ | rfl
  · exact ⟨Nat.le_trans (by decide) (UInt32.le_iff_toNat_le.mp hlo), UInt32.le_iff_toNat_le.mp hhi⟩
  · decide

/-- Lower-case letters and the underscore stand for themselves. -/
theorem rustEscape_letter (hc : (c.isLower || c = '_') = true) : (rustEscape c).1 = [c] := by
  have hra := toNat_letter hc
  have hne : ∀ d : Char, d.toNat < 0x5F → c ≠ d := by
    rintro d hd rfl
    omega
  have hco : isControl c = false := by simp [isControl]; omega
  simp [rustEscape, hne, hco, plainUnit]

/-- The line and paragraph separators. -/
def isSeparator (c : Char) : Bool := c.toNat = 0x2028 ∨ c.toNat = 0x2029

/-- `encoding/json`, for one character. -/
def goEscape (escapeHTML : Bool) (c : Char) : Json.Unit :=
  if hq : c = '"' then shortUnit '"' (by decide)
  else if hb : c = '\\' then shortUnit '\\' (by decide)
  else if c = '\x08' then shortUnit 'b' (by decide)
  else if c = '\x0C' then shortUnit 'f' (by decide)
  else if c = '\n' then shortUnit 'n' (by decide)
  else if c = '\r' then shortUnit 'r' (by decide)
  else if c = '\t' then shortUnit 't' (by decide)
  else if c.toNat < 0x20 || (escapeHTML && (c = '<' || c = '>' || c = '&')) || isSeparator c then
    codeUnit c
  else plainUnit c ⟨hq, hb⟩

/-- `serde_json`, for one character. -/
def serdeEscape (c : Char) : Json.Unit :=
  if hq : c = '"' then shortUnit '"' (by decide)
  else if hb : c = '\\' then shortUnit '\\' (by decide)
  else if c = '\x08' then shortUnit 'b' (by decide)
  else if c = '\t' then shortUnit 't' (by decide)
  else if c = '\n' then shortUnit 'n' (by decide)
  else if c = '\x0C' then shortUnit 'f' (by decide)
  else if c = '\r' then shortUnit 'r' (by decide)
  else if c.toNat < 0x20 then codeUnit c
  else plainUnit c ⟨hq, hb⟩

/-- `encode_worker_canonical_json` replaces the separators in the text of `serde_json`. -/
def replaceSeparator (c : Char) : List Char :=
  if c = '\u2028' then ['\\', 'u', '2', '0', '2', '8']
  else if c = '\u2029' then ['\\', 'u', '2', '0', '2', '9']
  else [c]

theorem replaceSeparator_of_ne (h : isSeparator c = false) : replaceSeparator c = [c] := by
  have hne : c ≠ '\u2028' ∧ c ≠ '\u2029' := by
    constructor <;> rintro rfl <;> revert h <;> decide
  rw [replaceSeparator, if_neg hne.1, if_neg hne.2]

theorem codeUnit_replaced (c : Char) :
    (codeUnit c).1.flatMap replaceSeparator = (codeUnit c).1 := by
  have hdi : ∀ n < 16, isSeparator (Nat.digitChar n) = false := by decide
  have hk : ∀ n : ℕ, replaceSeparator (n % 16).digitChar = [(n % 16).digitChar] := fun n =>
    replaceSeparator_of_ne (hdi _ (Nat.mod_lt n (by decide)))
  have hsl : replaceSeparator '\\' = ['\\'] := by decide
  have hu : replaceSeparator 'u' = ['u'] := by decide
  simp [codeUnit, hex4, hk, hsl, hu]

/-- With the separators replaced, `serde_json` escapes as `encoding/json` does without HTML. -/
theorem serdeEscape_replaced (c : Char) :
    (serdeEscape c).1.flatMap replaceSeparator = (goEscape false c).1 := by
  by_cases hsp : c ∈ ['"', '\\', '\n', '\r', '\t', '\x08', '\x0C', '\u2028', '\u2029']
  · simp only [List.mem_cons, List.not_mem_nil, or_false] at hsp
    rcases hsp with rfl | rfl | rfl | rfl | rfl | rfl | rfl | rfl | rfl <;> decide
  · simp only [List.mem_cons, List.not_mem_nil, or_false, not_or] at hsp
    obtain ⟨hq, hb, hn, hr, ht, hbs, hff, hli, hpa⟩ := hsp
    have hsep : isSeparator c = false := by
      simp only [isSeparator, Bool.decide_or, Bool.or_eq_false_iff, decide_eq_false_iff_not]
      exact ⟨fun h => hli (Char.toNat_inj.mp h), fun h => hpa (Char.toNat_inj.mp h)⟩
    have hse : serdeEscape c =
        if c.toNat < 0x20 then codeUnit c else plainUnit c ⟨hq, hb⟩ := by
      rw [serdeEscape, dif_neg hq, dif_neg hb, if_neg hbs, if_neg ht, if_neg hn, if_neg hff,
        if_neg hr]
    have hgo : goEscape false c =
        if c.toNat < 0x20 then codeUnit c else plainUnit c ⟨hq, hb⟩ := by
      rw [goEscape, dif_neg hq, dif_neg hb, if_neg hbs, if_neg hff, if_neg hn, if_neg hr, if_neg ht]
      simp [hsep]
    rw [hse, hgo]
    split_ifs
    · exact codeUnit_replaced c
    · simp [plainUnit, replaceSeparator_of_ne hsep]

/-- The characters for which `escape_json_string` and `encoding/json` differ are
those of HTML, the separators, backspace, form feed, and the control characters
from DEL on. -/
def sameEscape (c : Char) : Bool :=
  !(c = '<' || c = '>' || c = '&' || isSeparator c || c = '\x08' || c = '\x0C' ||
    (0x7F ≤ c.toNat && c.toNat ≤ 0x9F))

theorem sameEscape_letter (hc : (c.isLower || c = '_') = true) : sameEscape c = true := by
  have hra := toNat_letter hc
  have hne : ∀ d : Char, d.toNat < 0x5F → c ≠ d := by
    rintro d hd rfl
    omega
  simp [sameEscape, isSeparator, hne]
  omega

theorem plainUnit_ne_codeUnit (c d : Char) (h : c ≠ '"' ∧ c ≠ '\\') :
    plainUnit c h ≠ codeUnit d := by
  intro he
  have hli := congrArg Subtype.val he
  simp [plainUnit, codeUnit] at hli

theorem goEscape_eq_rustEscape_iff (c : Char) :
    goEscape true c = rustEscape c ↔ sameEscape c = true := by
  by_cases hsp : c ∈ ['"', '\\', '\n', '\r', '\t', '\x08', '\x0C', '<', '>', '&']
  · simp only [List.mem_cons, List.not_mem_nil, or_false] at hsp
    rcases hsp with rfl | rfl | rfl | rfl | rfl | rfl | rfl | rfl | rfl | rfl <;> decide
  · simp only [List.mem_cons, List.not_mem_nil, or_false, not_or] at hsp
    obtain ⟨hq, hb, hn, hr, ht, hbs, hff, hlt, hgt, hamp⟩ := hsp
    have hgo : goEscape true c =
        if c.toNat < 0x20 || isSeparator c then codeUnit c else plainUnit c ⟨hq, hb⟩ := by
      rw [goEscape, dif_neg hq, dif_neg hb, if_neg hbs, if_neg hff, if_neg hn, if_neg hr, if_neg ht]
      simp [hlt, hgt, hamp]
    have hru : rustEscape c = if isControl c then codeUnit c else plainUnit c ⟨hq, hb⟩ := by
      rw [rustEscape, dif_neg hq, dif_neg hb, if_neg hn, if_neg hr, if_neg ht]
    have hsame : sameEscape c = !(isSeparator c || (0x7F ≤ c.toNat && c.toNat ≤ 0x9F)) := by
      simp [sameEscape, hbs, hff, hlt, hgt, hamp]
    -- below the space both write the code, above it Go the separators and Rust DEL to 0x9F
    have hpl := plainUnit_ne_codeUnit c c ⟨hq, hb⟩
    rw [hgo, hru, hsame]
    unfold isControl
    by_cases hlow : c.toNat < 0x20
    · have hsep : isSeparator c = false := by simp [isSeparator]; omega
      have hdel : ¬ 0x7F ≤ c.toNat := by omega
      simp [hlow, hsep, hdel]
    · by_cases hsep : isSeparator c = true
      · have hdel : ¬ c.toNat ≤ 0x9F := by
          simp only [isSeparator, Bool.decide_or, Bool.or_eq_true, decide_eq_true_eq] at hsep
          omega
        simp [hlow, hsep, hdel, hpl.symm]
      · by_cases hdel : 0x7F ≤ c.toNat ∧ c.toNat ≤ 0x9F
        · simp [hlow, hsep, hdel, hpl]
        · simp [hlow, hsep, hdel]
          omega

theorem digitChar_inj : ∀ m < 16, ∀ n < 16, Nat.digitChar m = Nat.digitChar n → m = n := by
  decide

/-- Codes below `0x10000` are told apart by their four digits. -/
theorem codeUnit_inj {d} (hc : c.toNat < 0x10000) (hd : d.toNat < 0x10000)
    (h : codeUnit c = codeUnit d) : c = d := by
  have hli := congrArg Subtype.val h
  simp only [codeUnit, hex4, List.cons.injEq, and_true, true_and] at hli
  obtain ⟨h3, h2, h1, h0⟩ := hli
  have e3 := digitChar_inj _ (Nat.mod_lt _ (by decide)) _ (Nat.mod_lt _ (by decide)) h3
  have e2 := digitChar_inj _ (Nat.mod_lt _ (by decide)) _ (Nat.mod_lt _ (by decide)) h2
  have e1 := digitChar_inj _ (Nat.mod_lt _ (by decide)) _ (Nat.mod_lt _ (by decide)) h1
  have e0 := digitChar_inj _ (Nat.mod_lt _ (by decide)) _ (Nat.mod_lt _ (by decide)) h0
  exact Char.toNat_inj.mp (by omega)

theorem toNat_lt_of_isControl (h : isControl c = true) : c.toNat < 0x10000 := by
  simp only [isControl, Bool.or_eq_true, Bool.and_eq_true, decide_eq_true_eq] at h
  omega

/-- The character a short form stands for. -/
def shortMeaning : Char → Char
  | 'b' => '\x08'
  | 'f' => '\x0C'
  | 'n' => '\n'
  | 'r' => '\r'
  | 't' => '\t'
  | c => c

/-- A writer uses a short form of the character, its code or the character. -/
def Forms (escape : Char → Json.Unit) (c : Char) : Prop :=
  (∃ x hx, escape c = shortUnit x hx ∧ shortMeaning x = c) ∨
    (c.toNat < 0x10000 ∧ escape c = codeUnit c) ∨ ∃ hc, escape c = plainUnit c hc

theorem rustEscape_forms (c : Char) : Forms rustEscape c := by
  unfold Forms
  generalize hu : rustEscape c = u
  unfold rustEscape at hu
  split_ifs at hu with hq hb hn hr ht hco <;> subst hu
  · exact .inl ⟨_, by decide, rfl, hq.symm⟩
  · exact .inl ⟨_, by decide, rfl, hb.symm⟩
  · exact .inl ⟨_, by decide, rfl, hn.symm⟩
  · exact .inl ⟨_, by decide, rfl, hr.symm⟩
  · exact .inl ⟨_, by decide, rfl, ht.symm⟩
  · exact .inr (.inl ⟨toNat_lt_of_isControl hco, rfl⟩)
  · exact .inr (.inr ⟨⟨hq, hb⟩, rfl⟩)

theorem goEscape_forms (escapeHTML : Bool) (c : Char) : Forms (goEscape escapeHTML) c := by
  unfold Forms
  generalize hu : goEscape escapeHTML c = u
  unfold goEscape at hu
  split_ifs at hu with hq hb hbs hff hn hr ht hcode <;> subst hu
  · exact .inl ⟨_, by decide, rfl, hq.symm⟩
  · exact .inl ⟨_, by decide, rfl, hb.symm⟩
  · exact .inl ⟨_, by decide, rfl, hbs.symm⟩
  · exact .inl ⟨_, by decide, rfl, hff.symm⟩
  · exact .inl ⟨_, by decide, rfl, hn.symm⟩
  · exact .inl ⟨_, by decide, rfl, hr.symm⟩
  · exact .inl ⟨_, by decide, rfl, ht.symm⟩
  · refine .inr (.inl ⟨?_, rfl⟩)
    simp only [isSeparator, Bool.or_eq_true, Bool.and_eq_true, decide_eq_true_eq] at hcode
    rcases hcode with (hlow | ⟨-, (rfl | rfl) | rfl⟩) | hsep
    · omega
    · decide
    · decide
    · decide
    · omega
  · exact .inr (.inr ⟨⟨hq, hb⟩, rfl⟩)

/-- The forms have different lengths, so both characters are written in the same one. -/
theorem Forms.injective {escape} (h : ∀ c, Forms escape c) : Function.Injective escape := by
  intro c d he
  have hval := congrArg Subtype.val he
  rcases h c with ⟨x, hx, hcx, hmx⟩ | ⟨hclt, hcode⟩ | ⟨hcp, hpl⟩ <;>
    rcases h d with ⟨y, hy, hdy, hmy⟩ | ⟨hdlt, hdc⟩ | ⟨hdp, hdpl⟩
  · rw [hcx, hdy] at hval
    simp only [shortUnit, List.cons.injEq, and_true, true_and] at hval
    rw [← hmx, ← hmy, hval]
  · rw [hcx, hdc] at hval
    simp [shortUnit, codeUnit, hex4] at hval
  · rw [hcx, hdpl] at hval
    simp [shortUnit, plainUnit] at hval
  · rw [hcode, hdy] at hval
    simp [shortUnit, codeUnit, hex4] at hval
  · exact codeUnit_inj hclt hdlt (by rw [← hcode, ← hdc, he])
  · rw [hcode, hdpl] at hval
    simp [codeUnit, plainUnit] at hval
  · rw [hpl, hdy] at hval
    simp [shortUnit, plainUnit] at hval
  · rw [hpl, hdc] at hval
    simp [codeUnit, plainUnit] at hval
  · rw [hpl, hdpl] at hval
    simpa [plainUnit] using hval

theorem rustEscape_injective : Function.Injective rustEscape := Forms.injective rustEscape_forms

end RedevPlugin.Wire
