import Mathlib.Data.List.DropRight

/-! White space in texts. A text is trimmed by the code points of the Unicode
property `White_Space`, which is what `str::trim` and `strings.TrimSpace` use;
the library's `Char.isWhitespace` knows the ASCII ones only. -/

namespace RedevPlugin.Text

/-- The Unicode property `White_Space`. -/
def isWhiteSpace (c : Char) : Bool :=
  let n := c.toNat
  (0x09 ≤ n && n ≤ 0x0D) || n == 0x20 || n == 0x85 || n == 0xA0 || n == 0x1680 ||
    (0x2000 ≤ n && n ≤ 0x200A) || n == 0x2028 || n == 0x2029 || n == 0x202F || n == 0x205F ||
    n == 0x3000

/-- The characters without the white space at both ends. -/
def trimChars (cs : List Char) : List Char := (cs.dropWhile isWhiteSpace).rdropWhile isWhiteSpace

def trim (s : String) : String := String.ofList (trimChars s.toList)

theorem trimChars_idem (cs : List Char) : trimChars (trimChars cs) = trimChars cs := by
  have hfr : (trimChars cs).dropWhile isWhiteSpace = trimChars cs := by
    obtain ⟨tail, hta⟩ := List.rdropWhile_prefix isWhiteSpace (cs.dropWhile isWhiteSpace)
    change trimChars cs ++ tail = _ at hta
    cases ht : trimChars cs with
    | nil => rfl
    | cons c rest =>
      -- the first character is the first that is left of the text
      have hide := List.dropWhile_idempotent (p := isWhiteSpace) (l := cs)
      rw [← hta, ht, List.cons_append, List.dropWhile_eq_self_iff] at hide
      exact List.dropWhile_cons_of_neg (by simpa using hide (by simp))
  rw [trimChars, hfr]
  exact List.rdropWhile_idempotent ..

theorem trim_trim (s : String) : trim (trim s) = trim s := by
  simp [trim, trimChars_idem]

variable {s a b x y : String} {c : Char}

theorem trim_eq_self_of_length (h : (trim s).toList.length = s.toList.length) : trim s = s := by
  have hsub : (trim s).toList.Sublist s.toList := by
    rw [trim, String.toList_ofList]
    exact ( List.rdropWhile_prefix ..).sublist.trans (List.dropWhile_suffix ..).sublist
  exact String.toList_injective (hsub.eq_of_length h)

/-- The text is empty once trimmed. -/
def blank (s : String) : Bool := (trimChars s.toList).isEmpty

theorem trim_eq_empty_iff : trim s = "" ↔ blank s = true := by
  rw [blank, List.isEmpty_iff, trim, ← String.toList_inj, String.toList_ofList]
  rfl

theorem mem_of_mem_trim (h : c ∈ (trim s).toList) : c ∈ s.toList := by
  rw [trim, String.toList_ofList] at h
  exact ( List.rdropWhile_prefix ..).sublist.trans (List.dropWhile_suffix ..).sublist |>.subset h

theorem blank_eq_false (h : c ∈ s.toList) (hc : isWhiteSpace c = false) : blank s = false := by
  refine Bool.eq_false_iff.mpr fun hb => ?_
  rw [blank, List.isEmpty_iff, trimChars, List.rdropWhile_eq_nil_iff] at hb
  cases hd : s.toList.dropWhile isWhiteSpace with
  | nil =>
    have hall := List.dropWhile_eq_nil_iff.mp hd c h
    simp [hc] at hall
  | cons d rest =>
    have hfi : isWhiteSpace d = true := hb d (by simp [hd])
    have hide := List.dropWhile_idempotent (p := isWhiteSpace) (l := s.toList)
    rw [hd, List.dropWhile_eq_self_iff] at hide
    exact absurd hfi (hide (by simp))

/-- Texts joined by a character that the first parts do not have are the same parts. -/
theorem join_inj (ha : c ∉ a.toList) (hb : c ∉ b.toList)
    (h : a ++ String.singleton c ++ x = b ++ String.singleton c ++ y) : a = b ∧ x = y := by
  have hli := congrArg String.toList h
  simp only [String.toList_append, String.toList_singleton, List.append_assoc,
    List.singleton_append] at hli
  rcases List.append_eq_append_iff.mp hli with ⟨u, hb', hu⟩ | ⟨u, ha', hu⟩
  · cases u with
    | nil =>
      rw [List.append_nil] at hb'
      exact ⟨String.toList_injective hb'.symm, String.toList_injective (List.cons.inj hu).2⟩
    | cons d u =>
      -- the separator would be in the longer first part
      rw [(List.cons.inj hu).1] at hb
      exact absurd (by simp [hb']) hb
  · cases u with
    | nil =>
      rw [List.append_nil] at ha'
      exact ⟨String.toList_injective ha', String.toList_injective (List.cons.inj hu).2.symm⟩
    | cons d u =>
      rw [(List.cons.inj hu).1] at ha
      exact absurd (by simp [ha']) ha

theorem join_inj_right (ha : c ∉ a.toList) (hb : c ∉ b.toList)
    (h : a ++ (String.singleton c ++ x) = b ++ (String.singleton c ++ y)) : a = b ∧ x = y := by
  rw [← String.append_assoc, ← String.append_assoc] at h
  exact join_inj ha hb h

end RedevPlugin.Text
