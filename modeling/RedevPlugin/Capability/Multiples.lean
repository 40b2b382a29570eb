import RedevPlugin.Wire.Numbers

/-! The `multipleOf` of a restricted schema. The value and the divisor are floats: each
is printed with its shortest digits, its coefficient and its scale are read off the
text, and the coefficients are divided once powers of ten have aligned their scales.
An exponent of a float fits the integers of `strconv.Atoi`. -/

namespace RedevPlugin.Multiples

open Wire Wire.Decimal
open List (replicate)

/-- At least two digits, as `strconv` writes an exponent. -/
def exponentText (e : ℤ) : List Char :=
  (if e < 0 then '-' else '+') ::
    ((if e.natAbs < 10 then ['0'] else []) ++ Nat.toDigits 10 e.natAbs)

variable (d : Decimal)

/-- `strconv.FormatFloat` in the format `g` with the shortest precision: plain from `1e-4` to
below `1e6`. -/
def formatFloat : List Char :=
  d.sign ++
    if d.significand = 0 then ['0']
    else if -3 ≤ d.point ∧ d.point ≤ 6 then plain d.digits d.point
    else d.digits.take 1 ++ (if d.digits.length = 1 then [] else '.' :: d.digits.drop 1) ++
      'e' :: exponentText (d.point - 1)

/-- The text before the first mark, and behind it if there is one. -/
def cut (isMark : Char → Bool) (text : List Char) : List Char × Option (List Char) :=
  (text.takeWhile fun c => !isMark c, (text.dropWhile fun c => !isMark c).tail?)

def natural (text : List Char) : Option ℤ :=
  if text ≠ [] ∧ text.all Char.isDigit then some (Nat.ofDigitChars 10 text 0) else none

def atoi : List Char → Option ℤ
  | '-' :: text => (natural text).map (- ·)
  | '+' :: text | text => natural text

/-- What `decimalCoefficient` does with the text. -/
def parseDecimal (text : List Char) : Option (ℤ × ℤ) :=
  let negative := text.head? = some '-'
  let mantissa := cut (fun c => c = 'e' || c = 'E') (if negative then text.tail else text)
  match mantissa.2.elim (some 0) atoi with
  | none => none
  | some exponent =>
    let parts := cut (· = '.') mantissa.1
    let fraction := parts.2.getD []
    let text := (parts.1 ++ fraction).dropWhile (· = '0')
    if text = [] then some (0, 0)
    else match natural text with
      | none => none
      | some n => some (if negative then -n else n, fraction.length - exponent)

def decimalCoefficient (value : Decimal) : Option (ℤ × ℤ) := parseDecimal (formatFloat value)

def restrictedDecimalMultiple (value divisor : Decimal) : Bool :=
  if divisor.negative || divisor.significand = 0 then false
  else match decimalCoefficient value, decimalCoefficient divisor with
    | some (v, valueScale), some (d, divisorScale) =>
      if d = 0 then false
      else
        let difference := divisorScale - valueScale
        let numerator := if 0 < difference then v * 10 ^ difference.toNat else v
        let denominator := if difference < 0 then d * 10 ^ (-difference).toNat else d
        numerator.tmod denominator = 0
    | _, _ => false

def signed (n : ℕ) : ℤ := if d.negative then -n else n

/-- The exact number. -/
def value : ℚ := signed d d.significand * (10 : ℚ) ^ d.exponent

theorem cut_pieces {isMark a m} (ha : ∀ c ∈ a, isMark c = false) (hm : isMark m = true)
    (b : Option (List Char)) : cut isMark (a ++ b.elim [] (m :: ·)) = (a, b) := by
  have ha' : ∀ c ∈ a, (!isMark c) = true := fun c hc => by simp [ha c hc]
  unfold cut
  rw [List.takeWhile_append_of_pos ha', List.dropWhile_append_of_pos ha']
  cases b <;> simp [hm]

theorem ofDigitChars_dropWhile (ds : List Char) :
    Nat.ofDigitChars 10 (ds.dropWhile (· = '0')) 0 = Nat.ofDigitChars 10 ds 0 := by
  induction ds with
  | nil => rfl
  | cons c ds ih =>
    rw [List.dropWhile_cons]
    split_ifs with hc
    · rw [ih, of_decide_eq_true hc, Nat.ofDigitChars_cons]
      rfl
    · rfl

theorem isDigit_of_mem {n c} (hc : c ∈ Nat.toDigits 10 n) : c.isDigit = true :=
  Nat.isDigit_of_mem_toDigits (by decide) (by decide) hc

theorem ofDigitChars_zeros (j : ℕ) (ds : List Char) :
    Nat.ofDigitChars 10 (replicate j '0' ++ ds) 0 = Nat.ofDigitChars 10 ds 0 := by
  rw [← ofDigitChars_dropWhile, List.dropWhile_append_of_pos (by simp +contextual),
    ofDigitChars_dropWhile]

theorem natural_of_forall {ds} (hd : ∀ c ∈ ds, c.isDigit = true) (hne : ds ≠ []) :
    natural ds = some (Nat.ofDigitChars 10 ds 0 : ℤ) := if_pos ⟨hne, List.all_eq_true.mpr hd⟩

theorem atoi_exponentText (e : ℤ) : atoi (exponentText e) = some e := by
  have hn : natural ((if e.natAbs < 10 then ['0'] else []) ++ Nat.toDigits 10 e.natAbs) =
      some (e.natAbs : ℤ) := by
    rw [natural_of_forall]
    · split_ifs <;> simp [Nat.ofDigitChars_cons]
    · split_ifs <;> simpa using fun c => isDigit_of_mem
    · simp [Nat.toDigits_ne_nil]
  by_cases hneg : e < 0
  · rw [exponentText, if_pos hneg, atoi, hn]
    simp only [Option.map_some, Option.some.injEq]
    omega
  · rw [exponentText, if_neg hneg, atoi, hn]
    simp only [Option.some.injEq]
    omega

/-- The coefficient is the significand, perhaps with the zeros up to the point. -/
def Reads (r : Option (ℤ × ℤ)) : Prop :=
  ∃ k : ℕ, r = some (signed d (d.significand * 10 ^ k), k - d.exponent)

/-- A text of digits, perhaps with zeros in front, a fraction and an exponent. -/
theorem reads_pieces {d} (hz : d.significand ≠ 0) (j k : ℕ) {text a} (b : Option (List Char))
    (e : Option ℤ)
    (ht : text = a ++ b.elim [] ('.' :: ·) ++ (e.map exponentText).elim [] ('e' :: ·)) (ha : a ≠ [])
    (hab : a ++ b.getD [] = replicate j '0' ++ Nat.toDigits 10 (d.significand * 10 ^ k))
    (hs : (b.getD []).length - e.getD 0 = k - d.exponent) :
    Reads d (parseDecimal (d.sign ++ text)) := by
  have hd : ∀ c ∈ a ++ b.getD [], c.isDigit = true := by
    rw [hab]
    exact List.forall_mem_append.mpr ⟨by simp +contextual, fun c => isDigit_of_mem⟩
  have hmarks : ∀ c ∈ a ++ b.getD [], c ≠ 'e' ∧ c ≠ 'E' ∧ c ≠ '.' ∧ c ≠ '-' := by
    intro c hc
    refine ⟨?_, ?_, ?_, ?_⟩ <;> rintro rfl <;> cases hd _ hc
  have hcut : cut (fun c => c = 'e' || c = 'E') text =
      (a ++ b.elim [] ('.' :: ·), e.map exponentText) := by
    rw [ht]
    refine cut_pieces (List.forall_mem_append.mpr ⟨fun c hc => ?_, ?_⟩) rfl _
    · simp [hmarks c (List.mem_append_left _ hc)]
    · cases b with
      | none => simp
      | some b => simpa using fun c hc => (hmarks c (List.mem_append_right _ hc)).imp_right And.left
  have hpoint : cut (· = '.') (a ++ b.elim [] ('.' :: ·)) = (a, b) :=
    cut_pieces (fun c hc => by simp [hmarks c (List.mem_append_left _ hc)]) rfl b
  have hexp : (e.map exponentText).elim (some 0) atoi = some (e.getD 0) := by
    cases e <;> simp [atoi_exponentText]
  have hdrop : Nat.ofDigitChars 10 ((a ++ b.getD []).dropWhile (· = '0')) 0 =
      d.significand * 10 ^ k := by
    rw [ofDigitChars_dropWhile, hab, ofDigitChars_zeros, Nat.ofDigitChars_ten_toDigits]
  have hnil : (a ++ b.getD []).dropWhile (· = '0') ≠ [] := by
    intro h
    rw [h] at hdrop
    exact absurd hdrop.symm (Nat.mul_ne_zero hz (by positivity))
  have hnat := natural_of_forall (fun c hc => hd c ((List.dropWhile_suffix _).subset hc)) hnil
  have hhead : text.head? ≠ some '-' := by
    obtain ⟨c, a, rfl⟩ := List.exists_cons_of_ne_nil ha
    simp [ht, hmarks c (by simp)]
  refine ⟨k, ?_⟩
  unfold parseDecimal sign signed
  cases d.negative <;> simp_all

theorem reads_decimalCoefficient : Reads d (decimalCoefficient d) := by
  have hpl : d.point = d.digits.length + d.exponent := rfl
  have hlen : 0 < d.digits.length := List.length_pos_iff.mpr d.digits_ne_nil
  have hdi : Nat.toDigits 10 (d.significand * 10 ^ 0) = d.digits := by simp [digits]
  have htake : ∀ i, 0 < i → d.digits.take i ≠ [] := by simp [d.digits_ne_nil]; omega
  unfold decimalCoefficient formatFloat
  by_cases hz : d.significand = 0
  · have hexp : d.exponent = 0 := by simpa [hz] using d.normal
    refine ⟨0, ?_⟩
    rw [if_pos hz, hz, hexp]
    unfold sign signed
    cases d.negative <;> decide
  rw [if_neg hz]
  by_cases hpo : -3 ≤ d.point ∧ d.point ≤ 6
  · rw [if_pos hpo, plain]
    split_ifs with hle hlt
    · exact reads_pieces hz ((-d.point).toNat + 1) 0 (a := ['0'])
        (some (replicate (-d.point).toNat '0' ++ d.digits)) none (by simp) (by simp)
        (by rw [hdi]; rfl) (by simp; omega)
    · exact reads_pieces hz 0 0 (a := d.digits.take d.point.toNat)
        (some (d.digits.drop d.point.toNat)) none (by simp) (htake _ (by omega))
        (hdi ▸ List.take_append_drop ..) (by simp; omega)
    · exact reads_pieces hz 0 d.exponent.toNat
        (a := d.digits ++ replicate (d.point - d.digits.length).toNat '0') none none (by simp)
        (by simp [d.digits_ne_nil])
        (by rw [toDigits_mul_pow (Nat.pos_of_ne_zero hz), hpl, add_sub_cancel_left]; simp [digits])
        (by simp; omega)
  · rw [if_neg hpo]
    split_ifs with hone
    · exact reads_pieces hz 0 0 none (some (d.point - 1)) rfl (htake 1 one_pos)
        (by rw [hdi, List.take_of_length_le hone.le]; simp) (by simp; omega)
    · exact reads_pieces hz 0 0 (some (d.digits.drop 1)) (some (d.point - 1)) rfl
        (htake 1 one_pos) (hdi ▸ List.take_append_drop ..) (by simp; omega)

/-- Aligned coefficients divide each other as the numbers do. -/
theorem dvd_iff_exists {c d e f : ℤ} {x y : ℕ} (h : (x : ℤ) - e = y - f) :
    d * 10 ^ y ∣ c * 10 ^ x ↔ ∃ n : ℤ, (c * 10 ^ e : ℚ) = n * (d * 10 ^ f) := by
  have hten : (10 : ℚ) ≠ 0 := by norm_num
  have hx : (10 : ℚ) ^ x = 10 ^ e * 10 ^ (x - e : ℤ) := by
    rw [← zpow_add₀ hten, add_sub_cancel, zpow_natCast]
  have hy : (10 : ℚ) ^ y = 10 ^ f * 10 ^ (x - e : ℤ) := by
    rw [h, ← zpow_add₀ hten, add_sub_cancel, zpow_natCast]
  refine exists_congr fun n => ?_
  have hn : (d * (10 ^ f * 10 ^ (x - e : ℤ)) * n : ℚ) = n * (d * 10 ^ f) * 10 ^ (x - e : ℤ) := by
    ring
  rw [← Int.cast_inj (α := ℚ)]
  push_cast
  rw [hx, hy, hn, ← mul_assoc, mul_left_inj' (zpow_ne_zero _ hten)]

theorem signed_mul (n k : ℕ) : signed d (n * 10 ^ k) = signed d n * 10 ^ k := by
  unfold signed
  split_ifs <;> simp

theorem value_pos_iff : 0 < value d ↔ ¬(d.negative || d.significand = 0) = true := by
  have hpos : (0 : ℚ) < 10 ^ d.exponent := zpow_pos (by norm_num) _
  rw [value, mul_pos_iff_of_pos_right hpos, signed]
  cases d.negative <;> simp [Nat.pos_iff_ne_zero]

theorem ite_mul_pow (c difference : ℤ) :
    (if 0 < difference then c * 10 ^ difference.toNat else c) = c * 10 ^ difference.toNat := by
  split_ifs with h
  · rfl
  · simp [Int.toNat_of_nonpos (not_lt.mp h)]

/-- The divisor has to be positive, and the value is an integer times it. -/
theorem restrictedDecimalMultiple_iff (v d : Decimal) : restrictedDecimalMultiple v d = true ↔
    0 < value d ∧ ∃ n : ℤ, value v = n * value d := by
  rw [value_pos_iff, restrictedDecimalMultiple]
  split_ifs with hpos
  · simp [hpos]
  · obtain ⟨k, hv⟩ := reads_decimalCoefficient v
    obtain ⟨j, hd⟩ := reads_decimalCoefficient d
    have hne : signed d (d.significand * 10 ^ j) ≠ 0 := by
      simp_all [signed]
    have halign : ∀ difference : ℤ, difference = j - d.exponent - (k - v.exponent) →
        ((k + difference.toNat : ℕ) : ℤ) - v.exponent =
          (j + (-difference).toNat : ℕ) - d.exponent := by omega
    simp only [hv, hd, if_neg hne, hpos, Bool.false_eq_true, not_false_eq_true, true_and,
      decide_eq_true_eq, ite_mul_pow, ← Int.neg_pos]
    rw [← Int.dvd_iff_tmod_eq_zero, signed_mul, signed_mul, mul_assoc, mul_assoc, ← pow_add,
      ← pow_add, dvd_iff_exists (halign _ rfl)]
    rfl

theorem negative_divisor_refused : ∃ v d : Decimal,
    restrictedDecimalMultiple v d = false ∧ ∃ n : ℤ, value v = n * value d :=
  ⟨⟨false, 4, 0, by decide⟩, ⟨true, 2, 0, by decide⟩, rfl, -2, by norm_num [value, signed]⟩

end RedevPlugin.Multiples
