import RedevPlugin.Foundation.Json
import Mathlib.Algebra.Order.Field.Power
import Mathlib.Tactic.NormNum
import Mathlib.Tactic.Ring

/-! Numbers in JSON texts. The host keeps the numbers of a call as floats, and
`encoding/json` writes the shortest decimal of a float. The runtime reads integer
literals as integers and all others as floats, and `serde_json` writes them back.
A float is taken as the exact decimal of its shortest digits, so that only the
choice of the notation is left, and there the two differ. -/

namespace RedevPlugin.Wire

open Json
open List (replicate mem_cons mem_append)

/-- A decimal number; its significand has no trailing zero, and zero has a sign. -/
structure Decimal where
  negative : Bool
  significand : ℕ
  exponent : ℤ
  normal : if significand = 0 then exponent = 0 else ¬ 10 ∣ significand

namespace Decimal

variable (d : Decimal)

def digits : List Char := Nat.toDigits 10 d.significand

/-- Where the decimal point is, counted from the first digit. -/
def point : ℤ := d.digits.length + d.exponent

def magnitude : ℚ := d.significand * (10 : ℚ) ^ d.exponent

/-- The point tells the order of magnitude. -/
theorem le_magnitude (h : d.significand ≠ 0) : (10 : ℚ) ^ (d.point - 1) ≤ d.magnitude := by
  have hle : 0 < d.digits.length := List.length_pos_iff.mpr Nat.toDigits_ne_nil
  obtain ⟨n, hn⟩ : ∃ n, d.digits.length = n + 1 := ⟨d.digits.length - 1, by omega⟩
  have hlow : 10 ^ n ≤ d.significand := by
    rcases Nat.eq_zero_or_pos n with rfl | hpos
    · exact Nat.one_le_iff_ne_zero.mpr h
    · by_contra hlt
      have hsh := (Nat.length_toDigits_le_iff (by decide) hpos).mpr (Nat.lt_of_not_le hlt)
      unfold digits at hn
      omega
  have hten : (0 : ℚ) < 10 := by norm_num
  have hpos : (0 : ℚ) < (10 : ℚ) ^ d.exponent := zpow_pos hten _
  have hexp : ((n + 1 : ℕ) : ℤ) + d.exponent - 1 = (n : ℤ) + d.exponent := by omega
  rw [point, hn, magnitude, hexp, zpow_add₀ hten.ne', zpow_natCast]
  exact mul_le_mul_of_nonneg_right (by exact_mod_cast hlow) hpos.le

def sign : List Char := if d.negative then ['-'] else []

/-- Digits with zeros up to the point. -/
def plain (digits : List Char) (point : ℤ) : List Char :=
  if point ≤ 0 then '0' :: '.' :: (replicate (-point).toNat '0' ++ digits)
  else if point < digits.length then
    digits.take point.toNat ++ '.' :: digits.drop point.toNat
  else digits ++ replicate (point - digits.length).toNat '0'

def exponentChars (plus : Bool) (e : ℤ) : List Char :=
  if e < 0 then '-' :: Nat.toDigits 10 e.natAbs
  else (if plus then ['+'] else []) ++ Nat.toDigits 10 e.natAbs

/-- One digit in front of the point, and the exponent. -/
def scientific (plus : Bool) (digits : List Char) (point : ℤ) : List Char :=
  digits.take 1 ++ (if digits.length = 1 then [] else '.' :: digits.drop 1) ++
    'e' :: exponentChars plus (point - 1)

/-- `encoding/json` for a float: plain from `1e-6` to below `1e21`. -/
def goChars : List Char :=
  d.sign ++
    if d.significand = 0 then ['0']
    else if -5 ≤ d.point ∧ d.point ≤ 21 then plain d.digits d.point
    else scientific true d.digits d.point

/-- `serde_json` for a float: plain from `1e-5` to below `1e16`, and always with a point. -/
def serdeFloatChars : List Char :=
  d.sign ++
    if d.significand = 0 then ['0', '.', '0']
    else if -4 ≤ d.point ∧ d.point ≤ 16 then
      plain d.digits d.point ++ if d.digits.length ≤ d.point then ['.', '0'] else []
    else scientific false d.digits d.point

end Decimal

inductive SerdeNumber where
  | posInt (n : ℕ)
  | negInt (n : ℤ)
  | float (d : Decimal)

/-- What `serde_json` reads of the text of the host: an integer literal that fits is an integer,
unless it is the one of negative zero. -/
def decodeNumber (d : Decimal) : SerdeNumber :=
  if d.significand = 0 then
    if d.negative then .float d else .posInt 0
  else if 0 ≤ d.exponent ∧ d.point ≤ 21 then
    let n := d.significand * 10 ^ d.exponent.toNat
    if d.negative then
      if n ≤ 2 ^ 63 then .negInt (-n) else .float d
    else if n < 2 ^ 64 then .posInt n else .float d
  else .float d

variable {n : ℕ}

theorem numeral_toDigits (n : ℕ) : ∀ c ∈ Nat.toDigits 10 n, isNumeral c = true := fun c hc => by
  simp [isNumeral, Nat.isDigit_of_mem_toDigits (by decide) (by decide) hc]

namespace Decimal

variable {d : Decimal}

theorem numeral_sign (d : Decimal) : ∀ c ∈ d.sign, isNumeral c = true := by
  unfold sign
  split_ifs <;> simp [isNumeral]

theorem numeral_plain (d : Decimal) (point : ℤ) :
    ∀ c ∈ plain d.digits point, isNumeral c = true := by
  have hmarks : isNumeral '0' = true ∧ isNumeral '.' = true := by decide
  have hdi := numeral_toDigits d.significand
  have htake := fun c hc => hdi c (List.mem_of_mem_take (i := point.toNat) hc)
  have hdrop := fun c hc => hdi c (List.mem_of_mem_drop (i := point.toNat) hc)
  unfold plain digits
  split_ifs <;> simp +contextual [or_imp, hmarks, hdi, htake, hdrop]

theorem numeral_scientific (d : Decimal) (plus : Bool) (point : ℤ) :
    ∀ c ∈ scientific plus d.digits point, isNumeral c = true := by
  have hmarks : isNumeral 'e' = true ∧ isNumeral '.' = true ∧ isNumeral '-' = true ∧
    isNumeral '+' = true := by decide
  have hdi := numeral_toDigits d.significand
  have htake := fun c hc => hdi c (List.mem_of_mem_take (i := 1) hc)
  have htail := fun c hc => hdi c (List.mem_of_mem_tail hc)
  have hexp := numeral_toDigits (point - 1).natAbs
  unfold scientific exponentChars digits
  split_ifs <;> simp +contextual [or_imp, hmarks, hexp, htake, htail]

theorem digits_ne_nil (d : Decimal) : d.digits ≠ [] := Nat.toDigits_ne_nil

theorem plain_ne_nil {digits} (hne : digits ≠ []) (point : ℤ) : plain digits point ≠ [] := by
  unfold plain
  split_ifs <;> simp [hne]

theorem scientific_ne_nil (plus : Bool) (digits : List Char) (point : ℤ) :
    scientific plus digits point ≠ [] := by
  simp [scientific]

/-- The literal of the host. -/
def goNumber (d : Decimal) : Literal := ⟨d.goChars, by
  unfold goChars
  refine ⟨?_, List.forall_mem_append.mpr ⟨d.numeral_sign, ?_⟩⟩
  · split_ifs <;> simp [plain_ne_nil d.digits_ne_nil, scientific_ne_nil]
  · split_ifs
    · simp [isNumeral]
    · exact d.numeral_plain d.point
    · exact d.numeral_scientific true d.point⟩

def serdeFloat (d : Decimal) : Literal := ⟨d.serdeFloatChars, by
  unfold serdeFloatChars
  refine ⟨?_, List.forall_mem_append.mpr ⟨d.numeral_sign, ?_⟩⟩
  · split_ifs <;> simp [plain_ne_nil d.digits_ne_nil, scientific_ne_nil]
  · split_ifs
    · simp [isNumeral]
    · exact List.forall_mem_append.mpr ⟨d.numeral_plain d.point, by simp [isNumeral]⟩
    · exact List.forall_mem_append.mpr ⟨d.numeral_plain d.point, by simp⟩
    · exact d.numeral_scientific false d.point⟩

end Decimal

/-- The literal of the runtime. -/
def serdeNumber : SerdeNumber → Literal
  | .posInt n | .negInt n => decimal n
  | .float d => d.serdeFloat

/-- The numbers for which the notations differ are negative zero and those from `1e-6` to
below `1e-5`. -/
def sameNumber (d : Decimal) : Bool := !(d.significand = 0 && d.negative) && d.point ≠ -5

/-- The host accepts numbers up to the largest safe integer. -/
def Decimal.IsSafe (d : Decimal) : Prop := d.magnitude ≤ 9007199254740991

/-- The same, without fractions. -/
def Decimal.isSafe (d : Decimal) : Bool :=
  if 0 ≤ d.exponent then d.significand * 10 ^ d.exponent.toNat ≤ 9007199254740991
  else d.significand ≤ 9007199254740991 * 10 ^ (-d.exponent).toNat

theorem Decimal.isSafe_iff (d : Decimal) : d.isSafe = true ↔ d.IsSafe := by
  unfold Decimal.isSafe Decimal.IsSafe Decimal.magnitude
  split_ifs with hexp
  · obtain ⟨n, hn⟩ := Int.eq_ofNat_of_zero_le hexp
    rw [hn, decide_eq_true_eq, zpow_natCast, Int.toNat_natCast]
    norm_cast
  · obtain ⟨n, hn⟩ := Int.eq_ofNat_of_zero_le (show 0 ≤ -d.exponent by omega)
    have hex : d.exponent = -(n : ℤ) := by omega
    rw [hn, hex, decide_eq_true_eq, zpow_neg, zpow_natCast, Int.toNat_natCast,
      ← div_eq_mul_inv, div_le_iff₀ (by positivity)]
    norm_cast

theorem toDigits_mul_pow (hn : 0 < n) (e : ℕ) :
    Nat.toDigits 10 (n * 10 ^ e) = Nat.toDigits 10 n ++ replicate e '0' := by
  induction e with
  | zero => simp
  | succ e ih =>
    have hpos : 0 < n * 10 ^ e := Nat.mul_pos hn (Nat.pow_pos (by decide))
    have hap := Nat.toDigits_append_toDigits (b := 10) (d := 0) (by decide) hpos (by decide)
    rw [Nat.toDigits_zero, ih, Nat.add_zero] at hap
    rw [List.replicate_succ', ← List.append_assoc, hap, Nat.pow_succ]
    ring_nf

namespace Decimal

variable {d : Decimal}

theorem point_le_of_isSafe (h : d.significand ≠ 0) (hsa : d.IsSafe) : d.point ≤ 16 := by
  by_contra hla
  have hlow := d.le_magnitude h
  have hpow : (10 : ℚ) ^ (16 : ℤ) ≤ 10 ^ (d.point - 1) := zpow_le_zpow_right₀ (by norm_num)
    (by omega)
  have hmax : (9007199254740991 : ℚ) < 10 ^ (16 : ℤ) := by norm_num
  exact absurd (hpow.trans (hlow.trans hsa)) (not_le.mpr hmax)

theorem natural_le_of_isSafe (hexp : 0 ≤ d.exponent) (hsa : d.IsSafe) :
    d.significand * 10 ^ d.exponent.toNat ≤ 9007199254740991 := by
  have hca : d.magnitude = ((d.significand * 10 ^ d.exponent.toNat : ℕ) : ℚ) := by
    rw [magnitude, ← Int.toNat_of_nonneg hexp, zpow_natCast]
    push_cast
    rw [Int.toNat_natCast]
  rw [IsSafe, hca] at hsa
  exact_mod_cast hsa

theorem goChars_of_integer (h : d.significand ≠ 0) (hexp : 0 ≤ d.exponent) (hpo : d.point ≤ 21) :
    d.goChars = d.sign ++ Nat.toDigits 10 (d.significand * 10 ^ d.exponent.toNat) := by
  have hle : 0 < d.digits.length := List.length_pos_iff.mpr d.digits_ne_nil
  have hpl : d.point = d.digits.length + d.exponent := rfl
  rw [goChars, if_neg h, if_pos (by omega), plain, if_neg (by omega), if_neg (by omega),
    toDigits_mul_pow (Nat.pos_of_ne_zero h), hpl]
  congr 3
  omega

theorem e_not_mem_toDigits (n : ℕ) : 'e' ∉ Nat.toDigits 10 n := fun hmem =>
  absurd (Nat.isDigit_of_mem_toDigits (by decide) (by decide) hmem) (by decide)

theorem e_not_mem_plain {digits} (hdi : 'e' ∉ digits) (point : ℤ) : 'e' ∉ plain digits point := by
  unfold plain
  split_ifs
  · simp [hdi]
  · simp only [mem_append, mem_cons, not_or]
    exact ⟨fun h => hdi (List.mem_of_mem_take h), by decide, fun h => hdi (List.mem_of_mem_drop h)⟩
  · simp [hdi]

/-- Of a number with a fraction, the notations differ at one order of magnitude. -/
theorem goChars_eq_serdeFloatChars_iff (h : d.significand ≠ 0) (hexp : d.exponent < 0)
    (hpo : d.point ≤ 16) : d.goChars = d.serdeFloatChars ↔ d.point ≠ -5 := by
  have hpl : d.point = d.digits.length + d.exponent := rfl
  rw [goChars, serdeFloatChars, if_neg h, if_neg h, List.append_cancel_left_eq]
  rcases lt_trichotomy d.point (-5) with hsm | hfi | hla
  · -- both write the exponent, which is negative
    rw [if_neg (by omega), if_neg (by omega)]
    have hsame : scientific true d.digits d.point = scientific false d.digits d.point := by
      have hneg : d.point - 1 < 0 := by omega
      simp only [scientific, exponentChars, if_pos hneg]
    simp only [hsame, true_iff]
    omega
  · rw [if_pos (by omega), if_neg (by omega)]
    simp only [hfi, ne_eq, not_true_eq_false, iff_false]
    intro hsame
    have hmem : 'e' ∈ scientific false d.digits (-5) := by simp [scientific]
    rw [← hsame] at hmem
    exact e_not_mem_plain (e_not_mem_toDigits _) _ hmem
  · rw [if_pos (by omega), if_pos (by omega), if_neg (by omega), List.append_nil]
    simp only [true_iff]
    omega

end Decimal

theorem decimal_natCast (n : ℕ) : (decimal n).1 = Nat.toDigits 10 n := by
  rw [← Nat.toList_repr]
  rfl

theorem decimal_neg_natCast (hn : n ≠ 0) : (decimal (-(n : ℤ))).1 = '-' :: Nat.toDigits 10 n := by
  have hneg : ¬ 0 ≤ -(n : ℤ) := by omega
  change (-(n : ℤ)).repr.toList = _
  rw [Int.repr_eq_if, if_neg hneg, String.toList_append, neg_neg, Int.toNat_natCast,
    Nat.toList_repr]
  rfl

/-- The runtime writes a number of the host as the host does, but for negative zero and the
numbers from `1e-6` to below `1e-5`. -/
theorem goNumber_eq_serdeNumber_iff {d} (hsa : d.IsSafe) :
    d.goNumber = serdeNumber (decodeNumber d) ↔ sameNumber d = true := by
  rw [Subtype.ext_iff]
  by_cases hz : d.significand = 0
  · have hexp : d.exponent = 0 := by simpa [hz] using d.normal
    have hpo : d.point = 1 := by simp [Decimal.point, Decimal.digits, hz, hexp]
    have hgo : d.goNumber.1 = d.sign ++ ['0'] := by
      simp [Decimal.goNumber, Decimal.goChars, hz]
    cases hneg : d.negative with
    | true =>
      have hfl : (serdeNumber (decodeNumber d)).1 = d.sign ++ ['0', '.', '0'] := by
        simp [decodeNumber, hz, hneg, serdeNumber, Decimal.serdeFloat, Decimal.serdeFloatChars]
      simp [hgo, hfl, sameNumber, hz, hneg]
    | false =>
      have hint : (serdeNumber (decodeNumber d)).1 = ['0'] := by
        simp only [decodeNumber, hz, hneg, if_true, Bool.false_eq_true, if_false, serdeNumber]
        rfl
      simp [hgo, hint, sameNumber, hneg, hpo, Decimal.sign]
  · have hpo := Decimal.point_le_of_isSafe hz hsa
    by_cases hexp : 0 ≤ d.exponent
    · have hsm := Decimal.natural_le_of_isSafe hexp hsa
      have hgo : d.goNumber.1 = d.sign ++ Nat.toDigits 10 (d.significand * 10 ^ d.exponent.toNat) :=
        Decimal.goChars_of_integer hz hexp (by omega)
      have hne : d.significand * 10 ^ d.exponent.toNat ≠ 0 :=
        Nat.mul_ne_zero hz (Nat.pow_pos (by decide)).ne'
      have hint : (serdeNumber (decodeNumber d)).1 =
          d.sign ++ Nat.toDigits 10 (d.significand * 10 ^ d.exponent.toNat) := by
        cases hneg : d.negative with
        | true =>
          simp only [decodeNumber, if_neg hz, if_pos (And.intro hexp (by omega : d.point ≤ 21)),
            hneg, if_true, Decimal.sign, List.singleton_append]
          rw [if_pos (by omega), serdeNumber, decimal_neg_natCast hne]
        | false =>
          simp only [decodeNumber, if_neg hz, if_pos (And.intro hexp (by omega : d.point ≤ 21)),
            hneg, Bool.false_eq_true, if_false, Decimal.sign, List.nil_append]
          rw [if_pos (by omega), serdeNumber, decimal_natCast]
      have hpl : d.point ≠ -5 := by
        unfold Decimal.point
        omega
      simp [hgo, hint, sameNumber, hz, hpl]
    · have hde : decodeNumber d = .float d := by
        rw [decodeNumber, if_neg hz, if_neg (by omega)]
      have hch := Decimal.goChars_eq_serdeFloatChars_iff hz (by omega) hpo
      simpa [hde, serdeNumber, Decimal.goNumber, Decimal.serdeFloat, sameNumber, hz] using hch

end RedevPlugin.Wire
