import Mathlib.Data.List.Infix

/-! The address formats of a capability schema. An IPv6 address is checked
without a parser: the text is cut at its `::`, both sides are split at colons,
and the pieces are counted. Over it stands the grammar of RFC 4291, without a
zone: eight groups, or fewer around one `::`, the last two of which may be
written as a dotted IPv4 address. The two agree on every text but those that end
in `::` right after a dotted address. -/

namespace RedevPlugin.Capability

/-! ### The checks of the schema -/

def ipv4PartPattern : List Char → Bool
  | ['0'] => true
  | c :: rest => '1' ≤ c && c ≤ '9' && rest.length ≤ 2 && rest.all Char.isDigit
  | [] => false

/-- `strconv.Atoi` of digits. -/
def atoi (part : List Char) : Nat := Nat.ofDigitChars 10 part 0

variable (value : List Char)

def validateRestrictedIPv4 : Bool :=
  let parts := value.splitOn '.'
  parts.length == 4 && parts.all fun part => ipv4PartPattern part && atoi part ≤ 255

def isHex (c : Char) : Bool := c.isDigit || ('A' ≤ c && c ≤ 'F') || ('a' ≤ c && c ≤ 'f')

def ipv6GroupPattern (part : List Char) : Bool :=
  1 ≤ part.length && part.length ≤ 4 && part.all isHex

def splitNonEmptyColon : List (List Char) :=
  if value.isEmpty then [] else value.splitOn ':'

def restrictedIPv6Groups (allowIPv4 : Bool) : List (List Char) → Option Nat
  | [] => some 0
  | part :: parts =>
    if '.' ∈ part then
      if !allowIPv4 || !parts.isEmpty || !validateRestrictedIPv4 part then none
      else (restrictedIPv6Groups allowIPv4 parts).map (· + 2)
    else if !ipv6GroupPattern part then none
    else (restrictedIPv6Groups allowIPv4 parts).map (· + 1)

/-- The text before and after the first `::`. -/
def cutCompression : List Char → Option (List Char × List Char)
  | ':' :: ':' :: rest => some ([], rest)
  | c :: rest => (cutCompression rest).map (Prod.map (c :: ·) id)
  | [] => none

/-- `strings.Count` of `::`. -/
def countCompressions : List Char → Nat
  | ':' :: ':' :: rest => countCompressions rest + 1
  | _ :: rest => countCompressions rest
  | [] => 0

def validateRestrictedIPv6 : Bool :=
  if value.isEmpty || decide ([':', ':', ':'] <:+: value) || countCompressions value > 1 then false
  else
    let compression := cutCompression value
    let (leftRaw, rightRaw) := compression.getD (value, [])
    let left := splitNonEmptyColon leftRaw
    let right := splitNonEmptyColon rightRaw
    match restrictedIPv6Groups right.isEmpty left, restrictedIPv6Groups true right with
    | some leftGroups, some rightGroups =>
      if compression.isSome then leftGroups + rightGroups < 8 else leftGroups + rightGroups = 8
    | _, _ => false

/-! ### The grammar -/

variable (text : List Char)

/-- A number below 256 in decimal digits. -/
def Octet : Prop := ∃ n < 256, text = Nat.toDigits 10 n

def DottedAddress : Prop :=
  ∃ a b c d, Octet a ∧ Octet b ∧ Octet c ∧ Octet d ∧ text = ['.'].intercalate [a, b, c, d]

def Group : Prop := 1 ≤ text.length ∧ text.length ≤ 4 ∧ ∀ c ∈ text, isHex c = true

/-- Pieces that stand for so many groups; the last may be dotted where that is allowed. -/
inductive Pieces (dotted : Bool) : List (List Char) → Nat → Prop
  | nil : Pieces dotted [] 0
  | group {g ps n} : Group g → Pieces dotted ps n → Pieces dotted (g :: ps) (n + 1)
  | dotted {d} : dotted = true → DottedAddress d → Pieces dotted [d] 2

def join (pieces : List (List Char)) : List Char := [':'].intercalate pieces

/-- The textual addresses of RFC 4291, without a zone. -/
inductive Address : List Char → Prop
  | full {ps} : Pieces true ps 8 → Address (join ps)
  | compressed {ls rs m n} : Pieces false ls m → Pieces true rs n → m + n < 8 →
    Address (join ls ++ ':' :: ':' :: join rs)

/-- At most five groups, a dotted address and `::` at the end. -/
def DottedBeforeEnd : Prop :=
  ∃ gs d, Pieces false gs gs.length ∧ gs.length + 2 < 8 ∧ DottedAddress d ∧
    value = join (gs ++ [d]) ++ [':', ':']

/-! ### Decimal parts -/

theorem toDigits_digit {c} (hc : c.isDigit = true) :
    Nat.toDigits 10 (c.toNat - '0'.toNat) = [c] := by
  rw [Char.isDigit_iff_toNat] at hc
  change 48 ≤ c.toNat ∧ c.toNat ≤ 57 at hc
  change Nat.toDigits 10 (c.toNat - 48) = [c]
  rw [Nat.toDigits_of_lt_base (by omega), List.singleton_inj, ← Char.toNat_inj,
    Nat.toNat_digitChar_of_lt_ten (by omega)]
  omega

theorem toDigits_ofDigitChars {n} (hn : 0 < n) {cs} (hcs : ∀ c ∈ cs, c.isDigit = true) :
    Nat.toDigits 10 (Nat.ofDigitChars 10 cs n) = Nat.toDigits 10 n ++ cs := by
  induction cs generalizing n with
  | nil => simp [Nat.ofDigitChars]
  | cons c cs ih =>
    rw [List.forall_mem_cons] at hcs
    have hlt : c.toNat - '0'.toNat < 10 := by
      have hc := Char.isDigit_iff_toNat.mp hcs.1
      change 48 ≤ c.toNat ∧ c.toNat ≤ 57 at hc
      change c.toNat - 48 < 10
      omega
    rw [Nat.ofDigitChars_cons, ih (by omega) hcs.2,
      ← Nat.toDigits_append_toDigits (by decide) hn hlt, toDigits_digit hcs.1, List.append_assoc,
      List.singleton_append]

theorem octet_iff (part : List Char) :
    Octet part ↔ ipv4PartPattern part = true ∧ atoi part ≤ 255 := by
  constructor
  · rintro ⟨n, hn, rfl⟩
    have hp : ∀ n < 256, ipv4PartPattern (Nat.toDigits 10 n) = true := by decide +kernel
    exact ⟨hp n hn, by rw [atoi, Nat.ofDigitChars_ten_toDigits]; omega⟩
  · rintro ⟨hp, hn⟩
    refine ⟨atoi part, by omega, ?_⟩
    unfold ipv4PartPattern at hp
    split at hp
    · decide
    next c rest _ =>
      simp only [Bool.and_eq_true, decide_eq_true_eq, List.all_eq_true] at hp
      obtain ⟨⟨⟨h1, h9⟩, -⟩, hre⟩ := hp
      have hpos : 0 < c.toNat - '0'.toNat := by
        have h1 : 49 ≤ c.toNat := h1
        change 0 < c.toNat - 48
        omega
      have hc : c.isDigit = true := Char.isDigit_iff_toNat.mpr ⟨by omega, h9⟩
      rw [atoi, Nat.ofDigitChars_cons, Nat.mul_zero, Nat.zero_add, toDigits_ofDigitChars hpos hre,
        toDigits_digit hc, List.singleton_append]
    · cases hp

theorem Octet.isDigit {part} (h : Octet part) {c} (hc : c ∈ part) : c.isDigit = true := by
  obtain ⟨n, -, rfl⟩ := h
  exact Nat.isDigit_of_mem_toDigits (by decide) (by decide) hc

theorem dottedAddress_iff : DottedAddress text ↔ validateRestrictedIPv4 text = true := by
  simp only [validateRestrictedIPv4, Bool.and_eq_true, beq_iff_eq, List.all_eq_true,
    decide_eq_true_eq, ← octet_iff]
  constructor
  · rintro ⟨a, b, c, d, ha, hb, hc, hd, rfl⟩
    have hall : ∀ part ∈ [a, b, c, d], Octet part := by simp [ha, hb, hc, hd]
    rw [List.splitOn_intercalate '.' (fun part hp hdot =>
      absurd ((hall part hp).isDigit hdot) (by decide)) (by simp)]
    exact ⟨rfl, hall⟩
  · rintro ⟨hlen, hall⟩
    obtain ⟨a, b, c, d, hs⟩ := List.length_eq_four.mp hlen
    rw [hs] at hall
    simp only [List.forall_mem_cons] at hall
    exact ⟨a, b, c, d, hall.1, hall.2.1, hall.2.2.1, hall.2.2.2.1,
      by rw [← hs, List.intercalate_splitOn]⟩

/-! ### Pieces -/

/-- The pieces are not empty and have no colon. -/
def Sound (ps : List (List Char)) : Prop := ∀ p ∈ ps, p ≠ [] ∧ ':' ∉ p

variable {dotted : Bool} {ps : List (List Char)} {n : Nat} {p r : List Char}

theorem DottedAddress.sound (h : DottedAddress p) : p ≠ [] ∧ ':' ∉ p ∧ '.' ∈ p := by
  obtain ⟨a, b, c, d, ha, hb, hc, hd, rfl⟩ := h
  have hco : ∀ {q}, Octet q → ':' ∉ q := fun hq hm => absurd (hq.isDigit hm) (by decide)
  simp [List.intercalate, List.intersperse, hco ha, hco hb, hco hc, hco hd]

theorem Group.sound (h : Group p) : p ≠ [] ∧ ':' ∉ p ∧ '.' ∉ p :=
  ⟨fun he => by simp [Group, he] at h, fun hm => absurd (h.2.2 _ hm) (by decide),
    fun hm => absurd (h.2.2 _ hm) (by decide)⟩

theorem group_iff : Group p ↔ ipv6GroupPattern p = true := by
  simp only [ipv6GroupPattern, Group, Bool.and_eq_true, decide_eq_true_eq, List.all_eq_true,
    and_assoc]

theorem Pieces.sound (h : Pieces dotted ps n) : Sound ps := by
  induction h with
  | nil => simp [Sound]
  | group hg _ ih => exact List.forall_mem_cons.mpr ⟨⟨hg.sound.1, hg.sound.2.1⟩, ih⟩
  | dotted _ hd => exact List.forall_mem_singleton.mpr ⟨hd.sound.1, hd.sound.2.1⟩

theorem restrictedIPv6Groups_eq_some_iff :
    restrictedIPv6Groups dotted ps = some n ↔ Pieces dotted ps n := by
  constructor
  · intro h
    induction ps generalizing n with
    | nil =>
      cases h
      exact .nil
    | cons p ps ih =>
      simp only [restrictedIPv6Groups] at h
      split at h
      · split at h
        · cases h
        next hok =>
          simp only [Bool.or_eq_true, Bool.not_eq_true', not_or, Bool.not_eq_false,
            List.isEmpty_iff, ← dottedAddress_iff] at hok
          obtain ⟨⟨hdo, rfl⟩, hd⟩ := hok
          cases h
          exact .dotted hdo hd
      · split at h
        · cases h
        next hok =>
          obtain ⟨m, hm, rfl⟩ := Option.map_eq_some_iff.mp h
          exact .group (group_iff.mpr (by simpa using hok)) (ih hm)
  · intro h
    induction h with
    | nil => rfl
    | group hg _ ih => simp [restrictedIPv6Groups, hg.sound.2.2, group_iff.mp hg, ih]
    | dotted hdo hd =>
      simp [restrictedIPv6Groups, hd.sound.2.2, hdo, (dottedAddress_iff _).mp hd]

theorem Sound.join_eq_cons (h : Sound (p :: ps)) :
    ∃ c s, join (p :: ps) = c :: s ∧ c ≠ ':' := by
  obtain ⟨hne, hco⟩ := h p (by simp)
  obtain ⟨c, s, rfl⟩ := List.exists_cons_of_ne_nil hne
  have hc : c ≠ ':' := fun he => hco (by simp [he])
  cases ps with
  | nil => exact ⟨c, s, by simp [join, List.intercalate], hc⟩
  | cons q ps => exact ⟨c, _, by rw [join, List.intercalate_cons_cons]; rfl, hc⟩

theorem Sound.splitNonEmptyColon_join (h : Sound ps) : splitNonEmptyColon (join ps) = ps := by
  cases ps with
  | nil => rfl
  | cons p =>
    obtain ⟨c, s, hj, -⟩ := h.join_eq_cons
    rw [splitNonEmptyColon, if_neg (by simp [hj])]
    exact List.splitOn_intercalate ':' (fun q hq => (h q hq).2) (List.cons_ne_nil p _)

theorem join_splitNonEmptyColon : join (splitNonEmptyColon value) = value := by
  unfold splitNonEmptyColon
  split
  next h => rw [List.isEmpty_iff.mp h]; rfl
  next => exact List.intercalate_splitOn ':'

/-! ### The cut -/

theorem cutCompression_cons {c d s} (h : c ≠ ':' ∨ d ≠ ':') :
    cutCompression (c :: d :: s) = (cutCompression (d :: s)).map (Prod.map (c :: ·) id) := by
  rw [cutCompression]
  rintro rest rfl he
  simp [(List.cons.inj he).1] at h

theorem cutCompression_append (hp : ':' ∉ p) :
    cutCompression (p ++ r) = (cutCompression r).map (Prod.map (p ++ ·) id) := by
  induction p with
  | nil =>
    rw [List.nil_append]
    rcases cutCompression r with - | ⟨l, s⟩ <;> rfl
  | cons c p ih =>
    simp only [List.mem_cons, not_or] at hp
    have hc : cutCompression (c :: (p ++ r)) =
        (cutCompression (p ++ r)).map (Prod.map (c :: ·) id) := by
      rw [cutCompression]
      rintro _ rfl
      simp at hp
    rw [List.cons_append, hc, ih hp.2, Option.map_map]
    rfl

theorem Sound.cutCompression_join (h : Sound ps) (r : List Char) :
    cutCompression (join ps ++ r) = (cutCompression r).map (Prod.map (join ps ++ ·) id) := by
  induction ps with
  | nil => exact cutCompression_append List.not_mem_nil
  | cons p ps ih =>
    obtain ⟨hp, hps⟩ := List.forall_mem_cons.mp h
    cases ps with
    | nil => simpa [join, List.intercalate] using cutCompression_append hp.2
    | cons q ps =>
      have ih := ih hps
      obtain ⟨c, s, hj, hc⟩ := Sound.join_eq_cons hps
      have hjo : join (p :: q :: ps) = p ++ ':' :: join (q :: ps) := by
        simp [join, List.intercalate_cons_cons]
      rw [hj] at hjo ih
      rw [hjo, List.append_assoc, cutCompression_append hp.2, List.cons_append, List.cons_append,
        cutCompression_cons (.inr hc), ← List.cons_append, ih, Option.map_map, Option.map_map]
      rcases cutCompression r with - | ⟨l, t⟩ <;> simp

theorem Sound.cutCompression_none (h : Sound ps) : cutCompression (join ps) = none := by
  rw [← List.append_nil (join ps), h.cutCompression_join, cutCompression, Option.map_none]

theorem Sound.cutCompression_some (h : Sound ps) (r : List Char) :
    cutCompression (join ps ++ ':' :: ':' :: r) = some (join ps, r) := by
  rw [h.cutCompression_join, cutCompression, Option.map_some, Prod.map_apply, List.append_nil, id]

theorem cutCompression_spec : match cutCompression value with
    | none => countCompressions value = 0 ∧ ¬ [':', ':', ':'] <:+: value
    | some (l, r) => value = l ++ ':' :: ':' :: r ∧
        countCompressions value = countCompressions r + 1 ∧
        ([':', ':', ':'] <:+: value → r.head? = some ':' ∨ [':', ':', ':'] <:+: r) := by
  fun_induction cutCompression value with
  | case1 rest =>
    refine ⟨rfl, by rw [countCompressions], fun h => ?_⟩
    rw [List.infix_cons_iff, List.infix_cons_iff] at h
    rcases rest with - | ⟨c, rest⟩ <;> simp [List.cons_prefix_cons] at h ⊢
    tauto
  | case2 c rest hne ih =>
    have hco : countCompressions (c :: rest) = countCompressions rest := by
      rw [countCompressions]
      exact hne
    have hin : [':', ':', ':'] <:+: c :: rest ↔ [':', ':', ':'] <:+: rest := by
      rw [List.infix_cons_iff, or_iff_right]
      rintro ⟨t, ht⟩
      exact hne _ (List.cons.inj ht).1.symm (List.cons.inj ht).2.symm
    rw [hco, hin]
    rcases hcut : cutCompression rest with - | ⟨l, r⟩ <;> rw [hcut] at ih
    · exact ih
    · exact ⟨by rw [ih.1]; rfl, ih.2⟩
  | case3 => simp [countCompressions]

/-! ### What is accepted -/

theorem validateRestrictedIPv6_iff : validateRestrictedIPv6 value = true ↔
      (∃ ps, Pieces true ps 8 ∧ value = join ps) ∨
      ∃ ls rs m n, Pieces rs.isEmpty ls m ∧ Pieces true rs n ∧ m + n < 8 ∧
        value = join ls ++ ':' :: ':' :: join rs := by
  have hspe := cutCompression_spec value
  unfold validateRestrictedIPv6
  constructor
  · intro h
    split at h
    · cases h
    rcases hcut : cutCompression value with - | ⟨l, r⟩ <;> rw [hcut] at h hspe <;>
      simp only [Option.getD_none, Option.getD_some] at h <;> split at h
    next m n hm hn =>
      rw [restrictedIPv6Groups_eq_some_iff] at hm
      cases hn
      obtain rfl : m = 8 := by simpa using h
      exact .inl ⟨_, hm, (join_splitNonEmptyColon value).symm⟩
    · cases h
    next m n hm hn =>
      rw [restrictedIPv6Groups_eq_some_iff] at hm hn
      exact .inr ⟨_, _, m, n, hm, hn, by simpa using h, by
        rw [join_splitNonEmptyColon, join_splitNonEmptyColon, ← hspe.1]⟩
    · cases h
  · rintro (⟨ps, hps, rfl⟩ | ⟨ls, rs, m, n, hls, hrs, hlt, rfl⟩)
    · have hcut := hps.sound.cutCompression_none
      have hsp := hps.sound.splitNonEmptyColon_join
      have hne : join ps ≠ [] := by
        intro he
        rw [he] at hsp
        subst hsp
        cases hps
      rw [hcut] at hspe
      rw [if_neg (by simp [hne, hspe.1, hspe.2])]
      simp [hcut, hsp, restrictedIPv6Groups_eq_some_iff.mpr hps,
        show splitNonEmptyColon [] = [] from rfl, restrictedIPv6Groups]
    · have hcut := hls.sound.cutCompression_some (join rs)
      have hri := cutCompression_spec (join rs)
      rw [hcut] at hspe
      rw [hrs.sound.cutCompression_none] at hri
      have hhe : (join rs).head? ≠ some ':' := by
        cases rs with
        | nil => simp [join, List.intercalate]
        | cons p ps =>
          obtain ⟨c, s, hj, hc⟩ := hrs.sound.join_eq_cons
          simp [hj, hc]
      rw [if_neg]
      · simp [hcut, hls.sound.splitNonEmptyColon_join, hrs.sound.splitNonEmptyColon_join,
          restrictedIPv6Groups_eq_some_iff.mpr hls, restrictedIPv6Groups_eq_some_iff.mpr hrs, hlt]
      · simp only [Bool.or_eq_true, List.isEmpty_iff, List.append_eq_nil_iff, reduceCtorEq,
          and_false, false_or, decide_eq_true_eq, not_or, hspe.2.1, hri.1]
        exact ⟨fun hin => (hspe.2.2 hin).elim hhe hri.2, by decide⟩

theorem Pieces.of_false (h : Pieces false ps n) : Pieces dotted ps n ∧ n = ps.length := by
  induction h with
  | nil => exact ⟨.nil, rfl⟩
  | group hg _ ih => exact ⟨.group hg ih.1, by simp [ih.2]⟩
  | dotted hd => cases hd

theorem Pieces.group_of_mem (h : Pieces false ps n) (hp : p ∈ ps) : Group p := by
  induction h with
  | nil => cases hp
  | group hg _ ih => exact (List.mem_cons.mp hp).elim (fun he => he ▸ hg) ih
  | dotted hd => cases hd

theorem Pieces.append_dotted (h : Pieces false ps n) (hp : DottedAddress p) :
    Pieces true (ps ++ [p]) (n + 2) := by
  induction h with
  | nil => exact .dotted rfl hp
  | group hg _ ih => exact .group hg ih
  | dotted hd => cases hd

theorem Pieces.cases (h : Pieces true ps n) : Pieces false ps n ∨
    ∃ gs d m, ps = gs ++ [d] ∧ Pieces false gs m ∧ DottedAddress d ∧ n = m + 2 := by
  induction h with
  | nil => exact .inl .nil
  | group hg _ ih =>
    rcases ih with ih | ⟨gs, d, m, rfl, hgs, hd, rfl⟩
    · exact .inl (.group hg ih)
    · exact .inr ⟨_ :: gs, d, m + 1, rfl, .group hg hgs, hd, by omega⟩
  | dotted _ hd => exact .inr ⟨[], _, 0, rfl, .nil, hd, rfl⟩

theorem accepted_iff :
    validateRestrictedIPv6 value = true ↔ Address value ∨ DottedBeforeEnd value := by
  rw [validateRestrictedIPv6_iff]
  constructor
  · rintro (⟨ps, hps, rfl⟩ | ⟨ls, rs, m, n, hls, hrs, hlt, rfl⟩)
    · exact .inl (.full hps)
    · cases rs with
      | nil =>
        rcases hls.cases with hls | ⟨gs, d, k, rfl, hgs, hd, rfl⟩
        · exact .inl (.compressed hls hrs hlt)
        · have hk := (hgs.of_false : Pieces false gs k ∧ _).2
          exact .inr ⟨gs, d, hk ▸ hgs, by omega, hd, rfl⟩
      | cons r rs => exact .inl (.compressed hls hrs hlt)
  · rintro (h | ⟨gs, d, hgs, hlt, hd, rfl⟩)
    · cases h with
      | full hps => exact .inl ⟨_, hps, rfl⟩
      | compressed hls hrs hlt => exact .inr ⟨_, _, _, _, hls.of_false.1, hrs, hlt, rfl⟩
    · exact .inr ⟨_, [], _, 0, hgs.append_dotted hd, .nil, hlt, rfl⟩

theorem DottedBeforeEnd.not_address {value} (h : DottedBeforeEnd value) : ¬ Address value := by
  obtain ⟨gs, d, hgs, -, hd, rfl⟩ := h
  have hs := (hgs.append_dotted hd).sound
  have hcut := hs.cutCompression_some []
  intro h
  generalize hv : join (gs ++ [d]) ++ [':', ':'] = value at h hcut
  cases h with
  | full hps =>
    simp [hps.sound.cutCompression_none] at hcut
  | compressed hls =>
    rw [hls.sound.cutCompression_some] at hcut
    have hj := congrArg splitNonEmptyColon (Prod.mk.inj (Option.some.inj hcut)).1
    rw [hls.sound.splitNonEmptyColon_join, hs.splitNonEmptyColon_join] at hj
    subst hj
    -- The last piece would be a group with a dot in it.
    exact (hls.group_of_mem (by simp)).sound.2.2 hd.sound.2.2

/-- The check agrees with RFC 4291 on a text exactly when the text is not a dotted address, after
at most five groups, in front of a final `::`. -/
theorem validateRestrictedIPv6_correct_iff (value : List Char) :
    (validateRestrictedIPv6 value = true ↔ Address value) ↔ ¬ DottedBeforeEnd value := by
  have hd : DottedBeforeEnd value → ¬ Address value := DottedBeforeEnd.not_address
  rw [accepted_iff]
  tauto

/-- `1.2.3.4::` is accepted; the dotted address is not the last piece of an address. -/
theorem dotted_before_end_accepted :
    validateRestrictedIPv6 "1.2.3.4::".toList = true ∧ ¬ Address "1.2.3.4::".toList := by
  refine ⟨by decide, DottedBeforeEnd.not_address ⟨[], "1.2.3.4".toList, .nil, by decide, ?_, rfl⟩⟩
  exact (dottedAddress_iff _).mpr (by decide)

end RedevPlugin.Capability
