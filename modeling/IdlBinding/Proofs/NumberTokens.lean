import IdlBinding.Proofs.DefaultLiterals
import IdlBinding.Proofs.ScaledReading

/-!
# Number tokens and their defaults

A number token of data text is a sign, an integer part, a fraction and an exponent, of which only
the integer part has to be there (`Token`). Every token is read whole (`readNumber_text`), and as an
expression of a script it denotes the number nearest to its decimal (`numericValue?_text`).

A number default is handed over as such a token and put into a script as a literal. So the number
may change on the way:

* an integer of 64 bits keeps its text (`ofText_integer`), and so does the negative zero, which is
  no integer for the reader;
* a short token keeps its number (`ofText_short`);
* every other token that is accepted keeps its number up to a few places (`ofText_near`), and there
  are tokens that lose some (`number_token_not_nearest`).
-/

namespace IdlBinding.Decimal

/-- Only a lone zero starts with the value zero. -/
theorem WholePart.eq_zero {cs : List Char} (h : WholePart cs) {ds : List Nat}
    (hvalues : digitValues cs = 0 :: ds) : cs = ['0'] := by
  cases cs with
  | nil => cases hvalues
  | cons c cs =>
    have hc := h.digits c List.mem_cons_self
    rw [digitValues_cons hc] at hvalues
    have hzero : c.toNat - '0'.toNat = 0 := (List.cons.inj hvalues).1
    have hlow := (Char.isDigit_iff_toNat.mp hc).1
    exact h.first (congrArg some (Char.toNat_inj.mp (by omega)))

end IdlBinding.Decimal

namespace IdlBinding.Json

open Binary64 Decimal

/-! ## Tokens -/

/-- The exponent of a number token. -/
structure Exponent where
  /-- the mark is a capital letter -/
  capital : Bool
  /-- the sign, if there is one, and whether it is a minus -/
  sign : Option Bool
  /-- the digits, at least one -/
  digits : List Char
  /-- all are digits -/
  isDigit : ∀ c ∈ digits, c.isDigit = true
  /-- there is one -/
  begun : digits ≠ []

/-- A number token of data text. -/
structure Token where
  /-- a minus sign stands before it -/
  negative : Bool
  /-- the integer part, which is written without superfluous zeros -/
  whole : Nat
  /-- the digits after the point; none if there is no point -/
  fraction : List Char
  /-- the power of ten, if there is one -/
  exponent : Option Exponent
  /-- all digits of the fraction are digits -/
  isDigit : ∀ c ∈ fraction, c.isDigit = true

namespace Exponent

/-- The characters of a sign. -/
def signText : Option Bool → List Char
  | none => []
  | some true => ['-']
  | some false => ['+']

/-- The characters of an exponent. -/
def text (x : Exponent) : List Char :=
  (if x.capital then 'E' else 'e') :: (signText x.sign ++ x.digits)

/-- The power of ten that an exponent denotes. -/
def power (x : Exponent) : Int :=
  signedInt (x.sign == some true) (Digits.toNat 10 (digitValues x.digits))

end Exponent

namespace Token

/-- The point and the digits after it. -/
def fractionText (t : Token) : List Char := if t.fraction = [] then [] else '.' :: t.fraction

/-- The mark and what follows it. -/
def exponentText (t : Token) : List Char := (t.exponent.map Exponent.text).getD []

/-- The characters after the sign. -/
def body (t : Token) : List Char := Nat.toDigits 10 t.whole ++ (t.fractionText ++ t.exponentText)

/-- The text of a token. -/
def text (t : Token) : String := signed t.negative t.body

/-- The parts of a token, as they are read. -/
def number (t : Token) : Number :=
  ⟨t.negative, digitValues (Nat.toDigits 10 t.whole), digitValues t.fraction,
    t.exponent.map Exponent.power⟩

/-- The magnitude that a token denotes. -/
def decimal (t : Token) : Decimal := t.number.exact

/-- The rank nearest to it. -/
def nearest (t : Token) : Nat := rankOfDecimal t.decimal.coefficient t.decimal.exponent

/-- The token is an integer without point and exponent, and fits 64 bits with a sign. -/
structure IsInteger (t : Token) : Prop where
  /-- there is no point -/
  pointless : t.fraction = []
  /-- there is no exponent -/
  unscaled : t.exponent = none
  /-- it is not too small -/
  lower : -2 ^ 63 ≤ signedInt t.negative t.whole
  /-- it is not too large -/
  upper : signedInt t.negative t.whole < 2 ^ 63

end Token

/-! ## Reading -/

/-- No token goes on with this text. -/
def Ends (rest : List Char) : Prop :=
  ∀ c ∈ rest.head?, c.isDigit = false ∧ c ≠ '.' ∧ c ≠ 'e' ∧ c ≠ 'E'

theorem readWhole_append {whole tail : List Char} (hwhole : WholePart whole)
    (htail : ∀ c ∈ tail.head?, c.isDigit = false) :
    readWhole (whole ++ tail) = some (digitValues whole, tail) := by
  rw [readWhole, span_digits hwhole.digits tail htail]
  split
  next hnil =>
    exact absurd ((digitValues_eq_nil_iff hwhole.digits).mp (congrArg Prod.fst hnil)) hwhole.begun
  next d ds _ hvalues =>
    -- A zero in front would be the only digit.
    rw [hwhole.eq_zero (congrArg Prod.fst hvalues)] at hvalues
    cases hvalues
  next hvalues => rw [← hvalues]

/-- Digits right after the mark. -/
theorem readExponent_digits {mark : Char} (hmark : mark = 'e' ∨ mark = 'E') {cs : List Char}
    (h : ∀ c ∈ cs.head?, c.isDigit = true) :
    readExponent (mark :: cs) = readExponentDigits false cs := by
  rw [readExponent, if_pos (by simpa using hmark)]
  · rintro rest rfl
    exact absurd (h '-' rfl) (by decide)
  · rintro rest rfl
    exact absurd (h '+' rfl) (by decide)

theorem Exponent.readExponent_text (x : Exponent) {rest : List Char}
    (hrest : ∀ c ∈ rest.head?, c.isDigit = false) :
    readExponent (x.text ++ rest) = some (some x.power, rest) := by
  obtain ⟨capital, sign, digits, isDigit, begun⟩ := x
  have hread (negative : Bool) := readExponentDigits_append negative isDigit begun hrest
  cases sign with
  | none =>
    have hmark : (if capital then 'E' else 'e') = 'e' ∨ (if capital then 'E' else 'e') = 'E' := by
      cases capital <;> simp
    have hhead : ∀ c ∈ (digits ++ rest).head?, c.isDigit = true := by
      rw [List.head?_append_of_ne_nil _ begun]
      exact fun c hc => isDigit c (List.mem_of_mem_head? hc)
    exact (readExponent_digits hmark hhead).trans (hread false)
  | some minus =>
    cases minus with
    | true => cases capital <;> exact hread true
    | false => cases capital <;> exact hread false

theorem readNumber_digits {cs : List Char} (h : ∀ c ∈ cs.head?, c.isDigit = true) :
    readNumber cs = readMagnitude false cs := by
  rw [readNumber.eq_def]
  split
  · exact absurd (h '-' rfl) (by decide)
  · rfl

namespace Token

variable (t : Token)

theorem readExponent_exponentText {rest : List Char} (hrest : Ends rest) :
    readExponent (t.exponentText ++ rest) = some (t.exponent.map Exponent.power, rest) := by
  rw [exponentText]
  cases t.exponent with
  | none =>
    cases rest with
    | nil => rfl
    | cons c rest =>
      obtain ⟨-, -, he, hE⟩ := hrest c rfl
      simp [readExponent, he, hE]
  | some x => exact x.readExponent_text fun c hc => (hrest c hc).1

/-- What follows the digits of a token goes on neither with a digit nor with a point. -/
theorem head_exponentText {rest : List Char} (hrest : Ends rest) :
    ∀ c ∈ (t.exponentText ++ rest).head?, c.isDigit = false ∧ c ≠ '.' := by
  rw [exponentText]
  cases t.exponent with
  | none => exact fun c hc => ⟨(hrest c hc).1, (hrest c hc).2.1⟩
  | some x =>
    rintro _ ⟨⟩
    cases x.capital <;> exact ⟨rfl, by decide⟩

theorem readFraction_fractionText {tail : List Char}
    (htail : ∀ c ∈ tail.head?, c.isDigit = false ∧ c ≠ '.') :
    readFraction (t.fractionText ++ tail) = some (digitValues t.fraction, tail) := by
  rw [fractionText]
  split
  next hnone =>
    rw [hnone, List.nil_append, readFraction.eq_def]
    split
    · exact absurd rfl (htail '.' rfl).2
    · rfl
  next hsome =>
    rw [List.cons_append, readFraction, span_digits t.isDigit tail fun c hc => (htail c hc).1]
    cases hvalues : digitValues t.fraction with
    | nil => exact absurd ((digitValues_eq_nil_iff t.isDigit).mp hvalues) hsome
    | cons d ds => rfl

theorem head_fractionText {tail : List Char} (htail : ∀ c ∈ tail.head?, c.isDigit = false) :
    ∀ c ∈ (t.fractionText ++ tail).head?, c.isDigit = false := by
  rw [fractionText]
  split
  · exact htail
  · rintro _ ⟨⟩
    rfl

theorem head_body : ∀ c ∈ t.body.head?, c.isDigit = true := by
  rw [body, List.head?_append_of_ne_nil _ Nat.toDigits_ne_nil]
  exact fun c hc => isDigit_toDigits t.whole c (List.mem_of_mem_head? hc)

/-- **A token is read whole**, whatever text follows that does not continue it. -/
theorem readNumber_text {rest : List Char} (hrest : Ends rest) :
    readNumber (t.text.toList ++ rest) = some (t.number, rest) := by
  have hexponent := t.readExponent_exponentText hrest
  have hfraction := t.readFraction_fractionText (t.head_exponentText hrest)
  have hwhole := readWhole_append (wholePart_toDigits t.whole)
    (t.head_fractionText fun c hc => (t.head_exponentText hrest c hc).1)
  have hmagnitude : readMagnitude t.negative (t.body ++ rest) = some (t.number, rest) := by
    rw [body, List.append_assoc, List.append_assoc, readMagnitude]
    simp [hwhole, hfraction, hexponent, number]
  rw [← hmagnitude, text, signed, String.toList_ofList]
  cases t.negative with
  | true => rfl
  | false =>
    have hbody : t.body ≠ [] := List.append_ne_nil_of_left_ne_nil Nat.toDigits_ne_nil _
    refine readNumber_digits fun c hc => t.head_body c ?_
    rwa [if_neg Bool.false_ne_true, List.head?_append_of_ne_nil _ hbody] at hc

/-- A token denotes the number nearest to its decimal. -/
theorem numericValue?_text : numericValue? t.text = some (ofRank t.negative t.nearest) := by
  have hend : Ends [] := fun c hc => absurd hc (Option.not_mem_none c)
  have hexponent := t.readExponent_exponentText hend
  have hhead := t.head_exponentText hend
  rw [List.append_nil] at hexponent hhead
  refine numericValue?_signed t.head_body ?_
  rw [body, fractionText]
  split
  next hnone =>
    rw [List.nil_append, readLiteral_whole (isDigit_toDigits t.whole) Nat.toDigits_ne_nil _
      hexponent hhead]
    simp [decimal, number, Number.exact, hnone, digitValues]
  next hsome =>
    rw [List.cons_append, readLiteral_point (isDigit_toDigits t.whole) Nat.toDigits_ne_nil
      t.isDigit _ hexponent fun c hc => (hhead c hc).1]
    simp [decimal, number, Number.exact, digitValues_append, length_digitValues t.isDigit]

theorem wellFormed_number : t.number.WellFormed := ⟨digitValues_lt _, digitValues_lt _⟩

end Token

/-- A value that starts with a minus sign or a digit is a number. -/
theorem readValue_number (fuel : Nat) {c : Char} (hc : c = '-' ∨ c.isDigit = true)
    {cs rest : List Char} {n : Number} (h : readNumber (c :: cs) = some (n, rest)) :
    readValue (fuel + 1) (c :: cs) = (.number n, some rest) := by
  have hother (x : Char) (hminus : x ≠ '-') (hdigit : x.isDigit = false) : c ≠ x := by
    rintro rfl
    rcases hc with rfl | hc
    · exact hminus rfl
    · rw [hdigit] at hc
      cases hc
  have hblank : isBlank c = false := by
    simp [isBlank, hother ' ' (by decide) rfl, hother '\n' (by decide) rfl,
      hother '\t' (by decide) rfl, hother '\r' (by decide) rfl]
  have hskip : skipBlanks (c :: cs) = c :: cs := List.dropWhile_cons_of_neg (by simp [hblank])
  have hscalar : readScalar (c :: cs) = (.number n, some rest) := by
    rw [readScalar, h]
    all_goals
      rintro tail ⟨rfl, -⟩
      exact hother _ (by decide) rfl rfl
  rw [readValue, hskip]
  split
  next heq => exact absurd (List.cons.inj heq).1 (hother _ (by decide) rfl)
  next heq => exact absurd (List.cons.inj heq).1 (hother _ (by decide) rfl)
  next => exact hscalar

/-- A token at the end of an object. -/
theorem Token.readValue_text (t : Token) (fuel : Nat) :
    readValue (fuel + 1) (t.text.toList ++ ['\x7d']) = (.number t.number, some ['\x7d']) := by
  obtain ⟨c, cs, htext, hc⟩ : ∃ c cs, t.text.toList = c :: cs ∧ (c = '-' ∨ c.isDigit = true) := by
    rw [text, signed, String.toList_ofList]
    cases t.negative with
    | true => exact ⟨'-', t.body, rfl, Or.inl rfl⟩
    | false =>
      have hbody : t.body ≠ [] := List.append_ne_nil_of_left_ne_nil Nat.toDigits_ne_nil _
      obtain ⟨c, cs, hcons⟩ := List.exists_cons_of_ne_nil hbody
      exact ⟨c, cs, hcons, Or.inr (t.head_body c (hcons ▸ rfl))⟩
  have hends : Ends ['\x7d'] := by
    rintro _ ⟨⟩
    decide
  have hread := t.readNumber_text hends
  rw [htext, List.cons_append] at hread ⊢
  exact readValue_number fuel hc hread

end IdlBinding.Json

namespace IdlBinding.Json.Number

open Binary64

theorem toBinary64?_of_lt {n : Number} (h : scale n.leading < finiteRanks) :
    n.toBinary64? = some (.finite n.negative ⟨scale n.leading, h⟩) := by
  rw [toBinary64?, ofRank, dif_pos h]

theorem toBinary64?_of_le {n : Number} (h : finiteRanks ≤ scale n.leading) :
    n.toBinary64? = none := by
  rw [toBinary64?, ofRank, dif_neg (Nat.not_lt.mpr h)]

end IdlBinding.Json.Number

namespace IdlBinding.Default

open Binary64 Decimal

/-- **A number default in a document** is the text of an integer or of a binary64 number. -/
theorem ofText_number (t : Json.Token) :
    ofText (document "number" t.text) =
      match Scalar.ofNumber t.number with
      | some (.int n) => .ok (.number (toString n))
      | some (.float x) => .ok (.number (positionalText x))
      | _ => .error .form := by
  have hpayload (depth : Nat) : RawDefault.payload depth (.number t.number) =
      (Scalar.ofNumber t.number).elim (.error .form) fun scalar => .ok (some scalar) := by
    rw [RawDefault.payload, Scalar.ofJson]
    · cases Scalar.ofNumber t.number <;> rfl
    · rintro ⟨⟩
  rw [ofText, read_document "number" t.readValue_text]
  simp only [Json.Document.decode, ofJson, RawDefault.ofJson, Json.Value.record, List.foldlM_cons,
    List.foldlM_nil, Json.Value.memberOf, RawDefault.Draft.field, hpayload, Scalar.ofNumber]
  cases t.number.integer? with
  | some n => rfl
  | none => cases t.number.toBinary64? <;> rfl

/-- A number that is no integer is written with the fewest digits. -/
theorem ofText_float {t : Json.Token} (hinteger : t.number.integer? = none)
    (hfinite : Json.scale t.number.leading < finiteRanks) :
    ofText (document "number" t.text) =
      .ok (.number (positionalText (.finite t.negative ⟨_, hfinite⟩))) := by
  rw [ofText_number, Scalar.ofNumber, hinteger]
  simp only [Json.Number.toBinary64?_of_lt hfinite, Option.map_some]
  rfl

theorem positionalText_zero {negative : Bool} {rank : Fin finiteRanks} (h : rank.val = 0) :
    positionalText (.finite negative rank) = signed negative ['0'] :=
  congrArg (signed negative) (if_pos h)

/-! ## Integers -/

theorem integer?_number {t : Json.Token} {n : Int} :
    t.number.integer? = some n ↔
      t.IsInteger ∧ ¬ (t.negative = true ∧ t.whole = 0) ∧ signedInt t.negative t.whole = n := by
  have hmagnitude : Digits.toNat 10 (digitValues (Nat.toDigits 10 t.whole)) = t.whole :=
    Reflection.toNat_toDigits t.whole
  have hfraction : (digitValues t.fraction).isEmpty = true ↔ t.fraction = [] :=
    List.isEmpty_iff.trans (digitValues_eq_nil_iff t.isDigit)
  have hsigned : (if t.negative = true then -(t.whole : Int) else t.whole) =
      signedInt t.negative t.whole := rfl
  have hbound : ((Nat.pow 2 63 : Nat) : Int) = 2 ^ 63 := rfl
  simp only [Json.Number.integer?, Json.Token.number, hmagnitude, hsigned, hbound, Bool.and_eq_true,
    Bool.not_eq_true', Bool.and_eq_false_iff, hfraction, Option.isNone_map, decide_eq_true_iff,
    Option.isNone_iff_eq_none, Option.ite_none_right_eq_some, Option.some.injEq]
  constructor
  · rintro ⟨⟨⟨⟨⟨hpoint, hexponent⟩, hzero⟩, hlower⟩, hupper⟩, rfl⟩
    refine ⟨⟨hpoint, hexponent, hlower, hupper⟩, ?_, rfl⟩
    rintro ⟨hnegative, hwhole⟩
    simp [hnegative, hwhole] at hzero
  · rintro ⟨⟨hpoint, hexponent, hlower, hupper⟩, hzero, rfl⟩
    refine ⟨⟨⟨⟨⟨hpoint, hexponent⟩, ?_⟩, hlower⟩, hupper⟩, rfl⟩
    cases hnegative : t.negative with
    | false => exact Or.inl rfl
    | true => exact Or.inr (beq_false_of_ne fun hwhole => hzero ⟨hnegative, hwhole⟩)

section Integer

variable {t : Json.Token} (h : t.IsInteger)
include h

theorem body_integer : t.body = Nat.toDigits 10 t.whole := by
  rw [Json.Token.body, Json.Token.fractionText, Json.Token.exponentText, h.pointless, h.unscaled]
  exact List.append_nil _

theorem decimal_integer : t.decimal = ⟨t.whole, 0⟩ := by
  have hmagnitude : Digits.toNat 10 (digitValues (Nat.toDigits 10 t.whole)) = t.whole :=
    Reflection.toNat_toDigits t.whole
  have hdigits : Digits.toNat 10 (digitValues (Nat.toDigits 10 t.whole) ++ []) = t.whole := by
    rw [List.append_nil, hmagnitude]
  rw [Json.Token.decimal, Json.Token.number, Json.Number.exact, h.pointless, h.unscaled]
  exact congrArg (Decimal.mk · 0) hdigits

/-- The text of an integer that is not the negative zero. -/
theorem toString_signedInt (hzero : ¬ (t.negative = true ∧ t.whole = 0)) :
    toString (signedInt t.negative t.whole) = t.text := by
  rw [toString_eq_signed, Json.Token.text, body_integer h, signedInt]
  cases hnegative : t.negative with
  | false =>
    rw [if_neg Bool.false_ne_true, decide_eq_false (by omega), Int.natAbs_natCast]
  | true =>
    have hpos : 0 < t.whole := Nat.pos_of_ne_zero fun hwhole => hzero ⟨hnegative, hwhole⟩
    rw [if_pos rfl, decide_eq_true (by omega), Int.natAbs_neg, Int.natAbs_natCast]

/-- **Integers keep their text.** -/
theorem ofText_integer : ofText (document "number" t.text) = .ok (.number t.text) := by
  by_cases hzero : t.negative = true ∧ t.whole = 0
  · -- The negative zero is no integer, but a number whose text has the sign.
    have hinteger : t.number.integer? = none :=
      Option.eq_none_iff_forall_ne_some.mpr fun n hn => (integer?_number.mp hn).2.1 hzero
    have hexact : t.number.exact = ⟨0, 0⟩ := hzero.2 ▸ decimal_integer h
    have hscale : Json.scale t.number.leading = 0 := by
      rw [Json.Number.leading_eq_exact t.wellFormed_number (hexact ▸ Nat.two_pow_pos 64), hexact,
        Json.scale_zero]
    rw [ofText_float hinteger (lt_of_eq_of_lt hscale (by decide)), positionalText_zero hscale,
      Json.Token.text, body_integer h, hzero.2]
    rfl
  · rw [ofText_number, Scalar.ofNumber, integer?_number.mpr ⟨h, hzero, rfl⟩]
    exact congrArg (Except.ok ∘ Default.number) (toString_signedInt h hzero)

end Integer

/-! ## The number of a token -/

theorem isShort_integer {t : Json.Token} (h : t.IsInteger) : Json.IsShort t.decimal := by
  have hlower := h.lower
  have hupper := h.upper
  rw [decimal_integer h]
  refine Or.inr ⟨?_, rfl⟩
  change t.whole < 2 ^ 64
  cases hnegative : t.negative with
  | false =>
    rw [hnegative, signedInt, if_neg Bool.false_ne_true] at hupper
    omega
  | true =>
    rw [hnegative, signedInt, if_pos rfl] at hlower
    omega

theorem rank_lt_of_isShort {d : Decimal} (h : Json.IsShort d) :
    rankOfDecimal d.coefficient d.exponent < finiteRanks := by
  have hgreatest : rankOfDecimal (2 ^ 64) 22 < finiteRanks := by decide +kernel
  have hbounds : d.coefficient ≤ 2 ^ 64 ∧ d.exponent ≤ 22 := by
    rcases h with ⟨hc, -, he⟩ | ⟨hc, he⟩ <;> omega
  have hvalue : d.value ≤ Decimal.value ⟨2 ^ 64, 22⟩ :=
    mul_le_mul (Nat.cast_le.mpr hbounds.1) (zpow_le_zpow_right₀ (by norm_num) hbounds.2)
      (ten_zpow_pos _).le (Nat.cast_nonneg _)
  exact Nat.lt_of_le_of_lt (rankOfDecimal_mono hvalue) hgreatest

/-- Short tokens are accepted, and the default is the nearest number. -/
theorem ofText_short {t : Json.Token} (h : Json.IsShort t.decimal) :
    ∃ v, ofText (document "number" t.text) = .ok v ∧
      numericValue? v.literal = numericValue? t.text := by
  cases hinteger : t.number.integer? with
  | some n => exact ⟨_, ofText_integer (integer?_number.mp hinteger).1, rfl⟩
  | none =>
    have hfits : t.number.exact.coefficient < 2 ^ 64 := by
      rcases h with ⟨hc, -⟩ | ⟨hc, -⟩
      · exact Nat.lt_of_le_of_lt hc (by decide)
      · exact hc
    have hscale : Json.scale t.number.leading = t.nearest := by
      rw [Json.Number.leading_eq_exact t.wellFormed_number hfits]
      exact Json.scale_eq_rankOfDecimal h
    have hfinite : Json.scale t.number.leading < finiteRanks := hscale ▸ rank_lt_of_isShort h
    refine ⟨_, ofText_float hinteger hfinite, ?_⟩
    rw [t.numericValue?_text, ← hscale]
    exact (positionalText_denotes _ _).2.trans (congrArg some (ofRank_val _ ⟨_, hfinite⟩).symm)

/-- Whatever token is accepted, the default is not far from the nearest number. -/
theorem ofText_near {t : Json.Token} {v : Default}
    (h : ofText (document "number" t.text) = .ok v) :
    ∃ kept : Fin finiteRanks, numericValue? v.literal = some (.finite t.negative kept) ∧
      Near 5 kept t.nearest := by
  cases hinteger : t.number.integer? with
  | some n =>
    have hshort := isShort_integer (integer?_number.mp hinteger).1
    rw [ofText_integer (integer?_number.mp hinteger).1] at h
    cases h
    refine ⟨⟨t.nearest, rank_lt_of_isShort hshort⟩, ?_, Near.refl _ _⟩
    exact t.numericValue?_text.trans (congrArg some (ofRank_val _ ⟨t.nearest, _⟩))
  | none =>
    rcases Nat.lt_or_ge (Json.scale t.number.leading) finiteRanks with hfinite | hinfinite
    · rw [ofText_float hinteger hfinite] at h
      cases h
      exact ⟨_, (positionalText_denotes _ _).2, Json.scale_near t.wellFormed_number hfinite⟩
    · rw [ofText_number, Scalar.ofNumber, hinteger] at h
      simp only [Json.Number.toBinary64?_of_le hinfinite, Option.map_none] at h
      cases h

/-- **What a number default keeps of its token.**
* An integer of 64 bits is accepted and keeps its text, also the negative zero.
* A token whose digits and power of ten are short is accepted, and its literal denotes the number
  nearest to the token.
* The literal of any other token that is accepted denotes a number with the sign of the token, at
  most five places from the nearest one. -/
theorem number_token_kept (t : Json.Token) :
    (t.IsInteger →
      ∃ v, ofText ("\x7b\"type\":\"number\",\"value\":" ++ t.text ++ "\x7d") = .ok v ∧
        v.literal = t.text) ∧
    (Json.IsShort t.decimal →
      ∃ v, ofText ("\x7b\"type\":\"number\",\"value\":" ++ t.text ++ "\x7d") = .ok v ∧
        numericValue? v.literal = numericValue? t.text) ∧
    ∀ v, ofText ("\x7b\"type\":\"number\",\"value\":" ++ t.text ++ "\x7d") = .ok v →
      ∃ kept : Fin finiteRanks, numericValue? v.literal = some (.finite t.negative kept) ∧
        numericValue? t.text = some (ofRank t.negative t.nearest) ∧ Near 5 kept t.nearest := by
  have hkind : "\x7b\"type\":\"number\",\"value\":" =
      "\x7b\"type\":" ++ Quoted.quote "number" ++ ",\"value\":" := by decide
  rw [hkind, ← document]
  refine ⟨fun h => ⟨_, ofText_integer h, rfl⟩, ofText_short, fun v hv => ?_⟩
  obtain ⟨kept, hkept, hnear⟩ := ofText_near hv
  exact ⟨kept, hkept, t.numericValue?_text, hnear⟩

/-- The token `-9223372036854775808`. -/
def leastInteger : Json.Token := ⟨true, 2 ^ 63, [], none, List.all_eq_true.mp rfl⟩

/-- The token `1.5E-7`. -/
def smallFraction : Json.Token :=
  ⟨false, 1, ['5'], some ⟨true, some true, ['7'], List.all_eq_true.mp rfl, List.cons_ne_nil _ _⟩,
    List.all_eq_true.mp rfl⟩

/-- The token `51e47`. -/
def largePower : Json.Token :=
  ⟨false, 51, [], some ⟨false, none, ['4', '7'], List.all_eq_true.mp rfl, List.cons_ne_nil _ _⟩,
    List.all_eq_true.mp rfl⟩

/-- The least integer of 64 bits, a fraction with a capital mark, and a large power of ten. -/
theorem number_token_kept_signs_and_marks :
    (leastInteger.IsInteger ∧ leastInteger.text = "-9223372036854775808" ∧
      ∃ v, ofText ("\x7b\"type\":\"number\",\"value\":" ++ leastInteger.text ++ "\x7d") = .ok v ∧
        v.literal = leastInteger.text) ∧
    (Json.IsShort smallFraction.decimal ∧ smallFraction.text = "1.5E-7" ∧
      ∃ v, ofText ("\x7b\"type\":\"number\",\"value\":" ++ smallFraction.text ++ "\x7d") =
          .ok v ∧
        numericValue? v.literal = numericValue? smallFraction.text) ∧
    ofText ("\x7b\"type\":\"number\",\"value\":" ++ largePower.text ++ "\x7d") =
        .ok (.number "5100000000000000500000000000000000000000000000000") ∧
      largePower.text = "51e47" ∧
      ∃ kept : Fin finiteRanks,
        numericValue? (literal (.number "5100000000000000500000000000000000000000000000000")) =
            some (.finite largePower.negative kept) ∧
          numericValue? largePower.text = some (ofRank largePower.negative largePower.nearest) ∧
          Near 5 kept largePower.nearest := by
  have hinteger : leastInteger.IsInteger := ⟨rfl, rfl, by decide, by decide⟩
  have hshort : Json.IsShort smallFraction.decimal := Or.inl (by decide +kernel)
  have haccepted : ofText ("\x7b\"type\":\"number\",\"value\":" ++ largePower.text ++ "\x7d") =
      .ok (.number "5100000000000000500000000000000000000000000000000") := by decide +kernel
  exact ⟨⟨hinteger, by decide +kernel, (number_token_kept leastInteger).1 hinteger⟩,
    ⟨hshort, by decide +kernel, (number_token_kept smallFraction).2.1 hshort⟩,
    haccepted, by decide +kernel, (number_token_kept largePower).2.2 _ haccepted⟩

/-- The literal of `51e47` denotes a neighbour of the number that the token denotes. -/
theorem number_token_not_nearest :
    ofText "\x7b\"type\":\"number\",\"value\":51e47\x7d" =
        .ok (.number "5100000000000000500000000000000000000000000000000") ∧
      numericValue? "5100000000000000500000000000000000000000000000000" ≠
        numericValue? "51e47" ∧
      numericValue? "51e47" =
        numericValue? "5100000000000000000000000000000000000000000000000" := by
  refine ⟨?_, ?_, ?_⟩
  · decide +kernel
  · decide +kernel
  · decide +kernel

end IdlBinding.Default
