import IdlBinding.Proofs.TwoNotations

/-!
# Expressions of number defaults

A number default is handed over as an integer or as a binary64 number, and its literal is put into a
script as it is. So the literal has to be an expression of the script language, and to have there
the value that was handed over.

* `Plain` — digits, with perhaps a point among them. No superfluous zero stands in front, so that
  scripts take the digits for decimal ones;
* `numericValue?` — the number that an expression denotes in a script: a word, or a decimal rounded
  to the nearest number, with perhaps a sign before it.

Integers and finite numbers are written in plain digits that denote them, zero with its sign, and
what is not a number as the word for it. The infinities are written as a word that scripts do not
know (`number_literal_denotes`).
-/

namespace IdlBinding.Decimal

/-! ## Plain digits -/

/-- The digits before a point: at least one, and zero in front only alone. -/
structure WholePart (whole : List Char) : Prop where
  /-- all are digits -/
  digits : ∀ c ∈ whole, c.isDigit = true
  /-- there is one -/
  begun : whole ≠ []
  /-- the first is not a superfluous zero -/
  first : whole.head? = some '0' → whole = ['0']

/-- A decimal in plain digits, without a sign. -/
inductive Plain : List Char → Prop
  /-- without a point -/
  | integer {whole : List Char} (part : WholePart whole) : Plain whole
  /-- with a point and at least one digit behind it -/
  | fraction {whole fraction : List Char} (part : WholePart whole)
    (digits : ∀ c ∈ fraction, c.isDigit = true) (continued : fraction ≠ []) :
    Plain (whole ++ '.' :: fraction)

/-- A number does not start with zero unless it is zero. -/
theorem eq_zero_of_head?_toDigits {n : Nat} (h : (Nat.toDigits 10 n).head? = some '0') : n = 0 := by
  have hdigit : ∀ d < 10, Nat.digitChar d = '0' → d = 0 := by decide
  induction n using Nat.strongRecOn with
  | ind n ih =>
    rcases Nat.lt_or_ge n 10 with hlt | hge
    · rw [Nat.toDigits_of_lt_base hlt] at h
      exact hdigit n hlt (Option.some.inj h)
    · -- The first digit is the first one of the tenth part.
      have hpos : 0 < n / 10 := Nat.div_pos hge (by decide)
      rw [← Nat.div_add_mod n 10, ← Nat.toDigits_append_toDigits (by decide) hpos
        (Nat.mod_lt n (by decide)), List.head?_append_of_ne_nil _ Nat.toDigits_ne_nil] at h
      have hzero := ih (n / 10) (Nat.div_lt_self (by omega) (by decide)) h
      omega

theorem wholePart_toDigits (n : Nat) : WholePart (Nat.toDigits 10 n) := by
  refine ⟨isDigit_toDigits n, Nat.toDigits_ne_nil, fun hhead => ?_⟩
  rw [eq_zero_of_head?_toDigits hhead]
  rfl

/-- Digits in their places are plain, if they do not start with zero. -/
theorem InPlace.plain {digits text : List Char} {point : Int} (h : InPlace digits point text)
    (hdigits : ∀ c ∈ digits, c.isDigit = true) (hne : digits ≠ [])
    (hfirst : digits.head? ≠ some '0') : Plain text := by
  cases h with
  | @integer zeros behind =>
    refine .integer ⟨List.forall_mem_append.mpr ⟨hdigits, isDigit_zeros zeros⟩,
      List.append_ne_nil_of_left_ne_nil hne _, fun hhead => ?_⟩
    rw [List.head?_append_of_ne_nil _ hne] at hhead
    exact absurd hhead hfirst
  | mixed cut among begun continued =>
    obtain ⟨hwhole, hfraction⟩ := List.forall_mem_append.mp (cut ▸ hdigits)
    refine .fraction ⟨hwhole, begun, fun hhead => ?_⟩ hfraction continued
    rw [cut, List.head?_append_of_ne_nil _ begun] at hfirst
    exact absurd hhead hfirst
  | @fraction zeros before =>
    exact .fraction (wholePart_toDigits 0)
      (List.forall_mem_append.mpr ⟨isDigit_zeros zeros, hdigits⟩)
      (List.append_ne_nil_of_right_ne_nil _ hne)

theorem plain_positional {d : Decimal} (hpos : 0 < d.coefficient) : Plain d.positional := by
  refine (inPlace_positional hpos).plain (isDigit_toDigits _) Nat.toDigits_ne_nil fun hhead => ?_
  exact hpos.ne' (eq_zero_of_head?_toDigits hhead)

theorem Plain.head {body : List Char} (h : Plain body) : ∀ c ∈ body.head?, c.isDigit = true := by
  intro c hc
  cases h with
  | integer part => exact part.digits c (List.mem_of_mem_head? hc)
  | fraction part digits continued =>
    rw [List.head?_append_of_ne_nil _ part.begun] at hc
    exact part.digits c (List.mem_of_mem_head? hc)

theorem readLiteral_toDigits (n : Nat) : readLiteral (Nat.toDigits 10 n) = some ⟨n, 0⟩ := by
  have hread := readLiteral_whole (isDigit_toDigits n) Nat.toDigits_ne_nil [] rfl
    (fun c hc => absurd hc (Option.not_mem_none c))
  rw [List.append_nil, digitValues, Reflection.toNat_toDigits] at hread
  exact hread

end IdlBinding.Decimal

namespace IdlBinding.Binary64

open Decimal

/-! ## Numbers of expressions -/

/-- A decimal in plain digits, with perhaps a minus sign before it. -/
def IsPlainText (text : String) : Prop := ∃ negative body, text = signed negative body ∧ Plain body

/-- The number that an expression denotes in a script. -/
def numericValue? (text : String) : Option Binary64 :=
  let (negative, body) := Reflection.splitSign text.toList
  if body = "NaN".toList then some .nan
  else if body = "Infinity".toList then some (.infinite negative)
  else (readLiteral body).map fun d => ofRank negative (rankOfDecimal d.coefficient d.exponent)

/-- Digits with a sign denote the number nearest to the decimal. -/
theorem numericValue?_signed {negative : Bool} {body : List Char} {v : Decimal}
    (hhead : ∀ c ∈ body.head?, c.isDigit = true) (hread : readLiteral body = some v) :
    numericValue? (signed negative body) =
      some (ofRank negative (rankOfDecimal v.coefficient v.exponent)) := by
  have hnan : body ≠ "NaN".toList := by
    rintro rfl
    exact absurd (hhead 'N' rfl) (by decide)
  have hinfinity : body ≠ "Infinity".toList := by
    rintro rfl
    exact absurd (hhead 'I' rfl) (by decide)
  simp only [numericValue?, splitSign_signed hhead, if_neg hnan, if_neg hinfinity, hread,
    Option.map_some]

theorem rankOfDecimal_congr {d d' : Decimal} (h : d.value = d'.value) :
    rankOfDecimal d.coefficient d.exponent = rankOfDecimal d'.coefficient d'.exponent :=
  Nat.le_antisymm (rankOfDecimal_mono h.le) (rankOfDecimal_mono h.ge)

theorem rankOfDecimal_integer (n : Nat) : rankOfDecimal n 0 = rankOfNat n := by
  have hone : Nat.pow 10 0 = 1 := rfl
  rw [rankOfDecimal, rankOfNat, Int.toNat_zero, Int.neg_zero, Int.toNat_zero, hone, Nat.mul_one]

theorem ofRank_val (negative : Bool) (rank : Fin finiteRanks) :
    ofRank negative rank = .finite negative rank :=
  dif_pos rank.isLt

/-! ## Integers -/

theorem toString_eq_signed (n : Int) :
    toString n = signed (n < 0) (Nat.toDigits 10 n.natAbs) := by
  rcases n with m | m
  · rw [decide_eq_false (by simp)]
    rfl
  · rw [decide_eq_true (Int.negSucc_lt_zero m)]
    apply String.toList_injective
    change ("-" ++ Nat.repr (m + 1)).toList = _
    simp [signed, Nat.repr]

/-- The text of an integer denotes it, exactly as a decimal and rounded as a number. -/
theorem integerText_denotes (n : Int) :
    IsPlainText (toString n) ∧ literalValue? (toString n) = some (n : ℚ) ∧
      numericValue? (toString n) = some (ofInt n) := by
  have hplain : Plain (Nat.toDigits 10 n.natAbs) := .integer (wholePart_toDigits n.natAbs)
  have hread := readLiteral_toDigits n.natAbs
  rw [toString_eq_signed]
  refine ⟨⟨_, _, rfl, hplain⟩, ?_, ?_⟩
  · have hvalue : value ⟨n.natAbs, 0⟩ = (n.natAbs : ℚ) := by simp [value]
    rw [literalValue?_signed hplain.head hread, hvalue]
    by_cases hneg : n < 0
    · rw [decide_eq_true hneg, if_pos rfl, Nat.cast_natAbs, abs_of_neg hneg]
      simp
    · rw [decide_eq_false hneg, if_neg Bool.false_ne_true, Nat.cast_natAbs,
        abs_of_nonneg (not_lt.mp hneg)]
  · rw [numericValue?_signed hplain.head hread, rankOfDecimal_integer]
    rfl

/-! ## Binary64 numbers -/

/-- The text of a finite number denotes it, zero with its sign. -/
theorem positionalText_denotes (negative : Bool) (rank : Fin finiteRanks) :
    IsPlainText (positionalText (.finite negative rank)) ∧
      numericValue? (positionalText (.finite negative rank)) = some (.finite negative rank) := by
  rcases Nat.eq_zero_or_pos rank.val with hzero | hpos
  · have htext : positionalText (.finite negative rank) = signed negative (Nat.toDigits 10 0) :=
      congrArg (signed negative) (if_pos hzero)
    have hplain : Plain (Nat.toDigits 10 0) := .integer (wholePart_toDigits 0)
    have hrank : rankOfNat 0 = rank.val :=
      ((rankOfNat_eq_zero_iff (Nat.zero_le _)).mpr rfl).trans hzero.symm
    rw [htext]
    refine ⟨⟨_, _, rfl, hplain⟩, ?_⟩
    rw [numericValue?_signed hplain.head (readLiteral_toDigits 0), rankOfDecimal_integer, hrank,
      ofRank_val]
  · have hshortest := shortest_isShortest hpos rank.isLt
    have hcoefficient := coefficient_pos hpos hshortest.readsBack
    have hplain := plain_positional hcoefficient
    obtain ⟨v, hread, hvalue⟩ := readLiteral_positional hcoefficient
    rw [positionalText_finite hpos]
    refine ⟨⟨_, _, rfl, hplain⟩, ?_⟩
    -- The text has the value of the shortest decimal, which is rounded to the number.
    rw [numericValue?_signed hplain.head hread, rankOfDecimal_congr hvalue,
      beq_iff_eq.mp hshortest.readsBack, ofRank_val]

end IdlBinding.Binary64

namespace IdlBinding.RawDefault

open Binary64 Decimal

/-- **Number defaults denote what was handed over**, unless it is infinite. There is a literal for
every integer and every binary64 number, whatever the sign field holds.
* That of an integer is in plain digits with perhaps a sign. As a decimal it is the integer itself,
  and in a script the number nearest to it.
* That of a finite number is in plain digits with perhaps a sign, and is the number in a script.
* What is not a number is written as the word for it.
* An infinity is written as a word that is no number in a script. -/
theorem number_literal_denotes (mark : Option Bool) :
    (∀ n : Int, ∃ text, literal ⟨"number", some (.int n), mark⟩ = .ok text ∧ IsPlainText text ∧
      literalValue? text = some (n : ℚ) ∧ numericValue? text = some (ofInt n)) ∧
    ∀ x : Binary64, ∃ text, literal ⟨"number", some (.float x), mark⟩ = .ok text ∧
      match x with
      | .nan => text = "NaN" ∧ numericValue? text = some .nan
      | .finite negative rank =>
        IsPlainText text ∧ numericValue? text = some (.finite negative rank)
      | .infinite negative =>
        text = (if negative then "-inf" else "inf") ∧ numericValue? text = none := by
  refine ⟨fun n => ⟨_, rfl, integerText_denotes n⟩, fun x => ⟨_, rfl, ?_⟩⟩
  cases x with
  | nan => exact ⟨rfl, rfl⟩
  | finite negative rank => exact positionalText_denotes negative rank
  | infinite negative =>
    cases negative with
    | true => exact ⟨by decide, by decide⟩
    | false => exact ⟨by decide, by decide⟩

/-- The literal of an infinity is neither in plain digits nor one of the words for numbers. -/
theorem infinite_literal_not_numeric :
    literal ⟨"number", some (.float (.infinite false)), none⟩ = .ok "inf" ∧
      ¬ IsPlainText "inf" ∧ "inf" ∉ ["NaN", "Infinity", "-Infinity"] ∧
      numericValue? "inf" = none ∧ numericValue? "Infinity" = some (.infinite false) := by
  refine ⟨by decide, ?_, by decide, by decide, by decide⟩
  rintro ⟨negative, body, htext, hplain⟩
  have hchars : "inf".toList = if negative then '-' :: body else body := by
    rw [htext, signed, String.toList_ofList]
  cases negative with
  | true => cases hchars
  | false =>
    obtain rfl : "inf".toList = body := hchars
    exact absurd (hplain.head 'i' rfl) (by decide)

end IdlBinding.RawDefault
