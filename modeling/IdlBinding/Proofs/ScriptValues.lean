import IdlBinding.Proofs.NumberText
import IdlBinding.Proofs.ScriptDigits
import Mathlib.Data.List.DropRight

/-!
# Conversions of script values

What a script takes a value for where a truth value, a text or a number is wanted. These are the
rules of the script language, given apart from what the accessors compute.

* `Falsy` — the values that count as false;
* `HasText` — the string form. A number is written with the fewest digits, in the notation of the
  language (`IsNumberText`);
* `toNumber` — the number of a value. A string is trimmed and read as a literal
  (`stringToNumber`);
* `Less` — the order of numbers, in which a number that is none is comparable with nothing.

The language does not say in all cases which of the fewest digits are written, so `IsNumberText` and
`HasText` take the decimals that may be written as a parameter: `IsFewest` for what the language
asks of them, `IsRecommended` for what it recommends.

The truth value is that of `Value.isTruthy` (`falsy_iff`), and above a small integer are the numbers
that exceed it (`less_ofInt_iff`). The string form of `Value.text` is one that the language allows
(`hasText_text`). It is the recommended one unless the value is a number between two decimals of
which the greater one is odd (`hasText_recommended_iff`).
-/

namespace IdlBinding.Binary64

open Decimal

/-! ## Texts of numbers -/

/-- The texts of numbers, where a positive magnitude may be written as one of some decimals. -/
inductive IsNumberText (decimals : Nat → Decimal → Prop) : Binary64 → String → Prop
  | nan : IsNumberText decimals .nan "NaN"
  | infinite (negative : Bool) :
    IsNumberText decimals (.infinite negative) (if negative then "-Infinity" else "Infinity")
  /-- zero has no sign -/
  | zero {negative : Bool} {rank : Fin finiteRanks} (zero : rank.val = 0) :
    IsNumberText decimals (.finite negative rank) "0"
  /-- the digits of a decimal, laid out by the rules -/
  | digits {negative : Bool} {rank : Fin finiteRanks} {d : Decimal} {body : List Char}
    (pos : 0 < rank.val) (chosen : decimals rank d)
    (layout : Layout (Nat.toDigits 10 d.coefficient)
      ((Nat.toDigits 10 d.coefficient).length + d.exponent) body) :
    IsNumberText decimals (.finite negative rank) (signed negative body)

/-- The number lies half way between the two decimals that are nearest among those with the fewest
digits, and the greater of them is odd. -/
inductive IsOddTie : Binary64 → Prop
  | finite {negative : Bool} {rank : Fin finiteRanks} {low high : Decimal} (pos : 0 < rank.val)
    (tie : IsTie rank low high) (odd : high.coefficient % 2 = 1) :
    IsOddTie (.finite negative rank)

section Texts

variable {decimals : Nat → Decimal → Prop} {negative : Bool} {rank : Fin finiteRanks}
  {text : String}

theorem isNumberText_zero_iff (hzero : rank.val = 0) :
    IsNumberText decimals (.finite negative rank) text ↔ text = "0" := by
  refine ⟨fun h => ?_, ?_⟩
  · cases h with
    | zero _ => rfl
    | digits pos _ _ => exact absurd hzero pos.ne'
  · rintro rfl
    exact .zero hzero

theorem isNumberText_digits_iff (hpos : 0 < rank.val) :
    IsNumberText decimals (.finite negative rank) text ↔
      ∃ d, decimals rank d ∧ text = signed negative d.script := by
  refine ⟨fun h => ?_, ?_⟩
  · cases h with
    | zero hzero => exact absurd hzero hpos.ne'
    | @digits _ _ d _ _ chosen layout => exact ⟨d, chosen, by rw [layout.eq_script]⟩
  · rintro ⟨d, chosen, rfl⟩
    exact .digits hpos chosen (layout_script d)

theorem scriptText_infinite (negative : Bool) :
    scriptText (.infinite negative) = if negative then "-Infinity" else "Infinity" := by
  cases negative with
  | true => decide
  | false => decide

/-- The decimals only matter for finite numbers other than zero. -/
theorem isNumberText_iff_of_decimals {x : Binary64}
    (h : ∀ negative rank, x = .finite negative rank → 0 < rank.val →
      ∀ d, decimals rank d ↔ d = shortest rank) :
    IsNumberText decimals x text ↔ text = x.scriptText := by
  cases x with
  | nan =>
    refine ⟨fun h => ?_, ?_⟩
    · cases h
      rfl
    · rintro rfl
      exact .nan
  | infinite negative =>
    rw [scriptText_infinite]
    refine ⟨fun h => ?_, ?_⟩
    · cases h
      rfl
    · rintro rfl
      exact .infinite negative
  | finite negative rank =>
    rcases Nat.eq_zero_or_pos rank.val with hzero | hpos
    · rw [isNumberText_zero_iff hzero, scriptText, if_pos hzero]
    · simp only [isNumberText_digits_iff hpos, h negative rank rfl hpos, exists_eq_left,
        scriptText_finite hpos]

/-- **The recommended text** of a number that is no odd tie. -/
theorem isNumberText_recommended_iff {x : Binary64} (h : ¬ x.IsOddTie) :
    IsNumberText IsRecommended x text ↔ text = x.scriptText := by
  refine isNumberText_iff_of_decimals fun negative rank hx hpos d => ?_
  subst hx
  refine isRecommended_iff_of_no_tie hpos rank.isLt fun low high htie => ?_
  exact Nat.mod_two_ne_one.mp fun hodd => h (.finite hpos htie hodd)

/-- **The recommended text of an odd tie** is that of the lesser decimal. -/
theorem isNumberText_tie_iff {low high : Decimal} (hpos : 0 < rank.val)
    (htie : IsTie rank low high) (hodd : high.coefficient % 2 = 1) :
    IsNumberText IsRecommended (.finite negative rank) text ↔
      text = signed negative low.script := by
  simp only [isNumberText_digits_iff hpos, htie.isRecommended_iff hpos rank.isLt hodd,
    exists_eq_left]

theorem scriptText_tie {low high : Decimal} (hpos : 0 < rank.val) (htie : IsTie rank low high) :
    scriptText (.finite negative rank) = signed negative high.script := by
  rw [scriptText_finite hpos,
    (htie.isShortest_high hpos).unique (shortest_isShortest hpos rank.isLt)]

/-- The two decimals of a tie have different texts. -/
theorem signed_script_ne {low high : Decimal} (h : IsTie rank low high) :
    signed negative low.script ≠ signed negative high.script := by
  intro htext
  have hscript : low.script = high.script := by
    rw [signed, signed, String.ofList_inj] at htext
    cases negative with
    | true => exact List.tail_eq_of_cons_eq htext
    | false => exact htext
  obtain ⟨v, hread, hvalue⟩ := readLiteral_script low
  obtain ⟨v', hread', hvalue'⟩ := readLiteral_script high
  rw [hscript, hread'] at hread
  obtain rfl := Option.some.inj hread
  exact h.lt.ne (hvalue.symm.trans hvalue')

/-- **The text of a number is allowed.** -/
theorem isNumberText_scriptText (x : Binary64) : IsNumberText IsFewest x x.scriptText := by
  cases x with
  | nan => exact .nan
  | infinite negative =>
    rw [scriptText_infinite]
    exact .infinite negative
  | finite negative rank =>
    rcases Nat.eq_zero_or_pos rank.val with hzero | hpos
    · rw [scriptText, if_pos hzero]
      exact .zero hzero
    · rw [scriptText_finite hpos]
      exact .digits hpos (shortest_isShortest hpos rank.isLt).isFewest (layout_script _)

theorem IsNumberText.mono {decimals' : Nat → Decimal → Prop} {x : Binary64}
    (hsub : ∀ rank d, decimals rank d → decimals' rank d) (h : IsNumberText decimals x text) :
    IsNumberText decimals' x text := by
  cases h with
  | nan => exact .nan
  | infinite negative => exact .infinite negative
  | zero hzero => exact .zero hzero
  | digits pos chosen layout => exact .digits pos (hsub _ _ chosen) layout

end Texts

/-! ## Order -/

/-- The value of a finite number. -/
def signedMagnitude (negative : Bool) (rank : Nat) : ℚ :=
  if negative then -magnitude rank else magnitude rank

/-- The order of numbers. -/
inductive Less : Binary64 → Binary64 → Prop
  | finite {negative negative' : Bool} {rank rank' : Fin finiteRanks}
    (lt : signedMagnitude negative rank < signedMagnitude negative' rank') :
    Less (.finite negative rank) (.finite negative' rank')
  | top {negative : Bool} {rank : Fin finiteRanks} :
    Less (.finite negative rank) (.infinite false)
  | bottom {negative : Bool} {rank : Fin finiteRanks} :
    Less (.infinite true) (.finite negative rank)
  | infinite : Less (.infinite true) (.infinite false)

theorem signedMagnitude_eq (negative : Bool) (rank : Nat) :
    signedMagnitude negative rank = (signedUnits negative rank : ℚ) / unitsPerOne := by
  rw [signedMagnitude, signedUnits, magnitude]
  cases negative with
  | true => rw [if_pos rfl, if_pos rfl, Int.cast_neg, Int.cast_natCast, neg_div]
  | false =>
    rw [if_neg Bool.false_ne_true, if_neg Bool.false_ne_true, Int.cast_natCast]

theorem signedMagnitude_lt_iff {negative negative' : Bool} {rank rank' : Nat} :
    signedMagnitude negative rank < signedMagnitude negative' rank' ↔
      signedUnits negative rank < signedUnits negative' rank' := by
  rw [signedMagnitude_eq, signedMagnitude_eq, div_lt_div_iff_of_pos_right unitsPerOne_cast_pos,
    Int.cast_lt]

/-- A number is above a small integer if it exceeds it. -/
theorem less_ofInt_iff {n : Int} (h : n.natAbs ≤ 2 ^ 53) {x : Binary64} :
    Less (ofInt n) x ↔ x.exceeds n = true := by
  obtain ⟨rank, heq, hrank⟩ := (isInteger_ofInt h).eq_rankOfNat h
  have hunits : signedUnits (n < 0) rank = n * unitsPerOne := by
    rw [hrank, signedUnits_eq (units_rankOfNat h).2, Reflection.signedInt_natAbs]
  rw [heq]
  cases x with
  | nan => exact ⟨nofun, nofun⟩
  | infinite negative =>
    cases negative with
    | true => exact ⟨nofun, nofun⟩
    | false => exact ⟨fun _ => rfl, fun _ => .top⟩
  | finite negative rank =>
    rw [exceeds, decide_eq_true_iff, ← hunits, ← signedMagnitude_lt_iff]
    refine ⟨fun hless => ?_, .finite⟩
    cases hless with
    | finite hlt => exact hlt

end IdlBinding.Binary64

namespace IdlBinding.Reflection

open Binary64

/-! ## Numbers of strings -/

/-- The digits of a base, up to the end of the text. -/
def readBase (radix : Nat) (cs : List Char) : Option Binary64 :=
  match Digits.span radix cs with
  | ([], _) => none
  | (ds, []) => some (ofInt (Digits.toNat radix ds))
  | _ => none

/-- A numeral in a trimmed text: nothing counts as zero, and only a decimal may have a sign. -/
def readNumeral : List Char → Option Binary64
  | [] => some .zero
  | '0' :: 'x' :: cs | '0' :: 'X' :: cs => readBase 16 cs
  | '0' :: 'o' :: cs | '0' :: 'O' :: cs => readBase 8 cs
  | '0' :: 'b' :: cs | '0' :: 'B' :: cs => readBase 2 cs
  | cs =>
    let (negative, cs) := splitSign cs
    if cs = "Infinity".toList then some (.infinite negative)
    else
      (Decimal.readLiteral cs).map fun d =>
        ofRank negative (rankOfDecimal d.coefficient d.exponent)

/-- The number of a string, which need not be one. -/
def stringToNumber (text : String) : Binary64 :=
  (readNumeral ((text.toList.dropWhile isScriptSpace).rdropWhile isScriptSpace)).getD .nan

namespace Value

/-- The number of a value. -/
def toNumber : Value → Binary64
  | .boolean value => ofInt (if value then 1 else 0)
  | .string value => stringToNumber value
  | .number value => value

/-! ## Truth values and texts -/

/-- The values that count as false. -/
inductive Falsy : Value → Prop
  | boolean : Falsy (.boolean false)
  | empty : Falsy (.string "")
  | nan : Falsy (.number .nan)
  | zero {negative : Bool} {rank : Fin finiteRanks} (zero : rank.val = 0) :
    Falsy (.number (.finite negative rank))

/-- The string form of a value. -/
inductive HasText (decimals : Nat → Decimal → Prop) : Value → String → Prop
  | boolean (value : Bool) : HasText decimals (.boolean value) (if value then "true" else "false")
  | string (value : String) : HasText decimals (.string value) value
  | number {value : Binary64} {text : String} (written : value.IsNumberText decimals text) :
    HasText decimals (.number value) text

theorem falsy_iff {v : Value} : v.Falsy ↔ v.isTruthy = false := by
  refine ⟨fun h => ?_, fun h => ?_⟩
  · cases h with
    | boolean => rfl
    | empty => rfl
    | nan => rfl
    | zero hzero => rw [isTruthy, isZero, hzero, beq_self_eq_true, Bool.not_true, Bool.false_and]
  · cases v with
    | boolean value =>
      cases value with
      | false => exact .boolean
      | true => cases h
    | string value =>
      rw [isTruthy, decide_eq_false_iff_not, not_not] at h
      rw [h]
      exact .empty
    | number value =>
      cases value with
      | nan => exact .nan
      | infinite negative => cases h
      | finite negative rank =>
        refine .zero ?_
        rw [isTruthy, isZero] at h
        simpa using h

section Texts

variable {decimals : Nat → Decimal → Prop} {v : Value} {text : String}

theorem hasText_boolean_iff {value : Bool} :
    HasText decimals (.boolean value) text ↔ text = Value.text (.boolean value) := by
  have htext : Value.text (.boolean value) = if value then "true" else "false" := by
    cases value <;> rfl
  rw [htext]
  refine ⟨fun h => ?_, ?_⟩
  · cases h
    rfl
  · rintro rfl
    exact .boolean value

theorem hasText_string_iff {value : String} :
    HasText decimals (.string value) text ↔ text = value := by
  refine ⟨fun h => ?_, ?_⟩
  · cases h
    rfl
  · rintro rfl
    exact .string _

theorem hasText_number_iff {value : Binary64} :
    HasText decimals (.number value) text ↔ value.IsNumberText decimals text := by
  refine ⟨fun h => ?_, .number⟩
  cases h with
  | number written => exact written

/-- The value is a number that is an odd tie. -/
def IsOddTie : Value → Prop
  | .number value => value.IsOddTie
  | _ => False

theorem IsOddTie.exists_tie (h : v.IsOddTie) : ∃ (negative : Bool) (rank : Fin finiteRanks)
    (low high : Decimal), v = .number (.finite negative rank) ∧ 0 < rank.val ∧
      Decimal.IsTie rank low high ∧ high.coefficient % 2 = 1 := by
  cases v with
  | boolean | string => exact h.elim
  | number value =>
    obtain ⟨hpos, htie, hodd⟩ := h
    exact ⟨_, _, _, _, rfl, hpos, htie, hodd⟩

theorem hasText_recommended_iff (h : ¬ v.IsOddTie) :
    v.HasText Decimal.IsRecommended text ↔ text = v.text := by
  cases v with
  | boolean value => exact hasText_boolean_iff
  | string value => exact hasText_string_iff
  | number value => exact hasText_number_iff.trans (isNumberText_recommended_iff h)

theorem hasText_text (v : Value) : v.HasText Decimal.IsFewest v.text := by
  cases v with
  | boolean value => exact hasText_boolean_iff.mpr rfl
  | string value => exact .string value
  | number value => exact .number (isNumberText_scriptText value)

theorem HasText.mono {decimals' : Nat → Decimal → Prop}
    (hsub : ∀ rank d, decimals rank d → decimals' rank d) (h : v.HasText decimals text) :
    v.HasText decimals' text := by
  cases h with
  | boolean value => exact .boolean value
  | string => exact .string _
  | number written => exact .number (written.mono hsub)

end Texts

end Value

end IdlBinding.Reflection
