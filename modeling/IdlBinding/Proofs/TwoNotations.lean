import IdlBinding.Default
import IdlBinding.Proofs.NumberText

/-!
# The two notations of numbers

Defaults are written in positional notation, attributes in the notation of scripts. Both show the
shortest decimal of a number. While the first digit is at most 21 places before the point and at
most six behind it, the two are the same text (`positional_eq_script`): there each rule of
positional notation is one of scripts. Farther away scripts have an exponent and positional notation
has not, but both denote the same rational (`notations_agree`).
-/

namespace IdlBinding.Decimal

/-- Near the point the rules of positional notation are rules of scripts. -/
theorem InPlace.layout {digits text : List Char} {point : Int} (h : InPlace digits point text)
    (hlow : -6 < point) (hhigh : point ≤ 21) : Layout digits point text := by
  cases h with
  | integer behind => exact .integer behind hhigh
  | mixed cut among begun continued => exact .mixed cut among begun continued hhigh
  | fraction before => exact .fraction before hlow

/-- **Near the point the notations are the same.** -/
theorem positional_eq_script {d : Decimal} (hpos : 0 < d.coefficient)
    (hlow : -6 < (Binary64.decimalLength d.coefficient : Int) + d.exponent)
    (hhigh : (Binary64.decimalLength d.coefficient : Int) + d.exponent ≤ 21) :
    d.positional = d.script :=
  ((inPlace_positional hpos).layout hlow hhigh).eq_script

/-- The positional text of a decimal denotes the decimal. -/
theorem readLiteral_positional {d : Decimal} (hpos : 0 < d.coefficient) :
    ∃ v, readLiteral d.positional = some v ∧ v.value = d.value := by
  obtain ⟨v, hread, hvalue⟩ := (inPlace_positional hpos).denotes (isDigit_toDigits d.coefficient)
    Nat.toDigits_ne_nil
  refine ⟨v, hread, hvalue.trans ?_⟩
  rw [digitValues, Reflection.toNat_toDigits, add_sub_cancel_left]

end IdlBinding.Decimal

namespace IdlBinding.Binary64

open Decimal Reflection

/-- A sign before a literal is the sign of what it denotes. -/
theorem literalValue?_signed {negative : Bool} {body : List Char} {v : Decimal}
    (hhead : ∀ c ∈ body.head?, c.isDigit = true) (hread : readLiteral body = some v) :
    literalValue? (signed negative body) = some (if negative then -v.value else v.value) := by
  simp only [literalValue?, splitSign_signed hhead, hread, Option.map_some]

/-- A sign is not an exponent. -/
theorem mark_mem_signed_iff {negative : Bool} {body : List Char} :
    'e' ∈ (signed negative body).toList ↔ 'e' ∈ body := by
  rw [signed, String.toList_ofList]
  cases negative with
  | false => rfl
  | true => exact List.mem_cons.trans (or_iff_right (by decide))

theorem positionalText_finite {negative : Bool} {rank : Fin finiteRanks} (h : 0 < rank.val) :
    positionalText (.finite negative rank) = signed negative (shortest rank).positional :=
  congrArg (signed negative) (if_neg h.ne')

/-- **The notations agree.** For a number other than zero, whose shortest decimal `d` has a first
digit that counts `10 ^ e`, there are the literal of a default and the text that attributes get,
whichever of the three types writes it. The two denote `d` with the sign of the number, and the
literal has no exponent. If `e` is at least -6 and at most 20 they are one text; otherwise the
second has an exponent, which is `e`. -/
theorem notations_agree (negative : Bool) (rank : Fin finiteRanks) (hpos : 0 < rank.val)
    (mark : Option Bool) : ∃ d : Decimal, ∃ e : Int,
    IsShortest rank d ∧ (∀ d', IsShortest rank d' → d' = d) ∧
    10 ^ e ≤ d.value ∧ d.value < 10 ^ (e + 1) ∧
    ∃ literal text : String,
      RawDefault.literal ⟨"number", some (.float (.finite negative rank)), mark⟩ = .ok literal ∧
      (∀ t ∈ [ReflectedType.domString, .usvString, .long],
        t.set (.number (.finite negative rank)) = .set text) ∧
      literalValue? literal = some (if negative then -d.value else d.value) ∧
      literalValue? text = some (if negative then -d.value else d.value) ∧
      'e' ∉ literal.toList ∧
      if -6 ≤ e ∧ e ≤ 20 then literal = text
      else ∃ mantissa, 'e' ∉ mantissa ∧ text.toList = mantissa ++ exponentPart e := by
  have hshortest := shortest_isShortest hpos rank.isLt
  have hliteral : positionalText (.finite negative rank) = _ := positionalText_finite hpos
  have htext : scriptText (.finite negative rank) = _ := scriptText_finite hpos
  generalize shortest rank = d at hshortest hliteral htext
  have hcoefficient := coefficient_pos hpos hshortest.readsBack
  have hdigits := isDigit_toDigits d.coefficient
  have hne : Nat.toDigits 10 d.coefficient ≠ [] := Nat.toDigits_ne_nil
  have hplace := inPlace_positional hcoefficient
  obtain ⟨e, he⟩ : ∃ e : Int, (decimalLength d.coefficient : Int) + d.exponent = e + 1 :=
    ⟨_, (sub_add_cancel _ 1).symm⟩
  have hlayout : Layout (Nat.toDigits 10 d.coefficient) (e + 1) d.script := he ▸ layout_script d
  obtain ⟨v, hv, hvalue⟩ := readLiteral_positional hcoefficient
  obtain ⟨w, hw, hvalue'⟩ := readLiteral_script d
  refine ⟨d, e, hshortest, fun d' h => h.unique hshortest, ?_, he ▸ value_lt d,
    signed negative d.positional, signed negative d.script, ?_, ?_, ?_, ?_, ?_, ?_⟩
  · have hle := le_value hcoefficient
    rwa [he, add_sub_cancel_right] at hle
  · rw [← hliteral]
    rfl
  · rw [← htext]
    simp [ReflectedType.set, Value.text]
  · rw [literalValue?_signed (hplace.head hdigits hne) hv, hvalue]
  · rw [literalValue?_signed (hlayout.head hdigits hne) hw, hvalue']
  · rw [mark_mem_signed_iff]
    exact hplace.exponent hdigits
  · have hexponent := hlayout.exponent hdigits
    split
    next hnear => rw [positional_eq_script hcoefficient (by omega) (by omega)]
    next hfar =>
      rw [if_pos (by omega)] at hexponent
      obtain ⟨mantissa, hmantissa, hscript⟩ := hexponent
      refine ⟨(signed negative mantissa).toList, mark_mem_signed_iff.not.mpr hmantissa, ?_⟩
      rw [hscript, signed, signed, String.toList_ofList, String.toList_ofList]
      cases negative with
      | false => rfl
      | true => rfl

/-- The number `-1.5e-7`, whose first digit is in the seventh place behind the point. -/
theorem notations_agree_beyond_sixth_place :
    0 < 4504762867522569078 ∧ ∃ literal text : String,
      RawDefault.literal ⟨"number",
        some (.float (.finite true ⟨4504762867522569078, by decide⟩)), none⟩ = .ok literal ∧
      ReflectedType.long.set (.number (.finite true ⟨4504762867522569078, by decide⟩)) =
        .set text ∧
      literalValue? literal = some (-value ⟨15, -8⟩) ∧
      literalValue? text = some (-value ⟨15, -8⟩) ∧ 'e' ∉ literal.toList ∧
      ∃ mantissa, 'e' ∉ mantissa ∧ text.toList = mantissa ++ exponentPart (-7) := by
  have hd : shortest 4504762867522569078 = ⟨15, -8⟩ := by decide +kernel
  have hshortest : IsShortest 4504762867522569078 (shortest 4504762867522569078) :=
    shortest_isShortest (by decide) (by decide)
  obtain ⟨d, e, -, hunique, hlow, hhigh, literal, text, hliteral, htext, hvalue, hvalue', hmark,
    hexponent⟩ := notations_agree true ⟨4504762867522569078, by decide⟩ (by decide) none
  rw [hd] at hshortest
  obtain rfl := hunique _ hshortest
  have hlt : e < -6 := lt_of_zpow_ten_lt (hlow.trans_lt (by norm_num [value]))
  have hgt : -7 < e + 1 := lt_of_zpow_ten_lt (lt_of_le_of_lt (by norm_num [value]) hhigh)
  obtain rfl : e = -7 := by omega
  exact ⟨by decide, literal, text, hliteral, htext _ (by simp), hvalue, hvalue', hmark, hexponent⟩

end IdlBinding.Binary64
