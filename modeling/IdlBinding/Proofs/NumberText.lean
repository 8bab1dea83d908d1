import IdlBinding.Proofs.PlaceNotation
import IdlBinding.Proofs.ShortestDecimal

/-!
# The text of a number

What the notation of the script language looks like, and what it denotes. `Layout` has one rule for
each way to write a run of digits that has its point at a given place; in a rule the zeros are
counted and the digits are cut without a remainder. `script` follows the rules (`layout_script`).

From the rules alone follows that the text denotes the digits (`Layout.denotes`), where an exponent
is written (`Layout.exponent`) and what stands after a point (`Layout.point`). The digits are those
of the shortest decimal, so for each number there is one text to write
(`scriptText_denotes_shortest`).
-/

namespace IdlBinding.Decimal

/-! ## Layouts -/

/-- The notation of numbers in scripts, for a run of digits and the place of the point, which is the
number of digits before it. -/
inductive Layout (digits : List Char) (point : Int) : List Char → Prop
  /-- all digits, and zeros up to the point -/
  | integer {zeros : Nat} (behind : point = digits.length + zeros) (near : point ≤ 21) :
    Layout digits point (digits ++ List.replicate zeros '0')
  /-- the point among the digits -/
  | mixed {whole fraction : List Char} (cut : digits = whole ++ fraction)
    (among : point = whole.length) (begun : whole ≠ []) (continued : fraction ≠ [])
    (near : point ≤ 21) : Layout digits point (whole ++ '.' :: fraction)
  /-- zeros from the point to the digits -/
  | fraction {zeros : Nat} (before : point = -zeros) (near : -6 < point) :
    Layout digits point ('0' :: '.' :: (List.replicate zeros '0' ++ digits))
  /-- one digit and an exponent -/
  | single {d : Char} (cut : digits = [d]) (far : point ≤ -6 ∨ 21 < point) :
    Layout digits point (d :: exponentPart (point - 1))
  /-- the point after the first digit, and an exponent -/
  | several {d : Char} {ds : List Char} (cut : digits = d :: ds) (continued : ds ≠ [])
    (far : point ≤ -6 ∨ 21 < point) :
    Layout digits point (d :: '.' :: (ds ++ exponentPart (point - 1)))

theorem layout_scientific {digits : List Char} (hne : digits ≠ []) {point : Int}
    (far : point ≤ -6 ∨ 21 < point) : Layout digits point (scientific digits (point - 1)) := by
  rcases digits with _ | ⟨d, _ | ⟨d', ds⟩⟩
  · exact absurd rfl hne
  · exact .single rfl far
  · exact .several rfl (List.cons_ne_nil d' ds) far

theorem layout_script (d : Decimal) :
    Layout (Nat.toDigits 10 d.coefficient)
      ((Nat.toDigits 10 d.coefficient).length + d.exponent) d.script := by
  have hne : Nat.toDigits 10 d.coefficient ≠ [] := Nat.toDigits_ne_nil
  simp only [script, Bool.and_eq_true, decide_eq_true_iff]
  generalize Nat.toDigits 10 d.coefficient = digits at hne ⊢
  generalize (digits.length : Int) + d.exponent = point
  split_ifs with hinteger hmixed hfraction
  · exact .integer (by omega) hinteger.2
  · obtain ⟨n, rfl⟩ := Int.eq_ofNat_of_zero_le (by omega : 0 ≤ point)
    rw [Int.toNat_natCast]
    refine .mixed (List.take_append_drop n digits).symm ?_ ?_ ?_ hmixed.2
    · rw [List.length_take]
      omega
    · rw [Ne, List.take_eq_nil_iff]
      exact fun hnil => hnil.elim (by omega) hne
    · rw [Ne, List.drop_eq_nil_iff]
      omega
  · exact .fraction (by omega) hfraction.1
  · exact layout_scientific hne (by omega)

/-- **The rules leave no choice**: at most one of them applies, and in one way. -/
theorem Layout.eq_script {d : Decimal} {text : List Char}
    (h : Layout (Nat.toDigits 10 d.coefficient)
      ((Nat.toDigits 10 d.coefficient).length + d.exponent) text) : text = d.script := by
  have hlength : 0 < (Nat.toDigits 10 d.coefficient).length := Nat.length_toDigits_pos
  simp only [script, Bool.and_eq_true, decide_eq_true_iff]
  generalize Nat.toDigits 10 d.coefficient = digits at hlength h ⊢
  generalize (digits.length : Int) + d.exponent = point at h ⊢
  cases h with
  | @integer zeros behind near =>
    have hzeros : (point - digits.length).toNat = zeros := by omega
    rw [if_pos ⟨by omega, near⟩, hzeros]
  | @mixed whole fraction cut among begun continued near =>
    have hfraction := List.length_pos_iff.mpr continued
    have hwhole := List.length_pos_iff.mpr begun
    rw [cut, List.length_append, if_neg (by omega), if_pos ⟨by omega, near⟩, among,
      Int.toNat_natCast, List.take_left, List.drop_left]
  | @fraction zeros before near =>
    have hzeros : (-point).toNat = zeros := by omega
    rw [if_neg (by omega), if_neg (by omega), if_pos ⟨near, by omega⟩, hzeros]
  | @single d cut far =>
    rw [if_neg (by omega), if_neg (by omega), if_neg (by omega), cut]
    rfl
  | @several d ds cut continued far =>
    rw [if_neg (by omega), if_neg (by omega), if_neg (by omega), cut]
    rcases ds with _ | ⟨d', ds⟩
    · exact absurd rfl continued
    · rfl

/-- A layout starts with a digit. -/
theorem Layout.head {digits text : List Char} {point : Int} (h : Layout digits point text)
    (hdigits : ∀ c ∈ digits, c.isDigit = true) (hne : digits ≠ []) :
    ∀ c ∈ text.head?, c.isDigit = true := by
  cases h with
  | integer behind near => exact (InPlace.integer behind).head hdigits hne
  | mixed cut among begun continued near =>
    exact (InPlace.mixed cut among begun continued).head hdigits hne
  | fraction before near => exact (InPlace.fraction before).head hdigits hne
  | single cut far =>
    rintro _ ⟨⟩
    exact hdigits _ (cut ▸ List.mem_cons_self)
  | several cut continued far =>
    rintro _ ⟨⟩
    exact hdigits _ (cut ▸ List.mem_cons_self)

/-- **A layout denotes its digits**, counted from the point. -/
theorem Layout.denotes {digits text : List Char} {point : Int} (h : Layout digits point text)
    (hdigits : ∀ c ∈ digits, c.isDigit = true) (hne : digits ≠ []) :
    ∃ v, readLiteral text = some v ∧
      v.value = value ⟨Digits.toNat 10 (digitValues digits), point - digits.length⟩ := by
  have hmark : ∀ c ∈ (exponentPart (point - 1)).head?, c.isDigit = false ∧ c ≠ '.' := by
    intro c hc
    rw [head_exponentPart _ c hc]
    decide
  cases h with
  | integer behind near => exact (InPlace.integer behind).denotes hdigits hne
  | mixed cut among begun continued near =>
    exact (InPlace.mixed cut among begun continued).denotes hdigits hne
  | fraction before near => exact (InPlace.fraction before).denotes hdigits hne
  | @single d cut far =>
    have hread := readLiteral_whole (cut ▸ hdigits) (List.cons_ne_nil d []) _
      (readExponent_exponentPart (point - 1)) hmark
    refine ⟨_, hread, ?_⟩
    rw [cut]
    rfl
  | @several d ds cut continued far =>
    rw [cut, ← List.singleton_append, List.forall_mem_append] at hdigits
    have hread := readLiteral_point hdigits.1 (List.cons_ne_nil d []) hdigits.2 _
      (readExponent_exponentPart (point - 1)) (fun c hc => (hmark c hc).1)
    have hplaces : point - digits.length = point - 1 - ds.length := by
      rw [cut, List.length_cons]
      omega
    refine ⟨_, hread, ?_⟩
    rw [hplaces, cut]
    rfl

/-- The text of a decimal denotes the decimal. -/
theorem readLiteral_script (d : Decimal) :
    ∃ v, readLiteral d.script = some v ∧ v.value = d.value := by
  obtain ⟨v, hread, hvalue⟩ := (layout_script d).denotes (isDigit_toDigits d.coefficient)
    Nat.toDigits_ne_nil
  refine ⟨v, hread, hvalue.trans ?_⟩
  rw [digitValues, Reflection.toNat_toDigits, add_sub_cancel_left]

/-! ## Exponents and points -/

/-- **An exponent** stands where the first digit is far from the point, and always with a sign. -/
theorem Layout.exponent {digits text : List Char} {e : Int} (h : Layout digits (e + 1) text)
    (hdigits : ∀ c ∈ digits, c.isDigit = true) :
    if 21 ≤ e ∨ e ≤ -7 then ∃ mantissa, 'e' ∉ mantissa ∧ text = mantissa ++ exponentPart e
    else 'e' ∉ text := by
  have hmark := notMem_of_isDigit (x := 'e') hdigits rfl
  cases h with
  | integer behind near =>
    rw [if_neg (by omega)]
    exact (InPlace.integer behind).exponent hdigits
  | mixed cut among begun continued near =>
    have hpositive := List.length_pos_iff.mpr begun
    rw [if_neg (by omega)]
    exact (InPlace.mixed cut among begun continued).exponent hdigits
  | fraction before near =>
    rw [if_neg (by omega)]
    exact (InPlace.fraction before).exponent hdigits
  | @single d cut far =>
    rw [if_pos (by omega), add_sub_cancel_right]
    exact ⟨[d], cut ▸ hmark, rfl⟩
  | @several d ds cut continued far =>
    rw [cut, List.mem_cons, not_or] at hmark
    rw [if_pos (by omega), add_sub_cancel_right]
    refine ⟨d :: '.' :: ds, ?_, rfl⟩
    rw [List.mem_cons, List.mem_cons]
    exact not_or.mpr ⟨hmark.1, not_or.mpr ⟨by decide, hmark.2⟩⟩

/-- A run of digits after a point shows the last of them. -/
theorem exists_nonzero_of_getLast? {cs : List Char} (hdigits : ∀ c ∈ cs, c.isDigit = true)
    (hne : cs ≠ []) (hlast : cs.getLast? ≠ some '0') (tail : List Char)
    (htail : ∀ c ∈ tail.head?, c.isDigit = false) :
    ∃ c ∈ (cs ++ tail).takeWhile Char.isDigit, c ≠ '0' := by
  have hrun : (cs ++ tail).takeWhile Char.isDigit = cs := by
    rw [List.takeWhile_append_of_pos hdigits]
    cases tail with
    | nil => rw [List.takeWhile_nil, List.append_nil]
    | cons c tail =>
      rw [List.takeWhile_cons, htail c rfl, if_neg Bool.false_ne_true, List.append_nil]
  rw [hrun]
  refine ⟨cs.getLast hne, List.getLast_mem hne, fun hzero => hlast ?_⟩
  rw [List.getLast?_eq_some_getLast hne, hzero]

theorem point_notMem_exponentPart (e : Int) : '.' ∉ exponentPart e := by
  have hdigits := notMem_of_isDigit (x := '.') (isDigit_toDigits e.natAbs) rfl
  have hsign : '.' ≠ if e < 0 then '-' else '+' := by
    split
    · decide
    · decide
  rw [exponentPart, List.mem_cons, List.mem_cons]
  exact not_or.mpr ⟨by decide, not_or.mpr ⟨hsign, hdigits⟩⟩

/-- **A point** stands only where a digit other than zero follows it. -/
theorem Layout.point {digits text before after : List Char} {point : Int}
    (h : Layout digits point text) (hdigits : ∀ c ∈ digits, c.isDigit = true) (hne : digits ≠ [])
    (hlast : digits.getLast? ≠ some '0') (htext : text = before ++ '.' :: after) :
    ∃ c ∈ after.takeWhile Char.isDigit, c ≠ '0' := by
  have hzeros (n : Nat) := notMem_of_isDigit (x := '.') (isDigit_zeros n) rfl
  have hpoint := notMem_of_isDigit (x := '.') hdigits rfl
  have hexponent := point_notMem_exponentPart (point - 1)
  have hmem : '.' ∈ text := htext ▸ List.mem_append_right _ List.mem_cons_self
  -- The text has one point at most, so what stands after it is known.
  cases h with
  | integer behind near =>
    rw [List.mem_append] at hmem
    exact absurd hmem (not_or.mpr ⟨hpoint, hzeros _⟩)
  | mixed cut among begun continued near =>
    rw [cut, List.mem_append, not_or] at hpoint
    rw [List.append_cons_inj_of_notMem hpoint.1 hpoint.2] at htext
    rw [cut, List.getLast?_append_of_ne_nil _ continued] at hlast
    have hfraction := (List.forall_mem_append.mp (cut ▸ hdigits)).2
    have hfound := exists_nonzero_of_getLast? hfraction continued hlast [] (by simp)
    rwa [List.append_nil, htext.2.2] at hfound
  | @fraction zeros _ near =>
    have hafter : '.' ∉ List.replicate zeros '0' ++ digits := by
      rw [List.mem_append]
      exact not_or.mpr ⟨hzeros _, hpoint⟩
    have hcut : List.replicate 1 '0' ++ '.' :: (List.replicate zeros '0' ++ digits) =
        before ++ '.' :: after := htext
    rw [List.append_cons_inj_of_notMem (hzeros 1) hafter] at hcut
    rw [← List.getLast?_append_of_ne_nil (List.replicate zeros '0') hne] at hlast
    have hfound := exists_nonzero_of_getLast?
      (List.forall_mem_append.mpr ⟨isDigit_zeros zeros, hdigits⟩)
      (List.append_ne_nil_of_right_ne_nil _ hne) hlast [] (by simp)
    rwa [List.append_nil, hcut.2.2] at hfound
  | single cut far =>
    rw [cut, List.mem_singleton] at hpoint
    rw [List.mem_cons] at hmem
    exact absurd hmem (not_or.mpr ⟨hpoint, hexponent⟩)
  | @several d ds cut continued far =>
    rw [cut, List.mem_cons, not_or] at hpoint
    have hafter : '.' ∉ ds ++ exponentPart (point - 1) := by
      rw [List.mem_append]
      exact not_or.mpr ⟨hpoint.2, hexponent⟩
    have hcut : [d] ++ '.' :: (ds ++ exponentPart (point - 1)) = before ++ '.' :: after := htext
    rw [List.append_cons_inj_of_notMem (List.mem_singleton.not.mpr hpoint.1) hafter] at hcut
    rw [cut, ← List.singleton_append, List.getLast?_append_of_ne_nil _ continued] at hlast
    have hrest := (List.forall_mem_cons.mp (cut ▸ hdigits)).2
    rw [← hcut.2.2]
    refine exists_nonzero_of_getLast? hrest continued hlast _ fun c hc => ?_
    rw [head_exponentPart _ c hc]
    rfl

theorem getLast?_toDigits {n : Nat} (h : n % 10 ≠ 0) : (Nat.toDigits 10 n).getLast? ≠ some '0' := by
  have hdigit : ∀ d < 10, d ≠ 0 → Nat.digitChar d ≠ '0' := by decide
  have hlt : n % 10 < 10 := Nat.mod_lt n (by decide)
  have hlast : (Nat.toDigits 10 n).getLast? = some (Nat.digitChar (n % 10)) := by
    rcases Nat.eq_zero_or_pos (n / 10) with hzero | hpos
    · have hsmall : n < 10 := by omega
      rw [Nat.toDigits_of_lt_base hsmall, Nat.mod_eq_of_lt hsmall, List.getLast?_singleton]
    · rw [← Nat.div_add_mod n 10, ← Nat.toDigits_append_toDigits (by decide) hpos hlt,
        Nat.toDigits_of_lt_base hlt, List.getLast?_concat, Nat.mul_add_mod, Nat.mod_mod]
  rw [hlast]
  exact fun heq => hdigit _ hlt h (Option.some.inj heq)

/-! ## Counts and cuts -/

/-- So many zeros; there is no text for a negative count. -/
def zeros? (count : Int) : Option (List Char) :=
  if 0 ≤ count then some (List.replicate count.toNat '0') else none

/-- The digits before and after a position among them; there is none elsewhere. -/
def cut? (digits : List Char) (position : Int) : Option (List Char × List Char) :=
  if 0 ≤ position ∧ position ≤ digits.length then
    some (digits.take position.toNat, digits.drop position.toNat)
  else none

/-- `script` where every count and every cut is checked. -/
def script? (d : Decimal) : Option (List Char) :=
  let digits := Nat.toDigits 10 d.coefficient
  let point := (digits.length : Int) + d.exponent
  if digits.length ≤ point && point ≤ 21 then
    (zeros? (point - digits.length)).map fun zeros => digits ++ zeros
  else if 0 < point && point ≤ 21 then
    (cut? digits point).map fun parts => parts.1 ++ '.' :: parts.2
  else if -6 < point && point ≤ 0 then
    (zeros? (-point)).map fun zeros => '0' :: '.' :: (zeros ++ digits)
  else
    (cut? digits 1).map fun parts =>
      if parts.2.isEmpty then parts.1 ++ exponentPart (point - 1)
      else parts.1 ++ '.' :: (parts.2 ++ exponentPart (point - 1))

theorem script?_eq (d : Decimal) : d.script? = some d.script := by
  have hne : Nat.toDigits 10 d.coefficient ≠ [] := Nat.toDigits_ne_nil
  simp only [script?, script, Bool.and_eq_true, decide_eq_true_iff]
  generalize Nat.toDigits 10 d.coefficient = digits at hne ⊢
  generalize (digits.length : Int) + d.exponent = point
  split_ifs with hinteger hmixed hfraction
  · rw [zeros?, if_pos (by omega), Option.map_some]
  · rw [cut?, if_pos (by omega), Option.map_some]
  · rw [zeros?, if_pos (by omega), Option.map_some]
  · have hlength := List.length_pos_iff.mpr hne
    rw [cut?, if_pos (by omega), Option.map_some]
    rcases digits with _ | ⟨d, _ | ⟨d', ds⟩⟩
    · exact absurd rfl hne
    · rfl
    · rfl

end IdlBinding.Decimal

namespace IdlBinding.Binary64

open Decimal

/-! ## Numbers -/

theorem splitSign_signed {negative : Bool} {body : List Char}
    (h : ∀ c ∈ body.head?, c.isDigit = true) :
    Reflection.splitSign (signed negative body).toList = (negative, body) := by
  rw [signed, String.toList_ofList]
  cases negative with
  | true => rfl
  | false =>
    refine Reflection.Reading.splitSign_of_head fun c hc => ⟨?_, ?_⟩
    · rintro rfl
      exact absurd (h '-' hc) (by decide)
    · rintro rfl
      exact absurd (h '+' hc) (by decide)

theorem scriptText_finite {negative : Bool} {rank : Fin finiteRanks} (h : 0 < rank.val) :
    scriptText (.finite negative rank) = signed negative (shortest rank).script :=
  if_neg h.ne'

/-- **The text of a number** other than zero has the digits of its shortest decimal `d`, whose first
digit counts `10 ^ e`. It is laid out by the rules, with no count below zero and no cut outside the
digits. Read as a literal it denotes the decimal with the sign of the number; it has an exponent if
`e` is at least 21 or at most -7 and only then; and a point is followed by a digit other than
zero. -/
theorem scriptText_denotes_shortest (negative : Bool) (rank : Fin finiteRanks)
    (hpos : 0 < rank.val) : ∃ d : Decimal, ∃ e : Int,
    IsShortest rank d ∧ (∀ d', IsShortest rank d' → d' = d) ∧
    10 ^ e ≤ d.value ∧ d.value < 10 ^ (e + 1) ∧
    ∃ body : List Char, d.script? = some body ∧
      scriptText (.finite negative rank) = signed negative body ∧
      Layout (Nat.toDigits 10 d.coefficient) (e + 1) body ∧
      literalValue? (scriptText (.finite negative rank)) =
        some (if negative then -d.value else d.value) ∧
      (if 21 ≤ e ∨ e ≤ -7 then ∃ mantissa, 'e' ∉ mantissa ∧ body = mantissa ++ exponentPart e
        else 'e' ∉ body) ∧
      ∀ before after, body = before ++ '.' :: after →
        ∃ c ∈ after.takeWhile Char.isDigit, c ≠ '0' := by
  have hshortest := shortest_isShortest hpos rank.isLt
  generalize hd : shortest rank = d at hshortest
  have hcoefficient := coefficient_pos hpos hshortest.readsBack
  have hdigits := isDigit_toDigits d.coefficient
  have hne : Nat.toDigits 10 d.coefficient ≠ [] := Nat.toDigits_ne_nil
  have htext : scriptText (.finite negative rank) = signed negative d.script := by
    rw [scriptText_finite hpos, hd]
  obtain ⟨e, he⟩ : ∃ e : Int, (decimalLength d.coefficient : Int) + d.exponent = e + 1 :=
    ⟨_, (sub_add_cancel _ 1).symm⟩
  have hlayout : Layout (Nat.toDigits 10 d.coefficient) (e + 1) d.script := he ▸ layout_script d
  obtain ⟨v, hread, hvalue⟩ := readLiteral_script d
  refine ⟨d, e, hshortest, fun d' h => h.unique hshortest, ?_, he ▸ value_lt d, d.script,
    script?_eq d, htext, hlayout, ?_, hlayout.exponent hdigits, ?_⟩
  · have := le_value hcoefficient
    rwa [he, add_sub_cancel_right] at this
  · rw [htext, literalValue?, splitSign_signed (hlayout.head hdigits hne)]
    simp only [hread, Option.map_some, hvalue]
  · exact fun before after hcut =>
      hlayout.point hdigits hne (getLast?_toDigits hshortest.last) hcut

/-- The number `-1.5e-7`. -/
theorem scriptText_denotes_shortest_exponent :
    0 < 4504762867522569078 ∧ ∃ body, script? ⟨15, -8⟩ = some body ∧
      scriptText (.finite true ⟨4504762867522569078, by decide⟩) = signed true body ∧
      literalValue? (signed true body) = some (-value ⟨15, -8⟩) := by
  have hd : shortest 4504762867522569078 = ⟨15, -8⟩ := by decide +kernel
  have hshortest : IsShortest 4504762867522569078 (shortest 4504762867522569078) :=
    shortest_isShortest (by decide) (by decide)
  obtain ⟨d, e, -, hunique, -, -, body, hscript, htext, -, hvalue, -⟩ :=
    scriptText_denotes_shortest true ⟨4504762867522569078, by decide⟩ (by decide)
  rw [hd] at hshortest
  obtain rfl := hunique _ hshortest
  exact ⟨by decide, body, hscript, htext, htext ▸ hvalue⟩

end IdlBinding.Binary64
