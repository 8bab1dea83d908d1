import IdlBinding.Proofs.ScriptValues

/-!
# What the text of a setter does

The bodies of setters are written in a small part of the script language: calls that write or remove
an attribute, a branch, a choice between two operands and the conversion to a string. Here this part
has a syntax, which is written out by `Action.text`, and a meaning, `Action.Performs`, by the rules
of the language and their conversions. Each setter is the text of one statement (`text_action`).

What the statement does is compared with `set`. They agree on all types and values but two kinds
(`set_performed_unless_large_text_or_odd_tie`).

* The language converts a string before it compares it with a number, and `set` does not. So for an
  `unsigned long` a string that stands for too large a number is written as it is
  (`Value.IsLargeText`).
* Where two decimals are equally near to a number, the language recommends the even one and `set`
  writes the greater one (`Value.IsOddTie`). The language allows that.
-/

namespace IdlBinding.Reflection

/-! ## Statements of setters -/

/-- An operand: the new value, a string or an integer. -/
inductive Operand where
  | argument
  | quoted (text : String)
  | integer (n : Nat)

/-- An expression. -/
inductive Expr where
  /-- an operand alone -/
  | operand (x : Operand)
  /-- one of two operands, the first if another is greater than an integer -/
  | ifAbove (left : Operand) (bound : Nat) (yes no : Operand)
  /-- the string form of an expression -/
  | string (e : Expr)

/-- A statement. -/
inductive Action where
  /-- give an attribute a value -/
  | setAttribute (name : String) (value : Expr)
  /-- remove an attribute -/
  | removeAttribute (name : String)
  /-- one of two statements, the first if an operand counts as true -/
  | ifElse (condition : Operand) (yes no : Action)

/-! ## Meaning -/

/-- The value of an operand. -/
def Operand.value (v : Value) : Operand → Value
  | .argument => v
  | .quoted text => .string text
  | .integer n => .number (.ofInt n)

/-- The values of expressions, where numbers may be written as some decimals. -/
inductive Expr.Evaluates (decimals : Nat → Decimal → Prop) (v : Value) : Expr → Value → Prop
  | operand (x : Operand) : Evaluates decimals v (.operand x) (x.value v)
  | above {left : Operand} {bound : Nat} {yes no : Operand}
    (greater : Binary64.Less (.ofInt bound) (left.value v).toNumber) :
    Evaluates decimals v (.ifAbove left bound yes no) (yes.value v)
  | notAbove {left : Operand} {bound : Nat} {yes no : Operand}
    (notGreater : ¬ Binary64.Less (.ofInt bound) (left.value v).toNumber) :
    Evaluates decimals v (.ifAbove left bound yes no) (no.value v)
  | string {e : Expr} {x : Value} {text : String} (inner : Evaluates decimals v e x)
    (converted : x.HasText decimals text) : Evaluates decimals v (.string e) (.string text)

/-- What statements do: to which attribute, and what. A value is converted to a string when it is
given to an attribute. -/
inductive Action.Performs (decimals : Nat → Decimal → Prop) (v : Value) :
    Action → String × Write → Prop
  | setAttribute {name text : String} {e : Expr} {x : Value} (value : e.Evaluates decimals v x)
    (converted : x.HasText decimals text) :
    Performs decimals v (.setAttribute name e) (name, .set text)
  | removeAttribute {name : String} : Performs decimals v (.removeAttribute name) (name, .remove)
  | yes {condition : Operand} {yes no : Action} {write : String × Write}
    (truthy : ¬ (condition.value v).Falsy) (taken : Performs decimals v yes write) :
    Performs decimals v (.ifElse condition yes no) write
  | no {condition : Operand} {yes no : Action} {write : String × Write}
    (falsy : (condition.value v).Falsy) (taken : Performs decimals v no write) :
    Performs decimals v (.ifElse condition yes no) write

/-! ## Text -/

/-- The text of an operand; integers are written in decimal digits. -/
def Operand.text : Operand → String
  | .argument => "V"
  | .quoted text => Quoted.quote text
  | .integer n => String.ofList (Nat.toDigits 10 n)

/-- The text of an expression. -/
def Expr.text : Expr → String
  | .operand x => x.text
  | .ifAbove left bound yes no =>
    left.text ++ " > " ++ (Operand.integer bound).text ++ " ? " ++ yes.text ++ " : " ++ no.text
  | .string e => "String(" ++ e.text ++ ")"

/-- The lines of a statement on an object. -/
def Action.lines (object : String) : Action → List String
  | .setAttribute name e =>
    [object ++ ".setAttributeNS(null, " ++ Quoted.quote name ++ ", " ++ e.text ++ ");"]
  | .removeAttribute name => [object ++ ".removeAttributeNS(null, " ++ Quoted.quote name ++ ");"]
  | .ifElse condition yes no =>
    ["if (" ++ condition.text ++ ") \x7b"] ++ (yes.lines object).map ("  " ++ ·) ++
      ["\x7d else \x7b"] ++ (no.lines object).map ("  " ++ ·) ++ ["\x7d"]

/-- The text of a statement, each line with its end. -/
def Action.text (object : String) (a : Action) : String :=
  String.join ((a.lines object).map (· ++ "\n"))

/-- The statement of a setter. -/
def ReflectedType.action (t : ReflectedType) (attr : String) : Action :=
  match t with
  | .boolean =>
    .ifElse .argument (.setAttribute attr (.operand (.quoted ""))) (.removeAttribute attr)
  | .domString | .usvString => .setAttribute attr (.operand .argument)
  | .long => .setAttribute attr (.string (.operand .argument))
  | .unsignedLong =>
    .setAttribute attr (.string (.ifAbove .argument 2147483647 (.integer 0) .argument))

theorem text_setAttribute (object attr : String) (e : Expr) :
    (Action.setAttribute attr e).text object =
      (Op.performAll (.new .script)
        [.line (ReflectedType.setLine object (Quoted.quote attr) e.text)]).text := by
  simp [Action.text, Action.lines, ReflectedType.setLine, Op.performAll, Op.perform, Writer.line,
    Writer.new, Indent.margin, String.join]

theorem text_boolean (object attr : String) :
    (ReflectedType.boolean.action attr).text object = ReflectedType.boolean.setter object attr := by
  have hquote : Quoted.quote "" = "\"\"" := rfl
  have hindent : Indent.script.text = "  " := rfl
  simp [ReflectedType.action, Action.text, Action.lines, Operand.text, Expr.text, hquote,
    ReflectedType.setter, ReflectedType.setterOps, ReflectedType.setLine, Op.performAll, Op.perform,
    Writer.line, Writer.new, Writer.deeper, Writer.shallower, Indent.margin, hindent, String.join]

/-- **The text of a setter** is the text of its statement. -/
theorem text_action (t : ReflectedType) (object attr : String) :
    (t.action attr).text object = t.setter object attr := by
  cases t with
  | boolean => exact text_boolean object attr
  | domString | usvString | long => exact text_setAttribute object attr _
  | unsignedLong =>
    have hbound : (Operand.integer 2147483647).text = "2147483647" := rfl
    have hzero : (Operand.integer 0).text = "0" := rfl
    refine (text_setAttribute object attr _).trans ?_
    rw [Expr.text, Expr.text, hbound, hzero]
    rfl

/-! ## What statements do -/

section

variable {decimals : Nat → Decimal → Prop} {v : Value} {m : String × Write}

theorem evaluates_operand_iff {x : Operand} {y : Value} :
    (Expr.operand x).Evaluates decimals v y ↔ y = x.value v := by
  refine ⟨fun h => ?_, ?_⟩
  · cases h
    rfl
  · rintro rfl
    exact .operand x

theorem evaluates_ifAbove_iff {left yes no : Operand} {bound : Nat} {y : Value} :
    (Expr.ifAbove left bound yes no).Evaluates decimals v y ↔
      Binary64.Less (.ofInt bound) (left.value v).toNumber ∧ y = yes.value v ∨
        ¬ Binary64.Less (.ofInt bound) (left.value v).toNumber ∧ y = no.value v := by
  refine ⟨fun h => ?_, ?_⟩
  · cases h with
    | above greater => exact Or.inl ⟨greater, rfl⟩
    | notAbove notGreater => exact Or.inr ⟨notGreater, rfl⟩
  · rintro (⟨greater, rfl⟩ | ⟨notGreater, rfl⟩)
    · exact .above greater
    · exact .notAbove notGreater

theorem performs_setAttribute_iff {name : String} {e : Expr} :
    (Action.setAttribute name e).Performs decimals v m ↔
      ∃ x text, e.Evaluates decimals v x ∧ x.HasText decimals text ∧ m = (name, .set text) := by
  refine ⟨fun h => ?_, ?_⟩
  · cases h with
    | setAttribute value converted => exact ⟨_, _, value, converted, rfl⟩
  · rintro ⟨x, text, value, converted, rfl⟩
    exact .setAttribute value converted

theorem performs_removeAttribute_iff {name : String} :
    (Action.removeAttribute name).Performs decimals v m ↔ m = (name, .remove) := by
  refine ⟨fun h => ?_, ?_⟩
  · cases h
    rfl
  · rintro rfl
    exact .removeAttribute

theorem performs_ifElse_iff {condition : Operand} {yes no : Action} :
    (Action.ifElse condition yes no).Performs decimals v m ↔
      (if (condition.value v).isTruthy then yes else no).Performs decimals v m := by
  refine ⟨fun h => ?_, fun h => ?_⟩
  · cases h with
    | yes truthy taken =>
      rw [Value.falsy_iff, Bool.not_eq_false] at truthy
      rwa [if_pos truthy]
    | no falsy taken =>
      rw [Value.falsy_iff] at falsy
      rwa [falsy, if_neg Bool.false_ne_true]
  · split at h
    next truthy => exact .yes (Value.falsy_iff.not.mpr (Bool.not_eq_false _ ▸ truthy)) h
    next falsy => exact .no (Value.falsy_iff.mpr (Bool.eq_false_of_not_eq_true falsy)) h

/-- The conversion to a string is made anyway. -/
theorem performs_set_string_iff {name : String} {e : Expr} :
    (Action.setAttribute name (.string e)).Performs decimals v m ↔
      (Action.setAttribute name e).Performs decimals v m := by
  rw [performs_setAttribute_iff, performs_setAttribute_iff]
  refine ⟨?_, ?_⟩
  · rintro ⟨_, _, hstring, htext, rfl⟩
    cases hstring with
    | @string _ x text inner converted =>
      obtain rfl := Value.hasText_string_iff.mp htext
      exact ⟨x, _, inner, converted, rfl⟩
  · rintro ⟨x, text, hx, htext, rfl⟩
    exact ⟨.string text, text, .string hx htext, .string text, rfl⟩

theorem performs_set_operand_iff {name : String} {x : Operand} :
    (Action.setAttribute name (.operand x)).Performs decimals v m ↔
      ∃ text, (x.value v).HasText decimals text ∧ m = (name, .set text) := by
  simp only [performs_setAttribute_iff, evaluates_operand_iff, exists_and_left, exists_eq_left]

/-- With more decimals to choose from an expression may have more values. -/
theorem Expr.Evaluates.mono {decimals' : Nat → Decimal → Prop} {e : Expr} {x : Value}
    (hsub : ∀ rank d, decimals rank d → decimals' rank d) (h : e.Evaluates decimals v x) :
    e.Evaluates decimals' v x := by
  induction h with
  | operand x => exact .operand x
  | above greater => exact .above greater
  | notAbove notGreater => exact .notAbove notGreater
  | string _ converted ih => exact .string ih (converted.mono hsub)

/-- And a statement may do more. -/
theorem Action.Performs.mono {decimals' : Nat → Decimal → Prop} {a : Action}
    (hsub : ∀ rank d, decimals rank d → decimals' rank d) (h : a.Performs decimals v m) :
    a.Performs decimals' v m := by
  induction h with
  | setAttribute value converted => exact .setAttribute (value.mono hsub) (converted.mono hsub)
  | removeAttribute => exact .removeAttribute
  | yes truthy _ ih => exact .yes truthy ih
  | no falsy _ ih => exact .no falsy ih

end

/-! ## Comparison with the write -/

/-- The value is a string, and the number of this string is too large. -/
def Value.IsLargeText (v : Value) : Prop :=
  ∃ text, v = .string text ∧ Binary64.Less (.ofInt maxLong) (stringToNumber text)

theorem natAbs_maxLong : maxLong.natAbs ≤ 2 ^ 53 := by decide

/-- Only strings are compared otherwise than by `isTooLarge`. -/
theorem less_toNumber_iff {v : Value} : Binary64.Less (.ofInt maxLong) v.toNumber ↔
    ReflectedType.isTooLarge v = true ∨ v.IsLargeText := by
  cases v with
  | boolean value =>
    have hsmall : ¬ Binary64.Less (.ofInt maxLong) (Value.boolean value).toNumber := by
      rw [Binary64.less_ofInt_iff natAbs_maxLong, Value.toNumber,
        (Binary64.isInteger_ofInt (by cases value <;> decide)).exceeds_iff]
      cases value with
      | true => decide
      | false => decide
    refine iff_of_false hsmall (not_or.mpr ⟨Bool.false_ne_true, ?_⟩)
    rintro ⟨_, hstring, -⟩
    cases hstring
  | string text =>
    refine ⟨fun h => Or.inr ⟨text, rfl, h⟩, ?_⟩
    rintro (hnumber | ⟨_, hstring, h⟩)
    · cases hnumber
    · cases hstring
      exact h
  | number x =>
    refine (Binary64.less_ofInt_iff natAbs_maxLong).trans ⟨Or.inl, ?_⟩
    rintro (h | ⟨_, hstring, -⟩)
    · exact h
    · cases hstring

theorem text_ne_zero_of_large {text : String}
    (h : Binary64.Less (.ofInt maxLong) (stringToNumber text)) : text ≠ "0" := by
  rintro rfl
  rw [Binary64.less_ofInt_iff natAbs_maxLong] at h
  exact absurd h (by decide +kernel)

/-- The setter writes the string form of the value. -/
def ReflectedType.WritesText (t : ReflectedType) (v : Value) : Prop :=
  t ≠ .boolean ∧ ¬ (t = .unsignedLong ∧ ReflectedType.isTooLarge v = true)

theorem ReflectedType.WritesText.set_eq {t : ReflectedType} {v : Value} (h : t.WritesText v) :
    t.set v = .set v.text := by
  cases t with
  | boolean => exact absurd rfl h.1
  | domString | usvString | long => rfl
  | unsignedLong => exact if_neg fun hlarge => h.2 ⟨rfl, hlarge⟩

section Setters

variable {decimals : Nat → Decimal → Prop} {attr : String} {v : Value} {m : String × Write}

theorem hasText_zero_iff {text : String} :
    ((Operand.integer 0).value v).HasText decimals text ↔ text = "0" := by
  have hzero : Binary64.ofInt ((0 : Nat) : Int) = .zero :=
    (Binary64.isInteger_ofInt (by decide)).unique Binary64.isInteger_zero
  rw [Operand.value, hzero, Value.hasText_number_iff]
  exact Binary64.isNumberText_zero_iff rfl

/-- The write of the setter that compares. -/
theorem performs_unsignedLong_iff :
    (ReflectedType.unsignedLong.action attr).Performs decimals v m ↔
      Binary64.Less (.ofInt maxLong) v.toNumber ∧ m = (attr, .set "0") ∨
        ¬ Binary64.Less (.ofInt maxLong) v.toNumber ∧
          ∃ text, v.HasText decimals text ∧ m = (attr, .set text) := by
  refine (performs_set_string_iff.trans performs_setAttribute_iff).trans ⟨?_, ?_⟩
  · rintro ⟨x, text, hx, htext, rfl⟩
    rcases evaluates_ifAbove_iff.mp hx with ⟨hless, rfl⟩ | ⟨hless, rfl⟩
    · exact Or.inl ⟨hless, by rw [hasText_zero_iff.mp htext]⟩
    · exact Or.inr ⟨hless, text, htext, rfl⟩
  · rintro (⟨hless, rfl⟩ | ⟨hless, text, htext, rfl⟩)
    · exact ⟨_, "0", evaluates_ifAbove_iff.mpr (Or.inl ⟨hless, rfl⟩), hasText_zero_iff.mpr rfl, rfl⟩
    · exact ⟨_, text, evaluates_ifAbove_iff.mpr (Or.inr ⟨hless, rfl⟩), htext, rfl⟩

/-- A setter that does not write the string form does what `set` says. -/
theorem performs_of_not_writesText {t : ReflectedType} (h : ¬ t.WritesText v) :
    (t.action attr).Performs decimals v m ↔ m = (attr, t.set v) := by
  cases t with
  | boolean =>
    refine performs_ifElse_iff.trans ?_
    rw [ReflectedType.set, Operand.value]
    cases v.isTruthy with
    | true =>
      refine performs_set_operand_iff.trans ?_
      simp only [Operand.value, Value.hasText_string_iff, exists_eq_left, if_pos]
    | false => exact performs_removeAttribute_iff
  | domString | usvString | long => exact absurd ⟨nofun, nofun⟩ h
  | unsignedLong =>
    have hlarge : ReflectedType.isTooLarge v = true :=
      Decidable.of_not_not fun hsmall => h ⟨nofun, fun hlarge => hsmall hlarge.2⟩
    have hless := less_toNumber_iff.mpr (Or.inl hlarge)
    rw [performs_unsignedLong_iff, ReflectedType.set, if_pos hlarge]
    simp [hless]

/-- A setter that writes the string form does so, unless it compares a string. -/
theorem performs_of_writesText {t : ReflectedType} (h : t.WritesText v)
    (hsmall : ¬ (t = .unsignedLong ∧ v.IsLargeText)) :
    (t.action attr).Performs decimals v m ↔
      ∃ text, v.HasText decimals text ∧ m = (attr, .set text) := by
  cases t with
  | boolean => exact absurd rfl h.1
  | domString | usvString => exact performs_set_operand_iff
  | long => exact performs_set_string_iff.trans performs_set_operand_iff
  | unsignedLong =>
    have hless : ¬ Binary64.Less (.ofInt maxLong) v.toNumber := by
      rw [less_toNumber_iff]
      exact not_or.mpr ⟨fun hlarge => h.2 ⟨rfl, hlarge⟩, fun hlarge => hsmall ⟨rfl, hlarge⟩⟩
    rw [performs_unsignedLong_iff]
    simp [hless]

theorem performs_of_isLargeText (h : v.IsLargeText) :
    (ReflectedType.unsignedLong.action attr).Performs decimals v m ↔ m = (attr, .set "0") := by
  have hless := less_toNumber_iff.mpr (Or.inr h)
  rw [performs_unsignedLong_iff]
  simp [hless]

theorem set_ne_of_isLargeText (h : v.IsLargeText) :
    ReflectedType.unsignedLong.set v ≠ .set "0" := by
  obtain ⟨text, rfl, hless⟩ := h
  exact fun hset => text_ne_zero_of_large hless (Write.set.inj hset)

/-- The recommended write, where the setter writes the string form of a number between decimals. -/
theorem performs_of_tie {t : ReflectedType} {negative : Bool} {rank : Fin finiteRanks}
    {low high : Decimal} (h : t.WritesText (.number (.finite negative rank))) (hpos : 0 < rank.val)
    (htie : Decimal.IsTie rank low high) (hodd : high.coefficient % 2 = 1) :
    (t.action attr).Performs Decimal.IsRecommended (.number (.finite negative rank)) m ↔
      m = (attr, .set (Binary64.signed negative low.script)) := by
  have hsmall : ¬ (t = .unsignedLong ∧ Value.IsLargeText (.number (.finite negative rank))) := by
    rintro ⟨-, _, hstring, -⟩
    cases hstring
  rw [performs_of_writesText h hsmall]
  simp only [Value.hasText_number_iff, Binary64.isNumberText_tie_iff hpos htie hodd, exists_eq_left]

theorem set_of_tie {t : ReflectedType} {negative : Bool} {rank : Fin finiteRanks}
    {low high : Decimal} (h : t.WritesText (.number (.finite negative rank))) (hpos : 0 < rank.val)
    (htie : Decimal.IsTie rank low high) :
    t.set (.number (.finite negative rank)) = .set (Binary64.signed negative high.script) := by
  rw [h.set_eq, Value.text, Binary64.scriptText_tie hpos htie]

/-- The recommended write in all other cases. -/
theorem performs_recommended_iff {t : ReflectedType}
    (hsmall : ¬ (t = .unsignedLong ∧ v.IsLargeText)) (htie : ¬ (t.WritesText v ∧ v.IsOddTie)) :
    (t.action attr).Performs Decimal.IsRecommended v m ↔ m = (attr, t.set v) := by
  by_cases h : t.WritesText v
  · rw [performs_of_writesText h hsmall, h.set_eq]
    simp only [Value.hasText_recommended_iff fun hodd => htie ⟨h, hodd⟩, exists_eq_left]
  · exact performs_of_not_writesText h

/-- What `set` says is allowed, unless the setter compares a string. -/
theorem performs_fewest_iff {t : ReflectedType} :
    (t.action attr).Performs Decimal.IsFewest v (attr, t.set v) ↔
      ¬ (t = .unsignedLong ∧ v.IsLargeText) := by
  by_cases hlarge : t = .unsignedLong ∧ v.IsLargeText
  · obtain ⟨rfl, htext⟩ := hlarge
    rw [performs_of_isLargeText htext]
    exact iff_of_false (fun h => set_ne_of_isLargeText htext (congrArg Prod.snd h))
      (not_not.mpr ⟨rfl, htext⟩)
  · refine iff_of_true ?_ hlarge
    by_cases h : t.WritesText v
    · rw [performs_of_writesText h hlarge, h.set_eq]
      exact ⟨_, v.hasText_text, rfl⟩
    · exact (performs_of_not_writesText h).mpr rfl

end Setters

/-- **What a setter does.** With the digits that are recommended its text performs one write. This
is the one that `set` gives but in two cases. An `unsigned long` may be given a string whose number
is too large; the setter then writes zero. Or a number is written that lies half way between two
decimals of which the greater one is odd; the setter then writes the lesser one, and `set` the
greater one.

The digits that are recommended are not required. Among all that the language allows is the write of
`set`, but in the first case. -/
theorem set_performed_unless_large_text_or_odd_tie (t : ReflectedType) (object attr : String)
    (v : Value) :
    (t.action attr).text object = t.setter object attr ∧
    (∃ write, (∀ m, (t.action attr).Performs Decimal.IsRecommended v m ↔ m = (attr, write)) ∧
      (write = t.set v ↔
        ¬ (t = .unsignedLong ∧ v.IsLargeText) ∧ ¬ (t.WritesText v ∧ v.IsOddTie)) ∧
      (t = .unsignedLong ∧ v.IsLargeText → write = .set "0") ∧
      ∀ negative rank low high, v = .number (.finite negative rank) → 0 < rank.val →
        Decimal.IsTie rank low high → high.coefficient % 2 = 1 → t.WritesText v →
        write = .set (Binary64.signed negative low.script) ∧
          t.set v = .set (Binary64.signed negative high.script)) ∧
    (∀ m, (t.action attr).Performs Decimal.IsRecommended v m →
      (t.action attr).Performs Decimal.IsFewest v m) ∧
    ((t.action attr).Performs Decimal.IsFewest v (attr, t.set v) ↔
      ¬ (t = .unsignedLong ∧ v.IsLargeText)) := by
  refine ⟨text_action t object attr, ?_, fun m => Action.Performs.mono fun _ _ h => h.isFewest,
    performs_fewest_iff⟩
  by_cases hlarge : t = .unsignedLong ∧ v.IsLargeText
  · obtain ⟨rfl, htext⟩ := hlarge
    refine ⟨.set "0", fun m => performs_of_isLargeText htext, ?_, fun _ => rfl, ?_⟩
    · exact iff_of_false (set_ne_of_isLargeText htext).symm fun h => h.1 ⟨rfl, htext⟩
    · rintro negative rank low high rfl
      obtain ⟨_, hstring, -⟩ := htext
      cases hstring
  · by_cases htie : t.WritesText v ∧ v.IsOddTie
    · obtain ⟨hwrites, hodd⟩ := htie
      obtain ⟨negative, rank, low, high, rfl, hpos, hlow, hhigh⟩ := hodd.exists_tie
      have hset := set_of_tie hwrites hpos hlow
      refine ⟨_, fun m => performs_of_tie hwrites hpos hlow hhigh, ?_,
        fun h => absurd h hlarge, ?_⟩
      · refine iff_of_false (fun h => ?_) fun h => h.2 ⟨hwrites, hodd⟩
        exact Binary64.signed_script_ne hlow (Write.set.inj (h.trans hset))
      · rintro _ _ low' high' hv hpos' hlow' hhigh' -
        cases hv
        refine ⟨?_, set_of_tie hwrites hpos hlow'⟩
        -- There is one recommended write.
        have hwrite : (t.action attr).Performs Decimal.IsRecommended _ (attr, _) :=
          (performs_of_tie hwrites hpos hlow' hhigh').mpr rfl
        exact (congrArg Prod.snd ((performs_of_tie hwrites hpos hlow hhigh).mp hwrite)).symm
    · refine ⟨t.set v, fun m => performs_recommended_iff hlarge htie,
        iff_of_true rfl ⟨hlarge, htie⟩, fun h => absurd h hlarge, ?_⟩
      rintro negative rank low high rfl hpos hlow hodd hwrites
      exact absurd ⟨hwrites, .finite hpos hlow hodd⟩ htie

/-- The number `1000000000000000.25`. -/
def quarter : Fin finiteRanks := ⟨4831355200913801218, by decide⟩

/-- It is half way between two decimals, and the greater one is odd. -/
theorem isTie_quarter : Decimal.IsTie quarter ⟨10000000000000002, -1⟩ ⟨10000000000000003, -1⟩ := by
  have hshortest : Decimal.shortest quarter = ⟨10000000000000003, -1⟩ := by decide +kernel
  have hhigh : Decimal.IsShortest quarter ⟨10000000000000003, -1⟩ :=
    hshortest ▸ Decimal.shortest_isShortest (by decide) quarter.isLt
  have hlow : Decimal.IsFewest quarter ⟨10000000000000002, -1⟩ :=
    ⟨by decide +kernel, fun d' h' => (by decide +kernel : _ ≤ _).trans (hhigh.fewest d' h')⟩
  have hunits : Binary64.units quarter * 4 = 4000000000000001 * Binary64.unitsPerOne := by
    decide +kernel
  have hmagnitude : Binary64.magnitude quarter = 4000000000000001 / 4 := by
    rw [Binary64.magnitude, div_eq_div_iff Binary64.unitsPerOne_cast_pos.ne' (by norm_num)]
    exact_mod_cast hunits
  refine ⟨hlow, hhigh.isFewest, ?_, ?_, fun d => hhigh.distance_le⟩
  · norm_num [Decimal.value]
  · rw [hmagnitude]
    norm_num [Decimal.value]

/-- The string `3000000000` is written as it is, where the setter writes zero. The number
`1000000000000000.25` is written with a greater last digit than the setter is recommended to. -/
theorem set_large_text_and_odd_tie_not_performed :
    (ReflectedType.unsignedLong.set (.string "3000000000") = .set "3000000000" ∧
      (ReflectedType.unsignedLong.action "width").Performs Decimal.IsRecommended
        (.string "3000000000") ("width", .set "0") ∧
      ¬ (ReflectedType.unsignedLong.action "width").Performs Decimal.IsFewest
        (.string "3000000000") ("width", ReflectedType.unsignedLong.set (.string "3000000000"))) ∧
    ReflectedType.long.set (.number (.finite false quarter)) = .set "1000000000000000.3" ∧
    (ReflectedType.long.action "width").Performs Decimal.IsRecommended
      (.number (.finite false quarter)) ("width", .set "1000000000000000.2") ∧
    ¬ (ReflectedType.long.action "width").Performs Decimal.IsRecommended
      (.number (.finite false quarter))
      ("width", ReflectedType.long.set (.number (.finite false quarter))) := by
  have hlarge : (Value.string "3000000000").IsLargeText := by
    refine ⟨_, rfl, (Binary64.less_ofInt_iff natAbs_maxLong).mpr ?_⟩
    decide +kernel
  have hset : ReflectedType.long.set (.number (.finite false quarter)) =
      .set "1000000000000000.3" := by decide +kernel
  have htext : Binary64.signed false (Decimal.script ⟨10000000000000002, -1⟩) =
      "1000000000000000.2" := by decide +kernel
  have hperforms {m : String × Write} : (ReflectedType.long.action "width").Performs
      Decimal.IsRecommended (.number (.finite false quarter)) m ↔
        m = ("width", .set "1000000000000000.2") :=
    htext ▸ performs_of_tie ⟨nofun, nofun⟩ (by decide) isTie_quarter rfl
  refine ⟨⟨by decide +kernel, (performs_of_isLargeText hlarge).mpr rfl, fun h => ?_⟩, hset,
    hperforms.mpr rfl, fun h => ?_⟩
  · exact set_ne_of_isLargeText hlarge (congrArg Prod.snd ((performs_of_isLargeText hlarge).mp h))
  · rw [hperforms, hset] at h
    exact absurd h (by decide)

end IdlBinding.Reflection
