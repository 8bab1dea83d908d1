import IdlBinding.Proofs.QuotedText
import IdlBinding.Proofs.TextLines
import IdlBinding.Reflection

/-!
# Attribute names stay inside their literals

The bodies of the accessors of a type follow one pattern, with places for the object and for the
literal of the attribute name. Whatever characters a name has, it does not get out of its literal.

* `Pattern.eq_of_fill_eq` — what stands before the first literal does not depend on the name, and a
  literal ends by itself. So a body has the name in it;
* `Pattern.count_fill` — a literal has no newline, so newlines come from the pattern alone, unless
  the object has some.
-/

namespace IdlBinding.Reflection

/-! ## Patterns -/

/-- A part of the body of an accessor. -/
inductive Part where
  /-- a text that all bodies of the type have -/
  | fixed (text : String)
  /-- the object -/
  | object
  /-- the literal of the attribute name -/
  | name

/-- The body of an accessor, by its parts. -/
abbrev Pattern := List Part

/-- The text of a part. -/
def Part.text (object name : String) : Part → String
  | .fixed text => text
  | .object => object
  | .name => Quoted.quote name

/-- The newlines of a part, if the object has none. -/
def Part.newlines : Part → Nat
  | .fixed text => text.toList.count '\n'
  | .object | .name => 0

namespace Pattern

/-- The text of a body. -/
def fill (p : Pattern) (object name : String) : String :=
  String.join (p.map (Part.text object name))

/-- The newlines of a body, if the object has none. -/
def newlines : Pattern → Nat
  | [] => 0
  | part :: p => part.newlines + newlines p

/-- A line at the left margin. -/
def line (parts : Pattern) : Pattern := parts ++ [.fixed "\n"]

/-- A line one step deeper. -/
def deeperLine (parts : Pattern) : Pattern := .fixed "  " :: line parts

theorem toList_fill_cons (part : Part) (p : Pattern) (object name : String) :
    (fill (part :: p) object name).toList =
      (part.text object name).toList ++ (p.fill object name).toList := by
  rw [fill, List.map_cons, String.join_cons, String.toList_append]
  rfl

/-- **No two names have the same body**, if there is a place for the name. -/
theorem eq_of_fill_eq {p : Pattern} (hplace : .name ∈ p) {object a b : String}
    (h : p.fill object a = p.fill object b) : a = b := by
  replace h := congrArg String.toList h
  induction p with
  | nil => cases hplace
  | cons part p ih =>
    rw [toList_fill_cons, toList_fill_cons] at h
    cases part with
    | name => exact (Quoted.quote_append_inj h).1
    | fixed | object =>
      have hrest : Part.name ∈ p := by simpa using hplace
      exact ih hrest (List.append_cancel_left h)

/-- **A name adds no newline.** -/
theorem count_fill (p : Pattern) {object : String} (hobject : '\n' ∉ object.toList)
    (name : String) : (p.fill object name).toList.count '\n' = p.newlines := by
  induction p with
  | nil => rfl
  | cons part p ih =>
    have hpart : (part.text object name).toList.count '\n' = part.newlines := by
      cases part with
      | fixed text => rfl
      | object => exact List.count_eq_zero.mpr hobject
      | name =>
        refine List.count_eq_zero.mpr fun hmem => ?_
        exact absurd (Quoted.quote_high name _ hmem) (by decide)
    rw [toList_fill_cons, List.count_append, hpart, ih, newlines]

end Pattern

namespace ReflectedType

/-! ## The patterns of the accessors -/

/-- Reading an integer, and what is returned of it. -/
def integerPattern (result : String) : Pattern :=
  .line [.fixed "const value = parseInt(", .object, .fixed ".getAttributeNS(null, ", .name,
    .fixed "));"] ++ .line [.fixed result]

/-- The pattern of a getter. -/
def getterPattern : ReflectedType → Pattern
  | .boolean =>
    .line [.fixed "return ", .object, .fixed ".hasAttributeNS(null, ", .name, .fixed ");"]
  | .domString | .usvString =>
    .line [.fixed "const value = ", .object, .fixed ".getAttributeNS(null, ", .name, .fixed ");"] ++
      .line [.fixed "return value === null ? \"\" : value;"]
  | .long =>
    integerPattern "return isNaN(value) || value < -2147483648 || value > 2147483647 ? 0 : value;"
  | .unsignedLong =>
    integerPattern "return isNaN(value) || value < 0 || value > 2147483647 ? 0 : value;"

/-- Writing a value. -/
def writePattern (value : String) : Pattern :=
  [.object, .fixed ".setAttributeNS(null, ", .name, .fixed ", ", .fixed value, .fixed ");"]

/-- The pattern of a setter. -/
def setterPattern : ReflectedType → Pattern
  | .boolean =>
    .line [.fixed "if (V) \x7b"] ++ .deeperLine (writePattern "\"\"") ++
      .line [.fixed "\x7d else \x7b"] ++
      .deeperLine [.object, .fixed ".removeAttributeNS(null, ", .name, .fixed ");"] ++
      .line [.fixed "\x7d"]
  | .domString | .usvString => .line (writePattern "V")
  | .long => .line (writePattern "String(V)")
  | .unsignedLong => .line (writePattern "String(V > 2147483647 ? 0 : V)")

theorem parseLine_eq (object literal : String) : parseLine object literal =
    "const value = parseInt(" ++ object ++ ".getAttributeNS(null, " ++ literal ++ "));" := rfl

theorem getter_eq_fill (t : ReflectedType) (object name : String) :
    t.getter object name = t.getterPattern.fill object name := by
  have hmargin : Indent.script.margin 0 = "" := rfl
  cases t <;> simp only [getter, getterOps, parseLine_eq, Op.performAll, Op.perform, Writer.line,
    Writer.new, hmargin, getterPattern, integerPattern, Pattern.line, Pattern.fill, Part.text,
    List.map_append, List.map_cons, List.map_nil, String.join_append, String.join_cons,
    String.join_nil, String.append_assoc, String.empty_append, String.append_empty]

theorem setter_eq_fill (t : ReflectedType) (object name : String) :
    t.setter object name = t.setterPattern.fill object name := by
  have hmargin : Indent.script.margin 0 = "" := rfl
  have hdeeper : Indent.script.margin 1 = "  " := by decide +kernel
  cases t <;> simp only [setter, setterOps, setLine, Op.performAll, Op.perform, Writer.line,
    Writer.new, Writer.deeper, Writer.shallower, hmargin, hdeeper, setterPattern, writePattern,
    Pattern.line, Pattern.deeperLine, Pattern.fill, Part.text, List.map_append, List.map_cons,
    List.map_nil, String.join_append, String.join_cons, String.join_nil, String.append_assoc,
    String.empty_append, String.append_empty]

/-! ## Bodies -/

/-- The number of lines of a getter. -/
def getterHeight : ReflectedType → Nat
  | .boolean => 1
  | .domString | .usvString | .long | .unsignedLong => 2

/-- The number of lines of a setter. -/
def setterHeight : ReflectedType → Nat
  | .boolean => 5
  | .domString | .usvString | .long | .unsignedLong => 1

theorem name_mem_patterns (t : ReflectedType) :
    Part.name ∈ t.getterPattern ∧ Part.name ∈ t.setterPattern := by
  cases t <;> simp [getterPattern, integerPattern, setterPattern, writePattern, Pattern.line,
    Pattern.deeperLine]

theorem newlines_patterns (t : ReflectedType) :
    t.getterPattern.newlines = t.getterHeight ∧ t.setterPattern.newlines = t.setterHeight := by
  cases t <;> decide +kernel

/-- **Attribute names do not get out of their literals.** The getters of two names on one object
differ, and so do the setters. Whatever characters a name has, the number of lines of a body is that
of its type, if the object has no newline. The empty rest behind the last newline counts as one
more. -/
theorem accessors_hold_name (t : ReflectedType) {object : String}
    (hobject : '\n' ∉ object.toList) :
    (∀ a b, t.getter object a = t.getter object b → a = b) ∧
    (∀ a b, t.setter object a = t.setter object b → a = b) ∧
    ∀ name, (textLines (t.getter object name)).length = t.getterHeight + 1 ∧
      (textLines (t.setter object name)).length = t.setterHeight + 1 := by
  obtain ⟨hgetter, hsetter⟩ := t.name_mem_patterns
  obtain ⟨hgetterLines, hsetterLines⟩ := t.newlines_patterns
  simp only [getter_eq_fill, setter_eq_fill, length_textLines]
  refine ⟨fun a b h => ?_, fun a b h => ?_, fun name => ⟨?_, ?_⟩⟩
  · exact Pattern.eq_of_fill_eq hgetter h
  · exact Pattern.eq_of_fill_eq hsetter h
  · rw [Pattern.count_fill _ hobject, hgetterLines]
  · rw [Pattern.count_fill _ hobject, hsetterLines]

/-- A name with a quote, a backslash and a newline, in the body with the most lines. -/
theorem accessors_hold_name_boolean_setter :
    '\n' ∉ "el".toList ∧
    (∀ b, boolean.setter "el" "a\"\\\n" = boolean.setter "el" b → "a\"\\\n" = b) ∧
    (textLines (boolean.setter "el" "a\"\\\n")).length = 6 := by
  have hobject : '\n' ∉ "el".toList := by decide
  obtain ⟨-, hsetter, hlines⟩ := boolean.accessors_hold_name hobject
  exact ⟨hobject, hsetter _, (hlines _).2⟩

example : domString.setter "el" "a\"b" = "el.setAttributeNS(null, \"a\\\"b\", V);\n" := by
  decide +kernel

end ReflectedType

end IdlBinding.Reflection
