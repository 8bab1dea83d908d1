import IdlBinding.EnumerationModule
import IdlBinding.Proofs.DefaultLiterals
import IdlBinding.Proofs.Emitting
import IdlBinding.Proofs.TemplateLiteral
import Mathlib.Data.List.Basic

/-!
# The source of an enumeration module

The source text of a module and the conversion are two forms of one rule, and the text is all that
the script has of it. Here the text is read back:

* an array literal of strings is read back to the strings (`readStrings_valuesLiteral`);
* the text has words that are always the same, and between them the values, the default context
  and the message for a refused value (`source_eq_words`). The words are found under all margins
  (`expectAll_text`), so that a module can be read (`read?_source`);
* the message, with its holes filled, is that of the error (`substitute_refusal`).

The main statement puts them together: the conversion accepts the values that the source lists, and
refuses others with the message that the source has for them.
-/

namespace IdlBinding

/-! ## Arrays of strings -/

namespace Json

/-- The text of a string. -/
def Value.string? : Value → Option String
  | .string text => text
  | _ => none

/-- Read an array of strings off the front of a text. -/
def readStrings (cs : List Char) : Option (List String × List Char) :=
  match readValue (enoughFuel cs) cs with
  | (.array items true, some rest) => (items.mapM Value.string?).map fun values => (values, rest)
  | _ => none

/-- The literals of a list that is not empty, and the end of the array. Each item takes one from
the fuel. -/
theorem readItems_quotes (value : String) (values : List String) (rest : List Char) {fuel : Nat}
    (h : values.length + 2 ≤ fuel) :
    readItems fuel ((",".intercalate ((value :: values).map Quoted.quote)).toList ++ ']' :: rest) =
      ((value :: values).map fun v => .string (some v), some rest) := by
  induction values generalizing value fuel with
  | nil =>
    obtain ⟨fuel, rfl⟩ : ∃ n, fuel = n + 2 := ⟨fuel - 2, by omega⟩
    have hbracket : skipBlanks (']' :: rest) = ']' :: rest := rfl
    rw [List.map_singleton, String.intercalate_singleton, readItems, readValue_quote]
    simp [hbracket]
  | cons next values ih =>
    obtain ⟨fuel, rfl⟩ : ∃ n, fuel = n + 2 := ⟨fuel - 2, by simp at h; omega⟩
    -- A comma leads to the later items, which are one less, as their fuel is.
    have hlater : readItems (fuel + 1)
        ((",".intercalate ((next :: values).map Quoted.quote)).toList ++ ']' :: rest) = _ :=
      ih next (by simp at h; omega)
    rw [List.map_cons] at hlater
    rw [List.map_cons, List.map_cons, String.intercalate_cons_cons, String.append_assoc,
      String.toList_append, List.append_assoc, readItems, readValue_quote]
    have hcomma (cs : List Char) : skipBlanks (("," : String).toList ++ cs) = ',' :: cs := rfl
    simp only [String.toList_append, List.append_assoc, hcomma, hlater]
    rfl

/-- An array whose first item is a string right after its bracket. -/
theorem readValue_bracket (fuel : Nat) {cs : List Char} (h : cs.head? = some '"') :
    readValue (fuel + 1) ('[' :: cs) =
      (.array (readItems fuel cs).1 (readItems fuel cs).2.isSome, (readItems fuel cs).2) := by
  obtain ⟨cs, rfl⟩ := List.head?_eq_some_iff.mp h
  rfl

/-- There are at least as many characters as literals. -/
theorem length_le_length_intercalate (values : List String) :
    values.length ≤ (",".intercalate (values.map Quoted.quote)).toList.length := by
  induction values with
  | nil => simp
  | cons value values ih =>
    have hquote : 1 ≤ (Quoted.quote value).toList.length := by
      rw [Quoted.toList_quote]
      simp
    cases values with
    | nil => simpa using hquote
    | cons next values =>
      rw [List.map_cons] at ih ⊢
      rw [List.map_cons, String.intercalate_cons_cons, String.toList_append, List.length_append,
        String.toList_append, List.length_append]
      simp only [List.length_cons] at ih ⊢
      omega

theorem mapM_string? (values : List String) :
    (values.map fun v => Value.string (some v)).mapM Value.string? = some values := by
  induction values with
  | nil => rfl
  | cons value values ih => simp [List.mapM_cons, Value.string?, ih]

end Json

/-- **The literal of the values is read back**, and what follows it is left. -/
theorem Enumeration.readStrings_valuesLiteral (values : List String) (rest : List Char) :
    Json.readStrings ((valuesLiteral values).toList ++ rest) = some (values, rest) := by
  have hliteral : (valuesLiteral values).toList ++ rest =
      '[' :: ((",".intercalate (values.map Quoted.quote)).toList ++ ']' :: rest) := by
    simp [valuesLiteral]
  rw [hliteral, Json.readStrings]
  cases values with
  | nil => rfl
  | cons value values =>
    have hquote : ((",".intercalate ((value :: values).map Quoted.quote)).toList ++
        ']' :: rest).head? = some '"' := by
      cases values with
      | nil => simp [Quoted.toList_quote]
      | cons next values => simp [Quoted.toList_quote]
    have hlength := Json.length_le_length_intercalate (value :: values)
    obtain ⟨fuel, hfuel, henough⟩ : ∃ fuel, Json.enoughFuel ('[' ::
        ((",".intercalate ((value :: values).map Quoted.quote)).toList ++ ']' :: rest)) =
          fuel + 1 ∧ values.length + 2 ≤ fuel := by
      refine ⟨_, rfl, ?_⟩
      simp only [List.length_cons, List.length_append] at hlength ⊢
      omega
    rw [hfuel, Json.readValue_bracket fuel hquote, Json.readItems_quotes value values rest henough]
    simp only [Option.isSome_some, Json.mapM_string?, Option.map_some]

/-! ## Words of a module

The text of a module is made of words, and what is before a word has no meaning. -/

namespace Script

/-- What is written before a word. -/
inductive Gap where
  /-- nothing -/
  | none
  /-- a space -/
  | space
  /-- the start of a line -/
  | line (level : Nat)
  /-- an empty line -/
  | paragraph
  deriving DecidableEq, Repr

/-- The text of a gap. -/
def Gap.text (i : Indent) : Gap → String
  | none => ""
  | space => " "
  | line level => "\n" ++ i.margin level
  | paragraph => "\n" ++ "\n"

/-- A gap is made of blanks. -/
theorem Gap.isBlank_of_mem_text {i : Indent} {gap : Gap} {c : Char}
    (h : c ∈ (gap.text i).toList) : Json.isBlank c = true := by
  cases gap with
  | none => cases h
  | space =>
    obtain rfl : c = ' ' := by simpa [text] using h
    rfl
  | line level =>
    rw [text, String.toList_append, List.mem_append] at h
    rcases h with hnewline | hmargin
    · obtain rfl : c = '\n' := by simpa using hnewline
      rfl
    · obtain rfl := Indent.eq_space_of_mem_margin hmargin
      rfl
  | paragraph =>
    obtain rfl : c = '\n' := by simpa [text] using h
    rfl

/-- A word and the gap before it. A word starts with a character that is no blank. -/
structure Word where
  /-- what is before the word -/
  gap : Gap
  /-- the word -/
  text : String
  starts : (text.toList.head?.any fun c => !Json.isBlank c) = true := by simp [Json.isBlank]

/-- The text of words one after another. -/
def text (i : Indent) (words : List Word) : String :=
  String.join (words.map fun w => w.gap.text i ++ w.text)

/-- Skip blanks, and then a word. -/
def expect (cs : List Char) (word : Word) : Option (List Char) :=
  List.isPrefixOf? word.text.toList (Json.skipBlanks cs)

/-- Skip words one after another. -/
def expectAll (words : List Word) (cs : List Char) : Option (List Char) :=
  words.foldlM expect cs

theorem expect_append (i : Indent) (word : Word) (rest : List Char) :
    expect ((word.gap.text i).toList ++ (word.text.toList ++ rest)) word = some rest := by
  have hskip : Json.skipBlanks ((word.gap.text i).toList ++ (word.text.toList ++ rest)) =
      word.text.toList ++ rest := by
    rw [Json.skipBlanks, List.dropWhile_append_of_pos fun c hc => Gap.isBlank_of_mem_text hc]
    have hstarts := word.starts
    generalize word.text.toList = chars at hstarts
    rcases chars with _ | ⟨c, cs⟩
    · cases hstarts
    · have hc : Json.isBlank c = false := by simpa using hstarts
      simp [hc]
  rw [expect, hskip]
  exact List.isPrefixOf?_eq_some_iff_append_eq.mpr rfl

/-- **Words are found under all margins.** -/
theorem expectAll_text (i : Indent) (words : List Word) (rest : List Char) :
    expectAll words ((text i words).toList ++ rest) = some rest := by
  induction words with
  | nil => rfl
  | cons word words ih =>
    have hfirst : (text i (word :: words)).toList ++ rest =
        (word.gap.text i).toList ++ (word.text.toList ++ ((text i words).toList ++ rest)) := by
      simp [text]
    rw [hfirst, expectAll, List.foldlM_cons, expect_append]
    exact ih

end Script

/-! ## The text of a module -/

namespace Enumeration

/-- The lines of a module, with their levels. -/
def moduleLines (e : Enumeration) : List (Nat × String) :=
  [(0, "export const " ++ "enumerationValues" ++ " = "
      ++ ("new Set(" ++ valuesLiteral e.values ++ ")") ++ ";"),
    (0, ""),
    (0, "export const " ++ "convert" ++ " = " ++ (convertFunction e.name).header),
    (1, "const string = `$\x7bvalue\x7d`;"),
    (1, "if (!enumerationValues.has(string)) \x7b"),
    (2, throwLine e.name),
    (1, "\x7d"),
    (1, "return string;"),
    (0, "\x7d;"),
    (0, ""),
    (0, "export default \x7b " ++ ", ".intercalate ["convert", "enumerationValues"] ++ " \x7d;")]

theorem source_eq (s : Settings) (e : Enumeration) :
    e.source s = String.join (e.moduleLines.map (Writer.lineText s.indent)) :=
  ((((Writer.hasLines_new s.indent).emit _).blank.emit _).blank.emit _)

/-- The words before the values. -/
def valuesWords : List Script.Word :=
  [{ gap := .none, text := "export const enumerationValues = new Set(" }]

/-- The words between the values and the default context. -/
def signatureWords : List Script.Word :=
  [{ gap := .none, text := ");" },
    { gap := .paragraph, text := "export const convert = (globalObject, value, \x7b context = " }]

/-- The words between the default context and the message. -/
def checkWords : List Script.Word :=
  [{ gap := .space, text := "\x7d = \x7b\x7d) => \x7b" },
    { gap := .line 1, text := "const string = `$\x7bvalue\x7d`;" },
    { gap := .line 1, text := "if (!enumerationValues.has(string)) \x7b" },
    { gap := .line 2, text := "throw new globalObject.TypeError(`" }]

/-- The words after the message. -/
def closingWords : List Script.Word :=
  [{ gap := .none, text := ");" },
    { gap := .line 1, text := "\x7d" },
    { gap := .line 1, text := "return string;" },
    { gap := .line 0, text := "\x7d;" },
    { gap := .paragraph, text := "export default \x7b convert, enumerationValues \x7d;" }]

/-- The message for a refused value, as it stands in its literal. -/
def refusalText (name : String) : String :=
  Template.holeText "context" ++ (" '" ++ (Template.holeText "string" ++
    ("' is not a valid enumeration value for " ++ name)))

theorem valuesLine_eq (values : List String) :
    "export const " ++ "enumerationValues" ++ " = " ++ ("new Set(" ++ valuesLiteral values ++ ")")
      ++ ";" =
    "export const enumerationValues = new Set(" ++ (valuesLiteral values ++ ");") := by
  have hopening : "export const enumerationValues = new Set(" =
      "export const " ++ "enumerationValues" ++ " = " ++ "new Set(" := by simp
  rw [hopening]
  simp only [String.append_assoc]
  rfl

theorem convertLine_eq (name : String) :
    "export const " ++ "convert" ++ " = " ++ (convertFunction name).header =
    "export const convert = (globalObject, value, \x7b context = " ++
      (Quoted.quote defaultContext ++ (" " ++ "\x7d = \x7b\x7d) => \x7b")) := by
  have hquote : Quoted.quote defaultContext = "\"The provided value\"" := by decide
  rw [hquote]
  unfold convertFunction Arrow.header defaultContext
  simp

theorem throwLine_eq (name : String) :
    throwLine name =
      "throw new globalObject.TypeError(`" ++ (refusalText name ++ ("`" ++ ");")) := by
  have hopening :
      "throw new globalObject.TypeError(`$\x7bcontext\x7d '$\x7bstring\x7d' is not a valid "
        ++ "enumeration value for " = "throw new globalObject.TypeError(`" ++ refusalText "" := by
    unfold refusalText Template.holeText
    simp
  unfold throwLine
  rw [hopening]
  unfold refusalText
  simp only [String.append_assoc]
  rfl

/-- The text of a module after its values. -/
def sourceAfterValues (i : Indent) (name : String) : String :=
  Script.text i signatureWords ++ (Quoted.quote defaultContext ++ (Script.text i checkWords ++
    (refusalText name ++ ("`" ++ (Script.text i closingWords ++ "\n")))))

/-- **The text of a module** has words that are always the same, and texts that vary between
them. -/
theorem source_eq_words (s : Settings) (e : Enumeration) :
    e.source s = Script.text s.indent valuesWords ++
      (valuesLiteral e.values ++ sourceAfterValues s.indent e.name) := by
  have hmargin : s.indent.margin 0 = "" := rfl
  have hexports : "export default \x7b " ++ ", ".intercalate ["convert", "enumerationValues"]
      ++ " \x7d;" = "export default \x7b convert, enumerationValues \x7d;" := by
    simp
  -- The newline of a line is in the gap before the next word, together with the margin there.
  rw [source_eq, moduleLines, valuesLine_eq, convertLine_eq, throwLine_eq, hexports,
    sourceAfterValues]
  simp only [Script.text, Script.Gap.text, valuesWords, signatureWords, checkWords, closingWords,
    List.map_cons, List.map_nil, String.join_cons, String.join_nil, Writer.lineText, hmargin,
    String.append_assoc, String.empty_append, String.append_empty]

/-! ## Reading a module -/

/-- The array of values that a module declares, and the text after it. -/
def readDeclaration (source : String) : Option (List String × List Char) :=
  (Script.expectAll valuesWords source.toList).bind Json.readStrings

/-- The values that a module declares. -/
def declaredValues? (source : String) : Option (List String) :=
  (readDeclaration source).map Prod.fst

/-- What varies between the modules of enumerations. -/
structure Emitted where
  /-- the values that are accepted -/
  values : List String
  /-- what a value is called if the caller does not say -/
  defaultContext : String
  /-- the message for a value that is refused -/
  refusal : Template
  deriving DecidableEq, Repr

/-- Read a module from its first to its last word. -/
def Emitted.read? (source : String) : Option Emitted := do
  let (values, rest) ← readDeclaration source
  let rest ← Script.expectAll signatureWords rest
  let (context, rest) ← Quoted.read rest
  let rest ← Script.expectAll checkWords rest
  let (refusal, rest) ← Template.read rest
  let rest ← Script.expectAll closingWords rest
  if (Json.skipBlanks rest).isEmpty then some ⟨values, String.ofList context, refusal⟩ else none

/-- The message for a refused value, by its parts. -/
def refusal (name : String) : Template :=
  .hole "context" :: (" '".toList.map .char ++ (.hole "string" ::
    ("' is not a valid enumeration value for " ++ name).toList.map .char))

theorem read_refusalText {name : String} (h : Template.Plain name) (rest : List Char) :
    Template.read ((refusalText name).toList ++ ("`".toList ++ rest)) =
      some (refusal name, rest) := by
  have hchars : (refusalText name).toList ++ ("`".toList ++ rest) =
      (Template.holeText "context").toList ++ (" '".toList ++
        ((Template.holeText "string").toList ++
          (("' is not a valid enumeration value for " ++ name).toList ++
            ("`".toList ++ rest)))) := by
    simp only [refusalText, String.toList_append, List.append_assoc]
  have hbacktick : Template.read ("`".toList ++ rest) = some ([], rest) :=
    Template.read_backtick rest
  have hmiddle : Template.Plain " '" := by decide
  have hending : Template.Plain ("' is not a valid enumeration value for " ++ name) :=
    .append (by decide) h
  rw [hchars, Template.read_holeText (by simp), Template.read_plain hmiddle,
    Template.read_holeText (by simp), Template.read_plain hending, hbacktick]
  simp [refusal]

/-- **The message is that of the error**, for the context and the value of the error. -/
theorem substitute_refusal (err : ConversionError) :
    (refusal err.enumeration).substitute [("context", err.context), ("string", err.value)] =
      some err.message := by
  have hcontext : [("context", err.context), ("string", err.value)].lookup "context" =
      some err.context := rfl
  have hstring : [("context", err.context), ("string", err.value)].lookup "string" =
      some err.value := rfl
  have hending := Template.substitute_chars [("context", err.context), ("string", err.value)]
    ("' is not a valid enumeration value for " ++ err.enumeration) []
  rw [List.append_nil] at hending
  rw [refusal, Template.substitute_hole hcontext, Template.substitute_chars,
    Template.substitute_hole hstring, hending]
  simp only [Template.substitute_nil, Option.map_some, ConversionError.message,
    String.append_assoc, String.append_empty]

/-- **The array of a module is the list of the values.** -/
theorem readDeclaration_source (s : Settings) (e : Enumeration) :
    readDeclaration (e.source s) =
      some (e.values, (sourceAfterValues s.indent e.name).toList) := by
  rw [readDeclaration, source_eq_words, String.toList_append, Script.expectAll_text,
    Option.bind_some, String.toList_append, readStrings_valuesLiteral]

/-- **A module is read**, whatever its margins are, if the name stands for itself in a message. -/
theorem read?_source (s : Settings) {e : Enumeration} (h : Template.Plain e.name) :
    Emitted.read? (e.source s) = some ⟨e.values, IdlBinding.defaultContext, refusal e.name⟩ := by
  have hrest : (sourceAfterValues s.indent e.name).toList =
      (Script.text s.indent signatureWords).toList ++
        ((Quoted.quote IdlBinding.defaultContext).toList ++
          ((Script.text s.indent checkWords).toList ++ ((refusalText e.name).toList ++
            ("`".toList ++ ((Script.text s.indent closingWords).toList ++ "\n".toList))))) := by
    simp only [sourceAfterValues, String.toList_append]
  have hend : Json.skipBlanks "\n".toList = [] := rfl
  rw [Emitted.read?, readDeclaration_source, hrest]
  simp only [Option.bind_eq_bind, Option.bind_some, Script.expectAll_text, Quoted.read_quote,
    read_refusalText h, String.ofList_toList, hend, List.isEmpty_nil, if_true]

/-- The source determines the values. -/
theorem values_eq_of_source_eq {s s' : Settings} {e e' : Enumeration}
    (h : e.source s = e'.source s') : e.values = e'.values := by
  have hread := readDeclaration_source s e
  rw [h, readDeclaration_source s' e', Option.some.injEq, Prod.mk.injEq] at hread
  exact hread.1.symm

/-! ## When there is a module -/

/-- Nothing is repeated exactly if the values are distinct and none of them was seen before. -/
theorem firstRepeated_eq_none_iff (seen values : List String) :
    firstRepeated seen values = none ↔ values.Nodup ∧ ∀ v ∈ values, v ∉ seen := by
  induction values generalizing seen with
  | nil => simp [firstRepeated]
  | cons v vs ih =>
    rw [firstRepeated, List.nodup_cons, List.forall_mem_cons]
    by_cases hv : v ∈ seen
    · simp [hv]
    · have hlater : (∀ w ∈ vs, w ∉ v :: seen) ↔ v ∉ vs ∧ ∀ w ∈ vs, w ∉ seen := by
        constructor
        · intro h
          refine ⟨fun hmem => h v hmem List.mem_cons_self, fun w hw hseen => ?_⟩
          exact h w hw (List.mem_cons_of_mem v hseen)
        · rintro ⟨hnew, hunseen⟩ w hw hmem
          rcases List.mem_cons.mp hmem with rfl | hseen
          · exact hnew hw
          · exact hunseen w hw hseen
      rw [if_neg (by simpa using hv), ih, hlater]
      simp [hv, and_left_comm, and_assoc]

/-- **There is a module** exactly if the values are distinct. -/
theorem generate_eq_ok_iff (s : Settings) (e : Enumeration) (g : Generated) :
    (e.generate s).result = .ok g ↔ e.values.Nodup ∧ g = ⟨e.source s, s.ledger⟩ := by
  have hnone : firstRepeated [] e.values = none ↔ e.values.Nodup := by
    simp [firstRepeated_eq_none_iff]
  rw [generate, ← hnone]
  rcases firstRepeated [] e.values with _ | v
  · simp [eq_comm]
  · simp

/-! ## Conversion -/

/-- The values are accepted, -/
theorem convert_eq_ok_iff {e : Enumeration} {value : String} {context : Option String} :
    e.convert value context = .ok value ↔ value ∈ e.values := by
  rw [convert]
  by_cases hmem : value ∈ e.values
  · simp [hmem]
  · simp [hmem]

/-- and each other text has one error. -/
theorem convert_eq_error_iff {e : Enumeration} {value : String} {context : Option String}
    {err : ConversionError} :
    e.convert value context = .error err ↔
      value ∉ e.values ∧ err = ⟨context.getD defaultContext, value, e.name⟩ := by
  rw [convert]
  by_cases hmem : value ∈ e.values
  · simp [hmem]
  · simp [hmem, eq_comm]

/-- **The module and the conversion agree.** An enumeration with distinct values has a module. The
array in its source decodes to the values, in their order, and so the source determines them; the
conversion accepts what is in that array, and refuses anything else. If the name stands for itself
in a template literal, the whole source can be read, and the message of an error is the literal of
the module with the context, or the default of the module, and the value filled in. -/
theorem convert_agrees_with_source (s : Settings) (e : Enumeration) (h : e.values.Nodup) :
    ∃ g decoded, (e.generate s).result = .ok g ∧ declaredValues? g.source = some decoded ∧
      decoded = e.values ∧
      (∀ s' e' g', (generate s' e').result = .ok g' → g'.source = g.source →
        e'.values = e.values) ∧
      (∀ value context, (e.convert value context = .ok value ↔ value ∈ decoded) ∧
        (value ∉ decoded → ∃ err, e.convert value context = .error err)) ∧
      (Template.Plain e.name → ∃ m, Emitted.read? g.source = some m ∧ m.values = decoded ∧
        m.defaultContext = "The provided value" ∧
        ∀ value context err, e.convert value context = .error err →
          m.refusal.substitute
            [("context", context.getD m.defaultContext), ("string", value)] =
              some err.message) := by
  have hdeclared : declaredValues? (e.source s) = some e.values := by
    rw [declaredValues?, readDeclaration_source, Option.map_some]
  refine ⟨⟨e.source s, s.ledger⟩, e.values, (generate_eq_ok_iff s e _).mpr ⟨h, rfl⟩, hdeclared,
    rfl, ?_, ?_, ?_⟩
  · intro s' e' g' hg' hsource
    obtain ⟨-, rfl⟩ := (generate_eq_ok_iff s' e' g').mp hg'
    exact values_eq_of_source_eq hsource
  · intro value context
    exact ⟨convert_eq_ok_iff, fun hmem => ⟨_, convert_eq_error_iff.mpr ⟨hmem, rfl⟩⟩⟩
  · intro hname
    refine ⟨_, read?_source s hname, rfl, rfl, fun value context err herr => ?_⟩
    obtain ⟨-, rfl⟩ := convert_eq_error_iff.mp herr
    exact substitute_refusal ⟨context.getD defaultContext, value, e.name⟩

/-- Values with escapes, and a value that is refused without a context. -/
theorem convert_agrees_with_source_escapes :
    let e : Enumeration := ⟨"Mode", ["say \"hi\"", "π\n", ""]⟩
    e.values.Nodup ∧ ∃ g m, (e.generate {}).result = .ok g ∧
      declaredValues? g.source = some ["say \"hi\"", "π\n", ""] ∧
      Emitted.read? g.source = some m ∧
      m.refusal.substitute [("context", "The provided value"), ("string", "hi")] =
        some "The provided value 'hi' is not a valid enumeration value for Mode" := by
  intro e
  have hnodup : e.values.Nodup := by decide
  obtain ⟨g, _, hg, hdeclared, rfl, -, hconvert, hmodule⟩ := convert_agrees_with_source {} e hnodup
  obtain ⟨m, hm, -, hdefault, hmessage⟩ := hmodule (by decide)
  obtain ⟨err, herr⟩ := (hconvert "hi" none).2 (by decide)
  refine ⟨hnodup, g, m, hg, hdeclared, hm, ?_⟩
  have hfilled := hmessage "hi" none err herr
  obtain rfl : _ = err := Except.error.inj herr
  rw [hdefault] at hfilled
  exact hfilled.trans (by decide)

end Enumeration

end IdlBinding
