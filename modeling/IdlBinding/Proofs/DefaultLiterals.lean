import IdlBinding.Descriptor
import IdlBinding.Proofs.QuotedText

/-!
# Literals of default values

A default value is known by its literal, in two ways.

* A string default makes the whole way round: its literal can be put into a data document as it
  is, the document is read as the string default, and the literal of that is the same text again.
* Kind and payload of every default can be told from its literal (`ofLiteral?`), as long as the
  text of a number looks like a number. Words, numbers and strings keep apart by their first
  characters.
-/

namespace IdlBinding

/-! ## Strings in documents -/

namespace Json

theorem readKey_quote (key : String) (rest : List Char) :
    readKey ((Quoted.quote key).toList ++ ':' :: rest) = some (some key, rest) := by
  obtain ⟨pieces, hscan, hjoin⟩ := Quoted.scan_encode key.toList (':' :: rest)
  have hblanks : skipBlanks ('"' :: (Quoted.encode key.toList ++ '"' :: ':' :: rest)) =
      '"' :: (Quoted.encode key.toList ++ '"' :: ':' :: rest) := rfl
  have hcolon : skipBlanks (':' :: rest) = ':' :: rest := rfl
  rw [Quoted.toList_quote_append, readKey, hblanks]
  simp [hscan, hjoin, hcolon]

theorem readValue_quote (fuel : Nat) (s : String) (rest : List Char) :
    readValue (fuel + 1) ((Quoted.quote s).toList ++ rest) = (.string (some s), some rest) := by
  obtain ⟨pieces, hscan, hjoin⟩ := Quoted.scan_encode s.toList rest
  have hblanks : skipBlanks ('"' :: (Quoted.encode s.toList ++ '"' :: rest)) =
      '"' :: (Quoted.encode s.toList ++ '"' :: rest) := rfl
  rw [Quoted.toList_quote_append, readValue, hblanks]
  simp [readScalar, hscan, hjoin]

/-- A member that is a string, and more members after it. -/
theorem readMembers_comma (fuel : Nat) (key value : String) (rest : List Char) :
    readMembers (fuel + 2)
        ((Quoted.quote key).toList ++ ':' :: ((Quoted.quote value).toList ++ ',' :: rest)) =
      ((some key, .string (some value)) :: (readMembers (fuel + 1) rest).1,
        (readMembers (fuel + 1) rest).2) := by
  have hcomma : skipBlanks (',' :: rest) = ',' :: rest := rfl
  rw [readMembers, readKey_quote]
  simp [readValue_quote, hcomma]

/-- A member, and the end of the object. -/
theorem readMembers_brace {fuel : Nat} {v : Value} {text rest : List Char} (key : String)
    (hvalue : readValue fuel (text ++ '\x7d' :: rest) = (v, some ('\x7d' :: rest))) :
    readMembers (fuel + 1) ((Quoted.quote key).toList ++ ':' :: (text ++ '\x7d' :: rest)) =
      ([(some key, v)], some rest) := by
  have hbrace : skipBlanks ('\x7d' :: rest) = '\x7d' :: rest := rfl
  rw [readMembers, readKey_quote]
  simp [hvalue, hbrace]

/-- An object whose first key stands right after its brace. -/
theorem readValue_brace (fuel : Nat) (key : String) (rest : List Char) :
    readValue (fuel + 1) ('\x7b' :: ((Quoted.quote key).toList ++ rest)) =
      (.object (readMembers fuel ((Quoted.quote key).toList ++ rest)).1
          (readMembers fuel ((Quoted.quote key).toList ++ rest)).2.isSome,
        (readMembers fuel ((Quoted.quote key).toList ++ rest)).2) := by
  rw [Quoted.toList_quote_append]
  rfl

end Json

namespace Default

/-- The document of a default that has a payload. -/
def document (kind literal : String) : String :=
  "\x7b\"type\":" ++ Quoted.quote kind ++ ",\"value\":" ++ literal ++ "\x7d"

/-- The document of a default, cut at its literals. -/
theorem toList_document (kind literal : String) : (document kind literal).toList =
    '\x7b' :: ((Quoted.quote "type").toList ++ ':' :: ((Quoted.quote kind).toList ++ ',' ::
      ((Quoted.quote "value").toList ++ ':' :: (literal.toList ++ ['\x7d'])))) := by
  have htype : Quoted.quote "type" = "\"type\"" := by decide
  have hvalue : Quoted.quote "value" = "\"value\"" := by decide
  have hopening : "\x7b\"type\":".toList = '\x7b' :: ("\"type\"".toList ++ [':']) := rfl
  have hmiddle : ",\"value\":".toList = ',' :: ("\"value\"".toList ++ [':']) := rfl
  have hclosing : "\x7d".toList = ['\x7d'] := rfl
  rw [document, String.toList_append, String.toList_append, String.toList_append,
    String.toList_append, hopening, hmiddle, hclosing, htype, hvalue]
  simp only [List.append_assoc, List.cons_append, List.nil_append]

/-- The document of a default is read as its tag and its payload. -/
theorem read_document (kind : String) {literal : String} {v : Json.Value}
    (hvalue : ∀ fuel, Json.readValue (fuel + 1) (literal.toList ++ ['\x7d']) =
      (v, some ['\x7d'])) :
    Json.read (document kind literal) =
      ⟨.object [(some "type", .string (some kind)), (some "value", v)] true, true⟩ := by
  obtain ⟨fuel, hfuel⟩ : ∃ fuel, Json.enoughFuel ('\x7b' :: ((Quoted.quote "type").toList ++
      ':' :: ((Quoted.quote kind).toList ++ ',' :: ((Quoted.quote "value").toList ++ ':' ::
        (literal.toList ++ ['\x7d']))))) = fuel + 4 :=
    ⟨_, rfl⟩
  rw [Json.read, toList_document, hfuel, Json.readValue_brace, Json.readMembers_comma,
    Json.readMembers_brace "value" (hvalue fuel)]
  rfl

/-- **A string default in a document** is read as what its literal stands for. -/
theorem ofText_string (s : String) :
    ofText ("\x7b\"type\":\"string\",\"value\":" ++ Quoted.quote s ++ "\x7d") =
      .ok (.string s) := by
  have hkind : "\x7b\"type\":\"string\",\"value\":" =
      "\x7b\"type\":" ++ Quoted.quote "string" ++ ",\"value\":" := by decide
  rw [hkind, ← document, ofText,
    read_document "string" fun fuel => Json.readValue_quote fuel s ['\x7d']]
  rfl

/-- **A literal is a lossless text that ends by itself.** Two literals with any texts after them
are the same only part by part. A literal is read back with the text after it left over, and holds
no control character. So it can stand in a document as it is: the document of a string default is
read as that string, and the literal of what was read is the literal in the document. -/
theorem quote_lossless :
    (∀ s t x y : String, Quoted.quote s ++ x = Quoted.quote t ++ y → s = t ∧ x = y) ∧
    (∀ s x : String, Quoted.read (Quoted.quote s ++ x).toList = some (s.toList, x.toList)) ∧
    (∀ s : String, ∀ c ∈ (Quoted.quote s).toList, 0x20 ≤ c.toNat) ∧
    ∀ s : String,
      ofText ("\x7b\"type\":\"string\",\"value\":" ++ Quoted.quote s ++ "\x7d") =
          .ok (.string s) ∧
        (Default.string s).literal = Quoted.quote s := by
  refine ⟨fun s t x y h => ?_, fun s x => ?_, Quoted.quote_high, fun s => ⟨ofText_string s, rfl⟩⟩
  · have hchars := congrArg String.toList h
    rw [String.toList_append, String.toList_append] at hchars
    obtain ⟨htext, hrest⟩ := Quoted.quote_append_inj hchars
    exact ⟨htext, String.toList_injective hrest⟩
  · rw [String.toList_append, Quoted.read_quote]

/-- A quote and a backslash at the end of a literal, and a quote after it. -/
theorem quote_lossless_backslash :
    (Quoted.quote "a\"\\" ++ (";" ++ "\"") = Quoted.quote "a\"\\" ++ ";\"" ∧
      "a\"\\" = "a\"\\" ∧ ";" ++ "\"" = ";\"") ∧
    '\\' ∈ (Quoted.quote "a\"\\").toList ∧ 0x20 ≤ '\\'.toNat := by
  have htexts : Quoted.quote "a\"\\" ++ (";" ++ "\"") = Quoted.quote "a\"\\" ++ ";\"" := by decide
  have hmem : '\\' ∈ (Quoted.quote "a\"\\").toList := by decide
  exact ⟨⟨htexts, quote_lossless.1 _ _ _ _ htexts⟩, hmem, quote_lossless.2.2.1 _ _ hmem⟩

/-! ## Telling defaults from their literals -/

/-- The text starts like a number: a digit or a point, perhaps behind a minus sign. -/
def isNumeric (text : String) : Bool :=
  match text.toList with
  | '-' :: c :: _ => c.isDigit || c = '.'
  | c :: _ => c.isDigit || c = '.'
  | [] => false

/-- If the default is a number, its text starts like one. -/
def NumericText : Default → Prop
  | .number text => isNumeric text = true
  | _ => True

/-- The default value of a literal: a word, a string literal and nothing after it, or a number. -/
def ofLiteral? (text : String) : Option Default :=
  match text with
  | "true" => some (.boolean true)
  | "false" => some (.boolean false)
  | "null" => some .null
  | "NaN" => some .notANumber
  | "Infinity" => some (.infinity false)
  | "-Infinity" => some (.infinity true)
  | "[]" => some .sequence
  | text =>
    match Quoted.read text.toList with
    | some (cs, []) => some (.string (String.ofList cs))
    | _ => if isNumeric text then some (.number text) else none

/-- The literals that are words. -/
def words : List String := ["true", "false", "null", "NaN", "Infinity", "-Infinity", "[]"]

theorem ofLiteral?_of_notMem_words {text : String} (h : text ∉ words) :
    ofLiteral? text = match Quoted.read text.toList with
      | some (cs, []) => some (.string (String.ofList cs))
      | _ => if isNumeric text then some (.number text) else none := by
  simp only [words, List.mem_cons, List.not_mem_nil, or_false, not_or] at h
  obtain ⟨htrue, hfalse, hnull, hnan, hinfinity, hnegative, hsequence⟩ := h
  rw [ofLiteral?.eq_def]
  split
  · exact absurd rfl htrue
  · exact absurd rfl hfalse
  · exact absurd rfl hnull
  · exact absurd rfl hnan
  · exact absurd rfl hinfinity
  · exact absurd rfl hnegative
  · exact absurd rfl hsequence
  · rfl

theorem quote_notMem_words (s : String) : Quoted.quote s ∉ words := by
  have hhead : ∀ word ∈ words, word.toList.head? ≠ some '"' := by decide
  intro hmem
  refine hhead _ hmem ?_
  rw [Quoted.toList_quote, List.head?_cons]

theorem isNumeric_notMem_words {text : String} (h : isNumeric text = true) : text ∉ words := by
  have hwords : ∀ word ∈ words, isNumeric word = false := by decide
  intro hmem
  rw [hwords text hmem] at h
  cases h

/-- A text that starts like a number is no string literal. -/
theorem read_of_isNumeric {text : String} (h : isNumeric text = true) :
    Quoted.read text.toList = none := by
  rw [Quoted.read.eq_def]
  split
  next rest heq =>
    rw [isNumeric, heq] at h
    cases h
  next => rfl

/-- **A default is read back from its literal.** -/
theorem ofLiteral?_literal {v : Default} (h : v.NumericText) : ofLiteral? v.literal = some v := by
  cases v with
  | boolean value => cases value <;> rfl
  | string value =>
    have hread := Quoted.read_quote value []
    rw [List.append_nil] at hread
    rw [literal, ofLiteral?_of_notMem_words (quote_notMem_words value), hread]
    exact congrArg (some ∘ Default.string) String.ofList_toList
  | number text =>
    rw [literal, ofLiteral?_of_notMem_words (isNumeric_notMem_words h), read_of_isNumeric h]
    exact if_pos h
  | null => rfl
  | notANumber => rfl
  | infinity negative => cases negative <;> rfl
  | sequence => rfl

/-- **A default is known by its literal**: two defaults with the same literal are the same, and
kind, payload and sign are read off it. -/
theorem literal_injective :
    (∀ v w : Default, v.NumericText → w.NumericText → v.literal = w.literal → v = w) ∧
      ∀ v : Default, v.NumericText → ofLiteral? v.literal = some v := by
  refine ⟨fun v w hv hw h => ?_, fun v hv => ofLiteral?_literal hv⟩
  have hread := ofLiteral?_literal hv
  rw [h, ofLiteral?_literal hw] at hread
  exact (Option.some.inj hread).symm

/-- A number with a sign before its point, and a word in quotes. -/
theorem literal_injective_sign_and_word :
    (NumericText (.number "-.5") ∧ literal (.number "-.5") = literal (.number ("-" ++ ".5")) ∧
      Default.number "-.5" = .number ("-" ++ ".5")) ∧
    NumericText (.string "null") ∧ ofLiteral? (literal (.string "null")) = some (.string "null") :=
  ⟨⟨rfl, rfl, literal_injective.1 _ _ rfl rfl rfl⟩, trivial, literal_injective.2 _ trivial⟩

end Default

end IdlBinding
