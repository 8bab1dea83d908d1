/-!
# Template literals

A template literal of the script language is a text between backticks, with holes for the values of
variables. It is read into its parts (`read`), and the parts make a text once the variables have
values (`substitute`).

Literals with escapes are not read. Line ends are read as the language has them: a carriage return,
and one before a newline, counts as a newline. So a text stands for itself in a literal if it is
`Plain`, and a hole for what its variable holds.
-/

namespace IdlBinding

/-- A part of a template literal. -/
inductive TemplatePart where
  /-- a character that stands for itself -/
  | char (c : Char)
  /-- the value of a variable -/
  | hole (name : String)
  deriving DecidableEq, Repr

/-- A template literal, by its parts. -/
abbrev Template := List TemplatePart

namespace Template

/-! ## Reading -/

/-- A part before those that were read. -/
def prepend (part : TemplatePart) (found : Option (Template × List Char)) :
    Option (Template × List Char) :=
  found.map fun parts => (part :: parts.1, parts.2)

mutual

/-- The parts up to the closing backtick, and the text after it. -/
def read : List Char → Option (Template × List Char)
  | [] => none
  | '\x60' :: rest => some ([], rest)
  | '$' :: '\x7b' :: rest => readHole [] rest
  | '\r' :: '\n' :: rest => prepend (.char '\n') (read rest)
  | c :: rest =>
    if c = '\\' then none else prepend (.char (if c = '\r' then '\n' else c)) (read rest)

/-- The same inside a hole, of whose variable the beginning was read. -/
def readHole (name : List Char) : List Char → Option (Template × List Char)
  | [] => none
  | c :: rest =>
    if c = '\x7d' then prepend (.hole (String.ofList name)) (read rest)
    else if c.isAlpha then readHole (name ++ [c]) rest
    else none

end

/-- The text has no character with a meaning of its own in a literal, and no carriage return. -/
def Plain (text : String) : Prop :=
  ∀ c ∈ text.toList, c ≠ '\x60' ∧ c ≠ '\\' ∧ c ≠ '$' ∧ c ≠ '\r'

instance (text : String) : Decidable (Plain text) := List.decidableBAll _ text.toList

theorem Plain.append {a b : String} (ha : Plain a) (hb : Plain b) : Plain (a ++ b) := by
  rw [Plain, String.toList_append, List.forall_mem_append]
  exact ⟨ha, hb⟩

theorem read_backtick (rest : List Char) : read ('\x60' :: rest) = some ([], rest) := by
  rw [read]

/-- **A plain text is read as its characters.** -/
theorem read_plain {text : String} (h : Plain text) (rest : List Char) :
    read (text.toList ++ rest) =
      (read rest).map fun found => (text.toList.map .char ++ found.1, found.2) := by
  rw [Plain] at h
  generalize text.toList = cs at h
  induction cs with
  | nil => simp
  | cons c cs ih =>
    obtain ⟨⟨hbacktick, hbackslash, hdollar, hreturn⟩, hrest⟩ := List.forall_mem_cons.mp h
    rw [List.cons_append, read, if_neg hbackslash, if_neg hreturn, ih hrest, prepend,
      Option.map_map]
    · rfl
    · exact hbacktick
    · exact fun _ hc _ => hdollar hc
    · exact fun _ hc _ => hreturn hc

theorem readHole_append (start name rest : List Char) (h : ∀ c ∈ name, c.isAlpha = true) :
    readHole start (name ++ '\x7d' :: rest) =
      prepend (.hole (String.ofList (start ++ name))) (read rest) := by
  induction name generalizing start with
  | nil => simp [readHole]
  | cons c name ih =>
    obtain ⟨halpha, hrest⟩ := List.forall_mem_cons.mp h
    have hbrace : c ≠ '\x7d' := by
      rintro rfl
      cases halpha
    rw [List.cons_append, readHole, if_neg hbrace, if_pos halpha, ih _ hrest]
    simp

/-- The text of a hole. -/
def holeText (name : String) : String := "$\x7b" ++ name ++ "\x7d"

/-- **A hole is read as its variable.** -/
theorem read_holeText {name : String} (h : ∀ c ∈ name.toList, c.isAlpha = true)
    (rest : List Char) :
    read ((holeText name).toList ++ rest) =
      (read rest).map fun found => (.hole name :: found.1, found.2) := by
  have hchars : (holeText name).toList ++ rest =
      '$' :: '\x7b' :: (name.toList ++ '\x7d' :: rest) := by
    simp [holeText]
  rw [hchars, read, readHole_append [] name.toList rest h, List.nil_append, String.ofList_toList]
  rfl

/-! ## Substitution -/

/-- The text of a template, if its variables have values. -/
def substitute (values : List (String × String)) : Template → Option String
  | [] => some ""
  | .char c :: parts => (substitute values parts).map (String.singleton c ++ ·)
  | .hole name :: parts => do
    let value ← values.lookup name
    let text ← substitute values parts
    some (value ++ text)

@[simp] theorem substitute_nil (values : List (String × String)) :
    substitute values [] = some "" := rfl

theorem substitute_hole {values : List (String × String)} {name value : String}
    (h : values.lookup name = some value) (parts : Template) :
    substitute values (.hole name :: parts) = (substitute values parts).map (value ++ ·) := by
  rw [substitute, h]
  rcases substitute values parts with _ | text
  · rfl
  · rfl

/-- Characters are the text that they are. -/
theorem substitute_chars (values : List (String × String)) (text : String) (parts : Template) :
    substitute values (text.toList.map .char ++ parts) =
      (substitute values parts).map (text ++ ·) := by
  obtain ⟨cs, rfl⟩ : ∃ cs, text = String.ofList cs := ⟨text.toList, String.ofList_toList.symm⟩
  rw [String.toList_ofList]
  induction cs with
  | nil => simp
  | cons c cs ih =>
    have hcons : String.singleton c ++ String.ofList cs = String.ofList (c :: cs) := by
      apply String.toList_injective
      simp
    rw [List.map_cons, List.cons_append, substitute, ih, Option.map_map, ← hcons]
    simp only [Function.comp_def, String.append_assoc]

end Template

end IdlBinding
