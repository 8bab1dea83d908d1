import IdlBinding.Toml.Scalar

/-!
# Settings documents

From text to the table it describes. A document is a list of lines: a key with its value, the
header of a table, or the header of an element of an array of tables. `read?` gives the table of a
document, unless the text is not well formed or says something twice.

The format is TOML 1.1. Beyond version 1.0 a table in braces may have line ends and comments between
its parts and a comma behind its last entry.
-/

namespace IdlBinding.Toml

/-! ## Between the values -/

/-- A comment, if there is one: up to the end of the line, without control characters. -/
def skipComment : List Char → Option (List Char)
  | '#' :: rest => body rest
  | cs => some cs
where
  /-- The inside of a comment. -/
  body : List Char → Option (List Char)
    | [] => some []
    | '\n' :: rest => some ('\n' :: rest)
    | '\r' :: '\n' :: rest => some ('\r' :: '\n' :: rest)
    | c :: rest => if isText c then body rest else none

/-- The end of a line: blanks, perhaps a comment, and a line end or the end of the text. -/
def lineEnd (cs : List Char) : Option (List Char) := do
  let rest ← skipComment (skipBlanks cs)
  match rest with
  | [] => some []
  | '\n' :: rest => some rest
  | '\r' :: '\n' :: rest => some rest
  | _ => none

/-- Skip blanks, comments and line ends. Each line takes one from `fuel`. -/
def skipLines : Nat → List Char → Option (List Char)
  | 0, _ => none
  | fuel + 1, cs => do
    let rest ← skipComment (skipBlanks cs)
    match rest with
    | '\n' :: rest => skipLines fuel rest
    | '\r' :: '\n' :: rest => skipLines fuel rest
    | rest => some rest

/-- Skip blanks, comments and line ends between the parts of an array or of a table in braces. -/
def skipGap (cs : List Char) : Option (List Char) := skipLines (cs.length + 1) cs

/-! ## Keys -/

/-- One part of a key. -/
def readKeyPart : List Char → Option (String × List Char)
  | '"' :: rest => do
    let (text, rest) ← basicString rest
    some (String.ofList text, rest)
  | '\'' :: rest => do
    let (text, rest) ← literalString rest
    some (String.ofList text, rest)
  | cs =>
    match cs.takeWhile isBareKey with
    | [] => none
    | part => some (String.ofList part, cs.dropWhile isBareKey)

/-- A dotted key, with the blanks after it. Each part takes one from `fuel`. -/
def readKey : Nat → List Char → Option (List String × List Char)
  | 0, _ => none
  | fuel + 1, cs => do
    let (part, rest) ← readKeyPart (skipBlanks cs)
    match skipBlanks rest with
    | '.' :: rest => do
      let (parts, rest) ← readKey fuel rest
      some (part :: parts, rest)
    | rest => some ([part], rest)

/-! ## Values -/

mutual

/-- A value. Each step down and each item takes one from `fuel`. -/
def readValue : Nat → List Char → Option (Value × List Char)
  | 0, _ => none
  | fuel + 1, cs =>
    match cs with
    | '[' :: rest => do
      let (items, rest) ← readItems fuel rest
      some (.array items, rest)
    | '\x7b' :: rest => do
      let (entries, rest) ← readEntries fuel [] rest
      some (.table (Node.entriesToValues entries), rest)
    | cs =>
      match readString cs with
      | some (text, rest) => some (.string (String.ofList text), rest)
      | none => do
        let (literal, rest) := splitLiteral cs
        let value ← literalValue? literal
        some (value, rest)

/-- The items of an array and its closing bracket. A comma may stand after the last item. -/
def readItems : Nat → List Char → Option (List Value × List Char)
  | 0, _ => none
  | fuel + 1, cs => do
    let rest ← skipGap cs
    match rest with
    | ']' :: rest => some ([], rest)
    | rest =>
      let (item, rest) ← readValue fuel rest
      let rest ← skipGap rest
      match rest with
      | ',' :: rest =>
        let (items, rest) ← readItems fuel rest
        some (item :: items, rest)
      | ']' :: rest => some ([item], rest)
      | _ => none

/-- The entries of a table in braces and its closing brace. A comma may stand after the last entry,
and gaps anywhere but inside a dotted key. -/
def readEntries : Nat → Entries → List Char → Option (Entries × List Char)
  | 0, _, _ => none
  | fuel + 1, entries, cs => do
    let rest ← skipGap cs
    match rest with
    | '\x7d' :: rest => some (entries, rest)
    | rest =>
      let (path, rest) ← readKey (rest.length + 1) rest
      let rest ← skipGap rest
      match rest with
      | '=' :: rest =>
        let rest ← skipGap rest
        let (value, rest) ← readValue fuel rest
        let entries ← Entries.assign value path entries
        let rest ← skipGap rest
        match rest with
        | ',' :: rest => readEntries fuel entries rest
        | '\x7d' :: rest => some (entries, rest)
        | _ => none
      | _ => none

end

/-! ## Lines -/

/-- Fuel that no text of that length uses up: at most two steps go with one character. -/
def enoughFuel (cs : List Char) : Nat := 2 * cs.length + 2

/-- The state of a document: the root table and the header that keys stand under. -/
structure Draft where
  /-- the entries of the root table -/
  root : Entries := []
  /-- the path of the present header; none at the start -/
  header : List String := []

/-- Read one line: what it adds, and the text after it. -/
def readLine (d : Draft) (cs : List Char) : Option (Draft × List Char) :=
  match skipBlanks cs with
  | '[' :: '[' :: rest => do
    let (path, rest) ← readKey (rest.length + 1) rest
    match rest with
    | ']' :: ']' :: rest => do
      let root ← Entries.openElement path d.root
      let rest ← lineEnd rest
      some (⟨root, path⟩, rest)
    | _ => none
  | '[' :: rest => do
    let (path, rest) ← readKey (rest.length + 1) rest
    match rest with
    | ']' :: rest => do
      let root ← Entries.openTable path d.root
      let rest ← lineEnd rest
      some (⟨root, path⟩, rest)
    | _ => none
  | [] => some (d, [])
  | '\n' :: rest => some (d, rest)
  | '\r' :: '\n' :: rest => some (d, rest)
  | '#' :: rest => do
    let rest ← lineEnd ('#' :: rest)
    some (d, rest)
  | cs => do
    let (path, rest) ← readKey (cs.length + 1) cs
    match rest with
    | '=' :: rest => do
      let (value, rest) ← readValue (enoughFuel rest) (skipBlanks rest)
      let root ← Entries.assignUnder d.header path value d.root
      let rest ← lineEnd rest
      some (⟨root, d.header⟩, rest)
    | _ => none

/-- Read line after line. Each takes one from `fuel`. -/
def readLines : Nat → Draft → List Char → Option Draft
  | _, d, [] => some d
  | 0, _, _ :: _ => none
  | fuel + 1, d, cs => do
    let (d, rest) ← readLine d cs
    readLines fuel d rest

/-- Drop a byte order mark at the start. -/
def dropMark : List Char → List Char
  | '\ufeff' :: rest => rest
  | cs => cs

/-- The table that a text describes. -/
def read? (text : String) : Option (List (String × Value)) := do
  let cs := dropMark text.toList
  let d ← readLines (cs.length + 1) {} cs
  some (Node.entriesToValues d.root)

end IdlBinding.Toml
