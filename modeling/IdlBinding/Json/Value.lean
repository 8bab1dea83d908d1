import IdlBinding.Json.Number
import IdlBinding.Quoted

/-!
# Data text as a tree

The text of a data document, as far as it can be read.

A document that breaks off is not refused here. It becomes a tree whose containers on the way to
the break are not closed, so that whoever reads the tree meets the break where it stands in the
text, after everything that comes before it.

* `Value` — a value, among them the container that was not closed and the value that is none;
* `Document` — a value and whether only blanks follow it;
* `read` — from text to document, total on every text.
-/

namespace IdlBinding.Json

/-! ## The tree -/

/-- A value of a document. -/
inductive Value where
  /-- the literal `null` -/
  | null
  /-- a truth value -/
  | bool (value : Bool)
  /-- a number -/
  | number (literal : Number)
  /-- a string, without a text if a surrogate stands alone in it -/
  | string (text : Option String)
  /-- an array and whether it is closed -/
  | array (items : List Value) (closed : Bool)
  /-- an object, its keys as strings above, and whether it is closed -/
  | object (members : List (Option String × Value)) (closed : Bool)
  /-- not a value -/
  | malformed
  deriving Repr

/-- A document. -/
structure Document where
  /-- the value that the text starts with -/
  root : Value
  /-- only blanks follow -/
  complete : Bool
  deriving Repr

namespace Value

mutual

/-- Everything in the value was read to its end. -/
def wellFormed : Value → Bool
  | .null | .bool _ | .number _ | .string _ => true
  | .array items closed => wellFormedItems items && closed
  | .object members closed => wellFormedMembers members && closed
  | .malformed => false

/-- `wellFormed` of all items. -/
def wellFormedItems : List Value → Bool
  | [] => true
  | v :: vs => wellFormed v && wellFormedItems vs

/-- `wellFormed` of all members. -/
def wellFormedMembers : List (Option String × Value) → Bool
  | [] => true
  | (_, v) :: vs => wellFormed v && wellFormedMembers vs

end

end Value

/-! ## Reading -/

/-- The blanks of the format. -/
def isBlank (c : Char) : Bool := c = ' ' || c = '\n' || c = '\t' || c = '\r'

/-- Skip blanks. -/
def skipBlanks (cs : List Char) : List Char := cs.dropWhile isBlank

/-- A value that is no container, at the first character of it. -/
def readScalar : List Char → Value × Option (List Char)
  | 'n' :: 'u' :: 'l' :: 'l' :: rest => (.null, some rest)
  | 't' :: 'r' :: 'u' :: 'e' :: rest => (.bool true, some rest)
  | 'f' :: 'a' :: 'l' :: 's' :: 'e' :: rest => (.bool false, some rest)
  | '"' :: rest =>
    match Quoted.scan rest with
    | some (pieces, rest) => (.string ((Quoted.join pieces).map String.ofList), some rest)
    | none => (.malformed, none)
  | cs =>
    match readNumber cs with
    | some (literal, rest) => (.number literal, some rest)
    | none => (.malformed, none)

/-- A key and the colon after it. -/
def readKey (cs : List Char) : Option (Option String × List Char) :=
  match skipBlanks cs with
  | '"' :: rest => do
    let (pieces, rest) ← Quoted.scan rest
    match skipBlanks rest with
    | ':' :: rest => some ((Quoted.join pieces).map String.ofList, rest)
    | _ => none
  | _ => none

mutual

/-- One value, and what follows it unless the text breaks off in it. Each step down and each item
takes one from `fuel`. -/
def readValue : Nat → List Char → Value × Option (List Char)
  | 0, _ => (.malformed, none)
  | fuel + 1, cs =>
    match skipBlanks cs with
    | '[' :: rest =>
      match skipBlanks rest with
      | ']' :: rest => (.array [] true, some rest)
      | _ =>
        let (items, rest) := readItems fuel rest
        (.array items rest.isSome, rest)
    | '\x7b' :: rest =>
      match skipBlanks rest with
      | '\x7d' :: rest => (.object [] true, some rest)
      | _ =>
        let (members, rest) := readMembers fuel rest
        (.object members rest.isSome, rest)
    | cs => readScalar cs

/-- The items of an array that is not empty, and what follows its bracket. -/
def readItems : Nat → List Char → List Value × Option (List Char)
  | 0, _ => ([], none)
  | fuel + 1, cs =>
    match readValue fuel cs with
    | (v, none) => ([v], none)
    | (v, some rest) =>
      match skipBlanks rest with
      | ',' :: rest =>
        let (vs, rest) := readItems fuel rest
        (v :: vs, rest)
      | ']' :: rest => ([v], some rest)
      | _ => ([v], none)

/-- The members of an object that is not empty, and what follows its brace. -/
def readMembers : Nat → List Char → List (Option String × Value) × Option (List Char)
  | 0, _ => ([], none)
  | fuel + 1, cs =>
    match readKey cs with
    | none => ([], none)
    | some (key, rest) =>
      match readValue fuel rest with
      | (v, none) => ([(key, v)], none)
      | (v, some rest) =>
        match skipBlanks rest with
        | ',' :: rest =>
          let (vs, rest) := readMembers fuel rest
          ((key, v) :: vs, rest)
        | '\x7d' :: rest => ([(key, v)], some rest)
        | _ => ([(key, v)], none)

end

/-- Fuel that no text of that length uses up: at most two steps go with one character. -/
def enoughFuel (cs : List Char) : Nat := 2 * cs.length + 2

/-- The document of a text. -/
def read (text : String) : Document :=
  let cs := text.toList
  match readValue (enoughFuel cs) cs with
  | (root, none) => ⟨root, false⟩
  | (root, some rest) => ⟨root, (skipBlanks rest).isEmpty⟩

end IdlBinding.Json
