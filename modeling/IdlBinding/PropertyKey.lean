import IdlBinding.Error
import IdlBinding.Quoted

/-!
# Property keys

The key of a property is a text or a symbol. A symbol is known by its description only, and only
the well-known symbols `Symbol.<name>` can be referred to from emitted code.

* `access` — the key as it stands in an object literal;
* `display` — the key as it stands in a message.
-/

namespace IdlBinding

/-- The key of a property of a generated object. -/
inductive PropertyKey where
  /-- a property name -/
  | text (name : String)
  /-- a symbol, by its description -/
  | symbol (description : String)
  deriving DecidableEq, Repr

namespace PropertyKey

/-- The key of a well-known symbol. -/
def wellKnown (name : String) : PropertyKey := .symbol ("Symbol." ++ name)

/-- The key is a symbol. -/
def isSymbol : PropertyKey → Bool
  | .text _ => false
  | .symbol _ => true

/-- A description without the `Symbol(…)` around it, if it has one. -/
def unwrapDescription (description : List Char) : List Char :=
  let inner := do
    let rest ← List.isPrefixOf? "Symbol(".toList description
    List.isSuffixOf? ")".toList rest
  inner.getD description

/-- The reference `Symbol.<name>` that a description stands for, for a non-empty name. -/
def reference? (description : String) : Option String :=
  let bare := unwrapDescription description.toList
  match List.isPrefixOf? "Symbol.".toList bare with
  | some (_ :: _) => some (String.ofList bare)
  | _ => none

/-- The reference of a symbol, or the error that there is none. -/
def reference (description : String) : Except Error String :=
  match reference? description with
  | some found => .ok found
  | none => .error (.unsupportedSymbol description)

/-- A property name in an object literal. Declared names are valid there unless they have a
hyphen. -/
def propertyName (name : String) : String :=
  if name.toList.contains '-' then Quoted.quote name else name

/-- The key as it stands in an object literal. -/
def access : PropertyKey → Except Error String
  | .text name => .ok (propertyName name)
  | .symbol description => do
    let found ← reference description
    .ok ("[" ++ found ++ "]")

/-- The key as it stands in a message. -/
def display : PropertyKey → Except Error String
  | .text name => .ok (Quoted.quote name)
  | .symbol description => reference description

end PropertyKey

end IdlBinding
