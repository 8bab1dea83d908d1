import IdlBinding.Layout

/-!
# Statements of emitted modules

The forms of statement that generated modules are made of, and the fragments they are written as.
-/

namespace IdlBinding

/-- An arrow function with a body in braces. -/
structure Arrow where
  /-- the parameter list, without its parentheses -/
  parameters : String
  /-- the statements of the body -/
  body : List Fragment

/-- The opening of the function, up to its brace. -/
def Arrow.header (f : Arrow) : String := "(" ++ f.parameters ++ ") => \x7b"

/-- A nested block of the body of a function. -/
def Arrow.nested (header : String) (lines : List String) : Fragment :=
  .block header (lines.map .line) (some "\x7d")

/-- A statement of an emitted module. -/
inductive Statement where
  /-- an exported constant -/
  | constant (name value : String)
  /-- an exported function -/
  | function (name : String) (arrow : Arrow)
  /-- a definition of properties, as access expressions and descriptor literals -/
  | define (target : String) (properties : List (String × String))
  /-- the default export, an object of bound names -/
  | exportDefault (names : List String)

namespace Statement

/-- The fragments of a statement. A definition without properties has none. -/
def fragments : Statement → List Fragment
  | .constant name value => [.line ("export const " ++ name ++ " = " ++ value ++ ";")]
  | .function name arrow =>
    [.block ("export const " ++ name ++ " = " ++ arrow.header) arrow.body (some "\x7d;")]
  | .define _ [] => []
  | .define target properties =>
    [.block ("Object.defineProperties(" ++ target ++ ", \x7b")
      (properties.map fun p => .line (p.1 ++ ": " ++ p.2 ++ ",")) (some "\x7d);")]
  | .exportDefault [] => [.line "export default \x7b\x7d;"]
  | .exportDefault names =>
    [.line ("export default \x7b " ++ ", ".intercalate names ++ " \x7d;")]

/-- The statement has no text, as a definition without properties. -/
def isEmpty (s : Statement) : Bool := s.fragments.isEmpty

/-- The text of a statement with the step of script code. -/
def code (s : Statement) : String := Fragment.render .script s.fragments

end Statement

end IdlBinding
