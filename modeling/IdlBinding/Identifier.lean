/-!
# Names in emitted code

A parameter list is written from declared names. Empty names are left out, and a name that the
script language reserves gets an underscore, so that it can be bound.
-/

namespace IdlBinding.Identifier

/-- The words that cannot be bound as names in emitted modules. -/
def reservedWords : List String :=
  ["arguments", "await", "break", "case", "catch", "class", "const", "continue", "debugger",
    "default", "delete", "do", "else", "enum", "eval", "export", "extends", "false", "finally",
    "for", "function", "if", "implements", "import", "in", "instanceof", "interface", "let",
    "new", "null", "package", "private", "protected", "public", "return", "static", "super",
    "switch", "this", "throw", "true", "try", "typeof", "var", "void", "while", "with", "yield"]

/-- The name is reserved; case matters. -/
def isReserved (name : String) : Bool := reservedWords.contains name

/-- The name under which a declared name is bound. -/
def bindable (name : String) : String := if isReserved name then name ++ "_" else name

/-- A parameter list without its parentheses. -/
def parameters (names : List String) : String :=
  ", ".intercalate ((names.filter (· ≠ "")).map bindable)

end IdlBinding.Identifier
