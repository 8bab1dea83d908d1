/-!
# Errors

Everything that can go wrong while code is generated, as causes. `message` says what happened,
`code` is a stable tag and `help` a hint where there is one.

Default values have errors of their own, because they are also read where no code is generated.
`Error.ofDefault` takes them over, cause by cause, and the generator words them itself.
-/

namespace IdlBinding

/-- Why a default value cannot be interpreted. -/
inductive DefaultError where
  /-- the tag names no kind of default value -/
  | unsupportedKind (kind : String)
  /-- the tag is known and its value is of another type than `expected` -/
  | malformedValue (kind expected : String)
  deriving DecidableEq, Repr

/-- The wording of an error of a default value, where no code is generated. -/
def DefaultError.message : DefaultError → String
  | .unsupportedKind kind => "unexpected default type: " ++ kind
  | .malformedValue kind expected =>
    "default of type " ++ kind ++ " requires a " ++ expected ++ " value"

/-- Why code generation stops. -/
inductive Error where
  /-- an enumeration lists a value twice -/
  | duplicateEnumerationValue (name value : String)
  /-- the tag of a default value is unknown -/
  | unsupportedDefaultKind (kind : String)
  /-- the value of a default value is of another type than `expected` -/
  | malformedDefault (kind expected : String)
  /-- a property key is a symbol that has no well-known name -/
  | unsupportedSymbol (description : String)
  /-- an identifier is imported from two modules -/
  | importClash (identifier existing adding : String)
  /-- a name is declared with two initializers -/
  | declarationClash (key existing adding : String)
  /-- the settings document is not valid -/
  | invalidSettings
  deriving DecidableEq, Repr

namespace Error

/-- The error of a default value, as one of code generation. -/
def ofDefault : DefaultError → Error
  | .unsupportedKind kind => .unsupportedDefaultKind kind
  | .malformedValue kind expected => .malformedDefault kind expected

/-- The wording of an error. -/
def message : Error → String
  | .duplicateEnumerationValue name value =>
    "duplicates found in " ++ name ++ "'s enumeration values: \"" ++ value ++ "\""
  | .unsupportedDefaultKind kind => "unexpected default type: " ++ kind
  | .malformedDefault kind expected =>
    "default of type " ++ kind ++ " requires a " ++ expected ++ " value"
  | .unsupportedSymbol description => "unsupported property name " ++ description
  | .importClash identifier existing adding =>
    "import name clash: " ++ identifier ++ "; was " ++ existing ++ ", adding: " ++ adding
  | .declarationClash key existing adding =>
    "variable name clash: " ++ key ++ "; was " ++ existing ++ ", adding: " ++ adding
  | .invalidSettings => "invalid codegen configuration"

/-- The tag of an error. -/
def code : Error → String
  | .duplicateEnumerationValue _ _ => "idlgen::duplicate_enum_value"
  | .unsupportedDefaultKind _ => "idlgen::unsupported_default"
  | .malformedDefault _ _ => "idlgen::malformed_default"
  | .unsupportedSymbol _ => "idlgen::unsupported_symbol"
  | .importClash _ _ _ => "idlgen::import_clash"
  | .declarationClash _ _ _ => "idlgen::declaration_clash"
  | .invalidSettings => "idlgen::config"

/-- What to do about an error, where there is something to say. -/
def help : Error → Option String
  | .duplicateEnumerationValue _ _ => some "remove the repeated value from the enum declaration"
  | .unsupportedSymbol _ =>
    some "only well-known symbols of the form `Symbol.<name>` can be used as property keys"
  | _ => none

end Error

end IdlBinding
