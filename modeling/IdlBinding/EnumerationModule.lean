import IdlBinding.Descriptor
import IdlBinding.Settings
import IdlBinding.Statement

/-!
# Enumeration modules

An enumeration becomes a module of its own, which exports the set of values and a function that
converts a value: it takes the value's string form and refuses what is not in the set.

* `generate` — the module, unless a value is listed twice;
* `convert` — what the function of the module does.
-/

namespace IdlBinding

/-- A generated module. -/
structure Generated where
  /-- its source text -/
  source : String
  /-- what it imports and declares -/
  ledger : Ledger

/-- What a generator gives. -/
structure Generation where
  /-- the module or the error -/
  result : Except Error Generated
  /-- what happened -/
  events : List Event

/-- A value that is not one of an enumeration. -/
structure ConversionError where
  /-- what the value is, for the reader -/
  context : String
  /-- the string form of the value -/
  value : String
  /-- the name of the enumeration -/
  enumeration : String
  deriving DecidableEq, Repr

/-- The wording of a conversion error. -/
def ConversionError.message (e : ConversionError) : String :=
  e.context ++ " '" ++ e.value ++ "' is not a valid enumeration value for " ++ e.enumeration

/-- What a value is called if the caller does not say. -/
def defaultContext : String := "The provided value"

namespace Enumeration

/-- The first value that is among `seen` or among the values before it. -/
def firstRepeated (seen : List String) : List String → Option String
  | [] => none
  | v :: vs => if seen.contains v then some v else firstRepeated (v :: seen) vs

/-! ## The module -/

/-- The values as an array literal. -/
def valuesLiteral (values : List String) : String :=
  "[" ++ ",".intercalate (values.map Quoted.quote) ++ "]"

/-- The statement that refuses a value. -/
def throwLine (name : String) : String :=
  "throw new globalObject.TypeError(`$\x7bcontext\x7d '$\x7bstring\x7d' is not a valid "
    ++ "enumeration value for " ++ name ++ "`);"

/-- The conversion function. -/
def convertFunction (name : String) : Arrow where
  parameters := "globalObject, value, \x7b context = \"" ++ defaultContext ++ "\" \x7d = \x7b\x7d"
  body :=
    [.line "const string = `$\x7bvalue\x7d`;",
      Arrow.nested "if (!enumerationValues.has(string)) \x7b" [throwLine name],
      .line "return string;"]

/-- The source text of the module. -/
def source (s : Settings) (e : Enumeration) : String :=
  let values :=
    Statement.constant "enumerationValues" ("new Set(" ++ valuesLiteral e.values ++ ")")
  let convert := Statement.function "convert" (convertFunction e.name)
  let exports := Statement.exportDefault ["convert", "enumerationValues"]
  ((((((Writer.new s.indent).emit values.fragments).blank).emit convert.fragments).blank).emit
    exports.fragments).text

/-- Generate the module. -/
def generate (s : Settings) (e : Enumeration) : Generation :=
  let start := Event.enumerationStarted e.name e.values.length
  match firstRepeated [] e.values with
  | some value => ⟨.error (.duplicateEnumerationValue e.name value), [start]⟩
  | none =>
    ⟨.ok ⟨e.source s, s.ledger⟩, [start, .enumerationFinished e.name]⟩

/-! ## Conversion -/

/-- Convert a value, given its string form. -/
def convert (e : Enumeration) (value : String) (context : Option String) :
    Except ConversionError String :=
  if e.values.contains value then .ok value
  else .error ⟨context.getD defaultContext, value, e.name⟩

end Enumeration

end IdlBinding
