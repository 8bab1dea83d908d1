import IdlBinding.Blank
import IdlBinding.Decimal
import IdlBinding.Digits
import IdlBinding.Layout
import IdlBinding.Quoted

/-!
# Reflected attributes

An attribute of an interface may reflect a content attribute, which is a text or absent. For each
type that can be reflected there is the text of the accessors, and what these accessors do.

* `getter`, `setter` — the bodies of the accessors; the new value is `V`;
* `get` — what the getter returns on a content attribute;
* `set` — what the setter writes for a value;
* `parseInteger` — how a getter reads an integer, in binary64 arithmetic.
-/

namespace IdlBinding.Reflection

/-- A type that can be reflected. -/
inductive ReflectedType where
  /-- a truth value: the attribute is present -/
  | boolean
  /-- a string -/
  | domString
  /-- a string of scalar values -/
  | usvString
  /-- a signed integer of 32 bits -/
  | long
  /-- an integer from zero, with the same upper bound -/
  | unsignedLong
  deriving DecidableEq, Repr

/-- A value of a reflected attribute, as scripts see it. -/
inductive Value where
  /-- a truth value -/
  | boolean (value : Bool)
  /-- a string -/
  | string (value : String)
  /-- a number -/
  | number (value : Binary64)
  deriving DecidableEq, Repr

/-- What a setter does to the content attribute. -/
inductive Write where
  /-- give it a text -/
  | set (text : String)
  /-- remove it -/
  | remove
  deriving DecidableEq, Repr

/-- The content attribute after a write. -/
def Write.apply : Write → Option String
  | .set text => some text
  | .remove => none

/-! ## Integers -/

/-- The least value of a signed integer. -/
def minLong : Int := -2147483648

/-- The greatest value of both kinds of integer. -/
def maxLong : Int := 2147483647

/-- The number of a run of digits, accumulated digit by digit with rounding at each step. -/
def accumulate (radix : Nat) (ds : List Nat) : Binary64 :=
  ds.foldl (fun x d => (x.timesNat radix).plusNat d) .zero

/-- Cut off a sign. -/
def splitSign : List Char → Bool × List Char
  | '-' :: cs => (true, cs)
  | '+' :: cs => (false, cs)
  | cs => (false, cs)

/-- Cut off the mark of hexadecimal digits, and give the base. -/
def splitRadix : List Char → Nat × List Char
  | '0' :: 'x' :: cs => (16, cs)
  | '0' :: 'X' :: cs => (16, cs)
  | cs => (10, cs)

/-- The integer at the front of a text: blanks, a sign, a base mark, and the longest run of digits.
Without a digit there is none. -/
def parseInteger (text : String) : Option Binary64 :=
  let (negative, cs) := splitSign (text.toList.dropWhile isScriptSpace)
  let (radix, cs) := splitRadix cs
  match (Digits.span radix cs).1 with
  | [] => none
  | ds =>
    let magnitude := accumulate radix ds
    some (if negative then magnitude.negate else magnitude)

/-- The integer of a content attribute if it is at least `lo` and not too large, else zero. -/
def integerOr0 (lo : Int) (attr : Option String) : Binary64 :=
  match attr.bind parseInteger with
  | some x => if x.within lo maxLong then x else .zero
  | none => .zero

/-! ## Values -/

namespace Value

/-- The value counts as true. -/
def isTruthy : Value → Bool
  | .boolean value => value
  | .string value => value ≠ ""
  | .number value => !value.isZero && value ≠ .nan

/-- The string form of a value. -/
def text : Value → String
  | .boolean value => toString value
  | .string value => value
  | .number value => value.scriptText

end Value

/-! ## Accessors -/

namespace ReflectedType

/-- All types that can be reflected. -/
def all : List ReflectedType := [.boolean, .domString, .usvString, .long, .unsignedLong]

/-- The name of a type in declarations. -/
def name : ReflectedType → String
  | .boolean => "boolean"
  | .domString => "DOMString"
  | .usvString => "USVString"
  | .long => "long"
  | .unsignedLong => "unsigned long"

/-- The type of a name, if it can be reflected. -/
def ofName? (name : String) : Option ReflectedType := all.find? fun t => t.name == name

/-- The read of an integer attribute. -/
def parseLine (object attr : String) : String :=
  "const value = parseInt(" ++ object ++ ".getAttributeNS(null, " ++ attr ++ "));"

/-- The operations that write a getter body, for an attribute name in quotes. -/
def getterOps (t : ReflectedType) (object attr : String) : List Op :=
  match t with
  | .boolean => [.line ("return " ++ object ++ ".hasAttributeNS(null, " ++ attr ++ ");")]
  | .domString | .usvString =>
    [.line ("const value = " ++ object ++ ".getAttributeNS(null, " ++ attr ++ ");"),
      .line "return value === null ? \"\" : value;"]
  | .long =>
    [.line (parseLine object attr),
      .line "return isNaN(value) || value < -2147483648 || value > 2147483647 ? 0 : value;"]
  | .unsignedLong =>
    [.line (parseLine object attr),
      .line "return isNaN(value) || value < 0 || value > 2147483647 ? 0 : value;"]

/-- The write of an attribute. -/
def setLine (object attr value : String) : String :=
  object ++ ".setAttributeNS(null, " ++ attr ++ ", " ++ value ++ ");"

/-- The operations that write a setter body, for an attribute name in quotes. -/
def setterOps (t : ReflectedType) (object attr : String) : List Op :=
  match t with
  | .boolean =>
    [.block "if (V) \x7b" "\x7d else \x7b" [.line (setLine object attr "\"\"")],
      .deeper,
      .line (object ++ ".removeAttributeNS(null, " ++ attr ++ ");"),
      .shallower,
      .line "\x7d"]
  | .domString | .usvString => [.line (setLine object attr "V")]
  | .long => [.line (setLine object attr "String(V)")]
  | .unsignedLong => [.line (setLine object attr "String(V > 2147483647 ? 0 : V)")]

/-- The body of the getter of an attribute on an object. -/
def getter (t : ReflectedType) (object attr : String) : String :=
  (Op.performAll (.new .script) (t.getterOps object (Quoted.quote attr))).text

/-- The body of the setter of an attribute on an object. -/
def setter (t : ReflectedType) (object attr : String) : String :=
  (Op.performAll (.new .script) (t.setterOps object (Quoted.quote attr))).text

/-- What the getter returns on a content attribute. -/
def get (t : ReflectedType) (attr : Option String) : Value :=
  match t with
  | .boolean => .boolean attr.isSome
  | .domString | .usvString => .string (attr.getD "")
  | .long => .number (integerOr0 minLong attr)
  | .unsignedLong => .number (integerOr0 0 attr)

/-- The number is one that an `unsigned long` setter replaces by zero. -/
def isTooLarge : Value → Bool
  | .number value => value.exceeds maxLong
  | _ => false

/-- What the setter does for a value. -/
def set (t : ReflectedType) (value : Value) : Write :=
  match t with
  | .boolean => if value.isTruthy then .set "" else .remove
  | .domString | .usvString | .long => .set value.text
  | .unsignedLong => if isTooLarge value then .set "0" else .set value.text

end ReflectedType

end IdlBinding.Reflection
