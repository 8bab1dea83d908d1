import IdlBinding.Decimal
import IdlBinding.Error
import IdlBinding.Quoted

/-!
# Default values

A default value comes in two forms. The raw form is a tag with a payload, as declarations are
handed over; the typed form has one constructor for each tag and only the payload that belongs to
it.

* `RawDefault.interpret` — from raw to typed, with the errors of a wrong tag or payload;
* `Default.literal` — the expression of the script language for a typed default;
* `RawDefault.literal` — both.
-/

namespace IdlBinding

/-- The payload of a raw default. -/
inductive Scalar where
  /-- a truth value -/
  | bool (value : Bool)
  /-- an integer of 64 bits -/
  | int (value : Int)
  /-- a binary64 number -/
  | float (value : Binary64)
  /-- a text -/
  | text (value : String)
  /-- a list of payloads -/
  | list (items : List Scalar)
  deriving Repr

/-- A default value as it is handed over. -/
structure RawDefault where
  /-- the tag -/
  kind : String
  /-- the payload, if any -/
  value : Option Scalar := none
  /-- the sign of an infinity, if given -/
  negative : Option Bool := none
  deriving Repr

/-- A default value. -/
inductive Default where
  /-- a truth value -/
  | boolean (value : Bool)
  /-- a string -/
  | string (value : String)
  /-- a number, by its text -/
  | number (text : String)
  /-- the null reference -/
  | null
  /-- not a number -/
  | notANumber
  /-- an infinity -/
  | infinity (negative : Bool)
  /-- an empty sequence, the only one that can be a default -/
  | sequence
  deriving DecidableEq, Repr

namespace Default

/-- The tag of a default value. -/
def kind : Default → String
  | .boolean _ => "boolean"
  | .string _ => "string"
  | .number _ => "number"
  | .null => "null"
  | .notANumber => "NaN"
  | .infinity _ => "Infinity"
  | .sequence => "sequence"

/-- The expression of a default value. -/
def literal : Default → String
  | .boolean value => toString value
  | .string value => Quoted.quote value
  | .number text => text
  | .null => "null"
  | .notANumber => "NaN"
  | .infinity negative => if negative then "-Infinity" else "Infinity"
  | .sequence => "[]"

end Default

namespace RawDefault

/-- The typed form of a raw default. Payloads that a tag has no use for are left out of account. -/
def interpret (raw : RawDefault) : Except DefaultError Default :=
  match raw.kind with
  | "boolean" =>
    match raw.value with
    | some (.bool value) => .ok (.boolean value)
    | _ => .error (.malformedValue raw.kind "boolean")
  | "string" =>
    match raw.value with
    | some (.text value) => .ok (.string value)
    | _ => .error (.malformedValue raw.kind "string")
  | "number" =>
    match raw.value with
    | some (.text value) => .ok (.number value)
    | some (.int value) => .ok (.number (toString value))
    | some (.float value) => .ok (.number value.positionalText)
    | _ => .error (.malformedValue raw.kind "numeric")
  | "null" => .ok .null
  | "NaN" => .ok .notANumber
  | "Infinity" => .ok (.infinity (raw.negative.getD false))
  | "sequence" => .ok .sequence
  | kind => .error (.unsupportedKind kind)

/-- The expression of a raw default. -/
def literal (raw : RawDefault) : Except Error String :=
  match raw.interpret with
  | .ok value => .ok value.literal
  | .error cause => .error (.ofDefault cause)

end RawDefault

end IdlBinding
