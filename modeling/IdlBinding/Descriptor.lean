import IdlBinding.Default
import IdlBinding.Json.Record

/-!
# Declarations

The declarations that code is generated for, and how each is read from a data document.

* `RawDefault.ofJson`, `Default.ofJson` — default values;
* `Constant`, `Enumeration`, `Mixin`, `Interface` — the declarations, each with its reader
  `ofJson`;
* `ConstructKind` — the tag of a kind of declaration.
-/

namespace IdlBinding

/-! ## Default values in documents -/

/-- How deep containers may nest in a value that is read into memory. -/
def maxDepth : Nat := 127

/-- The payload that a number literal stands for: an integer of 64 bits, or else a binary64 number,
which has to be finite. -/
def Scalar.ofNumber (n : Json.Number) : Option Scalar :=
  match n.integer? with
  | some value => some (.int value)
  | none => n.toBinary64?.map .float

mutual

/-- A payload in a document. Arrays nest at most `depth` deep. -/
def Scalar.ofJson (depth : Nat) : Json.Value → Except Json.Fault Scalar
  | .bool value => .ok (.bool value)
  | .number literal =>
    match Scalar.ofNumber literal with
    | some scalar => .ok scalar
    | none => .error .form
  | .string (some s) => .ok (.text s)
  | .array items closed =>
    match depth with
    | 0 => .error .form
    | depth + 1 => do
      let scalars ← Scalar.ofJsonItems depth items
      if closed then .ok (.list scalars) else .error .form
  | _ => .error .form

/-- The payloads of an array. -/
def Scalar.ofJsonItems (depth : Nat) : List Json.Value → Except Json.Fault (List Scalar)
  | [] => .ok []
  | v :: vs => do
    let scalar ← Scalar.ofJson depth v
    let scalars ← Scalar.ofJsonItems depth vs
    .ok (scalar :: scalars)

end

namespace RawDefault

/-- What has been read of a raw default. -/
structure Draft where
  /-- the tag -/
  kind : Option String := none
  /-- the payload, which may be `null` -/
  value : Option (Option Scalar) := none
  /-- the sign, which may be `null` -/
  negative : Option (Option Bool) := none

/-- A payload or `null`. -/
def payload (depth : Nat) : Json.Value → Except Json.Fault (Option Scalar)
  | .null => .ok none
  | v => (Scalar.ofJson depth v).map some

/-- A sign or `null`. -/
def sign : Json.Value → Except Json.Fault (Option Bool)
  | .null => .ok none
  | .bool value => .ok (some value)
  | _ => .error .form

/-- Read one field of a raw default. -/
def Draft.field (depth : Nat) (d : Draft) (name : String) (v : Json.Value) :
    Except Json.Fault Draft :=
  match name with
  | "type" => do
    let kind ← Json.Value.once d.kind v.asString
    .ok { d with kind }
  | "value" => do
    let value ← Json.Value.once d.value (payload depth v)
    .ok { d with value }
  | "negative" => do
    let negative ← Json.Value.once d.negative (sign v)
    .ok { d with negative }
  | _ => Json.Value.skip d v

/-- The raw default of a draft. Payload and sign may be left out. -/
def Draft.finish (d : Draft) : Except Json.Fault RawDefault := do
  let kind ← Json.Value.required d.kind
  .ok { kind, value := d.value.getD none, negative := d.negative.getD none }

/-- A raw default in a document, with `depth` levels of containers left, its own included. -/
def ofJson (depth : Nat) (v : Json.Value) : Except Json.Fault RawDefault := do
  let d ← v.record ["type", "value", "negative"] ({} : Draft) (Draft.field (depth - 1))
  d.finish

end RawDefault

/-- A default value in a document. It is refused with the message of its error. -/
def Default.ofJson (depth : Nat) (v : Json.Value) : Except Json.Fault Default := do
  let raw ← RawDefault.ofJson depth v
  match raw.interpret with
  | .ok value => .ok value
  | .error cause => .error (.refused (.ofMessage cause.message))

/-! ## Kinds of declaration -/

/-- A kind of declaration. -/
inductive ConstructKind where
  /-- a constant -/
  | constant
  /-- an enumeration -/
  | enumeration
  /-- a mixin of interfaces -/
  | interfaceMixin
  deriving DecidableEq, Repr

/-- The tag of a kind of declaration. -/
def ConstructKind.tag : ConstructKind → String
  | .constant => "const"
  | .enumeration => "enum"
  | .interfaceMixin => "interface mixin"

/-! ## Constants -/

/-- The modifier of a member. -/
inductive Modifier where
  /-- none -/
  | plain
  /-- on the interface object -/
  | static
  /-- also used for conversion to a string -/
  | stringifier
  deriving DecidableEq, Repr

namespace Modifier

/-- The name of a modifier. -/
def name : Modifier → String
  | .plain => "none"
  | .static => "static"
  | .stringifier => "stringifier"

/-- The modifier of a name. -/
def ofName? (name : String) : Option Modifier :=
  match name with
  | "none" => some .plain
  | "static" => some .static
  | "stringifier" => some .stringifier
  | _ => none

/-- The modifier of a name, or the fault that there is none. -/
def ofName (name : String) : Except Json.Fault Modifier := Json.Value.required (ofName? name)

/-- A modifier in a document: its name, or an object with its name as the only key and `null`. -/
def ofJson : Json.Value → Except Json.Fault Modifier
  | .string (some name) => ofName name
  | .object [(some name, .null)] true => ofName name
  | _ => .error .form

end Modifier

/-- The declaration of a constant. -/
structure Constant where
  /-- the name -/
  name : String
  /-- the value -/
  value : Default
  /-- the modifier -/
  special : Modifier := .plain
  deriving DecidableEq, Repr

namespace Constant

/-- What has been read of a constant. -/
structure Draft where
  /-- the name -/
  name : Option String := none
  /-- the value -/
  value : Option Default := none
  /-- the modifier -/
  special : Option Modifier := none

/-- Read one field of a constant. -/
def Draft.field (d : Draft) (key : String) (v : Json.Value) : Except Json.Fault Draft :=
  match key with
  | "name" => do
    let name ← Json.Value.once d.name v.asString
    .ok { d with name }
  | "value" => do
    let value ← Json.Value.once d.value (Default.ofJson (maxDepth - 1) v)
    .ok { d with value }
  | "special" => do
    let special ← Json.Value.once d.special (Modifier.ofJson v)
    .ok { d with special }
  | _ => Json.Value.skip d v

/-- The constant of a draft. The modifier may be left out. -/
def Draft.finish (d : Draft) : Except Json.Fault Constant := do
  let name ← Json.Value.required d.name
  let value ← Json.Value.required d.value
  .ok { name, value, special := d.special.getD .plain }

/-- A constant in a document. -/
def ofJson (v : Json.Value) : Except Json.Fault Constant := do
  let d ← v.record ["name", "value", "special"] ({} : Draft) Draft.field
  d.finish

end Constant

/-! ## Enumerations -/

/-- The declaration of an enumeration. -/
structure Enumeration where
  /-- the name -/
  name : String
  /-- the values, in the order of the declaration -/
  values : List String
  deriving DecidableEq, Repr

namespace Enumeration

mutual

/-- The value can be held in memory: it is well formed, its strings have texts, its numbers are
finite, and it nests at most `depth` deep. -/
def storable (depth : Nat) : Json.Value → Bool
  | .null | .bool _ => true
  | .number literal => (Scalar.ofNumber literal).isSome
  | .string text => text.isSome
  | .array items closed =>
    match depth with
    | 0 => false
    | depth + 1 => storableItems depth items && closed
  | .object members closed =>
    match depth with
    | 0 => false
    | depth + 1 => storableMembers depth members && closed
  | .malformed => false

/-- `storable` of all items. -/
def storableItems (depth : Nat) : List Json.Value → Bool
  | [] => true
  | v :: vs => storable depth v && storableItems depth vs

/-- `storable` of all members, whose keys have texts too. -/
def storableMembers (depth : Nat) : List (Option String × Json.Value) → Bool
  | [] => true
  | (key, v) :: vs => key.isSome && storable depth v && storableMembers depth vs

end

/-- Read one member of an enumeration value that is an object. -/
def valueField (found : Option String) (key : String) (v : Json.Value) :
    Except Json.Fault (Option String) :=
  match key with
  | "value" => Json.Value.once found v.asString
  | _ => .ok found

/-- A value of an enumeration: a string, or an object with the string under `value`. -/
def valueOfJson (depth : Nat) : Json.Value → Except Json.Fault String
  | .string (some text) => .ok text
  | .object members closed =>
    if storable depth (.object members closed) then do
      let found ← members.foldlM (Json.Value.memberOf valueField) none
      Json.Value.required found
    else .error .form
  | _ => .error .form

/-- What has been read of an enumeration. -/
structure Draft where
  /-- the name -/
  name : Option String := none
  /-- the values -/
  values : Option (List String) := none

/-- Read one field of an enumeration. -/
def Draft.field (d : Draft) (key : String) (v : Json.Value) : Except Json.Fault Draft :=
  match key with
  | "name" => do
    let name ← Json.Value.once d.name v.asString
    .ok { d with name }
  | "values" => do
    let values ← Json.Value.once d.values (v.items (valueOfJson (maxDepth - 2)))
    .ok { d with values }
  | _ => Json.Value.skip d v

/-- The enumeration of a draft. -/
def Draft.finish (d : Draft) : Except Json.Fault Enumeration := do
  let name ← Json.Value.required d.name
  let values ← Json.Value.required d.values
  .ok { name, values }

/-- An enumeration in a document. -/
def ofJson (v : Json.Value) : Except Json.Fault Enumeration := do
  let d ← v.record ["name", "values"] ({} : Draft) Draft.field
  d.finish

end Enumeration

/-! ## Interfaces and mixins -/

/-- Read the field `name`, the only one of a record. -/
def nameField (name : Option String) (key : String) (v : Json.Value) :
    Except Json.Fault (Option String) :=
  match key with
  | "name" => Json.Value.once name v.asString
  | _ => Json.Value.skip name v

/-- A record with a name and nothing else. -/
def nameOfJson (v : Json.Value) : Except Json.Fault String := do
  let name ← v.record ["name"] none nameField
  Json.Value.required name

/-- The declaration of a mixin. It stands for its name only, since its members belong to the
interfaces that include it. -/
structure Mixin where
  /-- the name -/
  name : String
  deriving DecidableEq, Repr

/-- A mixin in a document. -/
def Mixin.ofJson (v : Json.Value) : Except Json.Fault Mixin := (nameOfJson v).map Mixin.mk

/-- The declaration of an interface. -/
structure Interface where
  /-- the name -/
  name : String
  /-- the names of its extended attributes, in order -/
  attributes : List String := []
  deriving DecidableEq, Repr

namespace Interface

/-- The position of the first extended attribute with a name. -/
def find? (i : Interface) (name : String) : Option Nat := i.attributes.findIdx? (· == name)

/-- The interface is a global object. -/
def isGlobal (i : Interface) : Bool := (i.find? "Global").isSome

/-- The interface reacts to changes of custom elements. -/
def hasReactions (i : Interface) : Bool := (i.find? "CEReactions").isSome

/-- What has been read of an interface. -/
structure Draft where
  /-- the name -/
  name : Option String := none
  /-- the extended attributes -/
  attributes : Option (List String) := none

/-- Read one field of an interface. -/
def Draft.field (d : Draft) (key : String) (v : Json.Value) : Except Json.Fault Draft :=
  match key with
  | "name" => do
    let name ← Json.Value.once d.name v.asString
    .ok { d with name }
  | "extAttrs" => do
    let attributes ← Json.Value.once d.attributes (v.items nameOfJson)
    .ok { d with attributes }
  | _ => Json.Value.skip d v

/-- The interface of a draft. The extended attributes may be left out. -/
def Draft.finish (d : Draft) : Except Json.Fault Interface := do
  let name ← Json.Value.required d.name
  .ok { name, attributes := d.attributes.getD [] }

/-- An interface in a document. -/
def ofJson (v : Json.Value) : Except Json.Fault Interface := do
  let d ← v.record ["name", "extAttrs"] ({} : Draft) Draft.field
  d.finish

end Interface

/-! ## Documents -/

/-- The raw default that a text holds. -/
def RawDefault.ofText (text : String) : Except Json.Fault RawDefault :=
  (Json.read text).decode (RawDefault.ofJson maxDepth)

/-- The default value that a text holds. -/
def Default.ofText (text : String) : Except Json.Fault Default :=
  (Json.read text).decode (Default.ofJson maxDepth)

/-- The constant that a text holds. -/
def Constant.ofText (text : String) : Except Json.Fault Constant :=
  (Json.read text).decode Constant.ofJson

/-- The enumeration that a text holds. -/
def Enumeration.ofText (text : String) : Except Json.Fault Enumeration :=
  (Json.read text).decode Enumeration.ofJson

/-- The mixin that a text holds. -/
def Mixin.ofText (text : String) : Except Json.Fault Mixin :=
  (Json.read text).decode Mixin.ofJson

/-- The interface that a text holds. -/
def Interface.ofText (text : String) : Except Json.Fault Interface :=
  (Json.read text).decode Interface.ofJson

end IdlBinding
