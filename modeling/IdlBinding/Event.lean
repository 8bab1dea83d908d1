import IdlBinding.PropertyKey
import IdlBinding.Unprintable

/-!
# Events

What the generators report while they work. An event is a value of its own; level, message and
fields are its rendering.
-/

namespace IdlBinding

/-- The object that a property is attached to. -/
inductive Place where
  /-- the interface object itself -/
  | static
  /-- the interface prototype object -/
  | prototype
  /-- each instance, when its wrapper is made -/
  | perInstance
  deriving DecidableEq, Repr

/-- The name of a place in events. -/
def Place.label : Place → String
  | .static => "Static"
  | .prototype => "Prototype"
  | .perInstance => "Instance"

/-- Something that happened during generation. -/
inductive Event where
  /-- an import was entered in a ledger -/
  | importRegistered (identifier specifier : String)
  /-- a declaration was entered in a ledger -/
  | declarationRegistered (key expression : String)
  /-- a ledger with that many imports and declarations is about to be copied -/
  | merging (imports declarations : Nat)
  /-- an enumeration with that many values is about to be written -/
  | enumerationStarted (name : String) (values : Nat)
  /-- an enumeration was written -/
  | enumerationFinished (name : String)
  /-- a constant is about to be installed -/
  | constantStarted (name : String)
  /-- a constant was installed, its second copy at `place` -/
  | constantFinished (name : String) (place : Place)
  /-- a property was added to an interface -/
  | propertyAdded (interface : String) (place : Place) (key : PropertyKey) (value : String)
  deriving DecidableEq, Repr

namespace Event

/-- How much an event matters. -/
inductive Level where
  /-- a step of a generator -/
  | debug
  /-- a single entry -/
  | trace
  deriving DecidableEq, Repr

/-- The name of a level. -/
def Level.label : Level → String
  | .debug => "DEBUG"
  | .trace => "TRACE"

/-- The level of an event. -/
def level : Event → Level
  | .importRegistered _ _ | .declarationRegistered _ _ | .merging _ _
  | .propertyAdded _ _ _ _ => .trace
  | .enumerationStarted _ _ | .enumerationFinished _ | .constantStarted _
  | .constantFinished _ _ => .debug

/-- The message of an event. -/
def message : Event → String
  | .importRegistered _ _ => "registering import"
  | .declarationRegistered _ _ => "registering declaration"
  | .merging _ _ => "merging registry"
  | .enumerationStarted _ _ => "generating enumeration"
  | .enumerationFinished _ => "enumeration generated"
  | .constantStarted _ => "generating constant"
  | .constantFinished _ _ => "constant installed"
  | .propertyAdded _ _ _ _ => "adding property"

/-- The hexadecimal digits of a number, without leading zeros. -/
def hexText (n : Nat) : List Char := Nat.toDigits 16 n

/-- A character of a key inside an event: quotes, backslashes and what would not be seen are
escaped. -/
def escapeKeyChar (c : Char) : List Char :=
  if c = '"' then ['\\', '"']
  else if c = '\\' then ['\\', '\\']
  else if c = '\t' then ['\\', 't']
  else if c = '\n' then ['\\', 'n']
  else if c = '\r' then ['\\', 'r']
  else if c = '\x00' then ['\\', '0']
  else if isExtending c || isUnprintable c then
    '\\' :: 'u' :: '\x7b' :: (hexText c.toNat ++ ['\x7d'])
  else [c]

/-- A text of a key inside an event. -/
def keyText (s : String) : String :=
  "\"" ++ String.ofList (s.toList.flatMap escapeKeyChar) ++ "\""

/-- A key inside an event. -/
def keyLabel : PropertyKey → String
  | .text name => "Text(" ++ keyText name ++ ")"
  | .symbol description => "Symbol(" ++ keyText description ++ ")"

/-- The fields of an event, in order. -/
def fields : Event → List (String × String)
  | .importRegistered identifier specifier =>
    [("identifier", identifier), ("specifier", specifier)]
  | .declarationRegistered key expression => [("key", key), ("expr", expression)]
  | .merging imports declarations =>
    [("imports", toString imports), ("declarations", toString declarations)]
  | .enumerationStarted name values => [("enumeration", name), ("values", toString values)]
  | .enumerationFinished name => [("enumeration", name), ("kind", "enum")]
  | .constantStarted name => [("constant", name)]
  | .constantFinished name place =>
    [("constant", name), ("kind", "const"), ("whence", place.label)]
  | .propertyAdded interface place key value =>
    [("interface", interface), ("whence", place.label), ("key", keyLabel key), ("value", value)]

end Event

end IdlBinding
