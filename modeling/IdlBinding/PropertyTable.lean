import IdlBinding.Descriptor
import IdlBinding.Settings
import IdlBinding.Shape
import IdlBinding.Statement

/-!
# The properties of an interface

Generators do not write definitions themselves. They add properties to the table of their
interface, one list for each place, and the table is rendered when all are there.

* `add` — a key that is new goes to the end of its list, a key that is there keeps its position
  and takes the new value and shape;
* `definition` — the statement for one place;
* `render` — the statements of all places that have properties;
* `Constant.install` — a constant, which is added twice.
-/

namespace IdlBinding

/-- A property of an interface. -/
structure Property where
  /-- the expression of its value -/
  value : String
  /-- its attributes -/
  shape : Shape
  deriving DecidableEq, Repr

/-- Properties by key, in the order of their first entry. -/
abbrev Properties := List (PropertyKey × Property)

/-- Enter a property: in its old position if the key is there, else at the end. -/
def Properties.insert (key : PropertyKey) (p : Property) : Properties → Properties
  | [] => [(key, p)]
  | entry :: rest => if entry.1 = key then (key, p) :: rest else entry :: insert key p rest

/-- The properties of an interface. -/
structure PropertyTable where
  /-- the name of the interface -/
  name : String
  /-- the interface is a global object -/
  isGlobal : Bool
  /-- the indentation of rendered definitions -/
  indent : Indent
  /-- on the interface object -/
  static : Properties := []
  /-- on the prototype object -/
  prototype : Properties := []
  /-- on each instance -/
  perInstance : Properties := []
  deriving DecidableEq, Repr

/-- A member with the modifier is set up on each instance: only members of global objects are, and
not their static ones. -/
def Modifier.isOnInstance (m : Modifier) (isGlobal : Bool) : Bool := m != .static && isGlobal

namespace PropertyTable

/-- A table without properties. -/
def new (s : Settings) (name : String) (isGlobal : Bool) : PropertyTable :=
  { name, isGlobal, indent := s.indent }

/-- The table of a declared interface. -/
def ofInterface (s : Settings) (i : Interface) : PropertyTable := new s i.name i.isGlobal

/-! ## Places -/

/-- The properties at a place. -/
def properties (t : PropertyTable) : Place → Properties
  | .static => t.static
  | .prototype => t.prototype
  | .perInstance => t.perInstance

/-- Change the properties at a place. -/
def modify (t : PropertyTable) (place : Place) (f : Properties → Properties) : PropertyTable :=
  match place with
  | .static => { t with static := f t.static }
  | .prototype => { t with prototype := f t.prototype }
  | .perInstance => { t with perInstance := f t.perInstance }

/-- Where members go that are not static. -/
def defaultPlace (t : PropertyTable) : Place := if t.isGlobal then .perInstance else .prototype

/-- Where a member with a modifier goes. -/
def placeFor (t : PropertyTable) (m : Modifier) : Place :=
  if m = .static then .static
  else if m.isOnInstance t.isGlobal then .perInstance
  else .prototype

/-! ## Entering properties -/

/-- The shape of a property before overrides: a symbol is not listed. -/
def baseShape (key : PropertyKey) : Shape := { Shape.assigned with enumerable := !key.isSymbol }

/-- Add a property at a place. -/
def add (t : PropertyTable) (place : Place) (key : PropertyKey) (value : String)
    (overrides : Overrides) : PropertyTable :=
  t.modify place (Properties.insert key ⟨value, (baseShape key).override overrides⟩)

/-- What adding a property reports. -/
def addEvent (t : PropertyTable) (place : Place) (key : PropertyKey) (value : String) : Event :=
  .propertyAdded t.name place key value

/-- The number of properties at a place. -/
def size (t : PropertyTable) (place : Place) : Nat := (t.properties place).length

/-- The property of a key at a place. -/
def get? (t : PropertyTable) (place : Place) (key : PropertyKey) : Option Property :=
  (t.properties place).lookup key

/-! ## Rendering -/

/-- The object that the properties of a place are defined on. -/
def target (t : PropertyTable) : Place → String
  | .static => t.name
  | .prototype => t.name ++ ".prototype"
  | .perInstance => "wrapper"

/-- The access expression and the descriptor of a property. The descriptor has a value, so it is
never empty. -/
def definitionEntry (entry : PropertyKey × Property) : Except Error (String × String) := do
  let access ← entry.1.access
  .ok (access, (Shape.sealed.patch entry.2.shape .data (some entry.2.value)).getD "")

/-- The definitions of a place, up to the first key that cannot be referred to. -/
def definitionEntries (t : PropertyTable) (place : Place) : Except Error (List (String × String)) :=
  (t.properties place).mapM definitionEntry

/-- The statement that defines the properties of a place. -/
def definition (t : PropertyTable) (place : Place) : Except Error Statement := do
  let entries ← t.definitionEntries place
  .ok (.define (t.target place) entries)

/-- The places in the order of their statements. -/
def places : List Place := [.static, .prototype, .perInstance]

/-- The statements of all places, one after another. Places without properties have none. -/
def render (t : PropertyTable) : Except Error String := do
  let statements ← places.mapM t.definition
  .ok (Fragment.render t.indent (statements.flatMap Statement.fragments))

end PropertyTable

/-! ## Constants -/

/-- What installing a constant gives. -/
structure Installed where
  /-- the table with the constant -/
  table : PropertyTable
  /-- what the constant needs: nothing -/
  ledger : Ledger
  /-- what happened -/
  events : List Event

namespace Constant

/-- Constants can be listed, but neither redefined nor assigned. -/
def overrides : Overrides := { configurable := some false, writable := some false }

/-- The key of a constant. -/
def key (c : Constant) : PropertyKey := .text c.name

/-- Install a constant on the interface object and where its members go. -/
def install (s : Settings) (c : Constant) (t : PropertyTable) : Installed :=
  let value := c.value.literal
  let place := t.placeFor c.special
  { table := (t.add .static c.key value overrides).add place c.key value overrides
    ledger := s.ledger
    events :=
      [.constantStarted c.name, t.addEvent .static c.key value, t.addEvent place c.key value,
        .constantFinished c.name place] }

end Constant

end IdlBinding
