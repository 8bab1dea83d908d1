/-!
# Property shapes

The three attributes of a property, and the smallest descriptor literal that turns one shape into
another. Definitions in emitted code leave out the attributes that the script language takes for
false, so a patch against `Shape.sealed` names exactly the attributes that are true.
-/

namespace IdlBinding

/-- The attributes of a property. -/
structure Shape where
  /-- the property may be redefined -/
  configurable : Bool
  /-- the property is listed -/
  enumerable : Bool
  /-- the property may be assigned -/
  writable : Bool
  deriving DecidableEq, Repr

/-- Some of the attributes of a property; the others stay as they are. -/
structure Overrides where
  /-- redefinition, if set -/
  configurable : Option Bool := none
  /-- listing, if set -/
  enumerable : Option Bool := none
  /-- assignment, if set -/
  writable : Option Bool := none
  deriving DecidableEq, Repr

/-- What a property holds. -/
inductive PropertyKind where
  /-- a value -/
  | data
  /-- a pair of accessors, which has no `writable` attribute -/
  | accessor
  deriving DecidableEq, Repr

namespace Shape

/-- The shape of a property that was made by assignment. -/
def assigned : Shape := ⟨true, true, true⟩

/-- The shape that a definition takes for attributes it does not name. -/
def sealed : Shape := ⟨false, false, false⟩

/-- Replace the attributes that are set. -/
def override (s : Shape) (o : Overrides) : Shape where
  configurable := o.configurable.getD s.configurable
  enumerable := o.enumerable.getD s.enumerable
  writable := o.writable.getD s.writable

/-- One field of a descriptor literal, present if the attribute changes. -/
def change (name : String) (current target : Bool) : List String :=
  if current = target then [] else [name ++ ": " ++ toString target]

/-- The fields of a patch: the value, then the attributes that differ. -/
def changes (current target : Shape) (kind : PropertyKind) (value : Option String) :
    List String :=
  (value.map ("value: " ++ ·)).toList
    ++ change "configurable" current.configurable target.configurable
    ++ change "enumerable" current.enumerable target.enumerable
    ++ if kind = .data then change "writable" current.writable target.writable else []

/-- The descriptor literal that moves a property from one shape to another, if there is anything
to say. -/
def patch (current target : Shape) (kind : PropertyKind) (value : Option String) :
    Option String :=
  match changes current target kind value with
  | [] => none
  | fields => some ("\x7b " ++ ", ".intercalate fields ++ " \x7d")

end Shape

end IdlBinding
