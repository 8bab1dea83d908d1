/-!
# Values of a settings document

The values of the settings format, and the table under construction while a document is read.

A table remembers how it came about, because that decides what may still be added to it: a table
made by a dotted key takes further dotted keys and no header, a table that was only passed through
by a header takes a header of its own once, and a table with a header takes no second one.
-/

namespace IdlBinding.Toml

/-- A value of a document. -/
inductive Value where
  /-- a string -/
  | string (text : String)
  /-- an integer -/
  | integer (value : Int)
  /-- a floating-point number, by its literal -/
  | float (literal : String)
  /-- a truth value -/
  | boolean (value : Bool)
  /-- a date, a time or both, by its literal -/
  | dateTime (literal : String)
  /-- an array -/
  | array (items : List Value)
  /-- a table, in the order of its keys' first mention -/
  | table (entries : List (String × Value))
  deriving Repr

namespace Value

mutual

/-- Decide whether two values are the same. -/
def same : Value → Value → Bool
  | .string a, .string b | .float a, .float b | .dateTime a, .dateTime b => a == b
  | .integer a, .integer b => a == b
  | .boolean a, .boolean b => a == b
  | .array a, .array b => sameItems a b
  | .table a, .table b => sameEntries a b
  | _, _ => false

/-- Decide whether the items of two arrays are the same. -/
def sameItems : List Value → List Value → Bool
  | [], [] => true
  | a :: as, b :: bs => same a b && sameItems as bs
  | _, _ => false

/-- Decide whether the entries of two tables are the same. -/
def sameEntries : List (String × Value) → List (String × Value) → Bool
  | [], [] => true
  | (key, a) :: as, (key', b) :: bs => key == key' && same a b && sameEntries as bs
  | _, _ => false

end

mutual

theorem same_iff : ∀ a b : Value, same a b = true ↔ a = b
  | .array a, b => by cases b <;> simp [same, sameItems_iff a]
  | .table a, b => by cases b <;> simp [same, sameEntries_iff a]
  | .string _, b | .float _, b | .dateTime _, b | .integer _, b | .boolean _, b => by
    cases b <;> simp [same]

theorem sameItems_iff : ∀ as bs : List Value, sameItems as bs = true ↔ as = bs
  | [], bs => by cases bs <;> simp [sameItems]
  | a :: as, bs => by cases bs <;> simp [sameItems, same_iff a, sameItems_iff as]

theorem sameEntries_iff : ∀ as bs : List (String × Value), sameEntries as bs = true ↔ as = bs
  | [], bs => by cases bs <;> simp [sameEntries]
  | (key, a) :: as, bs => by
    cases bs <;> simp [sameEntries, same_iff a, sameEntries_iff as, Prod.ext_iff]

end

instance : DecidableEq Value := fun a b => decidable_of_iff _ (same_iff a b)

end Value

/-- How a table came about. -/
inductive Origin where
  /-- passed through by the header of a table inside it -/
  | passed
  /-- by its own header -/
  | header
  /-- by a dotted key -/
  | dotted
  deriving DecidableEq, Repr

/-- An entry of a table under construction. -/
inductive Node where
  /-- a value that takes no additions -/
  | leaf (value : Value)
  /-- a table -/
  | table (origin : Origin) (entries : List (String × Node))
  /-- an array of tables, oldest first -/
  | tables (elements : List (List (String × Node)))
  deriving Repr

/-- The entries of a table under construction. -/
abbrev Entries := List (String × Node)

namespace Node

mutual

/-- The value of an entry. -/
def toValue : Node → Value
  | .leaf value => value
  | .table _ entries => .table (entriesToValues entries)
  | .tables elements => .array (elementsToValues elements)

/-- The values of a table. -/
def entriesToValues : List (String × Node) → List (String × Value)
  | [] => []
  | (key, node) :: rest => (key, toValue node) :: entriesToValues rest

/-- The values of an array of tables. -/
def elementsToValues : List (List (String × Node)) → List Value
  | [] => []
  | entries :: rest => .table (entriesToValues entries) :: elementsToValues rest

end

end Node

namespace Entries

/-- Replace the entry of a key. -/
def replace (entries : Entries) (key : String) (node : Node) : Entries :=
  entries.map fun entry => if entry.1 = key then (key, node) else entry

/-- Give a dotted key its value. Tables on the way are made, or were made by dotted keys. -/
def assign (value : Value) : List String → Entries → Option Entries
  | [], _ => none
  | [key], entries =>
    match entries.lookup key with
    | none => some (entries ++ [(key, .leaf value)])
    | some _ => none
  | key :: path, entries =>
    match entries.lookup key with
    | none => do
      let inner ← assign value path []
      some (entries ++ [(key, .table .dotted inner)])
    | some (.table .dotted inner) => do
      let inner ← assign value path inner
      some (replace entries key (.table .dotted inner))
    | some _ => none

/-- Change the last element of a list. -/
def updateLast {α : Type} (f : α → Option α) : List α → Option (List α)
  | [] => none
  | [a] => do
    let a ← f a
    some [a]
  | a :: as => do
    let as ← updateLast f as
    some (a :: as)

/-- Change the table under a key; of an array of tables, the last one. -/
def updateTable (key : String) (f : Entries → Option Entries) (entries : Entries) :
    Option Entries :=
  match entries.lookup key with
  | some (.table origin inner) => do
    let inner ← f inner
    some (replace entries key (.table origin inner))
  | some (.tables elements) => do
    let elements ← updateLast f elements
    some (replace entries key (.tables elements))
  | _ => none

/-- Give a dotted key its value in the table of a header. -/
def assignUnder (header path : List String) (value : Value) (entries : Entries) :
    Option Entries :=
  match header with
  | [] => assign value path entries
  | key :: header => updateTable key (assignUnder header path value) entries

/-- Open the table of a header. -/
def openTable : List String → Entries → Option Entries
  | [], _ => none
  | [key], entries =>
    match entries.lookup key with
    | none => some (entries ++ [(key, .table .header [])])
    | some (.table .passed inner) => some (replace entries key (.table .header inner))
    | some _ => none
  | key :: path, entries =>
    match entries.lookup key with
    | none => do
      let inner ← openTable path []
      some (entries ++ [(key, .table .passed inner)])
    | some _ => updateTable key (openTable path) entries

/-- Open a new element of the array of tables of a header. -/
def openElement : List String → Entries → Option Entries
  | [], _ => none
  | [key], entries =>
    match entries.lookup key with
    | none => some (entries ++ [(key, .tables [[]])])
    | some (.tables elements) => some (replace entries key (.tables (elements ++ [[]])))
    | some _ => none
  | key :: path, entries =>
    match entries.lookup key with
    | none => do
      let inner ← openElement path []
      some (entries ++ [(key, .table .passed inner)])
    | some _ => updateTable key (openElement path) entries

end Entries

end IdlBinding.Toml
