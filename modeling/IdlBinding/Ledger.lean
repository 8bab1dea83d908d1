import IdlBinding.Event
import IdlBinding.Specifier

/-!
# The ledger of a module

A ledger holds what a module imports and declares: two lists in the order of entry, each of which
binds a name once. Entering a binding again does nothing, entering a different one for the same
name is a clash and leaves the ledger as it was.

* `importAs`, `importModule`, `importRelative`, `declare` — enter one binding;
* `merge` — enter all bindings of another ledger, declarations first; a clash ends the merge and
  keeps what was copied before it;
* `agrees` — the same bindings, in whatever order;
* `preamble` — the text of the statements;
* `Call` — the operations as data, so that whole runs can be spoken of.

An operation gives an `Outcome`: its result, the ledger after it, and the events on the way.
-/

namespace IdlBinding

/-- Names and what each is bound to, in the order of entry. -/
abbrev Bindings := List (String × String)

/-- Every binding of `a` is one of `b`, and there are as many. -/
def Bindings.agrees (a b : Bindings) : Bool :=
  a.length == b.length && a.all fun entry => b.lookup entry.1 == some entry.2

/-- The imports and declarations of a module. -/
structure Ledger where
  /-- what relative specifiers end with -/
  extension : String
  /-- identifiers and the specifiers they are imported from -/
  imports : Bindings
  /-- names and their initializers -/
  declarations : Bindings
  deriving DecidableEq, Repr

/-- What an operation on a ledger gives. -/
structure Outcome (α : Type) where
  /-- the value or the error -/
  result : Except Error α
  /-- the ledger afterwards -/
  ledger : Ledger
  /-- what happened, in order -/
  events : List Event

namespace Ledger

/-- A ledger without bindings. -/
def empty (extension : String) : Ledger := ⟨extension, [], []⟩

/-- The ledger has no bindings. -/
def isEmpty (l : Ledger) : Bool := l.imports.isEmpty && l.declarations.isEmpty

/-! ## Entering bindings -/

/-- Import a module under a name. A relative specifier is completed first. -/
def importAs (l : Ledger) (specifier identifier : String) : Outcome String :=
  let completed := Specifier.complete l.extension specifier
  match l.imports.lookup identifier with
  | some existing =>
    if existing = completed then ⟨.ok identifier, l, []⟩
    else ⟨.error (.importClash identifier existing completed), l, []⟩
  | none =>
    ⟨.ok identifier, { l with imports := l.imports ++ [(identifier, completed)] },
      [.importRegistered identifier completed]⟩

/-- Import a module under the name derived from its specifier. -/
def importModule (l : Ledger) (specifier : String) : Outcome String :=
  l.importAs specifier (Specifier.identifier specifier)

/-- Import a sibling of the present module. -/
def importRelative (l : Ledger) (module : String) : Outcome String :=
  l.importModule ("./" ++ module)

/-- Declare a name with its initializer. -/
def declare (l : Ledger) (key expression : String) : Outcome Unit :=
  match l.declarations.lookup key with
  | some existing =>
    if existing = expression then ⟨.ok (), l, []⟩
    else ⟨.error (.declarationClash key existing expression), l, []⟩
  | none =>
    ⟨.ok (), { l with declarations := l.declarations ++ [(key, expression)] },
      [.declarationRegistered key expression]⟩

/-! ## Merging -/

/-- Declare names one after another, up to the first clash. -/
def declareAll (l : Ledger) : Bindings → Outcome Unit
  | [] => ⟨.ok (), l, []⟩
  | (key, expression) :: rest =>
    let first := l.declare key expression
    match first.result with
    | .error e => ⟨.error e, first.ledger, first.events⟩
    | .ok _ =>
      let others := first.ledger.declareAll rest
      { others with events := first.events ++ others.events }

/-- Import modules under given names one after another, up to the first clash. -/
def importAll (l : Ledger) : Bindings → Outcome Unit
  | [] => ⟨.ok (), l, []⟩
  | (identifier, specifier) :: rest =>
    let first := l.importAs specifier identifier
    match first.result with
    | .error e => ⟨.error e, first.ledger, first.events⟩
    | .ok _ =>
      let others := first.ledger.importAll rest
      { others with events := first.events ++ others.events }

/-- Enter all bindings of another ledger: its declarations, then its imports. -/
def merge (l other : Ledger) : Outcome Unit :=
  let start := Event.merging other.imports.length other.declarations.length
  let declared := l.declareAll other.declarations
  match declared.result with
  | .error e => ⟨.error e, declared.ledger, start :: declared.events⟩
  | .ok _ =>
    let imported := declared.ledger.importAll other.imports
    { imported with events := start :: (declared.events ++ imported.events) }

/-- Merge a ledger if there is one. -/
def mergeOption (l : Ledger) : Option Ledger → Outcome Unit
  | none => ⟨.ok (), l, []⟩
  | some other => l.merge other

/-! ## Looking at a ledger -/

/-- What an identifier is imported from. -/
def import? (l : Ledger) (identifier : String) : Option String := l.imports.lookup identifier

/-- The initializer of a declared name. -/
def declaration? (l : Ledger) (key : String) : Option String := l.declarations.lookup key

/-- Two ledgers with the same extension and the same bindings, in whatever order. -/
def agrees (a b : Ledger) : Bool :=
  a.extension == b.extension && a.imports.agrees b.imports
    && a.declarations.agrees b.declarations

/-- The statement of an import. -/
def importLine (identifier specifier : String) : String :=
  "import " ++ identifier ++ " from \"" ++ specifier ++ "\";\n"

/-- The statement of a declaration. -/
def declarationLine (key expression : String) : String :=
  "const " ++ key ++ " = " ++ expression ++ ";\n"

/-- The statements at the head of a module: imports, then declarations, and an empty line between
them if there are both. -/
def preamble (l : Ledger) : String :=
  String.join (l.imports.map fun entry => importLine entry.1 entry.2)
    ++ (if l.imports.isEmpty || l.declarations.isEmpty then "" else "\n")
    ++ String.join (l.declarations.map fun entry => declarationLine entry.1 entry.2)

end Ledger

/-! ## Operations as data -/

/-- One operation that enters bindings. -/
inductive Call where
  /-- import a module under the name derived from its specifier -/
  | importModule (specifier : String)
  /-- import a module under a given name -/
  | importAs (specifier identifier : String)
  /-- import a sibling module -/
  | importRelative (module : String)
  /-- declare a name -/
  | declare (key expression : String)
  /-- merge another ledger, or none -/
  | merge (other : Option Ledger)

namespace Call

/-- Perform a call. The result is the identifier that an import is bound to. -/
def perform (l : Ledger) : Call → Outcome (Option String)
  | .importModule specifier => lift some (l.importModule specifier)
  | .importAs specifier identifier => lift some (l.importAs specifier identifier)
  | .importRelative module => lift some (l.importRelative module)
  | .declare key expression => lift (fun _ => none) (l.declare key expression)
  | .merge other => lift (fun _ => none) (l.mergeOption other)
where
  /-- Apply a function to the value of an outcome. -/
  lift {α : Type} (f : α → Option String) (o : Outcome α) : Outcome (Option String) :=
    { o with result := o.result.map f }

/-- The ledger after a run of calls, and all events of the run. Calls that fail do not end it. -/
def run (l : Ledger) : List Call → Ledger × List Event
  | [] => (l, [])
  | call :: calls =>
    let first := call.perform l
    let (last, events) := run first.ledger calls
    (last, first.events ++ events)

end Call

end IdlBinding
