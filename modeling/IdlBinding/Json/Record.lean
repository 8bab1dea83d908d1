import IdlBinding.Json.Fault
import IdlBinding.Json.Value

/-!
# Reading records

How descriptions are read off a data tree.

A record is an object with named fields or an array of its fields in their order. Members are
read in the order of the text, so the first fault in the text is the one that is found. A member
with another name is skipped, which only asks that it is well formed.

* `record` — a record, given its field names and what one field adds;
* `once` — a field that may not come twice.
-/

namespace IdlBinding.Json

namespace Value

/-- A string with a text. -/
def asString : Value → Except Fault String
  | .string (some text) => .ok text
  | _ => .error .form

/-- A member of a record: its key has to have a text. -/
def memberOf {σ : Type} (field : σ → String → Value → Except Fault σ) (s : σ)
    (member : Option String × Value) : Except Fault σ :=
  match member with
  | (some key, v) => field s key v
  | (none, _) => .error .form

/-- Read a record. `field` adds one field to what was read before it. -/
def record {σ : Type} (names : List String) (start : σ)
    (field : σ → String → Value → Except Fault σ) : Value → Except Fault σ
  | .object members closed => do
    let s ← members.foldlM (memberOf field) start
    if closed then .ok s else .error .form
  | .array items closed => do
    let s ← (names.zip items).foldlM (fun s entry => field s entry.1 entry.2) start
    if closed && items.length ≤ names.length then .ok s else .error .form
  | _ => .error .form

/-- Read a field that may not have been read before. -/
def once {α : Type} (before : Option α) (read : Except Fault α) : Except Fault (Option α) :=
  if before.isSome then .error .form else read.map some

/-- A field that has to be there. -/
def required {α : Type} (field : Option α) : Except Fault α :=
  match field with
  | some a => .ok a
  | none => .error .form

/-- Skip a member that is not a field. -/
def skip {σ : Type} (s : σ) (v : Value) : Except Fault σ :=
  if v.wellFormed then .ok s else .error .form

/-- Read all items of an array. -/
def items {α : Type} (read : Value → Except Fault α) : Value → Except Fault (List α)
  | .array vs closed => do
    let as ← vs.mapM read
    if closed then .ok as else .error .form
  | _ => .error .form

end Value

/-- Read a document: its value, and then nothing but blanks. -/
def Document.decode {α : Type} (read : Value → Except Fault α) (d : Document) : Except Fault α := do
  let a ← read d.root
  if d.complete then .ok a else .error .form

end IdlBinding.Json
