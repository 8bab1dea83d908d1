import IdlBinding.Error
import IdlBinding.Layout
import IdlBinding.Ledger
import IdlBinding.Toml.Document

/-!
# Settings

What the generators can be told: the extension of relative imports and the width of an
indentation step. Settings are given as a document, either at its top or under the one key
`codegen`; there they may also be an array of the two settings in order. Keys that are not
settings are refused in every form.
-/

namespace IdlBinding

/-- The settings of a generation. -/
structure Settings where
  /-- what relative specifiers end with -/
  extension : String := ".js"
  /-- the width of an indentation step -/
  indentWidth : Nat := 2
  deriving DecidableEq, Repr

namespace Settings

/-- The indentation step. -/
def indent (s : Settings) : Indent := ⟨s.indentWidth⟩

/-- The empty ledger of a generation. -/
def ledger (s : Settings) : Ledger := .empty s.extension

/-- Set the extension, which is a string. -/
def withExtension (s : Settings) : Toml.Value → Option Settings
  | .string text => some { s with extension := text }
  | _ => none

/-- Set the width, which is an integer of one byte. -/
def withIndent (s : Settings) : Toml.Value → Option Settings
  | .integer n => if 0 ≤ n && n ≤ 255 then some { s with indentWidth := n.toNat } else none
  | _ => none

/-- Set one setting by its key. -/
def withEntry (s : Settings) (entry : String × Toml.Value) : Option Settings :=
  match entry.1 with
  | "source_extension" => s.withExtension entry.2
  | "indent" => s.withIndent entry.2
  | _ => none

/-- The settings of a table. -/
def ofEntries (entries : List (String × Toml.Value)) : Option Settings :=
  entries.foldlM withEntry {}

/-- The settings under a key of their own: a table, or an array of at most two values. -/
def ofValue : Toml.Value → Option Settings
  | .table entries => ofEntries entries
  | .array [] => some {}
  | .array [extension] => ({} : Settings).withExtension extension
  | .array [extension, width] => do
    let s ← ({} : Settings).withExtension extension
    s.withIndent width
  | _ => none

/-- The settings under the one key `codegen` of a table. -/
def nested? : List (String × Toml.Value) → Option Settings
  | [("codegen", value)] => ofValue value
  | _ => none

/-- The settings of a document's table: the nested form is tried first, and then the other one. -/
def ofTable (table : List (String × Toml.Value)) : Option Settings :=
  (nested? table).or (ofEntries table)

/-- The settings of a document. -/
def ofToml (text : String) : Except Error Settings :=
  match (Toml.read? text).bind ofTable with
  | some s => .ok s
  | none => .error .invalidSettings

end Settings

end IdlBinding
