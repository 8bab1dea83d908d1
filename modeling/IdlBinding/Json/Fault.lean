import IdlBinding.Digits

/-!
# Faults

Why a document is refused. The form of a document is a matter of its reader alone. What the reader
is asked to make of a value is not: it may be refused with a message, which the reader reports.

A report has a place for a position in the text. The reader takes a message that ends in one, such
as `at line 2 column 7`, to be a message about that position, and cuts it off. When the report is
shown, the position comes back, but a position in line zero stands for none.

* `splitPosition?` — cut a position off the end of a text;
* `Report.ofMessage` — the report of a message;
* `Report.text` — what is shown of a report.
-/

namespace IdlBinding.Json

/-! ## Positions -/

/-- The rest of a text, if it begins with a word. -/
def dropWord? : List Char → List Char → Option (List Char)
  | [], cs => some cs
  | _ :: _, [] => none
  | w :: word, c :: cs => if w = c then dropWord? word cs else none

/-- The number of 64 bits in the digits at the end of a text, and what stands before them. The text
is given backwards, and so is the rest. -/
def readNumberBack (cs : List Char) : Option (Nat × List Char) :=
  match (Digits.span 10 cs).1.reverse with
  | [] => none
  | ds =>
    if Digits.toNat 10 ds < Nat.pow 2 64 then some (Digits.toNat 10 ds, (Digits.span 10 cs).2)
    else none

/-- What stands before the position at the end of a text, its line and its column. -/
def splitPosition? (cs : List Char) : Option (List Char × Nat × Nat) := do
  let (column, cs) ← readNumberBack cs.reverse
  let cs ← dropWord? " column ".toList.reverse cs
  let (line, cs) ← readNumberBack cs
  let cs ← dropWord? " at line ".toList.reverse cs
  some (cs.reverse, line, column)

/-- How a position is written. -/
def positionText (line column : Nat) : String :=
  " at line " ++ toString line ++ " column " ++ toString column

/-! ## Reports -/

/-- The report of a message. -/
structure Report where
  /-- the message without its position -/
  message : String
  /-- the line, or zero -/
  line : Nat := 0
  /-- the column, or zero -/
  column : Nat := 0
  deriving DecidableEq, Repr

namespace Report

/-- Report a message. -/
def ofMessage (message : String) : Report :=
  match splitPosition? message.toList with
  | some (front, line, column) => ⟨String.ofList front, line, column⟩
  | none => { message }

/-- The text of a report. -/
def text (r : Report) : String :=
  if r.line = 0 then r.message else r.message ++ positionText r.line r.column

end Report

/-- Why a document is refused. Where a value is part of a document, the reader adds its own position
to a report that has none. Such positions are left out here. -/
inductive Fault where
  /-- the text is not well formed or not of the right form -/
  | form
  /-- a value is refused -/
  | refused (report : Report)
  deriving DecidableEq, Repr

end IdlBinding.Json
