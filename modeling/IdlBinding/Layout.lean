/-!
# Layout of emitted code

Code is text in lines, each behind a number of indentation steps.

* `Indent` — the width of one step, of which at most eight spaces are written;
* `Fragment` — a piece of code, a line or a block with a body one step deeper;
* `Writer` — the text so far and the present level, with the operations that extend it;
* `Op` — the operations as data, so that whole runs of a writer can be spoken of.
-/

namespace IdlBinding

/-! ## Indentation -/

/-- The width of one indentation step, in spaces. -/
structure Indent where
  /-- the requested width -/
  width : Nat
  deriving DecidableEq, Repr

namespace Indent

/-- The step of emitted script code. -/
def script : Indent := ⟨2⟩

/-- The text of one step: at most eight spaces. -/
def text (i : Indent) : String := String.ofList (List.replicate (min i.width 8) ' ')

/-- The text of `level` steps. -/
def margin (i : Indent) (level : Nat) : String := String.join (List.replicate level i.text)

end Indent

/-! ## Fragments -/

/-- A piece of emitted code. -/
inductive Fragment where
  /-- one line -/
  | line (text : String)
  /-- a header, a body one step deeper and perhaps a closing line -/
  | block (header : String) (body : List Fragment) (close : Option String)
  deriving Repr

/-! ## Writing -/

/-- Code under construction. -/
structure Writer where
  /-- the width of a step -/
  indent : Indent
  /-- the number of steps before the next line -/
  level : Nat
  /-- the text so far -/
  text : String
  deriving DecidableEq, Repr

namespace Writer

/-- A writer with no text, at the left margin. -/
def new (indent : Indent) : Writer := ⟨indent, 0, ""⟩

/-- Add a line at the present level. -/
def line (w : Writer) (s : String) : Writer :=
  { w with text := w.text ++ (w.indent.margin w.level ++ s ++ "\n") }

/-- Add an empty line, without indentation. -/
def blank (w : Writer) : Writer := { w with text := w.text ++ "\n" }

/-- Go one step deeper. -/
def deeper (w : Writer) : Writer := { w with level := w.level + 1 }

/-- Go one step back; at the left margin nothing happens. -/
def shallower (w : Writer) : Writer := { w with level := w.level - 1 }

/-- Add a closing line, if there is one. -/
def lineIfSome (w : Writer) : Option String → Writer
  | none => w
  | some s => w.line s

mutual

/-- Write one fragment. -/
def emitOne (w : Writer) : Fragment → Writer
  | .line s => w.line s
  | .block header body close =>
    ((emit (w.line header).deeper body).shallower).lineIfSome close

/-- Write fragments one after another. -/
def emit (w : Writer) : List Fragment → Writer
  | [] => w
  | f :: fs => emit (emitOne w f) fs

end

/-- Write a header, what `body` writes one step deeper, and a closing line. -/
def blockWithClose (w : Writer) (header close : String) (body : Writer → Writer) : Writer :=
  ((body (w.line header).deeper).shallower).line close

end Writer

/-- Write fragments from the left margin. -/
def Fragment.render (indent : Indent) (fragments : List Fragment) : String :=
  ((Writer.new indent).emit fragments).text

/-! ## Operations as data -/

/-- One operation on a writer. -/
inductive Op where
  /-- add a line -/
  | line (text : String)
  /-- add an empty line -/
  | blank
  /-- go one step deeper -/
  | deeper
  /-- go one step back -/
  | shallower
  /-- write fragments -/
  | emit (fragments : List Fragment)
  /-- write a block whose body is a run of operations -/
  | block (header close : String) (body : List Op)

namespace Op

mutual

/-- Perform one operation. -/
def perform (w : Writer) : Op → Writer
  | .line s => w.line s
  | .blank => w.blank
  | .deeper => w.deeper
  | .shallower => w.shallower
  | .emit fragments => w.emit fragments
  | .block header close body => ((performAll (w.line header).deeper body).shallower).line close

/-- Perform operations one after another. -/
def performAll (w : Writer) : List Op → Writer
  | [] => w
  | op :: ops => performAll (perform w op) ops

end

/-- A block is written by the writer's own block operation. -/
theorem perform_block (w : Writer) (header close : String) (body : List Op) :
    perform w (.block header close body)
      = w.blockWithClose header close fun inner => performAll inner body := by
  rw [perform, Writer.blockWithClose]

end Op

end IdlBinding
