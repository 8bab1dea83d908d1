import IdlBinding.Proofs.Emitting

/-!
# The outline of fragments

The outline of fragments lists their texts as the tree has them, a header before the body of its
block and the closing line behind it, each with its depth: the number of blocks around it. A depth
is relative, so an outline knows nothing of the writer that fragments are given to.

* `Writer.emit_appends_outline` — a writer at any level adds the outline and comes back to its
  level. The level of a line is that of the writer and its depth together;
* `Writer.emit_eq_fluent` — the same is written by the operations of the writer alone, line after
  line and step after step, as functions (`Writer.fluentAll`) or as data (`Fragment.callsAll`).
-/

namespace IdlBinding

namespace Fragment

/-! ## Outlines -/

/-- An entry of an outline, seen from outside of one more block. -/
def enclosed (entry : Nat × String) : Nat × String := (entry.1 + 1, entry.2)

mutual

/-- The texts of a fragment in the order of the tree, each with the number of blocks around it. -/
def outline : Fragment → List (Nat × String)
  | .line text => [(0, text)]
  | .block header body close =>
    (0, header) :: ((outlineAll body).map enclosed ++ close.toList.map fun text => (0, text))

/-- The texts of fragments one after another. -/
def outlineAll : List Fragment → List (Nat × String)
  | [] => []
  | f :: fs => outline f ++ outlineAll fs

end

/-- An entry of an outline as a line of a writer at a level. -/
def placed (level : Nat) (entry : Nat × String) : Nat × String := (level + entry.1, entry.2)

/-- One step deeper, the entries of a body are placed as seen from outside. -/
theorem placed_succ (level : Nat) : placed (level + 1) = placed level ∘ enclosed := by
  funext entry
  exact Prod.ext (by simp only [placed, enclosed, Function.comp_apply]; omega) rfl

mutual

theorem lines_eq_outline (level : Nat) (f : Fragment) :
    f.lines level = f.outline.map (placed level) := by
  cases f with
  | line text => rfl
  | block header body close =>
    rw [lines, outline, linesAll_eq_outlineAll, placed_succ, List.map_cons, List.map_append,
      List.map_map, List.map_map]
    rfl

/-- The lines of fragments at a level are their outline, placed there. -/
theorem linesAll_eq_outlineAll (level : Nat) (fs : List Fragment) :
    linesAll level fs = (outlineAll fs).map (placed level) := by
  cases fs with
  | nil => rfl
  | cons f fs =>
    rw [linesAll, outlineAll, lines_eq_outline level f, linesAll_eq_outlineAll level fs,
      List.map_append]

end

end Fragment

/-- **A writer adds the outline of fragments and nothing else.** Its level and its width stay, the
text it had stays in front, and each text of the outline is a line behind as many steps as the
level of the writer and the depth of the text make together. A step is as many spaces as its width
says, but at most eight. -/
theorem Writer.emit_appends_outline (w : Writer) (fs : List Fragment) :
    (w.emit fs).level = w.level ∧
    (w.emit fs).indent = w.indent ∧
    (w.emit fs).text = w.text ++ String.join ((Fragment.outlineAll fs).map fun entry =>
      String.join (List.replicate (w.level + entry.1)
        (String.ofList (List.replicate (min w.indent.width 8) ' '))) ++ entry.2 ++ "\n") := by
  rw [emit_eq, Fragment.linesAll_eq_outlineAll]
  refine ⟨rfl, rfl, ?_⟩
  rw [addLines, List.map_map]
  rfl

/-- Blocks with and without a closing line and an empty body, at the second level. -/
example :
    (Writer.emit ⟨⟨9⟩, 1, "a\n"⟩ [.block "b" [.block "c" [] none, .line "d"] (some "e")]).text =
      "a\n        b\n                c\n                d\n        e\n" := by
  decide

/-! ## Fragments by operations alone -/

namespace Writer

mutual

/-- Write a fragment by the operations of a writer. The body of a block with a closing line is
written by the function that the block operation is given; a block without one is a header, a step
deeper, its body and a step back. -/
def fluent (w : Writer) : Fragment → Writer
  | .line text => w.line text
  | .block header body (some close) =>
    w.blockWithClose header close fun inner => fluentAll inner body
  | .block header body none => (fluentAll (w.line header).deeper body).shallower

/-- Write fragments one after another by the operations of a writer. -/
def fluentAll (w : Writer) : List Fragment → Writer
  | [] => w
  | f :: fs => fluentAll (fluent w f) fs

end

mutual

theorem fluent_eq (w : Writer) (f : Fragment) : w.fluent f = w.emitOne f := by
  cases f with
  | line text => rw [fluent, emitOne]
  | block header body close =>
    cases close with
    | none => rw [fluent, fluentAll_eq, emitOne, lineIfSome]
    | some close => rw [fluent, blockWithClose, fluentAll_eq, emitOne, lineIfSome]

/-- What the operations write is what the fragments are written as. -/
theorem fluentAll_eq (w : Writer) (fs : List Fragment) : w.fluentAll fs = w.emit fs := by
  cases fs with
  | nil => rw [fluentAll, emit]
  | cons f fs => rw [fluentAll, fluent_eq w f, fluentAll_eq, emit]

end

end Writer

namespace Fragment

mutual

/-- The operations that write a fragment. Only the body of a block with a closing line is a run of
its own; that of another block stands between its steps. -/
def calls : Fragment → List Op
  | .line text => [.line text]
  | .block header body (some close) => [.block header close (callsAll body)]
  | .block header body none => .line header :: .deeper :: (callsAll body ++ [.shallower])

/-- The operations that write fragments one after another. -/
def callsAll : List Fragment → List Op
  | [] => []
  | f :: fs => calls f ++ callsAll fs

end

end Fragment

namespace Op

theorem performAll_append (w : Writer) (ops more : List Op) :
    performAll w (ops ++ more) = performAll (performAll w ops) more := by
  induction ops generalizing w with
  | nil => rw [List.nil_append, performAll]
  | cons op ops ih => rw [List.cons_append, performAll, performAll, ih]

theorem performAll_singleton (w : Writer) (op : Op) : performAll w [op] = perform w op := by
  rw [performAll, performAll]

mutual

theorem performAll_calls (w : Writer) (f : Fragment) : performAll w f.calls = w.fluent f := by
  cases f with
  | line text => rw [Fragment.calls, performAll_singleton, perform, Writer.fluent]
  | block header body close =>
    cases close with
    | none =>
      rw [Fragment.calls, performAll, perform, performAll, perform, performAll_append,
        performAll_callsAll, performAll_singleton, perform, Writer.fluent]
    | some close =>
      rw [Fragment.calls, performAll_singleton, perform, performAll_callsAll, Writer.fluent,
        Writer.blockWithClose]

/-- The operations as data do what they do as functions. -/
theorem performAll_callsAll (w : Writer) (fs : List Fragment) :
    performAll w (Fragment.callsAll fs) = w.fluentAll fs := by
  cases fs with
  | nil => rw [Fragment.callsAll, performAll, Writer.fluentAll]
  | cons f fs =>
    rw [Fragment.callsAll, performAll_append, performAll_calls w f, performAll_callsAll,
      Writer.fluentAll]

end

end Op

/-- **Fragments and operations write the same.** For every writer and all fragments, writing the
fragments leaves the writer that their operations leave, whether the body of a block is a function
of the writer or a run of operations. -/
theorem Writer.emit_eq_fluent (w : Writer) (fs : List Fragment) :
    w.emit fs = w.fluentAll fs ∧ w.emit fs = Op.performAll w (Fragment.callsAll fs) := by
  rw [Op.performAll_callsAll, fluentAll_eq]
  exact ⟨rfl, rfl⟩

end IdlBinding
