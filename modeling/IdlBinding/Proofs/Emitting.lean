import IdlBinding.Layout

/-!
# What writing fragments adds

A writer that is given fragments adds their lines and does nothing else: it comes back to its
level, and the text it had stays in front. `Fragment.lines` lists the lines with their levels, the
header of a block before its body and its closing line after it.

So fragments that are written one after another make texts one after another (`render_append`).
-/

namespace IdlBinding

namespace Fragment

mutual

/-- The lines of a fragment that is written at a level, each with its own level. -/
def lines (level : Nat) : Fragment → List (Nat × String)
  | .line text => [(level, text)]
  | .block header body close =>
    (level, header) :: (linesAll (level + 1) body ++ close.toList.map fun text => (level, text))

/-- The lines of fragments that are written one after another. -/
def linesAll (level : Nat) : List Fragment → List (Nat × String)
  | [] => []
  | f :: fs => lines level f ++ linesAll level fs

end

theorem linesAll_append (level : Nat) (fs gs : List Fragment) :
    linesAll level (fs ++ gs) = linesAll level fs ++ linesAll level gs := by
  induction fs with
  | nil => rw [List.nil_append, linesAll, List.nil_append]
  | cons f fs ih => rw [List.cons_append, linesAll, linesAll, ih, List.append_assoc]

end Fragment

/-- A margin is made of spaces. -/
theorem Indent.eq_space_of_mem_margin {i : Indent} {level : Nat} {c : Char}
    (h : c ∈ (i.margin level).toList) : c = ' ' := by
  rw [margin, String.toList_join, List.mem_flatMap] at h
  obtain ⟨step, hstep, hc⟩ := h
  rw [List.eq_of_mem_replicate hstep, text, String.toList_ofList] at hc
  exact List.eq_of_mem_replicate hc

namespace Writer

/-- The text of a line at a level. -/
def lineText (indent : Indent) (line : Nat × String) : String :=
  indent.margin line.1 ++ line.2 ++ "\n"

/-- Add lines at levels of their own. -/
def addLines (w : Writer) (lines : List (Nat × String)) : Writer :=
  { w with text := w.text ++ String.join (lines.map (lineText w.indent)) }

@[simp] theorem addLines_nil (w : Writer) : w.addLines [] = w := by
  simp [addLines]

@[simp] theorem addLines_level (w : Writer) (lines : List (Nat × String)) :
    (w.addLines lines).level = w.level := rfl

theorem addLines_append (w : Writer) (lines more : List (Nat × String)) :
    w.addLines (lines ++ more) = (w.addLines lines).addLines more := by
  simp [addLines, String.append_assoc]

theorem addLines_cons (w : Writer) (first : Nat × String) (more : List (Nat × String)) :
    w.addLines (first :: more) = (w.addLines [first]).addLines more :=
  w.addLines_append [first] more

theorem line_eq (w : Writer) (text : String) : w.line text = w.addLines [(w.level, text)] := by
  simp [line, addLines, lineText]

/-- An empty line is a line at the left margin without a text. -/
theorem blank_eq (w : Writer) : w.blank = w.addLines [(0, "")] := by
  simp [blank, addLines, lineText, Indent.margin]

theorem lineIfSome_eq (w : Writer) (close : Option String) :
    w.lineIfSome close = w.addLines (close.toList.map fun text => (w.level, text)) := by
  cases close with
  | none => exact w.addLines_nil.symm
  | some text => exact w.line_eq text

/-- One step deeper and back, lines are added as on the level itself. -/
theorem shallower_addLines_deeper (w : Writer) (lines : List (Nat × String)) :
    (w.deeper.addLines lines).shallower = w.addLines lines := rfl

mutual

/-- Writing a fragment adds its lines. -/
theorem emitOne_eq (w : Writer) (f : Fragment) : w.emitOne f = w.addLines (f.lines w.level) := by
  cases f with
  | line text => rw [emitOne, Fragment.lines, line_eq]
  | block header body close =>
    rw [emitOne, emit_eq, line_eq, shallower_addLines_deeper, lineIfSome_eq, Fragment.lines,
      addLines_cons w _ (_ ++ _), addLines_append]
    rfl

/-- **Writing fragments adds their lines**, and that is all. -/
theorem emit_eq (w : Writer) (fs : List Fragment) :
    w.emit fs = w.addLines (Fragment.linesAll w.level fs) := by
  cases fs with
  | nil => rw [emit, Fragment.linesAll, addLines_nil]
  | cons f fs =>
    rw [emit, emitOne_eq w f, emit_eq, addLines_level, Fragment.linesAll, addLines_append]

end

/-! ## The lines of a text that was written -/

/-- The text of a writer is made of lines, each behind its margin. -/
def HasLines (w : Writer) (lines : List (Nat × String)) : Prop :=
  w.text = String.join (lines.map (lineText w.indent))

theorem hasLines_new (indent : Indent) : (new indent).HasLines [] := rfl

theorem HasLines.addLines {w : Writer} {lines : List (Nat × String)} (h : w.HasLines lines)
    (more : List (Nat × String)) : (w.addLines more).HasLines (lines ++ more) := by
  rw [HasLines, List.map_append, String.join_append]
  exact congrArg (· ++ String.join (more.map (lineText w.indent))) h

theorem HasLines.emit {w : Writer} {lines : List (Nat × String)} (h : w.HasLines lines)
    (fs : List Fragment) : (w.emit fs).HasLines (lines ++ Fragment.linesAll w.level fs) := by
  rw [emit_eq]
  exact h.addLines _

theorem HasLines.blank {w : Writer} {lines : List (Nat × String)} (h : w.HasLines lines) :
    w.blank.HasLines (lines ++ [(0, "")]) := by
  rw [blank_eq]
  exact h.addLines _

end Writer

/-- The text of fragments is that of their lines. -/
theorem Fragment.render_eq (indent : Indent) (fs : List Fragment) :
    render indent fs = String.join ((linesAll 0 fs).map (Writer.lineText indent)) := by
  rw [render, (Writer.hasLines_new indent).emit fs, Writer.emit_eq]
  rfl

/-- **Fragments one after another are texts one after another.** -/
theorem Fragment.render_append (indent : Indent) (fs gs : List Fragment) :
    render indent (fs ++ gs) = render indent fs ++ render indent gs := by
  rw [render_eq, render_eq, render_eq, linesAll_append, List.map_append, String.join_append]

end IdlBinding
