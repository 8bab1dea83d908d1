import IdlBinding.EnumerationModule
import IdlBinding.Proofs.Additions
import IdlBinding.Proofs.Emitting
import IdlBinding.Proofs.TextLines

/-!
# Indentation changes nothing but leading spaces

The width of an indentation step is chosen by the settings. Two texts are `SameCode` if they have
the same lines, up to the spaces that lines start with, and this is how texts under different
settings compare.

* `Writer.Alike` — two writers at one level that were given the same lines. Every operation keeps
  this, so it holds of whole runs, whatever the texts that lines are made of (`Alike.performAll`);
* what writers that are alike have written is the same code (`Alike.sameCode`): the margin of a line
  is made of spaces, and goes with the first line of the text behind it;
* modules and tables are written by such runs. Settings enter them by the width alone.
-/

namespace IdlBinding

/-! ## Texts up to leading spaces -/

/-- A line without the spaces that it starts with. -/
def unindented (line : String) : String := String.ofList (line.toList.dropWhile (· = ' '))

/-- Two texts have as many lines, which are the same without their leading spaces. -/
def SameCode (a b : String) : Prop := (textLines a).map unindented = (textLines b).map unindented

instance (a b : String) : Decidable (SameCode a b) :=
  inferInstanceAs (Decidable ((textLines a).map unindented = (textLines b).map unindented))

theorem unindented_textLines_cons_space (cs : List Char) :
    (textLines (String.ofList (' ' :: cs))).map unindented =
      (textLines (String.ofList cs)).map unindented := by
  simp only [textLines, String.toList_ofList, List.map_map]
  rw [List.splitOn_cons_eq_if_modifyHead, if_neg (by decide)]
  -- The space joins the first line, where it is dropped again.
  rcases List.splitOn '\n' cs with _ | ⟨first, rest⟩
  · rfl
  · simp [unindented]

/-- Spaces before a text go with its first line. -/
theorem unindented_textLines_append {spaces : String} (h : ∀ c ∈ spaces.toList, c = ' ')
    (text : String) :
    (textLines (spaces ++ text)).map unindented = (textLines text).map unindented := by
  obtain ⟨cs, rfl⟩ : ∃ cs, spaces = String.ofList cs := ⟨spaces.toList, String.ofList_toList.symm⟩
  rw [String.toList_ofList] at h
  induction cs with
  | nil => simp
  | cons c cs ih =>
    obtain ⟨rfl, hrest⟩ := List.forall_mem_cons.mp h
    have hcons : String.ofList (' ' :: cs) ++ text =
        String.ofList (' ' :: (String.ofList cs ++ text).toList) := by
      apply String.toList_injective
      simp
    rw [hcons, unindented_textLines_cons_space, String.ofList_toList, ih hrest]

/-! ## Writers that are given the same lines -/

namespace Writer

/-- **The same lines are the same code**, whatever the width of a step. -/
theorem sameCode_join (i j : Indent) (lines : List (Nat × String)) :
    SameCode (String.join (lines.map (lineText i))) (String.join (lines.map (lineText j))) := by
  have hcode (k : Indent) : (textLines (String.join (lines.map (lineText k)))).map unindented =
      (lines.flatMap fun line => (textLines line.2).map unindented) ++ [""] := by
    have hends : lines.map (lineText k) =
        (lines.map fun line => k.margin line.1 ++ line.2).map (· ++ "\n") := by
      rw [List.map_map]
      rfl
    rw [hends, textLines_join, List.map_append, List.map_flatMap, List.flatMap_map]
    simp only [unindented_textLines_append fun c hc => Indent.eq_space_of_mem_margin hc]
    rfl
  exact (hcode i).trans (hcode j).symm

/-- Two writers at one level that were given the same lines. -/
structure Alike (w w' : Writer) : Prop where
  /-- the next line has as many steps -/
  level : w.level = w'.level
  /-- each line so far is in both texts, behind its own margin -/
  lines : ∃ lines, w.HasLines lines ∧ w'.HasLines lines

theorem alike_new (i j : Indent) : Alike (new i) (new j) :=
  ⟨rfl, [], hasLines_new i, hasLines_new j⟩

namespace Alike

variable {w w' : Writer}

theorem sameCode (h : Alike w w') : SameCode w.text w'.text := by
  obtain ⟨lines, hw, hw'⟩ := h.lines
  rw [hw, hw']
  exact sameCode_join w.indent w'.indent lines

theorem addLines (h : Alike w w') (more : List (Nat × String)) :
    Alike (w.addLines more) (w'.addLines more) := by
  obtain ⟨lines, hw, hw'⟩ := h.lines
  exact ⟨h.level, lines ++ more, hw.addLines more, hw'.addLines more⟩

theorem line (h : Alike w w') (text : String) : Alike (w.line text) (w'.line text) := by
  rw [line_eq, line_eq, ← h.level]
  exact h.addLines _

theorem blank (h : Alike w w') : Alike w.blank w'.blank := by
  rw [blank_eq, blank_eq]
  exact h.addLines _

theorem deeper (h : Alike w w') : Alike w.deeper w'.deeper :=
  ⟨congrArg (· + 1) h.level, h.lines⟩

theorem shallower (h : Alike w w') : Alike w.shallower w'.shallower :=
  ⟨congrArg (· - 1) h.level, h.lines⟩

theorem emit (h : Alike w w') (fs : List Fragment) : Alike (w.emit fs) (w'.emit fs) := by
  rw [emit_eq, emit_eq, ← h.level]
  exact h.addLines _

mutual

/-- One operation keeps writers alike. -/
theorem perform {w w' : Writer} (h : Alike w w') (op : Op) :
    Alike (op.perform w) (op.perform w') := by
  cases op with
  | line text => simpa only [Op.perform] using h.line text
  | blank => simpa only [Op.perform] using h.blank
  | deeper => simpa only [Op.perform] using h.deeper
  | shallower => simpa only [Op.perform] using h.shallower
  | emit fs => simpa only [Op.perform] using h.emit fs
  | block header close body =>
    have hbody := performAll (h.line header).deeper body
    simpa only [Op.perform] using hbody.shallower.line close

/-- **A run of operations keeps writers alike.** -/
theorem performAll {w w' : Writer} (h : Alike w w') (ops : List Op) :
    Alike (Op.performAll w ops) (Op.performAll w' ops) := by
  cases ops with
  | nil => simpa only [Op.performAll] using h
  | cons op ops => simpa only [Op.performAll] using performAll (perform h op) ops

end

end Alike

end Writer

/-! ## Modules -/

/-- Two attempts with the same error, or with results that compare. -/
inductive SameOutcome {ε α : Type} (R : α → α → Prop) : Except ε α → Except ε α → Prop
  /-- both fail -/
  | error (e : ε) : SameOutcome R (.error e) (.error e)
  /-- both succeed -/
  | ok {a b : α} (compare : R a b) : SameOutcome R (.ok a) (.ok b)

namespace Enumeration

theorem sameCode_source (s s' : Settings) (e : Enumeration) :
    SameCode (e.source s) (e.source s') := by
  have hnew := Writer.alike_new s.indent s'.indent
  exact (((hnew.emit _).blank.emit _).blank.emit _).sameCode

/-- The settings do not decide whether a module can be generated. -/
theorem sameOutcome_generate {R : Generated → Generated → Prop} {s s' : Settings}
    {e : Enumeration} (h : R ⟨e.source s, s.ledger⟩ ⟨e.source s', s'.ledger⟩) :
    SameOutcome R (e.generate s).result (e.generate s').result := by
  rw [generate, generate]
  rcases firstRepeated [] e.values with _ | value
  · exact .ok h
  · exact .error _

end Enumeration

/-! ## Tables -/

/-- A step that fills a table. -/
inductive TableStep where
  /-- add a property -/
  | add (call : Addition)
  /-- install a constant -/
  | constant (c : Constant)

namespace TableStep

/-- Perform a step in a generation with given settings. -/
def perform (s : Settings) (t : PropertyTable) : TableStep → PropertyTable
  | .add call => call.perform t
  | .constant c => (c.install s t).table

/-- The table after steps one after another. -/
def run (s : Settings) (t : PropertyTable) (steps : List TableStep) : PropertyTable :=
  steps.foldl (perform s) t

end TableStep

namespace PropertyTable

/-- The table with another indentation. -/
def reindent (t : PropertyTable) (i : Indent) : PropertyTable := { t with indent := i }

theorem add_reindent (t : PropertyTable) (i : Indent) (place : Place) (key : PropertyKey)
    (value : String) (overrides : Overrides) :
    (t.reindent i).add place key value overrides =
      (t.add place key value overrides).reindent i := by
  cases place <;> rfl

theorem definition_reindent (t : PropertyTable) (i : Indent) :
    (t.reindent i).definition = t.definition := by
  funext place
  cases place <;> rfl

/-- The indentation of a table is not used before its statements are written. -/
theorem render_reindent (t : PropertyTable) (i : Indent) :
    (t.reindent i).render = (places.mapM t.definition).map fun statements =>
      Fragment.render i (statements.flatMap Statement.fragments) := by
  rw [render, definition_reindent]
  rcases places.mapM t.definition with e | statements
  · rfl
  · rfl

theorem sameOutcome_render (t : PropertyTable) (i j : Indent) :
    SameOutcome SameCode (t.reindent i).render (t.reindent j).render := by
  rw [render_reindent, render_reindent]
  rcases places.mapM t.definition with e | statements
  · exact .error e
  · exact .ok ((Writer.alike_new i j).emit _).sameCode

end PropertyTable

namespace TableStep

open PropertyTable

theorem perform_reindent (s s' : Settings) (t : PropertyTable) (i : Indent) (step : TableStep) :
    perform s (t.reindent i) step = (perform s' t step).reindent i := by
  cases step with
  | add call =>
    cases call with
    | property place key value overrides => exact t.add_reindent i place key value overrides
    | staticProperty key value overrides => exact t.add_reindent i .static key value overrides
  | constant c =>
    have hplace : (t.reindent i).placeFor c.special = t.placeFor c.special := rfl
    rw [perform, Constant.install, hplace, add_reindent, add_reindent]
    rfl

/-- The indentation of a table takes no part in filling it. -/
theorem run_reindent (s s' : Settings) (t : PropertyTable) (i : Indent)
    (steps : List TableStep) : run s (t.reindent i) steps = (run s' t steps).reindent i := by
  induction steps generalizing t with
  | nil => rfl
  | cons step steps ih =>
    rw [run, List.foldl_cons, perform_reindent s s']
    exact ih (perform s' t step)

/-- Of the settings, the indentation alone is left in a table. -/
theorem run_new (s s' : Settings) (name : String) (isGlobal : Bool) (steps : List TableStep) :
    run s (.new s name isGlobal) steps =
      (run s' (.new s' name isGlobal) steps).reindent s.indent :=
  run_reindent s s' (.new s' name isGlobal) s.indent steps

end TableStep

/-- **Settings decide the leading spaces of generated code and nothing else of it.**

* Two writers that differ in their indentation and perform the same operations write the same code.
* Under any two settings an enumeration is refused with one error, or has modules with the same
  code; and the extension in the settings has no part in the text.
* So has the rendering of a table that is filled by the same steps. -/
theorem sameCode_under_settings :
    (∀ (i j : Indent) (ops : List Op),
      SameCode (Op.performAll (.new i) ops).text (Op.performAll (.new j) ops).text) ∧
    (∀ (e : Enumeration) (s s' : Settings),
      SameOutcome (fun g g' => SameCode g.source g'.source)
        (e.generate s).result (e.generate s').result) ∧
    (∀ (e : Enumeration) (s : Settings) (extension : String),
      SameOutcome (fun g g' => g.source = g'.source)
        (e.generate s).result (e.generate { s with extension := extension }).result) ∧
    (∀ (name : String) (isGlobal : Bool) (steps : List TableStep) (s s' : Settings),
      SameOutcome SameCode (TableStep.run s (.new s name isGlobal) steps).render
        (TableStep.run s' (.new s' name isGlobal) steps).render) ∧
    ∀ (name : String) (isGlobal : Bool) (steps : List TableStep) (s : Settings)
      (extension : String),
      let s' := { s with extension := extension }
      (TableStep.run s (.new s name isGlobal) steps).render =
        (TableStep.run s' (.new s' name isGlobal) steps).render := by
  refine ⟨fun i j ops => ?_, fun e s s' => ?_, fun e s extension => ?_,
    fun name isGlobal steps s s' => ?_, fun name isGlobal steps s extension => ?_⟩
  · exact ((Writer.alike_new i j).performAll ops).sameCode
  · exact Enumeration.sameOutcome_generate (Enumeration.sameCode_source s s' e)
  · exact Enumeration.sameOutcome_generate rfl
  · rw [TableStep.run_new s s', TableStep.run_new s' s']
    exact PropertyTable.sameOutcome_render _ s.indent s'.indent
  · intro s'
    rw [TableStep.run_new s s', TableStep.run_new s' s']
    rfl

/-- A text with a newline of its own, and steps back beyond the left margin. -/
example : SameCode
    (Op.performAll (.new ⟨2⟩) [.deeper, .line "a\n  b", .blank, .shallower, .shallower,
      .emit [.block "if (x) \x7b" [.line " c"] (some "\x7d")]]).text
    (Op.performAll (.new ⟨9⟩) [.deeper, .line "a\n  b", .blank, .shallower, .shallower,
      .emit [.block "if (x) \x7b" [.line " c"] (some "\x7d")]]).text := by
  decide

end IdlBinding
