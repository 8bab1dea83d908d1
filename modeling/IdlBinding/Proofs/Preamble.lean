import IdlBinding.Proofs.Growth
import IdlBinding.Proofs.TextLines

/-!
# A preamble determines its ledger

The preamble of a ledger is read back line by line. Nothing in it is escaped, so this needs names
without spaces and bindings without newlines (`Bindings.OnLines`); what else a specifier or an
initializer holds does not matter.

* `BindingForm` — the layout of a statement that binds a name. The name ends at the first space, and
  what it is bound to at the end of the line (`read?_text`);
* the lines of a preamble are the imports, the declarations, and an empty line between them if there
  are both (`textLines_preamble`). No line of one kind can be read as another, so both lists are
  found in the lines (`imports_of_preamble`, `declarations_of_preamble`).
-/

namespace IdlBinding

/-! ## Statements that bind a name -/

/-- The layout of a statement that binds a name. -/
structure BindingForm where
  /-- what stands before the name -/
  opening : String
  /-- what stands after the name -/
  middle : String
  /-- what ends the statement -/
  closing : String
  /-- there is a word before the name -/
  word : opening.toList ≠ []
  /-- the name is separated by a space -/
  space : middle.toList.head? = some ' '

namespace BindingForm

/-- An import. -/
def importing : BindingForm := ⟨"import ", " from \"", "\";", by decide, rfl⟩

/-- A declaration. -/
def declaring : BindingForm := ⟨"const ", " = ", ";", by decide, rfl⟩

/-- The statement of a binding. -/
def text (f : BindingForm) (entry : String × String) : String :=
  f.opening ++ entry.1 ++ f.middle ++ entry.2 ++ f.closing

/-- The binding of a statement. -/
def read? (f : BindingForm) (line : String) : Option (String × String) := do
  let rest ← List.isPrefixOf? f.opening.toList line.toList
  let value ← List.isPrefixOf? f.middle.toList (rest.dropWhile (· ≠ ' '))
  let value ← List.isSuffixOf? f.closing.toList value
  some (String.ofList (rest.takeWhile (· ≠ ' ')), String.ofList value)

theorem toList_text (f : BindingForm) (entry : String × String) :
    (f.text entry).toList = f.opening.toList ++
      (entry.1.toList ++ (f.middle.toList ++ (entry.2.toList ++ f.closing.toList))) := by
  simp only [text, String.toList_append, List.append_assoc]

/-- **A statement is read back**, whatever the name is bound to. -/
theorem read?_text (f : BindingForm) {entry : String × String} (h : ' ' ∉ entry.1.toList) :
    f.read? (f.text entry) = some entry := by
  have hname : ∀ c ∈ entry.1.toList, decide (c ≠ ' ') = true := by
    intro c hc
    rw [decide_eq_true_iff]
    rintro rfl
    exact h hc
  obtain ⟨middle, hmiddle⟩ := List.head?_eq_some_iff.mp f.space
  have htake (rest : List Char) : (entry.1.toList ++ (f.middle.toList ++ rest)).takeWhile
      (fun c => decide (c ≠ ' ')) = entry.1.toList := by
    rw [List.takeWhile_append_of_pos hname, hmiddle]
    simp
  have hdrop (rest : List Char) : (entry.1.toList ++ (f.middle.toList ++ rest)).dropWhile
      (fun c => decide (c ≠ ' ')) = f.middle.toList ++ rest := by
    rw [List.dropWhile_append_of_pos hname, hmiddle]
    simp
  rw [read?, List.isPrefixOf?_eq_some_iff_append_eq.mpr (f.toList_text entry).symm]
  simp only [Option.bind_eq_bind, Option.bind_some, htake, hdrop,
    List.isPrefixOf?_eq_some_iff_append_eq.mpr rfl, List.isSuffixOf?_eq_some_iff_append_eq.mpr rfl,
    String.ofList_toList]

/-- A line with another beginning is not read. -/
theorem read?_eq_none {f : BindingForm} {line : String}
    (h : ¬ f.opening.toList <+: line.toList) : f.read? line = none := by
  rw [read?]
  rcases hopening : List.isPrefixOf? f.opening.toList line.toList with _ | rest
  · rfl
  · exact absurd ⟨rest, List.isPrefixOf?_eq_some_iff_append_eq.mp hopening⟩ h

/-- Lines that are not read by a form. -/
def Foreign (f : BindingForm) (lines : List String) : Prop := ∀ line ∈ lines, f.read? line = none

theorem Foreign.append {f : BindingForm} {lines more : List String} (h : f.Foreign lines)
    (hmore : f.Foreign more) : f.Foreign (lines ++ more) := by
  intro line hline
  rcases List.mem_append.mp hline with hline | hline
  · exact h line hline
  · exact hmore line hline

/-- An empty line is not read. -/
theorem foreign_of_empty (f : BindingForm) {lines : List String} (h : ∀ line ∈ lines, line = "") :
    f.Foreign lines := by
  intro line hline
  rw [h line hline]
  apply read?_eq_none
  intro hprefix
  exact f.word (List.prefix_nil.mp hprefix)

/-- Nor is a statement with another word. -/
theorem foreign_map_text {f g : BindingForm}
    (h : f.opening.toList.head? ≠ g.opening.toList.head?) (b : Bindings) :
    f.Foreign (b.map g.text) := by
  intro line hline
  obtain ⟨entry, -, rfl⟩ := List.mem_map.mp hline
  apply read?_eq_none
  rintro ⟨rest, hrest⟩
  have hheads := congrArg List.head? hrest
  rw [toList_text, List.head?_append_of_ne_nil _ f.word, List.head?_append_of_ne_nil _ g.word]
    at hheads
  exact h hheads

end BindingForm

/-! ## Bindings that stand on lines -/

namespace Bindings

open BindingForm

/-- No name has a space or a newline, and nothing that a name is bound to has a newline. -/
def OnLines (b : Bindings) : Prop :=
  ∀ entry ∈ b, ' ' ∉ entry.1.toList ∧ '\n' ∉ entry.1.toList ∧ '\n' ∉ entry.2.toList

instance (b : Bindings) : Decidable b.OnLines := List.decidableBAll _ b

/-- The bindings are found in lines that hold their statements in one place. -/
theorem OnLines.filterMap_read? {b : Bindings} (h : b.OnLines) {f : BindingForm}
    {before after : List String} (hbefore : f.Foreign before) (hafter : f.Foreign after) :
    (before ++ (b.map f.text ++ after)).filterMap f.read? = b := by
  have hread : (b.map f.text).filterMap f.read? = b := by
    rw [List.filterMap_map]
    refine (List.filterMap_congr fun entry he => ?_).trans List.filterMap_some
    exact f.read?_text (h entry he).1
  rw [List.filterMap_append, List.filterMap_append, hread, List.filterMap_eq_nil_iff.mpr hbefore,
    List.filterMap_eq_nil_iff.mpr hafter, List.nil_append, List.append_nil]

/-- A statement of such a binding is one line. -/
theorem OnLines.newline_notMem_text {b : Bindings} (h : b.OnLines) {f : BindingForm}
    (hform : '\n' ∉ f.opening.toList ++ (f.middle.toList ++ f.closing.toList)) :
    ∀ line ∈ b.map f.text, '\n' ∉ line.toList := by
  intro line hline
  obtain ⟨entry, he, rfl⟩ := List.mem_map.mp hline
  obtain ⟨-, hname, hvalue⟩ := h entry he
  simp only [List.mem_append, not_or] at hform
  obtain ⟨hopening, hmiddle, hclosing⟩ := hform
  rw [toList_text]
  simp [hopening, hmiddle, hclosing, hname, hvalue]

/-- Where names are bound once, each has one statement. -/
theorem OnLines.count_text {b : Bindings} (h : b.OnLines) (hb : b.names.Nodup) {f : BindingForm}
    {before after : List String} (hbefore : f.Foreign before) (hafter : f.Foreign after)
    {entry : String × String} (he : entry ∈ b) :
    (before ++ (b.map f.text ++ after)).count (f.text entry) = 1 := by
  have hread := f.read?_text (h entry he).1
  have hnot {lines : List String} (hforeign : f.Foreign lines) : f.text entry ∉ lines := by
    intro hmem
    rw [hforeign _ hmem] at hread
    cases hread
  have hinj : ∀ x ∈ b, ∀ y ∈ b, f.text x = f.text y → x = y := by
    intro x hx y hy heq
    have hx := f.read?_text (h x hx).1
    rw [heq, f.read?_text (h y hy).1] at hx
    exact (Option.some.inj hx).symm
  have hnodup : (b.map f.text).Nodup := (List.nodup_map_iff_inj_on hb.of_map).mpr hinj
  rw [List.count_append, List.count_append, List.count_eq_zero.mpr (hnot hbefore),
    List.count_eq_zero.mpr (hnot hafter),
    List.count_eq_one_of_mem hnodup (List.mem_map_of_mem he)]

end Bindings

/-! ## The lines of a preamble -/

namespace Ledger

open BindingForm

/-- What stands on lines does so in both lists. -/
structure OnLines (l : Ledger) : Prop where
  /-- identifiers and specifiers -/
  imports : l.imports.OnLines
  /-- names and initializers -/
  declarations : l.declarations.OnLines

instance (l : Ledger) : Decidable l.OnLines :=
  decidable_of_iff (l.imports.OnLines ∧ l.declarations.OnLines)
    ⟨fun h => ⟨h.1, h.2⟩, fun h => ⟨h.imports, h.declarations⟩⟩

/-- The lines between imports and declarations. -/
def separator (l : Ledger) : List String :=
  if l.imports ≠ [] ∧ l.declarations ≠ [] then [""] else []

theorem eq_empty_of_mem_separator {l : Ledger} {line : String} (h : line ∈ l.separator) :
    line = "" := by
  rw [separator] at h
  split at h
  · exact List.mem_singleton.mp h
  · cases h

/-- The lines of the statements of a preamble. -/
def statements (l : Ledger) : List String :=
  l.imports.map importing.text ++ (l.separator ++ l.declarations.map declaring.text)

/-- A preamble is made of its statements, each ended by a newline. -/
theorem preamble_eq (l : Ledger) :
    l.preamble = String.join (l.statements.map (· ++ "\n")) := by
  have himport (entry : String × String) :
      importLine entry.1 entry.2 = importing.text entry ++ "\n" := by
    simp [importLine, text, importing, String.append_assoc]
  have hdeclaration (entry : String × String) :
      declarationLine entry.1 entry.2 = declaring.text entry ++ "\n" := by
    simp [declarationLine, text, declaring, String.append_assoc]
  have hseparator : (if l.imports.isEmpty || l.declarations.isEmpty then "" else "\n") =
      String.join (l.separator.map (· ++ "\n")) := by
    rw [separator]
    rcases l.imports with _ | ⟨first, rest⟩
    · rfl
    · rcases l.declarations with _ | ⟨first, rest⟩
      · rfl
      · rfl
  simp only [preamble, himport, hdeclaration, hseparator, statements, List.map_append,
    String.join_append, List.map_map, Function.comp_def, String.append_assoc]

theorem OnLines.newline_notMem {l : Ledger} (h : l.OnLines) :
    ∀ line ∈ l.statements, '\n' ∉ line.toList := by
  intro line hline
  rw [statements, List.mem_append, List.mem_append] at hline
  rcases hline with hline | hline | hline
  · exact h.imports.newline_notMem_text (by decide) line hline
  · rw [eq_empty_of_mem_separator hline]
    exact List.not_mem_nil
  · exact h.declarations.newline_notMem_text (by decide) line hline

/-- **The lines of a preamble** are its statements. -/
theorem OnLines.textLines_preamble {l : Ledger} (h : l.OnLines) :
    textLines l.preamble = l.statements ++ [""] := by
  have hlines : l.statements.flatMap textLines = l.statements := by
    rw [List.flatMap_congr fun line hline => textLines_of_notMem (h.newline_notMem line hline)]
    exact List.flatMap_singleton' l.statements
  rw [preamble_eq, textLines_join, hlines]

/-! ## Reading a preamble -/

/-- In a preamble the imports come first, and what follows them is not read as imports. -/
theorem OnLines.imports_first {l : Ledger} (h : l.OnLines) : ∃ after,
    textLines l.preamble = [] ++ (l.imports.map importing.text ++ after) ∧
      importing.Foreign after := by
  refine ⟨l.separator ++ l.declarations.map declaring.text ++ [""], ?_, ?_⟩
  · rw [h.textLines_preamble, statements, List.append_assoc, List.nil_append]
  · have hseparator := importing.foreign_of_empty fun _ => eq_empty_of_mem_separator (l := l)
    have hdeclarations : importing.Foreign (l.declarations.map declaring.text) :=
      foreign_map_text (by decide) _
    have hlast : importing.Foreign [""] := importing.foreign_of_empty (by simp)
    exact (hseparator.append hdeclarations).append hlast

/-- The declarations come last, and what precedes them is not read as declarations. -/
theorem OnLines.declarations_last {l : Ledger} (h : l.OnLines) : ∃ before,
    textLines l.preamble = before ++ (l.declarations.map declaring.text ++ [""]) ∧
      declaring.Foreign before ∧ declaring.Foreign [""] := by
  refine ⟨l.imports.map importing.text ++ l.separator, ?_, ?_,
    declaring.foreign_of_empty (by simp)⟩
  · rw [h.textLines_preamble, statements, List.append_assoc, List.append_assoc, List.append_assoc]
  · have himports : declaring.Foreign (l.imports.map importing.text) :=
      foreign_map_text (by decide) _
    exact himports.append (declaring.foreign_of_empty fun _ => eq_empty_of_mem_separator)

/-- **The imports are found in the lines**, in their order. -/
theorem OnLines.imports_of_preamble {l : Ledger} (h : l.OnLines) :
    (textLines l.preamble).filterMap importing.read? = l.imports := by
  obtain ⟨after, hlines, hafter⟩ := h.imports_first
  rw [hlines]
  exact h.imports.filterMap_read? (importing.foreign_of_empty (by simp)) hafter

/-- **The declarations are found in the lines**, in their order. -/
theorem OnLines.declarations_of_preamble {l : Ledger} (h : l.OnLines) :
    (textLines l.preamble).filterMap declaring.read? = l.declarations := by
  obtain ⟨before, hlines, hbefore, hlast⟩ := h.declarations_last
  rw [hlines]
  exact h.declarations.filterMap_read? hbefore hlast

/-- **A preamble determines its ledger.**

* Two ledgers with one preamble have the same imports and the same declarations, in the same order.
* The lines of a preamble are the imports, then the declarations, with one empty line between them
  when there are both; and the newline at the end leaves an empty last line. Each import and each
  declaration is on exactly one of these lines. -/
theorem preamble_determines_ledger :
    (∀ a b : Ledger, a.Reachable → b.Reachable → a.OnLines → b.OnLines →
      a.preamble = b.preamble → a.imports = b.imports ∧ a.declarations = b.declarations) ∧
    ∀ l : Ledger, l.Reachable → l.OnLines →
      textLines l.preamble =
        (l.imports.map fun entry => "import " ++ entry.1 ++ " from \"" ++ entry.2 ++ "\";") ++
          (if l.imports ≠ [] ∧ l.declarations ≠ [] then [""] else []) ++
          (l.declarations.map fun entry => "const " ++ entry.1 ++ " = " ++ entry.2 ++ ";") ++
          [""] ∧
      (∀ entry ∈ l.imports, (textLines l.preamble).count
        ("import " ++ entry.1 ++ " from \"" ++ entry.2 ++ "\";") = 1) ∧
      ∀ entry ∈ l.declarations, (textLines l.preamble).count
        ("const " ++ entry.1 ++ " = " ++ entry.2 ++ ";") = 1 := by
  refine ⟨fun a b _ _ ha hb heq => ⟨?_, ?_⟩,
    fun l hl h => ⟨?_, fun entry he => ?_, fun entry he => ?_⟩⟩
  · rw [← ha.imports_of_preamble, heq, hb.imports_of_preamble]
  · rw [← ha.declarations_of_preamble, heq, hb.declarations_of_preamble]
  · rw [h.textLines_preamble, statements, ← List.append_assoc]
    rfl
  · obtain ⟨after, hlines, hafter⟩ := h.imports_first
    rw [hlines]
    exact h.imports.count_text hl.wellFormed.imports (importing.foreign_of_empty (by simp)) hafter
      he
  · obtain ⟨before, hlines, hbefore, hlast⟩ := h.declarations_last
    rw [hlines]
    exact h.declarations.count_text hl.wellFormed.declarations hbefore hlast he

/-- One import under two extensions, and an initializer that looks like an import. -/
theorem preamble_determines_ledger_two_extensions :
    let a := (Call.run ({} : Settings).ledger [.importAs "./a" "x", .declare "y" "import x;"]).1
    let b := (Call.run ({ extension := "" } : Settings).ledger
      [.declare "y" "import x;", .importAs "./a.js" "x"]).1
    (a ≠ b ∧ a.OnLines ∧ b.OnLines ∧ a.preamble = b.preamble) ∧
    (a.imports = b.imports ∧ a.declarations = b.declarations) ∧
    (textLines a.preamble).count "const y = import x;;" = 1 := by
  intro a b
  have ha : a.OnLines := by decide
  have hb : b.OnLines := by decide
  have hra : a.Reachable := ⟨_, _, rfl⟩
  have hrb : b.Reachable := ⟨_, _, rfl⟩
  obtain ⟨hsame, hlines⟩ := preamble_determines_ledger
  exact ⟨⟨by decide, ha, hb, by decide⟩, hsame a b hra hrb ha hb (by decide),
    (hlines a hra ha).2.2 ("y", "import x;") (by decide)⟩

end Ledger

end IdlBinding
