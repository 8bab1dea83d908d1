import IdlBinding.Proofs.Growth

/-!
# The names that a preamble binds

A preamble has one statement for each import and one for each declaration, and each binds a name.
Within either list names are bound once. Between the lists nothing is checked: a name can be
imported and declared in one ledger, and the preamble then binds it twice.

The main statement says when: names are bound once by the preamble exactly when no name is both
imported and declared in the course of the run, by one call or by two. What a call imports and
declares is what it enters or finds entered; the part of a merge after its clash does not count.
-/

namespace IdlBinding

/-- The names that the preamble binds, in the order of its statements. -/
def Ledger.boundNames (l : Ledger) : List String := l.imports.names ++ l.declarations.names

namespace Call

/-- The names that the calls of a run enter in one of the lists, each call on the ledger it
meets. What a merge enters there is `entered`. -/
def enteredNames (entered : Ledger → Ledger → Bindings) (l : Ledger) : List Call → List String
  | [] => []
  | call :: calls =>
    (entered l call.request).names ++ enteredNames entered (call.perform l).ledger calls

/-- The names in a list after a run: those from before, and those that its calls enter. -/
theorem mem_names_run {list : Ledger → Bindings} {entered : Ledger → Ledger → Bindings}
    (hmerge : ∀ l other, list (l.merge other).ledger = (list l).putAll (entered l other))
    {l : Ledger} {calls : List Call} {name : String} :
    name ∈ (list (run l calls).1).names ↔
      name ∈ (list l).names ∨ name ∈ enteredNames entered l calls := by
  induction calls generalizing l with
  | nil => simp [run, enteredNames]
  | cons call calls ih =>
    rw [run_cons, ih, perform_ledger, hmerge, Bindings.mem_names_putAll, enteredNames,
      List.mem_append, or_assoc, perform_ledger]

end Call

/-- Names are bound once by the preamble when they are in each list and the lists share none. -/
theorem Ledger.WellFormed.boundNames_nodup_iff {l : Ledger} (h : l.WellFormed) :
    l.boundNames.Nodup ↔ ∀ name ∈ l.imports.names, name ∉ l.declarations.names := by
  rw [boundNames, List.nodup_append]
  refine ⟨?_, fun hne => ⟨h.imports, h.declarations, fun name hi other hd he => ?_⟩⟩
  · rintro ⟨-, -, hne⟩ name hi hd
    exact hne name hi name hd rfl
  · exact hne name hi (he ▸ hd)

/-- **When a preamble binds a name twice.** After any run of calls on an empty ledger, identifiers
are imported once and names declared once; and no name is bound twice by the preamble exactly when
no name is imported by some call of the run and declared by some call of the run. -/
theorem Call.run_boundNames (s : Settings) (calls : List Call) :
    let l := (run s.ledger calls).1
    l.imports.names.Nodup ∧ l.declarations.names.Nodup ∧
      (l.boundNames.Nodup ↔
        ∀ name ∈ enteredNames Ledger.enteredImports s.ledger calls,
          name ∉ enteredNames Ledger.enteredDeclarations s.ledger calls) := by
  intro l
  have hwf : l.WellFormed := Ledger.Reachable.wellFormed ⟨s, calls, rfl⟩
  refine ⟨hwf.imports, hwf.declarations, ?_⟩
  have himports : ∀ name, name ∈ l.imports.names ↔
      name ∈ enteredNames Ledger.enteredImports s.ledger calls := by
    intro name
    rw [mem_names_run fun m other => congrArg Ledger.imports (m.merge_spec other).1]
    exact or_iff_right List.not_mem_nil
  have hdeclarations : ∀ name, name ∈ l.declarations.names ↔
      name ∈ enteredNames Ledger.enteredDeclarations s.ledger calls := by
    intro name
    rw [mem_names_run fun m other => congrArg Ledger.declarations (m.merge_spec other).1]
    exact or_iff_right List.not_mem_nil
  simp only [hwf.boundNames_nodup_iff, himports, hdeclarations]

/-- An import and a declaration of one name both succeed, and the preamble binds it twice. -/
theorem Call.boundNames_import_declare :
    let l := (run ({} : Settings).ledger [.importAs "./a" "x", .declare "x" "1"]).1
    l.preamble = "import x from \"./a.js\";\n\nconst x = 1;\n" ∧ ¬ l.boundNames.Nodup := by
  decide

end IdlBinding
