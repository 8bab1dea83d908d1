import IdlBinding.Proofs.Bindings

/-!
# What the operations of a ledger enter

Each operation is described once, by what it does to the two lists of bindings and by when it
succeeds; nothing later looks into its definition.

* `importAs` and `declare` put one binding. They succeed when it is admitted, and on a clash
  putting it changes nothing;
* `declareAll` and `importAll` put the admitted bindings and succeed when these are all;
* `merge` does the two one after the other (`merge_spec`), and a ledger that binds its names once
  is entered as a whole when nothing in it is bound otherwise (`merge_ok_iff`);
* every call leaves the ledger that the merge of its request leaves (`perform_ledger`), so that a
  fact about merged ledgers is one about runs of calls.
-/

namespace IdlBinding

/-- Imports as they are entered: with relative specifiers completed. -/
def Bindings.completed (extension : String) (b : Bindings) : Bindings :=
  b.map fun entry => (entry.1, Specifier.complete extension entry.2)

@[simp] theorem Bindings.completed_nil (extension : String) :
    Bindings.completed extension [] = [] := rfl

@[simp] theorem Bindings.completed_cons (extension identifier specifier : String)
    (b : Bindings) : Bindings.completed extension ((identifier, specifier) :: b) =
      (identifier, Specifier.complete extension specifier) :: b.completed extension := rfl

@[simp] theorem Bindings.names_completed (extension : String) (b : Bindings) :
    (b.completed extension).names = b.names := by
  rw [names, completed, List.map_map]
  rfl

/-- A clash is about a bound name, so that putting the binding changes nothing. -/
theorem Bindings.put_of_clash {b : Bindings} {entry : String × String} (h : ¬ b.Admits entry) :
    b.put entry = b := by
  apply put_of_mem
  by_contra hn
  exact h (Or.inl (lookup_eq_none_iff.mpr hn))

/-! ## One operation after another -/

/-- Continue with the ledger that an operation leaves, unless it fails. -/
def Outcome.andThen {α β : Type} (o : Outcome α) (next : Ledger → Outcome β) : Outcome β :=
  match o.result with
  | .error e => ⟨.error e, o.ledger, o.events⟩
  | .ok _ => { next o.ledger with events := o.events ++ (next o.ledger).events }

namespace Ledger

theorem declareAll_cons (l : Ledger) (key expression : String) (rest : Bindings) :
    l.declareAll ((key, expression) :: rest) =
      (l.declare key expression).andThen fun m => m.declareAll rest := by
  rcases h : (l.declare key expression).result with e | _
  · simp only [declareAll, Outcome.andThen, h]
  · simp only [declareAll, Outcome.andThen, h]

theorem importAll_cons (l : Ledger) (identifier specifier : String) (rest : Bindings) :
    l.importAll ((identifier, specifier) :: rest) =
      (l.importAs specifier identifier).andThen fun m => m.importAll rest := by
  rcases h : (l.importAs specifier identifier).result with e | _
  · simp only [importAll, Outcome.andThen, h]
  · simp only [importAll, Outcome.andThen, h]

/-- A merge reports itself, and then declares and imports. -/
theorem merge_eq_andThen (l other : Ledger) :
    l.merge other =
      let entered := (l.declareAll other.declarations).andThen fun m => m.importAll other.imports
      { entered with
        events := .merging other.imports.length other.declarations.length :: entered.events } := by
  rcases h : (l.declareAll other.declarations).result with e | _
  · simp only [merge, Outcome.andThen, h]
  · simp only [merge, Outcome.andThen, h]

/-! ## One binding -/

theorem importAs_ledger (l : Ledger) (specifier identifier : String) :
    (l.importAs specifier identifier).ledger =
      { l with
        imports := l.imports.put (identifier, Specifier.complete l.extension specifier) } := by
  rcases h : l.imports.lookup identifier with _ | existing
  · simp only [importAs, Bindings.put, h]
  · simp only [importAs, Bindings.put, h]
    split <;> rfl

theorem importAs_ok_iff {l : Ledger} {specifier identifier name : String} :
    (l.importAs specifier identifier).result = .ok name ↔ name = identifier ∧
      l.imports.Admits (identifier, Specifier.complete l.extension specifier) := by
  rw [Bindings.Admits]
  rcases h : l.imports.lookup identifier with _ | existing
  · simp only [importAs, h, Except.ok.injEq, true_or, and_true, eq_comm]
  · by_cases he : existing = Specifier.complete l.extension specifier
    · simp [importAs, h, he, eq_comm]
    · simp [importAs, h, he]

/-- An import that fails changes nothing. -/
theorem importAs_error {l : Ledger} {specifier identifier : String} {e : Error}
    (h : (l.importAs specifier identifier).result = .error e) :
    (l.importAs specifier identifier).ledger = l := by
  rw [importAs_ledger, Bindings.put_of_clash]
  intro ha
  rw [importAs_ok_iff.mpr ⟨rfl, ha⟩] at h
  cases h

theorem declare_ledger (l : Ledger) (key expression : String) :
    (l.declare key expression).ledger =
      { l with declarations := l.declarations.put (key, expression) } := by
  rcases h : l.declarations.lookup key with _ | existing
  · simp only [declare, Bindings.put, h]
  · simp only [declare, Bindings.put, h]
    split <;> rfl

theorem declare_ok_iff {l : Ledger} {key expression : String} :
    (l.declare key expression).result = .ok () ↔ l.declarations.Admits (key, expression) := by
  rw [Bindings.Admits]
  rcases h : l.declarations.lookup key with _ | existing
  · simp [declare, h]
  · by_cases he : existing = expression
    · simp [declare, h, he]
    · simp [declare, h, he]

/-- A declaration that fails changes nothing. -/
theorem declare_error {l : Ledger} {key expression : String} {e : Error}
    (h : (l.declare key expression).result = .error e) :
    (l.declare key expression).ledger = l := by
  rw [declare_ledger, Bindings.put_of_clash]
  intro ha
  rw [declare_ok_iff.mpr ha] at h
  cases h

/-! ## Many bindings -/

/-- Declarations one after another: the admitted ones are put, and all is well when these are
all. -/
theorem declareAll_spec (l : Ledger) (entries : Bindings) :
    (l.declareAll entries).ledger =
        { l with declarations := l.declarations.putAll (l.declarations.admitted entries) } ∧
      ((l.declareAll entries).result = .ok () ↔ l.declarations.admitted entries = entries) := by
  induction entries generalizing l with
  | nil => exact ⟨rfl, by simp [declareAll, Bindings.admitted]⟩
  | cons entry rest ih =>
    obtain ⟨key, expression⟩ := entry
    by_cases h : l.declarations.Admits (key, expression)
    · obtain ⟨hledger, hresult⟩ := ih (l.declare key expression).ledger
      simp only [declareAll, declare_ok_iff.mpr h, hledger, hresult]
      rw [declare_ledger, Bindings.admitted_cons_of_admits h, List.cons_inj_right]
      exact ⟨rfl, Iff.rfl⟩
    · rcases hr : (l.declare key expression).result with e | _
      · -- The clash ends it here: nothing is admitted, and the ledger is as it was.
        simp only [declareAll, hr, declare_error hr]
        rw [Bindings.admitted_cons_of_clash h]
        exact ⟨rfl, by simp⟩
      · exact absurd (declare_ok_iff.mp hr) h

/-- Imports one after another: as declarations, with relative specifiers completed. -/
theorem importAll_spec (l : Ledger) (entries : Bindings) :
    (l.importAll entries).ledger =
        { l with
          imports := l.imports.putAll (l.imports.admitted (entries.completed l.extension)) } ∧
      ((l.importAll entries).result = .ok () ↔
        l.imports.admitted (entries.completed l.extension) = entries.completed l.extension) := by
  induction entries generalizing l with
  | nil => exact ⟨rfl, by simp [importAll, Bindings.admitted]⟩
  | cons entry rest ih =>
    obtain ⟨identifier, specifier⟩ := entry
    rw [Bindings.completed_cons]
    by_cases h : l.imports.Admits (identifier, Specifier.complete l.extension specifier)
    · obtain ⟨hledger, hresult⟩ := ih (l.importAs specifier identifier).ledger
      simp only [importAll, importAs_ok_iff.mpr ⟨rfl, h⟩, hledger, hresult]
      rw [importAs_ledger, Bindings.admitted_cons_of_admits h, List.cons_inj_right]
      exact ⟨rfl, Iff.rfl⟩
    · rcases hr : (l.importAs specifier identifier).result with e | _
      · simp only [importAll, hr, importAs_error hr]
        rw [Bindings.admitted_cons_of_clash h]
        exact ⟨rfl, by simp⟩
      · exact absurd (importAs_ok_iff.mp hr).2 h

/-! ## Merging -/

/-- The declarations that a merge enters or finds entered. -/
def enteredDeclarations (l other : Ledger) : Bindings :=
  l.declarations.admitted other.declarations

/-- The imports that a merge enters or finds entered: none when a declaration clashes before. -/
def enteredImports (l other : Ledger) : Bindings :=
  if l.enteredDeclarations other = other.declarations then
    l.imports.admitted (other.imports.completed l.extension)
  else []

/-- **Merge.** What is entered is put, and all is well when nothing was left out. -/
theorem merge_spec (l other : Ledger) :
    (l.merge other).ledger =
        { extension := l.extension
          imports := l.imports.putAll (l.enteredImports other)
          declarations := l.declarations.putAll (l.enteredDeclarations other) } ∧
      ((l.merge other).result = .ok () ↔ l.enteredDeclarations other = other.declarations ∧
        l.enteredImports other = other.imports.completed l.extension) := by
  obtain ⟨hledger, hresult⟩ := l.declareAll_spec other.declarations
  rcases hr : (l.declareAll other.declarations).result with e | _
  · have hclash : l.enteredDeclarations other ≠ other.declarations := by
      intro hall
      rw [hresult.mpr hall] at hr
      cases hr
    rw [enteredImports, if_neg hclash]
    simp only [merge, hr, hledger, hclash, false_and, reduceCtorEq, and_true]
    rfl
  · have hall : l.enteredDeclarations other = other.declarations := hresult.mp hr
    obtain ⟨hledger', hresult'⟩ :=
      (l.declareAll other.declarations).ledger.importAll_spec other.imports
    rw [hledger] at hledger' hresult'
    rw [enteredImports, if_pos hall]
    simp only [merge, hr, hledger, hledger', hresult', eq_true hall, true_and, and_true]
    rfl

section Success

variable {l other : Ledger}

/-- A ledger that binds its names once is merged when no name is bound otherwise. Its specifiers
count as they would be entered here. -/
theorem merge_ok_iff (hi : other.imports.names.Nodup) (hd : other.declarations.names.Nodup) :
    (l.merge other).result = .ok () ↔ l.declarations.Compatible other.declarations ∧
      l.imports.Compatible (other.imports.completed l.extension) := by
  have hcompleted : (other.imports.completed l.extension).names.Nodup := by
    rw [Bindings.names_completed]
    exact hi
  rw [(l.merge_spec other).2, ← Bindings.admitted_eq_self_iff hd,
    ← Bindings.admitted_eq_self_iff hcompleted]
  refine and_congr_right fun hall => ?_
  rw [enteredImports, if_pos hall]

/-- A merge that succeeds enters everything. -/
theorem merge_ledger_of_ok (h : (l.merge other).result = .ok ()) :
    (l.merge other).ledger =
      { extension := l.extension
        imports := l.imports.putAll (other.imports.completed l.extension)
        declarations := l.declarations.putAll other.declarations } := by
  obtain ⟨hledger, hresult⟩ := l.merge_spec other
  obtain ⟨hd, hi⟩ := hresult.mp h
  rw [hledger, hd, hi]

end Success

end Ledger

/-! ## Calls -/

namespace Call

/-- What a call asks for, as a ledger to be merged. Its extension is not read. -/
def request : Call → Ledger
  | .importModule specifier => ⟨"", [(Specifier.identifier specifier, specifier)], []⟩
  | .importAs specifier identifier => ⟨"", [(identifier, specifier)], []⟩
  | .importRelative module =>
    ⟨"", [(Specifier.identifier ("./" ++ module), "./" ++ module)], []⟩
  | .declare key expression => ⟨"", [], [(key, expression)]⟩
  | .merge none => .empty ""
  | .merge (some other) => other

/-- An import leaves what the merge of a ledger with only this import leaves. -/
theorem importAs_ledger_eq_merge (l : Ledger) (specifier identifier : String) :
    (l.importAs specifier identifier).ledger =
      (l.merge ⟨"", [(identifier, specifier)], []⟩).ledger := by
  rcases h : (l.importAs specifier identifier).result with e | name
  · simp only [Ledger.merge, Ledger.declareAll, Ledger.importAll, h]
  · simp only [Ledger.merge, Ledger.declareAll, Ledger.importAll, h]

/-- **Every call is a merge** of what it asks for, as far as the ledger goes. -/
theorem perform_ledger (l : Ledger) (call : Call) :
    (call.perform l).ledger = (l.merge call.request).ledger := by
  cases call with
  | importModule specifier => exact importAs_ledger_eq_merge l specifier _
  | importAs specifier identifier => exact importAs_ledger_eq_merge l specifier identifier
  | importRelative module => exact importAs_ledger_eq_merge l ("./" ++ module) _
  | declare key expression =>
    change (l.declare key expression).ledger = _
    rcases h : (l.declare key expression).result with e | _
    · simp only [request, Ledger.merge, Ledger.declareAll, h]
    · simp only [request, Ledger.merge, Ledger.declareAll, Ledger.importAll, h]
  | merge other =>
    cases other with
    | none => rfl
    | some other => rfl

end Call

end IdlBinding
