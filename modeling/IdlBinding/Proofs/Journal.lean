import IdlBinding.Proofs.Growth

/-!
# The events of a run tell the ledger

A binding is reported when it is entered and at no other time: not when it is found entered, not
when it clashes, and in a merge that stops half-way only up to the clash. So the reports of a run
can be read back, and what they tell is the ledger.

* `Event.pair?` — the two fields that an event with a given message tells;
* `Recorded` — the lists of a ledger have grown by what a list of events tells. This is shown of one
  entry, carried over sequences of entries and merges, and over the calls of a run.
-/

namespace IdlBinding

/-! ## Reading events -/

/-- What an event with the given message tells in two of its fields. -/
def Event.pair? (message first second : String) (e : Event) : Option (String × String) :=
  if e.message = message then
    (e.fields.lookup first).bind fun x => (e.fields.lookup second).map fun y => (x, y)
  else none

/-- The imports that events report, in order: identifiers and specifiers. -/
def reportedImports (events : List Event) : Bindings :=
  events.filterMap (Event.pair? "registering import" "identifier" "specifier")

/-- The declarations that events report, in order: names and initializers. -/
def reportedDeclarations (events : List Event) : Bindings :=
  events.filterMap (Event.pair? "registering declaration" "key" "expr")

theorem reportedImports_append (events more : List Event) :
    reportedImports (events ++ more) = reportedImports events ++ reportedImports more :=
  List.filterMap_append

theorem reportedDeclarations_append (events more : List Event) :
    reportedDeclarations (events ++ more) =
      reportedDeclarations events ++ reportedDeclarations more :=
  List.filterMap_append

/-- The ledger `new` is `old` with the reported bindings at the ends of its lists. -/
structure Recorded (old : Ledger) (events : List Event) (new : Ledger) : Prop where
  /-- what was imported is reported, and nothing else -/
  imports : new.imports = old.imports ++ reportedImports events
  /-- what was declared is reported, and nothing else -/
  declarations : new.declarations = old.declarations ++ reportedDeclarations events

namespace Recorded

theorem refl (l : Ledger) : Recorded l [] l :=
  ⟨(List.append_nil l.imports).symm, (List.append_nil l.declarations).symm⟩

theorem trans {a b c : Ledger} {events more : List Event} (hab : Recorded a events b)
    (hbc : Recorded b more c) : Recorded a (events ++ more) c := by
  refine ⟨?_, ?_⟩
  · rw [hbc.imports, hab.imports, reportedImports_append, List.append_assoc]
  · rw [hbc.declarations, hab.declarations, reportedDeclarations_append, List.append_assoc]

/-- The start of a merge is an event that reports no binding. -/
theorem merging {a b : Ledger} {events : List Event} (h : Recorded a events b)
    (imports declarations : Nat) : Recorded a (.merging imports declarations :: events) b :=
  ⟨h.imports, h.declarations⟩

theorem andThen {α β : Type} {l : Ledger} {o : Outcome α} {next : Ledger → Outcome β}
    (h : Recorded l o.events o.ledger)
    (hnext : ∀ m, Recorded m (next m).events (next m).ledger) :
    Recorded l (o.andThen next).events (o.andThen next).ledger := by
  rcases hr : o.result with e | _
  · simp only [Outcome.andThen, hr]
    exact h
  · simp only [Outcome.andThen, hr]
    exact h.trans (hnext o.ledger)

end Recorded

/-! ## Operations -/

namespace Ledger

theorem importAs_recorded (l : Ledger) (specifier identifier : String) :
    Recorded l (l.importAs specifier identifier).events
      (l.importAs specifier identifier).ledger := by
  rw [importAs]
  rcases l.imports.lookup identifier with _ | existing
  · exact ⟨rfl, (List.append_nil l.declarations).symm⟩
  · -- The identifier is bound: to the same module or not, nothing is entered or reported.
    by_cases he : existing = Specifier.complete l.extension specifier
    · simp only [if_pos he]
      exact Recorded.refl l
    · simp only [if_neg he]
      exact Recorded.refl l

theorem declare_recorded (l : Ledger) (key expression : String) :
    Recorded l (l.declare key expression).events (l.declare key expression).ledger := by
  rw [declare]
  rcases l.declarations.lookup key with _ | existing
  · exact ⟨(List.append_nil l.imports).symm, rfl⟩
  · by_cases he : existing = expression
    · simp only [if_pos he]
      exact Recorded.refl l
    · simp only [if_neg he]
      exact Recorded.refl l

theorem declareAll_recorded (l : Ledger) (entries : Bindings) :
    Recorded l (l.declareAll entries).events (l.declareAll entries).ledger := by
  induction entries generalizing l with
  | nil => exact Recorded.refl l
  | cons entry rest ih =>
    obtain ⟨key, expression⟩ := entry
    rw [declareAll_cons]
    exact (l.declare_recorded key expression).andThen ih

theorem importAll_recorded (l : Ledger) (entries : Bindings) :
    Recorded l (l.importAll entries).events (l.importAll entries).ledger := by
  induction entries generalizing l with
  | nil => exact Recorded.refl l
  | cons entry rest ih =>
    obtain ⟨identifier, specifier⟩ := entry
    rw [importAll_cons]
    exact (l.importAs_recorded specifier identifier).andThen ih

theorem merge_recorded (l other : Ledger) :
    Recorded l (l.merge other).events (l.merge other).ledger := by
  rw [merge_eq_andThen]
  exact ((l.declareAll_recorded other.declarations).andThen
    fun m => m.importAll_recorded other.imports).merging _ _

end Ledger

/-! ## Runs -/

namespace Call

theorem perform_recorded (l : Ledger) (call : Call) :
    Recorded l (call.perform l).events (call.perform l).ledger := by
  cases call with
  | importModule specifier => exact l.importAs_recorded specifier _
  | importAs specifier identifier => exact l.importAs_recorded specifier identifier
  | importRelative module => exact l.importAs_recorded ("./" ++ module) _
  | declare key expression => exact l.declare_recorded key expression
  | merge other =>
    cases other with
    | none => exact Recorded.refl l
    | some other => exact l.merge_recorded other

theorem run_recorded (l : Ledger) (calls : List Call) :
    Recorded l (run l calls).2 (run l calls).1 := by
  induction calls generalizing l with
  | nil => exact Recorded.refl l
  | cons call calls ih => exact (perform_recorded l call).trans (ih (call.perform l).ledger)

/-- **The events of a run are its ledger.** After any run of calls on an empty ledger, whether they
succeed or fail, the reported imports in their order are the imports of the ledger, and the
reported declarations are its declarations. -/
theorem run_reported (s : Settings) (calls : List Call) :
    reportedImports (run s.ledger calls).2 = (run s.ledger calls).1.imports ∧
      reportedDeclarations (run s.ledger calls).2 = (run s.ledger calls).1.declarations := by
  obtain ⟨himports, hdeclarations⟩ := run_recorded s.ledger calls
  exact ⟨himports.symm, hdeclarations.symm⟩

/-- A merge that clashes at its second import has reported its declaration and its first import. -/
example :
    (run ({} : Settings).ledger [.importAs "./n" "n",
      .merge (some ⟨".mjs", [("g", "./g"), ("n", "./m")], [("k", "1")]⟩)]).2.map Event.fields =
    [[("identifier", "n"), ("specifier", "./n.js")], [("imports", "2"), ("declarations", "1")],
      [("key", "k"), ("expr", "1")], [("identifier", "g"), ("specifier", "./g.js")]] := by
  decide

end Call

end IdlBinding
