import IdlBinding.Proofs.Entering
import IdlBinding.Settings

/-!
# Ledgers only grow

What holds of a ledger through every run of calls, those that fail and merges that stop half-way
included.

* `Extends` — one ledger continues another: the same extension, and both lists longer at their
  ends only. Every call leads to a ledger that continues the one before it;
* `WellFormed` — names are bound once in each list, and relative specifiers are completed. Every
  call keeps this, and the empty ledger has it, so every `Reachable` ledger has it.

Both are proved of merges and carried over to calls and runs, since a call leaves what a merge
leaves.
-/

namespace IdlBinding

/-! ## Completed specifiers -/

namespace Specifier

/-- A relative specifier ends with the extension once it is completed. -/
theorem suffix_complete {extension specifier : String}
    (h : isRelative (complete extension specifier) = true) :
    extension.toList <:+ (complete extension specifier).toList := by
  rw [complete] at h ⊢
  split at h
  next hc =>
    rw [if_pos hc, String.toList_append]
    exact List.suffix_append specifier.toList extension.toList
  next hc =>
    rw [if_neg hc]
    -- It is relative and was left alone, so it has the extension.
    simpa [h] using hc

/-- A specifier that has the extension, or needs none, is complete. -/
theorem complete_of_suffix {extension specifier : String}
    (h : isRelative specifier = true → extension.toList <:+ specifier.toList) :
    complete extension specifier = specifier := by
  rw [complete, if_neg]
  intro hc
  rw [Bool.and_eq_true, Bool.not_eq_true'] at hc
  rw [List.isSuffixOf_iff_suffix.mpr (h hc.1)] at hc
  cases hc.2

end Specifier

/-! ## Continuing a ledger -/

namespace Ledger

/-- The ledger `new` continues `old`. -/
structure Extends (old new : Ledger) : Prop where
  /-- relative specifiers end as before -/
  extension : new.extension = old.extension
  /-- imports are entered at the end -/
  imports : old.imports <+: new.imports
  /-- declarations are entered at the end -/
  declarations : old.declarations <+: new.declarations

theorem Extends.refl (l : Ledger) : l.Extends l :=
  ⟨rfl, List.prefix_rfl, List.prefix_rfl⟩

theorem Extends.trans {a b c : Ledger} (hab : a.Extends b) (hbc : b.Extends c) : a.Extends c :=
  ⟨hbc.extension.trans hab.extension, hab.imports.trans hbc.imports,
    hab.declarations.trans hbc.declarations⟩

/-- What is imported stays imported from the same module. -/
theorem Extends.import? {old new : Ledger} (h : old.Extends new) {identifier specifier : String}
    (hi : old.import? identifier = some specifier) : new.import? identifier = some specifier :=
  Bindings.lookup_mono h.imports hi

theorem merge_extends (l other : Ledger) : l.Extends (l.merge other).ledger := by
  rw [(l.merge_spec other).1]
  exact ⟨rfl, Bindings.prefix_putAll _ _, Bindings.prefix_putAll _ _⟩

/-! ## Well-formed ledgers -/

/-- Each list binds a name once, and relative specifiers are completed. -/
structure WellFormed (l : Ledger) : Prop where
  /-- identifiers are imported once -/
  imports : l.imports.names.Nodup
  /-- names are declared once -/
  declarations : l.declarations.names.Nodup
  /-- relative specifiers end with the extension -/
  completed : ∀ entry ∈ l.imports,
    Specifier.isRelative entry.2 = true → l.extension.toList <:+ entry.2.toList

theorem wellFormed_empty (extension : String) : (empty extension).WellFormed :=
  ⟨List.nodup_nil, List.nodup_nil, fun _ he => absurd he List.not_mem_nil⟩

/-- The entered imports are completed, whatever ledger they come from. -/
theorem enteredImports_completed (l : Ledger) {other : Ledger} {entry : String × String}
    (he : entry ∈ l.enteredImports other) (hr : Specifier.isRelative entry.2 = true) :
    l.extension.toList <:+ entry.2.toList := by
  rw [enteredImports] at he
  split at he
  · obtain ⟨given, -, rfl⟩ := List.mem_map.mp (Bindings.mem_of_mem_admitted he)
    exact Specifier.suffix_complete hr
  · cases he

theorem WellFormed.merge {l : Ledger} (h : l.WellFormed) (other : Ledger) :
    (l.merge other).ledger.WellFormed := by
  rw [(l.merge_spec other).1]
  refine ⟨Bindings.nodup_putAll h.imports _, Bindings.nodup_putAll h.declarations _, ?_⟩
  intro entry he hr
  rcases Bindings.mem_putAll he with he | he
  · exact h.completed entry he hr
  · exact l.enteredImports_completed he hr

/-- Stored specifiers are left alone by another completion. -/
theorem WellFormed.completed_imports {l : Ledger} (h : l.WellFormed) :
    l.imports.completed l.extension = l.imports := by
  rw [Bindings.completed]
  refine (List.map_congr_left fun entry he => ?_).trans (List.map_id l.imports)
  rw [Specifier.complete_of_suffix (h.completed entry he)]
  rfl

/-- The ledger is left by some run of calls on the empty ledger of some settings. The ledgers that
the run merges may be any. -/
def Reachable (l : Ledger) : Prop :=
  ∃ (s : Settings) (calls : List Call), (Call.run s.ledger calls).1 = l

end Ledger

/-! ## Runs -/

namespace Call

theorem run_cons (l : Ledger) (call : Call) (calls : List Call) :
    (run l (call :: calls)).1 = (run (call.perform l).ledger calls).1 := rfl

/-- What holds of a ledger and is kept by merges holds after every run. -/
theorem run_induction {P : Ledger → Prop} (hstep : ∀ l other, P l → P (l.merge other).ledger)
    {l : Ledger} (hl : P l) (calls : List Call) : P (run l calls).1 := by
  induction calls generalizing l with
  | nil => exact hl
  | cons call calls ih =>
    rw [run_cons, perform_ledger]
    exact ih (hstep l call.request hl)

theorem run_extends (l : Ledger) (calls : List Call) : l.Extends (run l calls).1 :=
  run_induction (fun m other h => h.trans (m.merge_extends other)) (Ledger.Extends.refl l) calls

theorem run_wellFormed {l : Ledger} (h : l.WellFormed) (calls : List Call) :
    (run l calls).1.WellFormed :=
  run_induction (fun _ other hm => hm.merge other) h calls

end Call

theorem Ledger.Reachable.wellFormed {l : Ledger} (h : l.Reachable) : l.WellFormed := by
  obtain ⟨s, calls, rfl⟩ := h
  exact Call.run_wellFormed (Ledger.wellFormed_empty s.extension) calls

/-! ## Calls that fail, and calls that import -/

namespace Call

/-- The specifier that a call imports, as it is given. -/
def specifier? : Call → Option String
  | .importModule specifier => some specifier
  | .importAs specifier _ => some specifier
  | .importRelative module => some ("./" ++ module)
  | .declare _ _ => none
  | .merge _ => none

/-- A call that imports is an import under some name. -/
theorem perform_of_specifier? {call : Call} {specifier : String}
    (h : call.specifier? = some specifier) (l : Ledger) :
    ∃ identifier, call.perform l = perform.lift some (l.importAs specifier identifier) := by
  cases call with
  | importModule given =>
    obtain rfl : given = specifier := Option.some.inj h
    exact ⟨Specifier.identifier given, rfl⟩
  | importAs given identifier =>
    obtain rfl : given = specifier := Option.some.inj h
    exact ⟨identifier, rfl⟩
  | importRelative module =>
    obtain rfl : "./" ++ module = specifier := Option.some.inj h
    exact ⟨Specifier.identifier ("./" ++ module), rfl⟩
  | declare key expression => cases h
  | merge other => cases h

theorem lift_error {α : Type} {f : α → Option String} {o : Outcome α} {e : Error}
    (h : (perform.lift f o).result = .error e) : o.result = .error e := by
  rcases hr : o.result with e' | value
  · simpa [perform.lift, hr, Except.map] using h
  · simp [perform.lift, hr, Except.map] at h

theorem lift_some_ok {o : Outcome String} {name : String}
    (h : (perform.lift some o).result = .ok (some name)) : o.result = .ok name := by
  rcases hr : o.result with e | value
  · simp [perform.lift, hr, Except.map] at h
  · simpa [perform.lift, hr, Except.map] using h

/-- **A failed import or declaration changes nothing.** -/
theorem perform_error {l : Ledger} {call : Call} {e : Error}
    (hmerge : ∀ other, call ≠ .merge other) (h : (call.perform l).result = .error e) :
    (call.perform l).ledger = l := by
  cases call with
  | importModule specifier => exact Ledger.importAs_error (lift_error h)
  | importAs specifier identifier => exact Ledger.importAs_error (lift_error h)
  | importRelative module => exact Ledger.importAs_error (lift_error h)
  | declare key expression => exact Ledger.declare_error (lift_error h)
  | merge other => exact absurd rfl (hmerge other)

/-- **An import that succeeds is bound.** The name it gives back is imported from the completed
specifier. -/
theorem perform_import_ok {l : Ledger} {call : Call} {specifier name : String}
    (hs : call.specifier? = some specifier) (h : (call.perform l).result = .ok (some name)) :
    (call.perform l).ledger.import? name = some (Specifier.complete l.extension specifier) := by
  obtain ⟨identifier, hp⟩ := perform_of_specifier? hs l
  rw [hp] at h ⊢
  obtain ⟨rfl, ha⟩ := Ledger.importAs_ok_iff.mp (lift_some_ok h)
  change (l.importAs specifier name).ledger.import? name = _
  rw [Ledger.importAs_ledger]
  exact Bindings.lookup_put_of_admits ha

/-- **A run only adds.** Take the ledger of any run.
* Further calls continue it, and leave relative specifiers that end with the extension.
* An import or a declaration that fails there leaves it as it is.
* An import that succeeds there binds the name it gives back to the completed specifier, and no
  later call changes that. -/
theorem run_only_adds (s : Settings) (calls : List Call) :
    let l := (run s.ledger calls).1
    (∀ later, l.Extends (run l later).1 ∧
      ∀ entry ∈ (run l later).1.imports,
        Specifier.isRelative entry.2 = true → s.extension.toList <:+ entry.2.toList) ∧
    (∀ (call : Call) (e : Error), (∀ other, call ≠ .merge other) →
      (call.perform l).result = .error e → (call.perform l).ledger = l) ∧
    (∀ (call : Call) (specifier name : String), call.specifier? = some specifier →
      (call.perform l).result = .ok (some name) → ∀ later,
        (run (call.perform l).ledger later).1.import? name =
          some (Specifier.complete s.extension specifier)) := by
  intro l
  have hext : l.extension = s.extension := (run_extends s.ledger calls).extension
  have hwf : l.WellFormed := Ledger.Reachable.wellFormed ⟨s, calls, rfl⟩
  refine ⟨fun later => ⟨run_extends l later, fun entry he hr => ?_⟩,
    fun call e hmerge h => perform_error hmerge h, fun call specifier name hs h later => ?_⟩
  · have hlater := (run_wellFormed hwf later).completed entry he hr
    rwa [(run_extends l later).extension, hext] at hlater
  · have hbound := perform_import_ok hs h
    rw [hext] at hbound
    exact (run_extends (call.perform l).ledger later).import? hbound

/-- A clash at `x` leaves the ledger alone, and `c` stays where it was first imported from. -/
theorem run_only_adds_after_clash :
    let l := (run ({} : Settings).ledger [.importAs "./a" "x", .declare "x" "1"]).1
    ((importAs "./b" "x").perform l).result = .error (.importClash "x" "./a.js" "./b.js") ∧
    ((importAs "./b" "x").perform l).ledger = l ∧
    ((importRelative "c").perform l).result = .ok (some "c") ∧
    (run ((importRelative "c").perform l).ledger [.importAs "./d" "c"]).1.import? "c" =
      some "./c.js" := by
  have h := run_only_adds {} [.importAs "./a" "x", .declare "x" "1"]
  exact ⟨rfl, h.2.1 (importAs "./b" "x") _ (fun _ hc => by cases hc) rfl, rfl,
    h.2.2 (importRelative "c") "./c" "c" rfl rfl [.importAs "./d" "c"]⟩

end Call

end IdlBinding
