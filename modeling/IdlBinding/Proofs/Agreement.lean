import IdlBinding.Proofs.Growth
import Mathlib.Data.List.Perm.Subperm

/-!
# Ledgers that agree

Two ledgers agree when they have one extension and bind the same names to the same values, in
whatever order. No operation can tell such ledgers apart.

* `Same` — each name has one and the same value in both, or in neither. Where names are bound once,
  this is what `agrees` decides (`agrees_iff`);
* **into** ledgers that bind the same: every operation gives the same result and reports the same
  events, and leaves ledgers that bind the same. A clash is no exception, since both sides meet the
  same entries up to the same clash (`Outcome.Same`);
* **of** ledgers that bind the same: the entries come in different orders, so only what does not
  depend on the order is the same. That is whether the merge succeeds, and what it then binds.
-/

namespace IdlBinding

/-! ## Lists -/

namespace Bindings

/-- Each name has the same value in both lists, or in neither. -/
def Same (a b : Bindings) : Prop := ∀ name, a.lookup name = b.lookup name

variable {a b c : Bindings}

theorem Same.putAll (hab : a.Same b) {d : Bindings} (hcd : c.Same d) :
    (a.putAll c).Same (b.putAll d) := by
  intro name
  rw [lookup_putAll, lookup_putAll, hab name, hcd name]

theorem Same.put (h : a.Same b) (entry : String × String) : (a.put entry).Same (b.put entry) :=
  h.putAll (c := [entry]) fun _ => rfl

/-- Completion acts on the values alone. -/
theorem lookup_completed (extension : String) (b : Bindings) (name : String) :
    (b.completed extension).lookup name =
      (b.lookup name).map (Specifier.complete extension) := by
  induction b with
  | nil => rfl
  | cons entry rest ih =>
    obtain ⟨identifier, specifier⟩ := entry
    rw [completed_cons]
    by_cases h : name = identifier
    · subst h
      rw [lookup_cons_self, lookup_cons_self, Option.map_some]
    · rw [lookup_cons_ne h, lookup_cons_ne h, ih]

theorem Same.completed (h : a.Same b) (extension : String) :
    (a.completed extension).Same (b.completed extension) := by
  intro name
  rw [lookup_completed, lookup_completed, h name]

theorem Same.compatible_iff (h : a.Same b) : c.Compatible a ↔ c.Compatible b := by
  refine forall_congr' fun name => ?_
  rw [h name]

/-- Lists that bind their names once agree exactly when they bind the same. -/
theorem agrees_iff_same (ha : a.names.Nodup) (hb : b.names.Nodup) :
    a.agrees b = true ↔ a.Same b := by
  refine ⟨fun h => ?_, fun h => agrees_of_lookup ha hb fun name value => by rw [h name]⟩
  rw [agrees, Bool.and_eq_true, beq_iff_eq, List.all_eq_true] at h
  obtain ⟨hlength, hall⟩ := h
  have hsubset : a ⊆ b := fun entry he => mem_of_lookup (beq_iff_eq.mp (hall entry he))
  -- As many entries as `b`, all of `b` and none twice: these are all entries of `b`.
  have hperm : a.Perm b :=
    (List.subperm_of_subset (ha.of_map Prod.fst) hsubset).perm_of_length_le
      (Nat.le_of_eq hlength.symm)
  refine fun name => Option.ext fun value => ?_
  rw [lookup_eq_some_iff ha, lookup_eq_some_iff hb, hperm.mem_iff]

end Bindings

/-! ## Ledgers -/

namespace Ledger

/-- One extension, and the same bindings. -/
structure Same (a b : Ledger) : Prop where
  /-- relative specifiers end alike -/
  extension : a.extension = b.extension
  /-- identifiers are imported from the same modules -/
  imports : a.imports.Same b.imports
  /-- names are declared with the same initializers -/
  declarations : a.declarations.Same b.declarations

variable {a b c : Ledger}

theorem Same.refl (l : Ledger) : l.Same l := ⟨rfl, fun _ => rfl, fun _ => rfl⟩

theorem Same.symm (h : a.Same b) : b.Same a :=
  ⟨h.extension.symm, fun name => (h.imports name).symm, fun name => (h.declarations name).symm⟩

theorem Same.trans (hab : a.Same b) (hbc : b.Same c) : a.Same c :=
  ⟨hab.extension.trans hbc.extension, fun name => (hab.imports name).trans (hbc.imports name),
    fun name => (hab.declarations name).trans (hbc.declarations name)⟩

theorem WellFormed.agrees_iff (ha : a.WellFormed) (hb : b.WellFormed) :
    a.agrees b = true ↔ a.Same b := by
  rw [agrees, Bool.and_eq_true, Bool.and_eq_true, beq_iff_eq,
    Bindings.agrees_iff_same ha.imports hb.imports,
    Bindings.agrees_iff_same ha.declarations hb.declarations]
  refine ⟨?_, fun h => ⟨⟨h.extension, h.imports⟩, h.declarations⟩⟩
  rintro ⟨⟨hext, himports⟩, hdeclarations⟩
  exact ⟨hext, himports, hdeclarations⟩

end Ledger

/-! ## Operations on ledgers that bind the same -/

/-- The same result and the same events, with ledgers that bind the same. -/
structure Outcome.Same {α : Type} (o p : Outcome α) : Prop where
  /-- the same value or the same error -/
  result : o.result = p.result
  /-- the same reports in the same order -/
  events : o.events = p.events
  /-- the same bindings afterwards -/
  ledger : o.ledger.Same p.ledger

theorem Outcome.Same.andThen {α β : Type} {o p : Outcome α} {f g : Ledger → Outcome β}
    (h : o.Same p) (hnext : ∀ {l m : Ledger}, l.Same m → (f l).Same (g m)) :
    (o.andThen f).Same (p.andThen g) := by
  have hrest := hnext h.ledger
  rcases hr : p.result with e | _
  · simp only [Outcome.andThen, h.result, hr]
    exact ⟨rfl, h.events, h.ledger⟩
  · simp only [Outcome.andThen, h.result, hr, h.events, hrest.events]
    exact ⟨hrest.result, rfl, hrest.ledger⟩

namespace Ledger

variable {a b : Ledger}

theorem Same.importAs (h : a.Same b) (specifier identifier : String) :
    (a.importAs specifier identifier).Same (b.importAs specifier identifier) := by
  have hledger : (a.importAs specifier identifier).ledger.Same
      (b.importAs specifier identifier).ledger := by
    rw [importAs_ledger, importAs_ledger, h.extension]
    exact ⟨rfl, h.imports.put _, h.declarations⟩
  -- Result and events depend on what the identifier is bound to, which is the same.
  have hreport : (a.importAs specifier identifier).result =
        (b.importAs specifier identifier).result ∧
      (a.importAs specifier identifier).events = (b.importAs specifier identifier).events := by
    simp only [Ledger.importAs, h.extension, h.imports identifier]
    rcases b.imports.lookup identifier with _ | existing
    · exact ⟨rfl, rfl⟩
    · by_cases he : existing = Specifier.complete b.extension specifier <;> simp [he]
  exact ⟨hreport.1, hreport.2, hledger⟩

theorem Same.declare (h : a.Same b) (key expression : String) :
    (a.declare key expression).Same (b.declare key expression) := by
  have hledger : (a.declare key expression).ledger.Same (b.declare key expression).ledger := by
    rw [declare_ledger, declare_ledger]
    exact ⟨h.extension, h.imports, h.declarations.put _⟩
  have hreport : (a.declare key expression).result = (b.declare key expression).result ∧
      (a.declare key expression).events = (b.declare key expression).events := by
    simp only [Ledger.declare, h.declarations key]
    rcases b.declarations.lookup key with _ | existing
    · exact ⟨rfl, rfl⟩
    · by_cases he : existing = expression <;> simp [he]
  exact ⟨hreport.1, hreport.2, hledger⟩

theorem Same.declareAll (h : a.Same b) (entries : Bindings) :
    (a.declareAll entries).Same (b.declareAll entries) := by
  induction entries generalizing a b with
  | nil => exact ⟨rfl, rfl, h⟩
  | cons entry rest ih =>
    obtain ⟨key, expression⟩ := entry
    rw [declareAll_cons, declareAll_cons]
    exact (h.declare key expression).andThen ih

theorem Same.importAll (h : a.Same b) (entries : Bindings) :
    (a.importAll entries).Same (b.importAll entries) := by
  induction entries generalizing a b with
  | nil => exact ⟨rfl, rfl, h⟩
  | cons entry rest ih =>
    obtain ⟨identifier, specifier⟩ := entry
    rw [importAll_cons, importAll_cons]
    exact (h.importAs specifier identifier).andThen ih

theorem Same.merge (h : a.Same b) (other : Ledger) : (a.merge other).Same (b.merge other) := by
  have hentered := (h.declareAll other.declarations).andThen
    (f := fun m => m.importAll other.imports) fun hm => hm.importAll other.imports
  rw [merge_eq_andThen, merge_eq_andThen]
  refine ⟨hentered.result, ?_, hentered.ledger⟩
  exact congrArg (List.cons _) hentered.events

/-- The entries of ledgers that bind the same come in different orders. Still both are entered as
a whole, or neither is. -/
theorem Same.merge_ok_iff (h : a.Same b) (ha : a.WellFormed) (hb : b.WellFormed) (l : Ledger) :
    (l.merge a).result = .ok () ↔ (l.merge b).result = .ok () := by
  rw [Ledger.merge_ok_iff ha.imports ha.declarations,
    Ledger.merge_ok_iff hb.imports hb.declarations, h.declarations.compatible_iff,
    (h.imports.completed l.extension).compatible_iff]

/-- Entered as a whole, they leave ledgers that bind the same. -/
theorem Same.merge_of_ok (h : a.Same b) {l : Ledger} (ha : (l.merge a).result = .ok ())
    (hb : (l.merge b).result = .ok ()) : (l.merge a).ledger.Same (l.merge b).ledger := by
  rw [merge_ledger_of_ok ha, merge_ledger_of_ok hb]
  exact ⟨rfl, Bindings.Same.putAll (fun _ => rfl) (h.imports.completed l.extension),
    Bindings.Same.putAll (fun _ => rfl) h.declarations⟩

end Ledger

/-! ## Calls -/

theorem Outcome.Same.lift {α : Type} {o p : Outcome α} (h : o.Same p) (f : α → Option String) :
    (Call.perform.lift f o).Same (Call.perform.lift f p) :=
  ⟨congrArg (Except.map f) h.result, h.events, h.ledger⟩

theorem Ledger.Same.perform {a b : Ledger} (h : a.Same b) (call : Call) :
    (call.perform a).Same (call.perform b) := by
  cases call with
  | importModule specifier => exact (h.importAs specifier _).lift some
  | importAs specifier identifier => exact (h.importAs specifier identifier).lift some
  | importRelative module => exact (h.importAs ("./" ++ module) _).lift some
  | declare key expression => exact (h.declare key expression).lift fun _ => none
  | merge other =>
    cases other with
    | none => exact ⟨rfl, rfl, h⟩
    | some other => exact (h.merge other).lift fun _ => none

theorem Ledger.WellFormed.perform {l : Ledger} (h : l.WellFormed) (call : Call) :
    (call.perform l).ledger.WellFormed := by
  rw [Call.perform_ledger]
  exact h.merge call.request

/-- **Agreement is a congruence.** Among ledgers that calls can lead to, agreement is an
equivalence, and ledgers that agree are alike in both roles that a ledger can have.
* Every call gives the same value or the same error on both, and leaves ledgers that agree, also
  when it fails.
* Merged into a third ledger, both succeed or both fail, and if they succeed the results agree. -/
theorem Ledger.agrees_congruence :
    Equivalence (fun a b : { l : Ledger // l.Reachable } => a.val.agrees b.val = true) ∧
    ∀ a b : Ledger, a.Reachable → b.Reachable → a.agrees b = true →
      (∀ call : Call, (call.perform a).result = (call.perform b).result ∧
        (call.perform a).ledger.agrees (call.perform b).ledger = true) ∧
      ∀ l : Ledger, ((l.merge a).result = .ok () ↔ (l.merge b).result = .ok ()) ∧
        (l.Reachable → (l.merge a).result = .ok () →
          (l.merge a).ledger.agrees (l.merge b).ledger = true) := by
  have hiff (a b : { l : Ledger // l.Reachable }) : a.val.agrees b.val = true ↔ a.val.Same b.val :=
    a.property.wellFormed.agrees_iff b.property.wellFormed
  refine ⟨⟨fun a => ?_, fun {a b} h => ?_, fun {a b c} hab hbc => ?_⟩,
    fun a b hra hrb h => ⟨fun call => ?_, fun l => ⟨?_, fun hrl hok => ?_⟩⟩⟩
  · exact (hiff a a).mpr (Same.refl a.val)
  · exact (hiff b a).mpr ((hiff a b).mp h).symm
  · exact (hiff a c).mpr (((hiff a b).mp hab).trans ((hiff b c).mp hbc))
  · have hcall := ((hiff ⟨a, hra⟩ ⟨b, hrb⟩).mp h).perform call
    refine ⟨hcall.result, ?_⟩
    exact ((hra.wellFormed.perform call).agrees_iff (hrb.wellFormed.perform call)).mpr hcall.ledger
  · exact ((hiff ⟨a, hra⟩ ⟨b, hrb⟩).mp h).merge_ok_iff hra.wellFormed hrb.wellFormed l
  · have hsame := (hiff ⟨a, hra⟩ ⟨b, hrb⟩).mp h
    have hok' := (hsame.merge_ok_iff hra.wellFormed hrb.wellFormed l).mp hok
    exact ((hrl.wellFormed.merge a).agrees_iff (hrl.wellFormed.merge b)).mpr
      (hsame.merge_of_ok hok hok')

/-- Two ledgers with their imports in different orders. A merge that stops at its second import
fails in the same way on both, and leaves ledgers that agree. -/
theorem Ledger.agrees_congruence_half_merged :
    let a : Ledger := ⟨".js", [("n", "./n.js"), ("f", "f")], []⟩
    let b : Ledger := ⟨".js", [("f", "f"), ("n", "./n.js")], []⟩
    let call : Call := .merge (some ⟨".js", [("g", "g"), ("n", "./m.js")], [("k", "1")]⟩)
    (call.perform a).result = .error (.importClash "n" "./n.js" "./m.js") ∧
    (call.perform b).result = .error (.importClash "n" "./n.js" "./m.js") ∧
    (call.perform a).ledger.imports = [("n", "./n.js"), ("f", "f"), ("g", "g")] ∧
    (call.perform a).ledger.agrees (call.perform b).ledger = true ∧
    ((empty ".mjs").merge a).ledger.agrees ((empty ".mjs").merge b).ledger = true := by
  have ha : Reachable ⟨".js", [("n", "./n.js"), ("f", "f")], []⟩ :=
    ⟨{}, [.importAs "./n" "n", .importAs "f" "f"], by decide⟩
  have hb : Reachable ⟨".js", [("f", "f"), ("n", "./n.js")], []⟩ :=
    ⟨{}, [.importAs "f" "f", .importAs "./n" "n"], by decide⟩
  intro a b call
  obtain ⟨hcalls, hmerges⟩ := agrees_congruence.2 a b ha hb (by decide)
  obtain ⟨hresult, hledger⟩ := hcalls call
  have hclash : (call.perform a).result = .error (.importClash "n" "./n.js" "./m.js") := by decide
  have hempty : (empty ".mjs").Reachable := ⟨⟨".mjs", 2⟩, [], rfl⟩
  exact ⟨hclash, hresult ▸ hclash, by decide, hledger,
    (hmerges (empty ".mjs")).2 hempty (by decide)⟩

end IdlBinding
