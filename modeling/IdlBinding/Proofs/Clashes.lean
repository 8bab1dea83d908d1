import IdlBinding.Proofs.Agreement
import Mathlib.Data.List.TakeWhile

/-!
# Where a merge stops

A merge in full: when it succeeds, what it leaves then, and what it leaves and reports when it does
not. The ledgers need not have one extension; the imports of the other ledger count with their
specifiers completed by this one.

* `added` — the bindings that are new to a list, in their order. Entering bindings appends these;
* `FirstClash` — the first binding that is bound otherwise. What stands in front of it is admitted,
  and entering stops there;
* `StopsAt` — the same for a whole ledger, where all declarations come before all imports.
-/

namespace IdlBinding

namespace Bindings

/-! ## New bindings -/

/-- The bindings whose names are not bound yet, in their order. -/
def added (b entries : Bindings) : Bindings := entries.filter fun entry => entry.1 ∉ b.names

theorem added_cons_of_mem {b : Bindings} {entry : String × String} (h : entry.1 ∈ b.names)
    (rest : Bindings) : b.added (entry :: rest) = b.added rest := by
  simp [added, h]

theorem added_cons_of_notMem {b : Bindings} {entry : String × String} (h : entry.1 ∉ b.names)
    (rest : Bindings) : b.added (entry :: rest) = entry :: b.added rest := by
  simp [added, h]

/-- A binding does not matter to the bindings of other names. -/
theorem added_concat {b rest : Bindings} {entry : String × String} (h : entry.1 ∉ rest.names) :
    added (b ++ [entry]) rest = b.added rest := by
  apply List.filter_congr
  intro other hother
  have hne : other.1 ≠ entry.1 := by
    intro he
    exact h (he ▸ List.mem_map_of_mem hother)
  simp [hne]

/-- **Entering bindings** of different names appends those that are new. -/
theorem putAll_eq_append {b entries : Bindings} (he : entries.names.Nodup) :
    b.putAll entries = b ++ b.added entries := by
  induction entries generalizing b with
  | nil => simp [added]
  | cons entry rest ih =>
    obtain ⟨hfresh, hrest⟩ := List.nodup_cons.mp he
    rw [putAll_cons, ih hrest]
    by_cases h : entry.1 ∈ b.names
    · rw [put_of_mem h, added_cons_of_mem h]
    · rw [put_of_notMem h, added_cons_of_notMem h, added_concat hfresh, List.append_assoc,
        List.singleton_append]

/-! ## The first clash -/

/-- The binding of `name` to `adding` is the first of `entries` that clashes, since the name is
bound to `existing`. -/
structure FirstClash (b entries front : Bindings) (name existing adding : String) : Prop where
  /-- the binding stands after `front` -/
  found : ∃ back, entries = front ++ (name, adding) :: back
  /-- nothing before it clashes -/
  admits : ∀ entry ∈ front, b.Admits entry
  /-- its name is bound -/
  bound : b.lookup name = some existing
  /-- and to another value -/
  differs : existing ≠ adding

theorem compatible_iff_forall_admits {b entries : Bindings} (he : entries.names.Nodup) :
    b.Compatible entries ↔ ∀ entry ∈ entries, b.Admits entry := by
  refine ⟨?_, ?_⟩
  · rintro h ⟨name, value⟩ hmem
    apply admits_iff.mpr
    intro existing hbound
    exact h name existing value hbound ((lookup_eq_some_iff he).mpr hmem)
  · intro h name x y hx hy
    exact admits_iff.mp (h (name, y) (mem_of_lookup hy)) x hx

/-- Bindings that cannot all be entered have a first that clashes. -/
theorem exists_firstClash {b entries : Bindings} (he : entries.names.Nodup)
    (h : ¬ b.Compatible entries) :
    ∃ front name existing adding, b.FirstClash entries front name existing adding := by
  rw [compatible_iff_forall_admits he] at h
  have hrest : entries.dropWhile (fun entry => b.Admits entry) ≠ [] := by
    intro hnil
    apply h
    simpa using List.dropWhile_eq_nil_iff.mp hnil
  obtain ⟨⟨name, adding⟩, back, hback⟩ := List.exists_cons_of_ne_nil hrest
  have hclash : ¬ b.Admits (name, adding) := by
    have hhead := List.head_dropWhile_not (fun entry => b.Admits entry) hrest
    simpa [hback] using hhead
  obtain ⟨hbound, hdiffers⟩ := not_or.mp hclash
  obtain ⟨existing, hexisting⟩ := Option.ne_none_iff_exists'.mp hbound
  refine ⟨entries.takeWhile (fun entry => b.Admits entry), name, existing, adding, ⟨back, ?_⟩,
    ?_, hexisting, ?_⟩
  · rw [← hback, List.takeWhile_append_dropWhile]
  · intro entry hmem
    simpa using List.mem_takeWhile_imp hmem
  · intro heq
    exact hdiffers (heq ▸ hexisting)

theorem admitted_append {b front : Bindings} (h : b.admitted front = front) (back : Bindings) :
    b.admitted (front ++ back) = front ++ (b.putAll front).admitted back := by
  induction front generalizing b with
  | nil => rfl
  | cons entry front ih =>
    by_cases ha : b.Admits entry
    · rw [admitted_cons_of_admits ha] at h
      rw [List.cons_append, admitted_cons_of_admits ha, ih (List.cons.inj h).2]
      rfl
    · rw [admitted_cons_of_clash ha] at h
      cases h

namespace FirstClash

variable {b entries front : Bindings} {name existing adding : String}

theorem nodup_front (h : b.FirstClash entries front name existing adding)
    (he : entries.names.Nodup) : front.names.Nodup := by
  obtain ⟨back, rfl⟩ := h.found
  rw [names_append] at he
  exact he.of_append_left

/-- All of the front is entered. -/
theorem admitted_front (h : b.FirstClash entries front name existing adding)
    (he : entries.names.Nodup) : b.admitted front = front := by
  have hfront := h.nodup_front he
  exact (admitted_eq_self_iff hfront).mpr ((compatible_iff_forall_admits hfront).mpr h.admits)

/-- What the front enters does not change the value that the clash is about. -/
theorem lookup_putAll_front (h : b.FirstClash entries front name existing adding) :
    (b.putAll front).lookup name = some existing := by
  rw [lookup_putAll, h.bound, Option.some_or]

/-- **Entering stops at the first clash.** -/
theorem admitted_eq (h : b.FirstClash entries front name existing adding)
    (he : entries.names.Nodup) : b.admitted entries = front := by
  have hfront := h.admitted_front he
  have hclash : ¬ (b.putAll front).Admits (name, adding) := by
    rw [admits_iff]
    intro hall
    exact h.differs (hall existing h.lookup_putAll_front)
  obtain ⟨back, rfl⟩ := h.found
  rw [admitted_append hfront, admitted_cons_of_clash hclash, List.append_nil]

end FirstClash

/-- A cut of the completed imports is a cut of the given ones. -/
theorem exists_of_completed_eq {extension name adding : String} {entries front back : Bindings}
    (h : entries.completed extension = front ++ (name, adding) :: back) :
    ∃ given specifier later, entries = given ++ (name, specifier) :: later ∧
      Bindings.completed extension given = front ∧
      Specifier.complete extension specifier = adding := by
  obtain ⟨given, rest, rfl, hgiven, hrest⟩ := List.map_eq_append_iff.mp h
  obtain ⟨⟨identifier, specifier⟩, later, rfl, hentry, -⟩ := List.map_eq_cons_iff.mp hrest
  obtain ⟨rfl, hadding⟩ := Prod.mk.inj hentry
  exact ⟨given, specifier, later, rfl, hgiven, hadding⟩

end Bindings

/-! ## Sequences of operations -/

namespace Outcome

variable {α β γ : Type}

theorem andThen_assoc (o : Outcome α) (f : Ledger → Outcome β) (g : Ledger → Outcome γ) :
    (o.andThen f).andThen g = o.andThen fun l => (f l).andThen g := by
  rcases ho : o.result with e | _
  · simp only [andThen, ho]
  · rcases hf : (f o.ledger).result with e | _
    · simp only [andThen, ho, hf]
    · simp only [andThen, ho, hf, List.append_assoc]

theorem result_andThen_of_ok {o : Outcome α} {a : α} (h : o.result = .ok a)
    (next : Ledger → Outcome β) : (o.andThen next).result = (next o.ledger).result := by
  simp only [andThen, h]

theorem result_andThen_of_error {o : Outcome α} {e : Error} (h : o.result = .error e)
    (next : Ledger → Outcome β) : (o.andThen next).result = .error e := by
  simp only [andThen, h]

/-- What goes through a list step by step can stop anywhere and go on from there. -/
theorem append_of_cons {f : Ledger → Bindings → Outcome Unit}
    {step : Ledger → String × String → Outcome α} (hnil : ∀ l, f l [] = ⟨.ok (), l, []⟩)
    (hcons : ∀ l entry rest, f l (entry :: rest) = (step l entry).andThen fun m => f m rest)
    (l : Ledger) (front back : Bindings) :
    f l (front ++ back) = (f l front).andThen fun m => f m back := by
  induction front generalizing l with
  | nil =>
    rw [hnil]
    rfl
  | cons entry front ih => simp only [List.cons_append, hcons, ih, andThen_assoc]

end Outcome

namespace Ledger

theorem declareAll_append (l : Ledger) (front back : Bindings) :
    l.declareAll (front ++ back) = (l.declareAll front).andThen fun m => m.declareAll back :=
  Outcome.append_of_cons (fun _ => rfl) (fun l entry rest => l.declareAll_cons entry.1 entry.2 rest)
    l front back

theorem importAll_append (l : Ledger) (front back : Bindings) :
    l.importAll (front ++ back) = (l.importAll front).andThen fun m => m.importAll back :=
  Outcome.append_of_cons (fun _ => rfl) (fun l entry rest => l.importAll_cons entry.1 entry.2 rest)
    l front back

/-- The first declaration that clashes is the one that is reported. -/
theorem declareAll_clash {l : Ledger} {entries front : Bindings} {key existing adding : String}
    (he : entries.names.Nodup)
    (h : l.declarations.FirstClash entries front key existing adding) :
    (l.declareAll entries).result = .error (.declarationClash key existing adding) := by
  obtain ⟨hledger, hresult⟩ := l.declareAll_spec front
  have hok := hresult.mpr (h.admitted_front he)
  rw [h.admitted_front he] at hledger
  have herror : ((l.declareAll front).ledger.declare key adding).result =
      .error (.declarationClash key existing adding) := by
    rw [hledger]
    simp [declare, h.lookup_putAll_front, h.differs]
  obtain ⟨back, rfl⟩ := h.found
  rw [declareAll_append, Outcome.result_andThen_of_ok hok, declareAll_cons,
    Outcome.result_andThen_of_error herror]

/-- The first import that clashes is the one that is reported, with its specifier completed. -/
theorem importAll_clash {l : Ledger} {entries front : Bindings}
    {identifier existing adding : String} (he : entries.names.Nodup)
    (h : l.imports.FirstClash (entries.completed l.extension) front identifier existing adding) :
    (l.importAll entries).result = .error (.importClash identifier existing adding) := by
  have hentered := h.admitted_front ((entries.names_completed l.extension).symm ▸ he)
  obtain ⟨back, hback⟩ := h.found
  -- The clash is about completed specifiers, the calls are about those that were given.
  obtain ⟨given, specifier, later, rfl, rfl, rfl⟩ := Bindings.exists_of_completed_eq hback
  obtain ⟨hledger, hresult⟩ := l.importAll_spec given
  have hok := hresult.mpr hentered
  rw [hentered] at hledger
  have herror : ((l.importAll given).ledger.importAs specifier identifier).result =
      .error (.importClash identifier existing (Specifier.complete l.extension specifier)) := by
    rw [hledger]
    simp [importAs, h.lookup_putAll_front, h.differs]
  rw [importAll_append, Outcome.result_andThen_of_ok hok, importAll_cons,
    Outcome.result_andThen_of_error herror]

/-! ## Merges -/

/-- The ledger with new declarations and imports at the ends of its lists. -/
def extendedBy (l : Ledger) (declarations imports : Bindings) : Ledger :=
  { extension := l.extension
    imports := l.imports ++ l.imports.added imports
    declarations := l.declarations ++ l.declarations.added declarations }

/-- A merge stops with an error, and has gone through these declarations and imports of the other
ledger before. -/
inductive StopsAt (l other : Ledger) : Error → Bindings → Bindings → Prop
  /-- at a declaration, and so before all imports -/
  | declaration {front : Bindings} {key existing adding : String}
    (clash : l.declarations.FirstClash other.declarations front key existing adding) :
    StopsAt l other (.declarationClash key existing adding) front []
  /-- at an import, with all declarations entered -/
  | imported {front : Bindings} {identifier existing adding : String}
    (declarations : l.declarations.Compatible other.declarations)
    (clash : l.imports.FirstClash (other.imports.completed l.extension) front identifier existing
      adding) :
    StopsAt l other (.importClash identifier existing adding) other.declarations front

section Merge

variable {l other : Ledger} (hi : other.imports.names.Nodup) (hd : other.declarations.names.Nodup)

include hi in
theorem nodup_completed : (other.imports.completed l.extension).names.Nodup := by
  rw [Bindings.names_completed]
  exact hi

include hi hd

/-- A merge stops at the first clash, if there is one. -/
theorem exists_stopsAt (h : (l.merge other).result ≠ .ok ()) :
    ∃ e declarations imports, l.StopsAt other e declarations imports := by
  rw [ne_eq, merge_ok_iff hi hd] at h
  by_cases hcompatible : l.declarations.Compatible other.declarations
  · have himports : ¬ l.imports.Compatible (other.imports.completed l.extension) := by
      intro himports
      exact h ⟨hcompatible, himports⟩
    obtain ⟨front, identifier, existing, adding, hclash⟩ :=
      Bindings.exists_firstClash (nodup_completed hi) himports
    exact ⟨_, _, _, .imported hcompatible hclash⟩
  · obtain ⟨front, key, existing, adding, hclash⟩ := Bindings.exists_firstClash hd hcompatible
    exact ⟨_, _, _, .declaration hclash⟩

/-- **A merge that stops** reports the clash, and keeps what was new before it. -/
theorem StopsAt.merge {e : Error} {declarations imports : Bindings}
    (h : l.StopsAt other e declarations imports) :
    (l.merge other).result = .error e ∧
      (l.merge other).ledger = l.extendedBy declarations imports := by
  rw [(l.merge_spec other).1, merge_eq_andThen]
  cases h with
  | declaration clash =>
    have hentered : l.enteredDeclarations other = declarations := clash.admitted_eq hd
    have hstops : l.enteredDeclarations other ≠ other.declarations := by
      obtain ⟨back, hback⟩ := clash.found
      rw [hentered, hback]
      simp
    refine ⟨Outcome.result_andThen_of_error (declareAll_clash hd clash) _, ?_⟩
    rw [enteredImports, if_neg hstops, hentered, Bindings.putAll_eq_append (clash.nodup_front hd)]
    simp [extendedBy, Bindings.added]
  | imported hcompatible clash =>
    have hentered : l.enteredDeclarations other = other.declarations :=
      (Bindings.admitted_eq_self_iff hd).mpr hcompatible
    obtain ⟨hledger, hresult⟩ := l.declareAll_spec other.declarations
    have hok := hresult.mpr hentered
    have hcompleted := nodup_completed (l := l) hi
    refine ⟨?_, ?_⟩
    · rw [Outcome.result_andThen_of_ok hok, hledger]
      exact importAll_clash hi clash
    · rw [enteredImports, if_pos hentered, hentered, clash.admitted_eq hcompleted,
        Bindings.putAll_eq_append hd, Bindings.putAll_eq_append (clash.nodup_front hcompleted)]
      rfl

end Merge

/-- **A merge, whatever comes of it.** Let the other ledger be the result of some run, with this or
another extension.
* The merge succeeds exactly when every name that both declare has one initializer, and every
  identifier that both import is imported here from the specifier of the other ledger, completed
  with the extension of this one.
* If it succeeds, the declarations and imports that are new are appended in their order.
* If it fails, the error is that of the first clash, declarations before imports, and what was new
  before the clash has been appended. -/
theorem merge_up_to_first_clash {l other : Ledger} (h : other.Reachable) :
    ((l.merge other).result = .ok () ↔
      (∀ key x y, l.declaration? key = some x → other.declaration? key = some y → x = y) ∧
      ∀ identifier x y, l.import? identifier = some x → other.import? identifier = some y →
        x = Specifier.complete l.extension y) ∧
    ((l.merge other).result = .ok () → (l.merge other).ledger =
      l.extendedBy other.declarations (other.imports.completed l.extension)) ∧
    ∀ e, (l.merge other).result = .error e → ∃ declarations imports,
      l.StopsAt other e declarations imports ∧
      (l.merge other).ledger = l.extendedBy declarations imports := by
  obtain ⟨hi, hd, -⟩ := h.wellFormed
  refine ⟨?_, fun hok => ?_, fun e he => ?_⟩
  · rw [merge_ok_iff hi hd]
    refine and_congr Iff.rfl (forall_congr' fun identifier => ?_)
    simp only [Bindings.lookup_completed, Option.map_eq_some_iff, import?]
    refine ⟨fun hall x y hx hy => hall x _ hx ⟨y, hy, rfl⟩, ?_⟩
    rintro hall x _ hx ⟨y, hy, rfl⟩
    exact hall x y hx hy
  · rw [merge_ledger_of_ok hok, Bindings.putAll_eq_append hd,
      Bindings.putAll_eq_append (nodup_completed hi)]
    rfl
  · have hne : (l.merge other).result ≠ .ok () := by
      rw [he]
      simp
    obtain ⟨e', declarations, imports, hstops⟩ := exists_stopsAt hi hd hne
    obtain ⟨hresult, hledger⟩ := hstops.merge hi hd
    obtain rfl : e' = e := Except.error.inj (hresult.symm.trans he)
    exact ⟨declarations, imports, hstops, hledger⟩

/-- A ledger with another extension. Its import `n` is entered with both extensions, its import `a`
clashes, and `z` is not reached. -/
theorem merge_up_to_first_clash_other_extension :
    let l : Ledger := ⟨".ts", [("a", "./a.ts")], [("k", "1")]⟩
    let other : Ledger := ⟨".js", [("n", "./n.js"), ("a", "./a.js"), ("z", "z")], [("m", "2")]⟩
    other.Reachable ∧
    (l.merge other).result = .error (.importClash "a" "./a.ts" "./a.js.ts") ∧
    (l.merge other).ledger =
      ⟨".ts", [("a", "./a.ts"), ("n", "./n.js.ts")], [("k", "1"), ("m", "2")]⟩ ∧
    ∃ declarations imports,
      l.StopsAt other (.importClash "a" "./a.ts" "./a.js.ts") declarations imports ∧
      (l.merge other).ledger = l.extendedBy declarations imports := by
  intro l other
  have hother : other.Reachable :=
    ⟨{}, [.importAs "./n" "n", .importAs "./a" "a", .importAs "z" "z", .declare "m" "2"],
      by decide⟩
  have hresult : (l.merge other).result = .error (.importClash "a" "./a.ts" "./a.js.ts") := by
    decide
  exact ⟨hother, hresult, by decide, (merge_up_to_first_clash hother).2.2 _ hresult⟩

end Ledger

end IdlBinding
