import IdlBinding.Proofs.KeyText
import IdlBinding.Proofs.PatchText
import IdlBinding.Proofs.Rendering
import Mathlib.Data.List.Forall2

/-!
# The text of a table

What rendering makes of a table that was filled by a run of calls, in terms of the calls and of what
the table says of each key.

* It fails if some key is a symbol without a reference. The places are gone through one after
  another, and the keys of a place in the order of their first calls, so the error is that of the
  first such symbol in this order (`render_eq_error_iff`).
* Else the text has a `Section` for each place that has properties, with a line for each key. The
  line holds the value of the property and names the attributes that are true.
-/

namespace IdlBinding

/-! ## The first step that fails -/

section Failures

variable {α β γ δ ε : Type} {f : α → Except ε β}

theorem exists_ok_iff {x : Except ε α} : (∃ a, x = .ok a) ↔ ∀ e, x ≠ .error e := by
  cases x with
  | error e => simp
  | ok a => simp

theorem bind_ok_eq_error_iff {x : Except ε α} (g : α → β) (e : ε) :
    (x.bind fun a => .ok (g a)) = .error e ↔ x = .error e := by
  cases x with
  | error e' => simp [Except.bind]
  | ok a => simp [Except.bind]

theorem mapM_cons_eq_error_iff (a : α) (l : List α) (e : ε) :
    (a :: l).mapM f = .error e ↔
      f a = .error e ∨ (∃ b, f a = .ok b) ∧ l.mapM f = .error e := by
  rw [List.mapM_cons]
  rcases f a with e' | b
  · simp [bind, Except.bind]
  · refine (bind_ok_eq_error_iff (b :: ·) e).trans ?_
    simp

theorem mapM_append_eq_error_iff (l m : List α) (e : ε) :
    (l ++ m).mapM f = .error e ↔
      l.mapM f = .error e ∨ (∃ r, l.mapM f = .ok r) ∧ m.mapM f = .error e := by
  rw [List.mapM_append]
  rcases l.mapM f with e' | r
  · simp [bind, Except.bind]
  · refine (bind_ok_eq_error_iff (r ++ ·) e).trans ?_
    simp

/-- **Steps end at the first one that fails.** -/
theorem mapM_eq_error_iff (l : List α) (e : ε) :
    l.mapM f = .error e ↔ ∃ before a after, l = before ++ a :: after ∧
      (∀ b ∈ before, ∃ r, f b = .ok r) ∧ f a = .error e := by
  induction l with
  | nil => simp [pure, Except.pure]
  | cons a l ih =>
    rw [mapM_cons_eq_error_iff, ih]
    constructor
    · rintro (herror | ⟨hok, before, a', after, rfl, hbefore, herror⟩)
      · exact ⟨[], a, l, rfl, by simp, herror⟩
      · exact ⟨a :: before, a', after, rfl, List.forall_mem_cons.mpr ⟨hok, hbefore⟩, herror⟩
    · rintro ⟨before, a', after, hcut, hbefore, herror⟩
      cases before with
      | nil =>
        obtain ⟨rfl, -⟩ := List.cons.inj hcut
        exact .inl herror
      | cons b before =>
        obtain ⟨rfl, rfl⟩ := List.cons.inj hcut
        obtain ⟨hok, hbefore⟩ := List.forall_mem_cons.mp hbefore
        exact .inr ⟨hok, before, a', after, rfl, hbefore, herror⟩

/-- Rounds of steps fail as their steps in one row do. -/
theorem mapM_rounds_eq_error_iff {F : γ → Except ε δ} {items : γ → List α}
    (h : ∀ w e, F w = .error e ↔ (items w).mapM f = .error e) (ws : List γ) (e : ε) :
    ws.mapM F = .error e ↔ (ws.flatMap items).mapM f = .error e := by
  induction ws with
  | nil => simp [pure, Except.pure]
  | cons w ws ih =>
    rw [mapM_cons_eq_error_iff, List.flatMap_cons, mapM_append_eq_error_iff, exists_ok_iff,
      exists_ok_iff, ih]
    simp only [ne_eq, h]

end Failures

/-! ## Keys without a text -/

namespace PropertyKey

/-- The description is that of a well-known symbol, in one of its two forms. -/
def IsWellKnown (description : String) : Prop :=
  ∃ name, name ≠ "" ∧
    (description = "Symbol." ++ name ∨ description = "Symbol(Symbol." ++ name ++ ")")

/-- The first symbol among keys that is not well-known. -/
def FirstUnknown (keys : List PropertyKey) (description : String) : Prop :=
  ∃ before after, keys = before ++ .symbol description :: after ∧
    (∀ d, .symbol d ∈ before → IsWellKnown d) ∧ ¬ IsWellKnown description

theorem isWellKnown_iff {d : String} : IsWellKnown d ↔ ∃ name, name ≠ "" ∧ Spelling name d := by
  refine exists_congr fun name => and_congr_right fun _ => ?_
  constructor
  · rintro (rfl | rfl)
    · exact .bare
    · exact .wrapped
  · rintro (_ | _)
    · exact .inl rfl
    · exact .inr rfl

/-- If there is a symbol that is not well-known, there is a first one. -/
theorem exists_firstUnknown_iff {keys : List PropertyKey} :
    (∃ d, FirstUnknown keys d) ↔ ∃ d, .symbol d ∈ keys ∧ ¬ IsWellKnown d := by
  constructor
  · rintro ⟨d, before, after, rfl, -, hunknown⟩
    exact ⟨d, List.mem_append_right _ List.mem_cons_self, hunknown⟩
  · rintro ⟨d, hmem, hunknown⟩
    induction keys with
    | nil => cases hmem
    | cons key keys ih =>
      by_cases hfirst : ∃ d', key = .symbol d' ∧ ¬ IsWellKnown d'
      · obtain ⟨d', rfl, hunknown'⟩ := hfirst
        exact ⟨d', [], keys, rfl, by simp, hunknown'⟩
      · have hrest : .symbol d ∈ keys := by
          rcases List.mem_cons.mp hmem with rfl | hrest
          · exact absurd ⟨d, rfl, hunknown⟩ hfirst
          · exact hrest
        obtain ⟨found, before, after, rfl, hbefore, hfound⟩ := ih hrest
        refine ⟨found, key :: before, after, rfl, fun d' hd' => ?_, hfound⟩
        rcases List.mem_cons.mp hd' with heq | hd'
        · by_contra hunknown'
          exact hfirst ⟨d', heq.symm, hunknown'⟩
        · exact hbefore d' hd'

/-- A reference is refused for what is not well-known. -/
theorem reference_eq_error_iff {d : String} {err : Error} :
    reference d = .error err ↔ ¬ IsWellKnown d ∧ err = .unsupportedSymbol d := by
  have hsome (found : String) : reference? d = some found → IsWellKnown d := by
    intro hfound
    obtain ⟨name, hne, hd, -⟩ := reference?_eq_some_iff.mp hfound
    exact isWellKnown_iff.mpr ⟨name, hne, hd⟩
  have hnone : reference? d = none → ¬ IsWellKnown d := by
    intro hnothing hknown
    obtain ⟨name, hne, hd⟩ := isWellKnown_iff.mp hknown
    rw [reference?_eq_some_iff.mpr ⟨name, hne, hd, rfl⟩] at hnothing
    cases hnothing
  rw [reference]
  rcases hd : reference? d with _ | found
  · simp [hnone hd, eq_comm]
  · simp [hsome found hd]

theorem access_eq_error_iff (key : PropertyKey) (err : Error) :
    key.access = .error err ↔
      ∃ d, key = .symbol d ∧ ¬ IsWellKnown d ∧ err = .unsupportedSymbol d := by
  cases key with
  | text name => simp [access]
  | symbol d =>
    refine (bind_ok_eq_error_iff _ err).trans (reference_eq_error_iff.trans ?_)
    simp

/-- A key has a text unless it is a symbol that is not well-known. -/
theorem exists_access_iff (key : PropertyKey) :
    (∃ found, key.access = .ok found) ↔ ∀ d, key = .symbol d → IsWellKnown d := by
  rw [exists_ok_iff]
  simp only [ne_eq, access_eq_error_iff]
  constructor
  · intro h d hkey
    by_contra hunknown
    exact h _ ⟨d, hkey, hunknown, rfl⟩
  · rintro h err ⟨d, hkey, hunknown, -⟩
    exact hunknown (h d hkey)

/-- The texts of keys are asked for in their order, up to the first one that has none. -/
theorem mapM_access_eq_error_iff (keys : List PropertyKey) (err : Error) :
    keys.mapM access = .error err ↔
      ∃ d, FirstUnknown keys d ∧ err = .unsupportedSymbol d := by
  rw [mapM_eq_error_iff]
  simp only [exists_access_iff, access_eq_error_iff]
  constructor
  · rintro ⟨before, _, after, hcut, hbefore, d, rfl, hunknown, rfl⟩
    exact ⟨d, ⟨before, after, hcut, fun d' hd' => hbefore _ hd' d' rfl, hunknown⟩, rfl⟩
  · rintro ⟨d, ⟨before, after, hcut, hbefore, hunknown⟩, rfl⟩
    refine ⟨before, _, after, hcut, ?_, d, rfl, hunknown, rfl⟩
    rintro _ hkey d' rfl
    exact hbefore d' hkey

end PropertyKey

/-! ## Failures of rendering -/

namespace PropertyTable

/-- **Rendering asks for the texts of all keys**, place after place, and fails as this does. -/
theorem render_eq_error_iff (t : PropertyTable) (err : Error) :
    t.render = .error err ↔ (places.flatMap fun w => (t.properties w).keys).mapM
      PropertyKey.access = .error err := by
  have hentries (ps : Properties) (e : Error) : ps.mapM definitionEntry = .error e ↔
      ps.keys.mapM PropertyKey.access = .error e := by
    induction ps with
    | nil => simp [Properties.keys, pure, Except.pure]
    | cons entry ps ih =>
      rw [Properties.keys_cons, mapM_cons_eq_error_iff, mapM_cons_eq_error_iff, ih, exists_ok_iff,
        exists_ok_iff]
      simp only [definitionEntry, bind, ne_eq, bind_ok_eq_error_iff]
  have hplace (w : Place) (e : Error) : t.definition w = .error e ↔
      (t.properties w).keys.mapM PropertyKey.access = .error e :=
    (bind_ok_eq_error_iff _ e).trans (hentries (t.properties w) e)
  exact (bind_ok_eq_error_iff _ err).trans (mapM_rounds_eq_error_iff hplace places err)

end PropertyTable

/-! ## Descriptors and lines -/

/-- The attributes that are true, in the order of descriptors. -/
def Shape.holding (s : Shape) : List Attribute :=
  PropertyKind.data.attributes.filter fun a => s.get a

/-- The descriptor of a property: its value, and the attributes that are true. -/
def Property.descriptor (p : Property) : String :=
  "\x7b value: " ++ p.value ++ String.join (p.shape.holding.map fun a => ", " ++ a.name ++ ": true")
    ++ " \x7d"

/-- Definitions take attributes for false, so those that differ are the true ones. -/
theorem Shape.field_sealed_difference (s : Shape) (a : Attribute) :
    a.field (sealed.difference s .data a) =
      String.join (([a].filter fun a => s.get a).map fun a => ", " ++ a.name ++ ": true") := by
  have hmem : a ∈ PropertyKind.data.attributes := by cases a <;> decide
  have hsealed : sealed.get a = false := by cases a <;> rfl
  cases hget : s.get a with
  | false => simp [difference, hsealed, hget, Attribute.field]
  | true =>
    have htrue : toString true = "true" := rfl
    simp [difference, hsealed, hget, hmem, Attribute.field, htrue, String.append_assoc]

/-- The patch from what definitions take for granted is the descriptor. -/
theorem Shape.sealed_patch (p : Property) :
    sealed.patch p.shape .data (some p.value) = some p.descriptor := by
  rcases h : sealed.patch p.shape .data (some p.value) with _ | text
  · cases (patch_eq_none_iff.mp h).1
  · obtain ⟨body, rfl, hbody⟩ := patch_eq_some h
    have hfields : (sealed.patchOf p.shape .data (some p.value)).fields = ", " ++ ("value: " ++
        (p.value ++ String.join (p.shape.holding.map fun a => ", " ++ a.name ++ ": true"))) := by
      have hcomma : ", value: " = ", " ++ "value: " := rfl
      simp only [Patch.fields, patchOf, Patch.valueField, field_sealed_difference, hcomma,
        String.append_assoc]
      simp only [← String.join_append, ← List.map_append, ← List.filter_append]
      rfl
    obtain rfl : body = "value: " ++
        (p.value ++ String.join (p.shape.holding.map fun a => ", " ++ a.name ++ ": true")) := by
      simpa using hbody.trans hfields
    have hopening : "\x7b value: " = "\x7b " ++ "value: " := rfl
    simp only [Property.descriptor, hopening, String.append_assoc]

namespace PropertyTable

theorem linesAll_map_line (level : Nat) (texts : List String) :
    Fragment.linesAll level (texts.map .line) = texts.map fun text => (level, text) := by
  induction texts with
  | nil => rw [List.map_nil, Fragment.linesAll, List.map_nil]
  | cons text texts ih =>
    rw [List.map_cons, Fragment.linesAll, ih, Fragment.lines, List.map_cons, List.singleton_append]

/-- The line of a property behind an indentation step. -/
def entryLine (indent : Indent) (entry : PropertyKey × Property) : String :=
  indent.text ++ (entry.1.accessText ++ ": " ++ entry.2.descriptor ++ ",") ++ "\n"

/-- **The statement of a place** has a header, a line for each property, and an end. -/
theorem statementText_of_ne_nil {t : PropertyTable} {w : Place} (h : t.properties w ≠ []) :
    t.statementText w = "Object.defineProperties(" ++ t.target w ++ ", \x7b\n" ++
      String.join ((t.properties w).map (entryLine t.indent)) ++ "\x7d);\n" := by
  have hwritten (entry : PropertyKey × Property) :
      written entry = (entry.1.accessText, entry.2.descriptor) := by
    rw [written, Shape.sealed_patch, Option.getD_some]
  have hfragments : (t.statement w).fragments =
      [.block ("Object.defineProperties(" ++ t.target w ++ ", \x7b")
        (((t.properties w).map fun entry =>
          entry.1.accessText ++ ": " ++ entry.2.descriptor ++ ",").map .line)
        (some "\x7d);")] := by
    obtain ⟨entry, rest, hcons⟩ := List.exists_cons_of_ne_nil h
    rw [statement, hcons, List.map_cons, Statement.fragments, ← List.map_cons]
    · simp only [List.map_map, Function.comp_def, hwritten]
    · simp
  have hstep : t.indent.margin 1 = t.indent.text := by simp [Indent.margin]
  have hbody : (Fragment.linesAll 1 (((t.properties w).map fun entry =>
      entry.1.accessText ++ ": " ++ entry.2.descriptor ++ ",").map .line)).map
        (Writer.lineText t.indent) = (t.properties w).map (entryLine t.indent) := by
    rw [linesAll_map_line, List.map_map, List.map_map]
    refine List.map_congr_left fun entry _ => ?_
    exact congrArg (· ++ _ ++ "\n") hstep
  have hmargin : t.indent.margin 0 = "" := rfl
  have hheader : ", \x7b\n" = ", \x7b" ++ "\n" := rfl
  have hclose : "\x7d);\n" = "\x7d);" ++ "\n" := rfl
  rw [statementText, hfragments, Fragment.render_eq, Fragment.linesAll, Fragment.linesAll,
    Fragment.lines, List.append_nil, List.map_cons, List.map_append, hbody, String.join_cons,
    String.join_append]
  simp only [Writer.lineText, hmargin, hheader, hclose, Option.toList_some, List.map_cons,
    List.map_nil, String.join_cons, String.join_nil, String.empty_append, String.append_empty,
    String.append_assoc]

end PropertyTable

/-- Lists that are related item by item, where the relation is a function with a condition. -/
theorem forall₂_iff_map {α β : Type} {R : α → β → Prop} {p : α → Prop} {g : α → β} {l : List α}
    (h : ∀ a ∈ l, ∀ b, R a b ↔ p a ∧ b = g a) (r : List β) :
    List.Forall₂ R l r ↔ (∀ a ∈ l, p a) ∧ r = l.map g := by
  induction l generalizing r with
  | nil => simp
  | cons a l ih =>
    obtain ⟨ha, hl⟩ := List.forall_mem_cons.mp h
    rw [List.forall₂_cons_left_iff, List.forall_mem_cons, List.map_cons]
    constructor
    · rintro ⟨b, r, hb, hr, rfl⟩
      obtain ⟨hp, rfl⟩ := (ha b).mp hb
      obtain ⟨hps, rfl⟩ := (ih hl r).mp hr
      exact ⟨⟨hp, hps⟩, rfl⟩
    · rintro ⟨⟨hp, hps⟩, rfl⟩
      exact ⟨_, _, (ha _).mpr ⟨hp, rfl⟩, (ih hl _).mpr ⟨hps, rfl⟩, rfl⟩

theorem Properties.lookup_of_mem {ps : Properties} (hnodup : ps.keys.Nodup)
    {entry : PropertyKey × Property} (h : entry ∈ ps) : ps.lookup entry.1 = some entry.2 := by
  induction ps with
  | nil => cases h
  | cons first rest ih =>
    rw [keys_cons, List.nodup_cons] at hnodup
    rw [lookup_cons]
    rcases List.mem_cons.mp h with rfl | hrest
    · rw [if_pos rfl]
    · have hne : entry.1 ≠ first.1 := by
        intro heq
        exact hnodup.1 (heq ▸ List.mem_map_of_mem hrest)
      rw [if_neg hne, ih hnodup.2 hrest]

/-! ## Sections -/

/-- The object that the properties of a place are defined on, given the name of the interface. -/
def Place.target (name : String) : Place → String
  | .static => name
  | .prototype => name ++ ".prototype"
  | .perInstance => "wrapper"

namespace PropertyTable

/-- The line of a key: one step of indentation, the text of the key and the descriptor of the
property that the table has for it. -/
def IsLine (s : Settings) (t : PropertyTable) (w : Place) (key : PropertyKey) (line : String) :
    Prop :=
  ∃ text p, key.access = .ok text ∧ t.get? w key = some p ∧
    line = s.indent.text ++ (text ++ ": " ++ p.descriptor ++ ",") ++ "\n"

/-- The text for a place with such keys: nothing if there are none, and else a header with the
target, a line for each key and the closing line. -/
inductive Section (s : Settings) (name : String) (t : PropertyTable) (w : Place) :
    List PropertyKey → String → Prop
  /-- without keys -/
  | empty : Section s name t w [] ""
  /-- with keys -/
  | block {key : PropertyKey} {keys : List PropertyKey} {lines : List String}
    (each : List.Forall₂ (IsLine s t w) (key :: keys) lines) :
    Section s name t w (key :: keys)
      ("Object.defineProperties(" ++ w.target name ++ ", \x7b\n" ++ String.join lines ++ "\x7d);\n")

/-- The keys of a place have a section if they have texts, and it is the statement of the place. -/
theorem section_iff {s : Settings} {name : String} {t : PropertyTable} {w : Place}
    (hindent : t.indent = s.indent) (hname : t.name = name)
    (hnodup : (t.properties w).keys.Nodup) (text : String) :
    Section s name t w (t.properties w).keys text ↔
      (∀ entry ∈ t.properties w, entry.1.Accessible) ∧ text = t.statementText w := by
  have htarget : w.target name = t.target w := by
    cases w <;> simp [Place.target, target, hname]
  have hline : ∀ entry ∈ t.properties w, ∀ line, IsLine s t w entry.1 line ↔
      entry.1.Accessible ∧ line = entryLine t.indent entry := by
    intro entry hentry line
    have hget : t.get? w entry.1 = some entry.2 := Properties.lookup_of_mem hnodup hentry
    simp only [IsLine, PropertyKey.access_eq_ok_iff, hget, Option.some.injEq, ← hindent]
    constructor
    · rintro ⟨_, _, ⟨haccess, rfl⟩, rfl, rfl⟩
      exact ⟨haccess, rfl⟩
    · rintro ⟨haccess, rfl⟩
      exact ⟨_, _, ⟨haccess, rfl⟩, rfl, rfl⟩
  have hlines (lines : List String) :
      List.Forall₂ (IsLine s t w) (t.properties w).keys lines ↔
        (∀ entry ∈ t.properties w, entry.1.Accessible) ∧
          lines = (t.properties w).map (entryLine t.indent) := by
    rw [Properties.keys, List.forall₂_map_left_iff]
    exact forall₂_iff_map hline lines
  rcases hps : t.properties w with _ | ⟨entry, rest⟩
  · rw [statementText_of_empty hps]
    constructor
    · rintro ⟨⟩
      exact ⟨by simp, rfl⟩
    · rintro ⟨-, rfl⟩
      exact .empty
  · rw [statementText_of_ne_nil (by simp [hps]), ← htarget]
    rw [hps] at hlines ⊢
    constructor
    · rintro ⟨⟩
      rename_i each
      obtain ⟨haccess, rfl⟩ := (hlines _).mp each
      exact ⟨haccess, rfl⟩
    · rintro ⟨haccess, rfl⟩
      exact .block ((hlines _).mpr ⟨haccess, rfl⟩)

end PropertyTable

namespace Addition

/-- The keys that a run uses with a place, each at the position of its first call. -/
def keysAt (calls : List Addition) (w : Place) : List PropertyKey := (usedKeys calls w).eraseDups

/-- The keys of all places, in the order of rendering. -/
def allKeys (calls : List Addition) : List PropertyKey :=
  keysAt calls .static ++ keysAt calls .prototype ++ keysAt calls .perInstance

theorem mem_allKeys {calls : List Addition} {k : PropertyKey} :
    k ∈ allKeys calls ↔ ∃ c ∈ calls, c.key = k := by
  simp only [allKeys, keysAt, List.mem_append, List.mem_eraseDups, mem_usedKeys]
  constructor
  · rintro ((⟨c, hc, -, hk⟩ | ⟨c, hc, -, hk⟩) | ⟨c, hc, -, hk⟩)
    · exact ⟨c, hc, hk⟩
    · exact ⟨c, hc, hk⟩
    · exact ⟨c, hc, hk⟩
  · rintro ⟨c, hc, hk⟩
    cases hplace : c.place with
    | static => exact .inl (.inl ⟨c, hc, hplace, hk⟩)
    | prototype => exact .inl (.inr ⟨c, hc, hplace, hk⟩)
    | perInstance => exact .inr ⟨c, hc, hplace, hk⟩

open PropertyKey PropertyTable

/-- **What rendering makes of a table**, after any run of calls on a new one.
* It fails exactly if some call used a symbol that is not well-known.
* The error is that of the first such symbol: on the interface object, then on the prototype, then
  on instances, and at each place in the order of the first calls for the keys.
* Else the text has the sections of the three places in this order. -/
theorem render_written (s : Settings) (name : String) (isGlobal : Bool) (calls : List Addition) :
    let t := run (.new s name isGlobal) calls
    ((∃ err, t.render = .error err) ↔
      ∃ c ∈ calls, ∃ d, c.key = .symbol d ∧ ¬ IsWellKnown d) ∧
    (∀ err, t.render = .error err ↔
      ∃ d, FirstUnknown (allKeys calls) d ∧ err = .unsupportedSymbol d) ∧
    ∀ text, t.render = .ok text ↔ ∃ a b c, Section s name t .static (keysAt calls .static) a ∧
      Section s name t .prototype (keysAt calls .prototype) b ∧
      Section s name t .perInstance (keysAt calls .perInstance) c ∧ text = a ++ b ++ c := by
  intro t
  have hinterface : t.interface = (PropertyTable.new s name isGlobal).interface :=
    interface_run _ calls
  have hname : t.name = name := congrArg (·.1) hinterface
  have hindent : t.indent = s.indent := congrArg (·.2.2) hinterface
  have hkeys (w : Place) : (t.properties w).keys = keysAt calls w :=
    keys_run s name isGlobal calls w
  have herror (err : Error) : t.render = .error err ↔
      ∃ d, FirstUnknown (allKeys calls) d ∧ err = .unsupportedSymbol d := by
    rw [t.render_eq_error_iff, ← mapM_access_eq_error_iff]
    simp only [PropertyTable.places, hkeys, List.flatMap_cons, List.flatMap_nil, List.append_nil,
      allKeys, List.append_assoc]
  refine ⟨?_, herror, fun text => ?_⟩
  · calc (∃ err, t.render = .error err) ↔ ∃ d, FirstUnknown (allKeys calls) d := by
          simp only [herror]
          constructor
          · rintro ⟨_, d, hd, -⟩
            exact ⟨d, hd⟩
          · rintro ⟨d, hd⟩
            exact ⟨_, d, hd, rfl⟩
      _ ↔ ∃ d, .symbol d ∈ allKeys calls ∧ ¬ IsWellKnown d := exists_firstUnknown_iff
      _ ↔ ∃ c ∈ calls, ∃ d, c.key = .symbol d ∧ ¬ IsWellKnown d := by
          simp only [mem_allKeys]
          constructor
          · rintro ⟨d, ⟨c, hc, hkey⟩, hunknown⟩
            exact ⟨c, hc, d, hkey, hunknown⟩
          · rintro ⟨c, hc, d, hkey, hunknown⟩
            exact ⟨d, ⟨c, hc, hkey⟩, hunknown⟩
  · have hsection (w : Place) (part : String) : Section s name t w (keysAt calls w) part ↔
        (∀ entry ∈ t.properties w, entry.1.Accessible) ∧ part = t.statementText w := by
      rw [← hkeys]
      refine section_iff hindent hname ?_ part
      rw [hkeys]
      exact nodup_eraseDups _
    rw [t.render_eq_ok_iff]
    simp only [hsection]
    constructor
    · rintro ⟨haccess, rfl⟩
      exact ⟨_, _, _, ⟨haccess _, rfl⟩, ⟨haccess _, rfl⟩, ⟨haccess _, rfl⟩, rfl⟩
    · rintro ⟨_, _, _, ⟨hstatic, rfl⟩, ⟨hprototype, rfl⟩, ⟨hinstance, rfl⟩, rfl⟩
      refine ⟨fun w => ?_, rfl⟩
      cases w with
      | static => exact hstatic
      | prototype => exact hprototype
      | perInstance => exact hinstance

end Addition

end IdlBinding
