import IdlBinding.Descriptor
import IdlBinding.Proofs.Records

/-!
# The fields of declarations

Every declaration is a record, and each of its fields is read by itself: the declaration is read
exactly if the value has the form of a record and each field gives what the declaration holds. This
is said once for each kind of declaration (`ofJson_eq_ok_iff`), and nothing else is needed to know
what a document is read as.

* `Slot` — where a draft keeps what was read of a field;
* `IsDraft` — a draft is no more than its slots, and a field has to do with its own slot only. Hence
  fields may be read in any order, and each slot ends up with what its own field gives
  (`IsDraft.record_eq_ok_iff`);
* `given` — what a field that may be missing gives.
-/

namespace IdlBinding

namespace Json.Value

/-! ## Drafts -/

section Drafts

variable {α σ : Type}

/-- What a field gives by itself: `absent` if it is not there. -/
def given (absent : Except Fault α) (read : Value → Except Fault α) :
    Option Value → Except Fault α
  | some v => read v
  | none => absent

/-- A slot of a draft, and how its field is read. -/
structure Slot (σ : Type) where
  /-- what the slot is for -/
  Content : Type
  /-- what a value stands for -/
  read : Value → Except Fault Content
  /-- the content of the slot, unless it is empty -/
  get : σ → Option Content
  /-- the draft with another content of the slot -/
  set : σ → Option Content → σ

/-- Read a field into a slot that is empty. -/
def Slot.fill (slot : Slot σ) (s : σ) (v : Value) : Except Fault σ := do
  let a ← once (slot.get s) (slot.read v)
  .ok (slot.set s a)

/-- The content of a slot whose field may be missing. -/
def Fills (read : Value → Except Fault α) (field : Option Value) (content : Option α) : Prop :=
  given (.ok none) (fun v => (read v).map some) field = .ok content

/-- A draft has a slot for each field, and is no more than its slots. -/
structure IsDraft (slots : List (String × Slot σ)) (field : σ → String → Value → Except Fault σ) :
    Prop where
  nodup : (slots.map Prod.fst).Nodup
  /-- a field is read into its slot -/
  named : ∀ entry ∈ slots, ∀ s v, field s entry.1 v = entry.2.fill s v
  /-- other names are skipped -/
  other : ∀ {s : σ} {key : String} {v : Value}, key ∉ slots.map Prod.fst → field s key v = skip s v
  get_set : ∀ entry ∈ slots, ∀ s a, entry.2.get (entry.2.set s a) = a
  get_set_ne : ∀ entry ∈ slots, ∀ entry' ∈ slots, entry.1 ≠ entry'.1 →
    ∀ s a, entry.2.get (entry'.2.set s a) = entry.2.get s
  ext : ∀ s t, (∀ entry ∈ slots, entry.2.get s = entry.2.get t) → s = t

theorem Slot.fill_eq_ok {slot : Slot σ} {s t : σ} {v : Value} :
    slot.fill s v = .ok t ↔
      slot.get s = none ∧ ∃ a, slot.read v = .ok a ∧ slot.set s (some a) = t := by
  simp only [fill, bind_eq_ok, once_eq_ok]
  constructor
  · rintro ⟨_, ⟨hempty, a, hread, rfl⟩, ht⟩
    exact ⟨hempty, a, hread, Except.ok.inj ht⟩
  · rintro ⟨hempty, a, hread, rfl⟩
    exact ⟨some a, ⟨hempty, a, hread, rfl⟩, rfl⟩

/-- A slot that must not stay empty. -/
theorem fills_some_iff {read : Value → Except Fault α} {o : Option Value} {a : α} :
    Fills read o (some a) ↔ given (.error .form) read o = .ok a := by
  rcases o with _ | v
  · simp [Fills, given]
  · simp [Fills, given, map_eq_ok]

/-- A slot that has a default. -/
theorem exists_fills_getD_iff {read : Value → Except Fault α} {o : Option Value} {a default : α} :
    (∃ content, Fills read o content ∧ content.getD default = a) ↔
      given (.ok default) read o = .ok a := by
  rcases o with _ | v
  · simp [Fills, given]
  · simp [Fills, given, map_eq_ok]

namespace IsDraft

variable {slots : List (String × Slot σ)} {field : σ → String → Value → Except Fault σ}
  (h : IsDraft slots field)
include h

theorem eq_of_name_eq {entry entry' : String × Slot σ} (hmem : entry ∈ slots)
    (hmem' : entry' ∈ slots) (hname : entry.1 = entry'.1) : entry = entry' :=
  List.inj_on_of_nodup_map h.nodup hmem hmem' hname

/-- Two slots can be written in either order. -/
theorem set_comm {entry entry' : String × Slot σ} (hmem : entry ∈ slots) (hmem' : entry' ∈ slots)
    (hne : entry.1 ≠ entry'.1) (s : σ) (a : Option entry.2.Content) (a' : Option entry'.2.Content) :
    entry.2.set (entry'.2.set s a') a = entry'.2.set (entry.2.set s a) a' := by
  refine h.ext _ _ fun other hother => ?_
  by_cases hfirst : other.1 = entry.1
  · obtain rfl := h.eq_of_name_eq hother hmem hfirst
    rw [h.get_set _ hother, h.get_set_ne _ hother _ hmem' hne, h.get_set _ hother]
  · rw [h.get_set_ne _ hother _ hmem hfirst]
    by_cases hsecond : other.1 = entry'.1
    · obtain rfl := h.eq_of_name_eq hother hmem' hsecond
      rw [h.get_set _ hother, h.get_set _ hother]
    · rw [h.get_set_ne _ hother _ hmem' hsecond, h.get_set_ne _ hother _ hmem' hsecond,
        h.get_set_ne _ hother _ hmem hfirst]

theorem fieldwise : Fieldwise (slots.map Prod.fst) field where
  other := h.other
  once := by
    intro s s' t key v v' hkey hread hagain
    obtain ⟨entry, hmem, rfl⟩ := List.mem_map.mp hkey
    rw [h.named entry hmem, Slot.fill_eq_ok] at hread hagain
    obtain ⟨-, a, -, rfl⟩ := hread
    rw [h.get_set entry hmem] at hagain
    cases hagain.1
  swap := by
    intro s s' t key key' v v' hkey hkey' hne hread hread'
    obtain ⟨entry, hmem, rfl⟩ := List.mem_map.mp hkey
    obtain ⟨entry', hmem', rfl⟩ := List.mem_map.mp hkey'
    simp only [h.named entry hmem, h.named entry' hmem', Slot.fill_eq_ok] at hread hread' ⊢
    obtain ⟨hempty, a, ha, rfl⟩ := hread
    obtain ⟨hempty', a', ha', rfl⟩ := hread'
    rw [h.get_set_ne _ hmem' _ hmem hne.symm] at hempty'
    refine ⟨_, ⟨hempty', a', ha', rfl⟩, ?_, a, ha, h.set_comm hmem hmem' hne _ _ _⟩
    rw [h.get_set_ne _ hmem _ hmem' hne, hempty]

/-- Reading a field that may be missing. -/
theorem readField_eq_ok {entry : String × Slot σ} (hmem : entry ∈ slots) {s t : σ}
    (hempty : entry.2.get s = none) {o : Option Value} :
    readField field s entry.1 o = .ok t ↔
      ∃ content, Fills entry.2.read o content ∧ entry.2.set s content = t := by
  rcases o with _ | v
  · -- An empty slot that is written empty is as it was.
    have hsame : entry.2.set s none = s := by
      refine h.ext _ _ fun other hother => ?_
      by_cases hname : other.1 = entry.1
      · obtain rfl := h.eq_of_name_eq hother hmem hname
        rw [h.get_set _ hother, hempty]
      · exact h.get_set_ne _ hother _ hmem hname _ _
    simp [readField, Fills, given, hsame]
  · simp [readField, h.named entry hmem, Slot.fill_eq_ok, Fills, given, map_eq_ok, hempty]

/-- Fields are read into the slots they belong to, and the other slots stay as they are. -/
theorem readFields_eq_ok {todo : List (String × Slot σ)} (hsub : ∀ entry ∈ todo, entry ∈ slots)
    (hnodup : (todo.map Prod.fst).Nodup) {fields : String → Option Value} {s t : σ}
    (hempty : ∀ entry ∈ todo, entry.2.get s = none) :
    readFields field fields (todo.map Prod.fst) s = .ok t ↔
      (∀ entry ∈ todo, Fills entry.2.read (fields entry.1) (entry.2.get t)) ∧
        ∀ entry ∈ slots, entry.1 ∉ todo.map Prod.fst → entry.2.get t = entry.2.get s := by
  induction todo generalizing s with
  | nil =>
    rw [List.map_nil, readFields_nil]
    constructor
    · rintro rfl
      exact ⟨by simp, fun _ _ _ => rfl⟩
    · rintro ⟨-, hothers⟩
      exact h.ext s t fun entry hentry => (hothers entry hentry (by simp)).symm
  | cons first todo ih =>
    obtain ⟨hfirst, hsub⟩ := List.forall_mem_cons.mp hsub
    obtain ⟨hfresh, hnodup⟩ := List.nodup_cons.mp hnodup
    obtain ⟨hfree, hempty⟩ := List.forall_mem_cons.mp hempty
    have hstill (content) : ∀ entry ∈ todo, entry.2.get (first.2.set s content) = none := by
      intro entry hentry
      have hne : entry.1 ≠ first.1 := fun heq => hfresh (heq ▸ List.mem_map_of_mem hentry)
      rw [h.get_set_ne _ (hsub entry hentry) _ hfirst hne, hempty entry hentry]
    rw [List.map_cons, readFields_cons, List.forall_mem_cons]
    constructor
    · rintro ⟨_, hread, hrest⟩
      obtain ⟨content, hfills, rfl⟩ := (h.readField_eq_ok hfirst hfree).mp hread
      obtain ⟨htodo, hothers⟩ := (ih hsub hnodup (hstill content)).mp hrest
      have hcontent : first.2.get t = content :=
        (hothers first hfirst hfresh).trans (h.get_set first hfirst s content)
      refine ⟨⟨hcontent ▸ hfills, htodo⟩, fun entry hentry hnot => ?_⟩
      rw [List.mem_cons, not_or] at hnot
      obtain ⟨hne, hnot⟩ := hnot
      rw [hothers entry hentry hnot, h.get_set_ne _ hentry _ hfirst hne]
    · rintro ⟨⟨hfills, htodo⟩, hothers⟩
      refine ⟨_, (h.readField_eq_ok hfirst hfree).mpr ⟨_, hfills, rfl⟩, ?_⟩
      refine (ih hsub hnodup (hstill _)).mpr ⟨htodo, fun entry hentry hnot => ?_⟩
      by_cases hname : entry.1 = first.1
      · obtain rfl := h.eq_of_name_eq hentry hfirst hname
        rw [h.get_set _ hentry]
      · rw [h.get_set_ne _ hentry _ hfirst hname]
        exact hothers entry hentry (by simp [hname, hnot])

/-- **A record is read into its slots**, each from the field of its name. -/
theorem record_eq_ok_iff {v : Value} {s t : σ} (hempty : ∀ entry ∈ slots, entry.2.get s = none) :
    v.record (slots.map Prod.fst) s field = .ok t ↔
      v.IsRecord (slots.map Prod.fst) ∧ ∀ entry ∈ slots,
        Fills entry.2.read (v.field? (slots.map Prod.fst) entry.1) (entry.2.get t) := by
  rw [h.fieldwise.record_eq_ok_iff h.nodup, h.readFields_eq_ok (fun _ he => he) h.nodup hempty]
  refine and_congr_right fun _ => and_iff_left fun entry hentry hnot => ?_
  exact absurd (List.mem_map_of_mem hentry) hnot

end IsDraft

end Drafts

end Json.Value

open Json Json.Value

/-! ## Raw defaults -/

namespace RawDefault

/-- The fields of a raw default. -/
def fieldNames : List String := ["type", "value", "negative"]

/-- The slots of a raw default. -/
def Draft.slots (depth : Nat) : List (String × Slot Draft) :=
  [("type", ⟨String, asString, Draft.kind, fun d kind => { d with kind }⟩),
    ("value", ⟨Option Scalar, payload depth, Draft.value, fun d value => { d with value }⟩),
    ("negative", ⟨Option Bool, sign, Draft.negative, fun d negative => { d with negative }⟩)]

theorem isDraft (depth : Nat) : IsDraft (Draft.slots depth) (Draft.field depth) where
  nodup := by simp [Draft.slots]
  named := by simp [Draft.slots, Draft.field, Slot.fill]
  other := by
    intro d key v hkey
    simp only [Draft.slots, List.map_cons, List.map_nil, List.mem_cons, List.not_mem_nil, or_false,
      not_or] at hkey
    simp [Draft.field, hkey]
  get_set := by simp [Draft.slots]
  get_set_ne := by simp [Draft.slots]
  ext := by
    rintro ⟨kind, value, negative⟩ ⟨kind', value', negative'⟩
    simp [Draft.slots]

theorem Draft.record_eq_ok {depth : Nat} {v : Value} {d : Draft} :
    v.record ["type", "value", "negative"] {} (field depth) = .ok d ↔ v.IsRecord fieldNames ∧
      Fills asString (v.field? fieldNames "type") d.kind ∧
      Fills (payload depth) (v.field? fieldNames "value") d.value ∧
      Fills sign (v.field? fieldNames "negative") d.negative := by
  refine ((isDraft depth).record_eq_ok_iff (by simp [slots])).trans ?_
  simp [slots, fieldNames]

/-- **A raw default** needs a tag; payload and sign may be missing or `null`. -/
theorem ofJson_eq_ok_iff {depth : Nat} {v : Value} {raw : RawDefault} :
    ofJson depth v = .ok raw ↔ v.IsRecord fieldNames ∧
      given (.error .form) asString (v.field? fieldNames "type") = .ok raw.kind ∧
      given (.ok none) (payload (depth - 1)) (v.field? fieldNames "value") = .ok raw.value ∧
      given (.ok none) sign (v.field? fieldNames "negative") = .ok raw.negative := by
  simp only [ofJson, bind_eq_ok, Draft.record_eq_ok, Draft.finish, required_eq_ok,
    ← fills_some_iff, ← exists_fills_getD_iff]
  constructor
  · rintro ⟨d, ⟨hform, hkind, hvalue, hnegative⟩, kind, hsome, hraw⟩
    obtain rfl := Except.ok.inj hraw
    exact ⟨hform, hsome ▸ hkind, ⟨_, hvalue, rfl⟩, ⟨_, hnegative, rfl⟩⟩
  · rintro ⟨hform, hkind, ⟨value, hvalue, hvalue'⟩, ⟨negative, hnegative, hnegative'⟩⟩
    refine ⟨⟨some raw.kind, value, negative⟩, ⟨hform, hkind, hvalue, hnegative⟩, raw.kind, rfl, ?_⟩
    simp only [hvalue', hnegative']

end RawDefault

/-! ## Constants -/

namespace Constant

/-- The fields of a constant. -/
def fieldNames : List String := ["name", "value", "special"]

/-- The slots of a constant. -/
def Draft.slots : List (String × Slot Draft) :=
  [("name", ⟨String, asString, Draft.name, fun d name => { d with name }⟩),
    ("value", ⟨Default, Default.ofJson (maxDepth - 1), Draft.value,
      fun d value => { d with value }⟩),
    ("special", ⟨Modifier, Modifier.ofJson, Draft.special, fun d special => { d with special }⟩)]

theorem isDraft : IsDraft Draft.slots Draft.field where
  nodup := by simp [Draft.slots]
  named := by simp [Draft.slots, Draft.field, Slot.fill]
  other := by
    intro d key v hkey
    simp only [Draft.slots, List.map_cons, List.map_nil, List.mem_cons, List.not_mem_nil, or_false,
      not_or] at hkey
    simp [Draft.field, hkey]
  get_set := by simp [Draft.slots]
  get_set_ne := by simp [Draft.slots]
  ext := by
    rintro ⟨name, value, special⟩ ⟨name', value', special'⟩
    simp [Draft.slots]

theorem Draft.record_eq_ok {v : Value} {d : Draft} :
    v.record ["name", "value", "special"] {} field = .ok d ↔ v.IsRecord fieldNames ∧
      Fills asString (v.field? fieldNames "name") d.name ∧
      Fills (Default.ofJson (maxDepth - 1)) (v.field? fieldNames "value") d.value ∧
      Fills Modifier.ofJson (v.field? fieldNames "special") d.special := by
  refine (isDraft.record_eq_ok_iff (by simp [slots])).trans ?_
  simp [slots, fieldNames]

/-- **A constant** needs a name and a value; the modifier may be missing. -/
theorem ofJson_eq_ok_iff {v : Value} {c : Constant} :
    ofJson v = .ok c ↔ v.IsRecord fieldNames ∧
      given (.error .form) asString (v.field? fieldNames "name") = .ok c.name ∧
      given (.error .form) (Default.ofJson (maxDepth - 1)) (v.field? fieldNames "value") =
        .ok c.value ∧
      given (.ok .plain) Modifier.ofJson (v.field? fieldNames "special") = .ok c.special := by
  simp only [ofJson, bind_eq_ok, Draft.record_eq_ok, Draft.finish, required_eq_ok,
    ← fills_some_iff, ← exists_fills_getD_iff]
  constructor
  · rintro ⟨d, ⟨hform, hname, hvalue, hspecial⟩, name, hname', value, hvalue', hc⟩
    obtain rfl := Except.ok.inj hc
    exact ⟨hform, hname' ▸ hname, hvalue' ▸ hvalue, ⟨_, hspecial, rfl⟩⟩
  · rintro ⟨hform, hname, hvalue, ⟨special, hspecial, hspecial'⟩⟩
    refine ⟨⟨some c.name, some c.value, special⟩, ⟨hform, hname, hvalue, hspecial⟩, c.name, rfl,
      c.value, rfl, ?_⟩
    simp only [hspecial']

end Constant

/-! ## Enumerations -/

namespace Enumeration

/-- The fields of an enumeration. -/
def fieldNames : List String := ["name", "values"]

/-- The slots of an enumeration. -/
def Draft.slots : List (String × Slot Draft) :=
  [("name", ⟨String, asString, Draft.name, fun d name => { d with name }⟩),
    ("values", ⟨List String, items (valueOfJson (maxDepth - 2)), Draft.values,
      fun d values => { d with values }⟩)]

theorem isDraft : IsDraft Draft.slots Draft.field where
  nodup := by simp [Draft.slots]
  named := by simp [Draft.slots, Draft.field, Slot.fill]
  other := by
    intro d key v hkey
    simp only [Draft.slots, List.map_cons, List.map_nil, List.mem_cons, List.not_mem_nil, or_false,
      not_or] at hkey
    simp [Draft.field, hkey]
  get_set := by simp [Draft.slots]
  get_set_ne := by simp [Draft.slots]
  ext := by
    rintro ⟨name, values⟩ ⟨name', values'⟩
    simp [Draft.slots]

theorem Draft.record_eq_ok {v : Value} {d : Draft} :
    v.record ["name", "values"] {} field = .ok d ↔ v.IsRecord fieldNames ∧
      Fills asString (v.field? fieldNames "name") d.name ∧
      Fills (items (valueOfJson (maxDepth - 2))) (v.field? fieldNames "values") d.values := by
  refine (isDraft.record_eq_ok_iff (by simp [slots])).trans ?_
  simp [slots, fieldNames]

/-- **An enumeration** needs a name and a list of values. -/
theorem ofJson_eq_ok_iff {v : Value} {e : Enumeration} :
    ofJson v = .ok e ↔ v.IsRecord fieldNames ∧
      given (.error .form) asString (v.field? fieldNames "name") = .ok e.name ∧
      given (.error .form) (items (valueOfJson (maxDepth - 2))) (v.field? fieldNames "values") =
        .ok e.values := by
  simp only [ofJson, bind_eq_ok, Draft.record_eq_ok, Draft.finish, required_eq_ok,
    ← fills_some_iff]
  constructor
  · rintro ⟨d, ⟨hform, hname, hvalues⟩, name, hname', values, hvalues', he⟩
    obtain rfl := Except.ok.inj he
    exact ⟨hform, hname' ▸ hname, hvalues' ▸ hvalues⟩
  · rintro ⟨hform, hname, hvalues⟩
    exact ⟨⟨some e.name, some e.values⟩, ⟨hform, hname, hvalues⟩, e.name, rfl, e.values, rfl, rfl⟩

end Enumeration

/-! ## Interfaces and mixins -/

/-- The only slot of a record with a name. -/
def nameSlots : List (String × Slot (Option String)) :=
  [("name", ⟨String, asString, fun name => name, fun _ name => name⟩)]

theorem nameField_isDraft : IsDraft nameSlots nameField where
  nodup := by simp [nameSlots]
  named := by
    simp only [nameSlots, List.forall_mem_singleton, nameField, Slot.fill]
    intro name v
    rcases once name v.asString with fault | found
    · rfl
    · rfl
  other := by
    intro name key v hkey
    simp only [nameSlots, List.map_cons, List.map_nil, List.mem_singleton] at hkey
    simp [nameField]
  get_set := by simp [nameSlots]
  get_set_ne := by simp [nameSlots]
  ext := by simp [nameSlots]

/-- **A record with a name.** -/
theorem nameOfJson_eq_ok_iff {v : Value} {name : String} :
    nameOfJson v = .ok name ↔ v.IsRecord ["name"] ∧
      given (.error .form) asString (v.field? ["name"] "name") = .ok name := by
  have hrecord {found : Option String} : v.record ["name"] none nameField = .ok found ↔
      v.IsRecord ["name"] ∧ Fills asString (v.field? ["name"] "name") found := by
    refine (nameField_isDraft.record_eq_ok_iff (by simp [nameSlots])).trans ?_
    simp [nameSlots]
  simp only [nameOfJson, bind_eq_ok, hrecord, required_eq_ok, ← fills_some_iff]
  constructor
  · rintro ⟨_, hfound, rfl⟩
    exact hfound
  · exact fun hfound => ⟨some name, hfound, rfl⟩

namespace Interface

/-- The fields of an interface. -/
def fieldNames : List String := ["name", "extAttrs"]

/-- The slots of an interface. -/
def Draft.slots : List (String × Slot Draft) :=
  [("name", ⟨String, asString, Draft.name, fun d name => { d with name }⟩),
    ("extAttrs", ⟨List String, items nameOfJson, Draft.attributes,
      fun d attributes => { d with attributes }⟩)]

theorem isDraft : IsDraft Draft.slots Draft.field where
  nodup := by simp [Draft.slots]
  named := by simp [Draft.slots, Draft.field, Slot.fill]
  other := by
    intro d key v hkey
    simp only [Draft.slots, List.map_cons, List.map_nil, List.mem_cons, List.not_mem_nil, or_false,
      not_or] at hkey
    simp [Draft.field, hkey]
  get_set := by simp [Draft.slots]
  get_set_ne := by simp [Draft.slots]
  ext := by
    rintro ⟨name, attributes⟩ ⟨name', attributes'⟩
    simp [Draft.slots]

theorem Draft.record_eq_ok {v : Value} {d : Draft} :
    v.record ["name", "extAttrs"] {} field = .ok d ↔ v.IsRecord fieldNames ∧
      Fills asString (v.field? fieldNames "name") d.name ∧
      Fills (items nameOfJson) (v.field? fieldNames "extAttrs") d.attributes := by
  refine (isDraft.record_eq_ok_iff (by simp [slots])).trans ?_
  simp [slots, fieldNames]

/-- **An interface** needs a name; the extended attributes may be missing. -/
theorem ofJson_eq_ok_iff {v : Value} {i : Interface} :
    ofJson v = .ok i ↔ v.IsRecord fieldNames ∧
      given (.error .form) asString (v.field? fieldNames "name") = .ok i.name ∧
      given (.ok []) (items nameOfJson) (v.field? fieldNames "extAttrs") = .ok i.attributes := by
  simp only [ofJson, bind_eq_ok, Draft.record_eq_ok, Draft.finish, required_eq_ok,
    ← fills_some_iff, ← exists_fills_getD_iff]
  constructor
  · rintro ⟨d, ⟨hform, hname, hattributes⟩, name, hname', hi⟩
    obtain rfl := Except.ok.inj hi
    exact ⟨hform, hname' ▸ hname, ⟨_, hattributes, rfl⟩⟩
  · rintro ⟨hform, hname, ⟨attributes, hattributes, hattributes'⟩⟩
    refine ⟨⟨some i.name, attributes⟩, ⟨hform, hname, hattributes⟩, i.name, rfl, ?_⟩
    simp only [hattributes']

end Interface

end IdlBinding
