import IdlBinding.Proofs.DefaultRoutes
import IdlBinding.Proofs.DescriptorFields
import Mathlib.Data.List.Forall2
import Mathlib.Logic.Relation

/-!
# One declaration, many texts

A declaration can be written in many ways. The members of an object may come in any order and among
others; the object may give way to the array of its fields; a field may be missing or hold what it
stands for when it is missing; and records stand in other records, which can be written in many ways
as well. All of these are read alike (`forms_read_alike`).

* `RecordShape` — what a record leaves open: its fields, the values that may be missing, and the
  values that may be written otherwise;
* `Step` — one change of a record that its shape allows;
* `Alike` — what such a change can do to a single field.

A step keeps the form of a record and leaves every field alike (`Step.isRecord`, `Step.alike`).
Since a record is known by its fields, this is all that has to be said of a declaration.
-/

namespace IdlBinding

namespace Json

open Value

/-- What a record leaves open. -/
structure RecordShape where
  /-- the fields, in their order -/
  names : List String
  /-- a field with this value may as well be missing -/
  idle : String → Value → Prop := fun _ _ => False
  /-- a field with the first value may have the second one instead -/
  inside : String → Value → Value → Prop := fun _ _ _ => False

namespace RecordShape

variable {shape : RecordShape}

/-- The items are those of an array with the given fields, of which the named ones are still to
come. -/
inductive Listing (shape : RecordShape) (field : String → Option Value) :
    List String → List Value → Prop
  /-- the array may end if only idle fields are left -/
  | leftOut {names : List String} (idle : ∀ name ∈ names, ∀ v, field name = some v →
      shape.idle name v) : Listing shape field names []
  | present {name : String} {names : List String} {v : Value} {items : List Value}
    (found : field name = some v) (rest : Listing shape field names items) :
    Listing shape field (name :: names) (v :: items)
  /-- a missing field before another one is written as an idle value -/
  | filledIn {name : String} {names : List String} {v : Value} {items : List Value}
    (missing : field name = none) (idle : shape.idle name v)
    (rest : Listing shape field names items) : Listing shape field (name :: names) (v :: items)

/-- One change of a record. -/
inductive Step (shape : RecordShape) : Value → Value → Prop
  /-- members change places -/
  | permuted {members members' : List (Option String × Value)} (closed : Bool)
    (perm : members.Perm members') : Step shape (.object members closed) (.object members' closed)
  /-- a member is inserted that is no field -/
  | inserted (front back : List (Option String × Value)) (closed : Bool) {key : String} {v : Value}
    (unknown : key ∉ shape.names) (wellFormed : v.wellFormed = true) :
    Step shape (.object (front ++ back) closed) (.object (front ++ (some key, v) :: back) closed)
  /-- an object becomes the array of its fields -/
  | listed {members : List (Option String × Value)} (closed : Bool) {items : List Value}
    (listing : shape.Listing (fun name => members.lookup (some name)) shape.names items) :
    Step shape (.object members closed) (.array items true)
  /-- the value of a field is written otherwise -/
  | within (front back : List (Option String × Value)) (closed : Bool) {name : String}
    {v v' : Value} (known : name ∈ shape.names) (inside : shape.inside name v v') :
    Step shape (.object (front ++ (some name, v) :: back) closed)
      (.object (front ++ (some name, v') :: back) closed)

/-- How a field may change. -/
inductive Alike (shape : RecordShape) (name : String) : Option Value → Option Value → Prop
  | same (field : Option Value) : Alike shape name field field
  | within {v v' : Value} (inside : shape.inside name v v') : Alike shape name (some v) (some v')
  | leftOut {v : Value} (idle : shape.idle name v) : Alike shape name (some v) none
  | filledIn {v : Value} (idle : shape.idle name v) : Alike shape name none (some v)

/-- The second text is complete, and its record comes from that of the first by steps. -/
def Rewritten (shape : RecordShape) (text text' : String) : Prop :=
  (Json.read text').complete = true ∧
    Relation.ReflTransGen shape.Step (Json.read text).root (Json.read text').root

/-! ## Fields of a changed record -/

theorem Listing.length_le {field : String → Option Value} {names : List String}
    {items : List Value} (h : shape.Listing field names items) : items.length ≤ names.length := by
  induction h with
  | leftOut _ => simp
  | present _ _ ih => simpa using ih
  | filledIn _ _ _ ih => simpa using ih

/-- The first item is the first field, and the other items are the other fields. -/
theorem alike_cons {field : String → Option Value} {first : String} {names : List String}
    {v : Value} {items : List Value} (hfresh : first ∉ names)
    (hfirst : shape.Alike first (field first) (some v))
    (hrest : ∀ name ∈ names, shape.Alike name (field name) ((names.zip items).lookup name)) :
    ∀ name ∈ first :: names,
      shape.Alike name (field name) (((first :: names).zip (v :: items)).lookup name) := by
  rw [List.forall_mem_cons, List.zip_cons_cons, List.lookup_cons, beq_self_eq_true]
  refine ⟨hfirst, fun name hname => ?_⟩
  have hne : name ≠ first := by
    rintro rfl
    exact hfresh hname
  rw [List.lookup_cons, beq_false_of_ne hne]
  exact hrest name hname

theorem Listing.alike {field : String → Option Value} {names : List String} {items : List Value}
    (h : shape.Listing field names items) (hnodup : names.Nodup) :
    ∀ name ∈ names, shape.Alike name (field name) ((names.zip items).lookup name) := by
  induction h with
  | leftOut idle =>
    intro name hname
    rw [List.zip_nil_right, List.lookup_nil]
    rcases hfield : field name with _ | v
    · exact .same none
    · exact .leftOut (idle name hname v hfield)
  | present found _ ih =>
    obtain ⟨hfresh, hnodup⟩ := List.nodup_cons.mp hnodup
    exact alike_cons hfresh (found ▸ .same _) (ih hnodup)
  | filledIn missing idle _ ih =>
    obtain ⟨hfresh, hnodup⟩ := List.nodup_cons.mp hnodup
    exact alike_cons hfresh (missing ▸ .filledIn idle) (ih hnodup)

/-- A step keeps the form of a record. -/
theorem Step.isRecord {v v' : Value} (h : shape.Step v v') (hform : v.IsRecord shape.names) :
    v'.IsRecord shape.names := by
  cases h with
  | permuted closed perm =>
    obtain ⟨hclosed, hreadable, hcount⟩ := hform
    refine ⟨hclosed, fun member hmember => hreadable member (perm.mem_iff.mpr hmember), ?_⟩
    intro name hname
    rw [← (perm.map Prod.fst).count_eq]
    exact hcount name hname
  | @inserted front back closed key v unknown wellFormed =>
    obtain ⟨hclosed, hreadable, hcount⟩ := hform
    refine ⟨hclosed, fun member hmember => ?_, fun name hname => ?_⟩
    · rcases List.mem_cons.mp (List.perm_middle.mem_iff.mp hmember) with rfl | hmember
      · exact ⟨_, rfl, .inr wellFormed⟩
      · exact hreadable member hmember
    · have hne : some key ≠ some name := fun heq => unknown (Option.some.inj heq ▸ hname)
      rw [(List.perm_middle.map Prod.fst).count_eq, List.map_cons, List.count_cons_of_ne hne]
      exact hcount name hname
  | listed closed listing => exact ⟨rfl, listing.length_le⟩
  | within front back closed known inside =>
    obtain ⟨hclosed, hreadable, hcount⟩ := hform
    refine ⟨hclosed, fun member hmember => ?_, by simpa using hcount⟩
    rcases List.mem_cons.mp (List.perm_middle.mem_iff.mp hmember) with rfl | hmember
    · exact ⟨_, rfl, .inl known⟩
    · exact hreadable member (List.perm_middle.mem_iff.mpr (List.mem_cons_of_mem _ hmember))

/-- A step leaves every field alike. -/
theorem Step.alike (hnodup : shape.names.Nodup) {v v' : Value} (h : shape.Step v v')
    (hform : v.IsRecord shape.names) {name : String} (hname : name ∈ shape.names) :
    shape.Alike name (v.field? shape.names name) (v'.field? shape.names name) := by
  cases h with
  | permuted closed perm =>
    rw [field?, field?, lookup_perm perm (hform.2.2 name hname)]
    exact .same _
  | @inserted front back closed key v unknown _ =>
    have hne : name ≠ key := by
      rintro rfl
      exact unknown hname
    rw [field?, field?, lookup_remove hne]
    exact .same _
  | listed closed listing => exact listing.alike hnodup name hname
  | @within front back closed key v v' known inside =>
    by_cases hne : name = key
    · subst hne
      have hstep : shape.Step _ _ := .within front back closed known inside
      have hform' := hstep.isRecord hform
      rw [field?, field?, lookup_middle (hform.2.2 name hname),
        lookup_middle (hform'.2.2 name hname)]
      exact .within inside
    · rw [field?, field?, lookup_remove hne, lookup_remove hne]
      exact .same _

/-- A field that is alike gives the same. -/
theorem Alike.given {α : Type} {name : String} {absent : Except Fault α}
    {read : Value → Except Fault α} {field field' : Option Value} {a : α}
    (hidle : ∀ v, shape.idle name v → read v = absent)
    (hinside : ∀ v v', shape.inside name v v' → read v = .ok a → read v' = .ok a)
    (h : shape.Alike name field field') (hread : Value.given absent read field = .ok a) :
    Value.given absent read field' = .ok a := by
  cases h with
  | same => exact hread
  | within inside => exact hinside _ _ inside hread
  | leftOut idle => exact (hidle _ idle).symm.trans hread
  | filledIn idle => exact (hidle _ idle).trans hread

section Texts

variable {α : Type} {read : Value → Except Fault α}
  (hstep : ∀ {v v' : Value} {a : α}, shape.Step v v' → read v = .ok a → read v' = .ok a)
include hstep

theorem read_of_steps {v v' : Value} (hsteps : Relation.ReflTransGen shape.Step v v') {a : α}
    (hread : read v = .ok a) : read v' = .ok a := by
  induction hsteps with
  | refl => exact hread
  | tail _ step ih => exact hstep step ih

/-- A reader that every step keeps reads all texts of a record alike. -/
theorem Rewritten.decode {text text' : String} (h : shape.Rewritten text text') {a : α}
    (hread : (Json.read text).decode read = .ok a) : (Json.read text').decode read = .ok a := by
  rw [Document.decode_eq_ok_iff] at hread ⊢
  exact ⟨read_of_steps hstep h.2 hread.1, h.1⟩

end Texts

theorem Rewritten.of_read {text text' : String} {v v' : Value} {complete : Bool}
    (hread : Json.read text = ⟨v, complete⟩) (hsteps : Relation.ReflTransGen shape.Step v v')
    (hread' : Json.read text' = ⟨v', true⟩) : shape.Rewritten text text' := by
  rw [Rewritten, hread, hread']
  exact ⟨rfl, hsteps⟩

end RecordShape

/-! ## Items -/

namespace Value

theorem mapM_eq_ok {α : Type} {read : Value → Except Fault α} {vs : List Value} {as : List α} :
    vs.mapM read = .ok as ↔ List.Forall₂ (fun v a => read v = .ok a) vs as := by
  induction vs generalizing as with
  | nil =>
    rw [List.mapM_nil, List.forall₂_nil_left_iff]
    exact ⟨fun h => (Except.ok.inj h).symm, fun h => congrArg _ h.symm⟩
  | cons v vs ih =>
    rw [List.mapM_cons, bind_eq_ok, List.forall₂_cons_left_iff]
    refine exists_congr fun a => ?_
    simp only [bind_eq_ok, ih]
    constructor
    · rintro ⟨hread, rest, hrest, h⟩
      exact ⟨rest, hread, hrest, (Except.ok.inj h).symm⟩
    · rintro ⟨rest, hread, hrest, rfl⟩
      exact ⟨hread, rest, hrest, rfl⟩

/-- The items of an array are read one by one. -/
theorem items_eq_ok {α : Type} {read : Value → Except Fault α} {v : Value} {as : List α} :
    v.items read = .ok as ↔
      ∃ vs, v = .array vs true ∧ List.Forall₂ (fun v a => read v = .ok a) vs as := by
  cases v with
  | array vs closed =>
    simp only [items, bind_eq_ok, check_eq_ok, mapM_eq_ok]
    constructor
    · rintro ⟨_, hread, rfl, rfl⟩
      exact ⟨vs, rfl, hread⟩
    · rintro ⟨_, h, hread⟩
      cases h
      exact ⟨as, hread, rfl, rfl⟩
  | _ => simp [items]

/-- Two arrays, of which some items differ as allowed. -/
def Itemwise (allowed : Value → Value → Prop) (v v' : Value) : Prop :=
  ∃ vs vs', v = .array vs true ∧ v' = .array vs' true ∧
    List.Forall₂ (fun item item' => item = item' ∨ allowed item item') vs vs'

theorem Itemwise.items {α : Type} {allowed : Value → Value → Prop} {read : Value → Except Fault α}
    {v v' : Value} {as : List α}
    (hitem : ∀ {v v' : Value} {a : α}, allowed v v' → read v = .ok a → read v' = .ok a)
    (h : Itemwise allowed v v') (hread : v.items read = .ok as) : v'.items read = .ok as := by
  obtain ⟨vs, vs', rfl, rfl, hitems⟩ := h
  rw [items_eq_ok] at hread ⊢
  obtain ⟨_, hvs, hread⟩ := hread
  cases hvs
  refine ⟨vs', rfl, ?_⟩
  induction hitems generalizing as with
  | nil => exact hread
  | cons hfirst _ ih =>
    cases hread with
    | cons ha hrest =>
      refine .cons ?_ (ih hrest)
      rcases hfirst with rfl | hallowed
      · exact ha
      · exact hitem hallowed ha

end Value

end Json

open Json Json.Value

/-! ## Declarations -/

/-- Payload and sign may be missing or `null`. -/
def RawDefault.shape : RecordShape where
  names := fieldNames
  idle name v := name ∈ ["value", "negative"] ∧ v = .null

theorem RawDefault.ofJson_step {depth : Nat} {v v' : Value} {raw : RawDefault}
    (h : shape.Step v v') (hread : ofJson depth v = .ok raw) : ofJson depth v' = .ok raw := by
  rw [ofJson_eq_ok_iff] at hread ⊢
  obtain ⟨hform, hkind, hvalue, hnegative⟩ := hread
  have halike {name : String} (hname : name ∈ fieldNames) := h.alike (by decide) hform hname
  refine ⟨h.isRecord hform, ?_, ?_, ?_⟩
  · exact (halike (by decide)).given (by simp [shape]) (by simp [shape]) hkind
  · refine (halike (by decide)).given ?_ (by simp [shape]) hvalue
    rintro v ⟨-, rfl⟩
    rfl
  · refine (halike (by decide)).given ?_ (by simp [shape]) hnegative
    rintro v ⟨-, rfl⟩
    rfl

/-- The plain modifier may be missing, and the value is a default value. -/
def Constant.shape : RecordShape where
  names := fieldNames
  idle name v := name = "special" ∧
    (v = .string (some "none") ∨ v = .object [(some "none", .null)] true)
  inside name v v' := name = "value" ∧ RawDefault.shape.Step v v'

theorem Constant.ofJson_step {v v' : Value} {c : Constant} (h : shape.Step v v')
    (hread : ofJson v = .ok c) : ofJson v' = .ok c := by
  rw [ofJson_eq_ok_iff] at hread ⊢
  obtain ⟨hform, hname, hvalue, hspecial⟩ := hread
  have halike {name : String} (hname : name ∈ fieldNames) := h.alike (by decide) hform hname
  refine ⟨h.isRecord hform, ?_, ?_, ?_⟩
  · exact (halike (by decide)).given (by simp [shape]) (by simp [shape]) hname
  · refine (halike (by decide)).given (by simp [shape]) ?_ hvalue
    rintro v v' ⟨-, hstep⟩ hread
    rw [Default.ofJson_eq_ok_iff] at hread ⊢
    obtain ⟨raw, hraw, hmeans⟩ := hread
    exact ⟨raw, RawDefault.ofJson_step hstep hraw, hmeans⟩
  · refine (halike (by decide)).given ?_ (by simp [shape]) hspecial
    rintro v ⟨-, rfl | rfl⟩
    · rfl
    · rfl

namespace Enumeration

/-- A string under another name than `value`. -/
def IsRemark (member : Option String × Value) : Prop :=
  ∃ key remark, key ≠ "value" ∧ member = (some key, .string (some remark))

/-- The ways to write a value of an enumeration. -/
inductive ValueForm (text : String) : Value → Prop
  | plain : ValueForm text (.string (some text))
  /-- an object with the value and further strings -/
  | labelled (front back : List (Option String × Value))
    (remarks : ∀ member ∈ front ++ back, IsRemark member) :
    ValueForm text (.object (front ++ (some "value", .string (some text)) :: back) true)

theorem storableMembers_of_strings {depth : Nat} {members : List (Option String × Value)}
    (h : ∀ member ∈ members, ∃ key text, member = (some key, .string (some text))) :
    storableMembers depth members = true := by
  induction members with
  | nil => rfl
  | cons m members ih =>
    obtain ⟨⟨key, text, rfl⟩, hrest⟩ := List.forall_mem_cons.mp h
    simp [storableMembers, storable, ih hrest]

theorem foldlM_remarks {members : List (Option String × Value)} {found : Option String}
    (h : ∀ member ∈ members, IsRemark member) :
    members.foldlM (memberOf valueField) found = .ok found := by
  induction members with
  | nil => rfl
  | cons m members ih =>
    obtain ⟨⟨key, remark, hkey, rfl⟩, hrest⟩ := List.forall_mem_cons.mp h
    rw [List.foldlM_cons, bind_eq_ok]
    exact ⟨found, by simp [memberOf, valueField], ih hrest⟩

/-- **All forms of a value are read as its text.** -/
theorem ValueForm.valueOfJson {depth : Nat} {text : String} {v : Value} (h : ValueForm text v) :
    Enumeration.valueOfJson (depth + 1) v = .ok text := by
  cases h with
  | plain => rfl
  | labelled front back remarks =>
    obtain ⟨hfront, hback⟩ := List.forall_mem_append.mp remarks
    have hstrings : ∀ member ∈ front ++ (some "value", .string (some text)) :: back,
        ∃ key text, member = (some key, .string (some text)) := by
      intro member hmember
      rcases List.mem_cons.mp (List.perm_middle.mem_iff.mp hmember) with rfl | hmember
      · exact ⟨_, _, rfl⟩
      · obtain ⟨key, remark, -, rfl⟩ := remarks member hmember
        exact ⟨key, remark, rfl⟩
    have hstorable : storable (depth + 1)
        (.object (front ++ (some "value", .string (some text)) :: back) true) = true := by
      simp [storable, storableMembers_of_strings hstrings]
    rw [Enumeration.valueOfJson, if_pos hstorable, bind_eq_ok]
    refine ⟨some text, ?_, rfl⟩
    rw [List.foldlM_append, bind_eq_ok]
    refine ⟨none, foldlM_remarks hfront, ?_⟩
    rw [List.foldlM_cons, bind_eq_ok]
    exact ⟨some text, rfl, foldlM_remarks hback⟩

/-- Every value may have another form. -/
def shape : RecordShape where
  names := fieldNames
  inside name v v' := name = "values" ∧
    Itemwise (fun item item' => ∃ text, ValueForm text item ∧ ValueForm text item') v v'

theorem ofJson_step {v v' : Value} {e : Enumeration} (h : shape.Step v v')
    (hread : ofJson v = .ok e) : ofJson v' = .ok e := by
  rw [ofJson_eq_ok_iff] at hread ⊢
  obtain ⟨hform, hname, hvalues⟩ := hread
  have halike {name : String} (hname : name ∈ fieldNames) := h.alike (by decide) hform hname
  refine ⟨h.isRecord hform, ?_, ?_⟩
  · exact (halike (by decide)).given (by simp [shape]) (by simp [shape]) hname
  · refine (halike (by decide)).given (by simp [shape]) ?_ hvalues
    rintro v v' ⟨-, hitems⟩
    refine hitems.items ?_
    rintro item item' text ⟨text', hitem, hitem'⟩ hread
    obtain rfl := Except.ok.inj (hitem.valueOfJson.symm.trans hread)
    exact hitem'.valueOfJson

end Enumeration

/-- A record with a name leaves nothing open but what every record does. -/
def nameShape : RecordShape where
  names := ["name"]

theorem nameOfJson_step {v v' : Value} {name : String} (h : nameShape.Step v v')
    (hread : nameOfJson v = .ok name) : nameOfJson v' = .ok name := by
  rw [nameOfJson_eq_ok_iff] at hread ⊢
  obtain ⟨hform, hname⟩ := hread
  refine ⟨h.isRecord hform, ?_⟩
  exact (h.alike (by decide) hform (List.mem_singleton_self _)).given (by simp [nameShape])
    (by simp [nameShape]) hname

theorem Mixin.ofJson_step {v v' : Value} {m : Mixin} (h : nameShape.Step v v')
    (hread : ofJson v = .ok m) : ofJson v' = .ok m := by
  rw [ofJson, map_eq_ok] at hread ⊢
  obtain ⟨name, hname, hm⟩ := hread
  exact ⟨name, nameOfJson_step h hname, hm⟩

/-- The extended attributes may be missing if there are none, and each is a record with a name. -/
def Interface.shape : RecordShape where
  names := fieldNames
  idle name v := name = "extAttrs" ∧ v = .array [] true
  inside name v v' := name = "extAttrs" ∧ Itemwise nameShape.Step v v'

theorem Interface.ofJson_step {v v' : Value} {i : Interface} (h : shape.Step v v')
    (hread : ofJson v = .ok i) : ofJson v' = .ok i := by
  rw [ofJson_eq_ok_iff] at hread ⊢
  obtain ⟨hform, hname, hattributes⟩ := hread
  have halike {name : String} (hname : name ∈ fieldNames) := h.alike (by decide) hform hname
  refine ⟨h.isRecord hform, ?_, ?_⟩
  · exact (halike (by decide)).given (by simp [shape]) (by simp [shape]) hname
  · refine (halike (by decide)).given ?_ ?_ hattributes
    · rintro v ⟨-, rfl⟩
      rfl
    · rintro v v' ⟨-, hitems⟩
      exact hitems.items nameOfJson_step

/-- An enumeration with values in any form. -/
theorem Enumeration.ofText_of_forms {text name : String} {items : List Value} {texts : List String}
    (hcomplete : (Json.read text).complete = true)
    (hform : (Json.read text).root.IsRecord fieldNames)
    (hname : (Json.read text).root.field? fieldNames "name" = some (.string (some name)))
    (hvalues : (Json.read text).root.field? fieldNames "values" = some (.array items true))
    (hitems : List.Forall₂ (fun item text => ValueForm text item) items texts) :
    ofText text = .ok ⟨name, texts⟩ := by
  rw [ofText, Document.decode_eq_ok_iff, ofJson_eq_ok_iff, hname, hvalues]
  refine ⟨⟨hform, rfl, ?_⟩, hcomplete⟩
  rw [given, items_eq_ok]
  exact ⟨items, rfl, hitems.imp fun _ _ hitem => hitem.valueOfJson⟩

/-- **All forms of a declaration are read alike.** If a text holds a declaration, then so does every
text whose record comes from the first by permuting the members of objects, inserting members
that are no fields, and replacing objects by arrays, also where a record stands in another. The
values of an enumeration are the texts of its items, whatever the form of each. -/
theorem forms_read_alike (text text' : String) :
    (RawDefault.shape.Rewritten text text' →
      ∀ raw, RawDefault.ofText text = .ok raw → RawDefault.ofText text' = .ok raw) ∧
    (Constant.shape.Rewritten text text' →
      ∀ c, Constant.ofText text = .ok c → Constant.ofText text' = .ok c) ∧
    (Enumeration.shape.Rewritten text text' →
      ∀ e, Enumeration.ofText text = .ok e → Enumeration.ofText text' = .ok e) ∧
    (nameShape.Rewritten text text' →
      ∀ m, Mixin.ofText text = .ok m → Mixin.ofText text' = .ok m) ∧
    (Interface.shape.Rewritten text text' →
      ∀ i, Interface.ofText text = .ok i → Interface.ofText text' = .ok i) ∧
    ∀ name items texts, (Json.read text).complete = true →
      (Json.read text).root.IsRecord Enumeration.fieldNames →
      (Json.read text).root.field? Enumeration.fieldNames "name" = some (.string (some name)) →
      (Json.read text).root.field? Enumeration.fieldNames "values" = some (.array items true) →
      List.Forall₂ (fun item text => Enumeration.ValueForm text item) items texts →
      Enumeration.ofText text = .ok ⟨name, texts⟩ := by
  refine ⟨fun h raw => ?_, fun h c => ?_, fun h e => ?_, fun h m => ?_, fun h i => ?_, ?_⟩
  · exact h.decode RawDefault.ofJson_step
  · exact h.decode Constant.ofJson_step
  · exact h.decode Enumeration.ofJson_step
  · exact h.decode Mixin.ofJson_step
  · exact h.decode Interface.ofJson_step
  · exact fun name items texts => Enumeration.ofText_of_forms

/-- Each kind of declaration in two forms. -/
theorem forms_read_alike_objects_and_arrays :
    RawDefault.ofText "[\"Infinity\", null, true]" = .ok ⟨"Infinity", none, some true⟩ ∧
    Constant.ofText "[\"N\", [\"null\"]]" = .ok ⟨"N", .null, .plain⟩ ∧
    Enumeration.ofText
      "\x7b\"values\": [\"a\", \x7b\"k\": \"\", \"value\": \"b\"\x7d], \"name\": \"E\"\x7d" =
      .ok ⟨"E", ["a", "b"]⟩ ∧
    Mixin.ofText "\x7b\"members\": [\x7b\x7d], \"name\": \"M\"\x7d" = .ok ⟨"M"⟩ ∧
    Interface.ofText "[\"I\"]" = .ok ⟨"I", []⟩ ∧
    Enumeration.ofText "[\"E\", [\x7b\"value\": \"a\"\x7d]]" = .ok ⟨"E", ["a"]⟩ := by
  refine ⟨?_, ?_, ?_, ?_, ?_, ?_⟩
  · have hread : Json.read "\x7b\"negative\": true, \"type\": \"Infinity\"\x7d" = ⟨.object
        [(some "negative", .bool true), (some "type", .string (some "Infinity"))] true, true⟩ := by
      cbv
    refine (forms_read_alike "\x7b\"negative\": true, \"type\": \"Infinity\"\x7d" _).1
      (.of_read hread (.single (.listed true ?_)) (by cbv)) _
      (by rw [RawDefault.ofText, hread]; rfl)
    exact .present rfl (.filledIn rfl ⟨by simp, rfl⟩ (.present rfl (.leftOut (by simp))))
  · have hread : Json.read "\x7b\"value\": \x7b\"type\": \"null\"\x7d, \"name\": \"N\"\x7d" =
        ⟨.object [(some "value", .object [(some "type", .string (some "null"))] true),
          (some "name", .string (some "N"))] true, true⟩ := by
      cbv
    -- The value becomes an array before the constant does.
    have hvalue : RawDefault.shape.Step (.object [(some "type", .string (some "null"))] true)
        (.array [.string (some "null")] true) :=
      .listed true (.present rfl (.leftOut (by simp [List.lookup_cons])))
    have hinside : Constant.shape.Step _ _ :=
      .within [] [(some "name", .string (some "N"))] true (by decide) ⟨rfl, hvalue⟩
    exact (forms_read_alike "\x7b\"value\": \x7b\"type\": \"null\"\x7d, \"name\": \"N\"\x7d" _).2.1
      (.of_read hread (.tail (.single hinside) (.listed true
        (.present rfl (.present rfl (.leftOut (by simp [List.lookup_cons])))))) (by cbv)) _
      (by rw [Constant.ofText, hread]; rfl)
  · have hread : Json.read "\x7b\"name\": \"E\", \"values\": [\"a\", \"b\"]\x7d" = ⟨.object
        [(some "name", .string (some "E")),
          (some "values", .array [.string (some "a"), .string (some "b")] true)] true, true⟩ := by
      cbv
    have hform : Enumeration.ValueForm "b" (.object
        [(some "k", .string (some "")), (some "value", .string (some "b"))] true) :=
      .labelled [(some "k", .string (some ""))] [] (by simp [Enumeration.IsRemark])
    have hinside : Enumeration.shape.Step _ _ :=
      .within [(some "name", .string (some "E"))] [] true (by decide)
        ⟨rfl, _, _, rfl, rfl,
          .cons (.inr ⟨"a", .plain, .plain⟩) (.cons (.inr ⟨"b", .plain, hform⟩) .nil)⟩
    exact (forms_read_alike "\x7b\"name\": \"E\", \"values\": [\"a\", \"b\"]\x7d" _).2.2.1
      (.of_read hread (.tail (.single hinside) (.permuted true (.swap _ _ _))) (by cbv)) _
      (by rw [Enumeration.ofText, hread]; rfl)
  · have hread : Json.read "\x7b\"name\": \"M\"\x7d" =
        ⟨.object [(some "name", .string (some "M"))] true, true⟩ := by
      cbv
    have hinserted : nameShape.Step _ (.object [(some "members", .array [.object [] true] true),
        (some "name", .string (some "M"))] true) :=
      .inserted [] [(some "name", .string (some "M"))] true (by decide) rfl
    exact (forms_read_alike "\x7b\"name\": \"M\"\x7d" _).2.2.2.1
      (.of_read hread (.single hinserted) (by cbv)) _ (by rw [Mixin.ofText, hread]; rfl)
  · have hread : Json.read "\x7b\"name\": \"I\", \"extAttrs\": []\x7d" = ⟨.object
        [(some "name", .string (some "I")), (some "extAttrs", .array [] true)] true, true⟩ := by
      cbv
    refine (forms_read_alike "\x7b\"name\": \"I\", \"extAttrs\": []\x7d" _).2.2.2.2.1
      (.of_read hread (.single (.listed true (.present rfl (.leftOut ?_)))) (by cbv)) _
      (by rw [Interface.ofText, hread]; rfl)
    simp [List.lookup_cons, Interface.shape]
  · have hread : Json.read "[\"E\", [\x7b\"value\": \"a\"\x7d]]" = ⟨.array [.string (some "E"),
        .array [.object [(some "value", .string (some "a"))] true] true] true, true⟩ := by
      cbv
    refine (forms_read_alike _ "").2.2.2.2.2 "E" _ _ (by rw [hread]) ?_ (by rw [hread]; rfl)
      (by rw [hread]; rfl) (.cons (.labelled [] [] (by simp)) .nil)
    rw [hread]
    exact ⟨rfl, by decide⟩

end IdlBinding
