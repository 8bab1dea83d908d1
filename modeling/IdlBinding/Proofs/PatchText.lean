import IdlBinding.Default
import IdlBinding.Shape
import IdlBinding.Proofs.QuotedText
import Mathlib.Data.List.Infix

/-!
# Patches as texts

A patch is one line of text: perhaps a value, which may be of any length and hold anything in its
quotes, and then the attributes that change. It is read from its end (`Patch.read?`). An attribute
is what stands behind the last comma, so attributes are taken off as long as there are any, and what
is left is the value. A value does not look like an attribute there: a string literal ends with a
quote, and any other literal has no comma, so that the last one is the comma before the value.

* `Shape.join_changes` — the fields of a patch, attribute by attribute;
* `Patch.readFields?_fields` — what is read from fields is what was written;
* `Shape.patch_unambiguous` — so a patch says what it changes, and names nothing else.
-/

namespace IdlBinding

/-! ## Attributes -/

/-- An attribute of a property. -/
inductive Attribute where
  /-- redefinition -/
  | configurable
  /-- listing -/
  | enumerable
  /-- assignment -/
  | writable
  deriving DecidableEq, Repr

/-- The name of an attribute in a descriptor. -/
def Attribute.name : Attribute → String
  | .configurable => "configurable"
  | .enumerable => "enumerable"
  | .writable => "writable"

/-- The attributes of a kind of property. -/
def PropertyKind.attributes : PropertyKind → List Attribute
  | .data => [.configurable, .enumerable, .writable]
  | .accessor => [.configurable, .enumerable]

/-- An attribute of a shape. -/
def Shape.get (s : Shape) : Attribute → Bool
  | .configurable => s.configurable
  | .enumerable => s.enumerable
  | .writable => s.writable

/-- An attribute, if it is set. -/
def Overrides.get (o : Overrides) : Attribute → Option Bool
  | .configurable => o.configurable
  | .enumerable => o.enumerable
  | .writable => o.writable

theorem Shape.get_override (s : Shape) (o : Overrides) (a : Attribute) :
    (s.override o).get a = (o.get a).getD (s.get a) := by
  cases a <;> rfl

/-! ## Writing -/

/-- The field of an attribute behind another one, if the attribute is named. -/
def Attribute.field (a : Attribute) : Option Bool → String
  | none => ""
  | some b => ", " ++ (a.name ++ ": " ++ toString b)

/-- What a patch says. -/
structure Patch where
  /-- the value, if there is one -/
  value : Option String
  /-- the attributes that are named -/
  overrides : Overrides
  deriving DecidableEq, Repr

namespace Patch

/-- The value as a field. -/
def valueField : Option String → String
  | none => ""
  | some v => ", value: " ++ v

/-- The fields of a patch, each behind a comma. -/
def fields (p : Patch) : String :=
  valueField p.value ++ Attribute.configurable.field p.overrides.configurable ++
    Attribute.enumerable.field p.overrides.enumerable ++
    Attribute.writable.field p.overrides.writable

end Patch

namespace Shape

/-- What becomes of an attribute that a kind of property has and that differs. -/
def difference (current target : Shape) (kind : PropertyKind) (a : Attribute) : Option Bool :=
  if a ∈ kind.attributes ∧ current.get a ≠ target.get a then some (target.get a) else none

/-- The patch from one shape to another. -/
def patchOf (current target : Shape) (kind : PropertyKind) (value : Option String) : Patch where
  value := value
  overrides :=
    { configurable := current.difference target kind .configurable
      enumerable := current.difference target kind .enumerable
      writable := current.difference target kind .writable }

theorem get_patchOf (current target : Shape) (kind : PropertyKind) (value : Option String)
    (a : Attribute) :
    (current.patchOf target kind value).overrides.get a = current.difference target kind a := by
  cases a <;> rfl

/-- The field of an attribute is there if the attribute differs. -/
theorem join_change (current target : Shape) (kind : PropertyKind) {a : Attribute}
    (h : a ∈ kind.attributes) :
    String.join ((change a.name (current.get a) (target.get a)).map (", " ++ ·)) =
      a.field (current.difference target kind a) := by
  by_cases heq : current.get a = target.get a
  · simp [change, difference, Attribute.field, heq]
  · simp [change, difference, Attribute.field, heq, h]

/-- **The fields of a patch** are written one after another, each behind a comma. -/
theorem join_changes (current target : Shape) (kind : PropertyKind) (value : Option String) :
    String.join ((changes current target kind value).map (", " ++ ·)) =
      (current.patchOf target kind value).fields := by
  have hvalue : String.join ((value.map ("value: " ++ ·)).toList.map (", " ++ ·)) =
      Patch.valueField value := by
    cases value with
    | none => rfl
    | some v => simp [Patch.valueField, ← String.append_assoc]
  have hconfigurable := join_change current target kind (a := .configurable)
    (by cases kind <;> simp [PropertyKind.attributes])
  have henumerable := join_change current target kind (a := .enumerable)
    (by cases kind <;> simp [PropertyKind.attributes])
  have hwritable : String.join ((if kind = .data then
      change "writable" current.writable target.writable else []).map (", " ++ ·)) =
        Attribute.writable.field (current.difference target kind .writable) := by
    cases kind with
    | data =>
      exact join_change current target .data (a := .writable) (by simp [PropertyKind.attributes])
    | accessor => simp [difference, PropertyKind.attributes, Attribute.field]
  rw [changes, List.map_append, List.map_append, List.map_append, String.join_append,
    String.join_append, String.join_append, hvalue, hwritable, Patch.fields]
  exact congrArg₂ (fun c e => Patch.valueField value ++ c ++ e ++ _) hconfigurable henumerable

theorem comma_intercalate {fields : List String} (h : fields ≠ []) :
    ", " ++ ", ".intercalate fields = String.join (fields.map (", " ++ ·)) := by
  induction fields with
  | nil => exact absurd rfl h
  | cons field rest ih =>
    rcases eq_or_ne rest [] with rfl | hne
    · simp
    · rw [String.intercalate_cons_of_ne_nil hne, String.append_assoc, ih hne, List.map_cons,
        String.join_cons, String.append_assoc]

/-- A patch is in braces, without the comma before its first field. -/
theorem patch_eq_some {current target : Shape} {kind : PropertyKind} {value : Option String}
    {text : String} (h : current.patch target kind value = some text) : ∃ body,
      text = "\x7b " ++ body ++ " \x7d" ∧
        ", " ++ body = (current.patchOf target kind value).fields := by
  rw [patch] at h
  split at h
  next => cases h
  next hne =>
    exact ⟨_, (Option.some.inj h).symm, (comma_intercalate hne).trans (join_changes ..)⟩

/-- There is no patch if there is nothing to say. -/
theorem patch_eq_none_iff {current target : Shape} {kind : PropertyKind} {value : Option String} :
    current.patch target kind value = none ↔
      value = none ∧ ∀ a ∈ kind.attributes, current.get a = target.get a := by
  have hnil : current.patch target kind value = none ↔ changes current target kind value = [] := by
    rw [patch]
    split
    next hempty => simp [hempty]
    next hne => exact iff_of_false (Option.some_ne_none _) hne
  have hchange (name : String) (b b' : Bool) : change name b b' = [] ↔ b = b' := by
    by_cases h : b = b'
    · simp [change, h]
    · simp [change, h]
  rw [hnil, changes, List.append_eq_nil_iff, List.append_eq_nil_iff, List.append_eq_nil_iff,
    hchange, hchange, Option.toList_eq_nil_iff, Option.map_eq_none_iff]
  cases kind with
  | data => simp [hchange, PropertyKind.attributes, get, and_assoc]
  | accessor => simp [PropertyKind.attributes, get, and_assoc]

end Shape

/-! ## Reading -/

namespace Attribute

/-- Take the field of an attribute off the end of fields, if it is there. -/
def take (a : Attribute) (cs : List Char) : Option Bool × List Char :=
  match List.isSuffixOf? (a.field (some true)).toList cs with
  | some rest => (some true, rest)
  | none =>
    match List.isSuffixOf? (a.field (some false)).toList cs with
    | some rest => (some false, rest)
    | none => (none, cs)

/-- The fields do not end with that attribute. -/
def Absent (a : Attribute) (cs : List Char) : Prop := ∀ b, ¬ (a.field (some b)).toList <:+ cs

end Attribute

namespace Patch

/-- The patch of fields that each stand behind a comma: attributes from the end on, and then the
value. -/
def readFields? (cs : List Char) : Option Patch :=
  let (writable, cs) := Attribute.writable.take cs
  let (enumerable, cs) := Attribute.enumerable.take cs
  let (configurable, cs) := Attribute.configurable.take cs
  if cs.isEmpty then some ⟨none, ⟨configurable, enumerable, writable⟩⟩
  else
    (List.isPrefixOf? ", value: ".toList cs).map fun v =>
      ⟨some (String.ofList v), ⟨configurable, enumerable, writable⟩⟩

/-- The patch that a descriptor literal stands for. -/
def read? (text : String) : Option Patch := do
  let rest ← List.isPrefixOf? "\x7b ".toList text.toList
  let body ← List.isSuffixOf? " \x7d".toList rest
  readFields? (", ".toList ++ body)

end Patch

/-! ## What stands behind the last comma -/

/-- There is one text behind the last comma. -/
theorem eq_of_comma_suffix {x y cs : List Char} (hx : ',' ∉ x) (hy : ',' ∉ y)
    (h : ',' :: x <:+ cs) (h' : ',' :: y <:+ cs) : x = y := by
  rcases List.suffix_or_suffix_of_suffix h h' with hle | hle
  · rcases List.suffix_cons_iff.mp hle with heq | hin
    · exact (List.cons.inj heq).2
    · exact absurd (hin.subset List.mem_cons_self) hy
  · rcases List.suffix_cons_iff.mp hle with heq | hin
    · exact (List.cons.inj heq).2.symm
    · exact absurd (hin.subset List.mem_cons_self) hx

namespace Attribute

/-- A field starts with its comma and has no other. -/
theorem exists_field_eq (a : Attribute) (b : Bool) :
    ∃ x, (a.field (some b)).toList = ',' :: x ∧ ',' ∉ x := by
  cases a <;> cases b <;> exact ⟨_, rfl, by decide⟩

theorem getLast?_field (a : Attribute) (b : Bool) :
    (a.field (some b)).toList.getLast? = some 'e' := by
  cases a <;> cases b <;> rfl

theorem field_injective {a a' : Attribute} {b b' : Bool}
    (h : a.field (some b) = a'.field (some b')) : a = a' ∧ b = b' := by
  revert h
  cases a <;> cases b <;> cases a' <;> cases b' <;> decide

/-- Fields that end with an attribute end with no other. -/
theorem eq_of_field_suffix {a a' : Attribute} {b b' : Bool} {cs : List Char}
    (h : (a.field (some b)).toList <:+ cs) (h' : (a'.field (some b')).toList <:+ cs) :
    a = a' ∧ b = b' := by
  obtain ⟨x, hx, hcomma⟩ := a.exists_field_eq b
  obtain ⟨y, hy, hcomma'⟩ := a'.exists_field_eq b'
  apply field_injective
  apply String.toList_injective
  rw [hx] at h ⊢
  rw [hy] at h' ⊢
  rw [eq_of_comma_suffix hcomma hcomma' h h']

/-- Behind the field of another attribute there is none of this one. -/
theorem Absent.append {a : Attribute} {cs : List Char} (h : a.Absent cs) {other : Attribute}
    (hne : a ≠ other) (o : Option Bool) : a.Absent (cs ++ (other.field o).toList) := by
  intro b hb
  cases o with
  | none => exact h b (by simpa [field] using hb)
  | some b' => exact hne (eq_of_field_suffix hb (List.suffix_append _ _)).1

/-- **A field is taken off again**, and if there is none nothing is. -/
theorem take_append {a : Attribute} {cs : List Char} (h : a.Absent cs) (o : Option Bool) :
    a.take (cs ++ (a.field o).toList) = (o, cs) := by
  have hnone (b : Bool) (l : List Char) (hl : ¬ (a.field (some b)).toList <:+ l) :
      List.isSuffixOf? (a.field (some b)).toList l = none := by
    rw [Option.eq_none_iff_forall_ne_some]
    intro rest hrest
    exact hl ⟨rest, List.isSuffixOf?_eq_some_iff_append_eq.mp hrest⟩
  have hsome (b : Bool) :
      List.isSuffixOf? (a.field (some b)).toList (cs ++ (a.field (some b)).toList) = some cs :=
    List.isSuffixOf?_eq_some_iff_append_eq.mpr rfl
  rw [take]
  cases o with
  | none =>
    rw [field, String.toList_empty, List.append_nil, hnone true cs (h true),
      hnone false cs (h false)]
  | some b =>
    cases b with
    | true => rw [hsome true]
    | false =>
      have hother : ¬ (a.field (some true)).toList <:+ cs ++ (a.field (some false)).toList := by
        intro hsuffix
        exact absurd (eq_of_field_suffix hsuffix (List.suffix_append _ _)).2 (by decide)
      rw [hnone true _ hother, hsome false]

end Attribute

/-! ## Values -/

/-- If the default is a number, its text has no comma. -/
def Default.Undivided : Default → Prop
  | .number text => ',' ∉ text.toList
  | _ => True

/-- A literal has no comma, or ends with a quote. -/
theorem Default.comma_literal {d : Default} (h : d.Undivided) :
    ',' ∉ d.literal.toList ∨ d.literal.toList.getLast? = some '"' := by
  cases d with
  | boolean value => exact .inl (by cases value <;> decide)
  | string value =>
    rw [literal, Quoted.toList_quote, ← List.cons_append]
    exact .inr (List.getLast?_concat ..)
  | number text => exact .inl h
  | null => exact .inl (by decide)
  | notANumber => exact .inl (by decide)
  | infinity negative => exact .inl (by cases negative <;> decide)
  | sequence => exact .inl (by decide)

namespace Patch

/-- The values of patches: none, or the literal of a default. -/
inductive IsValue : Option String → Prop
  /-- no value -/
  | absent : IsValue none
  /-- a literal -/
  | literal (d : Default) (undivided : d.Undivided) : IsValue (some d.literal)

/-- A value does not end like an attribute. -/
theorem IsValue.absent_valueField {value : Option String} (h : IsValue value) (a : Attribute) :
    a.Absent (valueField value).toList := by
  intro b hb
  cases h with
  | absent =>
    obtain ⟨x, hx, -⟩ := a.exists_field_eq b
    rw [hx] at hb
    exact absurd (List.suffix_nil.mp hb) (List.cons_ne_nil _ _)
  | literal d undivided =>
    have hchars : (valueField (some d.literal)).toList =
        ',' :: (" value: ".toList ++ d.literal.toList) := String.toList_append
    rcases d.comma_literal undivided with hcomma | hquote
    · -- The last comma is the one before the value, whose name is no attribute.
      obtain ⟨x, hx, hx'⟩ := a.exists_field_eq b
      have hvalue : ',' ∉ " value: ".toList ++ d.literal.toList := by
        rw [List.mem_append]
        exact not_or.mpr ⟨by decide, hcomma⟩
      rw [hx, hchars] at hb
      rw [eq_of_comma_suffix hx' hvalue hb List.suffix_rfl] at hx
      cases a <;> cases b <;> cases hx
    · -- Attributes end with a letter.
      obtain ⟨front, hfront⟩ := hb
      have hlast := congrArg List.getLast? hfront
      rw [hchars, ← List.cons_append, List.getLast?_append, List.getLast?_append,
        a.getLast?_field, hquote] at hlast
      cases hlast

/-- **The fields of a patch are read back.** -/
theorem readFields?_fields {p : Patch} (h : IsValue p.value) :
    readFields? p.fields.toList = some p := by
  obtain ⟨value, configurable, enumerable, writable⟩ := p
  have hconfigurable := h.absent_valueField .configurable
  have hlisted : Attribute.enumerable ≠ .configurable := by decide
  have hassigned : Attribute.writable ≠ .configurable ∧ Attribute.writable ≠ .enumerable := by
    decide
  have henumerable := (h.absent_valueField .enumerable).append hlisted configurable
  have hwritable := ((h.absent_valueField .writable).append hassigned.1 configurable).append
    hassigned.2 enumerable
  rw [readFields?, fields, String.toList_append, String.toList_append, String.toList_append]
  simp only [Attribute.take_append hwritable, Attribute.take_append henumerable,
    Attribute.take_append hconfigurable]
  cases value with
  | none => rfl
  | some v =>
    have hprefix : List.isPrefixOf? ", value: ".toList (valueField (some v)).toList =
        some v.toList := by
      rw [valueField, String.toList_append]
      exact List.isPrefixOf?_eq_some_iff_append_eq.mpr rfl
    have hne : (valueField (some v)).toList.isEmpty = false := by
      rw [valueField, String.toList_append]
      rfl
    rw [hne, hprefix, if_neg Bool.false_ne_true, Option.map_some, String.ofList_toList]

end Patch

namespace Shape

/-- **A patch is read back**, with its value and exactly the attributes that differ. -/
theorem read?_patch {current target : Shape} {kind : PropertyKind} {value : Option String}
    (hvalue : Patch.IsValue value) {text : String}
    (h : current.patch target kind value = some text) :
    Patch.read? text = some (current.patchOf target kind value) := by
  obtain ⟨body, rfl, hbody⟩ := patch_eq_some h
  have hopening : List.isPrefixOf? "\x7b ".toList ("\x7b " ++ body ++ " \x7d").toList =
      some (body.toList ++ " \x7d".toList) := by
    rw [String.toList_append, String.toList_append, List.append_assoc]
    exact List.isPrefixOf?_eq_some_iff_append_eq.mpr rfl
  have hclosing : List.isSuffixOf? " \x7d".toList (body.toList ++ " \x7d".toList) =
      some body.toList := List.isSuffixOf?_eq_some_iff_append_eq.mpr rfl
  have hfields : ", ".toList ++ body.toList =
      (current.patchOf target kind value).fields.toList := by
    rw [← hbody, String.toList_append]
  simp only [Patch.read?, hopening, hclosing, hfields, Option.bind_eq_bind, Option.bind_some]
  exact Patch.readFields?_fields hvalue

theorem getD_difference (current target : Shape) {kind : PropertyKind} {a : Attribute}
    (h : a ∈ kind.attributes) :
    (current.difference target kind a).getD (current.get a) = target.get a := by
  by_cases heq : current.get a = target.get a
  · simp [difference, heq]
  · simp [difference, heq, h]

theorem difference_eq_some {current target : Shape} {kind : PropertyKind} {a : Attribute}
    {b : Bool} (h : current.difference target kind a = some b) :
    a ∈ kind.attributes ∧ b = target.get a ∧ current.get a ≠ b := by
  rw [difference] at h
  split at h
  next hdiffers =>
    obtain rfl := Option.some.inj h
    exact ⟨hdiffers.1, rfl, hdiffers.2⟩
  next => cases h

/-- **Patches are unambiguous and minimal.** Values are literals of defaults, in which the text of a
number has no comma, or are left out.
* Two patches from one shape are the same text only if they have the same value and lead to shapes
  with the same attributes, as far as the kind of property has them.
* There is no patch exactly if there is no value and no attribute differs.
* A patch can be read back. Its value is the given one, its attributes lead from the one shape to
  the other, and each of them is one that differs. -/
theorem patch_unambiguous (current : Shape) (kind : PropertyKind) :
    (∀ (t₁ t₂ : Shape) (v₁ v₂ : Option String), Patch.IsValue v₁ → Patch.IsValue v₂ →
      current.patch t₁ kind v₁ = current.patch t₂ kind v₂ →
        v₁ = v₂ ∧ ∀ a ∈ kind.attributes, t₁.get a = t₂.get a) ∧
    (∀ (t : Shape) (v : Option String), current.patch t kind v = none ↔
      v = none ∧ ∀ a ∈ kind.attributes, current.get a = t.get a) ∧
    ∀ (t : Shape) (v : Option String) (text : String), Patch.IsValue v →
      current.patch t kind v = some text → ∃ p, Patch.read? text = some p ∧ p.value = v ∧
        (∀ a ∈ kind.attributes, (current.override p.overrides).get a = t.get a) ∧
        ∀ a b, p.overrides.get a = some b →
          a ∈ kind.attributes ∧ b = t.get a ∧ current.get a ≠ b := by
  refine ⟨fun t₁ t₂ v₁ v₂ hv₁ hv₂ heq => ?_, fun t v => patch_eq_none_iff, fun t v text hv h => ?_⟩
  · rcases h₁ : current.patch t₁ kind v₁ with _ | text
    · obtain ⟨rfl, hsame₁⟩ := patch_eq_none_iff.mp h₁
      obtain ⟨rfl, hsame₂⟩ := patch_eq_none_iff.mp (heq.symm.trans h₁)
      exact ⟨rfl, fun a ha => (hsame₁ a ha).symm.trans (hsame₂ a ha)⟩
    · have hread := (read?_patch hv₁ h₁).symm.trans (read?_patch hv₂ (heq.symm.trans h₁))
      have hpatch := Option.some.inj hread
      refine ⟨congrArg Patch.value hpatch, fun a ha => ?_⟩
      rw [← getD_difference current t₁ ha, ← getD_difference current t₂ ha,
        ← get_patchOf _ _ _ v₁, hpatch, get_patchOf]
  · refine ⟨_, read?_patch hv h, rfl, fun a ha => ?_, fun a b hb => ?_⟩
    · rw [get_override, get_patchOf, getD_difference current t ha]
    · rw [get_patchOf] at hb
      exact difference_eq_some hb

/-- A string that looks like the rest of a patch, and an accessor without a value. -/
theorem patch_unambiguous_quoted_fields :
    let v := some (Default.string ", enumerable: true \x7d").literal
    Patch.IsValue v ∧ Patch.IsValue none ∧
    sealed.patch ⟨true, false, false⟩ .data v =
      some "\x7b value: \", enumerable: true \x7d\", configurable: true \x7d" ∧
    (∃ p, Patch.read? "\x7b value: \", enumerable: true \x7d\", configurable: true \x7d" = some p ∧
      p.value = v ∧ p.overrides.get .enumerable = none) ∧
    sealed.patch ⟨true, false, true⟩ .accessor none =
      sealed.patch ⟨true, false, false⟩ .accessor none ∧
    get ⟨true, false, true⟩ .configurable = get ⟨true, false, false⟩ .configurable := by
  intro v
  have hv : Patch.IsValue v := .literal _ trivial
  have hpatch : sealed.patch ⟨true, false, false⟩ .data v =
      some "\x7b value: \", enumerable: true \x7d\", configurable: true \x7d" := by decide
  obtain ⟨p, hp, hvalue, hlead, hnamed⟩ := (patch_unambiguous sealed .data).2.2 _ _ _ hv hpatch
  have hsame : sealed.patch ⟨true, false, true⟩ .accessor none =
      sealed.patch ⟨true, false, false⟩ .accessor none := by decide
  refine ⟨hv, .absent, hpatch, ⟨p, hp, hvalue, ?_⟩, hsame, ?_⟩
  · rw [Option.eq_none_iff_forall_ne_some]
    intro b hb
    obtain ⟨-, rfl, hne⟩ := hnamed _ _ hb
    exact hne rfl
  · exact ((patch_unambiguous sealed .accessor).1 _ _ _ _ .absent .absent hsame).2 _ (by decide)

end Shape

end IdlBinding
