import IdlBinding.Proofs.KeyText

/-!
# The property that a key stands for

A key has a text in object literals (`access`) and a text in messages (`display`). Both tell the
same properties apart: two keys have one text exactly when they are `SameProperty`, the same name
or descriptions of the same well-known symbol.

In messages this holds of all keys, since names are in quotes there. In object literals names
without a hyphen stand bare, and it holds of names that do not start with a bracket.
-/

namespace IdlBinding.PropertyKey

/-- Two keys of one property. -/
inductive SameProperty : PropertyKey → PropertyKey → Prop
  /-- the same name -/
  | text (name : String) : SameProperty (.text name) (.text name)
  /-- descriptions of the same well-known symbol -/
  | symbol {name d d' : String} (left : Spelling name d) (right : Spelling name d') :
    SameProperty (.symbol d) (.symbol d')

/-! ## Keys that have texts -/

/-- A symbol has a text in object literals if it has a reference. -/
theorem exists_access_symbol_iff {d : String} :
    (∃ found, (symbol d).access = .ok found) ↔ ∃ name, name ≠ "" ∧ Spelling name d := by
  constructor
  · rintro ⟨found, h⟩
    obtain ⟨name, hne, hd, -⟩ := access_symbol_eq_ok_iff.mp h
    exact ⟨name, hne, hd⟩
  · rintro ⟨name, hne, hd⟩
    exact ⟨_, access_symbol_eq_ok_iff.mpr ⟨name, hne, hd, rfl⟩⟩

/-- A key has both texts or none. -/
theorem exists_access_iff_exists_display (key : PropertyKey) :
    (∃ found, key.access = .ok found) ↔ ∃ found, key.display = .ok found := by
  cases key with
  | text name => exact iff_of_true ⟨_, rfl⟩ ⟨_, rfl⟩
  | symbol d =>
    rw [exists_access_symbol_iff]
    constructor
    · rintro ⟨name, hne, hd⟩
      exact ⟨_, reference_eq_ok_iff.mpr ⟨name, hne, hd, rfl⟩⟩
    · rintro ⟨found, h⟩
      obtain ⟨name, hne, hd, -⟩ := reference_eq_ok_iff.mp h
      exact ⟨name, hne, hd⟩

/-! ## Keys with one text -/

/-- A name in quotes is no reference. -/
theorem quote_ne_reference (name symbolName : String) :
    Quoted.quote name ≠ "Symbol." ++ symbolName := by
  intro heq
  have hchars := congrArg String.toList heq
  rw [Quoted.toList_quote, String.toList_append] at hchars
  cases hchars

/-- The text of a key in messages is that of its property. -/
theorem display_congr {a b : PropertyKey} (h : SameProperty a b) {x y : String}
    (ha : a.display = .ok x) (hb : b.display = .ok y) : x = y := by
  cases h with
  | text name => exact Except.ok.inj (ha.symm.trans hb)
  | symbol left right =>
    obtain ⟨n, -, hn, rfl⟩ := reference_eq_ok_iff.mp ha
    obtain ⟨m, -, hm, rfl⟩ := reference_eq_ok_iff.mp hb
    rw [hn.unique left, hm.unique right]

/-- The text of a key in object literals is that of its property. -/
theorem access_congr {a b : PropertyKey} (h : SameProperty a b) {x y : String}
    (ha : a.access = .ok x) (hb : b.access = .ok y) : x = y := by
  cases h with
  | text name => exact Except.ok.inj (ha.symm.trans hb)
  | symbol left right =>
    obtain ⟨n, -, hn, rfl⟩ := access_symbol_eq_ok_iff.mp ha
    obtain ⟨m, -, hm, rfl⟩ := access_symbol_eq_ok_iff.mp hb
    rw [hn.unique left, hm.unique right]

/-- **Keys with one text in messages** are keys of one property. -/
theorem sameProperty_of_display {a b : PropertyKey} {found : String}
    (ha : a.display = .ok found) (hb : b.display = .ok found) : SameProperty a b := by
  cases a with
  | text n =>
    obtain rfl := Except.ok.inj ha
    cases b with
    | text m =>
      obtain rfl := quote_injective (Except.ok.inj hb)
      exact .text m
    | symbol d =>
      obtain ⟨name, -, -, heq⟩ := reference_eq_ok_iff.mp hb
      exact absurd heq (quote_ne_reference n name)
  | symbol d =>
    obtain ⟨name, -, hd, rfl⟩ := reference_eq_ok_iff.mp ha
    cases b with
    | text m => exact absurd (Except.ok.inj hb) (quote_ne_reference m name)
    | symbol d' =>
      obtain ⟨name', -, hd', heq⟩ := reference_eq_ok_iff.mp hb
      have hname : name = name' := by simpa using heq
      exact .symbol hd (hname ▸ hd')

/-- **Keys with one text in object literals** are keys of one property, if no name starts like the
text of a symbol. -/
theorem sameProperty_of_access {a b : PropertyKey} {found : String}
    (htext : ∀ name, a = .text name ∨ b = .text name → name.toList.head? ≠ some '[')
    (ha : a.access = .ok found) (hb : b.access = .ok found) : SameProperty a b := by
  rcases eq_or_spellings_of_access htext ha hb with rfl | ⟨name, d, d', rfl, rfl, hd, hd'⟩
  · cases a with
    | text name => exact .text name
    | symbol d =>
      obtain ⟨name, -, hd, -⟩ := access_symbol_eq_ok_iff.mp ha
      exact .symbol hd hd
  · exact .symbol hd hd'

/-- **Texts identify properties.**

* A key has a text in object literals exactly when it has one in messages.
* A symbol has them exactly when its description spells a name that is not empty, and then they are
  the reference in brackets and the reference.
* Two keys have one text in messages exactly when they are keys of one property.
* The same holds of their texts in object literals, unless a name starts with a bracket. -/
theorem texts_identify_properties :
    (∀ key : PropertyKey,
      (∃ found, key.access = .ok found) ↔ ∃ found, key.display = .ok found) ∧
    (∀ d : String,
      (∃ found, (symbol d).access = .ok found) ↔ ∃ name, name ≠ "" ∧ Spelling name d) ∧
    (∀ d name : String, name ≠ "" → Spelling name d →
      (symbol d).access = .ok ("[Symbol." ++ name ++ "]") ∧
        (symbol d).display = .ok ("Symbol." ++ name)) ∧
    (∀ (a b : PropertyKey) (x y : String), a.display = .ok x → b.display = .ok y →
      (x = y ↔ SameProperty a b)) ∧
    ∀ (a b : PropertyKey) (x y : String),
      (∀ name, a = .text name ∨ b = .text name → name.toList.head? ≠ some '[') →
      a.access = .ok x → b.access = .ok y → (x = y ↔ SameProperty a b) := by
  refine ⟨exists_access_iff_exists_display, fun d => exists_access_symbol_iff,
    fun d name hne hd => ?_, fun a b x y ha hb => ?_, fun a b x y htext ha hb => ?_⟩
  · exact ⟨access_symbol_eq_ok_iff.mpr ⟨name, hne, hd, rfl⟩,
      reference_eq_ok_iff.mpr ⟨name, hne, hd, rfl⟩⟩
  · constructor
    · rintro rfl
      exact sameProperty_of_display ha hb
    · intro h
      exact display_congr h ha hb
  · constructor
    · rintro rfl
      exact sameProperty_of_access htext ha hb
    · intro h
      exact access_congr h ha hb

/-- The iterator in both spellings, and a hyphenated name that has quotes of its own. -/
theorem texts_identify_properties_iterator :
    ((symbol "Symbol(Symbol.iterator)").access = .ok "[Symbol.iterator]" ∧
      (symbol "Symbol(Symbol.iterator)").display = .ok "Symbol.iterator") ∧
    SameProperty (.symbol "Symbol.iterator") (.symbol "Symbol(Symbol.iterator)") ∧
    ¬ SameProperty (.text "a-b") (.text "\"a-b\"") := by
  have hnames : ∀ name, text "a-b" = .text name ∨ text "\"a-b\"" = .text name →
      name.toList.head? ≠ some '[' := by
    rintro name (h | h)
    · obtain rfl := PropertyKey.text.inj h
      decide
    · obtain rfl := PropertyKey.text.inj h
      decide
  obtain ⟨-, -, hsymbol, hdisplay, haccess⟩ := texts_identify_properties
  refine ⟨hsymbol _ "iterator" (by decide) .wrapped,
    (hdisplay _ _ "Symbol.iterator" "Symbol.iterator" rfl rfl).mp rfl, ?_⟩
  rw [← haccess _ _ "\"a-b\"" "\"\\\"a-b\\\"\"" hnames rfl rfl]
  decide

/-- A name that starts with a bracket can be taken for a symbol. -/
example : (text "[Symbol.iterator]").access = (symbol "Symbol.iterator").access := by
  rfl

end IdlBinding.PropertyKey
