import IdlBinding.PropertyKey
import IdlBinding.Proofs.QuotedText
import Mathlib.Data.List.Basic

/-!
# Keys and their texts

Which keys can be referred to, and when two keys are referred to by the same text.

The symbols that can are the well-known ones, and each of them has two descriptions: the reference
itself, and the reference in `Symbol(…)` as symbols are printed (`Spelling`). Both lead to the same
text, and this is the only way in which two keys can meet (`eq_or_spellings_of_access`), as long as
no text key looks like the beginning of a symbol.
-/

namespace IdlBinding.PropertyKey

/-! ## Descriptions of well-known symbols -/

/-- The descriptions of the well-known symbol with a name. -/
inductive Spelling (name : String) : String → Prop
  /-- its reference -/
  | bare : Spelling name ("Symbol." ++ name)
  /-- its reference as symbols are printed -/
  | wrapped : Spelling name ("Symbol(Symbol." ++ name ++ ")")

/-- What is around a text is taken off, an opening and a closing, or else nothing is. -/
theorem unwrapDescription_cases (cs : List Char) :
    (∃ inner, cs = "Symbol(".toList ++ (inner ++ ")".toList) ∧ unwrapDescription cs = inner) ∨
      unwrapDescription cs = cs ∧ ∀ inner, cs ≠ "Symbol(".toList ++ (inner ++ ")".toList) := by
  have hiff (inner : List Char) :
      ((List.isPrefixOf? "Symbol(".toList cs).bind fun rest => List.isSuffixOf? ")".toList rest) =
        some inner ↔ cs = "Symbol(".toList ++ (inner ++ ")".toList) := by
    rw [Option.bind_eq_some_iff]
    simp only [List.isPrefixOf?_eq_some_iff_append_eq, List.isSuffixOf?_eq_some_iff_append_eq]
    constructor
    · rintro ⟨rest, rfl, rfl⟩
      rfl
    · rintro rfl
      exact ⟨_, rfl, rfl⟩
  rcases h : (List.isPrefixOf? "Symbol(".toList cs).bind
      fun rest => List.isSuffixOf? ")".toList rest with _ | inner
  · refine Or.inr ⟨congrArg (Option.getD · cs) h, fun inner hcs => ?_⟩
    rw [(hiff inner).mpr hcs] at h
    cases h
  · exact Or.inl ⟨inner, (hiff inner).mp h, congrArg (Option.getD · cs) h⟩

/-- A reference is what is left of either spelling, and of nothing else. -/
theorem unwrapDescription_eq_iff {description name : String} :
    unwrapDescription description.toList = ("Symbol." ++ name).toList ↔
      Spelling name description := by
  have hwrapped : ("Symbol(Symbol." ++ name ++ ")").toList =
      "Symbol(".toList ++ (("Symbol." ++ name).toList ++ ")".toList) := by
    simp [String.toList_append]
  constructor
  · intro h
    rcases unwrapDescription_cases description.toList with ⟨inner, htext, hinner⟩ | ⟨hbare, -⟩
    · rw [← hinner, h, ← hwrapped] at htext
      exact String.toList_injective htext ▸ .wrapped
    · exact String.toList_injective (hbare.symm.trans h) ▸ .bare
  · rintro (_ | _)
    · rcases unwrapDescription_cases ("Symbol." ++ name).toList with ⟨inner, htext, -⟩ | ⟨hbare, -⟩
      · simp [String.toList_append] at htext
      · exact hbare
    · rw [hwrapped]
      rcases unwrapDescription_cases
        ("Symbol(".toList ++ (("Symbol." ++ name).toList ++ ")".toList)) with
        ⟨inner, htext, hinner⟩ | ⟨-, hnot⟩
      · rw [hinner]
        exact (List.append_cancel_right (List.append_cancel_left htext)).symm
      · exact absurd rfl (hnot _)

/-- A description spells one name only. -/
theorem Spelling.unique {description a b : String} (ha : Spelling a description)
    (hb : Spelling b description) : a = b := by
  rw [← unwrapDescription_eq_iff] at ha hb
  have htext : "Symbol." ++ a = "Symbol." ++ b := String.toList_injective (ha.symm.trans hb)
  simpa using htext

/-- **The symbols that can be referred to** are those with a spelling of a name that is not
empty. -/
theorem reference?_eq_some_iff {description found : String} :
    reference? description = some found ↔
      ∃ name, name ≠ "" ∧ Spelling name description ∧ found = "Symbol." ++ name := by
  simp only [← unwrapDescription_eq_iff, reference?]
  constructor
  · intro h
    split at h
    next c cs hrest =>
      obtain ⟨name, hname⟩ : ∃ name : String, name.toList = c :: cs :=
        ⟨String.ofList (c :: cs), String.toList_ofList⟩
      rw [← hname, List.isPrefixOf?_eq_some_iff_append_eq, ← String.toList_append] at hrest
      refine ⟨name, ?_, hrest.symm, ?_⟩
      · rintro rfl
        cases hname
      · rw [← Option.some.inj h, ← hrest, String.ofList_toList]
    next => cases h
  · rintro ⟨name, hne, hbare, rfl⟩
    rw [hbare, String.ofList_toList, String.toList_append,
      List.isPrefixOf?_eq_some_iff_append_eq.mpr rfl]
    rcases hname : name.toList with _ | ⟨c, cs⟩
    · exact absurd (String.toList_eq_nil_iff.mp hname) hne
    · rfl

theorem reference_eq_ok_iff {description found : String} :
    reference description = .ok found ↔
      ∃ name, name ≠ "" ∧ Spelling name description ∧ found = "Symbol." ++ name := by
  rw [reference, ← reference?_eq_some_iff]
  rcases reference? description with _ | r
  · simp
  · simp

/-! ## Access -/

/-- The reference of a symbol stands in brackets. -/
theorem access_symbol_eq_ok_iff {description found : String} :
    (symbol description).access = .ok found ↔
      ∃ name, name ≠ "" ∧ Spelling name description ∧ found = "[Symbol." ++ name ++ "]" := by
  have hbrackets (name : String) :
      "[" ++ ("Symbol." ++ name) ++ "]" = "[Symbol." ++ name ++ "]" := by
    rw [← String.append_assoc]
    rfl
  rw [access]
  constructor
  · intro h
    rcases hr : reference description with e | r
    · rw [hr] at h
      cases h
    · rw [hr] at h
      obtain ⟨name, hne, hspelling, rfl⟩ := reference_eq_ok_iff.mp hr
      exact ⟨name, hne, hspelling, (Except.ok.inj h).symm.trans (hbrackets name)⟩
  · rintro ⟨name, hne, hspelling, rfl⟩
    rw [reference_eq_ok_iff.mpr ⟨name, hne, hspelling, rfl⟩, ← hbrackets]
    rfl

theorem hyphen_mem_quote {name : String} (h : '-' ∈ name.toList) :
    '-' ∈ (Quoted.quote name).toList := by
  rw [Quoted.toList_quote, Quoted.encode]
  refine List.mem_cons_of_mem _ (List.mem_append_left _ ?_)
  exact List.mem_flatMap.mpr ⟨'-', h, by decide⟩

theorem quote_injective : Function.Injective Quoted.quote := by
  intro a b h
  refine (Quoted.quote_append_inj (x := []) (y := []) ?_).1
  rw [h]

/-- The name in an object literal identifies the name: what is in quotes has a hyphen, and a name
with a hyphen is put in quotes. -/
theorem propertyName_injective : Function.Injective propertyName := by
  intro a b h
  simp only [propertyName, List.contains_iff_mem] at h
  split at h
  next ha =>
    split at h
    next hb => exact quote_injective h
    next hb => exact absurd (h ▸ hyphen_mem_quote ha) hb
  next ha =>
    split at h
    next hb => exact absurd (h ▸ hyphen_mem_quote hb) ha
    next hb => exact h

/-- A name does not get an opening bracket. -/
theorem head?_propertyName {name : String} (h : name.toList.head? ≠ some '[') :
    (propertyName name).toList.head? ≠ some '[' := by
  intro hhead
  rw [propertyName] at hhead
  split at hhead
  next =>
    rw [Quoted.toList_quote] at hhead
    cases hhead
  next => exact h hhead

theorem propertyName_ne_reference {name : String} (h : name.toList.head? ≠ some '[')
    (symbolName : String) : propertyName name ≠ "[Symbol." ++ symbolName ++ "]" := by
  intro heq
  refine head?_propertyName h ?_
  rw [heq]
  simp

/-- **Two keys with one text** are the same, or symbols with spellings of the same name. -/
theorem eq_or_spellings_of_access {a b : PropertyKey} {found : String}
    (htext : ∀ name, a = .text name ∨ b = .text name → name.toList.head? ≠ some '[')
    (ha : a.access = .ok found) (hb : b.access = .ok found) :
    a = b ∨ ∃ name d d', a = .symbol d ∧ b = .symbol d' ∧ Spelling name d ∧ Spelling name d' := by
  cases a with
  | text n =>
    obtain rfl := Except.ok.inj ha
    cases b with
    | text m => exact Or.inl (congrArg text (propertyName_injective (Except.ok.inj hb)).symm)
    | symbol d =>
      obtain ⟨name, -, -, heq⟩ := access_symbol_eq_ok_iff.mp hb
      exact absurd heq (propertyName_ne_reference (htext n (Or.inl rfl)) name)
  | symbol d =>
    obtain ⟨name, -, hd, rfl⟩ := access_symbol_eq_ok_iff.mp ha
    cases b with
    | text m =>
      exact absurd (Except.ok.inj hb) (propertyName_ne_reference (htext m (Or.inr rfl)) name)
    | symbol d' =>
      obtain ⟨name', -, hd', heq⟩ := access_symbol_eq_ok_iff.mp hb
      have hname : name = name' := by
        simpa [String.append_assoc] using heq
      exact Or.inr ⟨name, d, d', rfl, rfl, hd, hname ▸ hd'⟩

end IdlBinding.PropertyKey
