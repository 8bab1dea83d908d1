import Mathlib.Data.List.Nodup
import IdlBinding.Identifier

/-!
# Parameter lists

A parameter list is read by cutting it at every comma with a blank behind it (`readParameters`).
What is read is one parameter for each name that is not empty, in the order of the names, as long
as no name has a comma (`readParameters_parameters`), and no parameter is empty or reserved.

Reserved words are renamed one by one, so two names can come to be one: a reserved word, and the
same word with an underscore behind it. There is no other way (`eq_or_of_bindable_eq`), since no
reserved word ends with an underscore. So the parameters of distinct names are distinct exactly if
the names do not have such a pair (`parameters_read_back`).
-/

namespace IdlBinding.Identifier

/-! ## Reading a list -/

/-- The parts of a text between the places where a comma and a blank stand. -/
def pieces : List Char → List (List Char)
  | [] => [[]]
  | ',' :: ' ' :: cs => [] :: pieces cs
  | c :: cs => (pieces cs).modifyHead (c :: ·)

/-- The parameters of a list without its parentheses. There are none in an empty text. -/
def readParameters (text : String) : List String :=
  if text = "" then [] else (pieces text.toList).map String.ofList

theorem pieces_cons {c : Char} (h : c ≠ ',') (cs : List Char) :
    pieces (c :: cs) = (pieces cs).modifyHead (c :: ·) :=
  pieces.eq_3 c cs fun _ hc _ => h hc

/-- A part ends at the first comma that has a blank behind it. -/
theorem pieces_append {part : List Char} (h : ',' ∉ part) (rest : List Char) :
    pieces (part ++ ',' :: ' ' :: rest) = part :: pieces rest := by
  induction part with
  | nil => rw [List.nil_append, pieces]
  | cons c part ih =>
    obtain ⟨hc, hpart⟩ := List.ne_and_not_mem_of_not_mem_cons h
    rw [List.cons_append, pieces_cons hc.symm, ih hpart, List.modifyHead_cons]

theorem pieces_of_notMem {part : List Char} (h : ',' ∉ part) : pieces part = [part] := by
  induction part with
  | nil => rw [pieces]
  | cons c part ih =>
    obtain ⟨hc, hpart⟩ := List.ne_and_not_mem_of_not_mem_cons h
    rw [pieces_cons hc.symm, ih hpart, List.modifyHead_cons]

theorem pieces_intercalate {parts : List (List Char)} (hne : parts ≠ [])
    (h : ∀ part ∈ parts, ',' ∉ part) : pieces ([',', ' '].intercalate parts) = parts := by
  induction parts with
  | nil => exact absurd rfl hne
  | cons part rest ih =>
    obtain ⟨hpart, hrest⟩ := List.forall_mem_cons.mp h
    cases rest with
    | nil => rw [List.intercalate_singleton, pieces_of_notMem hpart]
    | cons next rest =>
      rw [List.intercalate_cons_cons, List.append_assoc, List.cons_append, List.cons_append,
        List.nil_append, pieces_append hpart, ih (List.cons_ne_nil _ _) hrest]

/-- Parameters are read back from the list that is made of them. -/
theorem readParameters_intercalate {parameters : List String} (hempty : "" ∉ parameters)
    (hcomma : ∀ parameter ∈ parameters, ',' ∉ parameter.toList) :
    readParameters (", ".intercalate parameters) = parameters := by
  cases parameters with
  | nil => rfl
  | cons first rest =>
    have hparts : ∀ part ∈ (first :: rest).map String.toList, ',' ∉ part := by
      intro part hpart
      obtain ⟨parameter, hparameter, rfl⟩ := List.mem_map.mp hpart
      exact hcomma parameter hparameter
    have hpieces : pieces (", ".intercalate (first :: rest)).toList =
        (first :: rest).map String.toList := by
      rw [String.toList_intercalate]
      exact pieces_intercalate (List.cons_ne_nil _ _) hparts
    have hne : ", ".intercalate (first :: rest) ≠ "" := by
      intro hnil
      rw [hnil] at hpieces
      -- The empty text has one part, which is empty; so the first parameter would be.
      have hfirst : first = "" := String.toList_injective (List.cons.inj hpieces).1.symm
      exact hempty (hfirst ▸ List.mem_cons_self)
    rw [readParameters, if_neg hne, hpieces, List.map_map]
    exact (List.map_congr_left fun parameter _ => String.ofList_toList).trans (List.map_id' _)

/-! ## Renaming -/

theorem getLast?_of_isReserved {name : String} (h : isReserved name = true) :
    name.toList.getLast? ≠ some '_' := by
  have hwords : reservedWords.all fun word => word.toList.getLast? != some '_' := by decide
  have hname := List.all_eq_true.mp hwords name (List.contains_iff_mem.mp h)
  exact bne_iff_ne.mp hname

/-- No reserved word ends with an underscore. -/
theorem isReserved_append_underscore (name : String) : isReserved (name ++ "_") = false := by
  apply Bool.eq_false_iff.mpr
  intro h
  apply getLast?_of_isReserved h
  rw [String.toList_append]
  exact List.getLast?_concat

theorem ne_empty_of_isReserved {name : String} (h : isReserved name = true) : name ≠ "" := by
  rintro rfl
  exact absurd h (by decide)

theorem append_underscore_ne_empty (name : String) : name ++ "_" ≠ "" := by
  intro h
  simpa using congrArg String.toList h

/-- A name that can be bound stays, and a reserved one gets an underscore. -/
theorem bindable_cases (name : String) :
    (isReserved name = false ∧ bindable name = name) ∨
      (isReserved name = true ∧ bindable name = name ++ "_") := by
  rcases h : isReserved name with _ | _
  · exact .inl ⟨rfl, by rw [bindable, h, if_neg Bool.false_ne_true]⟩
  · exact .inr ⟨rfl, by rw [bindable, h, if_pos rfl]⟩

/-- What a name is bound as can be bound. -/
theorem isReserved_bindable (name : String) : isReserved (bindable name) = false := by
  obtain ⟨hfree, hname⟩ | ⟨-, hname⟩ := bindable_cases name
  · rw [hname, hfree]
  · rw [hname, isReserved_append_underscore]

theorem bindable_ne_empty {name : String} (h : name ≠ "") : bindable name ≠ "" := by
  obtain ⟨-, hname⟩ | ⟨-, hname⟩ := bindable_cases name
  · rwa [hname]
  · rw [hname]
    exact append_underscore_ne_empty name

theorem comma_notMem_bindable {name : String} (h : ',' ∉ name.toList) :
    ',' ∉ (bindable name).toList := by
  obtain ⟨-, hname⟩ | ⟨-, hname⟩ := bindable_cases name
  · rwa [hname]
  · rw [hname, String.toList_append]
    intro hmem
    obtain hmem | hmem := List.mem_append.mp hmem
    · exact h hmem
    · exact absurd hmem (by decide)

/-- A reserved word takes the place of the same word with an underscore behind it. -/
theorem bindable_append_underscore {word : String} (h : isReserved word = true) :
    bindable (word ++ "_") = bindable word := by
  rw [bindable, isReserved_append_underscore, bindable, h, if_pos rfl, if_neg Bool.false_ne_true]

/-- **Two names are bound as one** only if they are equal, or one of them is a reserved word and the
other the same word with an underscore behind it. -/
theorem eq_or_of_bindable_eq {a b : String} (h : bindable a = bindable b) :
    a = b ∨ (isReserved a = true ∧ a ++ "_" = b) ∨ (isReserved b = true ∧ b ++ "_" = a) := by
  obtain ⟨-, hbind⟩ | ⟨ha, hbind⟩ := bindable_cases a
  · obtain ⟨-, hbind'⟩ | ⟨hb, hbind'⟩ := bindable_cases b
    · exact .inl (hbind.symm.trans (h.trans hbind'))
    · exact .inr (.inr ⟨hb, hbind'.symm.trans (h.symm.trans hbind)⟩)
  · obtain ⟨-, hbind'⟩ | ⟨-, hbind'⟩ := bindable_cases b
    · exact .inr (.inl ⟨ha, hbind.symm.trans (h.trans hbind')⟩)
    · rw [hbind, hbind'] at h
      exact .inl ((String.append_left_inj "_").mp h)

/-! ## Parameters and names -/

/-- The names that are given a parameter. -/
theorem mem_filter_ne_empty {names : List String} {name : String} :
    name ∈ names.filter (· ≠ "") ↔ name ∈ names ∧ name ≠ "" := by
  simp

/-- **One parameter is read for each name** that is not empty, in the order of the names. -/
theorem readParameters_parameters {names : List String}
    (h : ∀ name ∈ names, ',' ∉ name.toList) :
    readParameters (parameters names) = (names.filter (· ≠ "")).map bindable := by
  apply readParameters_intercalate
  · intro hempty
    obtain ⟨name, hname, heq⟩ := List.mem_map.mp hempty
    exact bindable_ne_empty (mem_filter_ne_empty.mp hname).2 heq
  · intro parameter hparameter
    obtain ⟨name, hname, rfl⟩ := List.mem_map.mp hparameter
    exact comma_notMem_bindable (h name (mem_filter_ne_empty.mp hname).1)

/-- Distinct names have distinct parameters unless a reserved word takes the place of another
name. -/
theorem nodup_map_bindable_iff {names : List String} (h : names.Nodup) :
    ((names.filter (· ≠ "")).map bindable).Nodup ↔
      ∀ word ∈ names, isReserved word = true → word ++ "_" ∉ names := by
  rw [List.nodup_map_iff_inj_on (h.filter _)]
  constructor
  · intro hinj word hword hreserved hother
    have heq := hinj (word ++ "_")
      (mem_filter_ne_empty.mpr ⟨hother, append_underscore_ne_empty word⟩) word
      (mem_filter_ne_empty.mpr ⟨hword, ne_empty_of_isReserved hreserved⟩)
      (bindable_append_underscore hreserved)
    have hnot := isReserved_append_underscore word
    rw [heq, hreserved] at hnot
    cases hnot
  · intro hfree a ha b hb heq
    have ha := (mem_filter_ne_empty.mp ha).1
    have hb := (mem_filter_ne_empty.mp hb).1
    rcases eq_or_of_bindable_eq heq with hab | ⟨hreserved, rfl⟩ | ⟨hreserved, rfl⟩
    · exact hab
    · exact absurd hb (hfree a ha hreserved)
    · exact absurd ha (hfree b hb hreserved)

/-- **A parameter list is read back as its names.** Let the names be distinct and without commas.

* One parameter is read for each name that is not empty, in the order of the names: the name
  itself or, if it is reserved, the name with an underscore behind it.
* No parameter is empty or reserved.
* The parameters are distinct exactly if no reserved word is among the names together with the same
  word with an underscore behind it. -/
theorem parameters_read_back {names : List String} (hnodup : names.Nodup)
    (hcomma : ∀ name ∈ names, ',' ∉ name.toList) :
    readParameters (parameters names) = (names.filter (· ≠ "")).map bindable ∧
    (∀ parameter ∈ readParameters (parameters names),
      parameter ≠ "" ∧ isReserved parameter = false) ∧
    ((readParameters (parameters names)).Nodup ↔
      ∀ word ∈ names, isReserved word = true → word ++ "_" ∉ names) := by
  rw [readParameters_parameters hcomma]
  refine ⟨rfl, fun parameter hparameter => ?_, nodup_map_bindable_iff hnodup⟩
  obtain ⟨name, hname, rfl⟩ := List.mem_map.mp hparameter
  exact ⟨bindable_ne_empty (mem_filter_ne_empty.mp hname).2, isReserved_bindable name⟩

/-- A reserved word, an empty name and a name that only looks renamed. -/
theorem parameters_read_back_renamed :
    ["new", "", "news", "in_"].Nodup ∧
    (∀ name ∈ ["new", "", "news", "in_"], ',' ∉ name.toList) ∧
    parameters ["new", "", "news", "in_"] = "new_, news, in_" ∧
    readParameters (parameters ["new", "", "news", "in_"]) = ["new_", "news", "in_"] ∧
    (readParameters (parameters ["new", "", "news", "in_"])).Nodup := by
  have hnodup : ["new", "", "news", "in_"].Nodup := by decide
  have hcomma : ∀ name ∈ ["new", "", "news", "in_"], ',' ∉ name.toList := by decide
  have hread := parameters_read_back hnodup hcomma
  exact ⟨hnodup, hcomma, by decide, hread.1.trans (by decide), hread.2.2.mpr (by decide)⟩

/-- Two names that differ, and one parameter twice: the reserved word is bound under the name of
the other. -/
theorem parameters_capture :
    ["in", "in_"].Nodup ∧
    (∀ name ∈ ["in", "in_"], ',' ∉ name.toList ∧ ' ' ∉ name.toList) ∧
    parameters ["in", "in_"] = "in_, in_" ∧
    readParameters (parameters ["in", "in_"]) = ["in_", "in_"] ∧
    ¬ (readParameters (parameters ["in", "in_"])).Nodup := by
  decide

end IdlBinding.Identifier
