import Mathlib.Data.List.TakeWhile
import IdlBinding.Proofs.Entering

/-!
# Names derived from specifiers

A name that is derived from a specifier is in a normal form (`IsDerived`): it has no separators and
no blanks, and white space neither starts nor ends it. The normal forms are the names that
derivation leaves alone, so that deriving twice is deriving once.

* What surrounds a specifier has no part in its name as long as it is made of separators and white
  space (`identifier_append`): it spreads to white space, and a run of separators that goes on into
  the specifier makes no difference but for a leading blank (`trim_spread`). So a sibling module is
  imported under the name of the module itself;
* without white space the name is made of the segments between the separators
  (`identifier_eq_intercalate`). The induction is over the rest of the specifier, with the segment
  that is being read in front of it (`trimEnd_spread`).
-/

namespace IdlBinding

/-! ## Trimming -/

theorem head?_dropWhile_whiteSpace {cs : List Char} {c : Char}
    (h : c ∈ (cs.dropWhile isWhiteSpace).head?) : isWhiteSpace c = false := by
  have hhead := List.head?_dropWhile_not isWhiteSpace cs
  rw [Option.mem_def.mp h] at hhead
  exact hhead

theorem dropWhile_whiteSpace_eq_self {cs : List Char}
    (h : ∀ c ∈ cs.head?, isWhiteSpace c = false) : cs.dropWhile isWhiteSpace = cs := by
  cases cs with
  | nil => rfl
  | cons c cs =>
    rw [List.dropWhile_cons_of_neg]
    rw [h c rfl]
    exact Bool.false_ne_true

theorem trimEnd_append (cs ds : List Char) :
    trimEnd (cs ++ ds) = if trimEnd ds = [] then trimEnd cs else cs ++ trimEnd ds := by
  simp only [trimEnd, List.reverse_append, List.dropWhile_append, List.reverse_eq_nil_iff,
    List.isEmpty_iff]
  split
  · rfl
  · rw [List.reverse_append, List.reverse_reverse]

theorem trimEnd_eq_nil {cs : List Char} (h : ∀ c ∈ cs, isWhiteSpace c = true) :
    trimEnd cs = [] := by
  rw [trimEnd, List.reverse_eq_nil_iff, List.dropWhile_eq_nil_iff]
  exact fun c hc => h c (List.mem_reverse.mp hc)

theorem trimEnd_eq_self {cs : List Char} (h : ∀ c ∈ cs.getLast?, isWhiteSpace c = false) :
    trimEnd cs = cs := by
  rw [trimEnd, dropWhile_whiteSpace_eq_self, List.reverse_reverse]
  rwa [List.head?_reverse]

theorem trimEnd_eq_self_of_forall {cs : List Char} (h : ∀ c ∈ cs, isWhiteSpace c = false) :
    trimEnd cs = cs :=
  trimEnd_eq_self fun c hc => h c (List.mem_of_getLast? hc)

theorem trimEnd_isPrefix (cs : List Char) : trimEnd cs <+: cs := by
  have h := List.dropWhile_suffix (l := cs.reverse) isWhiteSpace
  rwa [← List.reverse_prefix, List.reverse_reverse] at h

theorem mem_of_mem_trim {cs : List Char} {c : Char} (h : c ∈ trim cs) : c ∈ cs :=
  (List.dropWhile_suffix _).subset ((trimEnd_isPrefix _).subset h)

/-- White space before a text is trimmed with the text's own. -/
theorem trim_append_left {blanks : List Char} (h : ∀ c ∈ blanks, isWhiteSpace c = true)
    (cs : List Char) : trim (blanks ++ cs) = trim cs := by
  rw [trim, List.dropWhile_append_of_pos h, trim]

/-- White space behind a text is trimmed with the text's own. -/
theorem trim_append_right {blanks : List Char} (h : ∀ c ∈ blanks, isWhiteSpace c = true)
    (cs : List Char) : trim (cs ++ blanks) = trim cs := by
  rw [trim, List.dropWhile_append, trim]
  split
  · next hempty =>
    rw [List.isEmpty_iff.mp hempty, List.dropWhile_eq_nil_iff.mpr h]
  · rw [trimEnd_append, if_pos (trimEnd_eq_nil h)]

theorem head?_trim {cs : List Char} {c : Char} (h : c ∈ (trim cs).head?) :
    isWhiteSpace c = false := by
  obtain ⟨rest, hrest⟩ := trimEnd_isPrefix (cs.dropWhile isWhiteSpace)
  have hfirst : c ∈ (trimEnd (cs.dropWhile isWhiteSpace) ++ rest).head? :=
    List.mem_head?_append_of_mem_head? h
  rw [hrest] at hfirst
  exact head?_dropWhile_whiteSpace hfirst

theorem getLast?_trim {cs : List Char} {c : Char} (h : c ∈ (trim cs).getLast?) :
    isWhiteSpace c = false := by
  rw [trim, trimEnd, List.getLast?_reverse] at h
  exact head?_dropWhile_whiteSpace h

namespace Specifier

/-! ## Runs of separators -/

theorem not_isSeparator_iff {c : Char} :
    isSeparator c = false ↔ c ≠ '/' ∧ c ≠ '.' ∧ c ≠ '-' := by
  simp [isSeparator, and_assoc]

/-- What is left of a text are blanks and its own characters, without the separators. -/
theorem mem_spread {inRun : Bool} {cs : List Char} {c : Char} (h : c ∈ spread inRun cs) :
    c = ' ' ∨ (c ∈ cs ∧ isSeparator c = false) := by
  fun_induction spread inRun cs with
  | case1 => cases h
  | case2 d cs hd ih => exact (ih h).imp_right (And.imp_left (List.mem_cons_of_mem d))
  | case3 inRun d cs hd hrun ih =>
    obtain rfl | h := List.mem_cons.mp h
    · exact .inl rfl
    · exact (ih h).imp_right (And.imp_left (List.mem_cons_of_mem d))
  | case4 inRun d cs hd ih =>
    obtain rfl | h := List.mem_cons.mp h
    · exact .inr ⟨List.mem_cons_self, Bool.eq_false_iff.mpr hd⟩
    · exact (ih h).imp_right (And.imp_left (List.mem_cons_of_mem d))

theorem isSeparator_of_mem_spread {inRun : Bool} {cs : List Char} {c : Char}
    (h : c ∈ spread inRun cs) : isSeparator c = false := by
  obtain rfl | ⟨-, hc⟩ := mem_spread h
  · rfl
  · exact hc

/-- Separators and white space spread to white space. -/
theorem isWhiteSpace_of_mem_spread {inRun : Bool} {cs : List Char}
    (hcs : ∀ c ∈ cs, isSeparator c = true ∨ isWhiteSpace c = true) {c : Char}
    (h : c ∈ spread inRun cs) : isWhiteSpace c = true := by
  obtain rfl | ⟨hmem, hc⟩ := mem_spread h
  · rfl
  · exact (hcs c hmem).resolve_left (Bool.eq_false_iff.mp hc)

/-- Without separators there is nothing to spread. -/
theorem spread_eq_self {cs : List Char} (h : ∀ c ∈ cs, isSeparator c = false) (inRun : Bool) :
    spread inRun cs = cs := by
  induction cs generalizing inRun with
  | nil => rfl
  | cons c cs ih =>
    obtain ⟨hc, hcs⟩ := List.forall_mem_cons.mp h
    rw [spread, hc, if_neg Bool.false_ne_true, ih hcs]

/-- A text is spread part by part; at the joint a run may go on. -/
theorem exists_spread_append (inRun : Bool) (cs ds : List Char) :
    ∃ inRun', spread inRun (cs ++ ds) = spread inRun cs ++ spread inRun' ds := by
  fun_induction spread inRun cs with
  | case1 inRun => exact ⟨inRun, rfl⟩
  | case2 c cs hc ih =>
    obtain ⟨inRun', h⟩ := ih
    exact ⟨inRun', by rw [List.cons_append, spread, if_pos hc, if_pos rfl, h]⟩
  | case3 inRun c cs hc hrun ih =>
    obtain ⟨inRun', h⟩ := ih
    exact ⟨inRun', by rw [List.cons_append, spread, if_pos hc, if_neg hrun, h, List.cons_append]⟩
  | case4 inRun c cs hc ih =>
    obtain ⟨inRun', h⟩ := ih
    exact ⟨inRun', by rw [List.cons_append, spread, if_neg hc, h, List.cons_append]⟩

/-- A run that goes on into a text takes away no more than a leading blank. -/
theorem trim_spread (inRun : Bool) (cs : List Char) :
    trim (spread inRun cs) = trim (spread false cs) := by
  cases inRun with
  | false => rfl
  | true =>
    cases cs with
    | nil => rfl
    | cons c cs =>
      by_cases hc : isSeparator c = true
      · rw [spread, spread, if_pos hc, if_pos hc, if_pos rfl, if_neg Bool.false_ne_true]
        have hblank : ∀ c ∈ [' '], isWhiteSpace c = true := by
          intro c hc
          rw [List.mem_singleton.mp hc]
          rfl
        exact (trim_append_left hblank _).symm
      · rw [spread, spread, if_neg hc, if_neg hc]

/-! ## The normal form -/

/-- The form of derived names: there are no separators and no blanks, and white space neither starts
nor ends the name. -/
structure IsDerived (name : String) : Prop where
  /-- separators and blanks do not occur -/
  plain : ∀ c ∈ name.toList, c ≠ '/' ∧ c ≠ '.' ∧ c ≠ '-' ∧ c ≠ ' '
  /-- the first character is not white space -/
  starts : ∀ c ∈ name.toList.head?, isWhiteSpace c = false
  /-- the last character is not white space -/
  ends : ∀ c ∈ name.toList.getLast?, isWhiteSpace c = false

theorem underscore_of_ne {c : Char} (h : c ≠ ' ') : underscore c = c := if_neg h

theorem map_underscore_eq_self {cs : List Char} (h : ∀ c ∈ cs, c ≠ ' ') :
    cs.map underscore = cs :=
  (List.map_congr_left fun c hc => underscore_of_ne (h c hc)).trans (List.map_id' cs)

theorem underscore_ne (c : Char) : underscore c ≠ ' ' := by
  by_cases h : c = ' '
  · rw [h]
    decide
  · rwa [underscore_of_ne h]

theorem isSeparator_underscore {c : Char} (h : isSeparator c = false) :
    isSeparator (underscore c) = false := by
  by_cases hc : c = ' '
  · rw [hc]
    rfl
  · rwa [underscore_of_ne hc]

theorem isWhiteSpace_underscore {c : Char} (h : isWhiteSpace c = false) :
    isWhiteSpace (underscore c) = false := by
  rw [underscore_of_ne]
  · exact h
  · rintro rfl
    cases h

theorem toList_identifier (s : String) :
    (identifier s).toList = (trim (spread false s.toList)).map underscore := by
  rw [identifier, String.toList_ofList]

theorem isDerived_identifier (s : String) : IsDerived (identifier s) where
  plain c hc := by
    rw [toList_identifier] at hc
    obtain ⟨d, hd, rfl⟩ := List.mem_map.mp hc
    have hsep := isSeparator_underscore (isSeparator_of_mem_spread (mem_of_mem_trim hd))
    obtain ⟨hslash, hdot, hdash⟩ := not_isSeparator_iff.mp hsep
    exact ⟨hslash, hdot, hdash, underscore_ne d⟩
  starts c hc := by
    rw [toList_identifier, List.head?_map] at hc
    obtain ⟨d, hd, rfl⟩ := Option.map_eq_some_iff.mp hc
    exact isWhiteSpace_underscore (head?_trim hd)
  ends c hc := by
    rw [toList_identifier, List.getLast?_map] at hc
    obtain ⟨d, hd, rfl⟩ := Option.map_eq_some_iff.mp hc
    exact isWhiteSpace_underscore (getLast?_trim hd)

theorem IsDerived.identifier_eq {name : String} (h : IsDerived name) : identifier name = name := by
  apply String.toList_injective
  have hsep : ∀ c ∈ name.toList, isSeparator c = false := fun c hc =>
    not_isSeparator_iff.mpr ⟨(h.plain c hc).1, (h.plain c hc).2.1, (h.plain c hc).2.2.1⟩
  rw [toList_identifier, spread_eq_self hsep, trim, dropWhile_whiteSpace_eq_self h.starts,
    trimEnd_eq_self h.ends]
  exact map_underscore_eq_self fun c hc => (h.plain c hc).2.2.2

/-- The normal forms are the names that derivation leaves alone. -/
theorem identifier_eq_self_iff {name : String} : identifier name = name ↔ IsDerived name :=
  ⟨fun h => h ▸ isDerived_identifier name, IsDerived.identifier_eq⟩

/-- **What surrounds a specifier has no part in its name.** -/
theorem identifier_append {front back : String}
    (hfront : ∀ c ∈ front.toList, isSeparator c = true ∨ isWhiteSpace c = true)
    (hback : ∀ c ∈ back.toList, isSeparator c = true ∨ isWhiteSpace c = true) (s : String) :
    identifier (front ++ s ++ back) = identifier s := by
  rw [identifier, identifier, String.toList_append, String.toList_append, List.append_assoc]
  obtain ⟨atFront, h₁⟩ := exists_spread_append false front.toList (s.toList ++ back.toList)
  obtain ⟨atBack, h₂⟩ := exists_spread_append atFront s.toList back.toList
  rw [h₁, trim_append_left fun c hc => isWhiteSpace_of_mem_spread hfront hc, h₂,
    trim_append_right fun c hc => isWhiteSpace_of_mem_spread hback hc, trim_spread]

/-! ## Segments -/

/-- The parts of a text between separators, without the empty ones. -/
def words (cs : List Char) : List (List Char) := (cs.splitOnP isSeparator).filter (· ≠ [])

/-- The segments of a specifier: what stands between separators and is not empty. -/
def segments (s : String) : List String := (words s.toList).map String.ofList

theorem words_of_plain {cs : List Char} (h : ∀ c ∈ cs, isSeparator c = false) :
    words cs = [cs].filter (· ≠ []) := by
  rw [words, List.splitOnP_eq_singleton h]

theorem words_append_cons {cs : List Char} (h : ∀ c ∈ cs, isSeparator c = false) {c : Char}
    (hc : isSeparator c = true) (rest : List Char) :
    words (cs ++ c :: rest) = [cs].filter (· ≠ []) ++ words rest := by
  rw [words, List.splitOnP_append_cons_of_forall_mem h c hc, words, ← List.filter_append]
  rfl

theorem ne_nil_of_mem_words {cs word : List Char} (h : word ∈ words cs) : word ≠ [] :=
  of_decide_eq_true (List.mem_filter.mp h).2

theorem eq_nil_of_intercalate_words {cs : List Char} (h : [' '].intercalate (words cs) = []) :
    words cs = [] := by
  rcases hwords : words cs with _ | ⟨word, rest⟩
  · rfl
  · have hword : word ≠ [] := ne_nil_of_mem_words (hwords ▸ List.mem_cons_self)
    rw [hwords] at h
    cases rest with
    | nil => exact absurd (List.intercalate_singleton.symm.trans h) hword
    | cons next rest =>
      rw [List.intercalate_cons_cons, List.append_assoc] at h
      exact absurd (List.append_eq_nil_iff.mp h).1 hword

theorem intercalate_cons_words (word cs : List Char) :
    [' '].intercalate (word :: words cs) =
      if [' '].intercalate (words cs) = [] then word
      else word ++ ' ' :: [' '].intercalate (words cs) := by
  by_cases h : words cs = []
  · rw [h, List.intercalate_nil, if_pos rfl, List.intercalate_singleton]
  · rw [if_neg (mt eq_nil_of_intercalate_words h), List.intercalate_cons_of_ne_nil h,
      List.append_assoc, List.singleton_append]

/-- Behind a word, a blank stays as long as there is something to come. -/
theorem trimEnd_word_blank {word : List Char} (h : ∀ c ∈ word, isWhiteSpace c = false)
    (cs : List Char) :
    trimEnd (word ++ ' ' :: cs) = if trimEnd cs = [] then word else word ++ ' ' :: trimEnd cs := by
  have hblank : trimEnd (' ' :: cs) = if trimEnd cs = [] then [] else ' ' :: trimEnd cs :=
    trimEnd_append [' '] cs
  rw [trimEnd_append, hblank, trimEnd_eq_self_of_forall h]
  split
  · rfl
  · rw [if_neg (List.cons_ne_nil _ _)]

/-- Without white space, the words of a text are what is left of it with one blank between two of
them. `word` is the part of a word that has been read: while it is empty, a run of separators
goes on. -/
theorem trimEnd_spread {word : List Char} (hword : ∀ c ∈ word, isSeparator c = false)
    {cs : List Char} (hblank : ∀ c ∈ word ++ cs, isWhiteSpace c = false) :
    trimEnd (word ++ spread word.isEmpty cs) = [' '].intercalate (words (word ++ cs)) := by
  induction cs generalizing word with
  | nil =>
    rw [List.append_nil] at hblank ⊢
    rw [spread, List.append_nil, words_of_plain hword, trimEnd_eq_self_of_forall hblank]
    cases word with
    | nil => rfl
    | cons c word => exact (List.intercalate_singleton).symm
  | cons c cs ih =>
    by_cases hc : isSeparator c = true
    · have hcs : ∀ d ∈ cs, isWhiteSpace d = false := fun d hd =>
        hblank d (List.mem_append_right _ (List.mem_cons_of_mem _ hd))
      -- The word ends here, and the run that starts is followed by the words of the rest.
      have hrest : trimEnd (spread true cs) = [' '].intercalate (words cs) :=
        @ih [] (fun d hd => absurd hd List.not_mem_nil) hcs
      rw [words_append_cons hword hc, spread, if_pos hc]
      cases word with
      | nil => exact hrest
      | cons d word =>
        have hd : ∀ e ∈ d :: word, isWhiteSpace e = false := fun e he =>
          hblank e (List.mem_append_left _ he)
        rw [List.isEmpty_cons, if_neg Bool.false_ne_true, trimEnd_word_blank hd, hrest]
        exact (intercalate_cons_words (d :: word) cs).symm
    · have hnext : ∀ d ∈ word ++ [c], isSeparator d = false := by
        intro d hd
        rcases List.mem_append.mp hd with hd | hd
        · exact hword d hd
        · rw [List.mem_singleton.mp hd]
          exact Bool.eq_false_iff.mpr hc
      have hstep := ih hnext (by rwa [List.append_assoc, List.singleton_append])
      have hread : (word ++ [c]).isEmpty = false := by simp
      rw [hread, List.append_assoc, List.append_assoc] at hstep
      rw [spread, if_neg hc]
      exact hstep

/-- While a run goes on, the first character that is left is one of the text. -/
theorem head?_spread_run {cs : List Char} (h : ∀ c ∈ cs, isWhiteSpace c = false) :
    ∀ c ∈ (spread true cs).head?, isWhiteSpace c = false := by
  induction cs with
  | nil =>
    intro c hc
    cases hc
  | cons d cs ih =>
    obtain ⟨hd, hcs⟩ := List.forall_mem_cons.mp h
    by_cases hsep : isSeparator d = true
    · rw [spread, if_pos hsep, if_pos rfl]
      exact ih hcs
    · rw [spread, if_neg hsep]
      rintro c ⟨⟩
      exact hd

theorem mem_of_mem_splitOnP {cs word : List Char} (hword : word ∈ cs.splitOnP isSeparator)
    {c : Char} (hc : c ∈ word) : c ∈ cs := by
  induction cs generalizing word with
  | nil =>
    rw [List.splitOnP_nil, List.mem_singleton] at hword
    exact hword ▸ hc
  | cons d cs ih =>
    rw [List.splitOnP_cons_eq_if_modifyHead] at hword
    split at hword
    · rcases List.mem_cons.mp hword with rfl | hword
      · cases hc
      · exact List.mem_cons_of_mem _ (ih hword hc)
    · rcases hsplit : cs.splitOnP isSeparator with _ | ⟨first, rest⟩
      · exact absurd hsplit (List.splitOnP_ne_nil _ _)
      · rw [hsplit, List.modifyHead_cons] at hword
        rw [hsplit] at ih
        rcases List.mem_cons.mp hword with rfl | hword
        · rcases List.mem_cons.mp hc with rfl | hc
          · exact List.mem_cons_self
          · exact List.mem_cons_of_mem _ (ih List.mem_cons_self hc)
        · exact List.mem_cons_of_mem _ (ih (List.mem_cons_of_mem _ hword) hc)

theorem map_underscore_intercalate {parts : List (List Char)}
    (h : ∀ part ∈ parts, ∀ c ∈ part, c ≠ ' ') :
    ([' '].intercalate parts).map underscore = ['_'].intercalate parts := by
  induction parts with
  | nil => rfl
  | cons part rest ih =>
    obtain ⟨hpart, hrest⟩ := List.forall_mem_cons.mp h
    cases rest with
    | nil =>
      rw [List.intercalate_singleton, List.intercalate_singleton, map_underscore_eq_self hpart]
    | cons next rest =>
      rw [List.intercalate_cons_cons, List.intercalate_cons_cons, List.map_append,
        List.map_append, map_underscore_eq_self hpart, ih hrest]
      rfl

/-- **Without white space, a name is made of the segments of its specifier.** -/
theorem identifier_eq_intercalate {s : String} (h : ∀ c ∈ s.toList, isWhiteSpace c = false) :
    identifier s = "_".intercalate (segments s) := by
  have hwords : trim (spread false s.toList) = [' '].intercalate (words s.toList) := by
    rw [← trim_spread true, trim, dropWhile_whiteSpace_eq_self (head?_spread_run h)]
    exact @trimEnd_spread [] (fun c hc => absurd hc List.not_mem_nil) _ h
  have hblank : ∀ word ∈ words s.toList, ∀ c ∈ word, c ≠ ' ' := by
    rintro word hword c hc rfl
    cases h ' ' (mem_of_mem_splitOnP (List.mem_filter.mp hword).1 hc)
  apply String.toList_injective
  rw [toList_identifier, hwords, map_underscore_intercalate hblank, String.toList_intercalate,
    segments, List.map_map]
  exact congrArg _ ((List.map_congr_left fun word _ => String.toList_ofList).trans
    (List.map_id' _)).symm

end Specifier

/-! ## Siblings -/

namespace Ledger

open Specifier

/-- A sibling module is imported under the name of the module itself. -/
theorem importRelative_eq (l : Ledger) (module : String) :
    l.importRelative module = l.importAs ("./" ++ module) (identifier module) := by
  have hfront : ∀ c ∈ "./".toList, isSeparator c = true ∨ isWhiteSpace c = true := by
    simp [isSeparator]
  have hback : ∀ c ∈ "".toList, isSeparator c = true ∨ isWhiteSpace c = true := by simp
  have hname := identifier_append hfront hback module
  rw [String.append_empty] at hname
  rw [importRelative, importModule, hname]

/-- Whether an import succeeds or not, its identifier is bound afterwards. -/
theorem importAs_binds (l : Ledger) (specifier identifier : String) :
    ((l.importAs specifier identifier).ledger.import? identifier).isSome = true := by
  rw [importAs_ledger, import?, Bindings.lookup_put_self, Option.isSome_or, Option.isSome_some,
    Bool.or_true]

theorem importAs_binds_only (l : Ledger) (specifier : String) {identifier name : String}
    (h : name ≠ identifier) :
    (l.importAs specifier identifier).ledger.import? name = l.import? name := by
  rw [importAs_ledger]
  exact Bindings.lookup_put_ne _ h

end Ledger

namespace Specifier

/-- **Derived names are normal forms.**

* The name of every specifier has no separators and no blanks, and white space neither starts nor
  ends it. Such names and no others are derived from themselves, so deriving twice is deriving once.
* Separators and white space around a specifier do not change its name.
* So a sibling module is always imported under the name of the module: that name is bound after the
  import, it is the result if there is no clash, and no other name is touched.
* The name of a specifier without white space is made of the segments between its separators that
  are not empty, with an underscore between two of them. -/
theorem identifier_normal_form :
    (∀ s, IsDerived (identifier s) ∧ (identifier s = s ↔ IsDerived s) ∧
      identifier (identifier s) = identifier s) ∧
    (∀ front s back : String,
      (∀ c ∈ front.toList, isSeparator c = true ∨ isWhiteSpace c = true) →
      (∀ c ∈ back.toList, isSeparator c = true ∨ isWhiteSpace c = true) →
        identifier (front ++ s ++ back) = identifier s) ∧
    (∀ (l : Ledger) (module : String),
      l.importRelative module = l.importAs ("./" ++ module) (identifier module) ∧
      ((l.importRelative module).ledger.import? (identifier module)).isSome = true ∧
      (∀ name, (l.importRelative module).result = .ok name → name = identifier module) ∧
      ∀ name, name ≠ identifier module →
        (l.importRelative module).ledger.import? name = l.import? name) ∧
    ∀ s : String, (∀ c ∈ s.toList, isWhiteSpace c = false) →
      identifier s = "_".intercalate (segments s) := by
  refine ⟨fun s => ?_, fun front s back hfront hback => identifier_append hfront hback s,
    fun l module => ?_, fun s => identifier_eq_intercalate⟩
  · exact ⟨isDerived_identifier s, identifier_eq_self_iff, (isDerived_identifier s).identifier_eq⟩
  · rw [l.importRelative_eq module]
    exact ⟨rfl, l.importAs_binds _ _, fun name h => (Ledger.importAs_ok_iff.mp h).1,
      fun name h => l.importAs_binds_only _ h⟩

/-- An ideographic space and a parent directory in front, and a run of separators behind. -/
theorem identifier_normal_form_helpers :
    (∀ c ∈ "\u3000../".toList, isSeparator c = true ∨ isWhiteSpace c = true) ∧
    (∀ c ∈ "./ ".toList, isSeparator c = true ∨ isWhiteSpace c = true) ∧
    (∀ c ∈ "helpers//strings".toList, isWhiteSpace c = false) ∧
    identifier ("\u3000../" ++ "helpers//strings" ++ "./ ") = identifier "helpers//strings" ∧
    identifier "helpers//strings" = "_".intercalate (segments "helpers//strings") ∧
    "_".intercalate (segments "helpers//strings") = "helpers_strings" := by
  have hfront : ∀ c ∈ "\u3000../".toList, isSeparator c = true ∨ isWhiteSpace c = true := by
    simp [isSeparator, isWhiteSpace, inRanges, whiteSpaceRanges]
  have hback : ∀ c ∈ "./ ".toList, isSeparator c = true ∨ isWhiteSpace c = true := by
    simp [isSeparator, isWhiteSpace, inRanges, whiteSpaceRanges]
  have hplain : ∀ c ∈ "helpers//strings".toList, isWhiteSpace c = false := by
    simp [isWhiteSpace, inRanges, whiteSpaceRanges]
  exact ⟨hfront, hback, hplain, identifier_normal_form.2.1 _ _ _ hfront hback,
    identifier_normal_form.2.2.2 _ hplain, by decide⟩

end Specifier

end IdlBinding
