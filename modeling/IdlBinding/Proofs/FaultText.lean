import IdlBinding.Json.Fault
import IdlBinding.Proofs.DecimalLiteral

/-!
# What reports leave of messages

A reader shows a message as it is, unless the message ends in a position. Then the position is cut
off and written anew, which is not always the same text: line zero is not shown at all, and numbers
lose their leading zeros.

* `EndsInPosition` — a text that ends in a position, as it may be written in a message;
* `splitPosition?_eq_some_iff` — this is what is cut off;
* `Report.text_ofMessage_of_ends`, `Report.text_ofMessage_of_not_ends` — the text of a report;
* `Report.text_ofMessage_eq_iff` — the messages that are shown as they are.
-/

namespace IdlBinding.Json

open Decimal (digitValues span_digits)

/-! ## Numbers at the end of a text -/

/-- The digits of a number of 64 bits. Zeros may stand in front. -/
structure IsNumeral (cs : List Char) (n : Nat) : Prop where
  /-- there are digits -/
  nonempty : cs ≠ []
  /-- and nothing else -/
  digits : ∀ c ∈ cs, c.isDigit = true
  /-- which denote the number -/
  value : Digits.toNat 10 (digitValues cs) = n
  /-- and it has 64 bits -/
  bound : n < Nat.pow 2 64

/-- A text is a run of digits and what follows it. -/
theorem exists_span (cs : List Char) : ∃ digits rest, cs = digits ++ rest ∧
    (∀ c ∈ digits, c.isDigit = true) ∧ (∀ c ∈ rest.head?, c.isDigit = false) ∧
      Digits.span 10 cs = (digitValues digits, rest) := by
  have hdigits : ∀ c ∈ cs.takeWhile Char.isDigit, c.isDigit = true := 
    List.all_eq_true.mp List.all_takeWhile
  have hrest : ∀ c ∈ (cs.dropWhile Char.isDigit).head?, c.isDigit = false := by
    intro c hc
    have hnot := List.head?_dropWhile_not Char.isDigit cs
    rw [hc] at hnot
    exact hnot
  refine ⟨_, _, List.takeWhile_append_dropWhile.symm, hdigits, hrest, ?_⟩
  rw [← span_digits hdigits _ hrest, List.takeWhile_append_dropWhile]

theorem reverse_digitValues (cs : List Char) :
    (digitValues cs).reverse = digitValues cs.reverse :=
  List.filterMap_reverse.symm

theorem readNumberBack_of_isNumeral {digits : List Char} {n : Nat} (h : IsNumeral digits n)
    {rest : List Char} (hrest : ∀ c ∈ rest.head?, c.isDigit = false) :
    readNumberBack (digits.reverse ++ rest) = some (n, rest) := by
  have hspan := span_digits (fun c hc => h.digits c (List.mem_reverse.mp hc)) rest hrest
  obtain ⟨d, ds, hds⟩ := List.exists_cons_of_ne_nil
    (mt (Decimal.digitValues_eq_nil_iff h.digits).mp h.nonempty)
  rw [readNumberBack, hspan, reverse_digitValues, List.reverse_reverse, hds]
  have hbound := h.bound
  rw [← h.value, hds] at hbound ⊢
  exact if_pos hbound

theorem exists_isNumeral {cs rest : List Char} {n : Nat}
    (h : readNumberBack cs = some (n, rest)) :
    ∃ digits, IsNumeral digits n ∧ cs = digits.reverse ++ rest := by
  obtain ⟨digits, rest', rfl, hdigits, -, hspan⟩ := exists_span cs
  rw [readNumberBack, hspan, reverse_digitValues] at h
  refine ⟨digits.reverse, ?_⟩
  split at h
  next => cases h
  next hne =>
    split at h
    next hbound =>
      cases h
      refine ⟨⟨?_, fun c hc => hdigits c (List.mem_reverse.mp hc), rfl, hbound⟩, ?_⟩
      · intro hnil
        rw [hnil] at hne
        exact hne rfl
      · rw [List.reverse_reverse]
    next => cases h

/-! ## Positions -/

theorem dropWord?_eq_some_iff {word cs rest : List Char} :
    dropWord? word cs = some rest ↔ cs = word ++ rest := by
  induction word generalizing cs with
  | nil => exact Option.some_inj
  | cons w word ih =>
    cases cs with
    | nil => simp [dropWord?]
    | cons c cs =>
      rw [dropWord?]
      split
      next heq => rw [ih, heq, List.cons_append, List.cons.injEq, and_iff_right rfl]
      next hne => simp [Ne.symm hne]

/-- **What is cut off is a position at the end of the text.** -/
theorem splitPosition?_eq_some_iff {cs front : List Char} {line column : Nat} :
    splitPosition? cs = some (front, line, column) ↔
      ∃ ds es, IsNumeral ds line ∧ IsNumeral es column ∧
        cs = front ++ " at line ".toList ++ ds ++ " column ".toList ++ es := by
  constructor
  · intro h
    simp only [splitPosition?, Option.bind_eq_bind, Option.bind_eq_some_iff] at h
    obtain ⟨⟨column', cs₁⟩, hcolumn, cs₂, hword, ⟨line', cs₃⟩, hline, cs₄, hword', hresult⟩ := h
    cases hresult
    obtain ⟨es, hes, hcs⟩ := exists_isNumeral hcolumn
    obtain ⟨ds, hds, rfl⟩ := exists_isNumeral hline
    obtain rfl := dropWord?_eq_some_iff.mp hword
    obtain rfl := dropWord?_eq_some_iff.mp hword'
    refine ⟨ds, es, hds, hes, ?_⟩
    rw [← List.reverse_reverse cs, hcs]
    simp only [List.reverse_append, List.reverse_reverse, List.append_assoc]
  · rintro ⟨ds, es, hds, hes, rfl⟩
    -- Both numbers are read to their first digit, because a blank stands before it.
    have hline : readNumberBack (ds.reverse ++ (" at line ".toList.reverse ++ front.reverse)) =
        some (line, " at line ".toList.reverse ++ front.reverse) :=
      readNumberBack_of_isNumeral hds (by simp)
    have hcolumn (rest : List Char) :
        readNumberBack (es.reverse ++ (" column ".toList.reverse ++ rest)) =
          some (column, " column ".toList.reverse ++ rest) :=
      readNumberBack_of_isNumeral hes (by simp)
    simp only [splitPosition?, List.reverse_append, List.append_assoc, Option.bind_eq_bind, hcolumn,
      Option.bind_some, dropWord?_eq_some_iff.mpr rfl, hline, List.reverse_reverse]

/-! ## Reports -/

/-- The text ends in the position, and this is what stands before it. -/
def EndsInPosition (text front : String) (line column : Nat) : Prop :=
  ∃ ds es, IsNumeral ds line ∧ IsNumeral es column ∧
    text = front ++ " at line " ++ String.ofList ds ++ " column " ++ String.ofList es

theorem splitPosition?_toList {text : String} {front : List Char} {line column : Nat} :
    splitPosition? text.toList = some (front, line, column) ↔
      EndsInPosition text (String.ofList front) line column := by
  simp only [splitPosition?_eq_some_iff, EndsInPosition, ← String.toList_inj, String.toList_append,
    String.toList_ofList]

namespace EndsInPosition

variable {text front : String} {line column : Nat}

theorem ne (h : EndsInPosition text front line column) : front ≠ text := by
  obtain ⟨ds, es, -, -, rfl⟩ := h
  intro heq
  have hlength := congrArg String.length heq
  have hword : " at line ".length = 9 := rfl
  simp only [String.length_append] at hlength
  omega

/-- The last character of a position is a digit. -/
theorem isDigit_of_last (h : EndsInPosition text front line column) {c : Char}
    (hlast : text.toList.getLast? = some c) : c.isDigit = true := by
  obtain ⟨ds, es, -, hes, rfl⟩ := h
  rw [String.toList_append, String.toList_ofList, List.getLast?_append_of_ne_nil _ hes.nonempty]
    at hlast
  exact hes.digits c (List.mem_of_getLast? hlast)

end EndsInPosition

namespace Report

variable {message : String}

theorem text_ofMessage_of_ends {front : String} {line column : Nat}
    (h : EndsInPosition message front line column) :
    (ofMessage message).text = if line = 0 then front else front ++ positionText line column := by
  have hsplit : splitPosition? message.toList = some (front.toList, line, column) := by
    rw [splitPosition?_toList, String.ofList_toList]
    exact h
  simp only [ofMessage, hsplit, String.ofList_toList, text]

theorem text_ofMessage_of_not_ends
    (h : ∀ front line column, ¬ EndsInPosition message front line column) :
    (ofMessage message).text = message := by
  have hnone : splitPosition? message.toList = none := by
    rw [Option.eq_none_iff_forall_ne_some]
    rintro ⟨front, line, column⟩ hsome
    exact h _ line column (splitPosition?_toList.mp hsome)
  rw [ofMessage, hnone]
  rfl

/-- **A message is shown as it is** unless it ends in a position with line zero or one that is
written in another way. -/
theorem text_ofMessage_eq_iff : (ofMessage message).text = message ↔
    ∀ front line column, EndsInPosition message front line column →
      line ≠ 0 ∧ message = front ++ positionText line column := by
  constructor
  · intro h front line column hends
    rw [text_ofMessage_of_ends hends] at h
    split at h
    next => exact absurd h hends.ne
    next hline => exact ⟨hline, h.symm⟩
  · intro h
    by_cases hends : ∃ front line column, EndsInPosition message front line column
    · obtain ⟨front, line, column, hends⟩ := hends
      obtain ⟨hline, hmessage⟩ := h front line column hends
      rw [text_ofMessage_of_ends hends, if_neg hline, ← hmessage]
    · refine text_ofMessage_of_not_ends fun front line column hposition => ?_
      exact hends ⟨front, line, column, hposition⟩

end Report

end IdlBinding.Json
