/-!
# The lines of a text

The lines of a text are what stands between its newlines. A text that ends with a newline has an
empty last line, so that texts and their lines determine each other, and a newline between two
texts makes their lines one list (`textLines_append`).
-/

namespace IdlBinding

/-- The lines of a text. -/
def textLines (text : String) : List String := (text.toList.splitOn '\n').map String.ofList

/-- **A newline ends a line**, whatever stands before and after it. -/
theorem textLines_append (a b : String) :
    textLines (a ++ "\n" ++ b) = textLines a ++ textLines b := by
  have hnewline : "\n".toList = ['\n'] := rfl
  rw [textLines, String.toList_append, String.toList_append, hnewline, List.append_assoc,
    List.singleton_append, List.splitOn_append_cons_self, List.map_append]
  rfl

/-- A text without newlines is one line. -/
theorem textLines_of_notMem {text : String} (h : '\n' ∉ text.toList) : textLines text = [text] := by
  rw [textLines, List.splitOn_eq_singleton h, List.map_singleton, String.ofList_toList]

/-- A text has one line more than newlines. -/
theorem length_textLines (text : String) :
    (textLines text).length = text.toList.count '\n' + 1 := by
  rw [textLines, List.length_map]
  induction text.toList with
  | nil => rfl
  | cons c cs ih =>
    rw [List.splitOn_cons_eq_if_modifyHead, List.count_cons]
    by_cases hc : c = '\n'
    · simp [hc, ih]
    · simp [hc, ih]

/-- Texts that are ended with newlines one after another have their lines one after another. -/
theorem textLines_join (texts : List String) :
    textLines (String.join (texts.map (· ++ "\n"))) = texts.flatMap textLines ++ [""] := by
  induction texts with
  | nil => rfl
  | cons text texts ih =>
    rw [List.map_cons, String.join_cons, textLines_append, ih, List.flatMap_cons,
      List.append_assoc]

end IdlBinding
