import IdlBinding.Quoted

/-!
# Quoted text is read back

Writer and reader of literals split their cases differently: the writer asks which character it
has, the reader which character follows a backslash. `Written` brings the two together. It has one
rule for each way in which a character may stand in a literal, and

* the writer keeps to these rules (`written_encodeChar`);
* each rule makes one `Piece`, whatever follows it, and the piece is joined to the character again
  (`Written.exists_piece`).

So a literal is read back with the text after it left alone (`read_quote`). No literal is the
beginning of another, and a text is known by its literal.
-/

namespace IdlBinding.Quoted

/-! ## How characters stand in a literal -/

/-- The ways in which a character is written. -/
inductive Written (c : Char) : List Char → Prop
  /-- a backslash and a character that stands for it -/
  | short {e : Char} (stands : escaped? e = some c) : Written c ['\\', e]
  /-- a 16-bit unit, of which only the last two digits are not zero -/
  | control (low : c.toNat < 0x20) :
    Written c ['\\', 'u', '0', '0', hexDigit (c.toNat / 16), hexDigit (c.toNat % 16)]
  /-- the character itself -/
  | plain (quote : c ≠ '"') (backslash : c ≠ '\\') (high : 0x20 ≤ c.toNat) : Written c [c]

theorem written_encodeChar (c : Char) : Written c (encodeChar c) := by
  by_cases hshort : c ∈ ['"', '\\', '\x08', '\x0c', '\n', '\r', '\t']
  · simp only [List.mem_cons, List.not_mem_nil, or_false] at hshort
    rcases hshort with rfl | rfl | rfl | rfl | rfl | rfl | rfl
    · exact .short (e := '"') rfl
    · exact .short (e := '\\') rfl
    · exact .short (e := 'b') rfl
    · exact .short (e := 'f') rfl
    · exact .short (e := 'n') rfl
    · exact .short (e := 'r') rfl
    · exact .short (e := 't') rfl
  · simp only [List.mem_cons, List.not_mem_nil, or_false, not_or] at hshort
    obtain ⟨hquote, hbackslash, hbackspace, hfeed, hline, hreturn, htab⟩ := hshort
    simp only [encodeChar, if_neg hquote, if_neg hbackslash, if_neg hbackspace, if_neg hfeed,
      if_neg hline, if_neg hreturn, if_neg htab]
    by_cases hlow : c.toNat < 0x20
    · rw [if_pos hlow]
      exact .control hlow
    · rw [if_neg hlow]
      exact .plain hquote hbackslash (Nat.le_of_not_lt hlow)

/-! ## Reading one character -/

theorem hexUnit?_hexDigit : ∀ n < 0x20,
    hexUnit? '0' '0' (hexDigit (n / 16)) (hexDigit (n % 16)) = some n := by decide

theorem scan_escaped {e c : Char} (h : escaped? e = some c) (rest : List Char) :
    scan ('\\' :: e :: rest) = (scan rest).map fun found => (.char c :: found.1, found.2) := by
  have hne : e ≠ 'u' := by
    rintro rfl
    cases h
  rw [scan, h]
  · cases scan rest <;> rfl
  · exact fun _ _ _ _ _ hu _ => absurd hu hne

theorem scan_unit {a b c d : Char} {u : Nat} (h : hexUnit? a b c d = some u) (rest : List Char) :
    scan ('\\' :: 'u' :: a :: b :: c :: d :: rest) =
      (scan rest).map fun found => (.unit u :: found.1, found.2) := by
  rw [scan, h]
  cases scan rest <;> rfl

theorem scan_plain {c : Char} (hquote : c ≠ '"') (hbackslash : c ≠ '\\') (hhigh : 0x20 ≤ c.toNat)
    (rest : List Char) :
    scan (c :: rest) = (scan rest).map fun found => (.char c :: found.1, found.2) := by
  have haccepted : ¬ (decide (c.toNat < 0x20) || decide (c = '\\')) = true := by
    rw [Bool.or_eq_true, decide_eq_true_iff, decide_eq_true_iff]
    exact not_or.mpr ⟨Nat.not_lt.mpr hhigh, hbackslash⟩
  rw [scan, if_neg haccepted]
  · cases scan rest <;> rfl
  · exact hquote
  · exact fun _ _ _ _ _ hc _ => hbackslash hc
  · exact fun _ _ hc _ => hbackslash hc

/-- A unit below the surrogates is a character by itself. -/
theorem join_control {n : Nat} (h : n < 0x20) (pieces : List Piece) :
    join (.unit n :: pieces) = (join pieces).map (Char.ofNat n :: ·) := by
  have htrailing : ¬ isTrailing n = true := by
    rw [isTrailing, Bool.and_eq_true, decide_eq_true_iff, decide_eq_true_iff]
    omega
  have hleading : ¬ isLeading n = true := by
    rw [isLeading, Bool.and_eq_true, decide_eq_true_iff, decide_eq_true_iff]
    omega
  rw [join.eq_def]
  simp only [if_neg htrailing, if_neg hleading]

/-- **A written character makes one piece**, and the piece stands for the character. -/
theorem Written.exists_piece {c : Char} {cs : List Char} (h : Written c cs) : ∃ piece : Piece,
    (∀ rest, scan (cs ++ rest) = (scan rest).map fun found => (piece :: found.1, found.2)) ∧
    ∀ pieces, join (piece :: pieces) = (join pieces).map (c :: ·) := by
  cases h with
  | short stands => exact ⟨.char c, scan_escaped stands, fun _ => by rw [join]⟩
  | control low =>
    refine ⟨.unit c.toNat, scan_unit (hexUnit?_hexDigit _ low), fun pieces => ?_⟩
    rw [join_control low, Char.ofNat_toNat]
  | plain hquote hbackslash high =>
    exact ⟨.char c, scan_plain hquote hbackslash high, fun _ => by rw [join]⟩

/-! ## Reading a literal -/

/-- The pieces of a literal end at its closing quote and are those of its text. -/
theorem scan_encode (cs rest : List Char) : ∃ pieces,
    scan (encode cs ++ '"' :: rest) = some (pieces, rest) ∧ join pieces = some cs := by
  induction cs with
  | nil => exact ⟨[], by rw [encode_nil, List.nil_append, scan], by rw [join]⟩
  | cons c cs ih =>
    obtain ⟨pieces, hscan, hjoin⟩ := ih
    obtain ⟨piece, hfirst, htext⟩ := (written_encodeChar c).exists_piece
    refine ⟨piece :: pieces, ?_, ?_⟩
    · rw [encode_cons, List.append_assoc, hfirst, hscan, Option.map_some]
    · rw [htext, hjoin, Option.map_some]

theorem toList_quote_append (s : String) (rest : List Char) :
    (quote s).toList ++ rest = '"' :: (encode s.toList ++ '"' :: rest) := by
  rw [toList_quote, List.cons_append, List.append_assoc, List.singleton_append]

/-- **A literal is read back**, and what follows it is left. -/
theorem read_quote (s : String) (rest : List Char) :
    read ((quote s).toList ++ rest) = some (s.toList, rest) := by
  obtain ⟨pieces, hscan, hjoin⟩ := scan_encode s.toList rest
  rw [toList_quote_append, read, hscan]
  simp [hjoin]

/-- **A literal ends by itself**: no two of them begin the same text. -/
theorem quote_append_inj {s t : String} {x y : List Char}
    (h : (quote s).toList ++ x = (quote t).toList ++ y) : s = t ∧ x = y := by
  have hread := read_quote s x
  rw [h, read_quote t y, Option.some.injEq, Prod.mk.injEq] at hread
  exact ⟨String.toList_injective hread.1.symm, hread.2.symm⟩

/-! ## The characters of a literal -/

theorem hexDigit_high : ∀ n < 16, 0x20 ≤ (hexDigit n).toNat := by decide

theorem high_of_escaped? {e c : Char} (h : escaped? e = some c) : 0x20 ≤ e.toNat := by
  refine Nat.le_of_not_lt fun hlow => ?_
  have hnone : ∀ n < 0x20, escaped? (Char.ofNat n) = none := by decide
  have hnothing := hnone e.toNat hlow
  rw [Char.ofNat_toNat, h] at hnothing
  cases hnothing

theorem Written.high {c : Char} {cs : List Char} (h : Written c cs) :
    ∀ x ∈ cs, 0x20 ≤ x.toNat := by
  cases h with
  | short stands =>
    simp only [List.forall_mem_cons, List.not_mem_nil, false_imp_iff, implies_true, and_true]
    exact ⟨by decide, high_of_escaped? stands⟩
  | control low =>
    simp only [List.forall_mem_cons, List.not_mem_nil, false_imp_iff, implies_true, and_true]
    exact ⟨by decide, by decide, by decide, by decide, hexDigit_high (c.toNat / 16) (by omega),
      hexDigit_high (c.toNat % 16) (by omega)⟩
  | plain hquote hbackslash high => exact List.forall_mem_singleton.mpr high

/-- **No control character stands in a literal.** -/
theorem quote_high (s : String) : ∀ c ∈ (quote s).toList, 0x20 ≤ c.toNat := by
  intro c hc
  rw [toList_quote, List.mem_cons, List.mem_append, List.mem_singleton, encode,
    List.mem_flatMap] at hc
  rcases hc with rfl | ⟨a, -, hc⟩ | rfl
  · decide
  · exact (written_encodeChar a).high c hc
  · decide

end IdlBinding.Quoted
